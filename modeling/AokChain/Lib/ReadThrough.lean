import AokChain.Lib.OrderedMap

/-!
# Read-through layers

A key-value store in three layers: a dirty cache on top, a shared cache under
it and a backing store at the bottom.  A read (`fetch`) finds the first layer
that holds the key and copies its value into the top layer; a write changes the
top layer only; `flush` writes the top layer into the middle one and empties
it.  What a reader of the three layers sees is `view`, the value of the first
layer that holds a key: reads and flushes keep it, and a write changes it at
its key only.
-/

namespace ReadThrough

structure Layers (K V : Type) where
  top : List (K × V)
  mid : List (K × V)
  bottom : List (K × V)
  deriving DecidableEq, Repr

namespace Layers

variable {K V : Type} [DecidableEq K] (lt : K → K → Bool) (L : Layers K V)

/-- The value of the first layer that holds `k`. -/
def view (k : K) : Option V :=
  (OrderedMap.find? k L.top).or ((OrderedMap.find? k L.mid).or (OrderedMap.find? k L.bottom))

/-- A read: whether some layer holds `k`, and the layers with the value of the
first lower layer that does copied into the top. -/
def fetch (k : K) : Bool × Layers K V :=
  match OrderedMap.find? k L.top with
  | some _ => (true, L)
  | none =>
    match (OrderedMap.find? k L.mid).or (OrderedMap.find? k L.bottom) with
    | some v => (true, { L with top := OrderedMap.alter lt k (fun _ => v) L.top })
    | none => (false, L)

/-- A write of `f` of the top layer's value. -/
def write (k : K) (f : Option V → V) : Layers K V := { L with top := OrderedMap.alter lt k f L.top }

/-- The top layer written into the middle one, entry by entry, and emptied. -/
def flush : Layers K V :=
  { L with top := [], mid := L.top.foldl (fun m e => OrderedMap.alter lt e.1 (fun _ => e.2) m) L.mid }

/-- The top layer has one entry a key. -/
def Keyed : Prop := (OrderedMap.keys L.top).Nodup

variable {L}

section Fetch

theorem fetch_fst (k : K) : (L.fetch lt k).1 = (L.view k).isSome := by
  unfold fetch view
  cases h₁ : OrderedMap.find? k L.top with
  | some v => rfl
  | none => cases h₂ : (OrderedMap.find? k L.mid).or (OrderedMap.find? k L.bottom) <;> simp

theorem fetch_eq_of_view {k : K} (h : L.view k = none) : L.fetch lt k = (false, L) := by
  have htop : OrderedMap.find? k L.top = none := by simp_all [view]
  have hrest : (OrderedMap.find? k L.mid).or (OrderedMap.find? k L.bottom) = none := by simp_all [view]
  simp [fetch, htop, hrest]

/-- A read changes no value a reader sees. -/
theorem view_fetch (k j : K) : (L.fetch lt k).2.view j = L.view j := by
  unfold fetch
  cases h₁ : OrderedMap.find? k L.top with
  | some v => rfl
  | none =>
    cases h₂ : (OrderedMap.find? k L.mid).or (OrderedMap.find? k L.bottom) with
    | none => rfl
    | some v =>
      by_cases hj : j = k
      · subst hj
        simp [view, h₁, h₂]
      · simp [view, OrderedMap.find?_alter_ne lt _ hj]

/-- After a read the top layer holds what a reader sees. -/
theorem find?_top_fetch (k : K) : OrderedMap.find? k (L.fetch lt k).2.top = L.view k := by
  unfold fetch view
  cases h₁ : OrderedMap.find? k L.top with
  | some v => simp [h₁]
  | none =>
    cases h₂ : (OrderedMap.find? k L.mid).or (OrderedMap.find? k L.bottom) with
    | none => simp [h₁]
    | some v => simp

theorem keyed_fetch (k : K) (h : L.Keyed) : (L.fetch lt k).2.Keyed := by
  unfold fetch
  split
  · exact h
  · split
    · rename_i v _
      exact OrderedMap.keys_alter_nodup lt (fun _ => v) k h
    · exact h

end Fetch

section Write

variable (f : Option V → V)

theorem view_write_self (k : K) : (L.write lt k f).view k = some (f (OrderedMap.find? k L.top)) := by
  simp [view, write]

theorem view_write_ne {k j : K} (hne : j ≠ k) : (L.write lt k f).view j = L.view j := by
  simp [view, write, OrderedMap.find?_alter_ne lt f hne]

/-- A read and a write of its key: `f` gets what a reader saw. -/
theorem view_write_fetch (k : K) : ((L.fetch lt k).2.write lt k f).view k = some (f (L.view k)) := by
  rw [view_write_self, find?_top_fetch]

theorem view_write_fetch_ne {k j : K} (hne : j ≠ k) : ((L.fetch lt k).2.write lt k f).view j = L.view j := by
  rw [view_write_ne lt f hne, view_fetch]

theorem keyed_write (k : K) (h : L.Keyed) : (L.write lt k f).Keyed := OrderedMap.keys_alter_nodup lt f k h

end Write

section Flush

/-- Writing entries with distinct keys one after another: a key written reads
its entry, any other what it read before. -/
theorem find?_foldl_alter (j : K) : ∀ (m acc : List (K × V)), (OrderedMap.keys m).Nodup →
    OrderedMap.find? j (m.foldl (fun acc e => OrderedMap.alter lt e.1 (fun _ => e.2) acc) acc) =
      (OrderedMap.find? j m).or (OrderedMap.find? j acc)
  | [], acc, _ => by simp
  | (k, v) :: m, acc, h => by
    simp only [OrderedMap.keys, List.map_cons, List.nodup_cons] at h
    rw [List.foldl_cons, find?_foldl_alter j m _ h.2, OrderedMap.find?_cons]
    by_cases hj : j = k
    · -- the later entries do not hold `k`, so its own write stays
      subst hj
      have hnone : OrderedMap.find? j m = none := (OrderedMap.find?_eq_none_iff j m).mpr h.1
      simp [hnone]
    · simp [OrderedMap.find?_alter_ne lt _ hj, Ne.symm hj]

/-- A flush changes no value a reader sees. -/
theorem view_flush (h : L.Keyed) (j : K) : (L.flush lt).view j = L.view j := by
  simp only [view, flush, OrderedMap.find?_nil, Option.none_or]
  rw [find?_foldl_alter lt j _ _ h, Option.or_assoc]

theorem keyed_flush : (L.flush lt).Keyed := List.nodup_nil

end Flush

end Layers

end ReadThrough
