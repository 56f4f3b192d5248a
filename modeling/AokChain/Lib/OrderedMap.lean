import Mathlib.Data.List.Basic

/-!
# Ordered maps

A `std::map`-style map: a list of entries with distinct keys, kept in
increasing order of a comparison so that walking the list walks the map in key
order.  `alter` is the one update: the entry of a key gets a new value, or a
new entry goes before the first greater key.
-/

namespace OrderedMap

variable {K V : Type} [DecidableEq K]

/-- The value at `k`. -/
def find? (k : K) (m : List (K × V)) : Option V := (m.find? (·.1 = k)).map Prod.snd

/-- Insert an entry before the first entry with a greater key. -/
def insertSorted (lt : K → K → Bool) (e : K × V) : List (K × V) → List (K × V)
  | [] => [e]
  | e' :: m => if lt e.1 e'.1 then e :: e' :: m else e' :: insertSorted lt e m

/-- Set the value at `k` to `f` of its current value. -/
def alter (lt : K → K → Bool) (k : K) (f : Option V → V) (m : List (K × V)) : List (K × V) :=
  match find? k m with
  | some v => m.map fun e => if e.1 = k then (k, f (some v)) else e
  | none => insertSorted lt (k, f none) m

variable (lt : K → K → Bool) (f : Option V → V)

@[simp] theorem find?_nil (k : K) : find? k ([] : List (K × V)) = none := rfl

theorem find?_cons (k k' : K) (v : V) (m : List (K × V)) :
    find? k ((k', v) :: m) = if k' = k then some v else find? k m := by
  by_cases h : k' = k <;> simp [find?, h]

theorem find?_insertSorted (k : K) (v : V) (j : K) :
    ∀ m : List (K × V), find? j m = none →
      find? j (insertSorted lt (k, v) m) = if k = j then some v else none
  | [], _ => by simp [insertSorted, find?_cons]
  | (k', v') :: m, h => by
    rw [find?_cons] at h
    by_cases hk : k' = j
    · simp [hk] at h
    · simp only [hk, if_false] at h
      unfold insertSorted
      split
      · simp [find?_cons, hk, h]
      · simp [find?_cons, hk, find?_insertSorted k v j m h]

theorem find?_insertSorted_ne (k : K) (v : V) {j : K} (hne : k ≠ j) :
    ∀ m : List (K × V), find? j (insertSorted lt (k, v) m) = find? j m
  | [] => by simp [insertSorted, find?_cons, hne]
  | (k', v') :: m => by
    unfold insertSorted
    split
    · rw [find?_cons, if_neg hne]
    · rw [find?_cons, find?_cons, find?_insertSorted_ne k v hne m]

theorem find?_map_set (k j : K) (w : V) :
    ∀ m : List (K × V), find? j (m.map fun e => if e.1 = k then (k, w) else e) =
      if j = k then (find? k m).map fun _ => w else find? j m
  | [] => by simp
  | (k', v') :: m => by
    simp only [List.map_cons]
    by_cases hk : k' = k
    · subst hk
      by_cases hj : j = k'
      · subst hj; simp [find?_cons]
      · simp [find?_cons, hj, Ne.symm hj, find?_map_set k' j w m]
    · simp only [hk, if_false, find?_cons, find?_map_set k j w m]
      by_cases hj : j = k
      · subst hj; simp [hk]
      · simp [hj]

@[simp] theorem find?_alter_self (k : K) (m : List (K × V)) :
    find? k (alter lt k f m) = some (f (find? k m)) := by
  unfold alter
  cases h : find? k m with
  | some v => simp [find?_map_set, h]
  | none => simp [find?_insertSorted lt _ _ k m h]

theorem find?_alter_ne {k j : K} (hne : j ≠ k) (m : List (K × V)) :
    find? j (alter lt k f m) = find? j m := by
  unfold alter
  cases find? k m with
  | some v => simp [find?_map_set, hne]
  | none => exact find?_insertSorted_ne lt _ _ (Ne.symm hne) m

/-- The keys of a map, in order. -/
def keys (m : List (K × V)) : List K := m.map Prod.fst

theorem find?_eq_none_iff (k : K) (m : List (K × V)) : find? k m = none ↔ k ∉ keys m := by
  simp only [find?, keys, Option.map_eq_none_iff, List.find?_eq_none, decide_eq_true_eq, List.mem_map]
  constructor
  · rintro h ⟨e, he, rfl⟩
    exact h e he rfl
  · intro h e he hk
    exact h ⟨e, he, hk⟩

omit [DecidableEq K] in
theorem keys_insertSorted_perm (e : K × V) : ∀ m : List (K × V), (keys (insertSorted lt e m)).Perm (e.1 :: keys m)
  | [] => by simp [insertSorted, keys]
  | e' :: m => by
    unfold insertSorted
    split
    · simp [keys]
    · simp only [keys, List.map_cons] at *
      exact ((keys_insertSorted_perm e m).cons e'.1).trans (List.Perm.swap _ _ _)

theorem keys_map_set (k : K) (w : V) (m : List (K × V)) :
    keys (m.map fun e => if e.1 = k then (k, w) else e) = keys m := by
  simp only [keys, List.map_map]
  congr 1
  funext e
  by_cases h : e.1 = k <;> simp [h]

/-- `alter` keeps the keys distinct. -/
theorem keys_alter_nodup (k : K) {m : List (K × V)} (h : (keys m).Nodup) : (keys (alter lt k f m)).Nodup := by
  unfold alter
  cases hk : find? k m with
  | some v => rwa [keys_map_set]
  | none =>
    have hnew : k ∉ keys m := (find?_eq_none_iff k m).mp hk
    exact (keys_insertSorted_perm lt _ m).nodup_iff.mpr (List.nodup_cons.mpr ⟨hnew, h⟩)

/-- Remove the entry of `k`. -/
def erase (k : K) (m : List (K × V)) : List (K × V) := m.filter fun e => e.1 ≠ k

@[simp] theorem find?_erase_self (k : K) (m : List (K × V)) : find? k (erase k m) = none := by
  simp [find?, erase, List.find?_eq_none]

theorem find?_erase_ne {k j : K} (hne : j ≠ k) (m : List (K × V)) : find? j (erase k m) = find? j m := by
  induction m with
  | nil => rfl
  | cons e m ih =>
    obtain ⟨k', v'⟩ := e
    by_cases hk : k' = k
    · subst hk
      rw [erase, List.filter_cons_of_neg (by simp), ← erase, ih, find?_cons, if_neg (Ne.symm hne)]
    · rw [erase, List.filter_cons_of_pos (by simpa using hk), ← erase, find?_cons, find?_cons, ih]

theorem keys_erase (k : K) (m : List (K × V)) : keys (erase k m) = (keys m).filter (· ≠ k) := by
  simp only [keys, erase, List.filter_map]
  rfl

theorem keys_erase_nodup (k : K) {m : List (K × V)} (h : (keys m).Nodup) : (keys (erase k m)).Nodup := by
  rw [keys_erase]
  exact h.filter _

theorem find?_eq_some_mem {k : K} {v : V} {m : List (K × V)} (h : find? k m = some v) : (k, v) ∈ m := by
  simp only [find?, Option.map_eq_some_iff] at h
  obtain ⟨e, he, rfl⟩ := h
  have hk : e.1 = k := by simpa using List.find?_some he
  rw [← hk]
  exact List.mem_of_find?_eq_some he

theorem find?_append (k : K) (m m' : List (K × V)) : find? k (m ++ m') = (find? k m).or (find? k m') := by
  simp only [find?, List.find?_append]
  cases m.find? (·.1 = k) <;> rfl

/-- Without the last entry, its key is gone and the others stay. -/
theorem find?_dropLast (j : K) {m : List (K × V)} (h : (keys m).Nodup) :
    find? j m.dropLast = if m.getLast?.map Prod.fst = some j then none else find? j m := by
  rcases List.eq_nil_or_concat' m with rfl | ⟨m, e, rfl⟩
  · rfl
  · have hlast : e.1 ∉ keys m := by
      have hsplit : (keys m ++ [e.1]).Nodup := by simpa [keys] using h
      intro hmem
      exact (List.nodup_append.mp hsplit).2.2 e.1 hmem e.1 (by simp) rfl
    rw [List.dropLast_concat, List.getLast?_concat, find?_append]
    by_cases hj : e.1 = j
    · subst hj
      simp [(find?_eq_none_iff _ _).mpr hlast]
    · have hnone : find? j [e] = none := by simp [find?, hj]
      simp [hj, hnone]

theorem find?_eq_some_iff {k : K} {v : V} {m : List (K × V)} (h : (keys m).Nodup) :
    find? k m = some v ↔ (k, v) ∈ m := by
  refine ⟨find?_eq_some_mem, fun hmem => ?_⟩
  induction m with
  | nil => simp at hmem
  | cons e m ih =>
    obtain ⟨k', v'⟩ := e
    simp only [keys, List.map_cons, List.nodup_cons] at h
    rw [find?_cons]
    rcases List.mem_cons.mp hmem with heq | hmem
    · simp only [Prod.mk.injEq] at heq
      simp [heq.1, heq.2]
    · have hne : k' ≠ k := fun heq => h.1 (heq ▸ List.mem_map_of_mem hmem)
      rw [if_neg hne]
      exact ih h.2 hmem

/-- With distinct keys, the entries of a key found are that one entry. -/
theorem filter_key_eq {k : K} {v : V} {m : List (K × V)} (h : (keys m).Nodup) (hk : find? k m = some v) :
    m.filter (fun e => e.1 = k) = [(k, v)] := by
  induction m with
  | nil => simp at hk
  | cons e m ih =>
    obtain ⟨k', v'⟩ := e
    simp only [keys, List.map_cons, List.nodup_cons] at h
    rw [find?_cons] at hk
    by_cases hkk : k' = k
    · subst hkk
      simp only [if_true, Option.some.injEq] at hk
      subst hk
      have hnone : m.filter (fun e => e.1 = k') = [] := List.filter_eq_nil_iff.mpr fun e he heq =>
        h.1 (by rw [← of_decide_eq_true heq]; exact List.mem_map_of_mem he)
      simp [hnone]
    · rw [if_neg hkk] at hk
      simp [hkk, ih h.2 hk]

/-- Entries with distinct keys in another order hold the same values. -/
theorem find?_perm {m m' : List (K × V)} (hp : m.Perm m') (h : (keys m).Nodup) (k : K) :
    find? k m = find? k m' := by
  have h' : (keys m').Nodup := (hp.map Prod.fst).nodup_iff.mp h
  apply Option.ext
  intro v
  rw [find?_eq_some_iff h, find?_eq_some_iff h', hp.mem_iff]

end OrderedMap
