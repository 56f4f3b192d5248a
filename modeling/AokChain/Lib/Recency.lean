import AokChain.Lib.OrderedMap
import Mathlib.Data.List.Induction

/-!
# Recency lists

A cache of bounded capacity that evicts its least recently used entry, as the
list of its entries from the most to the least recently used.  A put moves its
key to the front with the new value and evicts the last entry where the list
outgrows the capacity; a get moves a key found to the front; an erase removes
it.  Over every run from the empty list the keys stay distinct and within the
capacity, a key holds the value of its last put unless an erase or an eviction
of it came since (`find?_run_nil`), and the entries stay in decreasing order of
their last use, so that an eviction takes the key used least recently
(`evicted_leastRecent`).
-/

namespace Recency

open OrderedMap

variable {K V : Type} [DecidableEq K]

/-- An access of the cache. -/
inductive Op (K V : Type)
  | put (k : K) (v : V)
  | get (k : K)
  | erase (k : K)
  deriving DecidableEq, Repr

namespace Op

/-- The key an operation names. -/
def key : Op K V → K
  | put k _ => k
  | get k => k
  | erase k => k

/-- A put or a get uses its key; an erase does not. -/
def uses : Op K V → Bool
  | put _ _ => true
  | get _ => true
  | erase _ => false

end Op

/-- The entry of a put in front, its old entry removed. -/
def insertFront (k : K) (v : V) (l : List (K × V)) : List (K × V) := (k, v) :: erase k l

/-- A put: the entry in front, and the last entry evicted where the list
outgrows the capacity. -/
def put (cap : ℕ) (k : K) (v : V) (l : List (K × V)) : List (K × V) :=
  if cap < (insertFront k v l).length then (insertFront k v l).dropLast else insertFront k v l

/-- The key a put evicts. -/
def evicted (cap : ℕ) (k : K) (v : V) (l : List (K × V)) : Option K :=
  if cap < (insertFront k v l).length then ((insertFront k v l).getLast?).map Prod.fst else none

/-- A get: the entry found moves to the front. -/
def touch (k : K) (l : List (K × V)) : List (K × V) :=
  match find? k l with
  | some v => insertFront k v l
  | none => l

def apply (cap : ℕ) : Op K V → List (K × V) → List (K × V)
  | .put k v, l => put cap k v l
  | .get k, l => touch k l
  | .erase k, l => erase k l

def stepEvicted (cap : ℕ) : Op K V → List (K × V) → Option K
  | .put k v, l => evicted cap k v l
  | _, _ => none

def run (cap : ℕ) (l : List (K × V)) (ops : List (Op K V)) : List (K × V) :=
  ops.foldl (fun l op => apply cap op l) l

/-- Each access of a run with the key it evicted. -/
def trace (cap : ℕ) : List (K × V) → List (Op K V) → List (Op K V × Option K)
  | _, [] => []
  | l, op :: ops => (op, stepEvicted cap op l) :: trace cap (apply cap op l) ops

/-- What an access did at key `j`: a new value, a removal, or nothing. -/
def effect (j : K) : Op K V × Option K → Option (Option V)
  | (op, e) =>
    if e = some j then some none
    else
      match op with
      | .put k v => if k = j then some (some v) else none
      | .erase k => if k = j then some none else none
      | .get _ => none

/-- The value at `j` after a trace from the empty list: that of the last put of
`j`, unless an erase or an eviction of `j` came after it. -/
def lastValue (j : K) (steps : List (Op K V × Option K)) : Option V :=
  steps.foldl (fun acc s => (effect j s).getD acc) none

/-- One plus the position of the last put or get of `j`, `0` if there is none. -/
def lastUse (ops : List (Op K V)) (j : K) : ℕ :=
  ops.zipIdx.foldl (fun acc s => if s.1.uses && s.1.key == j then s.2 + 1 else acc) 0

section Keys

theorem keys_insertFront (k : K) (v : V) (l : List (K × V)) :
    keys (insertFront k v l) = k :: (keys l).filter (· ≠ k) := by
  show k :: keys (erase k l) = _
  rw [keys_erase]

theorem keys_insertFront_nodup (k : K) (v : V) {l : List (K × V)} (h : (keys l).Nodup) :
    (keys (insertFront k v l)).Nodup := by
  rw [keys_insertFront]
  exact List.nodup_cons.mpr ⟨by simp, h.filter _⟩

theorem keys_apply_nodup (cap : ℕ) (op : Op K V) {l : List (K × V)} (h : (keys l).Nodup) :
    (keys (apply cap op l)).Nodup := by
  cases op with
  | put k v =>
    have hf := keys_insertFront_nodup k v h
    by_cases hc : cap < (insertFront k v l).length
    · simp only [apply, put, hc, if_true]
      exact hf.sublist ((List.dropLast_sublist _).map _)
    · simp only [apply, put, hc, if_false]
      exact hf
  | get k =>
    show (keys (touch k l)).Nodup
    unfold touch
    split
    · exact keys_insertFront_nodup k _ h
    · exact h
  | erase k => exact keys_erase_nodup k h

end Keys

section Values

theorem find?_insertFront (k : K) (v : V) (l : List (K × V)) (j : K) :
    find? j (insertFront k v l) = if k = j then some v else find? j l := by
  rw [insertFront, find?_cons]
  by_cases hk : k = j
  · simp [hk]
  · simp [hk, find?_erase_ne (Ne.symm hk)]

theorem find?_erase (k : K) (l : List (K × V)) (j : K) :
    find? j (erase k l) = if k = j then none else find? j l := by
  by_cases hk : k = j
  · subst hk; simp
  · simp [hk, find?_erase_ne (Ne.symm hk)]

/-- One access at key `j`: what its effect says, and otherwise what `j` held. -/
theorem find?_apply (cap : ℕ) (op : Op K V) {l : List (K × V)} (h : (keys l).Nodup) (j : K) :
    find? j (apply cap op l) = (effect j (op, stepEvicted cap op l)).getD (find? j l) := by
  cases op with
  | put k v =>
    by_cases hc : cap < (insertFront k v l).length
    · -- the last entry goes: its key reads nothing
      simp only [apply, put, stepEvicted, evicted, hc, if_true,
        find?_dropLast j (keys_insertFront_nodup k v h), find?_insertFront]
      by_cases he : (insertFront k v l).getLast?.map Prod.fst = some j
      · simp [effect, he]
      · by_cases hk : k = j
        · subst hk; simp [effect, he]
        · simp [effect, he, hk]
    · simp only [apply, put, stepEvicted, evicted, hc, if_false, find?_insertFront]
      by_cases hk : k = j <;> simp [effect, hk]
  | get k =>
    show find? j (touch k l) = _
    unfold touch
    cases hk : find? k l with
    | none => simp [effect, stepEvicted]
    | some v =>
      rw [find?_insertFront]
      by_cases hkj : k = j
      · subst hkj; simp [effect, stepEvicted, hk]
      · simp [effect, stepEvicted, hkj]
  | erase k =>
    simp only [apply, stepEvicted, find?_erase]
    by_cases hk : k = j <;> simp [effect, hk]

/-- Over a run, what a key holds is folded from the effects of its accesses. -/
theorem find?_run (cap : ℕ) (j : K) : ∀ (ops : List (Op K V)) (l : List (K × V)), (keys l).Nodup →
    find? j (run cap l ops) = (trace cap l ops).foldl (fun acc s => (effect j s).getD acc) (find? j l)
  | [], _, _ => rfl
  | op :: ops, l, h => by
    rw [run, List.foldl_cons, ← run, find?_run cap j ops _ (keys_apply_nodup cap op h), find?_apply cap op h j]
    rfl

/-- From the empty list, a key holds the value of its last put, unless it was
erased or evicted since. -/
theorem find?_run_nil (cap : ℕ) (ops : List (Op K V)) (j : K) :
    find? j (run cap [] ops) = lastValue j (trace cap [] ops) :=
  find?_run cap j ops [] List.nodup_nil

end Values

section Size

theorem length_erase_lt {k : K} {v : V} {l : List (K × V)} (h : find? k l = some v) : (erase k l).length < l.length := by
  have hmem := find?_eq_some_mem h
  have hle : (erase k l).length ≤ l.length := List.length_filter_le _ _
  have hne : (erase k l).length ≠ l.length := fun heq =>
    absurd (List.length_filter_eq_length_iff.mp heq (k, v) hmem) (by simp)
  omega

theorem length_insertFront_le (k : K) (v : V) (l : List (K × V)) : (insertFront k v l).length ≤ l.length + 1 := by
  simp only [insertFront, List.length_cons, erase]
  have := List.length_filter_le (fun e : K × V => decide (e.1 ≠ k)) l
  omega

/-- Within the capacity a list stays: a put that outgrows it evicts. -/
theorem length_apply_le (cap : ℕ) (op : Op K V) {l : List (K × V)} (h : l.length ≤ cap) :
    (apply cap op l).length ≤ cap := by
  cases op with
  | put k v =>
    have hf := length_insertFront_le k v l
    by_cases hc : cap < (insertFront k v l).length
    · simp only [apply, put, hc, if_true, List.length_dropLast]
      omega
    · simp only [apply, put, hc, if_false]
      omega
  | get k =>
    show (touch k l).length ≤ cap
    unfold touch
    cases hk : find? k l with
    | none => exact h
    | some v =>
      have := length_erase_lt hk
      simp only [insertFront, List.length_cons]
      omega
  | erase k => exact Nat.le_trans (List.length_filter_le _ _) h

end Size

section Recency

theorem lastUse_append_singleton (ops : List (Op K V)) (op : Op K V) (j : K) :
    lastUse (ops ++ [op]) j = if op.uses && op.key == j then ops.length + 1 else lastUse ops j := by
  simp [lastUse, List.zipIdx_append, List.foldl_append]

theorem lastUse_le (ops : List (Op K V)) (j : K) : lastUse ops j ≤ ops.length := by
  induction ops using List.reverseRecOn with
  | nil => simp [lastUse]
  | append_singleton ops op ih =>
    rw [lastUse_append_singleton]
    split
    · simp
    · simp only [List.length_append, List.length_singleton]
      omega

/-- The entries, first to last, in decreasing order of their last use. -/
def Ordered (ops : List (Op K V)) (l : List (K × V)) : Prop :=
  l.Pairwise fun a b => lastUse ops b.1 < lastUse ops a.1

theorem Ordered.congr {ops ops' : List (Op K V)} {l : List (K × V)}
    (h : ∀ a ∈ l, lastUse ops' a.1 = lastUse ops a.1) (hl : Ordered ops l) : Ordered ops' l :=
  hl.imp_of_mem fun ha hb hab => by rw [h _ ha, h _ hb]; exact hab

/-- A use of `k` puts it in front of every entry. -/
theorem Ordered.insertFront {ops : List (Op K V)} {l : List (K × V)} (hl : Ordered ops l) (op : Op K V) (k : K)
    (hop : (op.uses && op.key == k) = true) (v : V) : Ordered (ops ++ [op]) (insertFront k v l) := by
  have hother : ∀ a ∈ erase k l, lastUse (ops ++ [op]) a.1 = lastUse ops a.1 := by
    intro a ha
    have hak : a.1 ≠ k := by simpa [erase] using (List.mem_filter.mp ha).2
    rw [lastUse_append_singleton]
    have : (op.uses && op.key == a.1) = false := by
      simp only [Bool.and_eq_true, beq_iff_eq] at hop
      simp [hop.1, hop.2, Ne.symm hak]
    simp [this]
  refine List.pairwise_cons.mpr ⟨fun a ha => ?_, Ordered.congr ?_ (hl.sublist List.filter_sublist)⟩
  · rw [hother a ha, lastUse_append_singleton, if_pos hop]
    have := lastUse_le ops a.1
    omega
  · exact fun a ha => hother a ha

theorem Ordered.apply (cap : ℕ) (op : Op K V) {ops : List (Op K V)} {l : List (K × V)} (hl : Ordered ops l) :
    Ordered (ops ++ [op]) (Recency.apply cap op l) := by
  cases op with
  | put k v =>
    have hf := hl.insertFront (.put k v) k (by simp [Op.uses, Op.key]) v
    by_cases hc : cap < (Recency.insertFront k v l).length
    · simp only [Recency.apply, put, hc, if_true]
      exact hf.sublist (List.dropLast_sublist _)
    · simp only [Recency.apply, put, hc, if_false]
      exact hf
  | get k =>
    show Ordered _ (touch k l)
    unfold touch
    cases hk : find? k l with
    | some v => exact hl.insertFront (.get k) k (by simp [Op.uses, Op.key]) v
    | none =>
      -- a get of an absent key changes only its own last use
      refine hl.congr fun a ha => ?_
      have hak : a.1 ≠ k := fun heq => by
        have : a.1 ∈ keys l := List.mem_map_of_mem ha
        rw [heq] at this
        exact (find?_eq_none_iff k l).mp hk this
      rw [lastUse_append_singleton]
      simp [Op.uses, Op.key, Ne.symm hak]
  | erase k =>
    refine Ordered.congr (fun a _ => ?_) (hl.sublist List.filter_sublist)
    rw [lastUse_append_singleton]
    simp [Op.uses]

end Recency

section Runs

/-- What every run from the empty list keeps: distinct keys, at most `cap`
entries, in decreasing order of last use. -/
structure Reachable (cap : ℕ) (ops : List (Op K V)) (l : List (K × V)) : Prop where
  nodup : (keys l).Nodup
  length_le : l.length ≤ cap
  ordered : Ordered ops l

theorem run_append_singleton (cap : ℕ) (l : List (K × V)) (ops : List (Op K V)) (op : Op K V) :
    run cap l (ops ++ [op]) = apply cap op (run cap l ops) := by
  simp [run, List.foldl_append]

theorem reachable_run (cap : ℕ) (ops : List (Op K V)) : Reachable cap ops (run cap [] ops) := by
  induction ops using List.reverseRecOn with
  | nil => exact ⟨List.nodup_nil, Nat.zero_le _, List.Pairwise.nil⟩
  | append_singleton ops op ih =>
    rw [run_append_singleton]
    exact ⟨keys_apply_nodup cap op ih.nodup, length_apply_le cap op ih.length_le, ih.ordered.apply cap op⟩

/-- An eviction takes the least recently used key: a key new to a full list
evicts the last entry, and every other entry was put or got after it. -/
theorem evicted_leastRecent {cap : ℕ} (hcap : 1 ≤ cap) {ops : List (Op K V)} {l : List (K × V)}
    (hl : Reachable cap ops l) {k : K} {v : V} {e : K} (he : evicted cap k v l = some e) :
    e ∈ keys l ∧ e ≠ k ∧ ∀ j ∈ keys l, j ≠ e → lastUse ops e < lastUse ops j := by
  have hc : cap < (insertFront k v l).length := by
    by_contra hc
    simp [evicted, hc] at he
  -- a key already there takes its own place, so only a new key evicts
  have hk : k ∉ keys l := by
    intro hmem
    obtain ⟨w, hw⟩ := Option.ne_none_iff_exists'.mp (mt (find?_eq_none_iff k l).mp (not_not.mpr hmem))
    have := length_erase_lt hw
    simp only [insertFront, List.length_cons] at hc
    have := hl.length_le
    omega
  have herase : erase k l = l := List.filter_eq_self.mpr fun a ha => by
    have : a.1 ≠ k := fun heq => hk (heq ▸ List.mem_map_of_mem ha)
    simpa using this
  rcases List.eq_nil_or_concat' l with rfl | ⟨init, last, rfl⟩
  · simp [insertFront, erase] at hc
    omega
  · have hlast : e = last.1 := by
      rw [evicted, if_pos hc] at he
      simp only [insertFront, herase] at he
      rw [← List.cons_append, List.getLast?_concat] at he
      simp at he
      exact he.symm
    subst hlast
    refine ⟨by simp [keys], fun heq => hk (heq ▸ by simp [keys]), fun j hj hne => ?_⟩
    obtain ⟨a, ha, rfl⟩ := List.mem_map.mp hj
    have hinit : a ∈ init := by
      rcases List.mem_append.mp ha with h | h
      · exact h
      · exact absurd (by simp at h; rw [h]) hne
    exact (List.pairwise_append.mp hl.ordered).2.2 a hinit last (by simp)

/-- A put that removes a key other than its own evicts it. -/
theorem evicted_of_removed {cap : ℕ} {k e : K} {v : V} {l : List (K × V)} (he : e ∈ keys l) (hne : e ≠ k)
    (hout : e ∉ keys (put cap k v l)) : evicted cap k v l = some e := by
  have hin : e ∈ keys (insertFront k v l) := by
    rw [keys_insertFront]
    exact List.mem_cons_of_mem _ (List.mem_filter.mpr ⟨he, by simpa using hne⟩)
  by_cases hc : cap < (insertFront k v l).length
  · rw [put, if_pos hc] at hout
    rw [evicted, if_pos hc]
    -- what the eviction drops is the last entry
    rcases List.eq_nil_or_concat' (insertFront k v l) with hnil | ⟨init, last, hsplit⟩
    · simp [hnil, keys] at hin
    · rw [hsplit] at hin hout
      rw [hsplit, List.getLast?_concat]
      simp only [List.dropLast_concat] at hout
      simp only [keys, List.map_append, List.map_singleton, List.mem_append, List.mem_singleton] at hin
      rcases hin with h | h
      · exact absurd h hout
      · simp [h]
  · rw [put, if_neg hc] at hout
    exact absurd hin hout

end Runs

end Recency
