import Mathlib.Data.List.Sigma

/-!
# Loops of per-key updates

A loop over the entries of a map whose keys are distinct, each iteration
updating one key of an accumulator from that key's value alone, acts key by
key: at a key with an entry the result is that entry's update of the key's old
value, and every other key keeps its value.  So the result does not depend on
the order the loop visits the entries in, which a loop over a hash map leaves
unspecified.  `lookup_foldl` is the loop that cannot fail, `foldlM_eq_ok` the
one in `Except` that may stop with an error, and `get_foldl` a loop over a set
of keys that updates each the same way.
-/

namespace KeyedFold

variable {M K V W ε : Type} [DecidableEq K] (lookup : M → K → Option W)

section Pure

variable (g : Option W → V → Option W) (step : M → K → V → M)

/-- `step m k v` sets key `k` to `g` of its old value and keeps every other key. -/
def ActsAt : Prop :=
  ∀ m k v, lookup (step m k v) k = g (lookup m k) v ∧ ∀ j, j ≠ k → lookup (step m k v) j = lookup m j

variable {lookup g step}

theorem lookup_foldl (h : ActsAt lookup g step) :
    ∀ (l : List (Σ _ : K, V)) (m : M), l.NodupKeys → ∀ j,
      lookup (l.foldl (fun m e => step m e.1 e.2) m) j =
        match l.dlookup j with
        | some v => g (lookup m j) v
        | none => lookup m j
  | [], m, _, j => by simp
  | ⟨k, v⟩ :: l, m, hnd, j => by
    rw [List.nodupKeys_cons] at hnd
    rw [List.foldl_cons, lookup_foldl h l _ hnd.2 j]
    obtain ⟨hk, hother⟩ := h m k v
    by_cases hj : j = k
    · -- the entry's own key: the rest of the loop does not visit it again
      subst hj
      rw [List.dlookup_eq_none.mpr hnd.1, List.dlookup_cons_eq]
      exact hk
    · rw [List.dlookup_cons_ne _ _ hj]
      cases l.dlookup j <;> simp only [hother j hj]

end Pure

section Fallible

variable (g : Option W → V → Except ε (Option W)) (step : M → K → V → Except ε M)

/-- When `g` accepts the old value of key `k`, `step m k v` succeeds, sets `k`
to what `g` gives and keeps every other key. -/
def ActsAtM : Prop :=
  ∀ m k v w, g (lookup m k) v = .ok w →
    ∃ m', step m k v = .ok m' ∧ lookup m' k = w ∧ ∀ j, j ≠ k → lookup m' j = lookup m j

variable {lookup g step}

/-- A loop in which every entry's update is accepted succeeds, and acts key by key. -/
theorem foldlM_eq_ok (h : ActsAtM lookup g step) :
    ∀ (l : List (Σ _ : K, V)) (m : M), l.NodupKeys → (∀ e ∈ l, ∃ w, g (lookup m e.1) e.2 = .ok w) →
      ∃ m', l.foldlM (fun m e => step m e.1 e.2) m = .ok m' ∧
        ∀ j, match l.dlookup j with
          | some v => g (lookup m j) v = .ok (lookup m' j)
          | none => lookup m' j = lookup m j
  | [], m, _, _ => ⟨m, rfl, fun j => by simp⟩
  | ⟨k, v⟩ :: l, m, hnd, hok => by
    rw [List.nodupKeys_cons] at hnd
    obtain ⟨w, hw⟩ := hok ⟨k, v⟩ List.mem_cons_self
    obtain ⟨m₁, hstep, hk, hother⟩ := h m k v w hw
    -- the other entries see the accumulator as it was at their keys
    have hrest : ∀ e ∈ l, ∃ w, g (lookup m₁ e.1) e.2 = .ok w := fun e he => by
      have hmem : e.1 ∈ l.keys := List.mem_keys_of_mem he
      have hne : e.1 ≠ k := fun heq => hnd.1 (heq ▸ hmem)
      rw [hother e.1 hne]
      exact hok e (List.mem_cons_of_mem _ he)
    obtain ⟨m', hfold, hlook⟩ := foldlM_eq_ok h l m₁ hnd.2 hrest
    refine ⟨m', by rw [List.foldlM_cons, hstep]; exact hfold, fun j => ?_⟩
    have hj' := hlook j
    by_cases hj : j = k
    · subst hj
      rw [List.dlookup_eq_none.mpr hnd.1] at hj'
      rw [List.dlookup_cons_eq, hj', hk]
      exact hw
    · rw [List.dlookup_cons_ne _ _ hj]
      rw [hother j hj] at hj'
      exact hj'

end Fallible

section Keys

variable {A : Type} (get : M → K → A) (g : A → A) (step : M → K → M)

/-- `step m k` sets key `k` to `g` of its old value and keeps every other key. -/
def ActsOn : Prop :=
  ∀ m k, get (step m k) k = g (get m k) ∧ ∀ j, j ≠ k → get (step m k) j = get m j

variable {get g step}

/-- A loop over a set of keys, each updated by `g`: the keys of the set are
updated once, and every other key keeps its value. -/
theorem get_foldl (h : ActsOn get g step) :
    ∀ (l : List K) (m : M), l.Nodup → ∀ j, get (l.foldl step m) j = if j ∈ l then g (get m j) else get m j
  | [], m, _, j => by simp
  | k :: l, m, hnd, j => by
    obtain ⟨hk, hl⟩ := List.nodup_cons.mp hnd
    rw [List.foldl_cons, get_foldl h l _ hl j]
    obtain ⟨hkk, hother⟩ := h m k
    by_cases hj : j = k
    · subst hj
      rw [if_neg hk, if_pos List.mem_cons_self, hkk]
    · simp only [List.mem_cons, hj, false_or, hother j hj]

end Keys

end KeyedFold
