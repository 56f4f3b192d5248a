import Mathlib.Data.List.Basic

/-!
# Sets ordered by a key

A `std::set` whose `operator<` compares one field only: two elements with the
same key are the same element to the set.  `insert` of an element whose key is
already there keeps the element that is there, `count` and `find` look up a key,
and `erase` removes the element of a key.  The list keeps the elements in the
order they came in; lookups do not depend on it.
-/

namespace KeyedSet

variable {α K : Type} [DecidableEq K] (key : α → K)

/-- `s.count(x)`, for any `x` of key `k`. -/
def contains (k : K) (s : List α) : Bool := s.any fun a => key a = k

/-- `s.find(x)`, for any `x` of key `k`. -/
def find? (k : K) (s : List α) : Option α := s.find? fun a => key a = k

/-- `s.insert(a)`. -/
def insert (a : α) (s : List α) : List α := if contains key (key a) s then s else s ++ [a]

/-- `s.erase(x)`, for any `x` of key `k`. -/
def erase (k : K) (s : List α) : List α := s.filter fun a => key a ≠ k

variable {key}

theorem contains_iff {k : K} {s : List α} : contains key k s = true ↔ ∃ a ∈ s, key a = k := by
  simp [contains]

theorem contains_eq_isSome (k : K) (s : List α) : contains key k s = (find? key k s).isSome :=
  List.isSome_find?.symm

theorem find?_key {k : K} {s : List α} {a : α} (h : find? key k s = some a) : key a = k ∧ a ∈ s :=
  ⟨by simpa using List.find?_some h, List.mem_of_find?_eq_some h⟩

@[simp] theorem contains_nil (k : K) : contains key k ([] : List α) = false := rfl

@[simp] theorem find?_nil (k : K) : find? key k ([] : List α) = none := rfl

theorem find?_append (k : K) (s t : List α) : find? key k (s ++ t) = (find? key k s).or (find? key k t) :=
  List.find?_append

theorem find?_insert (a : α) (k : K) (s : List α) :
    find? key k (insert key a s) = if contains key k s then find? key k s else if key a = k then some a else none := by
  cases h : find? key k s with
  | some b =>
    rw [if_pos (by rw [contains_eq_isSome, h]; rfl)]
    unfold insert
    split
    · exact h
    · rw [find?_append, h]
      rfl
  | none =>
    have hs : contains key k s = false := by rw [contains_eq_isSome, h]; rfl
    rw [if_neg (by simp [hs])]
    unfold insert
    split
    · -- the key of `a` is in the set, and the one looked up is not: they differ
      next ha =>
      have hne : key a ≠ k := by
        rintro rfl
        simp [hs] at ha
      rw [if_neg hne]
      exact h
    · rw [find?_append, h, Option.none_or]
      by_cases hk : key a = k <;> simp [find?, hk]

theorem contains_insert (a : α) (k : K) (s : List α) :
    contains key k (insert key a s) = (contains key k s || key a = k) := by
  rw [contains_eq_isSome, find?_insert, contains_eq_isSome]
  cases h : (find? key k s).isSome <;> by_cases hk : key a = k <;> simp [h, hk]

@[simp] theorem find?_erase_self (k : K) (s : List α) : find? key k (erase key k s) = none := by
  simp [find?, erase, List.find?_eq_none]

theorem find?_erase_ne {k j : K} (hne : j ≠ k) (s : List α) : find? key j (erase key k s) = find? key j s := by
  simp only [find?, erase]
  induction s with
  | nil => rfl
  | cons a s ih =>
    by_cases ha : key a = k
    · have hj : ¬ key a = j := fun h => hne (h ▸ ha)
      rw [List.filter_cons_of_neg (by simpa using ha), ih, List.find?_cons_of_neg (by simpa using hj)]
    · rw [List.filter_cons_of_pos (by simpa using ha)]
      by_cases hj : key a = j
      · rw [List.find?_cons_of_pos (by simpa using hj), List.find?_cons_of_pos (by simpa using hj)]
      · rw [List.find?_cons_of_neg (by simpa using hj), List.find?_cons_of_neg (by simpa using hj), ih]

@[simp] theorem contains_erase_self (k : K) (s : List α) : contains key k (erase key k s) = false := by
  rw [contains_eq_isSome, find?_erase_self]
  rfl

theorem contains_erase_ne {k j : K} (hne : j ≠ k) (s : List α) :
    contains key j (erase key k s) = contains key j s := by
  rw [contains_eq_isSome, contains_eq_isSome, find?_erase_ne hne]

end KeyedSet
