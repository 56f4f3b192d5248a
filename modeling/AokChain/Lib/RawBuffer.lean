import Mathlib.Data.List.Basic

/-!
# Raw storage blocks

A block of storage for values of one type, as the untyped buffers that
`malloc`, `realloc`, `memcpy`, `memmove` and placement `new` work on in C++.
Slot `i` holds a constructed value or nothing: `none` is storage no value was
constructed in.  `Stores b xs` says that the first `xs.length` slots hold `xs`
in order; the lemmas say what each primitive does to what a block stores, so a
container built on blocks is proved against a list without opening them.
-/

namespace RawBuffer

/-- A storage block, by slot. -/
abbrev Block (α : Type) := ℕ → Option α

variable {α : Type}

/-- Fresh storage from `malloc`: nothing constructed. -/
def fresh : Block α := fun _ => none

/-- `memcpy` or `memmove` of `n` slots from `src` at `s` into `dst` at `d`.
Every slot read is read before any is written, which is `memmove`'s meaning
for overlapping ranges of one block. -/
def copy (dst : Block α) (d : ℕ) (src : Block α) (s n : ℕ) : Block α :=
  fun i => if d ≤ i ∧ i < d + n then src (s + (i - d)) else dst i

/-- `realloc` of a block of `old` slots to `new` slots: the first
`min old new` slots keep their values. -/
def realloc (b : Block α) (old new : ℕ) : Block α :=
  fun i => if i < min old new then b i else none

/-- Placement `new` of `x` in slot `i`. -/
def write (b : Block α) (i : ℕ) (x : α) : Block α := Function.update b i (some x)

/-- Placement `new` of `xs` in the slots from `i` on, one after another. -/
def writeList : Block α → ℕ → List α → Block α
  | b, _, [] => b
  | b, i, x :: xs => writeList (write b i x) (i + 1) xs

/-- The first `xs.length` slots hold `xs`. -/
def Stores (b : Block α) (xs : List α) : Prop := ∀ i < xs.length, b i = xs[i]?

variable {b b' : Block α} {xs ys : List α}

theorem write_apply (i j : ℕ) (x : α) : write b i x j = if j = i then some x else b j := by
  simp [write, Function.update_apply]

theorem writeList_apply : ∀ (b : Block α) (p : ℕ) (ys : List α) (i : ℕ),
    writeList b p ys i = if p ≤ i ∧ i < p + ys.length then ys[i - p]? else b i
  | b, p, [], i => by rw [writeList, if_neg (by simp only [List.length_nil, Nat.add_zero]; omega)]
  | b, p, y :: ys, i => by
    rw [writeList, writeList_apply, write_apply]
    by_cases hp : i = p
    · subst hp
      simp only [List.length_cons, if_true, Nat.sub_self, List.getElem?_cons_zero]
      rw [if_neg (by omega), if_pos ⟨Nat.le_refl _, by omega⟩]
    · -- the slots after `p` take the rest of the list, one slot later
      simp only [List.length_cons, hp, if_false]
      by_cases hi : p ≤ i ∧ i < p + (ys.length + 1)
      · rw [if_pos ⟨by omega, by omega⟩, if_pos hi, show i - p = (i - (p + 1)) + 1 by omega,
          List.getElem?_cons_succ]
      · rw [if_neg (by omega), if_neg hi]

theorem stores_nil (b : Block α) : Stores b [] := fun _ h => absurd h (Nat.not_lt_zero _)

/-- What a block stores is all a reader sees: two lists a block stores with one
length are equal. -/
theorem Stores.eq (h : Stores b xs) (h' : Stores b ys) (hlen : xs.length = ys.length) : xs = ys := by
  apply List.ext_getElem?
  intro i
  by_cases hi : i < xs.length
  · rw [← h i hi, h' i (hlen ▸ hi)]
  · rw [List.getElem?_eq_none (by omega), List.getElem?_eq_none (by omega)]

/-- Slots a change leaves alone keep what they stored. -/
theorem Stores.congr (h : Stores b xs) (heq : ∀ i < xs.length, b' i = b i) : Stores b' xs :=
  fun i hi => (heq i hi).trans (h i hi)

theorem Stores.append_left (h : Stores b (xs ++ ys)) : Stores b xs := fun i hi => by
  rw [h i (by simp; omega), List.getElem?_append_left hi]

/-- Constructing the next value after the stored ones. -/
theorem Stores.write_length (h : Stores b xs) (x : α) : Stores (write b xs.length x) (xs ++ [x]) := by
  intro i hi
  rw [write_apply]
  split_ifs with hx
  · subst hx
    simp
  · simp only [List.length_append, List.length_singleton] at hi
    rw [h i (by omega), List.getElem?_append_left (by omega)]

/-- `memcpy` of the stored slots into the start of another block. -/
theorem Stores.copy (h : Stores b xs) (dst : Block α) : Stores (copy dst 0 b 0 xs.length) xs := by
  intro i hi
  simp [RawBuffer.copy, hi, h i hi]

theorem Stores.realloc (h : Stores b xs) {old new : ℕ} (hold : xs.length ≤ old) (hnew : xs.length ≤ new) :
    Stores (realloc b old new) xs := by
  intro i hi
  simp only [RawBuffer.realloc]
  rw [if_pos (by omega), h i hi]

/-- The gap `insert` opens: the tail moves up by `ys.length` slots and `ys` is
constructed in the gap. -/
theorem Stores.insert (h : Stores b xs) {p : ℕ} (hp : p ≤ xs.length) (ys : List α) :
    Stores (writeList (RawBuffer.copy b (p + ys.length) b p (xs.length - p)) p ys) (xs.take p ++ ys ++ xs.drop p) := by
  intro i hi
  simp only [List.length_append, List.length_take, List.length_drop] at hi
  rw [writeList_apply, List.getElem?_append, List.getElem?_append]
  simp only [List.length_append, List.length_take, List.getElem?_take, List.getElem?_drop]
  by_cases hlo : i < p
  · -- before the gap
    simp only [RawBuffer.copy]
    rw [if_neg (by omega), if_neg (by omega), h i (by omega), Nat.min_eq_left hp, if_pos (by omega),
      if_pos hlo, if_pos hlo]
  by_cases hmid : i < p + ys.length
  · -- inside the gap
    rw [if_pos ⟨by omega, hmid⟩, Nat.min_eq_left hp, if_pos (by omega), if_neg hlo]
  · -- after the gap: the slot `ys.length` below
    simp only [RawBuffer.copy]
    rw [if_neg (by omega), if_pos ⟨by omega, by omega⟩, Nat.min_eq_left hp, if_neg (by omega),
      h _ (by omega)]

/-- The tail moved down over the erased slots `[f, l)`. -/
theorem Stores.erase (h : Stores b xs) {f l : ℕ} (hfl : f ≤ l) (hl : l ≤ xs.length) :
    Stores (RawBuffer.copy b f b l (xs.length - l)) (xs.take f ++ xs.drop l) := by
  intro i hi
  simp only [List.length_append, List.length_take, List.length_drop] at hi
  simp only [RawBuffer.copy, List.getElem?_append, List.length_take, List.getElem?_take,
    List.getElem?_drop]
  by_cases hlo : i < f
  · rw [if_neg (by omega), h i (by omega), Nat.min_eq_left (by omega), if_pos hlo, if_pos hlo]
  · rw [if_pos ⟨by omega, by omega⟩, Nat.min_eq_left (by omega), if_neg hlo, h _ (by omega)]

/-- Reading the stored slots in order gives the stored list. -/
theorem Stores.filterMap_range (h : Stores b xs) : (List.range xs.length).filterMap b = xs := by
  have hmap : (List.range xs.length).map b = xs.map some := by
    apply List.ext_getElem (by simp)
    intro i hi _
    simp only [List.getElem_map, List.getElem_range]
    rw [h i (by simpa using hi), List.getElem?_eq_getElem (by simpa using hi)]
  have hid : (List.range xs.length).filterMap b = ((List.range xs.length).map b).filterMap id := by
    simp [List.filterMap_map]
  rw [hid, hmap]
  simp [List.filterMap_map]

end RawBuffer
