import Mathlib.Data.List.Shortlex
import AokChain.Lib.RawBuffer

/-!
# prevector

`prevector<N, T>` of `prevector.h`, with its default `Size = uint32_t`, over raw
storage blocks.  While `_size ≤ N` the elements live in the inline buffer
(direct mode) and `_size` counts them; otherwise they live in a heap block of
`_union.capacity` slots (indirect mode) and `_size` is their count plus `N + 1`.

`Holds v xs` is the representation invariant together with the abstraction
function: `v` holds `xs`, in order, in the buffer in use.  Each operation keeps
it against `std::vector`'s meaning of the same operation as long as every size
stays below `2 ^ 31` and `size + N + 1` fits the 32 bits of `_size`.  Past that
the arithmetic of `size_type` wraps: the capacity `push_back` grows to,
`new_size + (new_size >> 1)`, is `0` at `new_size = 2863311531`.

Positions are exact naturals here; the source passes them through its `int32_t`
`difference_type`, which is exact below `2 ^ 31`.  Destroying erased elements
has no effect on the slots the model reads, so the two branches of `erase`
are one.
-/

namespace AokChain

open RawBuffer

/-- The union `direct_or_indirect`: the inline buffer, or the heap block and its
capacity.  The members overlap in the source; each mode reads only its own. -/
structure direct_or_indirect (T : Type) where
  direct : Block T
  capacity : UInt32
  indirect : Block T

structure prevector (N : UInt32) (T : Type) where
  _size : UInt32
  _union : direct_or_indirect T

namespace prevector

variable {N : UInt32} {T : Type}

section Model

variable (v : prevector N T)

def isDirect : Bool := decide (v._size ≤ N)

def size : UInt32 := if v.isDirect then v._size else v._size - N - 1

def capacity : UInt32 := if v.isDirect then N else v._union.capacity

/-- The block `item_ptr` points into. -/
def active : Block T := if v.isDirect then v._union.direct else v._union.indirect

/-- A change of the block in use, through `item_ptr`. -/
def modify (f : Block T → Block T) : prevector N T :=
  if v.isDirect then { v with _union := { v._union with direct := f v._union.direct } }
  else { v with _union := { v._union with indirect := f v._union.indirect } }

/-- The values `*it` for `it` from `begin()` to `end()`. -/
def elements : List T := (List.range v.size.toNat).filterMap v.active

/-- `change_capacity`. -/
def changeCapacity (new_capacity : UInt32) : prevector N T :=
  if new_capacity ≤ N then
    if !v.isDirect then
      -- back to the inline buffer: the heap block is copied in and freed
      ⟨v._size - (N + 1),
        { direct := copy v._union.direct 0 v._union.indirect 0 v.size.toNat
          capacity := v._union.capacity
          indirect := v._union.indirect }⟩
    else v
  else if !v.isDirect then
    ⟨v._size,
      { direct := v._union.direct
        capacity := new_capacity
        indirect := realloc v._union.indirect v._union.capacity.toNat new_capacity.toNat }⟩
  else
    ⟨v._size + (N + 1),
      { direct := v._union.direct
        capacity := new_capacity
        indirect := copy fresh 0 v._union.direct 0 v.size.toNat }⟩

/-- `_size++` and placement `new` of `x` at `item_ptr(size() - 1)`: one pass of
the constructing loops. -/
def growBy (x : T) : prevector N T :=
  let v : prevector N T := { v with _size := v._size + 1 }
  v.modify (write · (v.size - 1).toNat x)

/-- The loop `while (size() < n) { _size++; new(...) T(val); }`, with fuel. -/
def fillLoop (val : T) (n : UInt32) : ℕ → prevector N T → prevector N T
  | 0, v => v
  | fuel + 1, v => if v.size < n then fillLoop val n fuel (v.growBy val) else v

/-- The loop up to `n` elements: `n` passes are enough. -/
def fillTo (n : UInt32) (val : T) : prevector N T := fillLoop val n n.toNat v

/-- The loop `while (first != last) { _size++; new(...) T(*first); ++first; }`. -/
def growRange : prevector N T → List T → prevector N T
  | v, [] => v
  | v, x :: xs => growRange (v.growBy x) xs

/-- The capacity check `insert` and `push_back` open with: below `new_size`
elements of room, the capacity grows to `new_size + (new_size >> 1)`. -/
def growFor (new_size : UInt32) : prevector N T :=
  if v.capacity < new_size then v.changeCapacity (new_size + (new_size >>> 1)) else v

/-- `erase(first, last)`: `_size` drops by `last - first` and the tail moves
down, within the block the iterators point into. -/
def erase (first last : UInt32) : prevector N T :=
  let moved := v.modify fun b => copy b first.toNat b last.toNat (v.size - last).toNat
  { moved with _size := v._size - (last - first) }

def resize [Inhabited T] (new_size : UInt32) : prevector N T :=
  let v := if v.size > new_size then v.erase new_size v.size else v
  let v := if new_size > v.capacity then v.changeCapacity new_size else v
  v.fillTo new_size default

def reserve (new_capacity : UInt32) : prevector N T :=
  if new_capacity > v.capacity then v.changeCapacity new_capacity else v

def shrinkToFit : prevector N T := v.changeCapacity v.size

def clear [Inhabited T] : prevector N T := v.resize 0

/-- `assign(n, val)`. -/
def assign [Inhabited T] (n : UInt32) (val : T) : prevector N T :=
  let v := v.clear
  let v := if v.capacity < n then v.changeCapacity n else v
  v.fillTo n val

/-- `assign(first, last)`. -/
def assignRange [Inhabited T] (xs : List T) : prevector N T :=
  let n := xs.length.toUInt32
  let v := v.clear
  let v := if v.capacity < n then v.changeCapacity n else v
  v.growRange xs

/-- `insert(pos, value)` at position `p`. -/
def insert (p : UInt32) (value : T) : prevector N T :=
  let v := v.growFor (v.size + 1)
  let v := v.modify fun b => copy b (p + 1).toNat b p.toNat (v.size - p).toNat
  let v : prevector N T := { v with _size := v._size + 1 }
  v.modify (write · p.toNat value)

/-- `insert(pos, count, value)`: the loop constructs `count` copies from `p` on. -/
def insertCount (p count : UInt32) (value : T) : prevector N T :=
  let v := v.growFor (v.size + count)
  let v := v.modify fun b => copy b (p + count).toNat b p.toNat (v.size - p).toNat
  let v : prevector N T := { v with _size := v._size + count }
  v.modify (writeList · p.toNat (List.replicate count.toNat value))

/-- `insert(pos, first, last)`. -/
def insertRange (p : UInt32) (xs : List T) : prevector N T :=
  let count := xs.length.toUInt32
  let v := v.growFor (v.size + count)
  let v := v.modify fun b => copy b (p + count).toNat b p.toNat (v.size - p).toNat
  let v : prevector N T := { v with _size := v._size + count }
  v.modify (writeList · p.toNat xs)

/-- `push_back`: the value is constructed before `_size` counts it. -/
def pushBack (value : T) : prevector N T :=
  let v := v.growFor (v.size + 1)
  let v := v.modify (write · v.size.toNat value)
  { v with _size := v._size + 1 }

/-- `pop_back`: `erase(end() - 1, end())`. -/
def popBack : prevector N T := v.erase (v.size - 1) v.size

/-- `swap`: the two members exchanged. -/
def swap (other : prevector N T) : prevector N T × prevector N T :=
  (⟨other._size, other._union⟩, ⟨v._size, v._union⟩)

/-- The copy assignment `operator=` of another object. -/
def copyAssign [Inhabited T] (other : prevector N T) : prevector N T :=
  let v := v.resize 0
  let v := v.changeCapacity other.size
  v.growRange other.elements

end Model

section Constructors

/-- `prevector()`: direct and empty; no element is constructed in the union. -/
def empty : prevector N T := ⟨0, ⟨fresh, 0, fresh⟩⟩

/-- `prevector(n)`. -/
def ofSize [Inhabited T] (n : UInt32) : prevector N T := empty.resize n

/-- `prevector(n, val)`. -/
def ofCount (n : UInt32) (val : T) : prevector N T := (empty.changeCapacity n).fillTo n val

/-- `prevector(first, last)`. -/
def ofRange (xs : List T) : prevector N T := (empty.changeCapacity xs.length.toUInt32).growRange xs

/-- The copy constructor. -/
def ofCopy (other : prevector N T) : prevector N T :=
  (empty.changeCapacity other.size).growRange other.elements

end Constructors

section Compare

/-- The element loop of `operator==`. -/
def eqLoop [DecidableEq T] : List T → List T → Bool
  | x :: xs, y :: ys => if x ≠ y then false else eqLoop xs ys
  | _, _ => true

/-- `operator==`. -/
def beq [DecidableEq T] (v other : prevector N T) : Bool :=
  if other.size ≠ v.size then false else eqLoop v.elements other.elements

/-- The element loop of `operator<`. -/
def ltLoop [LT T] [DecidableLT T] : List T → List T → Bool
  | x :: xs, y :: ys => if x < y then true else if y < x then false else ltLoop xs ys
  | _, _ => false

/-- `operator<`. -/
def lt [LT T] [DecidableLT T] (v other : prevector N T) : Bool :=
  if v.size < other.size then true
  else if v.size > other.size then false
  else ltLoop v.elements other.elements

end Compare

section Modes

variable {v : prevector N T}

theorem isDirect_iff : v.isDirect = true ↔ v._size.toNat ≤ N.toNat := by
  simp [isDirect, UInt32.le_iff_toNat_le]

theorem isDirect_eq_false_iff : v.isDirect = false ↔ N.toNat < v._size.toNat := by
  rw [← Bool.not_eq_true, isDirect_iff]
  omega

theorem size_toNat_of_direct (h : v.isDirect = true) : v.size.toNat = v._size.toNat := by
  simp [size, h]

/-- In indirect mode `_size` is the element count plus `N + 1`, without wrap. -/
theorem size_toNat_of_indirect (h : v.isDirect = false) : v.size.toNat + N.toNat + 1 = v._size.toNat := by
  have hN := isDirect_eq_false_iff.mp h
  have h1 : (v._size - N).toNat = v._size.toNat - N.toNat :=
    UInt32.toNat_sub_of_le _ _ (UInt32.le_iff_toNat_le.mpr (by omega))
  have h2 : (v._size - N - 1).toNat = (v._size - N).toNat - 1 :=
    UInt32.toNat_sub_of_le _ _ (UInt32.le_iff_toNat_le.mpr (by simp; omega))
  simp only [size, h, Bool.false_eq_true, if_false]
  omega

theorem capacity_of_direct (h : v.isDirect = true) : v.capacity = N := by simp [capacity, h]

theorem capacity_of_indirect (h : v.isDirect = false) : v.capacity = v._union.capacity := by
  simp [capacity, h]

@[simp] theorem modify_size (f : Block T → Block T) : (v.modify f)._size = v._size := by
  unfold modify; split <;> rfl

@[simp] theorem isDirect_modify (f : Block T → Block T) : (v.modify f).isDirect = v.isDirect := by
  simp [isDirect]

@[simp] theorem size_modify (f : Block T → Block T) : (v.modify f).size = v.size := by
  simp [size]

@[simp] theorem modify_capacity (f : Block T → Block T) : (v.modify f)._union.capacity = v._union.capacity := by
  unfold modify; split <;> rfl

@[simp] theorem capacity_modify (f : Block T → Block T) : (v.modify f).capacity = v.capacity := by
  simp [capacity]

@[simp] theorem active_modify (f : Block T → Block T) : (v.modify f).active = f v.active := by
  unfold active
  rw [isDirect_modify]
  cases h : v.isDirect <;> simp [modify, h]

/-- Two states with one union and one mode read the same block and report the
same capacity. -/
theorem active_of_isDirect_eq {w : prevector N T} (hd : w.isDirect = v.isDirect) (hu : w._union = v._union) :
    w.active = v.active ∧ w.capacity = v.capacity := by
  simp [active, capacity, hu, hd]

end Modes

/-- A size whose positions are exact in the `int32_t` `difference_type` and whose
indirect `_size`, the size plus `N + 1`, fits `uint32_t`. -/
def Fits (N : UInt32) (s : ℕ) : Prop := s < 2 ^ 31 ∧ s + N.toNat + 1 < 2 ^ 32

theorem Fits.mono {s t : ℕ} (h : Fits N s) (hts : t ≤ s) : Fits N t := ⟨by have := h.1; omega, by have := h.2; omega⟩

/-- The representation invariant, with the abstraction: `v` holds `xs` in the
buffer in use, and in indirect mode the heap block is larger than the inline
one and has room for them. -/
structure Holds (v : prevector N T) (xs : List T) : Prop where
  size_eq : v.size.toNat = xs.length
  stores : Stores v.active xs
  indirect : v.isDirect = false → N < v._union.capacity ∧ v.size ≤ v._union.capacity

section Sizes

variable {v : prevector N T} {xs : List T}

theorem Holds.length_le_capacity (h : Holds v xs) : xs.length ≤ v.capacity.toNat := by
  cases hd : v.isDirect
  · rw [capacity_of_indirect hd, ← h.size_eq]
    exact UInt32.le_iff_toNat_le.mp (h.indirect hd).2
  · rw [capacity_of_direct hd, ← h.size_eq, size_toNat_of_direct hd]
    exact isDirect_iff.mp hd

theorem Holds.N_le_capacity (h : Holds v xs) : N.toNat ≤ v.capacity.toNat := by
  cases hd : v.isDirect
  · rw [capacity_of_indirect hd]
    exact Nat.le_of_lt (UInt32.lt_iff_toNat_lt.mp (h.indirect hd).1)
  · rw [capacity_of_direct hd]

/-- `_size += k` within the capacity keeps the mode and counts `k` more elements. -/
theorem addSize (u : prevector N T) {n : ℕ} (k : UInt32) (hn : u.size.toNat = n)
    (hroom : n + k.toNat ≤ u.capacity.toNat) (hfit : Fits N (n + k.toNat)) :
    ({ u with _size := u._size + k } : prevector N T).isDirect = u.isDirect ∧
      ({ u with _size := u._size + k } : prevector N T).size.toNat = n + k.toNat := by
  have hadd : (u._size + k).toNat = u._size.toNat + k.toNat := by
    rw [UInt32.toNat_add]
    apply Nat.mod_eq_of_lt
    cases hd : u.isDirect
    · have := size_toNat_of_indirect hd; have := hfit.2; omega
    · have := size_toNat_of_direct hd; have := capacity_of_direct hd ▸ hroom; have := UInt32.toNat_lt N
      omega
  cases hd : u.isDirect
  · -- indirect: the count and `N + 1` both stay in `_size`
    have hs := size_toNat_of_indirect hd
    have hd' : ({ u with _size := u._size + k } : prevector N T).isDirect = false :=
      isDirect_eq_false_iff.mpr (by simp only; omega)
    have := size_toNat_of_indirect hd'
    simp only at this
    exact ⟨hd', by omega⟩
  · have hs := size_toNat_of_direct hd
    have hroom' := capacity_of_direct hd ▸ hroom
    have hd' : ({ u with _size := u._size + k } : prevector N T).isDirect = true :=
      isDirect_iff.mpr (by simp only; omega)
    have := size_toNat_of_direct hd'
    simp only at this
    exact ⟨hd', by omega⟩

/-- `_size -= k` for at most the stored elements keeps the mode. -/
theorem subSize (u : prevector N T) {n : ℕ} (k : UInt32) (hn : u.size.toNat = n) (hk : k.toNat ≤ n) :
    ({ u with _size := u._size - k } : prevector N T).isDirect = u.isDirect ∧
      ({ u with _size := u._size - k } : prevector N T).size.toNat = n - k.toNat := by
  have hsub : (u._size - k).toNat = u._size.toNat - k.toNat := by
    apply UInt32.toNat_sub_of_le
    apply UInt32.le_iff_toNat_le.mpr
    cases hd : u.isDirect
    · have := size_toNat_of_indirect hd; omega
    · have := size_toNat_of_direct hd; omega
  cases hd : u.isDirect
  · have hs := size_toNat_of_indirect hd
    have hd' : ({ u with _size := u._size - k } : prevector N T).isDirect = false :=
      isDirect_eq_false_iff.mpr (by simp only; omega)
    have := size_toNat_of_indirect hd'
    simp only at this
    exact ⟨hd', by omega⟩
  · have hs := size_toNat_of_direct hd
    have hd' : ({ u with _size := u._size - k } : prevector N T).isDirect = true :=
      isDirect_iff.mpr (by have := isDirect_iff.mp hd; simp only; omega)
    have := size_toNat_of_direct hd'
    simp only at this
    exact ⟨hd', by omega⟩

end Sizes

section Capacity

variable {v : prevector N T} {xs : List T}

/-- `N + 1` does not wrap below a `_size` above `N`. -/
theorem toNat_N_add_one (h : N.toNat + 1 < 2 ^ 32) : (N + 1).toNat = N.toNat + 1 := by
  rw [UInt32.toNat_add, UInt32.toNat_one, Nat.mod_eq_of_lt h]

theorem Holds.changeCapacity (h : Holds v xs) {c : UInt32} (hc : xs.length ≤ c.toNat) (hfit : Fits N xs.length) :
    Holds (v.changeCapacity c) xs ∧ (v.changeCapacity c).capacity = if c ≤ N then N else c := by
  have hl := h.size_eq
  unfold prevector.changeCapacity
  by_cases hcN : c ≤ N
  · have hcN' := UInt32.le_iff_toNat_le.mp hcN
    rw [if_pos hcN, if_pos hcN]
    cases hd : v.isDirect
    · -- the heap block is copied back into the inline buffer
      rw [if_pos (by decide : (!false) = true)]
      have hs := size_toNat_of_indirect hd
      have hN1 := toNat_N_add_one (N := N) (by have := UInt32.toNat_lt v._size; omega)
      have hsub : (v._size - (N + 1)).toNat = xs.length := by
        rw [UInt32.toNat_sub_of_le _ _ (UInt32.le_iff_toNat_le.mpr (by omega)), hN1]
        omega
      have hwd : (⟨v._size - (N + 1), ⟨copy v._union.direct 0 v._union.indirect 0 v.size.toNat,
          v._union.capacity, v._union.indirect⟩⟩ : prevector N T).isDirect = true :=
        isDirect_iff.mpr (by simp only; omega)
      have hact : v.active = v._union.indirect := by simp [active, hd]
      refine ⟨⟨?_, ?_, fun h' => absurd h' (by simp [hwd])⟩, capacity_of_direct hwd⟩
      · rw [size_toNat_of_direct hwd]
        exact hsub
      · simp only [active, hwd, if_true]
        rw [hl]
        exact (hact ▸ h.stores).copy _
    · exact ⟨h, capacity_of_direct hd⟩
  · have hcN' : N.toNat < c.toNat := by have := UInt32.le_iff_toNat_le.not.mp hcN; omega
    rw [if_neg hcN, if_neg hcN]
    cases hd : v.isDirect
    · -- a heap block already: `realloc` keeps the stored slots
      rw [if_pos (by decide : (!false) = true)]
      have hwd : (⟨v._size, ⟨v._union.direct, c,
          realloc v._union.indirect v._union.capacity.toNat c.toNat⟩⟩ : prevector N T).isDirect = false := hd
      have hact : v.active = v._union.indirect := by simp [active, hd]
      have hcap := UInt32.le_iff_toNat_le.mp (h.indirect hd).2
      refine ⟨⟨hl, ?_, fun _ => ⟨UInt32.lt_iff_toNat_lt.mpr hcN', ?_⟩⟩, capacity_of_indirect hwd⟩
      · simp only [active, hwd, Bool.false_eq_true, if_false]
        exact (hact ▸ h.stores).realloc (by omega) hc
      · show v.size ≤ c
        exact UInt32.le_iff_toNat_le.mpr (by omega)
    · -- from the inline buffer to a fresh heap block
      rw [if_neg (by decide : ¬(!true) = true)]
      have hs := size_toNat_of_direct hd
      have hN1 := toNat_N_add_one (N := N) (by have := hfit.2; omega)
      have hadd : (v._size + (N + 1)).toNat = xs.length + N.toNat + 1 := by
        rw [UInt32.toNat_add, hN1, Nat.mod_eq_of_lt (by have := hfit.2; omega)]
        omega
      have hwd : (⟨v._size + (N + 1), ⟨v._union.direct, c,
          copy fresh 0 v._union.direct 0 v.size.toNat⟩⟩ : prevector N T).isDirect = false := isDirect_eq_false_iff.mpr (by simp only; omega)
      have hws := size_toNat_of_indirect hwd
      simp only at hws
      have hact : v.active = v._union.direct := by simp [active, hd]
      refine ⟨⟨by omega, ?_, fun _ => ⟨UInt32.lt_iff_toNat_lt.mpr hcN',
        UInt32.le_iff_toNat_le.mpr (by simp only; omega)⟩⟩, capacity_of_indirect hwd⟩
      simp only [active, hwd, Bool.false_eq_true, if_false]
      rw [hl]
      exact (hact ▸ h.stores).copy _

end Capacity

section Growth

variable {v : prevector N T} {xs : List T}

/-- The capacity `insert` and `push_back` grow to does not wrap below `2 ^ 31`. -/
theorem toNat_grown {s : UInt32} (hs : s.toNat < 2 ^ 31) : (s + (s >>> 1)).toNat = s.toNat + s.toNat / 2 := by
  have hshr : (s >>> 1).toNat = s.toNat / 2 := by
    rw [UInt32.toNat_shiftRight, Nat.shiftRight_eq_div_pow]
    rfl
  rw [UInt32.toNat_add, hshr, Nat.mod_eq_of_lt (by omega)]

/-- The state after `_size += k` reads the block and reports the capacity of the
state before. -/
theorem Holds.addSize (h : Holds v xs) (k : UInt32) (hroom : xs.length + k.toNat ≤ v.capacity.toNat)
    (hfit : Fits N (xs.length + k.toNat)) :
    ({ v with _size := v._size + k } : prevector N T).isDirect = v.isDirect ∧
      ({ v with _size := v._size + k } : prevector N T).size.toNat = xs.length + k.toNat ∧
      ({ v with _size := v._size + k } : prevector N T).active = v.active ∧
      ({ v with _size := v._size + k } : prevector N T).capacity = v.capacity := by
  obtain ⟨hd, hs⟩ := prevector.addSize v k h.size_eq hroom hfit
  obtain ⟨hact, hcap⟩ := active_of_isDirect_eq hd rfl
  exact ⟨hd, hs, hact, hcap⟩

/-- The invariant's indirect half for a state of the union and mode of `v`, and
no more elements than `v` has room for. -/
theorem Holds.indirect_of {w : prevector N T} (h : Holds v xs) (hu : w._union.capacity = v._union.capacity)
    (hd : w.isDirect = v.isDirect) (hs : w.size.toNat ≤ v.capacity.toNat) :
    w.isDirect = false → N < w._union.capacity ∧ w.size ≤ w._union.capacity := by
  intro hw
  rw [hd] at hw
  rw [capacity_of_indirect hw] at hs
  exact ⟨hu ▸ (h.indirect hw).1, hu ▸ UInt32.le_iff_toNat_le.mpr hs⟩

/-- One pass of the constructing loops, within the capacity. -/
theorem Holds.growBy (h : Holds v xs) (x : T) (hroom : xs.length + 1 ≤ v.capacity.toNat)
    (hfit : Fits N (xs.length + 1)) : Holds (v.growBy x) (xs ++ [x]) ∧ (v.growBy x).capacity = v.capacity := by
  obtain ⟨hd, hs, hact, hcap⟩ := h.addSize 1 (by simpa using hroom) (by simpa using hfit)
  simp only [UInt32.toNat_one] at hs
  have hpos : (({ v with _size := v._size + 1 } : prevector N T).size - 1).toNat = xs.length := by
    rw [UInt32.toNat_sub_of_le _ _ (UInt32.le_iff_toNat_le.mpr (by simp; omega)), hs]
    simp
  refine ⟨⟨?_, ?_, ?_⟩, ?_⟩
  · simp only [prevector.growBy, size_modify, hs, List.length_append, List.length_singleton]
  · simp only [prevector.growBy, active_modify, hact, hpos]
    exact h.stores.write_length x
  · exact h.indirect_of (by simp [prevector.growBy]) (by simp [prevector.growBy, hd])
      (by simp only [prevector.growBy, size_modify, hs]; exact hroom)
  · simp [prevector.growBy, hcap]

/-- The loop up to `n` elements appends copies of `val` until there are `n`. -/
theorem Holds.fillLoop (val : T) {n : UInt32} (hfit : Fits N n.toNat) (fuel : ℕ) :
    ∀ {v : prevector N T} {xs : List T}, Holds v xs → xs.length ≤ n.toNat →
      n.toNat ≤ v.capacity.toNat → n.toNat - xs.length ≤ fuel →
      Holds (fillLoop val n fuel v) (xs ++ List.replicate (n.toNat - xs.length) val) ∧
        (fillLoop val n fuel v).capacity = v.capacity := by
  induction fuel with
  | zero =>
    intro v xs h _ _ hf
    rw [show n.toNat - xs.length = 0 by omega, List.replicate_zero, List.append_nil]
    exact ⟨h, rfl⟩
  | succ fuel ih =>
    intro v xs h hle hcap hf
    have hl := h.size_eq
    rw [prevector.fillLoop]
    by_cases hlt : v.size < n
    · -- one more element, and the loop goes on with one pass less
      rw [if_pos hlt]
      have hlt' := UInt32.lt_iff_toNat_lt.mp hlt
      obtain ⟨h', hc'⟩ := h.growBy val (by omega) (hfit.mono (by omega))
      obtain ⟨ih', ihc⟩ := ih h' (by simp; omega) (by rw [hc']; exact hcap) (by simp; omega)
      refine ⟨?_, ihc.trans hc'⟩
      have hk : n.toNat - xs.length = (n.toNat - (xs ++ [val]).length) + 1 := by simp; omega
      rw [hk, List.replicate_succ, ← List.singleton_append, ← List.append_assoc]
      exact ih'
    · rw [if_neg hlt]
      have := UInt32.lt_iff_toNat_lt.not.mp hlt
      rw [show n.toNat - xs.length = 0 by omega, List.replicate_zero, List.append_nil]
      exact ⟨h, rfl⟩

theorem Holds.fillTo (h : Holds v xs) (val : T) {n : UInt32} (hle : xs.length ≤ n.toNat)
    (hcap : n.toNat ≤ v.capacity.toNat) (hfit : Fits N n.toNat) :
    Holds (v.fillTo n val) (xs ++ List.replicate (n.toNat - xs.length) val) :=
  (Holds.fillLoop val hfit n.toNat h hle hcap (by omega)).1

/-- The range loop appends the range. -/
theorem Holds.growRange (ys : List T) :
    ∀ {v : prevector N T} {xs : List T}, Holds v xs → xs.length + ys.length ≤ v.capacity.toNat →
      Fits N (xs.length + ys.length) → Holds (v.growRange ys) (xs ++ ys) ∧ (v.growRange ys).capacity = v.capacity := by
  induction ys with
  | nil =>
    intro v xs h _ _
    simp only [prevector.growRange, List.append_nil, and_true]
    exact h
  | cons y ys ih =>
    intro v xs h hroom hfit
    simp only [List.length_cons] at hroom hfit
    obtain ⟨h', hc'⟩ := h.growBy y (by omega) (hfit.mono (by omega))
    obtain ⟨ih', ihc⟩ := ih h' (by rw [hc']; simpa [Nat.add_assoc, Nat.add_comm 1] using hroom)
      (by simpa [Nat.add_assoc, Nat.add_comm 1] using hfit)
    rw [prevector.growRange]
    exact ⟨by simpa using ih', ihc.trans hc'⟩

/-- The capacity check of `insert` and `push_back` leaves room for `s` elements. -/
theorem Holds.growFor (h : Holds v xs) {s : UInt32} (hs : xs.length ≤ s.toNat) (hfit : Fits N s.toNat) :
    Holds (v.growFor s) xs ∧ s.toNat ≤ (v.growFor s).capacity.toNat := by
  unfold prevector.growFor
  by_cases hlt : v.capacity < s
  · rw [if_pos hlt]
    have hlt' := UInt32.lt_iff_toNat_lt.mp hlt
    have hg := toNat_grown hfit.1
    have hN := h.N_le_capacity
    obtain ⟨h', hc'⟩ := h.changeCapacity (c := s + (s >>> 1)) (by omega) (hfit.mono hs)
    have hgN : ¬ s + (s >>> 1) ≤ N := fun hle => by
      have := UInt32.le_iff_toNat_le.mp hle
      omega
    rw [if_neg hgN] at hc'
    exact ⟨h', by rw [hc', hg]; omega⟩
  · rw [if_neg hlt]
    exact ⟨h, by have := UInt32.lt_iff_toNat_lt.not.mp hlt; omega⟩

end Growth

section Shifts

variable {v : prevector N T} {xs : List T}

theorem toNat_size_sub (h : Holds v xs) {p : UInt32} (hp : p.toNat ≤ xs.length) :
    (v.size - p).toNat = xs.length - p.toNat := by
  rw [UInt32.toNat_sub_of_le _ _ (UInt32.le_iff_toNat_le.mpr (by rw [h.size_eq]; exact hp)), h.size_eq]

/-- `erase(first, last)` removes the elements at the positions `[first, last)`. -/
theorem Holds.erase (h : Holds v xs) {f l : UInt32} (hfl : f.toNat ≤ l.toNat) (hl : l.toNat ≤ xs.length) :
    Holds (v.erase f l) (xs.take f.toNat ++ xs.drop l.toNat) ∧ (v.erase f l).capacity = v.capacity := by
  have hlen := h.size_eq
  have hk : (l - f).toNat = l.toNat - f.toNat :=
    UInt32.toNat_sub_of_le _ _ (UInt32.le_iff_toNat_le.mpr hfl)
  unfold prevector.erase
  dsimp only
  obtain ⟨hd, hs⟩ := subSize (v.modify fun b => copy b f.toNat b l.toNat (v.size - l).toNat) (l - f)
    (by simpa using hlen) (by omega)
  simp only [modify_size] at hd hs
  obtain ⟨hact, hcap⟩ := active_of_isDirect_eq hd rfl
  rw [isDirect_modify] at hd
  refine ⟨⟨?_, ?_, ?_⟩, ?_⟩
  · rw [hs, hk]
    simp only [List.length_append, List.length_take, List.length_drop]
    omega
  · rw [hact, active_modify]
    simp only [toNat_size_sub h hl]
    exact h.stores.erase hfl hl
  · exact h.indirect_of (by simp) hd (by have := h.length_le_capacity; omega)
  · rw [hcap, capacity_modify]

/-- The gap the three `insert`s open at `p`, filled with `ys`. -/
theorem Holds.openGap (h : Holds v xs) {p c : UInt32} (ys : List T) (hc : c.toNat = ys.length)
    (hp : p.toNat ≤ xs.length) (hroom : xs.length + ys.length ≤ v.capacity.toNat)
    (hfit : Fits N (xs.length + ys.length)) :
    Holds (({ v.modify (fun b => copy b (p + c).toNat b p.toNat (v.size - p).toNat) with
        _size := (v.modify (fun b => copy b (p + c).toNat b p.toNat (v.size - p).toNat))._size + c } :
          prevector N T).modify (writeList · p.toNat ys))
      (xs.take p.toNat ++ ys ++ xs.drop p.toNat) := by
  have hlen := h.size_eq
  obtain ⟨hd, hs⟩ := prevector.addSize (v.modify fun b => copy b (p + c).toNat b p.toNat (v.size - p).toNat) c
    (by simpa using hlen) (by simpa [hc] using hroom) (by rw [hc]; exact hfit)
  obtain ⟨hact, -⟩ := active_of_isDirect_eq hd rfl
  rw [isDirect_modify] at hd
  have hpc : (p + c).toNat = p.toNat + ys.length := by
    rw [UInt32.toNat_add, hc, Nat.mod_eq_of_lt (by have := hfit.1; omega)]
  refine ⟨?_, ?_, ?_⟩
  · rw [size_modify, hs, hc]
    simp only [List.length_append, List.length_take, List.length_drop]
    omega
  · rw [active_modify, hact, active_modify]
    simp only [hpc, toNat_size_sub h hp]
    exact h.stores.insert hp ys
  · exact h.indirect_of (by simp) (by rw [isDirect_modify, hd]) (by rw [size_modify, hs, hc]; exact hroom)

/-- `push_back` constructs the value in the slot after the last and counts it. -/
theorem Holds.pushBack (h : Holds v xs) (value : T) (hfit : Fits N (xs.length + 1)) :
    Holds (v.pushBack value) (xs ++ [value]) := by
  have hs1 : (v.size + 1).toNat = xs.length + 1 := by
    rw [UInt32.toNat_add, h.size_eq, UInt32.toNat_one, Nat.mod_eq_of_lt (by have := hfit.1; omega)]
  obtain ⟨hw, hcap⟩ := h.growFor (s := v.size + 1) (by omega) (by rw [hs1]; exact hfit)
  rw [hs1] at hcap
  unfold prevector.pushBack
  dsimp only
  generalize v.growFor (v.size + 1) = w at hw hcap ⊢
  obtain ⟨hd, hs⟩ := prevector.addSize (n := xs.length) (w.modify (write · w.size.toNat value)) 1
    (by rw [size_modify]; exact hw.size_eq) (by simpa using hcap) (by simpa using hfit)
  obtain ⟨hact, -⟩ := active_of_isDirect_eq hd rfl
  rw [isDirect_modify] at hd
  refine ⟨?_, ?_, ?_⟩
  · rw [hs]
    simp
  · rw [hact, active_modify, hw.size_eq]
    exact hw.stores.write_length value
  · exact hw.indirect_of (by simp) hd (by rw [hs]; simpa using hcap)

end Shifts

section Operations

variable {v : prevector N T} {xs : List T}

theorem holds_empty : Holds (empty : prevector N T) [] where
  size_eq := by simp [empty, size, isDirect]
  stores := stores_nil _
  indirect h := absurd h (by simp [empty, isDirect])

theorem Holds.elements_eq (h : Holds v xs) : v.elements = xs := by
  unfold elements
  rw [h.size_eq]
  exact h.stores.filterMap_range

theorem toNat_size_add (h : Holds v xs) {k : UInt32} (hfit : Fits N (xs.length + k.toNat)) :
    (v.size + k).toNat = xs.length + k.toNat := by
  rw [UInt32.toNat_add, h.size_eq, Nat.mod_eq_of_lt (by have := hfit.1; omega)]

theorem toNat_length_toUInt32 {ys : List T} (hfit : Fits N ys.length) : ys.length.toUInt32.toNat = ys.length := by
  simp only [Nat.toUInt32]
  exact Nat.mod_eq_of_lt (by have := hfit.1; omega)

theorem Holds.insert (h : Holds v xs) {p : UInt32} (value : T) (hp : p.toNat ≤ xs.length)
    (hfit : Fits N (xs.length + 1)) : Holds (v.insert p value) (xs.take p.toNat ++ [value] ++ xs.drop p.toNat) := by
  obtain ⟨hw, hcap⟩ := h.growFor (s := v.size + 1) (by rw [toNat_size_add h (by simpa using hfit)]; simp)
    (by rw [toNat_size_add h (by simpa using hfit)]; simpa using hfit)
  rw [toNat_size_add h (by simpa using hfit), UInt32.toNat_one] at hcap
  unfold prevector.insert
  dsimp only
  generalize v.growFor (v.size + 1) = w at hw hcap ⊢
  exact hw.openGap [value] (c := 1) rfl hp hcap hfit

theorem Holds.insertCount (h : Holds v xs) {p : UInt32} (count : UInt32) (value : T) (hp : p.toNat ≤ xs.length)
    (hfit : Fits N (xs.length + count.toNat)) :
    Holds (v.insertCount p count value) (xs.take p.toNat ++ List.replicate count.toNat value ++ xs.drop p.toNat) := by
  obtain ⟨hw, hcap⟩ := h.growFor (s := v.size + count) (by rw [toNat_size_add h hfit]; omega)
    (by rw [toNat_size_add h hfit]; exact hfit)
  rw [toNat_size_add h hfit] at hcap
  unfold prevector.insertCount
  dsimp only
  generalize v.growFor (v.size + count) = w at hw hcap ⊢
  exact hw.openGap (List.replicate count.toNat value) (by simp) hp (by simpa using hcap) (by simpa using hfit)

theorem Holds.insertRange (h : Holds v xs) {p : UInt32} (ys : List T) (hp : p.toNat ≤ xs.length)
    (hfit : Fits N (xs.length + ys.length)) :
    Holds (v.insertRange p ys) (xs.take p.toNat ++ ys ++ xs.drop p.toNat) := by
  have hc := toNat_length_toUInt32 (hfit.mono (Nat.le_add_left _ _))
  have hfit' : Fits N (xs.length + ys.length.toUInt32.toNat) := by rw [hc]; exact hfit
  obtain ⟨hw, hcap⟩ := h.growFor (s := v.size + ys.length.toUInt32) (by rw [toNat_size_add h hfit']; omega)
    (by rw [toNat_size_add h hfit']; exact hfit')
  rw [toNat_size_add h hfit', hc] at hcap
  unfold prevector.insertRange
  dsimp only
  generalize v.growFor (v.size + ys.length.toUInt32) = w at hw hcap ⊢
  exact hw.openGap ys hc hp hcap hfit

theorem Holds.popBack (h : Holds v xs) (hne : xs ≠ []) : Holds v.popBack xs.dropLast := by
  have hpos : 0 < xs.length := List.length_pos_iff.mpr hne
  have h1 : (v.size - 1).toNat = xs.length - 1 := by
    rw [UInt32.toNat_sub_of_le _ _ (UInt32.le_iff_toNat_le.mpr (by rw [UInt32.toNat_one, h.size_eq]; omega)),
      h.size_eq]
    simp
  have hl := (h.erase (f := v.size - 1) (l := v.size) (by rw [h1, h.size_eq]; omega) (by rw [h.size_eq])).1
  rw [h1, h.size_eq, List.drop_length, List.append_nil, ← List.dropLast_eq_take] at hl
  exact hl

/-- `resize` to `n` keeps the first `n` elements and appends default values up to `n`. -/
theorem Holds.resize [Inhabited T] (h : Holds v xs) (n : UInt32) (hfit : Fits N n.toNat) :
    Holds (v.resize n) (xs.take n.toNat ++ List.replicate (n.toNat - xs.length) default) := by
  have hlen := h.size_eq
  unfold prevector.resize
  dsimp only
  -- the elements from `n` on are erased first
  have h₁ : Holds (if v.size > n then v.erase n v.size else v) (xs.take n.toNat) ∧
      (if v.size > n then v.erase n v.size else v).capacity = v.capacity := by
    by_cases hgt : v.size > n
    · rw [if_pos hgt]
      have hgt' := UInt32.lt_iff_toNat_lt.mp hgt
      have := h.erase (f := n) (l := v.size) (by omega) (by omega)
      rwa [hlen, List.drop_length, List.append_nil] at this
    · rw [if_neg hgt]
      have := UInt32.lt_iff_toNat_lt.not.mp hgt
      rw [List.take_of_length_le (by omega)]
      exact ⟨h, rfl⟩
  generalize (if v.size > n then v.erase n v.size else v) = w at h₁ ⊢
  obtain ⟨hw, hwc⟩ := h₁
  have hlt : (xs.take n.toNat).length ≤ n.toNat := by simp
  -- then room for `n` elements
  have h₂ : Holds (if n > w.capacity then w.changeCapacity n else w) (xs.take n.toNat) ∧
      n.toNat ≤ (if n > w.capacity then w.changeCapacity n else w).capacity.toNat := by
    by_cases hgt : n > w.capacity
    · rw [if_pos hgt]
      have hgt' := UInt32.lt_iff_toNat_lt.mp hgt
      have hN := hw.N_le_capacity
      obtain ⟨h', hc'⟩ := hw.changeCapacity (c := n) hlt (hfit.mono hlt)
      rw [if_neg (fun hle => by have := UInt32.le_iff_toNat_le.mp hle; omega)] at hc'
      exact ⟨h', by rw [hc']⟩
    · rw [if_neg hgt]
      exact ⟨hw, by have := UInt32.lt_iff_toNat_lt.not.mp hgt; omega⟩
  generalize (if n > w.capacity then w.changeCapacity n else w) = u at h₂ ⊢
  obtain ⟨hu, huc⟩ := h₂
  have := hu.fillTo default hlt huc hfit
  rwa [List.length_take, show n.toNat - min n.toNat xs.length = n.toNat - xs.length by omega] at this

theorem Holds.clear [Inhabited T] (h : Holds v xs) (hfit : Fits N 0) : Holds v.clear [] := by
  unfold prevector.clear
  simpa using h.resize 0 hfit

theorem Holds.reserve (h : Holds v xs) (c : UInt32) (hfit : Fits N xs.length) : Holds (v.reserve c) xs := by
  unfold prevector.reserve
  split_ifs with hgt
  · exact (h.changeCapacity (by have := h.length_le_capacity; have := UInt32.lt_iff_toNat_lt.mp hgt; omega) hfit).1
  · exact h

theorem Holds.shrinkToFit (h : Holds v xs) (hfit : Fits N xs.length) : Holds v.shrinkToFit xs :=
  (h.changeCapacity (by rw [h.size_eq]) hfit).1

/-- After `clear`, room for `n` elements: the opening of both `assign`s. -/
theorem Holds.clear_room [Inhabited T] (h : Holds v xs) (n : UInt32) (hfit : Fits N n.toNat) :
    Holds (if v.clear.capacity < n then v.clear.changeCapacity n else v.clear) [] ∧
      n.toNat ≤ (if v.clear.capacity < n then v.clear.changeCapacity n else v.clear).capacity.toNat := by
  have hc := h.clear (hfit.mono (Nat.zero_le _))
  by_cases hlt : v.clear.capacity < n
  · rw [if_pos hlt]
    have hlt' := UInt32.lt_iff_toNat_lt.mp hlt
    have hN := hc.N_le_capacity
    obtain ⟨h', hc'⟩ := hc.changeCapacity (c := n) (by simp) (hfit.mono (Nat.zero_le _))
    rw [if_neg (fun hle => by have := UInt32.le_iff_toNat_le.mp hle; omega)] at hc'
    exact ⟨h', by rw [hc']⟩
  · rw [if_neg hlt]
    exact ⟨hc, by have := UInt32.lt_iff_toNat_lt.not.mp hlt; omega⟩

theorem Holds.assign [Inhabited T] (h : Holds v xs) (n : UInt32) (val : T) (hfit : Fits N n.toNat) :
    Holds (v.assign n val) (List.replicate n.toNat val) := by
  obtain ⟨hc, hroom⟩ := h.clear_room n hfit
  unfold prevector.assign
  dsimp only
  simpa using hc.fillTo val (by simp) hroom hfit

theorem Holds.assignRange [Inhabited T] (h : Holds v xs) (ys : List T) (hfit : Fits N ys.length) :
    Holds (v.assignRange ys) ys := by
  have hn := toNat_length_toUInt32 hfit
  obtain ⟨hc, hroom⟩ := h.clear_room ys.length.toUInt32 (by rw [hn]; exact hfit)
  rw [hn] at hroom
  unfold prevector.assignRange
  dsimp only
  simpa using (hc.growRange ys (by simpa using hroom) (by simpa using hfit)).1

/-- The copy assignment of another object holds that object's elements. -/
theorem Holds.copyAssign [Inhabited T] {other : prevector N T} {ys : List T} (h : Holds v xs) (ho : Holds other ys)
    (hfit : Fits N ys.length) : Holds (v.copyAssign other) ys := by
  have hc := h.resize 0 (hfit.mono (Nat.zero_le _))
  simp only [UInt32.toNat_zero, List.take_zero, Nat.zero_sub, List.replicate_zero, List.append_nil] at hc
  obtain ⟨h', hc'⟩ := hc.changeCapacity (c := other.size) (by simp) (hfit.mono (Nat.zero_le _))
  unfold prevector.copyAssign
  dsimp only
  rw [ho.elements_eq]
  have hroom : ys.length ≤ ((v.resize 0).changeCapacity other.size).capacity.toNat := by
    rw [hc']
    split_ifs with hle
    · exact ho.size_eq ▸ UInt32.le_iff_toNat_le.mp hle
    · exact ho.size_eq.ge
  simpa using (h'.growRange ys (by simpa using hroom) (by simpa using hfit)).1

theorem holds_ofSize [Inhabited T] (n : UInt32) (hfit : Fits N n.toNat) :
    Holds (ofSize n : prevector N T) (List.replicate n.toNat default) := by
  unfold ofSize
  simpa using holds_empty.resize n hfit

theorem holds_ofCount (n : UInt32) (val : T) (hfit : Fits N n.toNat) :
    Holds (ofCount n val : prevector N T) (List.replicate n.toNat val) := by
  obtain ⟨h', hc'⟩ := (holds_empty (N := N) (T := T)).changeCapacity (c := n) (by simp) (hfit.mono (Nat.zero_le _))
  have hroom : n.toNat ≤ ((empty : prevector N T).changeCapacity n).capacity.toNat := by
    rw [hc']
    split_ifs with hle
    · exact UInt32.le_iff_toNat_le.mp hle
    · exact le_rfl
  unfold ofCount
  simpa using h'.fillTo val (by simp) hroom hfit

theorem holds_ofRange (ys : List T) (hfit : Fits N ys.length) : Holds (ofRange ys : prevector N T) ys := by
  have hn := toNat_length_toUInt32 hfit
  obtain ⟨h', hc'⟩ := (holds_empty (N := N) (T := T)).changeCapacity (c := ys.length.toUInt32) (by simp)
    (hfit.mono (Nat.zero_le _))
  have hroom : ys.length ≤ ((empty : prevector N T).changeCapacity ys.length.toUInt32).capacity.toNat := by
    rw [hc']
    split_ifs with hle
    · exact hn ▸ UInt32.le_iff_toNat_le.mp hle
    · exact hn.ge
  have := (h'.growRange ys (by simpa using hroom) (by simpa using hfit)).1
  rw [List.nil_append] at this
  exact this

example : ((ofRange [1, 2, 3] : prevector 2 ℕ).insert 1 9).elements = [1, 9, 2, 3] := by decide

example : ((ofRange [1, 2, 3, 4] : prevector 2 ℕ).erase 0 2).shrinkToFit.elements = [3, 4] := by decide

theorem holds_ofCopy {other : prevector N T} {ys : List T} (ho : Holds other ys) (hfit : Fits N ys.length) :
    Holds (ofCopy other) ys := by
  obtain ⟨h', hc'⟩ := (holds_empty (N := N) (T := T)).changeCapacity (c := other.size) (by simp)
    (hfit.mono (Nat.zero_le _))
  have hroom : ys.length ≤ ((empty : prevector N T).changeCapacity other.size).capacity.toNat := by
    rw [hc']
    split_ifs with hle
    · exact ho.size_eq ▸ UInt32.le_iff_toNat_le.mp hle
    · exact ho.size_eq.ge
  unfold ofCopy
  rw [ho.elements_eq]
  simpa using (h'.growRange ys (by simpa using hroom) (by simpa using hfit)).1

end Operations

section Compare

theorem eqLoop_iff [DecidableEq T] : ∀ {xs ys : List T}, xs.length = ys.length → (eqLoop xs ys = true ↔ xs = ys)
  | [], [], _ => by simp [eqLoop]
  | [], _ :: _, h | _ :: _, [], h => absurd h (by simp)
  | x :: xs, y :: ys, h => by
    have ih : eqLoop xs ys = true ↔ xs = ys := eqLoop_iff (by simpa using h)
    by_cases hxy : x = y
    · simp [eqLoop, hxy, ih]
    · simp [eqLoop, hxy]

theorem ltLoop_iff [LinearOrder T] :
    ∀ {xs ys : List T}, xs.length = ys.length → (ltLoop xs ys = true ↔ List.Lex (· < ·) xs ys)
  | [], [], _ => by simp [ltLoop, List.not_lex_nil]
  | [], _ :: _, h | _ :: _, [], h => absurd h (by simp)
  | x :: xs, y :: ys, h => by
    have ih : ltLoop xs ys = true ↔ List.Lex (· < ·) xs ys := ltLoop_iff (by simpa using h)
    rw [List.cons_lex_cons_iff]
    -- the loop decides at the first position where the elements differ
    rcases lt_trichotomy x y with hxy | rfl | hxy
    · simp [ltLoop, hxy]
    · simp [ltLoop, ih]
    · simp [ltLoop, hxy, not_lt_of_gt hxy, ne_of_gt hxy]

variable {a b : prevector N T} {xs ys : List T}

theorem Holds.size_eq_iff (ha : Holds a xs) (hb : Holds b ys) : a.size = b.size ↔ xs.length = ys.length := by
  rw [← ha.size_eq, ← hb.size_eq, UInt32.toNat_inj]

/-- `operator==` is the equality of the elements. -/
theorem Holds.beq_iff [DecidableEq T] (ha : Holds a xs) (hb : Holds b ys) : a.beq b = true ↔ xs = ys := by
  unfold beq
  rw [ha.elements_eq, hb.elements_eq]
  by_cases hs : b.size = a.size
  · rw [if_neg (not_not.mpr hs)]
    exact eqLoop_iff ((hb.size_eq_iff ha).mp hs).symm
  · rw [if_pos hs]
    simp only [Bool.false_eq_true, false_iff]
    rintro rfl
    exact hs ((hb.size_eq_iff ha).mpr rfl)

/-- `operator<` is the shortlex order on the elements. -/
theorem Holds.lt_iff [LinearOrder T] (ha : Holds a xs) (hb : Holds b ys) :
    a.lt b = true ↔ List.Shortlex (· < ·) xs ys := by
  unfold lt
  rw [ha.elements_eq, hb.elements_eq, List.shortlex_def]
  have hlt : a.size < b.size ↔ xs.length < ys.length := by
    rw [UInt32.lt_iff_toNat_lt, ha.size_eq, hb.size_eq]
  have hgt : a.size > b.size ↔ ys.length < xs.length := by
    rw [gt_iff_lt, UInt32.lt_iff_toNat_lt, ha.size_eq, hb.size_eq]
  by_cases h₁ : a.size < b.size
  · rw [if_pos h₁]
    simp [hlt.mp h₁]
  · rw [if_neg h₁]
    have h₁' := hlt.not.mp h₁
    by_cases h₂ : a.size > b.size
    · rw [if_pos h₂]
      have h₂' := hgt.mp h₂
      refine ⟨fun h => absurd h (by simp), fun h => ?_⟩
      rcases h with h | ⟨h, -⟩ <;> omega
    · -- equal sizes: the element loop decides
      rw [if_neg h₂]
      have heq : xs.length = ys.length := by have := hgt.not.mp h₂; omega
      rw [ltLoop_iff heq]
      simp [heq]

/-- Shortlex over a linear order is transitive. -/
theorem shortlex_trans [LinearOrder T] {zs : List T} (h₁ : List.Shortlex (· < ·) xs ys)
    (h₂ : List.Shortlex (· < ·) ys zs) : List.Shortlex (· < ·) xs zs := by
  rw [List.shortlex_def] at h₁ h₂ ⊢
  rcases h₁ with h₁ | ⟨hl₁, hx₁⟩ <;> rcases h₂ with h₂ | ⟨hl₂, hx₂⟩
  · exact .inl (by omega)
  · exact .inl (by omega)
  · exact .inl (by omega)
  · -- equal lengths throughout: the lexicographic order of `List` over a linear order
    refine .inr ⟨hl₁.trans hl₂, ?_⟩
    have hxy : xs < ys := hx₁
    have hyz : ys < zs := hx₂
    exact (lt_trans hxy hyz : xs < zs)

end Compare

end prevector

/-! ### The same operations on `std::vector`

What each operation means on a `std::vector<T>`, over the list of its
elements: the abstract model the prevector is proved against. -/

/-- The operations on a file of objects, named by register. -/
inductive VectorOp (T : Type) where
  | construct (r : ℕ)
  | constructSize (r : ℕ) (n : UInt32)
  | constructCount (r : ℕ) (n : UInt32) (val : T)
  | constructRange (r : ℕ) (xs : List T)
  | constructCopy (r s : ℕ)
  | constructMove (r s : ℕ)
  | assign (r : ℕ) (n : UInt32) (val : T)
  | assignRange (r : ℕ) (xs : List T)
  | resize (r : ℕ) (n : UInt32)
  | reserve (r : ℕ) (n : UInt32)
  | shrinkToFit (r : ℕ)
  | clear (r : ℕ)
  | insert (r : ℕ) (p : UInt32) (val : T)
  | insertCount (r : ℕ) (p n : UInt32) (val : T)
  | insertRange (r : ℕ) (p : UInt32) (xs : List T)
  | erase (r : ℕ) (p : UInt32)
  | eraseRange (r : ℕ) (first last : UInt32)
  | pushBack (r : ℕ) (val : T)
  | popBack (r : ℕ)
  | swap (r s : ℕ)
  | copyAssign (r s : ℕ)
  | moveAssign (r s : ℕ)

namespace StdVector

variable {T : Type}

/-- `resize(n)`: the first `n` elements, then value-initialised ones up to `n`. -/
def resize [Inhabited T] (xs : List T) (n : ℕ) : List T := xs.take n ++ List.replicate (n - xs.length) default

/-- `insert` of the elements `ys` at position `p`. -/
def insert (xs : List T) (p : ℕ) (ys : List T) : List T := xs.take p ++ ys ++ xs.drop p

/-- `erase(first, last)`. -/
def erase (xs : List T) (first last : ℕ) : List T := xs.take first ++ xs.drop last

/-- One operation on a file of vectors. -/
def exec [Inhabited T] (regs : ℕ → List T) : VectorOp T → ℕ → List T
  | .construct r => Function.update regs r []
  | .constructSize r n => Function.update regs r (List.replicate n.toNat default)
  | .constructCount r n val => Function.update regs r (List.replicate n.toNat val)
  | .constructRange r xs => Function.update regs r xs
  | .constructCopy r s => Function.update regs r (regs s)
  | .constructMove r s => Function.update (Function.update regs r (regs s)) s []
  | .assign r n val => Function.update regs r (List.replicate n.toNat val)
  | .assignRange r xs => Function.update regs r xs
  | .resize r n => Function.update regs r (resize (regs r) n.toNat)
  | .reserve _ _ => regs
  | .shrinkToFit _ => regs
  | .clear r => Function.update regs r []
  | .insert r p val => Function.update regs r (insert (regs r) p.toNat [val])
  | .insertCount r p n val => Function.update regs r (insert (regs r) p.toNat (List.replicate n.toNat val))
  | .insertRange r p xs => Function.update regs r (insert (regs r) p.toNat xs)
  | .erase r p => Function.update regs r (erase (regs r) p.toNat (p.toNat + 1))
  | .eraseRange r first last => Function.update regs r (erase (regs r) first.toNat last.toNat)
  | .pushBack r val => Function.update regs r (regs r ++ [val])
  | .popBack r => Function.update regs r (regs r).dropLast
  | .swap r s => Function.update (Function.update regs r (regs s)) s (regs r)
  | .copyAssign r s => Function.update regs r (regs s)
  -- a moved-from vector is valid but unspecified; this is the state a swap
  -- leaves, the target's old elements
  | .moveAssign r s => Function.update (Function.update regs r (regs s)) s (regs r)

/-- `std::vector`'s own preconditions of the operations. -/
def Valid (regs : ℕ → List T) : VectorOp T → Prop
  | .insert r p _ | .insertCount r p _ _ | .insertRange r p _ => p.toNat ≤ (regs r).length
  | .erase r p => p.toNat < (regs r).length
  | .eraseRange r first last => first.toNat ≤ last.toNat ∧ last.toNat ≤ (regs r).length
  | .popBack r => regs r ≠ []
  | _ => True

def run [Inhabited T] (ops : List (VectorOp T)) : ℕ → List T := ops.foldl exec fun _ => []

end StdVector

namespace prevector

variable {N : UInt32} {T : Type}

/-- One operation on a file of prevectors. -/
def exec [Inhabited T] (regs : ℕ → prevector N T) : VectorOp T → ℕ → prevector N T
  | .construct r => Function.update regs r empty
  | .constructSize r n => Function.update regs r (ofSize n)
  | .constructCount r n val => Function.update regs r (ofCount n val)
  | .constructRange r xs => Function.update regs r (ofRange xs)
  | .constructCopy r s => Function.update regs r (ofCopy (regs s))
  | .constructMove r s =>
    -- the move constructor: `_size(0)`, then `swap(other)`
    let moved := empty.swap (regs s)
    Function.update (Function.update regs r moved.1) s moved.2
  | .assign r n val => Function.update regs r ((regs r).assign n val)
  | .assignRange r xs => Function.update regs r ((regs r).assignRange xs)
  | .resize r n => Function.update regs r ((regs r).resize n)
  | .reserve r n => Function.update regs r ((regs r).reserve n)
  | .shrinkToFit r => Function.update regs r (regs r).shrinkToFit
  | .clear r => Function.update regs r (regs r).clear
  | .insert r p val => Function.update regs r ((regs r).insert p val)
  | .insertCount r p n val => Function.update regs r ((regs r).insertCount p n val)
  | .insertRange r p xs => Function.update regs r ((regs r).insertRange p xs)
  -- `erase(pos)` is `erase(pos, pos + 1)`
  | .erase r p => Function.update regs r ((regs r).erase p (p + 1))
  | .eraseRange r first last => Function.update regs r ((regs r).erase first last)
  | .pushBack r val => Function.update regs r ((regs r).pushBack val)
  | .popBack r => Function.update regs r (regs r).popBack
  | .swap r s =>
    let swapped := (regs r).swap (regs s)
    Function.update (Function.update regs r swapped.1) s swapped.2
  -- the self-assignment check `&other == this`
  | .copyAssign r s => if r = s then regs else Function.update regs r ((regs r).copyAssign (regs s))
  -- the move assignment is `swap(other)`
  | .moveAssign r s =>
    let swapped := (regs r).swap (regs s)
    Function.update (Function.update regs r swapped.1) s swapped.2

def run [Inhabited T] (ops : List (VectorOp T)) : ℕ → prevector N T := ops.foldl exec fun _ => empty

/-- A run of operations each within `std::vector`'s preconditions and leaving
every register a size that fits. -/
def Admissible [Inhabited T] (N : UInt32) : (ℕ → List T) → List (VectorOp T) → Prop
  | _, [] => True
  | regs, op :: ops => StdVector.Valid regs op ∧ (∀ r, Fits N (StdVector.exec regs op r).length) ∧
      Admissible N (StdVector.exec regs op) ops

section Registers

variable {regs : ℕ → prevector N T} {vregs : ℕ → List T}

theorem holds_update (h : ∀ r, Holds (regs r) (vregs r)) {r : ℕ} {v : prevector N T} {xs : List T}
    (hv : Holds v xs) : ∀ r', Holds (Function.update regs r v r') (Function.update vregs r xs r') := by
  intro r'
  by_cases hr : r' = r
  · subst hr
    simpa using hv
  · simpa [Function.update_of_ne hr] using h r'

@[simp] theorem swap_fst (v w : prevector N T) : (v.swap w).1 = w := rfl

@[simp] theorem swap_snd (v w : prevector N T) : (v.swap w).2 = v := rfl

theorem length_insert {xs : List T} {p : ℕ} (ys : List T) (hp : p ≤ xs.length) :
    (StdVector.insert xs p ys).length = xs.length + ys.length := by
  simp [StdVector.insert]
  omega

theorem length_resize [Inhabited T] (xs : List T) (n : ℕ) : (StdVector.resize xs n).length = n := by
  simp [StdVector.resize]
  omega

/-- One operation keeps every register holding the elements of the vector in the
same register. -/
theorem exec_holds [Inhabited T] (h : ∀ r, Holds (regs r) (vregs r)) (op : VectorOp T)
    (hv : StdVector.Valid vregs op) (hfit : ∀ r, Fits N (StdVector.exec vregs op r).length) :
    ∀ r, Holds (exec regs op r) (StdVector.exec vregs op r) := by
  have hzero : Fits N 0 := (hfit 0).mono (Nat.zero_le _)
  cases op with
  | construct r => exact holds_update h holds_empty
  | constructSize r n =>
    have hr := hfit r
    simp only [StdVector.exec, Function.update_self, List.length_replicate] at hr
    exact holds_update h (holds_ofSize n hr)
  | constructCount r n val =>
    have hr := hfit r
    simp only [StdVector.exec, Function.update_self, List.length_replicate] at hr
    exact holds_update h (holds_ofCount n val hr)
  | constructRange r xs =>
    have hr := hfit r
    simp only [StdVector.exec, Function.update_self] at hr
    exact holds_update h (holds_ofRange xs hr)
  | constructCopy r s =>
    have hr := hfit r
    simp only [StdVector.exec, Function.update_self] at hr
    exact holds_update h (holds_ofCopy (h s) hr)
  | constructMove r s => exact holds_update (holds_update h (h s)) holds_empty
  | assign r n val =>
    have hr := hfit r
    simp only [StdVector.exec, Function.update_self, List.length_replicate] at hr
    exact holds_update h ((h r).assign n val hr)
  | assignRange r xs =>
    have hr := hfit r
    simp only [StdVector.exec, Function.update_self] at hr
    exact holds_update h ((h r).assignRange xs hr)
  | resize r n =>
    have hr := hfit r
    simp only [StdVector.exec, Function.update_self, length_resize] at hr
    exact holds_update h ((h r).resize n hr)
  | reserve r n =>
    have hu := holds_update h (r := r) ((h r).reserve n (hfit r))
    rwa [Function.update_eq_self] at hu
  | shrinkToFit r =>
    have hu := holds_update h (r := r) ((h r).shrinkToFit (hfit r))
    rwa [Function.update_eq_self] at hu
  | clear r => exact holds_update h ((h r).clear hzero)
  | insert r p val =>
    have hr := hfit r
    simp only [StdVector.exec, Function.update_self, length_insert _ hv, List.length_singleton] at hr
    exact holds_update h ((h r).insert val hv hr)
  | insertCount r p n val =>
    have hr := hfit r
    simp only [StdVector.exec, Function.update_self, length_insert _ hv, List.length_replicate] at hr
    exact holds_update h ((h r).insertCount n val hv hr)
  | insertRange r p xs =>
    have hr := hfit r
    simp only [StdVector.exec, Function.update_self, length_insert _ hv] at hr
    exact holds_update h ((h r).insertRange xs hv hr)
  | erase r p =>
    have hp : p.toNat < (vregs r).length := hv
    have hlen : (vregs r).length < 2 ^ 32 := (h r).size_eq ▸ UInt32.toNat_lt _
    have hp1 : (p + 1).toNat = p.toNat + 1 := by
      rw [UInt32.toNat_add, UInt32.toNat_one, Nat.mod_eq_of_lt (by omega)]
    have he := ((h r).erase (f := p) (l := p + 1) (by omega) (by omega)).1
    rw [hp1] at he
    exact holds_update h he
  | eraseRange r first last => exact holds_update h ((h r).erase hv.1 hv.2).1
  | pushBack r val =>
    have hr := hfit r
    simp only [StdVector.exec, Function.update_self, List.length_append, List.length_singleton] at hr
    exact holds_update h ((h r).pushBack val hr)
  | popBack r => exact holds_update h ((h r).popBack hv)
  | swap r s => exact holds_update (holds_update h (h s)) (h r)
  | copyAssign r s =>
    by_cases hrs : r = s
    · subst hrs
      simp only [exec, if_true, StdVector.exec, Function.update_eq_self]
      exact h
    · have hr := hfit r
      simp only [StdVector.exec, Function.update_self] at hr
      simp only [exec, if_neg hrs]
      exact holds_update h ((h r).copyAssign (h s) hr)
  | moveAssign r s => exact holds_update (holds_update h (h s)) (h r)

/-- A whole admissible run keeps every register holding the elements of the
vector in the same register. -/
theorem foldl_exec_holds [Inhabited T] : ∀ (ops : List (VectorOp T)) {regs : ℕ → prevector N T}
    {vregs : ℕ → List T}, (∀ r, Holds (regs r) (vregs r)) → Admissible N vregs ops →
      ∀ r, Holds (ops.foldl exec regs r) (ops.foldl StdVector.exec vregs r)
  | [], _, _, h, _ => h
  | op :: ops, _, _, h, ⟨hv, hfit, hrest⟩ => foldl_exec_holds ops (exec_holds h op hv hfit) hrest

theorem run_holds [Inhabited T] (ops : List (VectorOp T)) (hadm : Admissible N (fun _ => []) ops) (r : ℕ) :
    Holds (run (N := N) ops r) (StdVector.run ops r) :=
  foldl_exec_holds ops (fun _ => holds_empty) hadm r


end Registers

section Wrap

variable {v : prevector N T}

/-- `_size += k` in indirect mode, bounded only by the 32 bits of `_size`. -/
theorem addSize_of_indirect (u : prevector N T) (k : UInt32) (hd : u.isDirect = false)
    (hk : u.size.toNat + k.toNat + N.toNat + 1 < 2 ^ 32) :
    ({ u with _size := u._size + k } : prevector N T).isDirect = false ∧
      ({ u with _size := u._size + k } : prevector N T).size.toNat = u.size.toNat + k.toNat := by
  have hs := size_toNat_of_indirect hd
  have hadd : (u._size + k).toNat = u._size.toNat + k.toNat := by
    rw [UInt32.toNat_add, Nat.mod_eq_of_lt (by omega)]
  have hd' : ({ u with _size := u._size + k } : prevector N T).isDirect = false :=
    isDirect_eq_false_iff.mpr (by simp only; omega)
  have := size_toNat_of_indirect hd'
  simp only at this
  exact ⟨hd', by omega⟩

/-- The constructing loop on a heap block counts its passes in `size()` for any
`n` whose `_size`, `n + N + 1`, fits 32 bits; the capacity stays. -/
theorem fillLoop_of_indirect (val : T) {n : UInt32} (hn : n.toNat + N.toNat + 1 < 2 ^ 32) (fuel : ℕ) :
    ∀ {v : prevector N T}, v.isDirect = false → v.size.toNat ≤ n.toNat → n.toNat - v.size.toNat ≤ fuel →
      (fillLoop val n fuel v).isDirect = false ∧ (fillLoop val n fuel v).size = n ∧
        (fillLoop val n fuel v)._union.capacity = v._union.capacity := by
  induction fuel with
  | zero =>
    intro v hd hle hf
    simp only [prevector.fillLoop, and_true]
    exact ⟨hd, UInt32.toNat_inj.mp (by omega)⟩
  | succ fuel ih =>
    intro v hd hle hf
    rw [prevector.fillLoop]
    by_cases hlt : v.size < n
    · rw [if_pos hlt]
      have hlt' := UInt32.lt_iff_toNat_lt.mp hlt
      obtain ⟨hd', hs'⟩ := addSize_of_indirect v 1 hd (by simp; omega)
      simp only [UInt32.toNat_one] at hs'
      have hg : (v.growBy val).isDirect = false ∧ (v.growBy val).size.toNat = v.size.toNat + 1 ∧
          (v.growBy val)._union.capacity = v._union.capacity := by
        simp only [prevector.growBy, isDirect_modify, size_modify, modify_capacity, and_true]
        exact ⟨hd', hs'⟩
      obtain ⟨ih₁, ih₂, ih₃⟩ := ih hg.1 (by omega) (by omega)
      exact ⟨ih₁, ih₂, ih₃.trans hg.2.2⟩
    · rw [if_neg hlt]
      have := UInt32.lt_iff_toNat_lt.not.mp hlt
      exact ⟨hd, UInt32.toNat_inj.mp (by omega), rfl⟩

end Wrap

section Behaviour

theorem shortlex_irrefl [LinearOrder T] (xs : List T) : ¬ List.Shortlex (· < ·) xs xs := by
  rw [List.shortlex_def]
  rintro (h | ⟨-, h⟩)
  · exact Nat.lt_irrefl _ h
  · have hlt : xs < xs := h
    exact lt_irrefl _ hlt

theorem shortlex_trichotomous [LinearOrder T] (xs ys : List T) :
    List.Shortlex (· < ·) xs ys ∨ xs = ys ∨ List.Shortlex (· < ·) ys xs := by
  simp only [List.shortlex_def]
  rcases lt_trichotomy xs.length ys.length with h | h | h
  · exact .inl (.inl h)
  · -- equal lengths: the linear order of `List` is the lexicographic one
    rcases lt_trichotomy xs ys with hl | rfl | hl
    · exact .inl (.inr ⟨h, hl⟩)
    · exact .inr (.inl rfl)
    · exact .inr (.inr (.inr ⟨h.symm, hl⟩))
  · exact .inr (.inr (.inl h))

/-- `push_back` on a full heap block of 2863311530 elements of `prevector<28, T>`:
the capacity `new_size + (new_size >> 1)` wraps to `0`, the heap block is given
up for the inline buffer while `_size` keeps its offset, and `size()` drops. -/
theorem pushBack_size_of_full {v : prevector 28 T} (x : T) (hd : v.isDirect = false) (hs : v.size = 2863311530)
    (hc : v._union.capacity = 2863311530) : (v.pushBack x).size = 2863311502 := by
  have hsz : v._size = 2863311559 := by
    have := size_toNat_of_indirect hd
    rw [hs] at this
    exact UInt32.toNat_inj.mp (by rw [← this]; rfl)
  -- no room for one more element, and the capacity to grow to is zero
  have hgrow : v.growFor (v.size + 1) = v.changeCapacity 0 := by
    rw [growFor, capacity_of_indirect hd, hc, hs, if_pos (by decide)]
    congr 1
  -- so the heap block goes back inline and `_size` loses `N + 1`
  have hback : (v.changeCapacity 0)._size = v._size - (28 + 1) := by
    rw [changeCapacity, if_pos (by decide), hd, if_pos (by decide : (!false) = true)]
  have hfield : (v.pushBack x)._size = 2863311531 := by
    have : (v.pushBack x)._size = (v.growFor (v.size + 1))._size + 1 := by simp only [pushBack, modify_size]
    rw [this, hgrow, hback, hsz]
    decide
  simp only [size, isDirect, hfield]
  decide

/-- The wrap past the bound: `push_back` on `prevector<28, T>(2863311530, val)`,
the inline size of scripts, leaves `size()` at 2863311502 where the vector holds
2863311531 elements. -/
theorem pushBack_size_of_ofCount (val x : T) :
    ((ofCount 2863311530 val : prevector 28 T).pushBack x).size = 2863311502 ∧
      (List.replicate 2863311530 val ++ [x]).length = 2863311531 := by
  have hsize : ((empty : prevector 28 T).changeCapacity 2863311530).size.toNat = 0 :=
    ((holds_empty (N := 28) (T := T)).changeCapacity (c := 2863311530) (by simp)
      ⟨by norm_num, by simp only [List.length_nil, Nat.zero_add]; decide⟩).1.size_eq
  have hcap : ((empty : prevector 28 T).changeCapacity 2863311530)._union.capacity = 2863311530 := rfl
  -- the constructor's loop, through the loop lemma: it is never run
  obtain ⟨hd, hs, hc⟩ := fillLoop_of_indirect val (n := 2863311530) (N := 28) (by decide)
    (UInt32.toNat 2863311530) (v := (empty : prevector 28 T).changeCapacity 2863311530) rfl
    (by rw [hsize]; exact Nat.zero_le _) (by rw [hsize]; exact Nat.le_refl _)
  unfold ofCount fillTo
  exact ⟨pushBack_size_of_full x hd hs (hc.trans hcap),
    by rw [List.length_append, List.length_replicate, List.length_singleton]⟩

end Behaviour

end prevector

end AokChain
