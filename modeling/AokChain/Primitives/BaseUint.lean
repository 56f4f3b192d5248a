import AokChain.Lib.Limbs
import AokChain.Primitives.ArithUint256

/-!
# 256-bit arithmetic

`base_uint<BITS>` of `arith_uint256.h` and `arith_uint256.cpp`: `WIDTH = BITS / 32`
limbs of `uint32_t`, least significant first, with the loops of its operators as
the source writes them.  The carries of `operator+=`, `operator*=(uint32_t)` and
each row of `operator*=` are the 64-bit accumulator of `Limbs.carryLoop`; the
shifts OR each limb into the two limbs it straddles; `operator/=` is the
shift-and-subtract loop over the bits of the quotient.

`toNat` reads the limbs as a number below `2 ^ (32 * WIDTH)`.  Each operator has
its spec lemma on it (`toNat_add`, `toNat_mul`, `toNat_shl`, `toNat_shr`,
`toNat_div`, ...), and GetBlockProof's `~bnTarget / (bnTarget + 1) + 1` is
`2 ^ 256 / (bnTarget + 1)` (`toNat_blockProof`).
-/

namespace AokChain

open Limbs

/-- `base_uint<BITS>` with `WIDTH = BITS / 32` limbs, least significant first. -/
structure BaseUint (WIDTH : ℕ) where
  pn : List UInt32
  length_pn : pn.length = WIDTH

namespace BaseUint

section Operators

variable {WIDTH : ℕ}

/-- The number the limbs stand for. -/
def toNat (a : BaseUint WIDTH) : ℕ := val a.pn

/-- `base_uint()`. -/
def zero : BaseUint WIDTH := ⟨List.replicate WIDTH 0, List.length_replicate⟩

/-- `base_uint(uint64_t b)`: the halves of `b` in the two lowest limbs. -/
def ofUInt64 (b : UInt64) : BaseUint WIDTH :=
  ⟨((List.replicate WIDTH 0).set 0 b.toUInt32).set 1 (b >>> 32).toUInt32, by simp⟩

/-- `operator~`. -/
def complement (a : BaseUint WIDTH) : BaseUint WIDTH := ⟨a.pn.map (~~~ ·), by rw [List.length_map, a.length_pn]⟩

/-- The loop of prefix `operator++`: `while (i < WIDTH && ++pn[i] == 0) i++`. -/
def incrementLoop : List UInt32 → List UInt32
  | [] => []
  | w :: ws => if w + 1 = 0 then 0 :: incrementLoop ws else (w + 1) :: ws

theorem length_incrementLoop (l : List UInt32) : (incrementLoop l).length = l.length := by
  induction l with
  | nil => rfl
  | cons w ws ih =>
    unfold incrementLoop
    split_ifs
    · rw [List.length_cons, ih, List.length_cons]
    · rfl

/-- Prefix `operator++`. -/
def increment (a : BaseUint WIDTH) : BaseUint WIDTH := ⟨incrementLoop a.pn, by rw [length_incrementLoop, a.length_pn]⟩

/-- Unary `operator-`: the complement, incremented. -/
def neg (a : BaseUint WIDTH) : BaseUint WIDTH := increment (complement a)

/-- `operator+=`: `n = carry + pn[i] + b.pn[i]`. -/
def add (a b : BaseUint WIDTH) : BaseUint WIDTH :=
  ⟨carryLoop (fun carry (pq : UInt32 × UInt32) => carry + pq.1.toUInt64 + pq.2.toUInt64) (a.pn.zip b.pn) 0, by
    rw [length_carryLoop, List.length_zip, a.length_pn, b.length_pn, Nat.min_self]⟩

/-- `operator-=`: `*this += -b`. -/
def sub (a b : BaseUint WIDTH) : BaseUint WIDTH := add a (neg b)

/-- `operator*=(uint32_t b32)`: `n = carry + (uint64_t)b32 * pn[i]`. -/
def mulWord (a : BaseUint WIDTH) (b32 : UInt32) : BaseUint WIDTH :=
  ⟨carryLoop (fun carry (p : UInt32) => carry + b32.toUInt64 * p.toUInt64) a.pn 0, by
    rw [length_carryLoop, a.length_pn]⟩

/-- Row `j` of `operator*=(const base_uint& b)`: for `i + j < WIDTH`,
`n = carry + pn[i + j] + (uint64_t)a.pn[j] * b.pn[i]`. -/
def mulRow (b : List UInt32) (j : ℕ) (aj : UInt32) (pn : List UInt32) : List UInt32 :=
  pn.take j ++
    carryLoop (fun carry (pq : UInt32 × UInt32) => carry + pq.1.toUInt64 + aj.toUInt64 * pq.2.toUInt64)
      ((pn.drop j).zip b) 0

/-- The rows of `operator*=`, one for each limb `a.pn[j]`. -/
def mulRows (b : List UInt32) : List UInt32 → ℕ → List UInt32 → List UInt32
  | [], _, pn => pn
  | aj :: as, j, pn => mulRows b as (j + 1) (mulRow b j aj pn)

theorem length_mulRow {b pn : List UInt32} (j : ℕ) (aj : UInt32) (hb : pn.length ≤ b.length) :
    (mulRow b j aj pn).length = pn.length := by
  rw [mulRow, List.length_append, length_carryLoop, List.length_zip, List.length_take, List.length_drop]
  omega

theorem length_mulRows {b : List UInt32} (as : List UInt32) :
    ∀ (j : ℕ) (pn : List UInt32), pn.length ≤ b.length → (mulRows b as j pn).length = pn.length := by
  induction as with
  | nil => exact fun _ _ _ => rfl
  | cons aj as ih =>
    intro j pn hb
    rw [mulRows, ih (j + 1) _ (by rwa [length_mulRow j aj hb]), length_mulRow j aj hb]

/-- `operator*=(const base_uint& b)`, from zero. -/
def mul (a b : BaseUint WIDTH) : BaseUint WIDTH :=
  ⟨mulRows b.pn a.pn 0 (List.replicate WIDTH 0), by
    rw [length_mulRows _ _ _ (by rw [List.length_replicate, b.length_pn]), List.length_replicate]⟩

variable (WIDTH) in
/-- The round of `operator<<=` for limb `i`, holding `ai`: it is ORed into limb
`i + k + 1` shifted down by `32 - shift` and into limb `i + k` shifted up by `shift`. -/
def shiftLeftRound (k shift i : ℕ) (ai : UInt32) (pn : List UInt32) : List UInt32 :=
  let pn := if i + k + 1 < WIDTH ∧ shift ≠ 0 then pn.modify (i + k + 1) (· ||| ai >>> (32 - shift).toUInt32) else pn
  if i + k < WIDTH then pn.modify (i + k) (· ||| ai <<< shift.toUInt32) else pn

variable (WIDTH) in
/-- The loop of `operator<<=` over the limbs from `i` on. -/
def shiftLeftLoop (k shift : ℕ) : List UInt32 → ℕ → List UInt32 → List UInt32
  | [], _, pn => pn
  | ai :: as, i, pn => shiftLeftLoop k shift as (i + 1) (shiftLeftRound WIDTH k shift i ai pn)

/-- The round of `operator>>=` for limb `i`, holding `ai`: it is ORed into limb
`i - k - 1` shifted up by `32 - shift` and into limb `i - k` shifted down by `shift`. -/
def shiftRightRound (k shift i : ℕ) (ai : UInt32) (pn : List UInt32) : List UInt32 :=
  let pn := if k + 1 ≤ i ∧ shift ≠ 0 then pn.modify (i - k - 1) (· ||| ai <<< (32 - shift).toUInt32) else pn
  if k ≤ i then pn.modify (i - k) (· ||| ai >>> shift.toUInt32) else pn

/-- The loop of `operator>>=` over the limbs from `i` on. -/
def shiftRightLoop (k shift : ℕ) : List UInt32 → ℕ → List UInt32 → List UInt32
  | [], _, pn => pn
  | ai :: as, i, pn => shiftRightLoop k shift as (i + 1) (shiftRightRound k shift i ai pn)

theorem length_shiftLeftLoop (k shift : ℕ) (as : List UInt32) :
    ∀ (i : ℕ) (pn : List UInt32), (shiftLeftLoop WIDTH k shift as i pn).length = pn.length := by
  induction as with
  | nil => exact fun _ _ => rfl
  | cons ai as ih =>
    intro i pn
    rw [shiftLeftLoop, ih, shiftLeftRound, length_ite_modify, length_ite_modify]

theorem length_shiftRightLoop (k shift : ℕ) (as : List UInt32) :
    ∀ (i : ℕ) (pn : List UInt32), (shiftRightLoop k shift as i pn).length = pn.length := by
  induction as with
  | nil => exact fun _ _ => rfl
  | cons ai as ih =>
    intro i pn
    rw [shiftRightLoop, ih, shiftRightRound, length_ite_modify, length_ite_modify]

/-- `operator<<=(unsigned int shift)`: `k = shift / 32`, `shift = shift % 32`. -/
def shl (a : BaseUint WIDTH) (shift : ℕ) : BaseUint WIDTH :=
  ⟨shiftLeftLoop WIDTH (shift / 32) (shift % 32) a.pn 0 (List.replicate WIDTH 0), by
    rw [length_shiftLeftLoop, List.length_replicate]⟩

/-- `operator>>=(unsigned int shift)`. -/
def shr (a : BaseUint WIDTH) (shift : ℕ) : BaseUint WIDTH :=
  ⟨shiftRightLoop (shift / 32) (shift % 32) a.pn 0 (List.replicate WIDTH 0), by
    rw [length_shiftRightLoop, List.length_replicate]⟩

/-- The loop of CompareTo, over the limbs from the top. -/
def compareLoop : List UInt32 → List UInt32 → ℤ
  | a :: as, b :: bs => if a < b then -1 else if a > b then 1 else compareLoop as bs
  | _, _ => 0

/-- `CompareTo`. -/
def compareTo (a b : BaseUint WIDTH) : ℤ := compareLoop a.pn.reverse b.pn.reverse

/-- The inner loop of `bits()`, `for (nbits = 31; nbits > 0; nbits--)`: the
first set bit `nbits` gives `nbits + 1`, and `1` after the loop. -/
def highBit (w : UInt32) : ℕ → ℕ
  | 0 => 1
  | nbits + 1 => if w &&& (1 <<< (nbits + 1).toUInt32) ≠ 0 then nbits + 2 else highBit w nbits

/-- The outer loop of `bits()` over the limbs from the top; `pos` is the number
of limbs below. -/
def bitsLoop : List UInt32 → ℕ
  | [] => 0
  | w :: ws => if w ≠ 0 then 32 * ws.length + highBit w 31 else bitsLoop ws

/-- `bits()`: the position of the highest set bit, plus one. -/
def bits (a : BaseUint WIDTH) : ℕ := bitsLoop a.pn.reverse

/-- `EqualTo(uint64_t b)`. -/
def equalTo (a : BaseUint WIDTH) (b : UInt64) : Bool :=
  (a.pn.drop 2).all (· = 0) && a.pn.getD 1 0 == (b >>> 32).toUInt32 && a.pn.getD 0 0 == b.toUInt32

/-- `pn[shift / 32] |= (1 << (shift & 31))`, the quotient bit of `operator/=`. -/
def setBit (a : BaseUint WIDTH) (shift : ℕ) : BaseUint WIDTH :=
  ⟨a.pn.modify (shift / 32) (· ||| 1 <<< (shift &&& 31).toUInt32), by rw [List.length_modify, a.length_pn]⟩

/-- The body of the loop of `operator/=`: where the shifted divisor fits in the
remainder it is subtracted and bit `shift` of the quotient set. -/
def divStep (num div q : BaseUint WIDTH) (shift : ℕ) : BaseUint WIDTH × BaseUint WIDTH :=
  if 0 ≤ compareTo num div then (sub num div, setBit q shift) else (num, q)

/-- The loop of `operator/=`, `while (shift >= 0)`, with `div >>= 1` between rounds. -/
def divLoop : ℕ → BaseUint WIDTH → BaseUint WIDTH → BaseUint WIDTH → BaseUint WIDTH
  | 0, num, div, q => (divStep num div q 0).2
  | shift + 1, num, div, q =>
    let r := divStep num div q (shift + 1)
    divLoop shift r.1 (shr div 1) r.2

/-- `operator/=`, `none` where it throws `uint_error("Division by zero")`. -/
def div (a b : BaseUint WIDTH) : Option (BaseUint WIDTH) :=
  let numBits := bits a
  let divBits := bits b
  if divBits = 0 then none
  else if divBits > numBits then some zero
  else
    let shift := numBits - divBits
    some (divLoop shift a (shl b shift) zero)

/-- GetBlockProof's `(~bnTarget / (bnTarget + 1)) + 1`. -/
def blockProof (bnTarget : BaseUint WIDTH) : Option (BaseUint WIDTH) :=
  (div (complement bnTarget) (add bnTarget (ofUInt64 1))).map fun q => add q (ofUInt64 1)

end Operators

section Values

variable {WIDTH : ℕ}

theorem toNat_lt (a : BaseUint WIDTH) : a.toNat < 2 ^ (32 * WIDTH) := by
  have h := val_lt a.pn
  rwa [a.length_pn] at h

theorem toNat_zero : (zero : BaseUint WIDTH).toNat = 0 := val_replicate_zero WIDTH

theorem toNat_ofUInt64 (hW : 2 ≤ WIDTH) (b : UInt64) : (ofUInt64 b : BaseUint WIDTH).toNat = b.toNat := by
  obtain ⟨w, rfl⟩ : ∃ w, WIDTH = w + 2 := ⟨WIDTH - 2, by omega⟩
  have hb := b.toNat_lt
  simp only [toNat, ofUInt64, List.replicate_succ, List.set_cons_zero, List.set_cons_succ, val_cons,
    val_replicate_zero, UInt64.toNat_toUInt32, high_half]
  omega

theorem toNat_complement (a : BaseUint WIDTH) : (complement a).toNat = 2 ^ (32 * WIDTH) - 1 - a.toNat := by
  rw [toNat, complement, val_map_complement, a.length_pn, toNat]

theorem val_incrementLoop (l : List UInt32) : val (incrementLoop l) = (val l + 1) % 2 ^ (32 * l.length) := by
  induction l with
  | nil => rfl
  | cons w ws ih =>
    have hw := w.toNat_lt
    have hws := val_lt ws
    rw [incrementLoop, List.length_cons, Nat.mul_succ, pow_add, mul_comm (2 ^ (32 * ws.length))]
    by_cases hcarry : w + 1 = 0
    · -- the limb wraps to zero and the increment carries on
      have hmax : w.toNat = 2 ^ 32 - 1 := by
        have := congrArg UInt32.toNat hcarry
        rw [UInt32.toNat_add, UInt32.toNat_one, UInt32.toNat_zero] at this
        omega
      rw [if_pos hcarry, val_cons, val_cons, ih, UInt32.toNat_zero, hmax, Nat.zero_add,
        show 2 ^ 32 - 1 + 2 ^ 32 * val ws + 1 = 2 ^ 32 * (val ws + 1) by omega, Nat.mul_mod_mul_left]
    · have hsucc : (w + 1).toNat = w.toNat + 1 := by
        rw [UInt32.toNat_add, UInt32.toNat_one]
        apply Nat.mod_eq_of_lt
        by_contra h
        apply hcarry
        apply UInt32.toNat_inj.mp
        rw [UInt32.toNat_add, UInt32.toNat_one, UInt32.toNat_zero]
        omega
      have hlt : w.toNat + 1 + 2 ^ 32 * val ws < 2 ^ 32 * 2 ^ (32 * ws.length) := by
        have : w.toNat + 1 < 2 ^ 32 := by
          have := hsucc ▸ (w + 1).toNat_lt
          omega
        calc w.toNat + 1 + 2 ^ 32 * val ws < 2 ^ 32 * (val ws + 1) := by omega
          _ ≤ 2 ^ 32 * 2 ^ (32 * ws.length) := Nat.mul_le_mul_left _ hws
      rw [if_neg hcarry, val_cons, val_cons, hsucc, Nat.mod_eq_of_lt (by omega)]
      omega

theorem toNat_increment (a : BaseUint WIDTH) : (increment a).toNat = (a.toNat + 1) % 2 ^ (32 * WIDTH) := by
  rw [toNat, increment, val_incrementLoop, a.length_pn, toNat]

theorem toNat_neg (a : BaseUint WIDTH) : (neg a).toNat = (2 ^ (32 * WIDTH) - a.toNat) % 2 ^ (32 * WIDTH) := by
  have ha := a.toNat_lt
  rw [neg, toNat_increment, toNat_complement]
  congr 1
  omega

theorem toNat_add (a b : BaseUint WIDTH) : (add a b).toNat = (a.toNat + b.toNat) % 2 ^ (32 * WIDTH) := by
  have hcols := columns_zip_add_mul 1 a.pn b.pn
  rw [List.take_of_length_le (by rw [a.length_pn, b.length_pn]),
    List.take_of_length_le (by rw [a.length_pn, b.length_pn]), one_mul] at hcols
  rw [toNat, add, val_carryLoop (a.pn.zip b.pn) 0 (g := fun pq => pq.1.toNat + 1 * pq.2.toNat), hcols,
    List.length_zip, a.length_pn, b.length_pn, Nat.min_self, UInt64.toNat_zero, Nat.add_zero, toNat, toNat]
  · -- a column of two limbs and a carry stays below `2 ^ 64`
    intro c hc pq _
    have h1 := pq.1.toNat_lt
    have h2 := pq.2.toNat_lt
    rw [UInt64.toNat_add, UInt64.toNat_add, UInt32.toNat_toUInt64, UInt32.toNat_toUInt64]
    omega
  · intro pq _
    have h1 := pq.1.toNat_lt
    have h2 := pq.2.toNat_lt
    omega
  · rw [UInt64.toNat_zero]
    norm_num

theorem toNat_sub (a b : BaseUint WIDTH) :
    (sub a b).toNat = (a.toNat + (2 ^ (32 * WIDTH) - b.toNat)) % 2 ^ (32 * WIDTH) := by
  rw [sub, toNat_add, toNat_neg, Nat.add_mod_mod]

theorem toNat_sub_of_le {a b : BaseUint WIDTH} (h : b.toNat ≤ a.toNat) : (sub a b).toNat = a.toNat - b.toNat := by
  have ha := a.toNat_lt
  rw [toNat_sub, show a.toNat + (2 ^ (32 * WIDTH) - b.toNat) = a.toNat - b.toNat + 2 ^ (32 * WIDTH) by omega,
    Nat.add_mod_right, Nat.mod_eq_of_lt (by omega)]

example : (sub (⟨[7, 0, 0, 0, 0, 0, 0, 0], rfl⟩ : BaseUint 8) ⟨[2, 0, 0, 0, 0, 0, 0, 0], rfl⟩).pn = [5, 0, 0, 0, 0, 0, 0, 0] := by decide

/-- A product of two limbs is at most `(2 ^ 32 - 1) ^ 2`. -/
theorem limb_mul_le (x y : UInt32) : x.toNat * y.toNat ≤ (2 ^ 32 - 1) * (2 ^ 32 - 1) :=
  Nat.mul_le_mul (by have := x.toNat_lt; omega) (by have := y.toNat_lt; omega)

theorem toNat_mulWord (a : BaseUint WIDTH) (b32 : UInt32) :
    (mulWord a b32).toNat = b32.toNat * a.toNat % 2 ^ (32 * WIDTH) := by
  rw [toNat, mulWord, val_carryLoop a.pn 0 (g := fun p => b32.toNat * p.toNat), columns_map_mul, a.length_pn,
    UInt64.toNat_zero, Nat.add_zero, toNat]
  · intro c hc p _
    have := limb_mul_le b32 p
    rw [UInt64.toNat_add, UInt64.toNat_mul, UInt32.toNat_toUInt64, UInt32.toNat_toUInt64]
    omega
  · intro p _
    have := limb_mul_le b32 p
    omega
  · rw [UInt64.toNat_zero]
    norm_num

/-- Row `j` adds `a.pn[j]` times `b`, moved up `j` limbs, modulo the width. -/
theorem val_mulRow {b pn : List UInt32} {j : ℕ} (aj : UInt32) (hpn : pn.length = WIDTH) (hb : b.length = WIDTH)
    (hj : j < WIDTH) :
    val (mulRow b j aj pn) = (val pn + 2 ^ (32 * j) * (aj.toNat * val b)) % 2 ^ (32 * WIDTH) := by
  have hcols := columns_zip_add_mul aj.toNat (pn.drop j) b
  rw [List.take_of_length_le (by rw [List.length_drop, hpn, hb]; omega), List.length_drop, hpn] at hcols
  have hL := val_lt (pn.take j)
  rw [List.length_take_of_le (by omega)] at hL
  -- the limbs of `b` above the row's width drop out
  have hmod : (val (pn.drop j) + aj.toNat * (val (b.take (WIDTH - j)) +
      2 ^ (32 * (WIDTH - j)) * val (b.drop (WIDTH - j)))) % 2 ^ (32 * (WIDTH - j)) =
      (val (pn.drop j) + aj.toNat * val (b.take (WIDTH - j))) % 2 ^ (32 * (WIDTH - j)) := by
    rw [mul_add, ← add_assoc, mul_left_comm, Nat.add_mul_mod_self_left]
  rw [mulRow, val_append, List.length_take_of_le (by omega),
    val_carryLoop ((pn.drop j).zip b) 0 (g := fun pq => pq.1.toNat + aj.toNat * pq.2.toNat), hcols,
    List.length_zip, List.length_drop, hpn, hb, Nat.min_eq_left (by omega), UInt64.toNat_zero, Nat.add_zero,
    val_take_drop pn (show j ≤ pn.length by omega), val_take_drop b (show WIDTH - j ≤ b.length by omega),
    add_assoc, ← mul_add, show 32 * WIDTH = 32 * j + 32 * (WIDTH - j) by omega, add_mul_mod_pow _ _ hL, hmod]
  · intro c hc pq _
    have := limb_mul_le aj pq.2
    have := pq.1.toNat_lt
    rw [UInt64.toNat_add, UInt64.toNat_add, UInt64.toNat_mul, UInt32.toNat_toUInt64, UInt32.toNat_toUInt64,
      UInt32.toNat_toUInt64]
    omega
  · intro pq _
    have := limb_mul_le aj pq.2
    have := pq.1.toNat_lt
    omega
  · rw [UInt64.toNat_zero]
    norm_num

theorem val_mulRows {b : List UInt32} (hb : b.length = WIDTH) (as : List UInt32) :
    ∀ (j : ℕ) (pn : List UInt32), pn.length = WIDTH → j + as.length = WIDTH →
      val (mulRows b as j pn) = (val pn + 2 ^ (32 * j) * (val as * val b)) % 2 ^ (32 * WIDTH) := by
  induction as with
  | nil =>
    intro j pn hpn _
    rw [mulRows, val_nil, zero_mul, mul_zero, Nat.add_zero, Nat.mod_eq_of_lt (hpn ▸ val_lt pn)]
  | cons aj as ih =>
    intro j pn hpn hj
    rw [List.length_cons] at hj
    rw [mulRows, ih (j + 1) _ (by rw [length_mulRow j aj (by omega), hpn]) (by omega), val_mulRow aj hpn hb (by omega),
      Nat.mod_add_mod, val_cons]
    congr 1
    rw [Nat.mul_succ, pow_add]
    ring

theorem toNat_mul (a b : BaseUint WIDTH) : (mul a b).toNat = a.toNat * b.toNat % 2 ^ (32 * WIDTH) := by
  rw [toNat, mul, val_mulRows b.length_pn a.pn 0 _ List.length_replicate (by rw [a.length_pn, Nat.zero_add]),
    val_replicate_zero, Nat.zero_add, Nat.mul_zero, pow_zero, one_mul, toNat, toNat]

end Values

section Shifts

variable {WIDTH : ℕ}

/-- One round of `operator<<=` adds the bits of limb `i` of `l`, moved up
`32 * k + s` bits, to those of the limbs below it. -/
theorem val_shiftLeftRound {l pn : List UInt32} {k s i : ℕ} (hs : s < 32) (hpn : pn.length = WIDTH)
    (hv : val pn = val l % 2 ^ (32 * i) * 2 ^ (32 * k + s) % 2 ^ (32 * WIDTH)) :
    val (shiftLeftRound WIDTH k s i (l.getD i 0) pn) =
      val l % 2 ^ (32 * (i + 1)) * 2 ^ (32 * k + s) % 2 ^ (32 * WIDTH) := by
  apply Nat.eq_of_testBit_eq
  intro m
  rw [shiftLeftRound, testBit_val_ite_modify_or, length_ite_modify, testBit_val_ite_modify_or, hv, hpn]
  simp only [Nat.testBit_mod_two_pow, Nat.testBit_mul_two_pow, testBit_shiftLeft _ hs, testBit_getD]
  rw [Bool.eq_iff_iff]
  simp only [Bool.or_eq_true, Bool.and_eq_true, decide_eq_true_eq]
  constructor
  · rintro ((⟨hm, hsm, hlt, hA⟩ | ⟨⟨⟨-, hs0⟩, hq, hk⟩, hA⟩) | ⟨⟨-, hq, hk⟩, ⟨-, hsb⟩, -, hA⟩)
    · exact ⟨hm, hsm, by omega, hA⟩
    · -- a high bit of the limb, shifted down into limb `i + k + 1`
      rw [testBit_shiftRight _ (by omega), testBit_getD] at hA
      simp only [Bool.and_eq_true, decide_eq_true_eq] at hA
      exact ⟨by omega, by omega, by omega, by rw [show m - (32 * k + s) = 32 * i + (32 - s + m % 32) by omega]; exact hA.2⟩
    · exact ⟨by omega, by omega, by omega, by rwa [show m - (32 * k + s) = 32 * i + (m % 32 - s) by omega]⟩
  · rintro ⟨hm, hsm, hlt, hA⟩
    by_cases hold : m - (32 * k + s) < 32 * i
    · exact Or.inl (Or.inl ⟨hm, hsm, hold, hA⟩)
    by_cases hlow : s + (m - (32 * k + s) - 32 * i) < 32
    · exact Or.inr ⟨⟨by omega, by omega, by omega⟩, ⟨by omega, by omega⟩, by omega,
        by rwa [show 32 * i + (m % 32 - s) = m - (32 * k + s) by omega]⟩
    · refine Or.inl (Or.inr ⟨⟨⟨by omega, by omega⟩, by omega, by omega⟩, ?_⟩)
      rw [testBit_shiftRight _ (by omega), testBit_getD]
      simp only [Bool.and_eq_true, decide_eq_true_eq]
      exact ⟨by omega, by rwa [show 32 * i + (32 - s + m % 32) = m - (32 * k + s) by omega]⟩

/-- One round of `operator>>=` adds the bits of limb `i` of `l`, moved down
`32 * k + s` bits, to those of the limbs below it. -/
theorem val_shiftRightRound {l pn : List UInt32} {k s i : ℕ} (hs : s < 32) (hpn : pn.length = WIDTH)
    (hi : i < WIDTH) (hv : val pn = val l % 2 ^ (32 * i) / 2 ^ (32 * k + s)) :
    val (shiftRightRound k s i (l.getD i 0) pn) = val l % 2 ^ (32 * (i + 1)) / 2 ^ (32 * k + s) := by
  apply Nat.eq_of_testBit_eq
  intro m
  rw [shiftRightRound, testBit_val_ite_modify_or, length_ite_modify, testBit_val_ite_modify_or, hv, hpn]
  simp only [Nat.testBit_div_two_pow, Nat.testBit_mod_two_pow, testBit_shiftRight _ hs, testBit_getD]
  rw [Bool.eq_iff_iff]
  simp only [Bool.or_eq_true, Bool.and_eq_true, decide_eq_true_eq]
  constructor
  · rintro ((⟨hlt, hA⟩ | ⟨⟨⟨hk, hs0⟩, hq, -⟩, hA⟩) | ⟨⟨hk, hq, -⟩, hb, hA⟩)
    · exact ⟨by omega, hA⟩
    · -- a low bit of the limb, shifted up into limb `i - k - 1`
      rw [testBit_shiftLeft _ (by omega), testBit_getD] at hA
      simp only [Bool.and_eq_true, decide_eq_true_eq] at hA
      exact ⟨by omega, by rw [show m + (32 * k + s) = 32 * i + (m % 32 - (32 - s)) by omega]; exact hA.2.2⟩
    · exact ⟨by omega, by rwa [show m + (32 * k + s) = 32 * i + (s + m % 32) by omega]⟩
  · rintro ⟨hlt, hA⟩
    by_cases hold : m + (32 * k + s) < 32 * i
    · exact Or.inl (Or.inl ⟨hold, hA⟩)
    by_cases hhigh : s ≤ m + (32 * k + s) - 32 * i
    · exact Or.inr ⟨⟨by omega, by omega, by omega⟩, by omega,
        by rwa [show 32 * i + (s + m % 32) = m + (32 * k + s) by omega]⟩
    · refine Or.inl (Or.inr ⟨⟨⟨by omega, by omega⟩, by omega, by omega⟩, ?_⟩)
      rw [testBit_shiftLeft _ (by omega), testBit_getD]
      simp only [Bool.and_eq_true, decide_eq_true_eq]
      exact ⟨⟨by omega, by omega⟩, by omega, by rwa [show 32 * i + (m % 32 - (32 - s)) = m + (32 * k + s) by omega]⟩

/-- The limb at `i` and the rest of the limbs from `i` on. -/
theorem drop_eq_cons {l as : List UInt32} {x : UInt32} {i : ℕ} (h : x :: as = l.drop i) :
    x = l.getD i 0 ∧ as = l.drop (i + 1) := by
  constructor
  · have hhead := congrArg List.head? h
    rw [List.head?_cons, List.head?_drop] at hhead
    rw [List.getD_eq_getElem?_getD, ← hhead, Option.getD_some]
  · have htail := congrArg List.tail h
    rwa [List.tail_cons, List.tail_drop] at htail

theorem val_shiftLeftLoop {l : List UInt32} {k s : ℕ} (hs : s < 32) (as : List UInt32) :
    ∀ (i : ℕ) (pn : List UInt32), as = l.drop i → pn.length = WIDTH →
      val pn = val l % 2 ^ (32 * i) * 2 ^ (32 * k + s) % 2 ^ (32 * WIDTH) →
      val (shiftLeftLoop WIDTH k s as i pn) =
        val l % 2 ^ (32 * (i + as.length)) * 2 ^ (32 * k + s) % 2 ^ (32 * WIDTH) := by
  induction as with
  | nil =>
    intro i pn _ _ hv
    rw [shiftLeftLoop, hv, List.length_nil, Nat.add_zero]
  | cons x as ih =>
    intro i pn has hpn hv
    obtain ⟨rfl, has'⟩ := drop_eq_cons has
    rw [shiftLeftLoop, ih (i + 1) _ has' (by rw [shiftLeftRound, length_ite_modify, length_ite_modify, hpn])
      (val_shiftLeftRound hs hpn hv), List.length_cons, Nat.add_right_comm, Nat.add_assoc]

theorem val_shiftRightLoop {l : List UInt32} {k s : ℕ} (hs : s < 32) (hl : l.length = WIDTH) (as : List UInt32) :
    ∀ (i : ℕ) (pn : List UInt32), as = l.drop i → pn.length = WIDTH →
      val pn = val l % 2 ^ (32 * i) / 2 ^ (32 * k + s) →
      val (shiftRightLoop k s as i pn) = val l % 2 ^ (32 * (i + as.length)) / 2 ^ (32 * k + s) := by
  induction as with
  | nil =>
    intro i pn _ _ hv
    rw [shiftRightLoop, hv, List.length_nil, Nat.add_zero]
  | cons x as ih =>
    intro i pn has hpn hv
    have hi : i < WIDTH := by
      have := congrArg List.length has
      rw [List.length_cons, List.length_drop, hl] at this
      omega
    obtain ⟨rfl, has'⟩ := drop_eq_cons has
    rw [shiftRightLoop, ih (i + 1) _ has' (by rw [shiftRightRound, length_ite_modify, length_ite_modify, hpn])
      (val_shiftRightRound hs hpn hi hv), List.length_cons, Nat.add_right_comm, Nat.add_assoc]

theorem toNat_shl (a : BaseUint WIDTH) (shift : ℕ) :
    (shl a shift).toNat = a.toNat * 2 ^ shift % 2 ^ (32 * WIDTH) := by
  have h := val_shiftLeftLoop (l := a.pn) (k := shift / 32) (Nat.mod_lt shift (by norm_num)) a.pn 0
    (List.replicate WIDTH 0) List.drop_zero.symm List.length_replicate
    (by rw [val_replicate_zero, Nat.mul_zero, pow_zero, Nat.mod_one, Nat.zero_mul, Nat.zero_mod])
  rw [Nat.zero_add, a.length_pn, Nat.mod_eq_of_lt (show val a.pn < _ from a.toNat_lt), Nat.div_add_mod] at h
  exact h

example : (shl (⟨[7, 0, 0, 0, 0, 0, 0, 0], rfl⟩ : BaseUint 8) 33).pn = [0, 14, 0, 0, 0, 0, 0, 0] := by decide

theorem toNat_shr (a : BaseUint WIDTH) (shift : ℕ) : (shr a shift).toNat = a.toNat / 2 ^ shift := by
  have h := val_shiftRightLoop (l := a.pn) (k := shift / 32) (Nat.mod_lt shift (by norm_num)) a.length_pn a.pn 0
    (List.replicate WIDTH 0) List.drop_zero.symm List.length_replicate
    (by rw [val_replicate_zero, Nat.mul_zero, pow_zero, Nat.mod_one, Nat.zero_div])
  rw [Nat.zero_add, a.length_pn, Nat.mod_eq_of_lt (show val a.pn < _ from a.toNat_lt), Nat.div_add_mod] at h
  exact h

end Shifts

section Order

variable {WIDTH : ℕ}

theorem toNat_one_shiftLeft {n : ℕ} (hn : n < 32) : ((1 : UInt32) <<< n.toUInt32).toNat = 2 ^ n := by
  rw [UInt32.toNat_shiftLeft, Nat.toUInt32, UInt32.toNat_ofNat_of_lt' (by unfold UInt32.size; omega),
    UInt32.toNat_one, Nat.mod_eq_of_lt hn, Nat.one_shiftLeft, Nat.mod_eq_of_lt (Nat.pow_lt_pow_right (by norm_num) hn)]

/-- The test `pn[pos] & 1 << nbits` of `bits()`. -/
theorem and_shiftLeft_ne_zero (w : UInt32) {n : ℕ} (hn : n < 32) :
    w &&& (1 <<< n.toUInt32) ≠ 0 ↔ w.toNat.testBit n = true := by
  rw [Ne, ← UInt32.toNat_inj, UInt32.toNat_and, toNat_one_shiftLeft hn, UInt32.toNat_zero, Nat.and_two_pow]
  cases w.toNat.testBit n <;> simp

/-- Below bit `n + 1`, the inner loop of `bits()` finds the bit length of a nonzero limb. -/
theorem highBit_eq (w : UInt32) (hw : w ≠ 0) (n : ℕ) (hn : n < 32) (hlt : w.toNat < 2 ^ (n + 1)) :
    highBit w n = Nat.size w.toNat := by
  have hpos : 0 < w.toNat := Nat.pos_of_ne_zero fun h => hw (UInt32.toNat_inj.mp h)
  induction n with
  | zero =>
    rw [highBit, show w.toNat = 1 by omega, Nat.size_one]
  | succ n ih =>
    rw [highBit]
    by_cases hb : w.toNat.testBit (n + 1) = true
    · -- the highest set bit is `n + 1`
      rw [if_pos ((and_shiftLeft_ne_zero w hn).mpr hb)]
      have hge := Nat.ge_two_pow_of_testBit hb
      exact le_antisymm (Nat.lt_size.mpr hge) (Nat.size_le.mpr hlt)
    · rw [if_neg (fun h => hb ((and_shiftLeft_ne_zero w hn).mp h))]
      apply ih (by omega)
      have hq : w.toNat / 2 ^ (n + 1) < 2 := by
        rw [Nat.div_lt_iff_lt_mul (Nat.two_pow_pos _), ← pow_succ']
        exact hlt
      rw [Nat.testBit_eq_decide_div_mod_eq, decide_eq_true_iff] at hb
      obtain ⟨q, hq'⟩ : ∃ q, w.toNat / 2 ^ (n + 1) = q := ⟨_, rfl⟩
      rw [hq'] at hq hb
      exact (Nat.div_eq_zero_iff_lt (Nat.two_pow_pos _)).mp (hq'.trans (by omega))

theorem bitsLoop_eq (r : List UInt32) : bitsLoop r = Nat.size (val r.reverse) := by
  induction r with
  | nil => rw [bitsLoop, List.reverse_nil, val_nil, Nat.size_zero]
  | cons w ws ih =>
    rw [bitsLoop, List.reverse_cons]
    by_cases hw : w = 0
    · rw [if_neg (not_not.mpr hw), ih, hw, val_append, val_cons, val_nil, UInt32.toNat_zero, Nat.mul_zero,
        Nat.add_zero, Nat.mul_zero, Nat.add_zero]
    · rw [if_pos hw, size_val_append _ hw, List.length_reverse,
        highBit_eq w hw 31 (by norm_num) w.toNat_lt]

theorem bits_eq (a : BaseUint WIDTH) : bits a = Nat.size a.toNat := by
  rw [bits, bitsLoop_eq, List.reverse_reverse, toNat]

example : bits (⟨[7, 0, 0, 0, 0, 0, 0, 0], rfl⟩ : BaseUint 8) = 3 := by decide

theorem compareLoop_eq (ra : List UInt32) : ∀ rb : List UInt32, ra.length = rb.length →
    compareLoop ra rb =
      if val ra.reverse < val rb.reverse then -1 else if val rb.reverse < val ra.reverse then 1 else 0 := by
  induction ra with
  | nil =>
    intro rb hlen
    rw [List.eq_nil_of_length_eq_zero hlen.symm]
    rfl
  | cons a as ih =>
    intro rb hlen
    obtain ⟨b, bs, rfl⟩ := List.exists_cons_of_length_eq_add_one hlen.symm
    have hlen' : as.reverse.length = bs.reverse.length := by
      rw [List.length_reverse, List.length_reverse]
      simpa using hlen
    rw [compareLoop, List.reverse_cons, List.reverse_cons]
    by_cases hab : a < b
    · rw [if_pos hab, if_pos (val_lt_of_top_lt hlen' (UInt32.lt_iff_toNat_lt.mp hab))]
    by_cases hba : a > b
    · have hlt := val_lt_of_top_lt hlen'.symm (UInt32.lt_iff_toNat_lt.mp hba)
      rw [if_neg hab, if_pos hba, if_neg (not_lt.mpr hlt.le), if_pos hlt]
    · -- equal top limbs: the rest decides
      have heq : a = b := UInt32.toNat_inj.mp (by
        have h1 := UInt32.lt_iff_toNat_lt.not.mp hab
        have h2 := UInt32.lt_iff_toNat_lt.not.mp hba
        omega)
      subst heq
      rw [if_neg hab, if_neg hba, ih bs (by simpa using hlen), val_append, val_append, hlen']
      simp only [Nat.add_lt_add_iff_right]

/-- `CompareTo(b) >= 0`, the `operator>=` of `operator/=`. -/
theorem compareTo_nonneg_iff (a b : BaseUint WIDTH) : 0 ≤ compareTo a b ↔ b.toNat ≤ a.toNat := by
  rw [compareTo, compareLoop_eq _ _ (by rw [List.length_reverse, List.length_reverse, a.length_pn, b.length_pn]),
    List.reverse_reverse, List.reverse_reverse]
  change 0 ≤ (if a.toNat < b.toNat then -1 else if b.toNat < a.toNat then 1 else 0 : ℤ) ↔ _
  split_ifs <;> omega

example : compareTo (⟨[7, 0, 0, 0, 0, 0, 0, 0], rfl⟩ : BaseUint 8) ⟨[2, 0, 0, 0, 0, 0, 0, 0], rfl⟩ = 1 := by decide

theorem toNat_setBit (q : BaseUint WIDTH) {shift : ℕ} (hs : shift < 32 * WIDTH) :
    (setBit q shift).toNat = q.toNat ||| 2 ^ shift := by
  have hmask : shift &&& 31 = shift % 32 := Nat.and_two_pow_sub_one_eq_mod shift 5
  apply Nat.eq_of_testBit_eq
  intro m
  rw [toNat, setBit, testBit_val_modify_or, q.length_pn, Nat.testBit_or, Nat.testBit_two_pow, hmask,
    toNat_one_shiftLeft (Nat.mod_lt _ (by norm_num)), Nat.testBit_two_pow, toNat]
  congr 1
  rw [Bool.eq_iff_iff]
  simp only [Bool.and_eq_true, decide_eq_true_eq]
  omega

end Order

section Division

variable {WIDTH : ℕ}

/-- `operator/=` dividing `A` by `B` before its round at `shift`: the divisor
is `B` moved up `shift` bits, the quotient so far has no bit at or below
`shift`, and with the remainder, below twice the divisor, it makes `A`. -/
structure Dividing (A B shift : ℕ) (num dv q : BaseUint WIDTH) : Prop where
  div_eq : dv.toNat = B * 2 ^ shift
  q_dvd : 2 ^ (shift + 1) ∣ q.toNat
  sum_eq : q.toNat * B + num.toNat = A
  num_lt : num.toNat < B * 2 ^ (shift + 1)

/-- Setting bit `s` of a multiple of `2 ^ (s + 1)` adds `2 ^ s`. -/
theorem or_two_pow_of_dvd {Q s : ℕ} (h : 2 ^ (s + 1) ∣ Q) : Q ||| 2 ^ s = Q + 2 ^ s := by
  obtain ⟨t, rfl⟩ := h
  rw [mul_comm, ← Nat.shiftLeft_eq]
  exact (Nat.shiftLeft_add_eq_or_of_lt (Nat.pow_lt_pow_right (by norm_num) (Nat.lt_succ_self s)) t).symm

variable {A B shift : ℕ} {num dv q : BaseUint WIDTH}

/-- The round at `shift` leaves a remainder below the divisor and a quotient
with no bit below `shift`. -/
theorem Dividing.step (h : Dividing A B shift num dv q) (hs : shift < 32 * WIDTH) :
    2 ^ shift ∣ (divStep num dv q shift).2.toNat ∧
      (divStep num dv q shift).2.toNat * B + (divStep num dv q shift).1.toNat = A ∧
      (divStep num dv q shift).1.toNat < B * 2 ^ shift := by
  have hnum := h.num_lt
  have hsum := h.sum_eq
  have hpow : B * 2 ^ (shift + 1) = B * 2 ^ shift + B * 2 ^ shift := by rw [pow_succ]; ring
  have hdvd : 2 ^ shift ∣ q.toNat := dvd_trans (pow_dvd_pow 2 (Nat.le_succ shift)) h.q_dvd
  unfold divStep
  by_cases hge : dv.toNat ≤ num.toNat
  · -- the divisor fits: it is subtracted and the quotient bit set
    rw [if_pos ((compareTo_nonneg_iff num dv).mpr hge)]
    rw [h.div_eq] at hge
    dsimp only
    rw [toNat_sub_of_le (h.div_eq ▸ hge), toNat_setBit q hs, or_two_pow_of_dvd h.q_dvd, h.div_eq]
    refine ⟨Nat.dvd_add hdvd dvd_rfl, ?_, by omega⟩
    rw [add_mul, mul_comm (2 ^ shift) B]
    omega
  · rw [if_neg (fun h' => hge ((compareTo_nonneg_iff num dv).mp h'))]
    rw [h.div_eq] at hge
    dsimp only
    exact ⟨hdvd, hsum, by omega⟩

/-- The rounds from `shift` down to `0` give the quotient. -/
theorem divLoop_spec (hB : 0 < B) (shift : ℕ) :
    ∀ num dv q : BaseUint WIDTH, shift < 32 * WIDTH → Dividing A B shift num dv q →
      (divLoop shift num dv q).toNat = A / B := by
  induction shift with
  | zero =>
    intro num dv q hs h
    obtain ⟨-, hsum, hlt⟩ := h.step hs
    rw [pow_zero, mul_one] at hlt
    rw [divLoop, ← hsum, Nat.add_comm, Nat.add_mul_div_right _ _ hB, Nat.div_eq_of_lt hlt, Nat.zero_add]
  | succ shift ih =>
    intro num dv q hs h
    obtain ⟨hdvd, hsum, hlt⟩ := h.step hs
    rw [divLoop]
    -- the divisor moves back one bit
    refine ih _ _ _ (by omega) ⟨?_, hdvd, hsum, hlt⟩
    rw [toNat_shr, h.div_eq, pow_succ, ← mul_assoc, pow_one, Nat.mul_div_cancel _ (by norm_num)]

/-- `operator/=` divides: for `b ≠ 0` it returns `⌊a / b⌋`. -/
theorem toNat_div (a b : BaseUint WIDTH) (hb : b.toNat ≠ 0) : (div a b).map toNat = some (a.toNat / b.toNat) := by
  have hbpos : 0 < b.toNat := Nat.pos_of_ne_zero hb
  have hsb : 0 < Nat.size b.toNat := Nat.size_pos.mpr hbpos
  have hlowB : 2 ^ (Nat.size b.toNat - 1) ≤ b.toNat := Nat.lt_size.mp (by omega)
  have hsa : Nat.size a.toNat ≤ 32 * WIDTH := Nat.size_le.mpr a.toNat_lt
  have hA := Nat.lt_size_self a.toNat
  have hB := Nat.lt_size_self b.toNat
  unfold div
  dsimp only
  rw [bits_eq, bits_eq, if_neg (show ¬Nat.size b.toNat = 0 by omega)]
  by_cases hgt : Nat.size b.toNat > Nat.size a.toNat
  · -- the divisor has more bits: the quotient is zero
    rw [if_pos hgt, Option.map_some, toNat_zero]
    have hlt : a.toNat < b.toNat :=
      lt_of_lt_of_le hA (le_trans (Nat.pow_le_pow_right (by norm_num) (by omega)) hlowB)
    rw [Nat.div_eq_of_lt hlt]
  · rw [if_neg hgt, Option.map_some]
    obtain ⟨S, hS⟩ : ∃ S, Nat.size a.toNat - Nat.size b.toNat = S := ⟨_, rfl⟩
    have hsize : Nat.size a.toNat = Nat.size b.toNat + S := by omega
    rw [hS]
    congr 1
    apply divLoop_spec hbpos S _ _ _ (by omega)
    refine ⟨?_, by rw [toNat_zero]; exact dvd_zero _, by rw [toNat_zero, Nat.zero_mul, Nat.zero_add], ?_⟩
    · -- the shifted divisor has the bits of `a`, so it does not overflow
      rw [toNat_shl, Nat.mod_eq_of_lt]
      calc b.toNat * 2 ^ S < 2 ^ Nat.size b.toNat * 2 ^ S := Nat.mul_lt_mul_of_pos_right hB (Nat.two_pow_pos S)
        _ = 2 ^ Nat.size a.toNat := by rw [← pow_add, hsize]
        _ ≤ 2 ^ (32 * WIDTH) := Nat.pow_le_pow_right (by norm_num) hsa
    · calc a.toNat < 2 ^ Nat.size a.toNat := hA
        _ = 2 ^ (Nat.size b.toNat - 1) * 2 ^ (S + 1) := by rw [← pow_add, hsize]; congr 1; omega
        _ ≤ b.toNat * 2 ^ (S + 1) := Nat.mul_le_mul_right _ hlowB

example : (div (⟨[7, 0, 0, 0, 0, 0, 0, 0], rfl⟩ : BaseUint 8) ⟨[2, 0, 0, 0, 0, 0, 0, 0], rfl⟩).map toNat = some 3 := by
  decide

/-- GetBlockProof's `~bnTarget / (bnTarget + 1) + 1` is `2 ^ (32 * WIDTH) / (bnTarget + 1)`. -/
theorem toNat_blockProof (hW : 2 ≤ WIDTH) {T : BaseUint WIDTH} (h0 : 0 < T.toNat) (h1 : T.toNat < 2 ^ (32 * WIDTH) - 1) :
    (blockProof T).map toNat = some (2 ^ (32 * WIDTH) / (T.toNat + 1)) := by
  have hone : (ofUInt64 1 : BaseUint WIDTH).toNat = 1 := by rw [toNat_ofUInt64 hW, UInt64.toNat_one]
  have hT1 : (add T (ofUInt64 1)).toNat = T.toNat + 1 := by rw [toNat_add, hone, Nat.mod_eq_of_lt (by omega)]
  obtain ⟨q, hq, hqv⟩ := Option.map_eq_some_iff.mp (toNat_div (complement T) (add T (ofUInt64 1)) (by omega))
  rw [toNat_complement, hT1] at hqv
  rw [blockProof, hq, Option.map_some, Option.map_some, toNat_add, hqv, hone]
  -- `2 ^ n - 1 - T` over `T + 1`, plus one, is `2 ^ n` over `T + 1`
  have hsplit : (2 ^ (32 * WIDTH) - 1 - T.toNat) / (T.toNat + 1) + 1 = 2 ^ (32 * WIDTH) / (T.toNat + 1) := by
    rw [← Nat.add_div_right _ (Nat.succ_pos _), show 2 ^ (32 * WIDTH) - 1 - T.toNat + (T.toNat + 1) = 2 ^ (32 * WIDTH) by omega]
  rw [hsplit, Nat.mod_eq_of_lt (Nat.div_lt_self (Nat.two_pow_pos _) (by omega))]

end Division

section Arith256

open ArithUint256

/-- The 256-bit arithmetic behind the difficulty and stake checks is exact on
`BaseUint 8`: division, both multiplications, the shifts and GetBlockProof's
work formula; and the compact round trip of `arith_uint256` only clears the
bits below its top bytes, with neither flag set. -/
theorem arith256_exact :
    (∀ a b : BaseUint 8, b.toNat ≠ 0 → (div a b).map toNat = some (a.toNat / b.toNat)) ∧
      (∀ a b : BaseUint 8, (mul a b).toNat = a.toNat * b.toNat % 2 ^ 256) ∧
      (∀ (a : BaseUint 8) (b32 : UInt32), (mulWord a b32).toNat = b32.toNat * a.toNat % 2 ^ 256) ∧
      (∀ (a : BaseUint 8) (shift : ℕ),
        (shl a shift).toNat = a.toNat * 2 ^ shift % 2 ^ 256 ∧ (shr a shift).toNat = a.toNat / 2 ^ shift) ∧
      (∀ T : BaseUint 8, 0 < T.toNat → T.toNat < 2 ^ 256 - 1 →
        (blockProof T).map toNat = some (2 ^ 256 / (T.toNat + 1))) ∧
      (∀ x : uint256,
        (setCompact (getCompact x)).toNat = x.toNat / 2 ^ droppedBits x.toNat * 2 ^ droppedBits x.toNat ∧
          compactNegative (getCompact x) = false ∧ compactOverflow (getCompact x) = false) :=
  ⟨toNat_div, toNat_mul, toNat_mulWord, fun a shift => ⟨toNat_shl a shift, toNat_shr a shift⟩,
    fun _ h0 h1 => toNat_blockProof (by norm_num) h0 h1,
    fun x => ⟨setCompact_getCompact_toNat x, compactNegative_getCompact x, compactOverflow_getCompact x⟩⟩

theorem arith256_exact_sample :
    (⟨[2, 0, 0, 0, 0, 0, 0, 0], rfl⟩ : BaseUint 8).toNat ≠ 0 ∧
      (div (⟨[7, 0, 0, 0, 0, 0, 0, 0], rfl⟩ : BaseUint 8) ⟨[2, 0, 0, 0, 0, 0, 0, 0], rfl⟩).map toNat =
        some ((⟨[7, 0, 0, 0, 0, 0, 0, 0], rfl⟩ : BaseUint 8).toNat / (⟨[2, 0, 0, 0, 0, 0, 0, 0], rfl⟩ : BaseUint 8).toNat) ∧
      0 < (⟨[2, 0, 0, 0, 0, 0, 0, 0], rfl⟩ : BaseUint 8).toNat ∧
      (⟨[2, 0, 0, 0, 0, 0, 0, 0], rfl⟩ : BaseUint 8).toNat < 2 ^ 256 - 1 ∧
      (blockProof (⟨[2, 0, 0, 0, 0, 0, 0, 0], rfl⟩ : BaseUint 8)).map toNat =
        some (2 ^ 256 / ((⟨[2, 0, 0, 0, 0, 0, 0, 0], rfl⟩ : BaseUint 8).toNat + 1)) :=
  ⟨by decide, arith256_exact.1 _ _ (by decide), by decide, by decide,
    arith256_exact.2.2.2.2.1 _ (by decide) (by decide)⟩

end Arith256

end BaseUint

end AokChain
