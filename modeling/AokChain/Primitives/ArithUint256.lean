import Mathlib.Data.Nat.Bitwise
import Mathlib.Tactic.IntervalCases
import AokChain.Primitives.Transaction

/-!
# Compact targets

`SetCompact` and `GetCompact` of `arith_uint256.cpp`, which convert between a
256-bit target and the 32-bit `nBits` field of a header: a byte length in the
top byte, a sign bit, and a 23-bit mantissa below it.  `UintToArith256` only
reorders the stored bytes, so a `uint256` of the model already is the number
that `arith_uint256` computes with.

`GetCompact` keeps the top bytes of its value and drops the rest, so the round
trip rounds down (`setCompact_getCompact_le`).  The proofs read both
conversions as natural-number formulas: the packed word is
`mantissa + size * 2^24`, and the value it stands for is `compactValue`.
-/

namespace AokChain
namespace ArithUint256

/-- `base_uint::bits`: the position of the highest set bit, plus one. -/
def bits (x : uint256) : ℕ := if x.toNat = 0 then 0 else x.toNat.log2 + 1

/-- The `nWord` of `SetCompact` after its branch: the 23 mantissa bits, shifted
down for a size below three bytes. -/
def compactWord (nCompact : UInt32) : UInt32 :=
  let nSize := (nCompact >>> 24).toNat
  let nWord := nCompact &&& 0x007fffff
  if nSize ≤ 3 then nWord >>> (8 * (3 - nSize)).toUInt32 else nWord

/-- `arith_uint256::SetCompact`, the value it sets. -/
def setCompact (nCompact : UInt32) : uint256 :=
  let nSize := (nCompact >>> 24).toNat
  if nSize ≤ 3 then BitVec.ofNat 256 (compactWord nCompact).toNat
  else BitVec.ofNat 256 (compactWord nCompact).toNat <<< (8 * (nSize - 3))

/-- The `*pfNegative` of `SetCompact`. -/
def compactNegative (nCompact : UInt32) : Bool :=
  compactWord nCompact != 0 && nCompact &&& 0x00800000 != 0

/-- The `*pfOverflow` of `SetCompact`. -/
def compactOverflow (nCompact : UInt32) : Bool :=
  let nSize := (nCompact >>> 24).toNat
  let nWord := compactWord nCompact
  nWord != 0 && (34 < nSize || (0xff < nWord && 33 < nSize) || (0xffff < nWord && 32 < nSize))

/-- The first `nCompact` of `GetCompact`: the value moved to its top three
bytes, through `GetLow64()`. -/
def compactLeadingWord (x : uint256) (nSize : ℕ) : UInt32 :=
  if nSize ≤ 3 then (x.toNat.toUInt64 <<< (8 * (3 - nSize)).toUInt64).toUInt32
  else (x >>> (8 * (nSize - 3))).toNat.toUInt64.toUInt32

/-- `arith_uint256::GetCompact(false)`.  A mantissa that reaches the sign bit
`0x00800000` moves one byte down and the size grows by one.  The two asserts of
the source hold of every value (`compactMantissa_lt`, `compactExponent_le`). -/
def getCompact (x : uint256) : UInt32 :=
  let nSize := (bits x + 7) / 8
  let nCompact := compactLeadingWord x nSize
  if nCompact &&& 0x00800000 != 0 then (nCompact >>> 8) ||| ((nSize + 1).toUInt32 <<< 24)
  else nCompact ||| (nSize.toUInt32 <<< 24)

section Spec

/-- The byte length of a number, `(bits() + 7) / 8`. -/
def byteLength (n : ℕ) : ℕ := ((if n = 0 then 0 else n.log2 + 1) + 7) / 8

/-- The top three bytes of `n`, the mantissa `GetCompact` starts from. -/
def leadingWord (n : ℕ) : ℕ :=
  if byteLength n ≤ 3 then n * 2 ^ (8 * (3 - byteLength n)) else n / 2 ^ (8 * (byteLength n - 3))

/-- The mantissa `GetCompact` stores for `n`. -/
def compactMantissa (n : ℕ) : ℕ :=
  if 2 ^ 23 ≤ leadingWord n then leadingWord n / 256 else leadingWord n

/-- The size byte `GetCompact` stores for `n`. -/
def compactExponent (n : ℕ) : ℕ :=
  if 2 ^ 23 ≤ leadingWord n then byteLength n + 1 else byteLength n

/-- The number a size byte and a mantissa stand for, before the 256-bit truncation. -/
def compactValue (nSize nWord : ℕ) : ℕ :=
  if nSize ≤ 3 then nWord / 2 ^ (8 * (3 - nSize)) else nWord * 2 ^ (8 * (nSize - 3))

variable {n : ℕ}

theorem lt_two_pow_byteLength (n : ℕ) : n < 2 ^ (8 * byteLength n) := by
  unfold byteLength
  split
  · simp_all
  · exact lt_of_lt_of_le Nat.lt_log2_self (Nat.pow_le_pow_right (by norm_num) (by omega))

theorem byteLength_le (hn : n < 2 ^ 256) : byteLength n ≤ 32 := by
  unfold byteLength
  split
  · omega
  · have hlog : n.log2 < 256 := (Nat.log2_lt ‹_›).2 hn
    omega

theorem leadingWord_lt (n : ℕ) : leadingWord n < 2 ^ 24 := by
  have hn := lt_two_pow_byteLength n
  unfold leadingWord
  split
  · calc n * 2 ^ (8 * (3 - byteLength n)) < 2 ^ (8 * byteLength n) * 2 ^ (8 * (3 - byteLength n)) :=
          Nat.mul_lt_mul_of_pos_right hn (Nat.two_pow_pos _)
      _ = 2 ^ 24 := by rw [← pow_add]; congr 1; omega
  · rw [Nat.div_lt_iff_lt_mul (Nat.two_pow_pos _), ← pow_add]
    exact lt_of_lt_of_le hn (Nat.pow_le_pow_right (by norm_num) (by omega))

theorem compactMantissa_lt (n : ℕ) : compactMantissa n < 2 ^ 23 := by
  have hw := leadingWord_lt n
  unfold compactMantissa
  split <;> omega

theorem compactExponent_le (hn : n < 2 ^ 256) : compactExponent n ≤ 33 := by
  have hb := byteLength_le hn
  unfold compactExponent
  split <;> omega

-- Below three bytes the mantissa holds `n` whole; above, the dropped bytes are
-- the rounding.  The split follows `leadingWord`, then the sign-bit move.
theorem compactValue_le (n : ℕ) : compactValue (compactExponent n) (compactMantissa n) ≤ n := by
  have hn := lt_two_pow_byteLength n
  unfold compactExponent compactMantissa
  by_cases hb : byteLength n ≤ 3
  · unfold leadingWord
    obtain ⟨b, hbeq⟩ : ∃ b, byteLength n = b := ⟨_, rfl⟩
    rw [hbeq] at hb hn ⊢
    interval_cases b <;> simp only [compactValue] <;> split_ifs <;> omega
  · have hk : ∀ e, 3 < e → 2 ^ (8 * (e + 1 - 3)) = 2 ^ (8 * (e - 3)) * 256 := by
      intro e he
      rw [show 8 * (e + 1 - 3) = 8 * (e - 3) + 8 by omega, pow_add]
      rfl
    unfold leadingWord
    simp only [if_neg hb]
    split_ifs
    · rw [compactValue, if_neg (by omega), hk _ (by omega), Nat.div_div_eq_div_mul]
      exact Nat.div_mul_le_self _ _
    · rw [compactValue, if_neg hb]
      exact Nat.div_mul_le_self _ _

/-- The low bits the compact form drops: all but the top three bytes, or all but
the top two when the top byte has its high bit set. -/
def droppedBits (n : ℕ) : ℕ :=
  if 0x80 ≤ n / 2 ^ (8 * (byteLength n - 1)) then 8 * (byteLength n - 2) else 8 * (byteLength n - 3)

-- Above three bytes the leading word is a quotient of `n`, so its sign bit is the
-- high bit of the top byte and the dropped bytes are one more quotient.
theorem compactValue_eq_of_three_lt (hb : 3 < byteLength n) :
    compactValue (compactExponent n) (compactMantissa n) = n / 2 ^ droppedBits n * 2 ^ droppedBits n := by
  have hdiv : ∀ k, n / 2 ^ (8 * (byteLength n - 3)) / 2 ^ k = n / 2 ^ (8 * (byteLength n - 3) + k) :=
    fun k => by rw [Nat.div_div_eq_div_mul, ← pow_add]
  have htop : n / 2 ^ (8 * (byteLength n - 1)) = leadingWord n / 2 ^ 16 := by
    rw [leadingWord, if_neg (by omega), hdiv, show 8 * (byteLength n - 3) + 16 = 8 * (byteLength n - 1) by omega]
  have hlow : n / 2 ^ (8 * (byteLength n - 2)) = leadingWord n / 2 ^ 8 := by
    rw [leadingWord, if_neg (by omega), hdiv, show 8 * (byteLength n - 3) + 8 = 8 * (byteLength n - 2) by omega]
  have hword : leadingWord n = n / 2 ^ (8 * (byteLength n - 3)) := by rw [leadingWord, if_neg (by omega)]
  unfold compactValue compactExponent compactMantissa droppedBits
  rw [htop]
  by_cases hsign : 2 ^ 23 ≤ leadingWord n
  · -- the mantissa moved down a byte: the top two bytes are kept
    rw [if_pos hsign, if_neg (show ¬byteLength n + 1 ≤ 3 by omega),
      if_pos (show 0x80 ≤ leadingWord n / 2 ^ 16 by omega), hlow,
      show byteLength n + 1 - 3 = byteLength n - 2 by omega, if_pos hsign]
    rfl
  · rw [if_neg hsign, if_neg (show ¬byteLength n ≤ 3 by omega),
      if_neg (show ¬0x80 ≤ leadingWord n / 2 ^ 16 by omega), ← hword, if_neg hsign]

/-- The compact form keeps the bits of `n` above `droppedBits n` and clears the rest. -/
theorem compactValue_eq (n : ℕ) :
    compactValue (compactExponent n) (compactMantissa n) = n / 2 ^ droppedBits n * 2 ^ droppedBits n := by
  by_cases hb : 3 < byteLength n
  · exact compactValue_eq_of_three_lt hb
  -- up to three bytes nothing is dropped, and each length is a fixed scaling
  have hn := lt_two_pow_byteLength n
  unfold compactValue compactExponent compactMantissa droppedBits leadingWord
  obtain ⟨b, hbeq⟩ : ∃ b, byteLength n = b := ⟨_, rfl⟩
  rw [hbeq] at hb hn ⊢
  interval_cases b <;> split_ifs <;> omega

end Spec

section Conversion

theorem byteLength_eq (x : uint256) : (bits x + 7) / 8 = byteLength x.toNat := rfl

theorem compactLeadingWord_toNat (x : uint256) :
    (compactLeadingWord x ((bits x + 7) / 8)).toNat = leadingWord x.toNat := by
  have hw := leadingWord_lt x.toNat
  rw [byteLength_eq]
  unfold compactLeadingWord
  unfold leadingWord at hw ⊢
  split
  case isTrue hb =>
    have hn := lt_two_pow_byteLength x.toNat
    have hshift : (8 * (3 - byteLength x.toNat)).toUInt64.toNat = 8 * (3 - byteLength x.toNat) :=
      UInt64.toNat_ofNat_of_lt' (by unfold UInt64.size; omega)
    rw [if_pos hb] at hw
    have hlt : x.toNat < 2 ^ 64 :=
      lt_of_lt_of_le hn (Nat.pow_le_pow_right (by norm_num) (by omega))
    rw [UInt64.toNat_toUInt32, UInt64.toNat_shiftLeft, hshift, Nat.toUInt64_eq,
      UInt64.toNat_ofNat_of_lt' hlt, Nat.mod_eq_of_lt (by omega : 8 * (3 - byteLength x.toNat) < 64),
      Nat.shiftLeft_eq]
    omega
  case isFalse hb =>
    rw [if_neg hb] at hw
    rw [UInt64.toNat_toUInt32, Nat.toUInt64_eq, BitVec.toNat_ushiftRight, Nat.shiftRight_eq_div_pow,
      UInt64.toNat_ofNat_of_lt' (by unfold UInt64.size; omega)]
    exact Nat.mod_eq_of_lt (lt_trans hw (by norm_num))

-- The sign test of `GetCompact` on a mantissa below `2^24` is a comparison.
theorem and_sign_bit (c : UInt32) (hc : c.toNat < 2 ^ 24) :
    (c &&& 0x00800000 != 0) = decide (2 ^ 23 ≤ c.toNat) := by
  have hand : (c &&& 0x00800000).toNat = (c.toNat.testBit 23).toNat * 2 ^ 23 := by
    rw [UInt32.toNat_and, show (0x00800000 : UInt32).toNat = 2 ^ 23 from rfl, Nat.and_two_pow]
  have hbit : c.toNat.testBit 23 = decide (2 ^ 23 ≤ c.toNat) := by
    rw [Nat.testBit_eq_decide_div_mod_eq]
    apply decide_eq_decide.2
    omega
  rw [hbit] at hand
  rw [Bool.eq_iff_iff, bne_iff_ne, ne_eq, ← UInt32.toNat_inj, hand, UInt32.toNat_zero]
  cases decide (2 ^ 23 ≤ c.toNat) <;> simp

theorem pack_toNat (c : UInt32) (s : ℕ) (hc : c.toNat < 2 ^ 24) (hs : s < 256) :
    (c ||| (s.toUInt32 <<< 24)).toNat = c.toNat + s * 2 ^ 24 := by
  have hsize : (s.toUInt32 <<< 24).toNat = s <<< 24 := by
    rw [UInt32.toNat_shiftLeft, Nat.toUInt32, UInt32.toNat_ofNat_of_lt' (by unfold UInt32.size; omega),
      show (24 : UInt32).toNat % 32 = 24 from rfl, Nat.shiftLeft_eq]
    omega
  rw [UInt32.toNat_or, hsize, Nat.lor_comm, ← Nat.shiftLeft_add_eq_or_of_lt hc, Nat.shiftLeft_eq]
  omega

theorem getCompact_toNat (x : uint256) :
    (getCompact x).toNat = compactMantissa x.toNat + compactExponent x.toNat * 2 ^ 24 := by
  have hw : (compactLeadingWord x (byteLength x.toNat)).toNat = leadingWord x.toNat :=
    compactLeadingWord_toNat x
  have hlt := leadingWord_lt x.toNat
  have hb := byteLength_le x.isLt
  unfold getCompact compactMantissa compactExponent
  simp only [byteLength_eq, and_sign_bit _ (hw ▸ hlt), hw, decide_eq_true_eq]
  split_ifs with hsign
  · have hshift : (compactLeadingWord x (byteLength x.toNat) >>> 8).toNat = leadingWord x.toNat / 256 := by
      rw [UInt32.toNat_shiftRight, hw, show (8 : UInt32).toNat % 32 = 8 from rfl, Nat.shiftRight_eq_div_pow]
    rw [pack_toNat _ _ (by omega) (by omega), hshift]
  · rw [pack_toNat _ _ (by omega) (by omega), hw]

/-- The size byte `SetCompact` reads, `nCompact >> 24`. -/
theorem toNat_compactSize (c : UInt32) : (c >>> 24).toNat = c.toNat / 2 ^ 24 := by
  rw [UInt32.toNat_shiftRight, show (24 : UInt32).toNat % 32 = 24 from rfl, Nat.shiftRight_eq_div_pow]

/-- The mantissa bits `SetCompact` reads, `nCompact & 0x007fffff`. -/
theorem toNat_compactBits (c : UInt32) : (c &&& 0x007fffff).toNat = c.toNat % 2 ^ 23 := by
  rw [UInt32.toNat_and, show (0x007fffff : UInt32).toNat = 2 ^ 23 - 1 from rfl,
    Nat.and_two_pow_sub_one_eq_mod]

theorem compactWord_le (c : UInt32) : (compactWord c).toNat ≤ c.toNat % 2 ^ 23 := by
  unfold compactWord
  dsimp only
  split
  · rw [UInt32.toNat_shiftRight, toNat_compactBits]
    exact Nat.shiftRight_le _ _
  · rw [toNat_compactBits]

theorem setCompact_toNat (c : UInt32) :
    (setCompact c).toNat = compactValue (c.toNat / 2 ^ 24) (c.toNat % 2 ^ 23) % 2 ^ 256 := by
  have hsize := toNat_compactSize c
  have hword := toNat_compactBits c
  unfold setCompact compactWord compactValue
  simp only [hsize]
  split
  · have hshift : (8 * (3 - c.toNat / 2 ^ 24)).toUInt32.toNat % 32 = 8 * (3 - c.toNat / 2 ^ 24) := by
      rw [Nat.toUInt32, UInt32.toNat_ofNat_of_lt' (by unfold UInt32.size; omega)]
      omega
    rw [BitVec.toNat_ofNat, UInt32.toNat_shiftRight, hshift, hword, Nat.shiftRight_eq_div_pow]
  · rw [BitVec.toNat_shiftLeft, BitVec.toNat_ofNat, hword, Nat.shiftLeft_eq,
      Nat.mod_eq_of_lt (by omega : c.toNat % 2 ^ 23 < 2 ^ 256)]

/-- Decoding the compact form of a value never gives more than the value. -/
theorem setCompact_getCompact_le (x : uint256) : setCompact (getCompact x) ≤ x := by
  have hm := compactMantissa_lt x.toNat
  have hsize : (getCompact x).toNat / 2 ^ 24 = compactExponent x.toNat := by
    rw [getCompact_toNat]
    omega
  have hword : (getCompact x).toNat % 2 ^ 23 = compactMantissa x.toNat := by
    rw [getCompact_toNat]
    omega
  rw [BitVec.le_def, setCompact_toNat, hsize, hword]
  exact le_trans (Nat.mod_le _ _) (compactValue_le x.toNat)

example : getCompact 0x003fffffffffffffffffffffffffffffffffffffffffffffffffffffffffffff = 0x1f3fffff := by
  decide

theorem getCompact_div_size (x : uint256) : (getCompact x).toNat / 2 ^ 24 = compactExponent x.toNat := by
  have hm := compactMantissa_lt x.toNat
  rw [getCompact_toNat]
  omega

theorem getCompact_mod_bits (x : uint256) : (getCompact x).toNat % 2 ^ 23 = compactMantissa x.toNat := by
  have hm := compactMantissa_lt x.toNat
  rw [getCompact_toNat]
  omega

/-- The round trip is exact up to the dropped bits: it clears the bits of `x`
below `droppedBits`. -/
theorem setCompact_getCompact_toNat (x : uint256) :
    (setCompact (getCompact x)).toNat = x.toNat / 2 ^ droppedBits x.toNat * 2 ^ droppedBits x.toNat := by
  have hle := compactValue_le x.toNat
  rw [setCompact_toNat, getCompact_div_size, getCompact_mod_bits, Nat.mod_eq_of_lt (by omega), compactValue_eq]

/-- `GetCompact` never sets the sign bit: its mantissa is below `0x00800000`. -/
theorem compactNegative_getCompact (x : uint256) : compactNegative (getCompact x) = false := by
  have hm := compactMantissa_lt x.toNat
  have hbit : (getCompact x).toNat.testBit 23 = false := by
    rw [Nat.testBit_eq_decide_div_mod_eq, getCompact_toNat, decide_eq_false_iff_not]
    omega
  have hand : getCompact x &&& 0x00800000 = 0 := by
    rw [← UInt32.toNat_inj, UInt32.toNat_and, show (0x00800000 : UInt32).toNat = 2 ^ 23 from rfl,
      Nat.and_two_pow, hbit, UInt32.toNat_zero]
    rfl
  simp [compactNegative, hand]

/-- An exponent of `33` comes only from a full 32-byte value whose sign bit moved
the mantissa down a byte, so the mantissa fits in two bytes. -/
theorem compactMantissa_lt_of_exponent (hn : n < 2 ^ 256) (he : compactExponent n = 33) :
    compactMantissa n < 2 ^ 16 := by
  have hb := byteLength_le hn
  have hw := leadingWord_lt n
  unfold compactExponent at he
  unfold compactMantissa
  split_ifs at he ⊢ <;> omega

/-- `GetCompact` never sets the overflow flag of `SetCompact`. -/
theorem compactOverflow_getCompact (x : uint256) : compactOverflow (getCompact x) = false := by
  have he := compactExponent_le x.isLt
  have h33 := compactMantissa_lt_of_exponent (n := x.toNat) x.isLt
  have hsize : (getCompact x >>> 24).toNat = compactExponent x.toNat := by
    rw [toNat_compactSize, getCompact_div_size]
  have hword : (compactWord (getCompact x)).toNat ≤ compactMantissa x.toNat :=
    getCompact_mod_bits x ▸ compactWord_le (getCompact x)
  unfold compactOverflow
  simp only [hsize, UInt32.lt_iff_toNat_lt, Bool.and_eq_false_iff, Bool.or_eq_false_iff, decide_eq_false_iff_not,
    show (255 : UInt32).toNat = 255 from rfl, show (65535 : UInt32).toNat = 65535 from rfl]
  -- the size byte is at most 33, and at 33 the word is at most 0xffff
  right
  by_cases h : compactExponent x.toNat = 33
  · have := h33 h
    omega
  · omega

end Conversion

end ArithUint256
end AokChain
