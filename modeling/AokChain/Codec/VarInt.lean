import Mathlib.Data.Nat.Bitwise
import AokChain.Codec.Bytes

/-!
# Base-128 integers with an offset

The variable-length integer format that writes a number most significant group
first, seven bits a byte, the top bit set on every byte but the last, and one
subtracted from the number before each further group, so that every number has
exactly one encoding.  A reader for a type whose largest value is `max` refuses
a number that would leave the type.
-/

namespace Serial

/-- The bytes for `n`, the last of which has its top bit set exactly when
`flag` holds; `fuel` bounds the number of groups. -/
def varIntBytes (flag : Bool) : ℕ → ℕ → Bytes
  | 0, _ => []
  | fuel + 1, n =>
    let b := UInt8.ofNat (n % 128 + if flag then 128 else 0)
    if n ≤ 0x7F then [b] else varIntBytes true fuel (n / 128 - 1) ++ [b]

/-- The encoding of `n`. -/
def writeVarInt (n : ℕ) : Bytes := varIntBytes false (n + 1) n

/-- The reading loop from the accumulated value `n`: refuse a value that would
pass `max`, add the byte's low seven bits, and go on past a flagged byte with
the value plus one. -/
def readVarIntFrom (max : ℕ) : ℕ → Bytes → Option (ℕ × Bytes)
  | _, [] => none
  | n, chData :: s =>
    if n > max >>> 7 then none
    else
      let n := (n <<< 7) ||| (chData &&& 0x7F).toNat
      if chData &&& 0x80 != 0 then
        if n = max then none else readVarIntFrom max (n + 1) s
      else some (n, s)

/-- The reader for a type whose largest value is `max`. -/
def readVarInt (max : ℕ) : Reader ℕ := fun s => readVarIntFrom max 0 s

theorem uint8_and_127 (b : UInt8) : (b &&& 0x7F).toNat = b.toNat % 128 := by
  simpa using Nat.and_two_pow_sub_one_eq_mod b.toNat 7

theorem nat_and_128_ne_zero (x : ℕ) (hx : x < 256) : (x &&& 128 != 0) = decide (128 ≤ x) := by
  have h2 : (128 : ℕ) = 2 ^ 7 := rfl
  rw [h2, Nat.and_two_pow, Nat.testBit_eq_decide_div_mod_eq]
  by_cases h : 128 ≤ x
  · have : x / 128 % 2 = 1 := by omega
    simp [this, h]
  · have : ¬ x / 128 % 2 = 1 := by omega
    simp [this, h]

theorem uint8_and_128_ne_zero (b : UInt8) : (b &&& 0x80 != 0) = decide (128 ≤ b.toNat) := by
  rw [← nat_and_128_ne_zero b.toNat b.toNat_lt]
  have : (b &&& 0x80 == 0) = (b.toNat &&& 128 == 0) := by
    rw [Bool.eq_iff_iff, beq_iff_eq, beq_iff_eq, ← UInt8.toNat_inj, UInt8.toNat_and]
    rfl
  simp only [bne, this]

/-- Shifting in a group of seven bits is arithmetic. -/
theorem shift_or_group (n d : ℕ) (hd : d < 128) : (n <<< 7) ||| d = n * 128 + d := by
  rw [← Nat.shiftLeft_add_eq_or_of_lt (by simpa using hd), Nat.shiftLeft_eq]

/-- One step of the reader, in arithmetic. -/
theorem readVarIntFrom_cons (max n : ℕ) (b : UInt8) (s : Bytes) :
    readVarIntFrom max n (b :: s) =
      if n > max >>> 7 then none
      else if 128 ≤ b.toNat then
        if n * 128 + b.toNat % 128 = max then none else readVarIntFrom max (n * 128 + b.toNat % 128 + 1) s
      else some (n * 128 + b.toNat % 128, s) := by
  simp only [readVarIntFrom, uint8_and_127, uint8_and_128_ne_zero,
    shift_or_group n _ (Nat.mod_lt _ (by norm_num : 128 > 0)), decide_eq_true_eq]

/-- A byte of `varIntBytes`: the group and the flag. -/
theorem varIntByte_toNat (m : ℕ) (flag : Bool) :
    (UInt8.ofNat (m % 128 + if flag then 128 else 0)).toNat = m % 128 + if flag then 128 else 0 := by
  have : m % 128 < 128 := Nat.mod_lt _ (by norm_num)
  cases flag <;> simp [UInt8.toNat_ofNat] <;> omega

/-- The flagged groups of `m` bring the reader from nothing to `m + 1`. -/
theorem readVarIntFrom_flagged (max : ℕ) :
    ∀ (fuel m : ℕ) (rest : Bytes), m < fuel → m + 1 ≤ max >>> 7 →
      readVarIntFrom max 0 (varIntBytes true fuel m ++ rest) = readVarIntFrom max (m + 1) rest
  | 0, _, _, hm, _ => absurd hm (Nat.not_lt_zero _)
  | fuel + 1, m, rest, hm, hmax => by
    have hb := varIntByte_toNat m true
    simp only [if_true] at hb
    have hle : max >>> 7 ≤ max := Nat.shiftRight_le max 7
    have hflag : 128 ≤ m % 128 + 128 := by omega
    have hlow : (m % 128 + 128) % 128 = m % 128 := by omega
    by_cases hsmall : m ≤ 0x7F
    · -- one flagged group: the accumulator goes from zero to `m`
      have hm' : 0 * 128 + m % 128 = m := by omega
      simp only [varIntBytes, hsmall, if_true, List.singleton_append]
      rw [readVarIntFrom_cons, hb, if_neg (by omega), if_pos hflag, hlow, hm', if_neg (by omega)]
    · -- more groups: the earlier ones leave `m / 128`, this one makes it `m`
      have hq : m / 128 - 1 < fuel := by omega
      have hq' : m / 128 - 1 + 1 ≤ max >>> 7 := by omega
      have hdiv : (m / 128 - 1 + 1) * 128 + m % 128 = m := by omega
      simp only [varIntBytes, hsmall, if_false, if_true, List.append_assoc, List.singleton_append]
      rw [readVarIntFrom_flagged max fuel (m / 128 - 1) _ hq hq', readVarIntFrom_cons, hb,
        if_neg (by omega), if_pos hflag, hlow, hdiv, if_neg (by omega)]

/-- A number of seven bits is its own single byte. -/
theorem writeVarInt_of_le {n : ℕ} (h : n ≤ 0x7F) : writeVarInt n = [UInt8.ofNat n] := by
  have hmod : n % 128 = n := Nat.mod_eq_of_lt (by omega)
  simp [writeVarInt, varIntBytes, h, hmod]

/-- Reading back a value the type holds gives the value. -/
theorem readVarInt_writeVarInt (max n : ℕ) (h : n ≤ max) (rest : Bytes) :
    (readVarInt max).run (writeVarInt n ++ rest) = some (n, rest) := by
  have hb := varIntByte_toNat n false
  simp only [Bool.false_eq_true, if_false, Nat.add_zero] at hb
  have hflag : ¬ 128 ≤ n % 128 := by omega
  have hmod : n % 128 % 128 = n % 128 := Nat.mod_mod _ _
  show readVarIntFrom max 0 (writeVarInt n ++ rest) = some (n, rest)
  by_cases hsmall : n ≤ 0x7F
  · have hn : 0 * 128 + n % 128 = n := by omega
    simp only [writeVarInt, varIntBytes, hsmall, if_true, Bool.false_eq_true, if_false, Nat.add_zero,
      List.singleton_append]
    rw [readVarIntFrom_cons, hb, if_neg (by omega), if_neg hflag, hmod, hn]
  · have hq : n / 128 - 1 < n := by omega
    have hshift : max >>> 7 = max / 128 := Nat.shiftRight_eq_div_pow max 7
    have hq' : n / 128 - 1 + 1 ≤ max >>> 7 := by omega
    have hdiv : (n / 128 - 1 + 1) * 128 + n % 128 = n := by omega
    simp only [writeVarInt, varIntBytes, hsmall, if_false, Bool.false_eq_true, Nat.add_zero,
      List.append_assoc, List.singleton_append]
    rw [readVarIntFrom_flagged max n (n / 128 - 1) _ hq hq', readVarIntFrom_cons, hb,
      if_neg (by omega), if_neg hflag, hmod, hdiv]

section Size

/-- The loop of `GetSizeOfVarInt`; `fuel` bounds it as in `varIntBytes`. -/
def sizeOfVarIntFrom : ℕ → ℕ → ℕ
  | 0, _ => 0
  | fuel + 1, n => if n ≤ 0x7F then 1 else sizeOfVarIntFrom fuel (n / 128 - 1) + 1

/-- `GetSizeOfVarInt`. -/
def getSizeOfVarInt (n : ℕ) : ℕ := sizeOfVarIntFrom (n + 1) n

theorem length_varIntBytes (flag : Bool) : ∀ fuel n, (varIntBytes flag fuel n).length = sizeOfVarIntFrom fuel n
  | 0, _ => rfl
  | fuel + 1, n => by
    unfold varIntBytes sizeOfVarIntFrom
    dsimp only
    by_cases hn : n ≤ 0x7F
    · simp [hn]
    · simp only [hn, if_false, List.length_append, length_varIntBytes true fuel, List.length_singleton]

theorem length_writeVarInt (n : ℕ) : (writeVarInt n).length = getSizeOfVarInt n := length_varIntBytes _ _ _

/-- Below `128 ^ k` a number takes at most `k` groups. -/
theorem sizeOfVarIntFrom_le : ∀ (fuel n k : ℕ), n < 128 ^ k → 1 ≤ k → sizeOfVarIntFrom fuel n ≤ k
  | 0, _, _, _, _ => Nat.zero_le _
  | fuel + 1, n, k, hn, hk => by
    unfold sizeOfVarIntFrom
    split
    · exact hk
    · rename_i hbig
      -- `n` needs a second group, so `k` is at least two and the rest fits in `k - 1`
      obtain ⟨j, rfl⟩ : ∃ j, k = j + 1 := ⟨k - 1, by omega⟩
      have hj : 1 ≤ j := by
        by_contra hj
        have : j = 0 := by omega
        subst this
        simp at hn
        omega
      have hrest : n / 128 - 1 < 128 ^ j := by
        rw [pow_succ] at hn
        have := Nat.div_lt_of_lt_mul hn
        omega
      have := sizeOfVarIntFrom_le fuel (n / 128 - 1) j hrest hj
      omega

/-- The buffer `WriteVarInt` fills, `(sizeof(n) * 8 + 6) / 7` bytes, holds every
value of a type of `size` bytes. -/
theorem length_writeVarInt_le {size n : ℕ} (hsize : 1 ≤ size) (hn : n < 256 ^ size) :
    (writeVarInt n).length ≤ (size * 8 + 6) / 7 := by
  rw [length_writeVarInt]
  apply sizeOfVarIntFrom_le _ _ _ _ (by omega)
  calc n < 256 ^ size := hn
    _ = 2 ^ (size * 8) := by rw [pow_mul']; norm_num
    _ ≤ 2 ^ (7 * ((size * 8 + 6) / 7)) := Nat.pow_le_pow_right (by norm_num) (by omega)
    _ = 128 ^ ((size * 8 + 6) / 7) := by rw [pow_mul]; norm_num

end Size

section Canonical

/-- The flagged groups of `m`, which bring the reader to `m + 1`. -/
def flaggedBytes (m : ℕ) : Bytes := varIntBytes true (m + 1) m

/-- Enough fuel gives the same bytes. -/
theorem varIntBytes_fuel (flag : Bool) : ∀ (f₁ f₂ n : ℕ), n < f₁ → n < f₂ →
    varIntBytes flag f₁ n = varIntBytes flag f₂ n
  | 0, _, _, h, _ => absurd h (Nat.not_lt_zero _)
  | _, 0, _, _, h => absurd h (Nat.not_lt_zero _)
  | f₁ + 1, f₂ + 1, n, h₁, h₂ => by
    unfold varIntBytes
    dsimp only
    by_cases hn : n ≤ 0x7F
    · simp only [hn, if_true]
    · simp only [hn, if_false]
      rw [varIntBytes_fuel true f₁ f₂ (n / 128 - 1) (by omega) (by omega)]

theorem writeVarInt_eq (n : ℕ) : writeVarInt n =
    if n ≤ 0x7F then [UInt8.ofNat (n % 128)] else flaggedBytes (n / 128 - 1) ++ [UInt8.ofNat (n % 128)] := by
  unfold writeVarInt flaggedBytes
  rw [varIntBytes]
  split
  · simp
  · simp only [Bool.false_eq_true, if_false, Nat.add_zero]
    rw [varIntBytes_fuel true n (n / 128 - 1 + 1) _ (by omega) (by omega)]

theorem flaggedBytes_eq (m : ℕ) : flaggedBytes m =
    if m ≤ 0x7F then [UInt8.ofNat (m % 128 + 128)]
    else flaggedBytes (m / 128 - 1) ++ [UInt8.ofNat (m % 128 + 128)] := by
  unfold flaggedBytes
  rw [varIntBytes]
  split
  · simp
  · simp only [if_true]
    rw [varIntBytes_fuel true m (m / 128 - 1 + 1) _ (by omega) (by omega)]

/-- A byte is its group plus its flag. -/
theorem byte_eq_group (b : UInt8) : b = UInt8.ofNat (b.toNat % 128 + if 128 ≤ b.toNat then 128 else 0) := by
  apply UInt8.toNat_inj.mp
  have hb := b.toNat_lt
  split <;> simp [UInt8.toNat_ofNat] <;> omega

/-- What the reader has consumed is nothing, with nothing accumulated, or the
flagged groups of `m`, with `m + 1` accumulated; the bytes it goes on to accept
complete the encoding of its result. -/
theorem readVarIntFrom_canonical (max : ℕ) : ∀ (s pre : Bytes) (acc : ℕ) {n : ℕ} {rest : Bytes},
    (pre = [] ∧ acc = 0 ∨ ∃ m, pre = flaggedBytes m ∧ acc = m + 1) →
      readVarIntFrom max acc s = some (n, rest) → pre ++ s = writeVarInt n ++ rest
  | [], _, _, _, _, _, h => by simp [readVarIntFrom] at h
  | b :: s, pre, acc, n, rest, hpre, h => by
    rw [readVarIntFrom_cons] at h
    have hb := byte_eq_group b
    split at h
    · cases h
    · split at h
      · -- a flagged byte: the consumed part becomes the flagged groups of the new value
        rename_i hflag
        split at h
        · cases h
        · have hnext : pre ++ [b] = flaggedBytes (acc * 128 + b.toNat % 128) := by
            conv_lhs => rw [hb, if_pos hflag]
            rcases hpre with ⟨rfl, rfl⟩ | ⟨m, rfl, rfl⟩
            · rw [flaggedBytes_eq, if_pos (by omega)]
              simp
            · have hq : ((m + 1) * 128 + b.toNat % 128) / 128 - 1 = m := by omega
              have hr : ((m + 1) * 128 + b.toNat % 128) % 128 = b.toNat % 128 := by omega
              rw [flaggedBytes_eq ((m + 1) * 128 + b.toNat % 128), if_neg (by omega), hq, hr]
          have := readVarIntFrom_canonical max s (pre ++ [b]) _ (.inr ⟨_, hnext, rfl⟩) h
          simpa using this
      · -- the last byte: it completes the encoding
        rename_i hflag
        simp only [Option.some.injEq, Prod.mk.injEq] at h
        obtain ⟨rfl, rfl⟩ := h
        have hlast : pre ++ [b] = writeVarInt (acc * 128 + b.toNat % 128) := by
          conv_lhs => rw [hb, if_neg hflag, Nat.add_zero]
          rcases hpre with ⟨rfl, rfl⟩ | ⟨m, rfl, rfl⟩
          · rw [writeVarInt_eq, if_pos (by omega)]
            simp
          · have hq : ((m + 1) * 128 + b.toNat % 128) / 128 - 1 = m := by omega
            have hr : ((m + 1) * 128 + b.toNat % 128) % 128 = b.toNat % 128 := by omega
            rw [writeVarInt_eq, if_neg (by omega), hq, hr]
        simpa using congrArg (· ++ s) hlast

/-- The reader stays within the type when `max` is all ones in binary. -/
theorem readVarIntFrom_le {max : ℕ} (hmax : (max >>> 7) * 128 + 127 ≤ max) :
    ∀ (s : Bytes) (acc : ℕ) {n : ℕ} {rest : Bytes}, readVarIntFrom max acc s = some (n, rest) → n ≤ max
  | [], _, _, _, h => by simp [readVarIntFrom] at h
  | b :: s, acc, n, rest, h => by
    rw [readVarIntFrom_cons] at h
    have hlow : b.toNat % 128 < 128 := Nat.mod_lt _ (by norm_num)
    split at h
    · cases h
    · rename_i hacc
      split at h
      · split at h
        · cases h
        · exact readVarIntFrom_le hmax s _ h
      · simp only [Option.some.injEq, Prod.mk.injEq] at h
        obtain ⟨rfl, rfl⟩ := h
        have : acc * 128 ≤ (max >>> 7) * 128 := Nat.mul_le_mul_right _ (by omega)
        omega

end Canonical

end Serial
