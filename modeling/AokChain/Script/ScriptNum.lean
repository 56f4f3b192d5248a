import AokChain.Wallet.IsMine

/-!
# Script numbers

The codec of `CScriptNum` (`script/script.h`).  `value` is the integer a byte
vector denotes: little-endian, with the top bit of the last byte the sign.
`set_vch` computes it on up to eight bytes, where the shifts of its loop stay
within `int64_t`; `serialize` writes, of every value other than `INT64_MIN`, a
minimal encoding of at most eight bytes that denotes it, and every such
encoding is the one it writes.  So the constructor with minimal encoding
required reads back what `serialize` writes, and the two are inverse on the
minimal encodings of up to eight bytes.
-/

namespace AokChain
open Serial

section Digits

theorem minimalLEBytes_zero : ∀ k, minimalLEBytes k 0 = []
  | 0 => rfl
  | _ + 1 => by simp [minimalLEBytes]

/-- The minimal digits of a number with a nonzero top digit are its bytes. -/
theorem minimalLEBytes_leValue : ∀ (vch : Bytes) (k : ℕ), vch.length ≤ k → vch.getLast? ≠ some 0 →
    minimalLEBytes k (leValue vch) = vch
  | [], k, _, _ => minimalLEBytes_zero k
  | b :: bs, k + 1, hlen, hlast => by
    have hlen' : bs.length ≤ k := by simpa using hlen
    have hb : UInt8.ofNat (b.toNat + 256 * leValue bs) = b := by
      have := b.toNat_lt
      rw [← UInt8.toNat_inj, UInt8.toNat_ofNat']
      omega
    have hdiv : (b.toNat + 256 * leValue bs) / 256 = leValue bs := by
      have := b.toNat_lt
      omega
    rcases List.eq_nil_or_concat' bs with rfl | ⟨w, t, rfl⟩
    · -- one byte: it is not zero
      have hb0 : b.toNat ≠ 0 := by
        intro h
        exact hlast (by simp [← UInt8.toNat_inj, h])
      simp [minimalLEBytes, leValue, hb0, Nat.div_eq_of_lt b.toNat_lt, minimalLEBytes_zero]
    · have ht : t ≠ 0 := fun h => hlast (by rw [h, ← List.cons_append, List.getLast?_concat])
      have hne : b.toNat + 256 * leValue (w ++ [t]) ≠ 0 := by
        have := leValue_ne_zero (w := w) ht
        omega
      have ih := minimalLEBytes_leValue (w ++ [t]) k hlen' (by simpa using ht)
      simp only [leValue, minimalLEBytes, hne, if_false, hb, hdiv, ih]

/-- The minimal digits of a nonzero number below `256 ^ k`: fewer than `k`
bytes and a nonzero top one. -/
theorem minimalLEBytes_spec : ∀ (k m : ℕ), m < 256 ^ k → m ≠ 0 →
    ∃ w t, minimalLEBytes k m = w ++ [t] ∧ t ≠ 0 ∧ leValue (w ++ [t]) = m ∧ w.length < k
  | 0, m, hm, h0 => by simp at hm; omega
  | k + 1, m, hm, h0 => by
    by_cases hq : m / 256 = 0
    · have hlt : m < 256 := by omega
      refine ⟨[], UInt8.ofNat m, ?_, ?_, ?_, by simp⟩
      · simp [minimalLEBytes, h0, hq, minimalLEBytes_zero]
      · simpa [← UInt8.toNat_inj, Nat.mod_eq_of_lt hlt] using h0
      · simp [leValue, Nat.mod_eq_of_lt hlt]
    · have hm' : m / 256 < 256 ^ k := by rw [pow_succ] at hm; omega
      obtain ⟨w, t, hd, ht, hv, hl⟩ := minimalLEBytes_spec k (m / 256) hm' hq
      refine ⟨UInt8.ofNat m :: w, t, ?_, ht, ?_, by simpa using hl⟩
      · simp [minimalLEBytes, h0, hd]
      · have hv' : leValue (UInt8.ofNat m :: (w ++ [t])) = m % 256 + 256 * (m / 256) := by
          simp [leValue, hv]
        simpa [Nat.mod_add_div] using hv'

end Digits

namespace CScriptNum

/-- The integer `set_vch` reads from `vch`: little-endian, the top bit of the
last byte the sign. -/
def value (vch : Bytes) : ℤ :=
  match vch.getLast? with
  | none => 0
  | some last =>
    if last &&& 0x80 != 0 then -((leValue vch - 2 ^ (8 * vch.length - 1) : ℕ) : ℤ) else (leValue vch : ℤ)

section Bytes

theorem signBit_ne_zero_iff (t : UInt8) : t &&& 0x80 ≠ 0 ↔ 128 ≤ t.toNat := by
  rw [← bne_iff_ne, uint8_and_128_ne_zero, decide_eq_true_iff]

set_option maxRecDepth 10000 in
theorem lowBits_iff (t : UInt8) : (t &&& 0x7f != 0) = decide (t.toNat % 128 ≠ 0) :=
  UInt8.forall_of_lt (P := fun t => (t &&& 0x7f != 0) = decide (t.toNat % 128 ≠ 0)) (by decide) t

set_option maxRecDepth 10000 in
theorem toNat_or_signBit (t : UInt8) : (t ||| 0x80).toNat = if t.toNat < 128 then t.toNat + 128 else t.toNat :=
  UInt8.forall_of_lt (P := fun t => (t ||| 0x80).toNat = if t.toNat < 128 then t.toNat + 128 else t.toNat)
    (by decide) t

end Bytes

section SetVch

/-- The shift amounts of `set_vch`: `8*i` for a byte index below eight. -/
theorem smod_shift : ∀ i : Fin 8, (((8 * i.val).toInt64).toBitVec.smod 64).toNat = 8 * i.val := by
  decide

/-- The mask constant of `set_vch`: the top bit of the byte at index `i`. -/
theorem signMask_toNat : ∀ i : Fin 8,
    ((0x80 : Int64) <<< (8 * i.val).toInt64).toBitVec.toNat = 2 ^ (8 * i.val + 7) := by
  decide

/-- The loop of `set_vch` on up to eight bytes: the shifted bytes do not overlap,
so their `|` is their little-endian value. -/
theorem foldOr_toNat : ∀ (w : Bytes), w.length ≤ 8 →
    (w.zipIdx.foldl (fun acc (b, i) => acc ||| (b.toUInt64.toInt64 <<< (8 * i).toInt64)) (0 : Int64)).toBitVec.toNat =
      leValue w := by
  intro w
  induction w using List.reverseRecOn with
  | nil => intro _; rfl
  | append_singleton w t ih =>
    intro hlen
    simp only [List.length_append, List.length_singleton] at hlen
    rw [List.zipIdx_append, List.foldl_append]
    simp only [List.zipIdx_cons, List.zipIdx_nil, List.foldl_cons, List.foldl_nil, zero_add]
    rw [Int64.toBitVec_or, BitVec.toNat_or, ih (by omega), Int64.toBitVec_shiftLeft]
    have hshift := smod_shift ⟨w.length, by omega⟩
    have hbyte : t.toUInt64.toInt64.toBitVec.toNat = t.toNat := by simp
    have ht := t.toNat_lt
    have hw := leValue_lt w
    have hpow : (256 : ℕ) ^ w.length = 2 ^ (8 * w.length) := by rw [pow_mul]; norm_num
    have hsmall : t.toNat * 2 ^ (8 * w.length) < 2 ^ 64 := by
      calc t.toNat * 2 ^ (8 * w.length) < 2 ^ 8 * 2 ^ (8 * w.length) := by
            exact Nat.mul_lt_mul_of_pos_right (by simpa using ht) (Nat.pow_pos (by norm_num))
        _ = 2 ^ (8 + 8 * w.length) := by rw [pow_add]
        _ ≤ 2 ^ 64 := Nat.pow_le_pow_right (by norm_num) (by omega)
    rw [BitVec.shiftLeft_eq', BitVec.toNat_shiftLeft, hshift, hbyte, Nat.shiftLeft_eq, Nat.mod_eq_of_lt hsmall,
      leValue_append_singleton, hpow, Nat.lor_comm, Nat.mul_comm, ← Nat.two_pow_add_eq_or_of_lt (by rwa [← hpow])]
    ring

/-- Clearing the top bit of the last byte: the bit is set, so it subtracts it. -/
theorem toNat_and_not_signBit {x y : BitVec 64} {a t k : ℕ} (hx : x.toNat = 2 ^ (8 * k) * t + a)
    (ha : a < 2 ^ (8 * k)) (ht : 128 ≤ t) (ht' : t < 256) (hk : k < 8) (hy : y.toNat = 2 ^ (8 * k + 7)) :
    (x &&& ~~~y).toNat = 2 ^ (8 * k) * (t - 128) + a := by
  apply Nat.eq_of_testBit_eq
  intro i
  have hlow : t - 128 < 2 ^ 7 := by omega
  -- the last byte is its top bit over the seven below it
  have hbyte : ∀ q, t.testBit q = if q < 7 then (t - 128).testBit q else Nat.testBit 1 (q - 7) := by
    intro q
    have htop : t = 2 ^ 7 * 1 + (t - 128) := by omega
    conv_lhs => rw [htop]
    exact Nat.testBit_two_pow_mul_add _ hlow q
  rw [BitVec.toNat_and, Nat.testBit_and, BitVec.testBit_toNat (~~~y), BitVec.getLsbD_not,
    ← BitVec.testBit_toNat y, hx, hy, Nat.testBit_two_pow, Nat.testBit_two_pow_mul_add _ ha,
    Nat.testBit_two_pow_mul_add _ ha]
  by_cases hi : i < 8 * k
  · have h64 : i < 64 := by omega
    have hne : 8 * k + 7 ≠ i := by omega
    simp [hi, h64, hne]
  · rw [if_neg hi, if_neg hi, hbyte]
    by_cases hq : i - 8 * k < 7
    · have h64 : i < 64 := by omega
      have hne : 8 * k + 7 ≠ i := by omega
      simp [hq, h64, hne]
    · -- at and above the sign bit the cleared byte has no bit
      have hzero : (t - 128).testBit (i - 8 * k) = false :=
        Nat.testBit_lt_two_pow (lt_of_lt_of_le hlow (Nat.pow_le_pow_right (by norm_num) (by omega)))
      by_cases h7 : i = 8 * k + 7
      · subst h7
        simp only [Nat.add_sub_cancel_left] at hzero
        simp [hzero]
      · have hone : Nat.testBit 1 (i - 8 * k - 7) = false := by
          simpa using (Nat.testBit_one_eq_true_iff_self_eq_zero (i := i - 8 * k - 7)).not.mpr (by omega)
        simp [hq, hzero, hone]

theorem toInt_of_toNat_lt {x : Int64} (h : x.toBitVec.toNat < 2 ^ 63) : x.toInt = x.toBitVec.toNat := by
  rw [← Int64.toInt_toBitVec]
  exact BitVec.toInt_eq_toNat_of_lt (by omega)

theorem toInt_neg_of_toNat_lt {x : Int64} (h : x.toBitVec.toNat < 2 ^ 63) : (-x).toInt = -x.toBitVec.toNat := by
  have hmin : x.toBitVec ≠ BitVec.intMin 64 := by
    intro heq
    rw [heq, BitVec.toNat_intMin] at h
    simp at h
  rw [← Int64.toInt_toBitVec, Int64.toBitVec_neg, BitVec.toInt_neg_of_ne_intMin hmin, Int64.toInt_toBitVec,
    toInt_of_toNat_lt h]

/-- `set_vch` computes `value` on up to eight bytes: the shifts stay within
`int64_t` and the magnitude below its sign bit. -/
theorem setVch_toInt {vch : Bytes} (hlen : vch.length ≤ 8) : (setVch vch).toInt = value vch := by
  rcases List.eq_nil_or_concat' vch with rfl | ⟨w, t, rfl⟩
  · rfl
  · simp only [List.length_append, List.length_singleton] at hlen
    have hfold := foldOr_toNat (w ++ [t]) (by simp; omega)
    have hL := leValue_append_singleton w t
    have hw := leValue_lt w
    have hpow : (256 : ℕ) ^ w.length = 2 ^ (8 * w.length) := by rw [pow_mul]; norm_num
    have htop : 2 ^ (8 * w.length) * 2 ^ 8 ≤ 2 ^ 64 := by
      rw [← pow_add]; exact Nat.pow_le_pow_right (by norm_num) (by omega)
    have hbyte := t.toNat_lt
    unfold setVch value
    generalize (w ++ [t]).zipIdx.foldl (fun acc (b, i) => acc ||| (b.toUInt64.toInt64 <<< (8 * i).toInt64))
      (0 : Int64) = result at hfold ⊢
    simp only [List.getLast?_concat, uint8_and_128_ne_zero, List.length_append, List.length_singleton, Nat.add_sub_cancel]
    have hsign : (2 : ℕ) ^ (8 * w.length + 7) = 2 ^ (8 * w.length) * 128 := by rw [pow_add]; norm_num
    rw [hpow] at hL hw
    by_cases hs : 128 ≤ t.toNat
    · -- negative: the sign bit is cleared and the rest negated
      simp only [hs, decide_true, if_true]
      have hmask := toNat_and_not_signBit (x := result.toBitVec) (hfold.trans (by rw [hL]; ring)) hw hs hbyte
        (by omega) (signMask_toNat ⟨w.length, by omega⟩)
      have hlow : 2 ^ (8 * w.length) * (t.toNat - 128) ≤ 2 ^ (8 * w.length) * 127 :=
        Nat.mul_le_mul_left _ (by omega)
      have hmul : 2 ^ (8 * w.length) * t.toNat = 2 ^ (8 * w.length) * (t.toNat - 128) + 2 ^ (8 * w.length) * 128 := by
        rw [← Nat.mul_add]; congr 1; omega
      rw [toInt_neg_of_toNat_lt (by simp only [Int64.toBitVec_and, Int64.toBitVec_not, hmask]; omega)]
      have hexp : 8 * (w.length + 1) - 1 = 8 * w.length + 7 := by omega
      simp only [Int64.toBitVec_and, Int64.toBitVec_not, hmask, hL, hexp, hsign]
      omega
    · -- non-negative: the bytes are the value
      simp only [hs, decide_false, Bool.false_eq_true, if_false]
      have hlow : 2 ^ (8 * w.length) * t.toNat ≤ 2 ^ (8 * w.length) * 127 := Nat.mul_le_mul_left _ (by omega)
      rw [toInt_of_toNat_lt (by omega), hfold]

/-- `value` by the last byte: its top bit the sign, the seven below the top
digit of the magnitude. -/
theorem value_concat (w : Bytes) (t : UInt8) :
    value (w ++ [t]) = if 128 ≤ t.toNat then -((leValue w + 2 ^ (8 * w.length) * (t.toNat - 128) : ℕ) : ℤ)
      else ((leValue w + 2 ^ (8 * w.length) * t.toNat : ℕ) : ℤ) := by
  have hpow : (256 : ℕ) ^ w.length = 2 ^ (8 * w.length) := by rw [pow_mul]; norm_num
  have hexp : 8 * (w ++ [t]).length - 1 = 8 * w.length + 7 := by simp; omega
  simp only [value, List.getLast?_concat, uint8_and_128_ne_zero, leValue_append_singleton, hpow, hexp]
  by_cases hs : 128 ≤ t.toNat
  · have hmul : 2 ^ (8 * w.length) * t.toNat = 2 ^ (8 * w.length) * (t.toNat - 128) + 2 ^ (8 * w.length + 7) := by
      rw [pow_add, ← Nat.mul_add]; congr 1; omega
    have hsub : leValue w + (2 ^ (8 * w.length) * (t.toNat - 128) + 2 ^ (8 * w.length + 7)) -
        2 ^ (8 * w.length + 7) = leValue w + 2 ^ (8 * w.length) * (t.toNat - 128) := by omega
    simp only [hs, decide_true, if_true, hmul, hsub]
  · simp [hs]

example : value [0xff, 0x80] = -255 ∧ value [0xff, 0x00] = 255 := by decide

end SetVch

section Minimal

theorem isMinimal_singleton (t : UInt8) : isMinimal [t] = (t &&& 0x7f != 0) := by
  simp [isMinimal]

theorem isMinimal_of_lowBits (w : Bytes) {t : UInt8} (h : (t &&& 0x7f != 0) = true) :
    isMinimal (w ++ [t]) = true := by
  simp [isMinimal, h]

theorem isMinimal_concat_concat (w : Bytes) (r t : UInt8) :
    isMinimal (w ++ [r] ++ [t]) = (t &&& 0x7f != 0 || r &&& 0x80 != 0) := by
  have hr : byteAt (w ++ [r] ++ [t]) ((w ++ [r] ++ [t]).length - 2) = r := by
    simp [byteAt, List.getD_eq_getElem?_getD]
  simp only [isMinimal, List.getLast?_concat, hr]
  simp

/-- The exception of the minimality test: a last byte with nothing but the
sign needs a byte below it with its top bit set. -/
theorem isMinimal_concat_inv {w : Bytes} {t : UInt8} (hmin : isMinimal (w ++ [t]) = true)
    (hzero : t.toNat % 128 = 0) : ∃ u r, w = u ++ [r] ∧ 128 ≤ r.toNat := by
  have hlow : (t &&& 0x7f != 0) = false := by simp [lowBits_iff, hzero]
  rcases List.eq_nil_or_concat' w with rfl | ⟨u, r, rfl⟩
  · rw [List.nil_append, isMinimal_singleton, hlow] at hmin
    exact absurd hmin (by decide)
  · rw [isMinimal_concat_concat, hlow, Bool.false_or, uint8_and_128_ne_zero, decide_eq_true_iff] at hmin
    exact ⟨u, r, rfl, hmin⟩

end Minimal

end CScriptNum

section Serialize

open CScriptNum

/-- `serialize` of a nonzero value by the top byte `t` of its magnitude: a sign
byte above a `t` with its top bit set, the sign in `t` otherwise. -/
theorem scriptNumSerialize_of_digits {v : Int64} (hv : v ≠ 0) {w : Bytes} {t : UInt8}
    (hd : minimalLEBytes 8 v.toInt.natAbs = w ++ [t]) :
    scriptNumSerialize v =
      if 128 ≤ t.toNat then w ++ [t] ++ [if v < 0 then 0x80 else 0]
      else if v < 0 then w ++ [t ||| 0x80] else w ++ [t] := by
  simp only [scriptNumSerialize, hv, if_false, hd, List.getLast?_concat, CScriptNum.signBit_ne_zero_iff,
    List.dropLast_concat]

theorem natAbs_lt_of_ne_minValue {v : Int64} (hv : v ≠ Int64.minValue) : v.toInt.natAbs < 2 ^ 63 := by
  have hlo := v.le_toInt
  have hhi := v.toInt_lt
  have hne : v.toInt ≠ -2 ^ 63 := fun h => hv (Int64.toInt_inj.mp (h.trans (by decide)))
  omega

theorem toInt_eq_sign (v : Int64) : v.toInt = if v < 0 then -(v.toInt.natAbs : ℤ) else (v.toInt.natAbs : ℤ) := by
  by_cases hneg : v < 0
  · have : v.toInt < 0 := by simpa [Int64.lt_iff_toInt_lt] using hneg
    simp only [hneg, if_true]; omega
  · have : 0 ≤ v.toInt := by simpa [Int64.lt_iff_toInt_lt] using hneg
    simp only [hneg, if_false]; omega

/-- What `serialize` writes of a value other than `INT64_MIN`: a minimal
encoding of at most eight bytes, which `value` reads back. -/
theorem scriptNumSerialize_spec {v : Int64} (hv : v ≠ Int64.minValue) :
    CScriptNum.value (scriptNumSerialize v) = v.toInt ∧ (scriptNumSerialize v).length ≤ 8 ∧
      CScriptNum.isMinimal (scriptNumSerialize v) = true := by
  by_cases h0 : v = 0
  · subst h0
    decide
  have hm := natAbs_lt_of_ne_minValue hv
  have hm0 : v.toInt.natAbs ≠ 0 := by
    intro h
    apply h0
    rw [← Int64.toInt_inj, Int.natAbs_eq_zero.mp h]
    rfl
  obtain ⟨w, t, hd, ht, hval, hlen⟩ := minimalLEBytes_spec 8 _ (by omega) hm0
  rw [scriptNumSerialize_of_digits h0 hd]
  have hpow : (256 : ℕ) ^ w.length = 2 ^ (8 * w.length) := by rw [pow_mul]; norm_num
  have hm' : leValue w + 2 ^ (8 * w.length) * t.toNat = v.toInt.natAbs := by
    rw [← hval, leValue_append_singleton, hpow]
  have ht0 : t.toNat ≠ 0 := by simpa [← UInt8.toNat_inj] using ht
  have hsign := toInt_eq_sign v
  generalize v.toInt.natAbs = m at hsign hm hm' ⊢
  by_cases htop : 128 ≤ t.toNat
  · -- a sign byte above the magnitude, which the top bit of `t` leaves room for
    have hshort : w.length + 2 ≤ 8 := by
      have hge : 2 ^ (8 * w.length + 7) ≤ m := by
        rw [pow_add, ← hm']
        have := Nat.mul_le_mul_left (2 ^ (8 * w.length)) htop
        omega
      have hexp := (Nat.pow_lt_pow_iff_right (by norm_num : 1 < 2)).mp (lt_of_le_of_lt hge hm)
      omega
    have hmin : isMinimal (w ++ [t] ++ [if v < 0 then 128 else 0]) = true := by
      rw [isMinimal_concat_concat, uint8_and_128_ne_zero, decide_eq_true htop, Bool.or_true]
    simp only [htop, if_true, List.length_append, List.length_singleton, hmin, and_true]
    refine ⟨?_, by omega⟩
    rw [value_concat, leValue_append_singleton, hpow, hm', hsign]
    by_cases hneg : v < 0
    · simp [hneg]
    · simp [hneg]
  · have hlow : t.toNat < 128 := by omega
    by_cases hneg : v < 0
    · -- the sign in the top bit of `t`
      have hor := toNat_or_signBit t
      rw [if_pos hlow] at hor
      have hmin : isMinimal (w ++ [t ||| 128]) = true :=
        isMinimal_of_lowBits w (by rw [lowBits_iff, hor]; simp; omega)
      simp only [htop, hneg, if_false, if_true, List.length_append, List.length_singleton, hmin, and_true]
      refine ⟨?_, by omega⟩
      rw [value_concat, hor, if_pos (by omega), Nat.add_sub_cancel, hm', hsign, if_pos hneg]
    · have hmin : isMinimal (w ++ [t]) = true := isMinimal_of_lowBits w (by rw [lowBits_iff]; simp; omega)
      simp only [htop, hneg, if_false, List.length_append, List.length_singleton, hmin, and_true]
      refine ⟨?_, by omega⟩
      rw [value_concat, if_neg htop, hm', hsign, if_neg hneg]

theorem of_toInt_eq_neg {v : Int64} {n : ℕ} (h : v.toInt = -(n : ℤ)) (hn : n ≠ 0) :
    v ≠ 0 ∧ v < 0 ∧ v.toInt.natAbs = n := by
  refine ⟨fun h0 => hn ?_, ?_, by rw [h, Int.natAbs_neg, Int.natAbs_natCast]⟩
  · subst h0
    simp at h
    omega
  · rw [Int64.lt_iff_toInt_lt, h, Int64.toInt_zero]
    omega

theorem of_toInt_eq_natCast {v : Int64} {n : ℕ} (h : v.toInt = (n : ℤ)) (hn : n ≠ 0) :
    v ≠ 0 ∧ ¬ v < 0 ∧ v.toInt.natAbs = n := by
  refine ⟨fun h0 => hn ?_, ?_, by rw [h, Int.natAbs_natCast]⟩
  · subst h0
    simp at h
    omega
  · rw [Int64.lt_iff_toInt_lt, h, Int64.toInt_zero]
    omega

/-- A minimal encoding of at most eight bytes is what `serialize` writes of the
value `set_vch` reads from it. -/
theorem scriptNumSerialize_setVch {vch : Bytes} (hlen : vch.length ≤ 8) (hmin : isMinimal vch = true) :
    scriptNumSerialize (setVch vch) = vch := by
  rcases List.eq_nil_or_concat' vch with rfl | ⟨w, t, rfl⟩
  · decide
  have hv := setVch_toInt hlen
  rw [value_concat] at hv
  generalize setVch (w ++ [t]) = v at hv ⊢
  simp only [List.length_append, List.length_singleton] at hlen
  by_cases hzero : t.toNat % 128 = 0
  · -- the last byte is only a sign: the byte below it has its top bit set
    obtain ⟨u, r, rfl, hr⟩ := isMinimal_concat_inv hmin hzero
    have hr0 : r ≠ 0 := by rintro rfl; simp at hr
    have hn : leValue (u ++ [r]) ≠ 0 := leValue_ne_zero hr0
    have hdigits := minimalLEBytes_leValue (u ++ [r]) 8 (by simp at hlen ⊢; omega) (by simpa using hr0)
    by_cases htop : 128 ≤ t.toNat
    · have ht : t = 128 := by rw [← UInt8.toNat_inj]; have := t.toNat_lt; simp; omega
      rw [if_pos htop, ht, show (128 : UInt8).toNat - 128 = 0 from rfl, Nat.mul_zero, Nat.add_zero] at hv
      obtain ⟨hv0, hneg, habs⟩ := of_toInt_eq_neg hv hn
      rw [scriptNumSerialize_of_digits hv0 (habs ▸ hdigits), if_pos hr, if_pos hneg, ht]
    · have ht : t = 0 := by rw [← UInt8.toNat_inj]; simp; omega
      rw [if_neg htop, ht, show (0 : UInt8).toNat = 0 from rfl, Nat.mul_zero, Nat.add_zero] at hv
      obtain ⟨hv0, hneg, habs⟩ := of_toInt_eq_natCast hv hn
      rw [scriptNumSerialize_of_digits hv0 (habs ▸ hdigits), if_pos hr, if_neg hneg, ht]
  · -- the last byte carries a digit of the magnitude
    have ht0 : t ≠ 0 := by rintro rfl; simp at hzero
    by_cases htop : 128 ≤ t.toNat
    · -- negative: the digit is the byte without its sign bit
      have htlt := t.toNat_lt
      have hdigit : (UInt8.ofNat (t.toNat - 128)).toNat = t.toNat - 128 := by
        rw [UInt8.toNat_ofNat']; omega
      have hd0 : UInt8.ofNat (t.toNat - 128) ≠ 0 := by
        rw [ne_eq, ← UInt8.toNat_inj, hdigit]; simp; omega
      have hn : leValue w + 2 ^ (8 * w.length) * (t.toNat - 128) = leValue (w ++ [UInt8.ofNat (t.toNat - 128)]) := by
        rw [leValue_append_singleton, hdigit, pow_mul]; norm_num
      rw [if_pos htop, hn] at hv
      obtain ⟨hv0, hneg, habs⟩ := of_toInt_eq_neg hv (leValue_ne_zero hd0)
      have hdigits := minimalLEBytes_leValue (w ++ [UInt8.ofNat (t.toNat - 128)]) 8 (by simp; omega)
        (by simpa using hd0)
      have hor : UInt8.ofNat (t.toNat - 128) ||| 128 = t := by
        rw [← UInt8.toNat_inj, toNat_or_signBit, hdigit, if_pos (by omega)]
        omega
      rw [scriptNumSerialize_of_digits hv0 (habs ▸ hdigits), hdigit, if_neg (by omega), if_pos hneg, hor]
    · -- non-negative: the bytes are the magnitude
      have hn : leValue w + 2 ^ (8 * w.length) * t.toNat = leValue (w ++ [t]) := by
        rw [leValue_append_singleton, pow_mul]; norm_num
      rw [if_neg htop, hn] at hv
      obtain ⟨hv0, hneg, habs⟩ := of_toInt_eq_natCast hv (leValue_ne_zero ht0)
      have hdigits := minimalLEBytes_leValue (w ++ [t]) 8 (by simp; omega) (by simpa using ht0)
      rw [scriptNumSerialize_of_digits hv0 (habs ▸ hdigits), if_neg htop, if_neg hneg]

/-- The script-number codec round-trips: `serialize` of every value but
`INT64_MIN` is accepted by the constructor with minimal encoding required and
nine bytes allowed, which reads the value back; and every minimal encoding of
at most eight bytes is what `serialize` writes of the value `set_vch` reads. -/
theorem scriptNum_roundTrip :
    (∀ v : Int64, v ≠ Int64.minValue → CScriptNum.ofBytes (scriptNumSerialize v) true 9 = .ok v) ∧
      ∀ vch : Bytes, vch.length ≤ 8 → CScriptNum.isMinimal vch = true →
        scriptNumSerialize (CScriptNum.setVch vch) = vch := by
  refine ⟨fun v hv => ?_, fun vch hlen hmin => scriptNumSerialize_setVch hlen hmin⟩
  obtain ⟨hvalue, hlen, hmin⟩ := scriptNumSerialize_spec hv
  have hread : setVch (scriptNumSerialize v) = v := by
    rw [← Int64.toInt_inj, setVch_toInt hlen, hvalue]
  have hfits : ¬ (scriptNumSerialize v).length > 9 := by omega
  simp only [ofBytes, hfits, if_false, hmin, Bool.not_true, Bool.and_false, Bool.false_eq_true, hread]
  rfl

end Serialize

end AokChain
