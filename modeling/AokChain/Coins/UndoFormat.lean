import AokChain.Coins.Undo

/-!
# Undo records read back

What `UndoReadFromDisk` gives back of what `UndoWriteToDisk` wrote.  The amount
compression of `CTxOutCompressor` is undone exactly while nine times the amount
fits in `uint64_t`; the script compression of `CScriptCompressor`, for every
script the reader keeps, where the curve recovers a fully valid key from its
compressed form; the height code, below `2 ^ 30`.  A block's record then comes
back as it was written, but for the coin-stake flags and times, which the
format does not hold.
-/

namespace AokChain
open Serial

section AmountCompression

/-- The loop of `CompressAmount` keeps the amount: from `n` times ten to the
`e`, it ends at `m` times ten to the `e'`, with `m` not zero, at most nine
factors stripped, and a last digit of `m` that is not zero unless all nine were. -/
theorem stripTens_spec :
    ∀ (fuel : ℕ) (n : UInt64) (e : ℕ), n ≠ 0 → e ≤ 9 → 9 ≤ e + fuel →
      n.toNat * 10 ^ e = (stripTens fuel n e).1.toNat * 10 ^ (stripTens fuel n e).2 ∧
        (stripTens fuel n e).1 ≠ 0 ∧ (stripTens fuel n e).2 ≤ 9 ∧
        ((stripTens fuel n e).2 < 9 → (stripTens fuel n e).1.toNat % 10 ≠ 0)
  | 0, n, e, hn, he, hfuel => ⟨rfl, hn, he, fun (h : e < 9) => absurd h (by omega)⟩
  | fuel + 1, n, e, hn, he, hfuel => by
    unfold stripTens
    by_cases hstrip : (n % 10 == 0 && decide (e < 9)) = true
    · -- a factor of ten comes off: the quotient is not zero, and the rest of the loop keeps it
      rw [if_pos hstrip]
      simp only [Bool.and_eq_true, beq_iff_eq, decide_eq_true_eq] at hstrip
      obtain ⟨hmod, he9⟩ := hstrip
      have hmod' : n.toNat % 10 = 0 := by
        have := congrArg UInt64.toNat hmod
        simpa [UInt64.toNat_mod] using this
      have hn' : n.toNat ≠ 0 := fun h => hn (UInt64.toNat_inj.mp (by simpa using h))
      have hq : n / 10 ≠ 0 := by
        intro h
        have := congrArg UInt64.toNat h
        simp [UInt64.toNat_div] at this
        omega
      obtain ⟨hkeep, hm, hle, hdigit⟩ := stripTens_spec fuel (n / 10) (e + 1) hq (by omega) (by omega)
      refine ⟨?_, hm, hle, hdigit⟩
      rw [← hkeep, UInt64.toNat_div, pow_succ]
      have : n.toNat = n.toNat / 10 * 10 := by omega
      simp only [UInt64.reduceToNat]
      nth_rewrite 1 [this]
      ring
    · -- the loop stops here
      rw [if_neg hstrip]
      refine ⟨rfl, hn, he, fun he9 hdigit => hstrip ?_⟩
      have : n % 10 = 0 := UInt64.toNat_inj.mp (by simpa [UInt64.toNat_mod] using hdigit)
      simp [this, he9]

theorem toNat_mulTens : ∀ (e : ℕ) (n : UInt64), (mulTens e n).toNat = n.toNat * 10 ^ e % 2 ^ 64
  | 0, n => by simp [mulTens, Nat.mod_eq_of_lt n.toNat_lt]
  | e + 1, n => by
    rw [mulTens, toNat_mulTens e, UInt64.toNat_mul, Nat.mod_mul_mod, pow_succ]
    simp only [UInt64.reduceToNat]
    ring_nf

/-- Decompression of the code of an amount whose digits past its trailing
zeros are `q` followed by the digit `d`, with `e < 9` zeros. -/
theorem decompressAmount_digits {q d e : ℕ} (hd : 1 ≤ d) (hd9 : d ≤ 9) (he : e < 9)
    (hcode : 1 + (9 * q + d - 1) * 10 + e < 2 ^ 64) (hbound : (10 * q + d) * 10 ^ e < 2 ^ 64) :
    decompressAmount (UInt64.ofNat (1 + (9 * q + d - 1) * 10 + e)) = UInt64.ofNat ((10 * q + d) * 10 ^ e) := by
  have hX : (UInt64.ofNat (1 + (9 * q + d - 1) * 10 + e)).toNat = 1 + (9 * q + d - 1) * 10 + e := by
    rw [UInt64.toNat_ofNat', Nat.mod_eq_of_lt hcode]
  have hX0 : UInt64.ofNat (1 + (9 * q + d - 1) * 10 + e) ≠ 0 := by
    intro h
    rw [h, UInt64.toNat_zero] at hX
    omega
  set x := UInt64.ofNat (1 + (9 * q + d - 1) * 10 + e) - 1 with hxdef
  have hx : x.toNat = (9 * q + d - 1) * 10 + e := by
    rw [hxdef, UInt64.toNat_sub_of_le _ _ (by rw [UInt64.le_iff_toNat_le, hX, UInt64.toNat_one]; omega),
      hX, UInt64.toNat_one]
    omega
  have he' : (x % 10).toNat = e := by simp only [UInt64.toNat_mod, hx, UInt64.reduceToNat]; omega
  have hq' : (x / 10).toNat = 9 * q + d - 1 := by simp only [UInt64.toNat_div, hx, UInt64.reduceToNat]; omega
  have hlt : x % 10 < 9 := by rw [UInt64.lt_iff_toNat_lt, he']; simp; omega
  have hsmall : 10 * q + d < 2 ^ 64 :=
    lt_of_le_of_lt (Nat.le_mul_of_pos_right _ (Nat.pow_pos (by norm_num))) hbound
  have hn : (x / 10 / 9 * 10 + (x / 10 % 9 + 1)).toNat = 10 * q + d := by
    simp only [UInt64.toNat_add, UInt64.toNat_mul, UInt64.toNat_div, UInt64.toNat_mod, hq',
      UInt64.reduceToNat]
    omega
  apply UInt64.toNat_inj.mp
  unfold decompressAmount
  rw [if_neg hX0]
  simp only [← hxdef, if_pos hlt, toNat_mulTens, he', hn, UInt64.toNat_ofNat', Nat.mod_eq_of_lt hbound]

/-- Decompression of the code of an amount `m` with nine trailing zeros stripped. -/
theorem decompressAmount_nines {m : ℕ} (hm : 1 ≤ m) (hbound : m * 10 ^ 9 < 2 ^ 64) :
    decompressAmount (UInt64.ofNat (1 + (m - 1) * 10 + 9)) = UInt64.ofNat (m * 10 ^ 9) := by
  have hcode : 1 + (m - 1) * 10 + 9 < 2 ^ 64 := by omega
  have hX : (UInt64.ofNat (1 + (m - 1) * 10 + 9)).toNat = 1 + (m - 1) * 10 + 9 := by
    rw [UInt64.toNat_ofNat', Nat.mod_eq_of_lt hcode]
  have hX0 : UInt64.ofNat (1 + (m - 1) * 10 + 9) ≠ 0 := by
    intro h
    rw [h, UInt64.toNat_zero] at hX
    omega
  set x := UInt64.ofNat (1 + (m - 1) * 10 + 9) - 1 with hxdef
  have hx : x.toNat = (m - 1) * 10 + 9 := by
    rw [hxdef, UInt64.toNat_sub_of_le _ _ (by rw [UInt64.le_iff_toNat_le, hX, UInt64.toNat_one]; omega),
      hX, UInt64.toNat_one]
    omega
  have he' : (x % 10).toNat = 9 := by simp only [UInt64.toNat_mod, hx, UInt64.reduceToNat]; omega
  have hlt : ¬ x % 10 < 9 := by rw [UInt64.lt_iff_toNat_lt, he']; decide
  have hn : (x / 10 + 1).toNat = m := by
    simp only [UInt64.toNat_add, UInt64.toNat_div, hx, UInt64.reduceToNat]
    omega
  apply UInt64.toNat_inj.mp
  unfold decompressAmount
  rw [if_neg hX0]
  simp only [← hxdef, if_neg hlt, toNat_mulTens, he', hn, UInt64.toNat_ofNat', Nat.mod_eq_of_lt hbound]

/-- `DecompressAmount` undoes `CompressAmount` on every amount whose code does
not leave `uint64_t`, which nine times the amount bounds. -/
theorem decompressAmount_compressAmount (n : UInt64) (h : 9 * n.toNat < 2 ^ 64) :
    decompressAmount (compressAmount n) = n := by
  by_cases h0 : n = 0
  · subst h0
    rfl
  obtain ⟨hkeep, hm0, hle, hdigit⟩ := stripTens_spec 9 n 0 h0 (by norm_num) (by norm_num)
  generalize hr : stripTens 9 n 0 = r at hkeep hm0 hle hdigit
  obtain ⟨m, e⟩ := r
  dsimp only at hkeep hm0 hle hdigit
  have hN : n.toNat = m.toNat * 10 ^ e := by simpa using hkeep
  have hm : 1 ≤ m.toNat := by
    rcases Nat.eq_zero_or_pos m.toNat with h | h
    · exact absurd (UInt64.toNat_inj.mp (by simpa using h)) hm0
    · exact h
  -- past its first zero, the amount is at least ten times the digits kept
  have hscale : e = 0 ∨ 10 * m.toNat ≤ n.toNat := by
    rcases Nat.eq_zero_or_pos e with he | he
    · exact .inl he
    · right
      rw [hN, Nat.mul_comm]
      exact Nat.mul_le_mul_left _ (Nat.le_self_pow (by omega) 10)
  unfold compressAmount
  rw [if_neg h0, hr]
  dsimp only
  by_cases he : e < 9
  · rw [if_pos he]
    have hd := hdigit he
    have hcode : 1 + (m / 10 * 9 + m % 10 - 1) * 10 + e.toUInt64 =
        UInt64.ofNat (1 + (9 * (m.toNat / 10) + m.toNat % 10 - 1) * 10 + e) := by
      apply UInt64.toNat_inj.mp
      simp only [UInt64.toNat_add, UInt64.toNat_mul, UInt64.toNat_div, UInt64.toNat_mod, UInt64.toNat_sub,
        UInt64.toNat_ofNat', UInt64.reduceToNat]
      rcases hscale with rfl | hscale <;> omega
    have hback : n = UInt64.ofNat ((10 * (m.toNat / 10) + m.toNat % 10) * 10 ^ e) := by
      apply UInt64.toNat_inj.mp
      rw [UInt64.toNat_ofNat', Nat.div_add_mod, ← hN, Nat.mod_eq_of_lt n.toNat_lt]
    rw [hcode, hback, decompressAmount_digits (by omega) (by omega) he (by rcases hscale with rfl | hscale <;> omega)
      (by rw [Nat.div_add_mod, ← hN]; exact n.toNat_lt)]
  · rw [if_neg he]
    have he9 : e = 9 := by omega
    subst he9
    have hcode : 1 + (m - 1) * 10 + 9 = UInt64.ofNat (1 + (m.toNat - 1) * 10 + 9) := by
      apply UInt64.toNat_inj.mp
      simp only [UInt64.toNat_add, UInt64.toNat_mul, UInt64.toNat_sub, UInt64.toNat_ofNat',
        UInt64.reduceToNat]
      omega
    have hback : n = UInt64.ofNat (m.toNat * 10 ^ 9) := by
      apply UInt64.toNat_inj.mp
      rw [UInt64.toNat_ofNat', ← hN, Nat.mod_eq_of_lt n.toNat_lt]
    rw [hcode, hback, decompressAmount_nines hm (by rw [← hN]; exact n.toNat_lt)]

/-- Past the bound the code wraps: an amount of `2 ^ 61 - 1` does not come back. -/
example : decompressAmount (compressAmount 2305843009213693951) ≠ 2305843009213693951 := by decide

end AmountCompression

section ScriptCompression

variable (C : Crypto)

/-- What `CScriptCompressor` relies on of the curve: a fully valid
uncompressed key comes back from its `x` coordinate and the parity of its `y`
coordinate. -/
def DecompressRecovers : Prop :=
  ∀ pubkey : Bytes, pubkey.length = 65 → byteAt pubkey 0 = 0x04 → C.isFullyValidPubKey pubkey = true →
    C.decompressPubKey ((2 + (byteAt pubkey 64 &&& 0x01)) :: (pubkey.drop 1).take 32) = some pubkey

/-- The reader on a special form: a tag below six, then as many bytes as the
tag's form keeps. -/
theorem unserScriptCompressed_special {nSize : UInt8} (hsize : nSize.toNat < 6) {input : Bytes}
    (hlen : input.length = getSpecialSize nSize.toNat) (rest : Bytes) :
    (unserScriptCompressed C).run (nSize :: input ++ rest) =
      some ((decompressScript C nSize.toNat input).getD [], rest) := by
  have htag : nSize :: input ++ rest = writeVarInt nSize.toNat ++ (input ++ rest) := by
    rw [writeVarInt_of_le (by omega), UInt8.ofNat_toNat]
    rfl
  have htagread := readVarInt_writeVarInt UINT32_MAX nSize.toNat (by unfold UINT32_MAX; omega) (input ++ rest)
  have hread := readBytes_append input rest
  rw [hlen] at hread
  rw [htag]
  simp only [unserScriptCompressed, StateT.run_bind, htagread, Option.bind_eq_bind,
    Option.bind_some, if_pos hsize, hread, StateT.run_pure, Option.pure_def]

/-- The reader on the raw form: the length plus six, then the script. -/
theorem unserScriptCompressed_raw {s : CScript} (hs : s.length ≤ MAX_SCRIPT_SIZE) (rest : Bytes) :
    (unserScriptCompressed C).run (writeVarInt (s.length + 6) ++ s ++ rest) = some (s, rest) := by
  have hmax : ¬ s.length + 6 - 6 > MAX_SCRIPT_SIZE := by omega
  have hlenread := readVarInt_writeVarInt UINT32_MAX (s.length + 6)
    (by unfold UINT32_MAX; unfold MAX_SCRIPT_SIZE at hs; omega) (s ++ rest)
  have hread := readBytes_append s rest
  rw [← Nat.add_sub_cancel s.length 6] at hread
  rw [List.append_assoc]
  simp only [unserScriptCompressed, StateT.run_bind, hlenread, Option.bind_eq_bind, Option.bind_some,
    if_neg (show ¬ s.length + 6 < 6 by omega), if_neg hmax, hread]

/-- The key-hash form gives the script back from its hash. -/
theorem decompressScript_keyHash {s : CScript} (h : isPayToPublicKeyHash s = true) :
    decompressScript C 0 ((s.drop 3).take 20) = some s := by
  simp only [isPayToPublicKeyHash, Bool.and_eq_true, beq_iff_eq] at h
  obtain ⟨⟨⟨⟨⟨hlen, h0⟩, h1⟩, h2⟩, h23⟩, h24⟩ := h
  have hs : [OP_DUP, OP_HASH160, 20] ++ (s.drop 3).take 20 ++ [OP_EQUALVERIFY, OP_CHECKSIG] = s := by
    apply append_slice_eq (by simp [hlen])
    · intro i hi
      obtain rfl | rfl | rfl : i = 0 ∨ i = 1 ∨ i = 2 := by simp at hi; omega
      · exact h0
      · exact h1
      · exact h2
    · intro i hi
      obtain rfl | rfl : i = 0 ∨ i = 1 := by simp at hi; omega
      · exact h23
      · exact h24
  unfold decompressScript
  rw [if_pos rfl, hs]

/-- The script-hash form gives the script back from its hash. -/
theorem decompressScript_scriptHash {s : CScript} (h : isPayToScriptHash s = true) :
    decompressScript C 1 ((s.drop 2).take 20) = some s := by
  simp only [isPayToScriptHash, Bool.and_eq_true, beq_iff_eq] at h
  obtain ⟨⟨⟨hlen, h0⟩, h1⟩, h22⟩ := h
  have hs : [OP_HASH160, 20] ++ (s.drop 2).take 20 ++ [OP_EQUAL] = s := by
    apply append_slice_eq (by simp [hlen])
    · intro i hi
      obtain rfl | rfl : i = 0 ∨ i = 1 := by simp at hi; omega
      · exact h0
      · exact h1
    · intro i hi
      obtain rfl : i = 0 := by simpa using hi
      exact h22
  unfold decompressScript
  rw [if_neg (by decide), if_pos rfl, hs]

/-- The compressed-key form gives the script back from the key's `x` coordinate. -/
theorem decompressScript_pubKey {s : CScript} (hlen : s.length = 35) (h0 : byteAt s 0 = 33)
    (h34 : byteAt s 34 = OP_CHECKSIG) (h1 : byteAt s 1 = 0x02 ∨ byteAt s 1 = 0x03) :
    decompressScript C (byteAt s 1).toNat ((s.drop 2).take 32) = some s := by
  have hs : [33, (byteAt s 1).toNat.toUInt8] ++ (s.drop 2).take 32 ++ [OP_CHECKSIG] = s := by
    apply append_slice_eq (by simp [hlen])
    · intro i hi
      -- the prefix is the push of 33 bytes and the tag
      obtain rfl | rfl : i = 0 ∨ i = 1 := by simp at hi; omega
      · exact h0
      · simp [byteAt]
    · intro i hi
      obtain rfl : i = 0 := by simpa using hi
      exact h34
  have htag : (byteAt s 1).toNat = 2 ∨ (byteAt s 1).toNat = 3 := by
    rcases h1 with h1 | h1 <;> simp [h1]
  unfold decompressScript
  rw [if_neg (by omega), if_neg (by omega), if_pos (by simp; omega), hs]

/-- The tag of an uncompressed key is four or five, by the parity of the key's
last byte, and two less is the first byte of the compressed key. -/
theorem uncompressedTag (b : UInt8) :
    ((0x04 ||| (b &&& 0x01)).toNat = 4 ∨ (0x04 ||| (b &&& 0x01)).toNat = 5) ∧
      ((0x04 ||| (b &&& 0x01)).toNat - 2).toUInt8 = 2 + (b &&& 0x01) := by
  have hparity : b &&& 0x01 = 0 ∨ b &&& 0x01 = 1 := by
    have : (b &&& 0x01).toNat < 2 := by
      rw [UInt8.toNat_and]
      exact lt_of_le_of_lt Nat.and_le_right (by decide)
    have h01 : (b &&& 0x01).toNat = 0 ∨ (b &&& 0x01).toNat = 1 := by omega
    rcases h01 with h | h
    · exact .inl (UInt8.toNat_inj.mp h)
    · exact .inr (UInt8.toNat_inj.mp h)
  rcases hparity with hp | hp <;> rw [hp] <;> decide

/-- The uncompressed-key form gives the script back from the key's `x`
coordinate and the parity of its `y`, where the key is recovered. -/
theorem decompressScript_uncompressed (hC : DecompressRecovers C) {s : CScript} (hlen : s.length = 67)
    (h0 : byteAt s 0 = 65) (h66 : byteAt s 66 = OP_CHECKSIG) (h1 : byteAt s 1 = 0x04)
    (hvalid : C.isFullyValidPubKey ((s.drop 1).take 65) = true) :
    decompressScript C (0x04 ||| (byteAt s 65 &&& 0x01)).toNat ((s.drop 2).take 32) = some s := by
  have hkeylen : ((s.drop 1).take 65).length = 65 := by simp [hlen]
  have hkey0 : byteAt ((s.drop 1).take 65) 0 = 0x04 := by rw [byteAt_take (by omega), byteAt_drop]; exact h1
  have hkey64 : byteAt ((s.drop 1).take 65) 64 = byteAt s 65 := by rw [byteAt_take (by omega), byteAt_drop]
  have hx : (((s.drop 1).take 65).drop 1).take 32 = (s.drop 2).take 32 := by
    simp [List.drop_take, List.take_take]
  have hrecover := hC _ hkeylen hkey0 hvalid
  rw [hkey64, hx] at hrecover
  have hs : [65] ++ (s.drop 1).take 65 ++ [OP_CHECKSIG] = s := by
    apply append_slice_eq (by simp [hlen])
    · intro i hi
      obtain rfl : i = 0 := by simpa using hi
      exact h0
    · intro i hi
      obtain rfl : i = 0 := by simpa using hi
      exact h66
  obtain ⟨h45, hkey⟩ := uncompressedTag (byteAt s 65)
  generalize (0x04 ||| (byteAt s 65 &&& 0x01)).toNat = t at hkey h45
  unfold decompressScript
  rw [if_neg (by omega), if_neg (by omega), if_neg (by simp; omega), if_pos (by simp; omega), hkey,
    hrecover, Option.map_some, hs]

/-- The two script shapes `IsToPubKey` accepts, and the key it reads. -/
theorem isToPubKey_eq_some {s pubkey : Bytes} (h : isToPubKey C s = some pubkey) :
    (s.length = 35 ∧ byteAt s 0 = 33 ∧ byteAt s 34 = OP_CHECKSIG ∧ (byteAt s 1 = 0x02 ∨ byteAt s 1 = 0x03) ∧
        pubkey = (s.drop 1).take 33) ∨
      (s.length = 67 ∧ byteAt s 0 = 65 ∧ byteAt s 66 = OP_CHECKSIG ∧ byteAt s 1 = 0x04 ∧
        C.isFullyValidPubKey pubkey = true ∧ pubkey = (s.drop 1).take 65) := by
  unfold isToPubKey at h
  split_ifs at h with h35 h67
  · simp only [Bool.and_eq_true, Bool.or_eq_true, beq_iff_eq, decide_eq_true_eq] at h35
    obtain ⟨⟨⟨hlen, h0⟩, h34⟩, h1⟩ := h35
    exact .inl ⟨hlen, h0, h34, h1, (Option.some.inj h).symm⟩
  · simp only [Bool.and_eq_true, beq_iff_eq, decide_eq_true_eq] at h67
    obtain ⟨⟨⟨hlen, h0⟩, h66⟩, h1⟩ := h67
    by_cases hvalid : C.isFullyValidPubKey ((s.drop 1).take 65) = true
    · rw [if_pos hvalid] at h
      exact .inr ⟨hlen, h0, h66, h1, (Option.some.inj h) ▸ hvalid, (Option.some.inj h).symm⟩
    · rw [if_neg hvalid] at h
      cases h

/-- `Decompress` gives back every script `Compress` shortens. -/
theorem read_compressScript (hC : DecompressRecovers C) {s : CScript} {compr : Bytes}
    (h : compressScript C s = some compr) (rest : Bytes) :
    (unserScriptCompressed C).run (compr ++ rest) = some (s, rest) := by
  unfold compressScript at h
  by_cases hkey : isPayToPublicKeyHash s = true
  · -- tag 0: the key hash
    rw [if_pos hkey] at h
    cases h
    have hlen : s.length = 25 := by
      simp only [isPayToPublicKeyHash, Bool.and_eq_true, beq_iff_eq] at hkey
      exact hkey.1.1.1.1.1
    rw [unserScriptCompressed_special C (by decide) (by simp [hlen, getSpecialSize]) rest]
    rw [show (0x00 : UInt8).toNat = 0 from rfl, decompressScript_keyHash C hkey]
    rfl
  rw [if_neg hkey] at h
  by_cases hsh : isPayToScriptHash s = true
  · -- tag 1: the script hash
    rw [if_pos hsh] at h
    cases h
    have hlen : s.length = 23 := by
      simp only [isPayToScriptHash, Bool.and_eq_true, beq_iff_eq] at hsh
      exact hsh.1.1.1
    rw [unserScriptCompressed_special C (by decide) (by simp [hlen, getSpecialSize]) rest]
    rw [show (0x01 : UInt8).toNat = 1 from rfl, decompressScript_scriptHash C hsh]
    rfl
  rw [if_neg hsh] at h
  cases hpk : isToPubKey C s with
  | none => rw [hpk] at h; cases h
  | some pubkey =>
    rw [hpk] at h
    dsimp only at h
    rcases isToPubKey_eq_some C hpk with ⟨hlen, h0, h34, h1, rfl⟩ | ⟨hlen, h0, h66, h1, hvalid, rfl⟩
    · -- tags 2 and 3: a compressed key, kept whole
      have hfirst : byteAt ((s.drop 1).take 33) 0 = byteAt s 1 := by rw [byteAt_take (by omega), byteAt_drop]
      have hx : (((s.drop 1).take 33).drop 1).take 32 = (s.drop 2).take 32 := by
        simp [List.drop_take, List.take_take]
      rw [hfirst, hx, if_pos (by rcases h1 with h1 | h1 <;> simp [h1])] at h
      cases h
      have htag : (byteAt s 1).toNat < 6 := by rcases h1 with h1 | h1 <;> simp [h1]
      rw [unserScriptCompressed_special C htag (by rcases h1 with h1 | h1 <;> simp [h1, hlen, getSpecialSize]) rest,
        decompressScript_pubKey C hlen h0 h34 h1]
      rfl
    · -- tags 4 and 5: an uncompressed key, by its `x` coordinate and the parity of its `y`
      have hfirst : byteAt ((s.drop 1).take 65) 0 = byteAt s 1 := by rw [byteAt_take (by omega), byteAt_drop]
      have hlast : byteAt ((s.drop 1).take 65) 64 = byteAt s 65 := by rw [byteAt_take (by omega), byteAt_drop]
      have hx : (((s.drop 1).take 65).drop 1).take 32 = (s.drop 2).take 32 := by
        simp [List.drop_take, List.take_take]
      rw [hfirst, hlast, hx, h1, if_neg (by decide), if_pos (by decide)] at h
      cases h
      obtain ⟨h45, -⟩ := uncompressedTag (byteAt s 65)
      have hinput : ((s.drop 2).take 32).length = getSpecialSize (0x04 ||| (byteAt s 65 &&& 0x01)).toNat := by
        rcases h45 with h45 | h45 <;> simp [h45, hlen, getSpecialSize]
      rw [unserScriptCompressed_special C (by omega) hinput rest,
        decompressScript_uncompressed C hC hlen h0 h66 h1 hvalid]
      rfl

/-- Every script the reader does not skip comes back. -/
theorem unserScriptCompressed_serScriptCompressed (hC : DecompressRecovers C) {s : CScript}
    (hs : s.length ≤ MAX_SCRIPT_SIZE) (rest : Bytes) :
    (unserScriptCompressed C).run (serScriptCompressed C s ++ rest) = some (s, rest) := by
  unfold serScriptCompressed
  cases hc : compressScript C s with
  | some compr => exact read_compressScript C hC hc rest
  | none => exact unserScriptCompressed_raw C hs rest

/-- An output comes back when its amount's code fits and its script is kept. -/
theorem unserTxOutCompressed_serTxOutCompressed (hC : DecompressRecovers C) {out : CTxOut}
    (hvalue : 9 * out.nValue.toUInt64.toNat < 2 ^ 64) (hscript : out.scriptPubKey.length ≤ MAX_SCRIPT_SIZE)
    (rest : Bytes) :
    (unserTxOutCompressed C).run (serTxOutCompressed C out ++ rest) = some (out, rest) := by
  have hval := readVarInt_writeVarInt UINT64_MAX (compressAmount out.nValue.toUInt64).toNat
    (by have := (compressAmount out.nValue.toUInt64).toNat_lt; unfold UINT64_MAX; omega)
    (serScriptCompressed C out.scriptPubKey ++ rest)
  have hs := unserScriptCompressed_serScriptCompressed C hC hscript rest
  unfold serTxOutCompressed unserTxOutCompressed
  rw [List.append_assoc]
  simp only [StateT.run_bind, hval, Option.bind_eq_bind, Option.bind_some, hs, StateT.run_pure,
    Option.pure_def, UInt64.ofNat_toNat, decompressAmount_compressAmount _ hvalue, Int64.toInt64_toUInt64]

end ScriptCompression

section UndoRecords

/-- The coin an undo record gives back for `coin`: its output, height and
coin-base flag, with the coin-stake flag and the time of `Coin()`. -/
def Coin.undoImage (coin : Coin) : Coin := { coin with fCoinStake := false, nTime := 0 }

def CTxUndo.undoImage (txundo : CTxUndo) : CTxUndo := ⟨txundo.vprevout.map Coin.undoImage⟩

def CBlockUndo.undoImage (blockundo : CBlockUndo) : CBlockUndo := ⟨blockundo.vtxundo.map CTxUndo.undoImage⟩

/-- What the undo format needs of a coin to give it back: a height whose code
fits in `int`, an amount whose compressed code fits in `uint64_t`, and a script
that the reader does not skip. -/
structure UndoEncodable (coin : Coin) : Prop where
  height_lt : coin.nHeight < 2 ^ 30
  amount_lt : 9 * coin.out.nValue.toUInt64.toNat < 2 ^ 64
  script_le : coin.out.scriptPubKey.length ≤ MAX_SCRIPT_SIZE

instance (coin : Coin) : Decidable (UndoEncodable coin) :=
  decidable_of_iff (coin.nHeight < 2 ^ 30 ∧ 9 * coin.out.nValue.toUInt64.toNat < 2 ^ 64 ∧
      coin.out.scriptPubKey.length ≤ MAX_SCRIPT_SIZE)
    ⟨fun ⟨h1, h2, h3⟩ => ⟨h1, h2, h3⟩, fun h => ⟨h.height_lt, h.amount_lt, h.script_le⟩⟩

/-- What the undo format needs of a block's record: counts that the readers
accept, and coins it can give back. -/
structure CBlockUndo.Encodable (blockundo : CBlockUndo) : Prop where
  count_le : blockundo.vtxundo.length ≤ MAX_SIZE
  inputs_le : ∀ txundo ∈ blockundo.vtxundo,
    txundo.vprevout.length ≤ MAX_BLOCK_WEIGHT / MIN_TRANSACTION_INPUT_WEIGHT
  coins : ∀ txundo ∈ blockundo.vtxundo, ∀ coin ∈ txundo.vprevout, UndoEncodable coin

/-- A coin rebuilt from its output, height and coin-base flag alone. -/
theorem Coin.make_undoImage (coin : Coin) :
    Coin.make coin.out coin.nHeight coin.fCoinBase false 0 = coin.undoImage := by
  obtain ⟨out, fCoinBase, fCoinStake, nTime, nHeight, hlt⟩ := coin
  simp only [Coin.make, Coin.undoImage, Coin.mk.injEq, true_and]
  omega

/-- A block's record whose coins carry what `Coin()` gives them: no coin-stake
flag and no time. -/
def CBlockUndo.Plain (blockundo : CBlockUndo) : Prop :=
  ∀ txundo ∈ blockundo.vtxundo, ∀ coin ∈ txundo.vprevout, coin.fCoinStake = false ∧ coin.nTime = 0

instance (blockundo : CBlockUndo) : Decidable blockundo.Plain := by
  unfold CBlockUndo.Plain
  infer_instance

theorem Coin.undoImage_eq_self {coin : Coin} (h : coin.fCoinStake = false ∧ coin.nTime = 0) :
    coin.undoImage = coin := by
  obtain ⟨out, fCoinBase, fCoinStake, nTime, nHeight, hlt⟩ := coin
  obtain ⟨rfl, rfl⟩ := h
  rfl

theorem CBlockUndo.undoImage_eq_self {blockundo : CBlockUndo} (h : blockundo.Plain) :
    blockundo.undoImage = blockundo := by
  -- each transaction's record, and in it each coin, is its own image
  have htx : ∀ txundo ∈ blockundo.vtxundo, txundo.undoImage = txundo := by
    intro txundo htx
    have hcoins : txundo.vprevout.map Coin.undoImage = txundo.vprevout :=
      (List.map_congr_left fun coin hcoin => Coin.undoImage_eq_self (h txundo htx coin hcoin)).trans
        (List.map_id' _)
    simp only [CTxUndo.undoImage, hcoins]
  have hvtx : blockundo.vtxundo.map CTxUndo.undoImage = blockundo.vtxundo :=
    (List.map_congr_left htx).trans (List.map_id' _)
  simp only [CBlockUndo.undoImage, hvtx]

variable (C : Crypto) (hC : DecompressRecovers C)
include hC

/-- A coin's undo record: its code, the version byte above height zero, and its output. -/
theorem unserTxInUndo_serTxInUndo {coin : Coin} (h : UndoEncodable coin) (rest : Bytes) :
    (unserTxInUndo C).run (serTxInUndo C coin ++ rest) = some (coin.undoImage, rest) := by
  have hcb : (if coin.fCoinBase then 1 else 0) ≤ 1 := by split <;> omega
  have hlt := h.height_lt
  have hfits : coin.nHeight * 2 + (if coin.fCoinBase then 1 else 0) ≤ INT32_MAX := by
    unfold INT32_MAX; omega
  have hcode := readVarInt_writeVarInt UINT32_MAX (coin.nHeight * 2 + if coin.fCoinBase then 1 else 0)
    (by unfold UINT32_MAX; unfold INT32_MAX at hfits; omega)
  have hheight : (coin.nHeight * 2 + if coin.fCoinBase then 1 else 0) / 2 = coin.nHeight := by omega
  have hflag : ((coin.nHeight * 2 + if coin.fCoinBase then 1 else 0) % 2 == 1) = coin.fCoinBase := by
    cases coin.fCoinBase <;> simp
  have hout := unserTxOutCompressed_serTxOutCompressed C hC h.amount_lt h.script_le rest
  unfold serTxInUndo
  dsimp only
  rw [if_pos hfits]
  by_cases hpos : coin.nHeight > 0
  · -- the version byte is read as a number and dropped
    have hversion := readVarInt_writeVarInt INT32_MAX 0 (by unfold INT32_MAX; omega)
      (serTxOutCompressed C coin.out ++ rest)
    rw [writeVarInt_of_le (by omega), List.singleton_append, show UInt8.ofNat 0 = 0 from rfl] at hversion
    rw [if_pos hpos]
    simp only [unserTxInUndo, List.append_assoc, StateT.run_bind, hcode, Option.bind_eq_bind,
      Option.bind_some, hheight, if_pos hpos, List.cons_append, List.nil_append, hversion, hout,
      StateT.run_pure, Option.pure_def, hflag, Coin.make_undoImage]
  · rw [if_neg hpos]
    simp only [unserTxInUndo, List.append_assoc, StateT.run_bind, hcode, Option.bind_eq_bind,
      Option.bind_some, hheight, if_neg hpos, List.nil_append, hout, StateT.run_pure, Option.pure_def,
      hflag, Coin.make_undoImage]

/-- A transaction's undo record: the count, then each coin's record. -/
theorem unserTxUndo_serTxUndo {txundo : CTxUndo}
    (hcount : txundo.vprevout.length ≤ MAX_BLOCK_WEIGHT / MIN_TRANSACTION_INPUT_WEIGHT)
    (hcoins : ∀ coin ∈ txundo.vprevout, UndoEncodable coin) (rest : Bytes) :
    (unserTxUndo C).run (serTxUndo C txundo ++ rest) = some (txundo.undoImage, rest) := by
  -- the reader's bound on the count lies below the bound of every size
  have hbound : MAX_BLOCK_WEIGHT / MIN_TRANSACTION_INPUT_WEIGHT ≤ MAX_SIZE := by
    decide
  have hsize : txundo.vprevout.length.toUInt64.toNat = txundo.vprevout.length := by
    rw [UInt64.toNat_ofNat']
    exact Nat.mod_eq_of_lt (by unfold MAX_SIZE at hbound; omega)
  have hcountRead := readCompactSize_write txundo.vprevout.length.toUInt64 (by rw [hsize]; omega)
    ((txundo.vprevout.map (serTxInUndo C)).flatten ++ rest)
  have hrecords := readN_map_flatten (fun coin rest h => unserTxInUndo_serTxInUndo C hC h rest)
    txundo.vprevout rest hcoins
  unfold serTxUndo unserTxUndo
  rw [List.append_assoc]
  simp only [StateT.run_bind, hcountRead, Option.bind_eq_bind, Option.bind_some, hsize,
    if_neg (Nat.not_lt.mpr hcount), hrecords, StateT.run_pure, Option.pure_def]
  rfl

/-- A block's undo record: the count, then each transaction's record. -/
theorem unserBlockUndo_serBlockUndo {blockundo : CBlockUndo} (h : blockundo.Encodable) (rest : Bytes) :
    (unserBlockUndo C).run (serBlockUndo C blockundo ++ rest) = some (blockundo.undoImage, rest) := by
  have hsize : blockundo.vtxundo.length.toUInt64.toNat = blockundo.vtxundo.length := by
    rw [UInt64.toNat_ofNat']
    exact Nat.mod_eq_of_lt (by have := h.count_le; unfold MAX_SIZE at this; omega)
  have hcountRead := readCompactSize_write blockundo.vtxundo.length.toUInt64 (by rw [hsize]; exact h.count_le)
    ((blockundo.vtxundo.map (serTxUndo C)).flatten ++ rest)
  have hrecords := readN_map_flatten
    (p := fun txundo => txundo.vprevout.length ≤ MAX_BLOCK_WEIGHT / MIN_TRANSACTION_INPUT_WEIGHT ∧
      ∀ coin ∈ txundo.vprevout, UndoEncodable coin)
    (fun txundo rest h => unserTxUndo_serTxUndo C hC h.1 h.2 rest) blockundo.vtxundo rest
    fun txundo htx => ⟨h.inputs_le txundo htx, h.coins txundo htx⟩
  unfold serBlockUndo unserBlockUndo
  rw [List.append_assoc]
  simp only [StateT.run_bind, hcountRead, Option.bind_eq_bind, Option.bind_some, hsize, hrecords,
    StateT.run_pure, Option.pure_def]
  rfl

/-- What `UndoReadFromDisk` reads of what `UndoWriteToDisk` wrote is the record
written, with every coin's coin-stake flag and time those of `Coin()`. -/
theorem undoReadFromDisk_undoWriteToDisk {blockundo : CBlockUndo} (h : blockundo.Encodable) :
    undoReadFromDisk C (undoWriteToDisk C blockundo) = some blockundo.undoImage := by
  have hread := unserBlockUndo_serBlockUndo C hC h []
  rw [List.append_nil] at hread
  simp only [undoReadFromDisk, undoWriteToDisk, hread, Option.map_some]

/-- `UndoReadFromDisk` reads back exactly the record `UndoWriteToDisk` wrote,
when the record fits the format and its coins carry no coin-stake metadata. -/
theorem undoReadFromDisk_undoWriteToDisk_plain {blockundo : CBlockUndo} (h : blockundo.Encodable)
    (hplain : blockundo.Plain) :
    undoReadFromDisk C (undoWriteToDisk C blockundo) = some blockundo := by
  rw [undoReadFromDisk_undoWriteToDisk C hC h, CBlockUndo.undoImage_eq_self hplain]

end UndoRecords

section MirrorCurve

/-- A toy curve to run the format on: a valid uncompressed key repeats its `x`
coordinate as its `y`, and decompression rebuilds it from `x`. -/
def mirrorCurve : Crypto :=
  { Crypto.truncating with
    isFullyValidPubKey := fun pubkey => pubkey == 0x04 :: ((pubkey.drop 1).take 32 ++ (pubkey.drop 1).take 32)
    decompressPubKey := fun vch =>
      match vch with
      | tag :: x => if x.length = 32 && tag == 2 + (byteAt x 31 &&& 0x01) then some (0x04 :: (x ++ x)) else none
      | [] => none }

theorem mirrorCurve_decompressRecovers : DecompressRecovers mirrorCurve := by
  intro pubkey hlen _ hvalid
  have hpk : pubkey = 0x04 :: ((pubkey.drop 1).take 32 ++ (pubkey.drop 1).take 32) := by
    simpa [mirrorCurve] using hvalid
  have hxlen : ((pubkey.drop 1).take 32).length = 32 := by simp [hlen]
  -- the last byte of the key is the last byte of `x`
  have hlast : byteAt pubkey 64 = byteAt ((pubkey.drop 1).take 32) 31 := by
    conv_lhs => rw [hpk]
    show byteAt ((pubkey.drop 1).take 32 ++ (pubkey.drop 1).take 32) 63 = _
    rw [byteAt_append_right (by omega), hxlen]
  simp only [mirrorCurve, hxlen, hlast, decide_true, beq_self_eq_true, Bool.and_self, if_true]
  exact congrArg some hpk.symm

/-- A key of the toy curve. -/
def mirrorKey : Bytes := 0x04 :: (List.replicate 32 7 ++ List.replicate 32 7)

/-- The undo record of a block whose one transaction spent an output to a key
hash and a coin base's output to an uncompressed key. -/
def spentCoins : CBlockUndo :=
  ⟨[⟨[Coin.make ⟨COIN, payToPubKeyHash (List.replicate 20 1)⟩ 200000 false false 0,
    Coin.make ⟨5 * COIN, [65] ++ mirrorKey ++ [OP_CHECKSIG]⟩ 100 true false 0]⟩]⟩

theorem spentCoins_read_back :
    (DecompressRecovers mirrorCurve ∧ spentCoins.Encodable ∧ spentCoins.Plain) ∧
      undoReadFromDisk mirrorCurve (undoWriteToDisk mirrorCurve spentCoins) = some spentCoins :=
  have h : DecompressRecovers mirrorCurve ∧ spentCoins.Encodable ∧ spentCoins.Plain :=
    ⟨mirrorCurve_decompressRecovers, ⟨by decide, by decide, by decide⟩, by decide⟩
  ⟨h, undoReadFromDisk_undoWriteToDisk_plain mirrorCurve h.1 h.2.1 h.2.2⟩

end MirrorCurve

end AokChain
