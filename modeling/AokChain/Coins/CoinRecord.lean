import AokChain.Coins.UndoFormat

/-!
# The UTXO record

`Coin::Serialize` and `Coin::Unserialize` of `coins.h`: the chain state keeps
each unspent output as a `VARINT` code that packs the height and the two
flags, the compressed output and the time.  The code is `(nHeight << 2)` plus
the flags in `uint32_t`, while `nHeight` is a 31-bit field, so the top bit of a
height from `2^30` up falls off and the coin reads back `2^30` lower.  The
field is promoted to `int` before the shift, which overflows from `2^29` up;
the model takes the two's-complement result that compilers give.  The output
goes through `CTxOutCompressor`, whose amount code wraps in `uint64_t` for the
amounts near `MAX_MONEY` that this fork admits.
-/

namespace AokChain
open Serial

namespace Coin

variable (C : Crypto)

/-- `Coin::Serialize` of an unspent coin. -/
def serialize (coin : Coin) : Bytes :=
  let code : UInt32 := (UInt32.ofNat coin.nHeight <<< 2) + (if coin.fCoinBase then 1 else 0) +
    (if coin.fCoinStake then 2 else 0)
  writeVarInt code.toNat ++ serTxOutCompressed C coin.out ++ serUInt32 coin.nTime

/-- `Coin::Unserialize`: every field is assigned, the height from `code >> 2`. -/
def unserialize : Reader Coin := do
  let code := (← readVarInt UINT32_MAX).toUInt32
  let out ← unserTxOutCompressed C
  let nTime ← unserUInt32
  pure (make out (code >>> 2).toNat (code &&& 1 == 1) ((code >>> 1) &&& 1 == 1) nTime)

end Coin

section Code

theorem code_toNat (h : ℕ) (b s : Bool) :
    ((UInt32.ofNat h <<< 2) + (if b then 1 else 0) + (if s then 2 else 0)).toNat =
      h * 4 % 2 ^ 32 + (if b then 1 else 0) + (if s then 2 else 0) := by
  have hshift : (UInt32.ofNat h <<< 2).toNat = h * 4 % 2 ^ 32 := by
    simp [UInt32.toNat_shiftLeft, Nat.shiftLeft_eq]
  cases b <;> cases s <;> simp [UInt32.toNat_add, hshift] <;> omega

theorem UInt32.and_one_beq (c : UInt32) : (c &&& 1 == 1) = (c.toNat % 2 == 1) := by
  have hand : (c &&& 1).toNat = c.toNat % 2 := by
    rw [UInt32.toNat_and, UInt32.toNat_one, Nat.and_one_is_mod]
  rw [Bool.eq_iff_iff, beq_iff_eq, beq_iff_eq, ← UInt32.toNat_inj, hand, UInt32.toNat_one]

variable {n h : ℕ} {b s : Bool}

-- The three fields are read from the code's natural-number value: a multiple of
-- four below `2^32` for the height, and the flags in its two low bits.
theorem code_height (hn : n = h * 4 % 2 ^ 32 + (if b then 1 else 0) + (if s then 2 else 0)) :
    (n.toUInt32 >>> 2).toNat = h % 2 ^ 30 := by
  have hlt : n < 2 ^ 32 := by split at hn <;> split at hn <;> omega
  simp only [UInt32.toNat_shiftRight, Nat.toUInt32, UInt32.toNat_ofNat_of_lt' hlt]
  rw [show (2 : UInt32).toNat % 32 = 2 from rfl, Nat.shiftRight_eq_div_pow]
  split at hn <;> split at hn <;> omega

theorem code_coinBase (hn : n = h * 4 % 2 ^ 32 + (if b then 1 else 0) + (if s then 2 else 0)) :
    (n.toUInt32 &&& 1 == 1) = b := by
  have hlt : n < 2 ^ 32 := by split at hn <;> split at hn <;> omega
  rw [UInt32.and_one_beq, Nat.toUInt32, UInt32.toNat_ofNat_of_lt' hlt]
  cases b <;> cases s <;> simp only [if_true, if_false, Bool.false_eq_true] at hn <;> simp <;> omega

theorem code_coinStake (hn : n = h * 4 % 2 ^ 32 + (if b then 1 else 0) + (if s then 2 else 0)) :
    ((n.toUInt32 >>> 1) &&& 1 == 1) = s := by
  have hlt : n < 2 ^ 32 := by split at hn <;> split at hn <;> omega
  rw [UInt32.and_one_beq]
  simp only [UInt32.toNat_shiftRight, Nat.toUInt32, UInt32.toNat_ofNat_of_lt' hlt]
  rw [show (1 : UInt32).toNat % 32 = 1 from rfl, Nat.shiftRight_eq_div_pow]
  cases b <;> cases s <;> simp only [if_true, if_false, Bool.false_eq_true] at hn <;> simp <;> omega

end Code

section RoundTrip

variable (C : Crypto) (hC : DecompressRecovers C)
include hC

/-- A coin whose output the compressor keeps reads back with its fields, the
height taken modulo `2^30`. -/
theorem unserialize_serialize_mod_height {coin : Coin} (hvalue : 9 * coin.out.nValue.toUInt64.toNat < 2 ^ 64)
    (hscript : coin.out.scriptPubKey.length ≤ MAX_SCRIPT_SIZE) (rest : Bytes) :
    (Coin.unserialize C).run (coin.serialize C ++ rest) =
      some (Coin.make coin.out (coin.nHeight % 2 ^ 30 : ℕ) coin.fCoinBase coin.fCoinStake coin.nTime, rest) := by
  have hn := code_toNat coin.nHeight coin.fCoinBase coin.fCoinStake
  have hcode := readVarInt_writeVarInt UINT32_MAX
    ((UInt32.ofNat coin.nHeight <<< 2) + (if coin.fCoinBase then 1 else 0) +
      (if coin.fCoinStake then 2 else 0)).toNat
    (by unfold UINT32_MAX; exact Nat.le_pred_of_lt (UInt32.toNat_lt _))
    (serTxOutCompressed C coin.out ++ serUInt32 coin.nTime ++ rest)
  have hout := unserTxOutCompressed_serTxOutCompressed C hC hvalue hscript (serUInt32 coin.nTime ++ rest)
  have htime := unserUInt32_serUInt32 coin.nTime rest
  unfold Coin.serialize Coin.unserialize
  simp only [List.append_assoc] at hcode ⊢
  simp only [StateT.run_bind, hcode, Option.bind_eq_bind, Option.bind_some, hout, htime, StateT.run_pure,
    Option.pure_def, code_height hn, code_coinBase hn, code_coinStake hn]

end RoundTrip

section RecordFixtures

/-- A coin at height `2^30`, which the 31-bit field holds. -/
def highCoin : Coin := Coin.make ⟨COIN, [OP_1]⟩ (2 ^ 30) false true 1700000000

/-- A coin of `MAX_MONEY`, which `MoneyRange` admits in this fork. -/
def maxMoneyCoin : Coin := Coin.make ⟨MAX_MONEY, [OP_1]⟩ 871000 false false 1700000000

end RecordFixtures

theorem highCoin_reads_back_at_zero :
    (9 * highCoin.out.nValue.toUInt64.toNat < 2 ^ 64 ∧ highCoin.out.scriptPubKey.length ≤ MAX_SCRIPT_SIZE) ∧
      (Coin.unserialize mirrorCurve).run (highCoin.serialize mirrorCurve ++ []) =
        some (Coin.make highCoin.out (highCoin.nHeight % 2 ^ 30 : ℕ) highCoin.fCoinBase highCoin.fCoinStake
          highCoin.nTime, []) ∧
      highCoin.nHeight = 2 ^ 30 ∧
      (Coin.make highCoin.out (highCoin.nHeight % 2 ^ 30 : ℕ) highCoin.fCoinBase highCoin.fCoinStake
        highCoin.nTime).nHeight = 0 ∧
      (Coin.unserialize mirrorCurve).run (maxMoneyCoin.serialize mirrorCurve) ≠ some (maxMoneyCoin, []) :=
  have hvalue : 9 * highCoin.out.nValue.toUInt64.toNat < 2 ^ 64 := by decide
  have hscript : highCoin.out.scriptPubKey.length ≤ MAX_SCRIPT_SIZE := by decide
  ⟨⟨hvalue, hscript⟩, unserialize_serialize_mod_height mirrorCurve mirrorCurve_decompressRecovers hvalue hscript [],
    by decide, by decide, by decide⟩

end AokChain
