import AokChain.Consensus.ConnectProperties
import AokChain.Lib.Int64Sum

/-!
# Amount sums on 64 bits

`CAmount` is `int64_t`, and this fork sets `MAX_MONEY` to `INT64_MAX`, so the
bound on each output no longer keeps a sum of two outputs inside the type.
The running totals of `CheckTransaction` and `CheckTxInputs` are checked after
each addition: their verdict is still the one on exact integers, though the
addition that decides it may already have overflowed.  The fee total of
`ConnectBlock` and the token totals of `CheckTxTokens` are never range checked,
and there the verdict can differ from the exact one.
-/

namespace AokChain
open Serial

section MoneyRange

theorem toInt_MAX_MONEY : MAX_MONEY.toInt = 2 ^ 63 - 1 := Int64.toInt_maxValue

/-- With `MAX_MONEY` the largest value, the range is the non-negative values. -/
theorem moneyRange_iff (x : CAmount) : moneyRange x = true ↔ 0 ≤ x.toInt := by
  have hmax : x ≤ MAX_MONEY := Int64.le_iff_toInt_le.mpr (Int64.toInt_le x)
  simp [moneyRange, hmax, Int64.le_iff_toInt_le]

variable {a b : CAmount}

/-- Adding a value in range to a total in range: the check on the machine sum
passes exactly when the exact sum is within `MAX_MONEY`. -/
theorem moneyRange_add_iff (ha : moneyRange a = true) (hb : moneyRange b = true) :
    moneyRange (a + b) = true ↔ a.toInt + b.toInt ≤ MAX_MONEY.toInt := by
  rw [moneyRange_iff] at ha hb
  rw [moneyRange_iff, Int64Sum.toInt_add_nonneg_iff ha hb, toInt_MAX_MONEY]
  omega

/-- Past the check, the machine sum is the exact one. -/
theorem toInt_add_of_moneyRange (ha : moneyRange a = true) (hb : moneyRange b = true)
    (hs : moneyRange (a + b) = true) : (a + b).toInt = a.toInt + b.toInt := by
  have hexact := (moneyRange_add_iff ha hb).mp hs
  rw [moneyRange_iff] at ha hb
  exact Int64Sum.toInt_add_of_lt ha hb (by rw [toInt_MAX_MONEY] at hexact; omega)

end MoneyRange

/-- Two outputs of `MAX_MONEY`: each is in range, their sum is not. -/
def doubleMaxTx : CTransaction := spendTx [outX1] [⟨MAX_MONEY, stakerScript⟩, ⟨MAX_MONEY, stakerScript⟩]

section OutputsExact

variable (ctx : TxContext)

/-- The output loop of `CheckTransaction` on unbounded integers: the same
checks, with the exact running total held to `MAX_MONEY`. -/
def checkOutputsExact (tx : CTransaction) (fTokenCache : Bool) : Int → List CTxOut → Check
  | _, [] => pure ()
  | nValueOut, txout :: vout => do
    require (!(txout.isEmpty && !tx.isCoinBase && !tx.isCoinStake)) 100 REJECT_INVALID
      "bad-txns-vout-empty" false
    require (txout.nValue ≥ 0) 100 REJECT_INVALID "bad-txns-vout-negative" false
    require (txout.nValue ≤ MAX_MONEY) 100 REJECT_INVALID "bad-txns-vout-toolarge" false
    let nValueOut := nValueOut + txout.nValue.toInt
    require (0 ≤ nValueOut && nValueOut ≤ MAX_MONEY.toInt) 100 REJECT_INVALID
      "bad-txns-txouttotal-toolarge" false
    require (!(isOfflineStaking txout.scriptPubKey && !ctx.governanceDeployed)) 100 REJECT_INVALID
      "offline-staking-not-enabled" false
    checkTokenOutput ctx fTokenCache txout
    checkOutputsExact tx fTokenCache nValueOut vout

/-- The output loop decides on the exact running total: from a total in range,
it returns what the loop on unbounded integers returns. -/
theorem checkOutputsFrom_exact (tx : CTransaction) (fTokenCache : Bool) :
    ∀ (vout : List CTxOut) (nValueOut : CAmount), moneyRange nValueOut = true →
      checkOutputsFrom ctx tx fTokenCache nValueOut vout =
        checkOutputsExact ctx tx fTokenCache nValueOut.toInt vout
  | [], _, _ => rfl
  | txout :: vout, nValueOut, hacc => by
    simp only [checkOutputsFrom, checkOutputsExact]
    -- the guards before the sum are the same; past them the output is in range
    refine require_bind_congr rfl fun _ => ?_
    refine require_bind_congr rfl fun hneg => ?_
    refine require_bind_congr rfl fun hmax => ?_
    have hout : moneyRange txout.nValue = true := by
      simp only [moneyRange, Bool.and_eq_true]
      exact ⟨hneg, hmax⟩
    have hsum : moneyRange (nValueOut + txout.nValue) =
        (0 ≤ nValueOut.toInt + txout.nValue.toInt && nValueOut.toInt + txout.nValue.toInt ≤ MAX_MONEY.toInt) := by
      rw [Bool.eq_iff_iff, moneyRange_add_iff hacc hout]
      rw [moneyRange_iff] at hacc hout
      simp only [Bool.and_eq_true, decide_eq_true_eq]
      omega
    refine require_bind_congr hsum fun hs => ?_
    refine require_bind_congr rfl fun _ => ?_
    have hs' : moneyRange (nValueOut + txout.nValue) = true := hsum.trans hs
    rw [← toInt_add_of_moneyRange hacc hout hs', checkOutputsFrom_exact tx fTokenCache vout _ hs']

theorem doubleMax_outputs_exact :
    moneyRange (0 : CAmount) = true ∧
      checkOutputsFrom (tipNode 99).tx doubleMaxTx true 0 doubleMaxTx.vout =
        checkOutputsExact (tipNode 99).tx doubleMaxTx true (0 : CAmount).toInt doubleMaxTx.vout :=
  have hzero : moneyRange (0 : CAmount) = true := by decide
  ⟨hzero, checkOutputsFrom_exact (tipNode 99).tx doubleMaxTx true doubleMaxTx.vout 0 hzero⟩

end OutputsExact

/-- Two coins of `MAX_MONEY` each. -/
def maxView : CCoinsMap :=
  viewOf [(outX1, Coin.make ⟨MAX_MONEY, stakerScript⟩ 1 true false 0),
    (outX2, Coin.make ⟨MAX_MONEY, stakerScript⟩ 1 true false 0)]

/-- A block whose two spends each pay their whole coin as fee. -/
def feeBlock : CBlock :=
  fixtureBlock [earlyCoinbase, spendTx [outX1] [⟨0, stakerScript⟩], spendTx [outX2] [⟨0, ownerScript⟩]] []

set_option maxRecDepth 10000 in
/-- `CheckTransaction` rejects two outputs of `MAX_MONEY` as the exact total
demands, after an addition whose exact result leaves `int64_t`; and the fee
total of `ConnectBlock` wraps, so that a coin base within the exact reward is
rejected. -/
theorem maxMoney_sums_overflow :
    rejectReason (checkTransaction (tipNode 99).tx doubleMaxTx (some passIssuance) true) =
        some "bad-txns-txouttotal-toolarge" ∧
      Int64.maxValue.toInt < MAX_MONEY.toInt + MAX_MONEY.toInt ∧
      rejectReason (connectBlock (acceptingEnv acceptAll) (tipNode 99) passTokensCache feeBlock 100 maxView
          CGovernance.empty false false).1 = some "bad-cb-amount" ∧
      (earlyCoinbase.vout.map fun out => out.nValue.toInt).sum ≤
        2 * MAX_MONEY.toInt + (getBlockSubsidy 100 mainConsensus).toInt :=
  ⟨by decide, by decide, by decide, by decide⟩

section TokenFixtures

def abcName : Bytes := [65, 66, 67]

/-- A transfer of `amount` of the token ABC to the staker. -/
def abcTransfer (amount : CAmount) : CTxOut :=
  ⟨0, CTokenTransfer.constructTransaction ⟨abcName, amount, 0⟩ stakerScript⟩

def tokenOut : COutPoint := ⟨21, 0⟩

/-- One unit of ABC. -/
def tokenView : CCoinsMap := viewOf [(tokenOut, Coin.make (abcTransfer 1) 200000 false false 0)]

/-- A token cache in which ABC exists, divisible to the smallest unit. -/
def abcCache : CTokensCacheView :=
  ⟨fun name => if name = abcName then some ⟨abcName, 1, 8, 0, 0, []⟩ else none, fun _ => .ok ()⟩

/-- The exact amount of the token `name` that the outputs `vout` transfer. -/
def transferTotal (name : Bytes) (vout : List CTxOut) : Int :=
  (((vout.filterMap fun out => transferTokenFromScript out.scriptPubKey).filter fun t => t.strName == name).map
    fun t => t.nAmount.toInt).sum

/-- One unit of ABC spent into four transfers whose `int64_t` sum wraps to one. -/
def wrapTx : CTransaction :=
  spendTx [tokenOut] [abcTransfer (2 ^ 62), abcTransfer (2 ^ 62), abcTransfer (2 ^ 62), abcTransfer (2 ^ 62 + 1)]

end TokenFixtures

set_option maxRecDepth 10000 in
/-- The transaction passes `CheckTransaction` with a token cache and
`CheckTxTokens` with the cache's checks, while it spends one unit of ABC and
transfers `2 ^ 64 + 1`. -/
theorem wrappedTransfers_balance :
    (checkTransaction (tipNode 871499).tx wrapTx (some passIssuance) true).toBool = true ∧
      (checkTxTokens Crypto.truncating wrapTx tokenView 871500 blockTime.toNat false (some abcCache)
          fun _ => none).toBool = true ∧
      transferTotal abcName (wrapTx.vin.map fun txin => (tokenView.accessCoin txin.prevout).out) = 1 ∧
      transferTotal abcName wrapTx.vout = 2 ^ 64 + 1 :=
  ⟨by decide, by decide, by decide, by decide⟩

end AokChain
