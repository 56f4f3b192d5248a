import AokChain.Wallet.CreateTransaction

/-!
# What the fee loop builds

Each pass of `CreateTransactionAll`'s fee loop rebuilds the outputs and the
inputs from what the passes hand on.  The lemmas below say, for every pass that
finishes, which scripts the outputs carry and which coins the inputs spend, and
carry that through the whole loop by induction on the fuel: the transaction the
loop returns is the one its last pass built.

A pass that does not pick new inputs keeps the token coins of an earlier
selection but starts `mapTokensIn` empty, so it builds no token change.
-/

namespace AokChain
namespace Wallet
open Serial

theorem filter_insertIdx_of_neg {α : Type} (p : α → Bool) (x : α) (hx : p x = false) :
    ∀ (l : List α) (i : ℕ), (l.insertIdx i x).filter p = l.filter p
  | l, 0 => by simp [hx]
  | [], _ + 1 => rfl
  | a :: l, i + 1 => by
    simp only [List.insertIdx_succ_cons, List.filter_cons, filter_insertIdx_of_neg p x hx l i]

theorem map_modify_of_comp {α β : Type} (g : α → β) (f : α → α) (hf : ∀ a, g (f a) = g a) :
    ∀ (l : List α) (i : ℕ), (l.modify i f).map g = l.map g
  | [], _ => by simp
  | a :: l, 0 => by simp [hf]
  | a :: l, i + 1 => by simp [map_modify_of_comp g f hf l i]

@[simp] theorem tokenChange_nil (mapTokenValue : TokenTotals) : tokenChange mapTokenValue [] = [] := by
  simp [tokenChange, OrderedMap.find?]

section Pass

variable (env : WalletEnv)

theorem payeeOutput_script {nFeeRet : CAmount} {n : ℕ} {fFirst : Bool} {recipient : CRecipient}
    {txout : CTxOut} {fFirst' : Bool} (h : payeeOutput env nFeeRet n fFirst recipient = .ok (txout, fFirst')) :
    txout.scriptPubKey = recipient.scriptPubKey := by
  simp only [payeeOutput] at h
  split at h
  · cases h
  · cases h
    rfl

theorem payeeOutputs_scripts {nFeeRet : CAmount} {n : ℕ} :
    ∀ {fFirst : Bool} {vecSend : List CRecipient} {vout : List CTxOut},
      payeeOutputs env nFeeRet n fFirst vecSend = .ok vout →
        vout.map CTxOut.scriptPubKey = vecSend.map CRecipient.scriptPubKey
  | _, [], vout, h => by
    cases h
    rfl
  | fFirst, recipient :: vecSend, vout, h => by
    simp only [payeeOutputs] at h
    obtain ⟨⟨txout, fFirst'⟩, hout, h⟩ := Except.bind_eq_ok.mp h
    obtain ⟨rest, hrest, h⟩ := Except.bind_eq_ok.mp h
    cases h
    simp [payeeOutput_script env hout, payeeOutputs_scripts hrest]

/-- What the end of a pass leaves as the pass built it: whether to pick new
inputs and the coins picked. -/
structure SameInputs (st st' : FeeLoopState) : Prop where
  pick_new_inputs : st'.pick_new_inputs = st.pick_new_inputs
  setCoins : st'.setCoins = st.setCoins
  setTokens : st'.setTokens = st.setTokens

theorem SameInputs.rfl {st : FeeLoopState} : SameInputs st st := ⟨Eq.refl _, Eq.refl _, Eq.refl _⟩

@[simp] theorem pickInputs_of_not_pick {mapTokenCoins : List (Bytes × List COutput)} {mapTokenValue : TokenTotals}
    {nValueToSelect : CAmount} {st : FeeLoopState} (hpick : st.pick_new_inputs = false) :
    pickInputs env mapTokenCoins mapTokenValue nValueToSelect st = .ok (st, []) := by
  simp [pickInputs, hpick]

theorem pickInputs_pick {mapTokenCoins : List (Bytes × List COutput)} {mapTokenValue : TokenTotals}
    {nValueToSelect : CAmount} {st picked : FeeLoopState} {mapTokensIn : TokenTotals}
    (h : pickInputs env mapTokenCoins mapTokenValue nValueToSelect st = .ok (picked, mapTokensIn)) :
    picked.pick_new_inputs = st.pick_new_inputs := by
  unfold pickInputs at h
  split at h
  · split at h
    · cases h
    · split at h
      · split at h
        · cases h
        · cases h
          rfl
      · cases h
        rfl
  · cases h
    rfl

/-- The change output is not a token output, so inserting it leaves the token
outputs as they were. -/
theorem insertChange_filter {p : CScript → Bool} {scriptChange : CScript} (hp : p scriptChange = false)
    {nChangePosRequest : Int} {nChange nFeeRet : CAmount} {vout vout' : List CTxOut} {pos : Int} {fee : CAmount}
    (h : insertChange env scriptChange nChangePosRequest nChange nFeeRet vout = .ok (vout', pos, fee)) :
    (vout'.map CTxOut.scriptPubKey).filter p = (vout.map CTxOut.scriptPubKey).filter p := by
  simp only [insertChange] at h
  split_ifs at h <;> cases h <;> simp [List.map_insertIdx, filter_insertIdx_of_neg p _ hp]

theorem fillVin_prevouts : ∀ {coins : List CInputCoin} {nLockTime : UInt32} {vin : List CTxIn} {nLockTime' : UInt32},
    fillVin env coins nLockTime = .ok (vin, nLockTime') → vin.map CTxIn.prevout = coins.map CInputCoin.outpoint
  | [], _, _, _, h => by
    cases h
    rfl
  | coin :: coins, nLockTime, vin, nLockTime', h => by
    simp only [fillVin] at h
    obtain ⟨nLockTime₁, -, h⟩ := Except.bind_eq_ok.mp h
    obtain ⟨⟨vin₁, nLockTime₂⟩, hrest, h⟩ := Except.bind_eq_ok.mp h
    cases h
    simp [fillVin_prevouts hrest]

@[simp] theorem modifyChange_vin (txNew : CTransaction) (pos : Int) (f : CAmount → CAmount) :
    (modifyChange txNew pos f).vin = txNew.vin := rfl

@[simp] theorem modifyChange_scripts (txNew : CTransaction) (pos : Int) (f : CAmount → CAmount) :
    (modifyChange txNew pos f).vout.map CTxOut.scriptPubKey = txNew.vout.map CTxOut.scriptPubKey :=
  map_modify_of_comp CTxOut.scriptPubKey (fun txout => { txout with nValue := f txout.nValue }) (fun _ => Eq.refl _)
    txNew.vout _

/-- A pass that ends changes at most the value of the change output and the fee. -/
theorem feeDecision_done {inp : FeeLoopInput} {st st' : FeeLoopState} {txNew txNew' : CTransaction}
    {pos pos' : Int} (h : feeDecision env inp st txNew pos = .ok (.done st' txNew' pos')) :
    SameInputs st st' ∧ txNew'.vout.map CTxOut.scriptPubKey = txNew.vout.map CTxOut.scriptPubKey ∧
      txNew'.vin = txNew.vin := by
  simp only [feeDecision] at h
  split_ifs at h <;> cases h <;> exact ⟨⟨Eq.refl _, Eq.refl _, Eq.refl _⟩, by simp, by simp⟩

/-- A pass that ends: the coins it spends are those it picked, or kept, and its
token outputs are the recipients', the token change of what it picked, and the
issuance's. -/
theorem feePass_done {inp : FeeLoopInput} {st st' : FeeLoopState} {txNew : CTransaction} {pos : Int}
    (hchange : isTransferToken inp.scriptChange = false) (h : feePass env inp st = .ok (.done st' txNew pos)) :
    ∃ nValueToSelect picked mapTokensIn,
      pickInputs env inp.mapTokenCoins inp.mapTokenValue nValueToSelect st = .ok (picked, mapTokensIn) ∧
        SameInputs picked st' ∧
        (txNew.vout.map CTxOut.scriptPubKey).filter isTransferToken =
          (inp.req.vecSend.map CRecipient.scriptPubKey ++
            if env.selectConfig.areTokensDeployed then
              (tokenChangeOutputs inp.scriptChange (tokenChange inp.mapTokenValue mapTokensIn) ++
                issuanceOutputs inp.req).map CTxOut.scriptPubKey
            else []).filter isTransferToken ∧
        txNew.vin.map CTxIn.prevout =
          (picked.setCoins ++ if env.selectConfig.areTokensDeployed then picked.setTokens else []).map
            CInputCoin.outpoint := by
  simp only [feePass] at h
  obtain ⟨payees, hpay, h⟩ := Except.bind_eq_ok.mp h
  obtain ⟨⟨picked, mapTokensIn⟩, hpick, h⟩ := Except.bind_eq_ok.mp h
  obtain ⟨⟨vout, pos₀, nFeeRet⟩, hins, h⟩ := Except.bind_eq_ok.mp h
  obtain ⟨⟨vinCoins, nLockTime⟩, hvin, h⟩ := Except.bind_eq_ok.mp h
  obtain ⟨hsame, hscripts, hvin'⟩ := feeDecision_done env h
  refine ⟨_, picked, mapTokensIn, hpick, ⟨hsame.1, hsame.2, hsame.3⟩, ?_, ?_⟩
  · have hfilter := insertChange_filter env hchange hins
    rw [hscripts]
    cases hd : env.selectConfig.areTokensDeployed <;>
      simp_all [List.filter_append, payeeOutputs_scripts env hpay]
  · rw [hvin']
    cases env.selectConfig.areTokensDeployed <;> simp [fillVin_prevouts env hvin]

/-- The loop returns what its last pass built. -/
theorem feeLoop_lastPass {inp : FeeLoopInput} :
    ∀ {fuel : ℕ} {st st' : FeeLoopState} {txNew : CTransaction} {pos : Int},
      feeLoop env inp fuel st = some (.ok (st', txNew, pos)) → ∃ st₀, feePass env inp st₀ = .ok (.done st' txNew pos)
  | 0, _, _, _, _, h => by cases h
  | fuel + 1, st, st', txNew, pos, h => by
    simp only [feeLoop] at h
    split at h
    next => cases h
    next st₁ txNew₁ pos₁ hpass =>
      cases h
      exact ⟨st, hpass⟩
    next => exact feeLoop_lastPass h

theorem feeLoop_drops_token_change {inp : FeeLoopInput} {fuel : ℕ} {st st' : FeeLoopState}
    {txNew : CTransaction} {pos : Int} (hdeployed : env.selectConfig.areTokensDeployed = true)
    (hchange : isTransferToken inp.scriptChange = false) (h : feeLoop env inp fuel st = some (.ok (st', txNew, pos)))
    (hpick : st'.pick_new_inputs = false) :
    (txNew.vout.map CTxOut.scriptPubKey).filter isTransferToken =
        (inp.req.vecSend.map CRecipient.scriptPubKey ++ (issuanceOutputs inp.req).map CTxOut.scriptPubKey).filter
          isTransferToken ∧
      txNew.vin.map CTxIn.prevout = (st'.setCoins ++ st'.setTokens).map CInputCoin.outpoint := by
  obtain ⟨st₀, hpass⟩ := feeLoop_lastPass env h
  obtain ⟨_, picked, mapTokensIn, hpickIn, hsame, hout, hin⟩ := feePass_done env hchange hpass
  -- the last pass picked nothing: it kept the coins, and mapTokensIn stayed empty
  have hst₀ : st₀.pick_new_inputs = false := by
    rw [← pickInputs_pick env hpickIn, ← hsame.pick_new_inputs, hpick]
  rw [pickInputs_of_not_pick env hst₀] at hpickIn
  obtain ⟨rfl, rfl⟩ : st₀ = picked ∧ [] = mapTokensIn := by simpa using hpickIn
  refine ⟨?_, ?_⟩
  · simpa [hdeployed, tokenChangeOutputs] using hout
  · simpa [hdeployed, hsame.setCoins, hsame.setTokens] using hin

end Pass

section Fixtures

/-- A transfer of `ABC` to a key hash. -/
def abcTransfer (nAmount : CAmount) (keyID : Bytes) : CScript :=
  CTokenTransfer.constructTransaction ⟨[65, 66, 67], nAmount, 0⟩ (payToPubKeyHash keyID)

/-- The wallet's coin of 8 `ABC`, six blocks deep. -/
def abcCoin : COutput := ⟨1, true, 0, ⟨0, abcTransfer 800000000 (List.replicate 20 4)⟩, 6, true⟩

/-- The wallet's coin of 3 COIN. -/
def btcCoin : CInputCoin := ⟨⟨2, 0⟩, ⟨300000000, payToPubKeyHash (List.replicate 20 4)⟩⟩

/-- A wallet whose coin selection picks `btcCoin` for any target it covers, with
ten satoshis a byte of fee, a fixed size per input and per output, and the
first of every random range. -/
def burnEnv : WalletEnv where
  selectConfig := ⟨true, false, false, 25⟩
  mapTx _ := none
  tokenChoices _ _ := keepOrder
  mapTokenCoins := [([65, 66, 67], [abcCoin])]
  selectCoins nTarget := if nTarget ≤ 300000000 then some ([btcCoin], 300000000) else none
  scriptChange := .ok (payToPubKeyHash (List.replicate 20 3))
  height := 100
  nTime := 0
  getRandInt n := ⟨0, Nat.succ_pos n⟩
  dustThreshold _ := 546
  discardThreshold _ := 546
  changePrototypeSize := 34
  virtualSize tx := 10 + 150 * tx.vin.length + 40 * tx.vout.length
  getMinimumFee nBytes := Int64.ofNat (10 * nBytes)
  minRelayFee nBytes := Int64.ofNat nBytes
  keystore := ⟨fun _ => false, fun _ => none, fun _ => none, fun _ => false, fun _ => false⟩
  medianTimePast := 0
  produceSignature _ _ _ := some ([], [])
  transactionWeight tx := 4 * (10 + 150 * tx.vin.length + 40 * tx.vout.length)
  fRejectLongChains := false
  chainLimitsOK _ := true

/-- 5 `ABC` to one key, and 1 COIN to another that pays the fee. -/
def burnRecipients : List CRecipient :=
  [⟨abcTransfer 500000000 (List.replicate 20 1), 0, false⟩, ⟨payToPubKeyHash (List.replicate 20 2), 100000000, true⟩]

/-- What `CreateTransactionWithTransferToken` hands to `CreateTransactionAll`. -/
def burnRequest : CreateRequest :=
  ⟨burnRecipients, [], -1, false, [CNewToken.null], [], false, true, false, CReissueToken.null, .INVALID, true⟩

def burnInput : FeeLoopInput :=
  ⟨burnRequest, 100000000, [([65, 66, 67], 500000000)], 1, burnEnv.mapTokenCoins, payToPubKeyHash (List.replicate 20 3), 1⟩

/-- After the second pass: the fee is 4700, and the coins are those the first pass picked. -/
def burnState : FeeLoopState := ⟨4700, false, 300000000, [btcCoin], [abcCoin.coin], 100⟩

/-- The transaction built: both coins spent, the change, the 5 `ABC` and the
1 COIN less the fee, and no `ABC` change. -/
def burntTx : CTransaction :=
  ⟨[⟨btcCoin.outpoint, [], SEQUENCE_FINAL - 1, []⟩, ⟨abcCoin.coin.outpoint, [], SEQUENCE_FINAL - 1, []⟩],
    [⟨200000000, payToPubKeyHash (List.replicate 20 3)⟩, ⟨0, abcTransfer 500000000 (List.replicate 20 1)⟩,
      ⟨99995300, payToPubKeyHash (List.replicate 20 2)⟩], 1, 100, 0, []⟩

/-- The coins spent, as the chain holds them. -/
def burnCoins : CCoinsMap :=
  ((∅ : CCoinsMap).insert btcCoin.outpoint (Coin.make btcCoin.txout 50 false false 0)).insert
    abcCoin.coin.outpoint (Coin.make abcCoin.txout 50 false false 0)

/-- A token cache that knows `ABC`, of units 0. -/
def abcCache : CTokensCacheView :=
  ⟨fun name => if name = [65, 66, 67] then some ⟨[65, 66, 67], 2100000000000000, 0, 0, 0, []⟩ else none,
    fun _ => .ok ()⟩

end Fixtures

theorem subtractFee_burns_token_change :
    createTransactionWithTransferToken burnEnv burnRecipients [] (-1) true 2 = some (.ok (burntTx, 4700, 0)) ∧
      prepare burnEnv burnRequest = .ok (burnInput, 100) ∧
      ((burntTx.vout.map CTxOut.scriptPubKey).filter isTransferToken =
          (burnRecipients.map CRecipient.scriptPubKey ++ (issuanceOutputs burnRequest).map CTxOut.scriptPubKey).filter
            isTransferToken ∧
        burntTx.vin.map CTxIn.prevout = ([btcCoin] ++ [abcCoin.coin]).map CInputCoin.outpoint) ∧
      rejectReason (checkTxTokens Crypto.truncating burntTx burnCoins 101 0 false (some abcCache) fun _ => none) =
        some "bad-tx-inputs-outputs-mismatch Bad Transaction - Tokens would be burnt ABC" :=
  ⟨by decide, by decide,
    @feeLoop_drops_token_change burnEnv burnInput 2 ⟨0, true, 0, [], [], 100⟩ burnState burntTx 0 rfl
      (by decide) (by decide) rfl,
    by decide⟩

end Wallet
end AokChain
