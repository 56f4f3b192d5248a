import AokChain.Wallet.SelectTokens
import AokChain.Wallet.IsMine
import AokChain.Tokens.Construct
import AokChain.Tokens.BlockTokens

/-!
# Building a transaction

`CWallet::CreateTransactionAll` of `wallet/wallet.cpp`: the checks of the
request, the sums over the recipients, and the fee loop.  Each pass of the loop
rebuilds the outputs (the payees, the token change, the change and the issuance
outputs) and the inputs, prices the transaction, and then finishes, fails, or
starts the next pass with a new fee.  What one pass hands to the next is
`FeeLoopState`: the fee, whether to pick new inputs, the coins picked and the
lock time.  The map of the token amounts selected, `mapTokensIn`, is declared
inside the loop, so a pass that picks no new inputs starts it empty.

What the wallet, the chain and the fee estimator answer is `WalletEnv`: coin
selection under the coin control, the dust and fee rates as functions of
outputs and sizes, the size of the dummy-signed transaction, the random draws as
functions of their bound, and the signatures.
-/

namespace AokChain
namespace Wallet
open Serial

/-- `CRecipient`. -/
structure CRecipient where
  scriptPubKey : CScript
  nAmount : CAmount
  fSubtractFeeFromAmount : Bool
  deriving DecidableEq, Repr

/-- The arguments of `CreateTransactionAll` that shape the transaction;
`destination` is `GetScriptForDestination(destination)`. -/
structure CreateRequest where
  vecSend : List CRecipient
  message : Bytes
  nChangePosInOut : Int
  fNewToken : Bool
  tokens : List CNewToken
  destination : CScript
  validDestination : Bool
  fTransferToken : Bool
  fReissueToken : Bool
  reissueToken : CReissueToken
  tokenType : KnownTokenType
  sign : Bool
  deriving DecidableEq

/-- How a call fails: `false` with no reason, `false` with `strFailReason`
set, `return error(...)` (the text is only logged), or a C++ exception. -/
inductive CreateFailure
  | refused
  | failReason (strFailReason : String)
  | logged (message : String)
  | exception (what : String)
  deriving DecidableEq, Repr

abbrev Create := Except CreateFailure

/-- What `CreateTransactionAll` asks of the wallet, the chain and the fee
estimator.  `selectConfig.areTokensDeployed` is `AreTokensDeployed()`. -/
structure WalletEnv where
  selectConfig : SelectTokensConfig
  mapTx : uint256 → Option (UInt64 × UInt64)
  tokenChoices : Bytes → ℕ → Choices
  /-- The token outputs `AvailableCoinsWithTokens` finds, by name. -/
  mapTokenCoins : List (Bytes × List COutput)
  /-- `SelectCoins` over `vAvailableCoins` and the coin control: the coins and their value. -/
  selectCoins : CAmount → Option (List CInputCoin × CAmount)
  /-- The change script, or the reason `CreateNewChangeAddress` fails. -/
  scriptChange : Except String CScript
  height : UInt32
  nTime : UInt32
  /-- `GetRandInt(n + 1)`. -/
  getRandInt : (n : ℕ) → Fin (n + 1)
  /-- `GetDustThreshold` at `::dustRelayFee` and at the discard rate. -/
  dustThreshold : CTxOut → CAmount
  discardThreshold : CTxOut → CAmount
  changePrototypeSize : ℕ
  /-- `GetVirtualTransactionSize` of the transaction once `DummySignTx` signs it. -/
  virtualSize : CTransaction → ℕ
  getMinimumFee : ℕ → CAmount
  /-- `::minRelayTxFee.GetFee`. -/
  minRelayFee : ℕ → CAmount
  keystore : CKeyStore
  medianTimePast : UInt32
  /-- `ProduceSignature` for input `nIn` of the unsigned transaction: the script and the witness. -/
  produceSignature : CTransaction → ℕ → CInputCoin → Option (CScript × List Bytes)
  transactionWeight : CTransaction → ℕ
  fRejectLongChains : Bool
  /-- `CalculateMemPoolAncestors` within the chain limits. -/
  chainLimitsOK : CTransaction → Bool

def MIN_FINAL_CHANGE : CAmount := MIN_CHANGE / 2

def MAX_STANDARD_TX_WEIGHT : ℕ := 800000

/-- `IsDust`: a token output is never dust. -/
def isDust (threshold : CTxOut → CAmount) (txout : CTxOut) : Bool :=
  if isTokenScript txout.scriptPubKey then false else txout.nValue < threshold txout

/-- What the fee loop reads and does not change. -/
structure FeeLoopInput where
  req : CreateRequest
  nValue : CAmount
  mapTokenValue : TokenTotals
  nSubtractFeeFromAmount : ℕ
  mapTokenCoins : List (Bytes × List COutput)
  scriptChange : CScript
  nVersion : Int32
  deriving DecidableEq

/-- What a pass of the fee loop hands to the next one. -/
structure FeeLoopState where
  nFeeRet : CAmount
  pick_new_inputs : Bool
  nValueIn : CAmount
  setCoins : List CInputCoin
  setTokens : List CInputCoin
  nLockTime : UInt32
  deriving DecidableEq, Repr

/-- How a pass ends when it does not fail: done, or the state of the next pass. -/
inductive PassEnd
  | done (st : FeeLoopState) (txNew : CTransaction) (nChangePosInOut : Int)
  | again (st : FeeLoopState)
  deriving DecidableEq, Repr

section Prepare

/-- The recipients loop: the amount sent, the token amounts sent by name (when
`countTokens`), and the number of recipients that pay the fee. -/
def recipientsLoop (countTokens : Bool) :
    List CRecipient → CAmount → TokenTotals → ℕ → Create (CAmount × TokenTotals × ℕ)
  | [], nValue, mapTokenValue, n => .ok (nValue, mapTokenValue, n)
  | recipient :: vecSend, nValue, mapTokenValue, n => do
    let mapTokenValue ← match countTokens, transferTokenFromScript recipient.scriptPubKey with
      | true, some tokenTransfer =>
        if tokenTransfer.nAmount ≤ 0 then .error (.failReason "Token Transfer amounts must be greater than 0")
        else .ok (addTokenAmount mapTokenValue tokenTransfer.strName tokenTransfer.nAmount)
      | _, _ => .ok mapTokenValue
    if nValue < 0 ∨ recipient.nAmount < 0 then .error (.failReason "Transaction amounts must not be negative")
    else
      recipientsLoop countTokens vecSend (nValue + recipient.nAmount) mapTokenValue
        (if recipient.fSubtractFeeFromAmount then n + 1 else n)

/-- The checks of the request, the recipients loop, the lock time and the change
script: what the fee loop reads, and the lock time it starts from. -/
def prepare (env : WalletEnv) (req : CreateRequest) : Create (FeeLoopInput × UInt32) := do
  if !env.selectConfig.areTokensDeployed && (req.fTransferToken || req.fNewToken || req.fReissueToken) then
    throw .refused
  if req.fNewToken && (req.tokens.length < 1 || !req.validDestination) then
    throw (.logged ("CreateTransactionAll : Tried creating a new token transaction and the token was null or " ++
      "the destination was invalid"))
  if (req.fNewToken && req.fTransferToken) || (req.fReissueToken && req.fTransferToken) ||
      (req.fReissueToken && req.fNewToken) then
    -- the format has a `%s` the call passes no argument for
    throw (.exception "tinyformat: Not enough format arguments")
  if req.fReissueToken && (req.reissueToken.isNull || !req.validDestination) then
    throw (.logged ("CreateTransactionAll : Tried reissuing an token and the reissue data was null or " ++
      "the destination was invalid"))
  let countTokens := req.fTransferToken || req.fReissueToken || req.tokenType == .SUB || req.tokenType == .UNIQUE
  let (nValue, mapTokenValue, nSubtractFeeFromAmount) ← recipientsLoop countTokens req.vecSend 0 [] 0
  if req.vecSend.isEmpty then throw (.failReason "Transaction must have at least one recipient")
  -- one time in ten the lock time goes back by up to 99 blocks
  let nLockTime : UInt32 :=
    if (env.getRandInt 9).val = 0 then
      (max 0 ((env.height.toNat : Int) - (env.getRandInt 99).val)).toNat.toUInt32
    else env.height
  if nLockTime.toNat ≥ LOCKTIME_THRESHOLD then throw (.exception "assert(txNew.nLockTime < LOCKTIME_THRESHOLD)")
  let scriptChange ← match env.scriptChange with
    | .ok script => pure script
    | .error strFailReason => throw (.failReason strFailReason)
  pure (⟨req, nValue, mapTokenValue, nSubtractFeeFromAmount, if countTokens then env.mapTokenCoins else [],
    scriptChange, if req.message.isEmpty then 1 else 2⟩, nLockTime)

end Prepare

section Pass

variable (env : WalletEnv)

/-- The amount paid to one recipient: its amount, less its share of the fee
where it pays the fee, the first of those paying the remainder too. -/
def payeeValue (nFeeRet : CAmount) (nSubtractFeeFromAmount : ℕ) (fFirst : Bool) (recipient : CRecipient) :
    CAmount :=
  let n : CAmount := Int64.ofNat nSubtractFeeFromAmount
  if recipient.fSubtractFeeFromAmount then recipient.nAmount - nFeeRet / n - (if fFirst then nFeeRet % n else 0)
  else recipient.nAmount

/-- The output to one recipient, and `fFirst` after it. -/
def payeeOutput (nFeeRet : CAmount) (nSubtractFeeFromAmount : ℕ) (fFirst : Bool) (recipient : CRecipient) :
    Create (CTxOut × Bool) :=
  let txout : CTxOut := ⟨payeeValue nFeeRet nSubtractFeeFromAmount fFirst recipient, recipient.scriptPubKey⟩
  if isDust env.dustThreshold txout && !isTransferToken recipient.scriptPubKey then
    .error (.failReason
      (if recipient.fSubtractFeeFromAmount && decide (nFeeRet > 0) then
        if txout.nValue < 0 then "The transaction amount is too small to pay the fee"
        else "The transaction amount is too small to send after the fee has been deducted"
      else "Transaction amount too small"))
  else .ok (txout, fFirst && !recipient.fSubtractFeeFromAmount)

/-- The payee outputs, in the order of the recipients. -/
def payeeOutputs (nFeeRet : CAmount) (nSubtractFeeFromAmount : ℕ) : Bool → List CRecipient → Create (List CTxOut)
  | _, [] => .ok []
  | fFirst, recipient :: vecSend => do
    let (txout, fFirst) ← payeeOutput env nFeeRet nSubtractFeeFromAmount fFirst recipient
    let vout ← payeeOutputs nFeeRet nSubtractFeeFromAmount fFirst vecSend
    pure (txout :: vout)

/-- The coins and tokens of a pass with the token amounts selected: picked anew
when the loop picks new inputs, kept from before otherwise, when `mapTokensIn`
stays as the pass declared it, empty. -/
def pickInputs (mapTokenCoins : List (Bytes × List COutput)) (mapTokenValue : TokenTotals)
    (nValueToSelect : CAmount) (st : FeeLoopState) : Create (FeeLoopState × TokenTotals) :=
  if st.pick_new_inputs then
    match env.selectCoins nValueToSelect with
    | none => .error (.failReason "Insufficient funds")
    | some (setCoins, nValueIn) =>
      if env.selectConfig.areTokensDeployed then
        match selectTokens env.mapTx env.selectConfig env.tokenChoices mapTokenValue mapTokenCoins [] [] with
        | none => .error (.failReason "Insufficient token funds")
        | some (setTokens, mapTokensIn) => .ok ({ st with nValueIn, setCoins, setTokens }, mapTokensIn)
      else .ok ({ st with nValueIn, setCoins }, [])
  else .ok (st, [])

/-- `mapTokenChange`: for each name sent that the selection holds, the amount
selected less the amount sent. -/
def tokenChange (mapTokenValue mapTokensIn : TokenTotals) : TokenTotals :=
  mapTokenValue.filterMap fun (name, value) => (OrderedMap.find? name mapTokensIn).map fun nIn => (name, nIn - value)

/-- The token change outputs to the change script, for the positive changes. -/
def tokenChangeOutputs (scriptChange : CScript) (mapTokenChange : TokenTotals) : List CTxOut :=
  mapTokenChange.filterMap fun (name, change) =>
    if change > 0 then some ⟨0, CTokenTransfer.constructTransaction ⟨name, change, 0⟩ scriptChange⟩ else none

/-- The change output: dust goes to the fee, otherwise it goes in at the
requested position or at a random one.  Returns the outputs, the change position
and the fee. -/
def insertChange (scriptChange : CScript) (nChangePosRequest : Int) (nChange nFeeRet : CAmount)
    (vout : List CTxOut) : Create (List CTxOut × Int × CAmount) :=
  if nChange > 0 then
    let newTxOut : CTxOut := ⟨nChange, scriptChange⟩
    if isDust env.discardThreshold newTxOut then .ok (vout, -1, nFeeRet + nChange)
    else if nChangePosRequest = -1 then
      let pos := (env.getRandInt vout.length).val
      .ok (vout.insertIdx pos newTxOut, pos, nFeeRet)
    -- the position is compared as an `unsigned int`
    else if (nChangePosRequest % 2 ^ 32).toNat > vout.length then .error (.failReason "Change index out of range")
    else .ok (vout.insertIdx nChangePosRequest.toNat newTxOut, nChangePosRequest, nFeeRet)
  else .ok (vout, -1, nFeeRet)

/-- The outputs of a new token (with its owner token, but for unique tokens
and usernames) or of a reissue, to the destination. -/
def issuanceOutputs (req : CreateRequest) : List CTxOut :=
  if req.fNewToken then
    req.tokens.flatMap fun token =>
      (if req.tokenType ≠ .UNIQUE ∧ req.tokenType ≠ .USERNAME then
        [⟨0, token.constructOwnerTransaction req.destination⟩] else []) ++
      [⟨0, token.constructTransaction req.destination⟩]
  else if req.fReissueToken then [⟨0, req.reissueToken.constructTransaction req.destination⟩]
  else []

/-- The lock time after the input of one coin: a coin locked by time moves it to
the median time past; a lock that does not decode is `CScriptNum`'s exception. -/
def updateLockTime (coin : CInputCoin) (nLockTime : UInt32) : Create UInt32 :=
  match isTimeLockIn env.keystore coin.txout.scriptPubKey with
  | .error what => .error (.exception what)
  | .ok (some n) => .ok (if n.toInt > LOCKTIME_THRESHOLD then env.medianTimePast else nLockTime)
  | .ok none => .ok nLockTime

/-- The inputs spending the coins, and the lock time they leave. -/
def fillVin : List CInputCoin → UInt32 → Create (List CTxIn × UInt32)
  | [], nLockTime => .ok ([], nLockTime)
  | coin :: coins, nLockTime => do
    let nLockTime ← updateLockTime env coin nLockTime
    let (vin, nLockTime) ← fillVin coins nLockTime
    pure (⟨coin.outpoint, [], SEQUENCE_FINAL - 1, []⟩ :: vin, nLockTime)

/-- The output at the change position with its value changed. -/
def modifyChange (txNew : CTransaction) (nChangePosInOut : Int) (f : CAmount → CAmount) : CTransaction :=
  { txNew with vout := txNew.vout.modify nChangePosInOut.toNat fun txout => { txout with nValue := f txout.nValue } }

/-- The end of a pass: the fee the transaction needs against the fee included. -/
def feeDecision (inp : FeeLoopInput) (st : FeeLoopState) (txNew : CTransaction) (nChangePosInOut : Int) :
    Create PassEnd :=
  let nBytes := env.virtualSize txNew
  let nFeeNeeded := env.getMinimumFee nBytes
  if nFeeNeeded < env.minRelayFee nBytes then .error (.failReason "Transaction too large for fee policy")
  else if st.nFeeRet ≥ nFeeNeeded then
    let fee_needed_with_change := env.getMinimumFee (nBytes + env.changePrototypeSize + 2)
    let minimum_value_for_change := env.discardThreshold ⟨0, inp.scriptChange⟩
    -- no change and enough excess fee: build once more, with a change output
    if nChangePosInOut = -1 ∧ inp.nSubtractFeeFromAmount = 0 ∧ st.pick_new_inputs = true ∧
        st.nFeeRet ≥ fee_needed_with_change + minimum_value_for_change then
      .ok (.again { st with pick_new_inputs := false, nFeeRet := fee_needed_with_change })
    else if st.nFeeRet > nFeeNeeded ∧ nChangePosInOut ≠ -1 ∧ inp.nSubtractFeeFromAmount = 0 then
      let extraFeePaid := st.nFeeRet - nFeeNeeded
      .ok (.done { st with nFeeRet := st.nFeeRet - extraFeePaid }
        (modifyChange txNew nChangePosInOut (· + extraFeePaid)) nChangePosInOut)
    else .ok (.done st txNew nChangePosInOut)
  else if !st.pick_new_inputs then .error (.failReason "Transaction fee and change calculation failed")
  else
    let additionalFeeNeeded := nFeeNeeded - st.nFeeRet
    -- take the fee from the change if enough of it is left
    if nChangePosInOut ≠ -1 ∧ inp.nSubtractFeeFromAmount = 0 ∧
        (txNew.vout.getD nChangePosInOut.toNat CTxOut.null).nValue ≥ MIN_FINAL_CHANGE + additionalFeeNeeded then
      .ok (.done { st with nFeeRet := st.nFeeRet + additionalFeeNeeded }
        (modifyChange txNew nChangePosInOut (· - additionalFeeNeeded)) nChangePosInOut)
    else
      .ok (.again { st with pick_new_inputs := if inp.nSubtractFeeFromAmount > 0 then false else st.pick_new_inputs,
                            nFeeRet := nFeeNeeded })

/-- One pass of the fee loop. -/
def feePass (inp : FeeLoopInput) (st : FeeLoopState) : Create PassEnd := do
  let deployed := env.selectConfig.areTokensDeployed
  let nValueToSelect := if inp.nSubtractFeeFromAmount = 0 then inp.nValue + st.nFeeRet else inp.nValue
  let payees ← payeeOutputs env st.nFeeRet inp.nSubtractFeeFromAmount true inp.req.vecSend
  let (st, mapTokensIn) ← pickInputs env inp.mapTokenCoins inp.mapTokenValue nValueToSelect st
  let nChange := st.nValueIn - nValueToSelect
  let vout := payees ++
    if deployed then tokenChangeOutputs inp.scriptChange (tokenChange inp.mapTokenValue mapTokensIn) else []
  let (vout, nChangePosInOut, nFeeRet) ← insertChange env inp.scriptChange inp.req.nChangePosInOut nChange st.nFeeRet vout
  let vout := vout ++ if deployed then issuanceOutputs inp.req else []
  let (vinCoins, nLockTime) ← fillVin env st.setCoins st.nLockTime
  let vin := vinCoins ++
    if deployed then st.setTokens.map fun token => ⟨token.outpoint, [], SEQUENCE_FINAL - 1, []⟩ else []
  feeDecision env inp { st with nFeeRet, nLockTime } ⟨vin, vout, inp.nVersion, nLockTime, env.nTime, inp.req.message⟩
    nChangePosInOut

/-- The fee loop, for at most `fuel` passes; `none` when the fuel runs out. -/
def feeLoop (inp : FeeLoopInput) : ℕ → FeeLoopState → Option (Create (FeeLoopState × CTransaction × Int))
  | 0, _ => none
  | fuel + 1, st =>
    match feePass env inp st with
    | .error e => some (.error e)
    | .ok (.done st txNew nChangePosInOut) => some (.ok (st, txNew, nChangePosInOut))
    | .ok (.again st) => feeLoop inp fuel st

end Pass

section Finish

variable (env : WalletEnv)

/-- The signing loop: input `nIn` on takes the script and witness of its coin. -/
def signInputs (txNewConst : CTransaction) (strFailReason : String) :
    ℕ → List CInputCoin → List CTxIn → Create (List CTxIn)
  | _, [], vin => .ok vin
  | nIn, coin :: coins, vin =>
    match env.produceSignature txNewConst nIn coin with
    | none => .error (.failReason strFailReason)
    | some (scriptSig, scriptWitness) =>
      signInputs txNewConst strFailReason (nIn + 1) coins (vin.modify nIn fun txin => { txin with scriptSig, scriptWitness })

/-- After the loop: the signatures, the weight limit and the mempool chain limits. -/
def finishTransaction (req : CreateRequest) (st : FeeLoopState) (txNew : CTransaction) : Create CTransaction := do
  let txNew ← if req.sign then do
      let vin ← signInputs env txNew "Signing transaction failed" 0 st.setCoins txNew.vin
      let vin ← if env.selectConfig.areTokensDeployed then
          signInputs env txNew "Signing token transaction failed" st.setCoins.length st.setTokens vin
        else pure vin
      pure { txNew with vin }
    else pure txNew
  if env.transactionWeight txNew ≥ MAX_STANDARD_TX_WEIGHT then throw (.failReason "Transaction too large")
  if env.fRejectLongChains && !env.chainLimitsOK txNew then
    throw (.failReason "Transaction has too long of a mempool chain")
  pure txNew

/-- `CWallet::CreateTransactionAll`, with `fuel` passes of the fee loop: the
transaction, `nFeeRet` and `nChangePosInOut` it leaves.  `none` when the fuel
runs out. -/
def createTransactionAll (req : CreateRequest) (fuel : ℕ) : Option (Create (CTransaction × CAmount × Int)) :=
  match prepare env req with
  | .error e => some (.error e)
  | .ok (inp, nLockTime) =>
    (feeLoop env inp fuel ⟨0, true, 0, [], [], nLockTime⟩).map fun r => do
      let (st, txNew, nChangePosInOut) ← r
      let tx ← finishTransaction env req st txNew
      pure (tx, st.nFeeRet, nChangePosInOut)

/-- `CWallet::CreateTransactionWithTransferToken`: a transfer, with the default
token, no destination (whose script is empty) and the type `INVALID`. -/
def createTransactionWithTransferToken (vecSend : List CRecipient) (message : Bytes) (nChangePosInOut : Int)
    (sign : Bool) (fuel : ℕ) : Option (Create (CTransaction × CAmount × Int)) :=
  createTransactionAll env ⟨vecSend, message, nChangePosInOut, false, [CNewToken.null], [], false, true, false,
    CReissueToken.null, .INVALID, sign⟩ fuel

/-- `CWallet::CreateTransactionWithReissueToken`. -/
def createTransactionWithReissueToken (vecSend : List CRecipient) (message : Bytes) (nChangePosInOut : Int)
    (reissueToken : CReissueToken) (destination : CScript) (validDestination sign : Bool) (fuel : ℕ) :
    Option (Create (CTransaction × CAmount × Int)) :=
  createTransactionAll env ⟨vecSend, message, nChangePosInOut, false, [CNewToken.null], destination,
    validDestination, false, true, reissueToken, .REISSUE, sign⟩ fuel

/-- `CWallet::CreateTransactionWithTokens`: the issuance of new tokens. -/
def createTransactionWithTokens (vecSend : List CRecipient) (message : Bytes) (nChangePosInOut : Int)
    (tokens : List CNewToken) (destination : CScript) (validDestination : Bool) (type : KnownTokenType)
    (sign : Bool) (fuel : ℕ) : Option (Create (CTransaction × CAmount × Int)) :=
  createTransactionAll env ⟨vecSend, message, nChangePosInOut, true, tokens, destination, validDestination,
    false, false, CReissueToken.null, type, sign⟩ fuel

/-- `CWallet::CreateTransaction`: no token. -/
def createTransaction (vecSend : List CRecipient) (message : Bytes) (nChangePosInOut : Int) (sign : Bool)
    (fuel : ℕ) : Option (Create (CTransaction × CAmount × Int)) :=
  createTransactionAll env ⟨vecSend, message, nChangePosInOut, false, [CNewToken.null], [], false, false, false,
    CReissueToken.null, .INVALID, sign⟩ fuel

end Finish

end Wallet
end AokChain
