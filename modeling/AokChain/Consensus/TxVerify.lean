import AokChain.Coins.Coins
import AokChain.Governance.Governance
import AokChain.Lib.OrderedMap

/-!
# Transaction checks

`CheckTransaction`, `Consensus::CheckTxInputs` and `Consensus::CheckTxTokens` of
`consensus/tx_verify.cpp`.  They read, besides the transaction and the coins,
the node's globals: the height of the active chain (through the deployment
switches), `fReindex`, the governance database and the token cache.  The
validation of token issuance against the token cache (`VerifyNewToken`,
`CNewToken::IsValid` and the like) is a parameter, `IssuanceChecks`; every
other branch is modelled.  Amounts are `int64_t`: where the source overflows a
signed sum, an undefined operation, the model takes the two's-complement wrap
that the compiled addition performs.
-/

namespace AokChain
open Serial

/-- The context `CheckTransaction` and the input checks read besides their
arguments. -/
structure TxContext where
  params : CChainParams
  /-- `chainActive.Height()`. -/
  nTipHeight : Int
  fReindex : Bool

namespace TxContext

variable (ctx : TxContext)

def tokensDeployed : Bool := areTokensDeployed ctx.params.consensus ctx.nTipHeight
def tokensP2SHDeployed : Bool := areTokensP2SHDeployed ctx.params.consensus ctx.nTipHeight
def tokensIPFSDeployed : Bool := areTokensIPFSDeployed ctx.params.consensus ctx.nTipHeight
def governanceDeployed : Bool := areGovernanceDeployed ctx.params.consensus ctx.nTipHeight

end TxContext

/-- The issuance branches of the token section of `CheckTransaction`, each run
on a transaction of its kind when a token cache is given. -/
structure IssuanceChecks where
  checkNewToken : CTransaction → Check
  checkReissueToken : CTransaction → Check
  checkNewUniqueToken : CTransaction → Check
  checkNewUsername : CTransaction → Check

/-- `bannedFunds` of `banned.cpp`: a `std::map` from transaction id to output
index, so of the two entries with the last id only the first is kept. -/
def bannedFunds : List (uint256 × Int) :=
  [(0xb19367635bed8605f99f9e9d9ce7093b6c0459563a4abe58a1038f9600d4d7a3, 1),
    (0x51eb6faffbd569ee95f888224561eb513dbe3a7669b84d5bb1d4a16788418f6c, 1),
    (0xd0f9360facbb364c65f6112011970a6980bcfcfbc48e6d9719912f7810ff50b6, 0)]

/-- `areBannedInputs`. -/
def areBannedInputs (txid : uint256) (vout : Int) : Bool := bannedFunds.contains (txid, vout)

section CheckTransaction

variable (ctx : TxContext) (checks : IssuanceChecks)

/-- The transfer branch of the output loop, with a token cache given. -/
def checkTransferOutput (txout : CTxOut) : Check :=
  match transferTokenFromScript txout.scriptPubKey with
  | none => reject 100 REJECT_INVALID "bad-txns-transfer-token-bad-deserialize" false
  | some transfer => do
    let (tokenType, valid) := isTokenNameValidType transfer.strName
    require valid.isOk 100 REJECT_INVALID "bad-txns-transfer-token-name-invalid" false
    if isTokenNameAnOwner transfer.strName then
      require (transfer.nAmount == OWNER_TOKEN_AMOUNT) 100 REJECT_INVALID
        "bad-txns-transfer-owner-amount-was-not-1" false
    if tokenType = .UNIQUE || tokenType = .USERNAME then
      require (transfer.nAmount == UNIQUE_TOKEN_AMOUNT) 100 REJECT_INVALID
        "bad-txns-transfer-unique-amount-was-not-1" false
    require (txout.nValue == 0) 100 REJECT_INVALID "bad-txns-token-transfer-amount-not-zero" false

/-- The token part of the output loop of `CheckTransaction`. -/
def checkTokenOutput (fTokenCache : Bool) (txout : CTxOut) : Check := do
  match tokenScriptInfo txout.scriptPubKey with
  | none => pure ()
  | some info =>
    if info.nScriptType = .TX_SCRIPTHASH then
      require ctx.tokensP2SHDeployed 0 REJECT_INVALID "bad-txns-p2sh-token-not-active" false
    if !ctx.tokensDeployed && !ctx.fReindex then
      reject 100 REJECT_INVALID "bad-txns-is-token-and-token-not-active" false
    else if ctx.tokensDeployed && fTokenCache then
      match info.nType with
      | .TX_TRANSFER_TOKEN => checkTransferOutput txout
      | .TX_NEW_TOKEN =>
        require (txout.nValue == 0) 100 REJECT_INVALID "bad-txns-new-token-amount-not-zero" false
      | .TX_REISSUE_TOKEN =>
        require (txout.nValue == 0) 100 REJECT_INVALID "bad-txns-reissue-token-amount-not-zero" false
      | _ => reject 0 REJECT_INVALID "bad-token-type" false
    else pure ()

/-- The output loop of `CheckTransaction`, from the running `nValueOut`. -/
def checkOutputsFrom (tx : CTransaction) (fTokenCache : Bool) : CAmount → List CTxOut → Check
  | _, [] => pure ()
  | nValueOut, txout :: vout => do
    require (!(txout.isEmpty && !tx.isCoinBase && !tx.isCoinStake)) 100 REJECT_INVALID
      "bad-txns-vout-empty" false
    require (txout.nValue ≥ 0) 100 REJECT_INVALID "bad-txns-vout-negative" false
    require (txout.nValue ≤ MAX_MONEY) 100 REJECT_INVALID "bad-txns-vout-toolarge" false
    let nValueOut := nValueOut + txout.nValue
    require (moneyRange nValueOut) 100 REJECT_INVALID "bad-txns-txouttotal-toolarge" false
    require (!(isOfflineStaking txout.scriptPubKey && !ctx.governanceDeployed)) 100 REJECT_INVALID
      "offline-staking-not-enabled" false
    checkTokenOutput ctx fTokenCache txout
    checkOutputsFrom tx fTokenCache nValueOut vout

/-- The token section after the loop: the issuance kinds, else every token
output must be a transfer and no other output may hold `OP_TOKEN_SCRIPT` past
its first instruction. -/
def checkTokenTransaction (tx : CTransaction) : Check :=
  if tx.isNewTokenTx then checks.checkNewToken tx
  else if tx.isReissueTokenTx then checks.checkReissueToken tx
  else if tx.isNewUniqueTokenTx then checks.checkNewUniqueToken tx
  else if tx.isNewUsernameTx then checks.checkNewUsername tx
  else
    tx.vout.forM fun out =>
      match tokenScriptInfo out.scriptPubKey with
      | some info =>
        require (info.nType = .TX_TRANSFER_TOKEN) 100 REJECT_INVALID "bad-txns-bad-token-transaction" false
      | none =>
        require (findOp out.scriptPubKey OP_TOKEN_SCRIPT = 0) 100 REJECT_INVALID
          "bad-txns-bad-token-script" false

/-- `CheckTransaction(tx, state, tokenCache, fCheckDuplicateInputs, ...)`: the token
cache, when there is one, is given by the issuance checks it backs (which also
read the three remaining flags). -/
def checkTransaction (tx : CTransaction) (tokenCache : Option IssuanceChecks)
    (fCheckDuplicateInputs : Bool) : Check := do
  require (!tx.vin.isEmpty) 10 REJECT_INVALID "bad-txns-vin-empty" false
  require (!tx.vout.isEmpty) 10 REJECT_INVALID "bad-txns-vout-empty" false
  require ((serializeTransaction false tx).length * WITNESS_SCALE_FACTOR ≤ getMaxBlockWeight) 100
    REJECT_INVALID "bad-txns-oversize" false
  checkOutputsFrom ctx tx tokenCache.isSome 0 tx.vout
  if fCheckDuplicateInputs then
    require (tx.vin.map CTxIn.prevout).Nodup 100 REJECT_INVALID "bad-txns-inputs-duplicate" false
  if tx.isCoinBase then
    let n := match tx.vin with
      | txin :: _ => txin.scriptSig.length
      | [] => 0
    require (2 ≤ n && n ≤ 100) 100 REJECT_INVALID "bad-cb-length" false
  else
    require (tx.vin.all fun txin => !txin.prevout.isNull) 10 REJECT_INVALID "bad-txns-prevout-null" false
  if tx.isCoinBase || tx.isCoinStake then
    require (tx.vout.all fun out => !isTokenScript out.scriptPubKey) 0 REJECT_INVALID
      "bad-txns-coinstake-contains-token-txes" false
  if ctx.tokensDeployed then
    match tokenCache with
    | some checks => checkTokenTransaction checks tx
    | none => pure ()
  require (tx.vin.all fun txin => !areBannedInputs txin.prevout.hash txin.prevout.n.toNat) 100
    REJECT_INVALID "banned-inputs-spent" false

/-- With the duplicate test on, an accepted transaction spends each outpoint once. -/
theorem checkTransaction_inputs_nodup {tx : CTransaction} {tokenCache : Option IssuanceChecks}
    (h : checkTransaction ctx tx tokenCache true = .ok ()) : (tx.vin.map CTxIn.prevout).Nodup := by
  simp only [checkTransaction, if_true, Except.bind_eq_ok] at h
  obtain ⟨_, -, _, -, _, -, _, -, _, hdup, -⟩ := h
  simpa using require_eq_ok.mp hdup

end CheckTransaction

section CheckTxInputs

variable (params : ConsensusParams) (governance : CGovernance)

/-- The input loop of `CheckTxInputs`: maturity, timestamp, freeze and range
checks per spent coin, and the running `nValueIn`. -/
def checkInputsFrom (tx : CTransaction) (inputs : CCoinsMap) (nSpendHeight : Int) :
    CAmount → List CTxIn → Except Failure CAmount
  | nValueIn, [] => pure nValueIn
  | nValueIn, txin :: vin => do
    let coin := inputs.accessCoin txin.prevout
    let depth := nSpendHeight - coin.nHeight
    if coin.fCoinBase && depth < COINBASE_MATURITY then
      rejectInvalid REJECT_INVALID "bad-txns-premature-spend-of-coinbase"
    else if coin.fCoinStake && depth < (if coin.nHeight ≥ params.nTokensDeploymentHeight then
        COINSTAKE_MATURITY else COINBASE_MATURITY) then
      rejectInvalid REJECT_INVALID "bad-txns-premature-spend-of-coinstake"
    else do
      if nSpendHeight < params.nDisableTimestampCheck then
        require (coin.nTime ≤ tx.nTime) 100 REJECT_INVALID "bad-txns-time-earlier-than-input" false
      require (governance.canSend coin.out.scriptPubKey) 100 REJECT_INVALID
        "bad-txns-address-frozen" false
      let nValueIn := nValueIn + coin.out.nValue
      require (moneyRange coin.out.nValue && moneyRange nValueIn) 100 REJECT_INVALID
        "bad-txns-inputvalues-outofrange" false
      checkInputsFrom tx inputs nSpendHeight nValueIn vin

/-- `Consensus::CheckTxInputs`, returning `txfee`.  A coin stake may pay out more
than it spends and counts no fee. -/
def checkTxInputs (tx : CTransaction) (inputs : CCoinsMap) (nSpendHeight : Int) :
    Except Failure CAmount := do
  require (inputs.haveInputs tx) 100 REJECT_INVALID "bad-txns-inputs-missingorspent" false
  let nValueIn ← checkInputsFrom params governance tx inputs nSpendHeight 0 tx.vin
  let some value_out := tx.getValueOut | .error (.exception "GetValueOut: value out of range")
  if tx.isCoinStake then pure 0
  else do
    require (nValueIn ≥ value_out) 100 REJECT_INVALID "bad-txns-in-belowout" false
    let txfee := nValueIn - value_out
    require (moneyRange txfee) 100 REJECT_INVALID "bad-txns-fee-out-of-range" false
    pure txfee

/-- The checks of a spent coin past its maturity and timestamp. -/
private theorem checkInputsFrom_tail {send range : Bool} {rest : Except Failure CAmount} {v : CAmount}
    (h : (require send 100 REJECT_INVALID "bad-txns-address-frozen" false >>= fun _ =>
      require range 100 REJECT_INVALID "bad-txns-inputvalues-outofrange" false >>= fun _ => rest) = .ok v) :
    send = true ∧ range = true ∧ rest = .ok v := by
  obtain ⟨_, hsend, h⟩ := Except.bind_eq_ok.mp h
  obtain ⟨_, hrange, h⟩ := Except.bind_eq_ok.mp h
  exact ⟨require_eq_ok.mp hsend, require_eq_ok.mp hrange, h⟩

/-- One step of the input loop that passes: the coin may move, its value and
the running total are in range, and the loop goes on from the new total. -/
theorem checkInputsFrom_cons_eq_ok {tx : CTransaction} {inputs : CCoinsMap} {nSpendHeight : Int}
    {nValueIn nValueIn' : CAmount} {txin : CTxIn} {vin : List CTxIn}
    (h : checkInputsFrom params governance tx inputs nSpendHeight nValueIn (txin :: vin) = .ok nValueIn') :
    governance.canSend (inputs.accessCoin txin.prevout).out.scriptPubKey = true ∧
      moneyRange (inputs.accessCoin txin.prevout).out.nValue = true ∧
      moneyRange (nValueIn + (inputs.accessCoin txin.prevout).out.nValue) = true ∧
      checkInputsFrom params governance tx inputs nSpendHeight
        (nValueIn + (inputs.accessCoin txin.prevout).out.nValue) vin = .ok nValueIn' := by
  simp only [checkInputsFrom] at h
  -- the maturity checks reject outright; past them the timestamp check may stand first
  split_ifs at h with hcoinbase hdeployed hcoinstake htime hcoinstake' htime'
  · simp [rejectInvalid] at h
  · simp [rejectInvalid] at h
  · obtain ⟨_, -, h⟩ := Except.bind_eq_ok.mp h
    simpa [Bool.and_eq_true, and_assoc] using checkInputsFrom_tail h
  · simpa [Bool.and_eq_true, and_assoc] using checkInputsFrom_tail h
  · simp [rejectInvalid] at h
  · obtain ⟨_, -, h⟩ := Except.bind_eq_ok.mp h
    simpa [Bool.and_eq_true, and_assoc] using checkInputsFrom_tail h
  · simpa [Bool.and_eq_true, and_assoc] using checkInputsFrom_tail h

end CheckTxInputs

section CheckTxTokens

/-- A `std::map<std::string, CAmount>` of per-name sums: its entries in the
order of `std::string`, which compares bytes as unsigned. -/
abbrev TokenTotals := List (Bytes × CAmount)

def bytesLt (a b : Bytes) : Bool := decide (a < b)

/-- `totals[name] += amount` for a name present, an insertion otherwise; the sum
is `int64_t`. -/
def addTokenAmount (totals : TokenTotals) (name : Bytes) (amount : CAmount) : TokenTotals :=
  OrderedMap.alter bytesLt name (fun
    | some total => total + amount
    | none => amount) totals

/-- What `CheckTxTokens` asks of the token cache. -/
structure CTokensCacheView where
  getTokenMetaDataIfExists : Bytes → Option CNewToken
  /-- `CReissueToken::IsValid` against the cache, with its error text. -/
  reissueIsValid : CReissueToken → Except String Unit

/-- The input loop of `CheckTxTokens`. -/
def tokenInputsFrom (inputs : CCoinsMap) (nSpendHeight nSpendTime : Int) :
    TokenTotals → List CTxIn → Except Failure TokenTotals
  | totals, [] => pure totals
  | totals, txin :: vin => do
    let coin := inputs.accessCoin txin.prevout
    if coin.isToken then
      match getTokenData coin.out.scriptPubKey with
      | none => reject 100 REJECT_INVALID "bad-txns-failed-to-get-token-from-script" false
      | some data => do
        let totals := addTokenAmount totals data.tokenName data.nAmount
        let lock : Int := data.nTokenLockTime.toNat
        require (lock ≤ (if lock < LOCKTIME_THRESHOLD then nSpendHeight else nSpendTime)) 100
          REJECT_INVALID ("bad-tx-token-premature-spend-of-token " ++ "Tried to spend token before " ++
            toString data.nTokenLockTime) false
        tokenInputsFrom inputs nSpendHeight nSpendTime totals vin
    else tokenInputsFrom inputs nSpendHeight nSpendTime totals vin

section Outputs

variable (tokensCache : Option CTokensCacheView) (mapReissuedTokens : Bytes → Option uint256)
  (txHash : uint256)

/-- The cache checks of a transfer output: an owner amount, or the units of an
existing token. -/
def checkTransferUnits (transfer : CTokenTransfer) : Check :=
  match tokensCache with
  | none => pure ()
  | some cache =>
    if isTokenNameAnOwner transfer.strName then
      require (transfer.nAmount == OWNER_TOKEN_AMOUNT) 100 REJECT_INVALID
        "bad-txns-transfer-owner-amount-was-not-1" false
    else
      match cache.getTokenMetaDataIfExists transfer.strName with
      | none => reject 100 REJECT_INVALID "bad-txns-transfer-token-not-exist" false
      | some token => do
        require (token.strName == transfer.strName) 100 REJECT_INVALID
          "bad-txns-token-database-corrupted" false
        require (checkAmountWithUnits transfer.nAmount token.units) 100 REJECT_INVALID
          "bad-txns-transfer-token-amount-not-match-units" false

/-- The reissue branch of the output loop: the reissue the transaction names
joins `vPairReissueTokens` unless a block transaction has reissued the name. -/
def checkReissueTokens (reissue : CReissueToken) (vPairReissueTokens : List (Bytes × uint256)) :
    Except Failure (List (Bytes × uint256)) := do
  match tokensCache with
  | some cache =>
    match cache.reissueIsValid reissue with
    | .error strError => reject 100 REJECT_INVALID ("bad-txns" ++ strError) false
    | .ok () => pure ()
  | none => pure ()
  match mapReissuedTokens reissue.strName with
  | some hash => do
    require (hash == txHash) 100 REJECT_INVALID "bad-tx-reissue-chaining-not-allowed" false
    pure vPairReissueTokens
  | none => pure (vPairReissueTokens ++ [(reissue.strName, txHash)])

/-- The output loop of `CheckTxTokens`, carrying the output totals and the
reissues found.  `tokensCache` is the cache the loop consults: none when the
call sets `fRunningUnitTests`. -/
def tokenOutputsFrom :
    TokenTotals × List (Bytes × uint256) → List CTxOut →
      Except Failure (TokenTotals × List (Bytes × uint256))
  | acc, [] => pure acc
  | (totals, vPair), txout :: vout =>
    if isTransferToken txout.scriptPubKey then
      match transferTokenFromScript txout.scriptPubKey with
      | none => reject 100 REJECT_INVALID "bad-tx-token-transfer-bad-deserialize" false
      | some transfer => do
        match transfer.isValid with
        | .error strError => reject 100 REJECT_INVALID strError false
        | .ok () => pure ()
        let totals := addTokenAmount totals transfer.strName transfer.nAmount
        checkTransferUnits tokensCache transfer
        tokenOutputsFrom (totals, vPair) vout
    else if isReissueToken txout.scriptPubKey then
      match reissueTokenFromScript txout.scriptPubKey with
      | none => reject 100 REJECT_INVALID "bad-tx-token-reissue-bad-deserialize" false
      | some reissue => do
        let vPair ← checkReissueTokens tokensCache mapReissuedTokens txHash reissue vPair
        tokenOutputsFrom (totals, vPair) vout
    else tokenOutputsFrom (totals, vPair) vout

end Outputs

/-- The comparison of the totals, in the order of the output names. -/
def checkTotalsFrom (totalInputs : TokenTotals) : TokenTotals → Check
  | [] => pure ()
  | (name, amount) :: totalOutputs =>
    match OrderedMap.find? name totalInputs with
    | none => reject 100 REJECT_INVALID ("bad-tx-inputs-outputs-mismatch " ++
        "Bad Transaction - Trying to create outpoint for token that you don\x27t have: " ++
        asciiString name) false
    | some total => do
      require (total == amount) 100 REJECT_INVALID ("bad-tx-inputs-outputs-mismatch " ++
        "Bad Transaction - Tokens would be burnt " ++ asciiString name) false
      checkTotalsFrom totalInputs totalOutputs

/-- `Consensus::CheckTxTokens`, returning the reissues it adds to
`vPairReissueTokens`.  `tokensCache` is the cache after the call's fallback
to the current one; `mapReissuedTokens` is the global of the reissues of the
block being connected. -/
def checkTxTokens (C : Crypto) (tx : CTransaction) (inputs : CCoinsMap) (nSpendHeight nSpendTime : Int)
    (fRunningUnitTests : Bool) (tokensCache : Option CTokensCacheView)
    (mapReissuedTokens : Bytes → Option uint256) : Except Failure (List (Bytes × uint256)) := do
  let cache ← if fRunningUnitTests then pure none else
    match tokensCache with
    | some cache => pure (some cache)
    | none => error "Tokens Cache is null, failing"
  require (inputs.haveInputs tx) 100 REJECT_INVALID "bad-txns-inputs-missing-or-spent" false
  let totalInputs ← tokenInputsFrom inputs nSpendHeight nSpendTime [] tx.vin
  let (totalOutputs, vPair) ← tokenOutputsFrom cache mapReissuedTokens (C.getHash tx) ([], []) tx.vout
  checkTotalsFrom totalInputs totalOutputs
  require (totalOutputs.length == totalInputs.length) 100 REJECT_INVALID
    "bad-tx-token-inputs-size-does-not-match-outputs-size" false
  pure vPair

end CheckTxTokens

end AokChain
