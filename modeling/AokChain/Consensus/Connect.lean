import AokChain.Consensus.Block
import AokChain.Consensus.ScriptChecks

/-!
# Block connection

`ConnectBlock` of `validation.cpp`: the checks it repeats, the proof-of-stake
checks of the kernel, the transaction loop that checks each transaction
against the coins view, applies the governance actions of master-key
transactions and spends and creates the coins, and the reward checks after it.

The governance database is a global store: its writes happen inside the loop
and stay whatever `ConnectBlock` returns, so the model returns the database
beside the verdict.  The coins view is the caller's scratch view, returned with
the block's undo record on success only.  Script checks go to a
`CCheckQueueControl` when worker threads exist, and `ConnectBlock` never calls
its `Wait` (the call is commented out in the source).
-/

namespace AokChain
open Serial

/-- What `ConnectBlock` reads of the node that the model does not compute. -/
structure ConnectEnv where
  block : BlockEnv
  /-- `fCheckpointsEnabled` with `Checkpoints::CheckHardened` at a height and hash. -/
  checkHardened : Int → uint256 → Bool
  /-- `GetNextTargetRequired(pindex->pprev, &block, fProofOfStake)`. -/
  getNextTargetRequired : CBlock → Bool → UInt32
  /-- `GetTransaction` of the kernel's previous transaction: its time, if found. -/
  getTxPrevTime : uint256 → Option UInt32
  /-- `CheckStakeKernelHash(pindexPrev, nBits, nValueIn, prevout, nTimeTx, nTimeTxPrev)`. -/
  checkStakeKernelHash : UInt32 → CAmount → COutPoint → UInt32 → UInt32 → Bool
  /-- The `hashAssumeValid` test: whether this block's scripts are checked. -/
  fScriptChecks : Bool
  /-- `GetBlockScriptFlags(pindex, params)`. -/
  flags : UInt32
  nScriptCheckThreads : ℕ
  verify : ScriptVerifier
  scriptExecutionCached : CTransaction → UInt32 → Bool
  /-- `CountWitnessSigOps` past its test of `SCRIPT_VERIFY_WITNESS`. -/
  witnessSigOps : CTxIn → CScript → UInt32 → ℕ

/-- The node's state that the checks read: the active chain, the current token
cache as `CheckTransaction` and as `CheckTxTokens` read it, and the reissues of
the block being connected. -/
structure NodeContext where
  tx : TxContext
  currentTokenCache : Option IssuanceChecks
  currentTokensCacheView : Option CTokensCacheView
  mapReissuedTokens : Bytes → Option uint256

section SigOps

/-- `GetP2SHSigOpCount`. -/
def getP2SHSigOpCount (tx : CTransaction) (inputs : CCoinsMap) : ℕ :=
  if tx.isCoinBase then 0
  else (tx.vin.map fun txin =>
    let prevout := (inputs.accessCoin txin.prevout).out
    if isPayToScriptHash prevout.scriptPubKey then getSigOpCountP2SH prevout.scriptPubKey txin.scriptSig
    else 0).sum

/-- `GetTransactionSigOpCost`. -/
def getTransactionSigOpCost (env : ConnectEnv) (tx : CTransaction) (inputs : CCoinsMap) (flags : UInt32) : ℕ :=
  let nSigOps := getLegacySigOpCount tx * WITNESS_SCALE_FACTOR
  if tx.isCoinBase then nSigOps
  else
    nSigOps + (if flags &&& SCRIPT_VERIFY_P2SH != 0 then getP2SHSigOpCount tx inputs * WITNESS_SCALE_FACTOR else 0) +
      (tx.vin.map fun txin =>
        if flags &&& SCRIPT_VERIFY_WITNESS == 0 then 0
        else env.witnessSigOps txin (inputs.accessCoin txin.prevout).out.scriptPubKey flags).sum

end SigOps

/-- The proof-of-stake checks of `ConnectBlock`: the kernel coin is unspent,
mature and meets the target, and a kernel coin of an offline-staking script
may only pay back to that script. -/
def checkProofOfStake (env : ConnectEnv) (view : CCoinsMap) (block : CBlock) (nHeight : Int) : Check :=
  match block.vtx with
  | _ :: coinstake :: _ =>
    match coinstake.isCoinStake, coinstake.vin with
    | true, kernel :: _ => do
      let prevout := kernel.prevout
      let coin := view.accessCoin prevout
      require (!coin.isSpent) 100 REJECT_INVALID "bad-cs-kernel" false
      require (!(nHeight - coin.nHeight < COINSTAKE_MATURITY)) 100 REJECT_INVALID "bad-cs-premature" false
      match env.getTxPrevTime prevout.hash with
      | none => reject 100 REJECT_INVALID "read-txprev-failed" false
      | some nTimeTxPrev => do
        require (env.checkStakeKernelHash block.nBits coin.out.nValue prevout coinstake.nTime nTimeTxPrev) 100
          REJECT_INVALID "bad-cs-proofhash" false
        if isOfflineStaking coin.out.scriptPubKey then
          require ((coinstake.vout.drop 1).all fun out => out.scriptPubKey == coin.out.scriptPubKey) 100
            REJECT_INVALID "bad-offline-stake" false
    | _, _ => pure ()
  | _ => pure ()

/-- The checks `ConnectBlock` makes before its transaction loop; `false` for the
genesis block, whose transactions are not connected. -/
def connectBlockPrechecks (env : ConnectEnv) (node : NodeContext) (block : CBlock) (hash : uint256)
    (nHeight : Int) (view : CCoinsMap) (fJustCheck ignoreTokenDuplicate : Bool) : Except Failure Bool := do
  require (env.checkHardened nHeight hash) 100 REJECT_CHECKPOINT "bad-fork-hardened-checkpoint" false
  let _ ← checkBlock env.block node.tx node.currentTokenCache block hash (!fJustCheck)
    (!(fJustCheck || ignoreTokenDuplicate)) true
  if hash = node.tx.params.consensus.hashGenesisBlock then pure false
  else do
    require (block.nBits == env.getNextTargetRequired block block.isProofOfStake) 100 REJECT_INVALID
      "bad-diffbits" false
    checkProofOfStake env view block nHeight
    pure true

/-- The accumulators of the transaction loop of `ConnectBlock`. -/
structure ConnectAcc where
  view : CCoinsMap
  nFees : CAmount
  nActualStakeReward : CAmount
  nSigOpsCost : ℕ
  control : CCheckQueueControl
  vtxundo : List CTxUndo

section ConnectTx

variable (env : ConnectEnv) (node : NodeContext) (tokensCache : Option (CTransaction → Check))
  (block : CBlock) (nHeight : Int)
  (checkInputsOf : CTransaction → CCoinsMap → Except Failure (List CScriptCheck))

/-- Whether a transaction carries governance actions: neither a coin base nor
a coin stake, after the deployment, and spending a coin of the master key. -/
def isGovernanceTx (view : CCoinsMap) (tx : CTransaction) : Bool :=
  !tx.isCoinBase && !tx.isCoinStake && node.tx.governanceDeployed &&
    tx.vin.any fun txin => (view.accessCoin txin.prevout).out.scriptPubKey == node.tx.params.governanceMasterScript

/-- The checks of one transaction in the loop, with the accumulators after
them; the coins are not touched yet. -/
def connectTxChecks (governance : CGovernance) (tx : CTransaction) (acc : ConnectAcc) :
    Except Failure ConnectAcc := do
  let ctx := node.tx
  require (!(!ctx.governanceDeployed && tx.nVersion > 1)) 100 REJECT_INVALID "bad-transaction-v2-not-active"
    false
  let nFees ← if tx.isCoinBase then pure acc.nFees else do
    let txfee ← checkTxInputs ctx.params.consensus governance tx acc.view nHeight
    if !ctx.tokensDeployed then
      require (tx.vout.all fun out => !isTokenScript out.scriptPubKey) 100 REJECT_INVALID
        "bad-txns-tokens-not-active" false
    if !ctx.tokensP2SHDeployed then
      require (tx.vout.all fun out => !isScriptNewUsername out.scriptPubKey) 100 REJECT_INVALID
        "bad-txns-userames-not-active" false
    -- the cache pointer lands in `fRunningUnitTests`: a cache given skips the cache checks
    if ctx.tokensDeployed then
      let _ ← checkTxTokens env.block.C tx acc.view nHeight block.nTime.toNat tokensCache.isSome
        node.currentTokensCacheView node.mapReissuedTokens
    pure (acc.nFees + txfee)
  let nSigOpsCost := acc.nSigOpsCost + getTransactionSigOpCost env tx acc.view env.flags
  require (!(nSigOpsCost > MAX_BLOCK_SIGOPS_COST)) 100 REJECT_INVALID "bad-blk-sigops" false
  let nActualStakeReward ← if tx.isCoinStake then
      match tx.getValueOut with
      | some valueOut => pure (valueOut - acc.view.getValueIn tx)
      | none => .error (.exception "GetValueOut: value out of range")
    else pure acc.nActualStakeReward
  let control ← if tx.isCoinBase then pure acc.control else do
    let vChecks ← checkInputsOf tx acc.view
    pure (acc.control.add vChecks)
  match tokensCache with
  | some checkIssuance => checkIssuance tx
  | none => pure ()
  pure { acc with nFees, nSigOpsCost, nActualStakeReward, control }

/-- One transaction of the loop: its checks, then the governance writes, then
`UpdateCoins`, whose undo record is kept for every transaction but the coin
base.  The governance writes stay even where `UpdateCoins` throws. -/
def connectTx (governance : CGovernance) (i : ℕ) (tx : CTransaction) (acc : ConnectAcc) :
    Except Failure ConnectAcc × CGovernance :=
  match connectTxChecks env node tokensCache block nHeight checkInputsOf governance tx acc with
  | .error e => (.error e, governance)
  | .ok acc' =>
    let governance :=
      if isGovernanceTx node acc.view tx then
        governance.applyOutputs node.tx.params.governanceMasterScript nHeight tx.vout
      else governance
    match updateCoins env.block.C tx acc.view nHeight with
    | .error what => (.error (.exception what), governance)
    | .ok (view, txundo) =>
      (.ok { acc' with view, vtxundo := if i > 0 then acc.vtxundo ++ [txundo] else acc.vtxundo }, governance)

/-- The transaction loop from index `i`. -/
def connectTxs : ℕ → List CTransaction → ConnectAcc → CGovernance → Except Failure ConnectAcc × CGovernance
  | _, [], acc, governance => (.ok acc, governance)
  | i, tx :: txs, acc, governance =>
    match connectTx env node tokensCache block nHeight checkInputsOf governance i tx acc with
    | (.error e, governance) => (.error e, governance)
    | (.ok acc, governance) => connectTxs (i + 1) txs acc governance

end ConnectTx

/-- The reward checks after the loop: the coin base of a proof-of-work block and
the coin stake's gain in a proof-of-stake block stay within the fees and the
subsidy. -/
def checkBlockReward (params : ConsensusParams) (block : CBlock) (nHeight : Int) (acc : ConnectAcc) : Check := do
  let blockReward := acc.nFees + getBlockSubsidy nHeight params
  if block.isProofOfWork then
    match block.vtx with
    | coinbase :: _ =>
      match coinbase.getValueOut with
      | some valueOut => require (!(valueOut > blockReward)) 100 REJECT_INVALID "bad-cb-amount" false
      | none => .error (.exception "GetValueOut: value out of range")
    | [] => pure ()
  if block.isProofOfStake then
    require (!(acc.nActualStakeReward > blockReward)) 100 REJECT_INVALID "bad-cs-amount" false

/-- `ConnectBlock(block, state, pindex, view, chainparams, tokensCache, fJustCheck,
ignoreAddressIndex, ignoreTokenDuplicate)` for a block at height `nHeight`: the
verdict with, on success, the view after the block and its undo record; and the
governance database after the call, whatever the verdict. -/
def connectBlock (env : ConnectEnv) (node : NodeContext) (tokensCache : Option (CTransaction → Check))
    (block : CBlock) (nHeight : Int) (view : CCoinsMap) (governance : CGovernance)
    (fJustCheck ignoreTokenDuplicate : Bool) : Except Failure (CCoinsMap × CBlockUndo) × CGovernance :=
  let hash := env.block.C.getBlockHash block.toCBlockHeader
  match connectBlockPrechecks env node block hash nHeight view fJustCheck ignoreTokenDuplicate with
  | .error e => (.error e, governance)
  | .ok false => (.ok (view, ⟨[]⟩), governance)
  | .ok true =>
    let checkInputsOf := fun tx view =>
      checkInputs env.verify env.scriptExecutionCached tx view env.fScriptChecks env.flags
        (env.nScriptCheckThreads != 0)
    let acc : ConnectAcc :=
      ⟨view, 0, 0, 0, CCheckQueueControl.make env.fScriptChecks env.nScriptCheckThreads, []⟩
    match connectTxs env node tokensCache block nHeight checkInputsOf 0 block.vtx acc governance with
    | (.error e, governance) => (.error e, governance)
    | (.ok acc, governance) =>
      -- `control.Wait()` is not called: what the queue concludes is dropped
      match checkBlockReward node.tx.params.consensus block nHeight acc with
      | .error e => (.error e, governance)
      | .ok () => (.ok (acc.view, ⟨acc.vtxundo⟩), governance)

end AokChain
