import AokChain.Consensus.Connect

/-!
# What connecting a block guarantees

Properties of `ConnectBlock` over every block, view and environment, each with
the block at which the guarantee one would expect of it fails: script checks
handed to a queue whose verdict is dropped, a coin stake outside the second
place that pays itself without limit, governance writes that outlive a call
that checks only or fails, and offline-staking coins that only the kernel input
keeps in their script.

The blocks are built over `Crypto.truncating`, in an environment where headers,
kernels, signatures and checkpoints pass, so that what decides their fate is
the code of `ConnectBlock` and `CheckBlock` itself.
-/

namespace AokChain
open Serial

section Fixtures

def blockTime : UInt32 := 1600000000

def stakerID : Bytes := List.replicate 20 7

def ownerID : Bytes := List.replicate 20 9

/-- The key-hash script of the staker. -/
def stakerScript : CScript := payToPubKeyHash stakerID

/-- The owner's coins that the staker may stake and not spend. -/
def offlineScript : CScript := payToOfflineStaking stakerID ownerID

def acceptAll : ScriptVerifier := fun _ => .SCRIPT_ERR_OK

/-- An environment in which headers, kernels, signatures and checkpoints pass,
and scripts run inline through `verify`. -/
def acceptingEnv (verify : ScriptVerifier) : ConnectEnv where
  block := ⟨Crypto.truncating, fun _ _ => true, fun _ _ => true, 2000000000⟩
  checkHardened _ _ := true
  getNextTargetRequired block _ := block.nBits
  getTxPrevTime _ := some 0
  checkStakeKernelHash _ _ _ _ _ := true
  fScriptChecks := true
  flags := SCRIPT_VERIFY_P2SH
  nScriptCheckThreads := 0
  verify := verify
  scriptExecutionCached _ _ := false
  witnessSigOps _ _ _ := 0

/-- Issuance checks that pass every transaction.  They stand for the issuance
branches of `CheckTransaction` only for blocks that issue no token, where those
branches are never reached; a block that issues tokens is checked on
`tokenNode`, whose issuance checks run against a token cache. -/
def passIssuance : IssuanceChecks := ⟨fun _ => pure (), fun _ => pure (), fun _ => pure (), fun _ => pure ()⟩

/-- The main network with its tip at height `tip`, the issuance checks
`passIssuance`, a token view that knows no token, and no reissue in the block:
a node for blocks that issue no token. -/
def tipNode (tip : Int) : NodeContext :=
  ⟨⟨mainParams, tip, false⟩, some passIssuance, some ⟨fun _ => none, fun _ => .ok ()⟩, fun _ => none⟩

/-- The token cache `ConnectTip` passes, through which the issuance checks run. -/
def passTokensCache : Option (CTransaction → Check) := some fun _ => pure ()

def coinbaseTx (nHeight : Int64) (vout : List CTxOut) : CTransaction :=
  ⟨[⟨⟨0, 0xffffffff⟩, pushInt64 nHeight, SEQUENCE_FINAL, []⟩], vout, 1, 0, blockTime, []⟩

def spendTx (vin : List COutPoint) (vout : List CTxOut) : CTransaction :=
  ⟨vin.map fun prevout => ⟨prevout, [], SEQUENCE_FINAL, []⟩, vout, 1, 0, blockTime, []⟩

/-- The empty output that marks a coin stake, and that a proof-of-stake coin base pays. -/
def emptyOut : CTxOut := ⟨0, []⟩

/-- A block of version 7 at `blockTime` with its Merkle root filled in, as the
miner fills it. -/
def fixtureBlock (vtx : List CTransaction) (vchBlockSig : Bytes) : CBlock :=
  let block : CBlock := ⟨⟨7, 0, 0, blockTime, 0, 0⟩, vtx, vchBlockSig, false⟩
  { block with hashMerkleRoot := (blockMerkleRoot Crypto.truncating block).1 }

def viewOf (coins : List (COutPoint × Coin)) : CCoinsMap :=
  coins.foldl (fun view entry => view.insert entry.1 entry.2) ∅

def outX1 : COutPoint := ⟨1, 0⟩

def outX2 : COutPoint := ⟨2, 0⟩

/-- Two mature coin-base outputs of 1 COIN to the staker. -/
def earlyView : CCoinsMap :=
  viewOf [(outX1, Coin.make ⟨COIN, stakerScript⟩ 1 true false 0), (outX2, Coin.make ⟨COIN, stakerScript⟩ 1 true false 0)]

def earlyCoinbase : CTransaction := coinbaseTx 100 [⟨4 * COIN, stakerScript⟩]

def plainSpend : CTransaction := spendTx [outX1] [⟨COIN, stakerScript⟩]

end Fixtures

section Verifier

variable (env : ConnectEnv) (verify : ScriptVerifier) (node : NodeContext)
  (tokensCache : Option (CTransaction → Check)) (block : CBlock) (nHeight : Int)
  (checkInputsOf : CTransaction → CCoinsMap → Except Failure (List CScriptCheck))

/-- A step of the loop reads the verifier only through the input checker it is
given. -/
theorem connectTx_verify (governance : CGovernance) (i : ℕ) (tx : CTransaction) (acc : ConnectAcc) :
    connectTx { env with verify } node tokensCache block nHeight checkInputsOf governance i tx acc =
      connectTx env node tokensCache block nHeight checkInputsOf governance i tx acc := rfl

theorem connectTxs_verify :
    ∀ (i : ℕ) (txs : List CTransaction) (acc : ConnectAcc) (governance : CGovernance),
      connectTxs { env with verify } node tokensCache block nHeight checkInputsOf i txs acc governance =
        connectTxs env node tokensCache block nHeight checkInputsOf i txs acc governance := by
  intro i txs
  -- on the transactions left, with the index and the accumulators free
  induction txs generalizing i with
  | nil => intro acc governance; rfl
  | cons tx txs ih =>
    intro acc governance
    simp only [connectTxs, connectTx_verify]
    split <;> simp [ih]

/-- With worker threads, the verdict of `ConnectBlock`, the view and undo
record it returns and its governance writes are the same whatever the scripts
verify to: the checks go to a queue whose `Wait` is never called. -/
theorem connectBlock_ignores_verifier (hthreads : 0 < env.nScriptCheckThreads) (view : CCoinsMap)
    (governance : CGovernance) (fJustCheck ignoreTokenDuplicate : Bool) :
    connectBlock { env with verify } node tokensCache block nHeight view governance fJustCheck
        ignoreTokenDuplicate =
      connectBlock env node tokensCache block nHeight view governance fJustCheck ignoreTokenDuplicate := by
  have hdeferred : (env.nScriptCheckThreads != 0) = true := by
    simpa using Nat.pos_iff_ne_zero.mp hthreads
  -- the checker the loop is given defers every check, and deferring reads no script
  have hinputs : (fun tx view => checkInputs verify env.scriptExecutionCached tx view env.fScriptChecks
      env.flags (env.nScriptCheckThreads != 0)) =
      fun tx view => checkInputs env.verify env.scriptExecutionCached tx view env.fScriptChecks env.flags
        (env.nScriptCheckThreads != 0) := by
    funext tx view
    rw [hdeferred]
    exact checkInputs_deferred verify env.verify _ tx view _ _
  unfold connectBlock
  simp only [connectTxs_verify, hinputs]
  rfl

end Verifier

/-- A verifier that fails every script. -/
def evalFalse : ScriptVerifier := fun _ => .SCRIPT_ERR_EVAL_FALSE

def threadedEnv : ConnectEnv := { acceptingEnv acceptAll with nScriptCheckThreads := 1 }

set_option maxRecDepth 10000 in
/-- A block spending a coin whose script fails: with one worker thread it
connects as it does with every script valid, while run inline it is rejected. -/
theorem failingScript_connects :
    0 < threadedEnv.nScriptCheckThreads ∧
      connectBlock { threadedEnv with verify := evalFalse } (tipNode 99) passTokensCache
          (fixtureBlock [earlyCoinbase, plainSpend] []) 100 earlyView CGovernance.empty false false =
        connectBlock threadedEnv (tipNode 99) passTokensCache (fixtureBlock [earlyCoinbase, plainSpend] [])
          100 earlyView CGovernance.empty false false ∧
      (connectBlock { threadedEnv with verify := evalFalse } (tipNode 99) passTokensCache
          (fixtureBlock [earlyCoinbase, plainSpend] []) 100 earlyView CGovernance.empty false false).1.toBool =
        true ∧
      rejectReason (connectBlock (acceptingEnv evalFalse) (tipNode 99) passTokensCache
          (fixtureBlock [earlyCoinbase, plainSpend] []) 100 earlyView CGovernance.empty false false).1 =
        some ("mandatory-script-verify-flag-failed (" ++
          "Script evaluated without error but finished with a false/empty top stack element)") :=
  ⟨by decide, connectBlock_ignores_verifier threadedEnv evalFalse _ _ _ _ (by decide) _ _ _ _,
    by decide, by decide⟩

section Supply

/-- The value a view holds: the exact sum of its coins' values. -/
def CCoinsMap.totalValue (view : CCoinsMap) : ℤ :=
  (view.entries.map fun entry => entry.2.out.nValue.toInt).sum

/-- The subsidies of the blocks at heights `1` to `nHeight`, exactly. -/
def totalSubsidy (params : ConsensusParams) (nHeight : ℕ) : ℤ :=
  ((List.range nHeight).map fun h => (getBlockSubsidy (h + 1) params).toInt).sum

/-- A coin stake counts no fee and is not held to spend what it pays out. -/
theorem checkTxInputs_coinStake {params : ConsensusParams} {governance : CGovernance}
    {tx : CTransaction} {inputs : CCoinsMap} {nSpendHeight : Int} {txfee : CAmount}
    (hstake : tx.isCoinStake = true)
    (h : checkTxInputs params governance tx inputs nSpendHeight = .ok txfee) : txfee = 0 := by
  unfold checkTxInputs at h
  obtain ⟨_, -, h⟩ := Except.bind_eq_ok.mp h
  obtain ⟨_, -, h⟩ := Except.bind_eq_ok.mp h
  split at h
  · rw [if_pos hstake] at h
    exact (Except.ok.inj h).symm
  · cases h

/-- In a proof-of-work block the coin stake's gain is never compared with the
reward. -/
theorem checkBlockReward_proofOfWork (params : ConsensusParams) (block : CBlock) (nHeight : Int)
    (acc : ConnectAcc) (r : CAmount) (hpow : block.isProofOfWork = true) :
    checkBlockReward params block nHeight { acc with nActualStakeReward := r } =
      checkBlockReward params block nHeight acc := by
  have hpos : block.isProofOfStake = false := by simpa [CBlock.isProofOfWork] using hpow
  -- the two sides differ only in the branch a proof-of-stake block takes
  unfold checkBlockReward
  rw [hpos]
  simp only [Bool.false_eq_true, if_false]

end Supply

/-- A coin stake in third place, which makes its block one of proof of work: it
spends 1 COIN and pays 90000000000 COIN. -/
def mintStake : CTransaction := spendTx [outX2] [emptyOut, ⟨90000000000 * COIN, stakerScript⟩]

def mintBlock : CBlock := fixtureBlock [earlyCoinbase, plainSpend, mintStake] []

set_option maxRecDepth 10000 in
/-- The block passes the checks of `AcceptBlock` and connects, and the view it
leaves holds more than every subsidy up to its height together. -/
theorem misplacedCoinStake_mints :
    (acceptBlockChecks (acceptingEnv acceptAll).block (tipNode 99).tx passIssuance mintBlock 100).toBool = true ∧
      ((connectBlock (acceptingEnv acceptAll) (tipNode 99) passTokensCache mintBlock 100 earlyView
          CGovernance.empty false false).1.toOption.map fun r => r.1.totalValue) =
        some (90000000005 * COIN.toInt) ∧
      totalSubsidy mainConsensus 100 < 90000000000 * COIN.toInt :=
  ⟨by decide, by decide, by decide⟩

section GovernanceFixtures

def kernelOut : COutPoint := ⟨11, 0⟩

def masterOut : COutPoint := ⟨12, 0⟩

def ownerScript : CScript := payToPubKeyHash ownerID

/-- The staker's coin and a coin of the master key, both confirmed at height 871000. -/
def governanceView : CCoinsMap :=
  viewOf [(kernelOut, Coin.make ⟨1000 * COIN, stakerScript⟩ 871000 false false 0),
    (masterOut, Coin.make ⟨COIN, mainParams.governanceMasterScript⟩ 871000 false false 0)]

def posCoinbase : CTransaction := coinbaseTx 871500 [emptyOut]

/-- The coin stake on the staker's coin, with a gain of `reward`. -/
def stakeOf (reward : CAmount) : CTransaction :=
  spendTx [kernelOut] [emptyOut, ⟨1000 * COIN + reward, stakerScript⟩]

/-- The output of a master-key transaction that freezes `script`. -/
def freezeOut (script : CScript) : CTxOut :=
  ⟨0, [OP_RETURN] ++ pushData ([GOVERNANCE_MARKER, GOVERNANCE_ACTION, GOVERNANCE_FREEZE,
    UInt8.ofNat script.length] ++ script)⟩

/-- The master key freezes the owner's key-hash script. -/
def freezeTx : CTransaction := spendTx [masterOut] [freezeOut ownerScript]

/-- The first proof-of-stake block of the governance era, freezing the owner. -/
def freezeBlock (reward : CAmount) : CBlock := fixtureBlock [posCoinbase, stakeOf reward, freezeTx] [1]

end GovernanceFixtures

set_option maxRecDepth 10000 in
/-- Checking a block that freezes an address, with `fJustCheck` as
`TestBlockValidity` passes it, freezes the address; so does a block whose coin
stake claims more than the reward, which is rejected after the write. -/
theorem freeze_outlives_connectBlock :
    CGovernance.empty.canSend ownerScript = true ∧
      (connectBlock (acceptingEnv acceptAll) (tipNode 871499) passTokensCache (freezeBlock 0) 871500
          governanceView CGovernance.empty true false).1.toBool = true ∧
      (connectBlock (acceptingEnv acceptAll) (tipNode 871499) passTokensCache (freezeBlock 0) 871500
          governanceView CGovernance.empty true false).2.canSend ownerScript = false ∧
      rejectReason (connectBlock (acceptingEnv acceptAll) (tipNode 871499) passTokensCache
          (freezeBlock (4 * COIN)) 871500 governanceView CGovernance.empty false false).1 = some "bad-cs-amount" ∧
      (connectBlock (acceptingEnv acceptAll) (tipNode 871499) passTokensCache (freezeBlock (4 * COIN)) 871500
          governanceView CGovernance.empty false false).2.canSend ownerScript = false :=
  ⟨by decide, by decide, by decide, by decide, by decide⟩

section CustodyFixtures

def offlineOut : COutPoint := ⟨13, 0⟩

/-- The staker's coin of 1000 COIN and an owner's offline-staking coin of 5000 COIN. -/
def custodyView : CCoinsMap :=
  viewOf [(kernelOut, Coin.make ⟨1000 * COIN, stakerScript⟩ 871000 false false 0),
    (offlineOut, Coin.make ⟨5000 * COIN, offlineScript⟩ 871000 false false 0)]

end CustodyFixtures

section Custody

/-- The exact value of the outputs paying `script`. -/
def valuePaidTo (script : CScript) (vout : List CTxOut) : ℤ :=
  ((vout.filter fun out => out.scriptPubKey == script).map fun out => out.nValue.toInt).sum

/-- The exact value of the coins of `script` that a transaction spends. -/
def valueSpentFrom (view : CCoinsMap) (script : CScript) (tx : CTransaction) : ℤ :=
  valuePaidTo script (tx.vin.map fun txin => (view.accessCoin txin.prevout).out)

end Custody

/-- What the staker's key unlocks, as `VerifyScript` finds it: the staker's own
coins and, in a coin stake, where `OP_OFFLINE_STAKE` pushes true, the
offline-staking coins whose staker branch is the staker's key. -/
def stakerKeyVerifier : ScriptVerifier := fun check =>
  let script := check.txout.scriptPubKey
  if script == stakerScript ||
      (isOfflineStaking script && check.txTo.isCoinStake && (script.drop 2).take 25 == stakerScript) then
    .SCRIPT_ERR_OK
  else .SCRIPT_ERR_EVAL_FALSE

/-- A coin stake spending `vin` and paying all 6000 COIN to the staker's own key. -/
def sweepStake (vin : List COutPoint) : CTransaction :=
  spendTx vin [emptyOut, ⟨6000 * COIN, stakerScript⟩]

def sweepBlock (vin : List COutPoint) : CBlock := fixtureBlock [posCoinbase, sweepStake vin] [1]

set_option maxRecDepth 10000 in
/-- A coin stake on the staker's own kernel that also spends the owner's
offline-staking coin connects and pays it to the staker; with the owner's coin
as the kernel the same sweep is refused. -/
theorem offlineStake_swept :
    (connectBlock (acceptingEnv stakerKeyVerifier) (tipNode 871499) passTokensCache
        (sweepBlock [kernelOut, offlineOut]) 871500 custodyView CGovernance.empty false false).1.toBool = true ∧
      valuePaidTo offlineScript (sweepStake [kernelOut, offlineOut]).vout <
        valueSpentFrom custodyView offlineScript (sweepStake [kernelOut, offlineOut]) ∧
      rejectReason (connectBlock (acceptingEnv stakerKeyVerifier) (tipNode 871499) passTokensCache
        (sweepBlock [offlineOut, kernelOut]) 871500 custodyView CGovernance.empty false false).1 =
        some "bad-offline-stake" :=
  ⟨by decide, by decide, by decide⟩

end AokChain
