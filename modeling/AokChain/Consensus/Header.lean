import AokChain.Consensus.ConnectProperties

/-!
# Header checks and the stake timestamp

`ContextualCheckBlockHeader` of `validation.cpp`, which `AcceptBlockHeader` runs
on every header against its parent, and the timestamp rules of `pos.cpp`.

`STAKE_TIMESTAMP_MASK` is the granularity the miner rounds its coin-stake time
to (`txProofTime &= ~STAKE_TIMESTAMP_MASK` in `CreateNewBlock`) and the one the
network-weight estimate of `rpc/blockchain.cpp` multiplies by.  No check of a
block reads it: `CheckStakeBlockTimestamp` hands the block time to
`CheckCoinStakeTimestamp` twice, which compares it with itself, and the
`bad-cs-time` check of `CheckBlock` asks only that the block time equal the
coin stake's.
-/

namespace AokChain
open Serial

def STAKE_TIMESTAMP_MASK : UInt32 := 15

def VERSIONBITS_TOP_BITS_TOKENS : Int32 := 0x30000000

def VERSIONBITS_TOP_BITS_IPFS : Int32 := 0x31000000

def nOfflineStakingVersionMask : Int32 := 0x00002000

/-- `strprintf("bad-version(0x%08x)", nVersion)`. -/
def badVersionReason (nVersion : Int32) : String :=
  let digits := Nat.toDigits 16 nVersion.toUInt32.toNat
  "bad-version(0x" ++ String.ofList (List.replicate (8 - digits.length) '0' ++ digits) ++ ")"

example : badVersionReason 7 = "bad-version(0x00000007)" := by decide

/-- What `ContextualCheckBlockHeader` reads of the node and does not compute. -/
structure HeaderEnv where
  C : Crypto
  /-- `gArgs.GetArg("-maxreorg", Params().MaxReorganizationDepth())`. -/
  nMaxReorgDepth : Int
  /-- `GetNextTargetRequired(pindexPrev, &block, true, params)`. -/
  getNextTargetRequired : CBlock → UInt32
  fCheckpointsEnabled : Bool
  /-- The height of `Checkpoints::GetLastCheckpoint`, the last checkpoint in the block index. -/
  lastCheckpointHeight : Option Int
  /-- `Checkpoints::CheckHardened(nHeight, hash, params.Checkpoints())`. -/
  checkHardened : Int → uint256 → Bool
  nAdjustedTime : Int

/-- What the checks read of `pindexPrev`: its height and `GetPastTimeLimit()`,
which is its own block time. -/
structure PrevIndex where
  nHeight : Int
  nPastTimeLimit : Int

section ContextualCheckBlockHeader

variable (env : HeaderEnv) (ctx : TxContext)

/-- The checkpoint checks, when checkpoints are enabled: no fork below the last
checkpoint, and the hardened hash at a checkpoint height. -/
def checkCheckpoints (block : CBlock) (nHeight : Int) : Check :=
  if env.fCheckpointsEnabled then do
    require (!(env.lastCheckpointHeight.any fun h => nHeight < h)) 100 REJECT_CHECKPOINT
      "bad-fork-prior-to-checkpoint" false
    require (env.checkHardened nHeight (env.C.getBlockHash block.toCBlockHeader)) 100 REJECT_CHECKPOINT
      "bad-fork-hardened-checkpoint" false
  else pure ()

/-- The checks of `ContextualCheckBlockHeader` past the genesis test.  The
`state.Invalid` rejections are `DoS` at level zero. -/
def checkHeaderAgainstPrev (block : CBlock) (pindexPrev : PrevIndex) : Check := do
  let nHeight := pindexPrev.nHeight + 1
  let consensus := ctx.params.consensus
  require (!(ctx.nTipHeight > consensus.nLastPOWBlock && nHeight > consensus.nLastPOWBlock &&
    block.nBits != env.getNextTargetRequired block)) 100 REJECT_INVALID "bad-diffbits" false
  checkCheckpoints env block nHeight
  require (!(block.getBlockTime ≤ pindexPrev.nPastTimeLimit)) 0 REJECT_INVALID "time-too-old" false
  require (!(block.getBlockTime > futureDrift env.nAdjustedTime)) 0 REJECT_INVALID "time-too-new" false
  require (!(nHeight > consensus.nLastPOWBlock && !checkStakeBlockTimestamp block.getBlockTime)) 100
    REJECT_INVALID "bad-pos-time" false
  require (!(ctx.tokensDeployed && block.nVersion < VERSIONBITS_TOP_BITS_TOKENS)) 0 REJECT_OBSOLETE
    (badVersionReason block.nVersion) false
  require (!(ctx.tokensIPFSDeployed && block.nVersion < VERSIONBITS_TOP_BITS_IPFS)) 0 REJECT_OBSOLETE
    (badVersionReason block.nVersion) false
  require (!(block.nVersion &&& nOfflineStakingVersionMask != nOfflineStakingVersionMask &&
    ctx.governanceDeployed)) 0 REJECT_OBSOLETE (badVersionReason block.nVersion) false

/-- `ContextualCheckBlockHeader`: the max-reorg test, and for any block but the
genesis block the checks against its parent. -/
def contextualCheckBlockHeader (block : CBlock) (pindexPrev : PrevIndex) (hash : uint256) : Check := do
  let nHeight := pindexPrev.nHeight + 1
  require (!(ctx.nTipHeight - (nHeight - 1) ≥ env.nMaxReorgDepth)) 25 REJECT_MAXREORGDEPTH
    "bad-fork-prior-to-maxreorgdepth" false
  if hash = ctx.params.consensus.hashGenesisBlock then pure ()
  else checkHeaderAgainstPrev env ctx block pindexPrev

/-- `CheckStakeBlockTimestamp` accepts every time. -/
@[simp] theorem checkStakeBlockTimestamp_eq_true (nTimeBlock : Int) : checkStakeBlockTimestamp nTimeBlock = true := by
  simp [checkStakeBlockTimestamp, checkCoinStakeTimestamp]

theorem badVersionReason_ne_badPosTime (nVersion : Int32) : badVersionReason nVersion ≠ "bad-pos-time" := by
  intro h
  -- the two texts part at their fifth character
  have h5 := congrArg (fun s : String => s.toList.take 5) h
  simp [badVersionReason, String.toList_append] at h5

theorem checkCheckpoints_reasons {block : CBlock} {nHeight : Int} {r : String}
    (h : rejectReason (checkCheckpoints env block nHeight) = some r) :
    r = "bad-fork-prior-to-checkpoint" ∨ r = "bad-fork-hardened-checkpoint" := by
  unfold checkCheckpoints at h
  split at h
  · rcases rejectReason_require_bind h with ⟨-, rfl⟩ | ⟨-, h⟩
    · exact Or.inl rfl
    · exact Or.inr (rejectReason_require_eq_some.mp h).2
  · cases h

/-- Every rejection of the checks against the parent: the stake-time guard is
never the one that fails. -/
theorem checkHeaderAgainstPrev_reasons {block : CBlock} {pindexPrev : PrevIndex} {r : String}
    (h : rejectReason (checkHeaderAgainstPrev env ctx block pindexPrev) = some r) :
    r ∈ ["bad-diffbits", "bad-fork-prior-to-checkpoint", "bad-fork-hardened-checkpoint", "time-too-old",
      "time-too-new", badVersionReason block.nVersion] := by
  simp only [checkHeaderAgainstPrev] at h
  rcases rejectReason_require_bind h with ⟨-, rfl⟩ | ⟨-, h⟩
  · simp
  rcases rejectReason_bind h with h | ⟨_, -, h⟩
  · rcases checkCheckpoints_reasons env h with rfl | rfl <;> simp
  rcases rejectReason_require_bind h with ⟨-, rfl⟩ | ⟨-, h⟩
  · simp
  rcases rejectReason_require_bind h with ⟨-, rfl⟩ | ⟨-, h⟩
  · simp
  rcases rejectReason_require_bind h with ⟨hpos, -⟩ | ⟨-, h⟩
  · simp at hpos
  rcases rejectReason_require_bind h with ⟨-, rfl⟩ | ⟨-, h⟩
  · simp
  rcases rejectReason_require_bind h with ⟨-, rfl⟩ | ⟨-, h⟩
  · simp
  rcases rejectReason_require_eq_some.mp h with ⟨-, rfl⟩
  simp

theorem contextualCheckBlockHeader_reasons {block : CBlock} {pindexPrev : PrevIndex} {hash : uint256} {r : String}
    (h : rejectReason (contextualCheckBlockHeader env ctx block pindexPrev hash) = some r) :
    r ∈ ["bad-fork-prior-to-maxreorgdepth", "bad-diffbits", "bad-fork-prior-to-checkpoint",
      "bad-fork-hardened-checkpoint", "time-too-old", "time-too-new", badVersionReason block.nVersion] := by
  simp only [contextualCheckBlockHeader] at h
  rcases rejectReason_require_bind h with ⟨-, rfl⟩ | ⟨-, h⟩
  · simp
  split at h
  · cases h
  · exact List.mem_cons_of_mem _ (checkHeaderAgainstPrev_reasons env ctx h)

end ContextualCheckBlockHeader

theorem checkProofOfStakeLayout_time {block : CBlock} (h : checkProofOfStakeLayout block = .ok ())
    (hpos : block.isProofOfStake = true) :
    ∃ coinbase coinstake rest, block.vtx = coinbase :: coinstake :: rest ∧ block.getBlockTime = coinstake.nTime.toNat := by
  unfold CBlock.isProofOfStake at hpos
  rcases hvtx : block.vtx with _ | ⟨coinbase, _ | ⟨coinstake, rest⟩⟩
  · simp [hvtx] at hpos
  · simp [hvtx] at hpos
  simp only [hvtx] at hpos
  simp only [checkProofOfStakeLayout, hvtx, hpos, if_true] at h
  obtain ⟨_, htime, -⟩ := Except.bind_eq_ok.mp h
  have htime := require_eq_ok.mp htime
  exact ⟨coinbase, coinstake, rest, rfl, by simpa [checkCoinStakeTimestamp] using htime⟩

/-- A block that `CheckBlock` checks and accepts passed its proof-of-stake layout checks. -/
theorem checkProofOfStakeLayout_of_checkBlock {env : BlockEnv} {ctx : TxContext}
    {tokenCache : Option IssuanceChecks} {block : CBlock} {hash : uint256} {fCheckPOW fCheckMerkleRoot fCheckSig fChecked : Bool}
    (hf : block.fChecked = false)
    (h : checkBlock env ctx tokenCache block hash fCheckPOW fCheckMerkleRoot fCheckSig = .ok fChecked) :
    checkProofOfStakeLayout block = .ok () := by
  simp only [checkBlock, hf, Bool.false_eq_true, if_false] at h
  obtain ⟨_, -, h⟩ := Except.bind_eq_ok.mp h
  -- the Merkle checks run only with fCheckMerkleRoot; the size and coin-base checks follow either way
  split at h
  on_goal 1 =>
    obtain ⟨_, -, h⟩ := Except.bind_eq_ok.mp h
    obtain ⟨_, -, h⟩ := Except.bind_eq_ok.mp h
  all_goals
    obtain ⟨_, -, h⟩ := Except.bind_eq_ok.mp h
    split at h
    · cases h
    · obtain ⟨_, -, h⟩ := Except.bind_eq_ok.mp h
      obtain ⟨_, -, h⟩ := Except.bind_eq_ok.mp h
      obtain ⟨_, -, h⟩ := Except.bind_eq_ok.mp h
      obtain ⟨⟨⟩, hlayout, -⟩ := Except.bind_eq_ok.mp h
      exact hlayout

section StakeTimeFixtures

def unmaskedTime : UInt32 := blockTime + 1

/-- The coin stake of `stakeOf 0`, timed one second past a slot boundary. -/
def unmaskedStake : CTransaction := { stakeOf 0 with nTime := unmaskedTime }

/-- A proof-of-stake block of the governance era at `unmaskedTime`, of the
version the deployments ask for, with its Merkle root filled in. -/
def unmaskedBlock : CBlock :=
  let block : CBlock := ⟨⟨VERSIONBITS_TOP_BITS_IPFS ||| nOfflineStakingVersionMask, 0, 0, unmaskedTime, 0, 0⟩,
    [posCoinbase, unmaskedStake], [1], false⟩
  { block with hashMerkleRoot := (blockMerkleRoot Crypto.truncating block).1 }

/-- A node whose header target and hardened checkpoints pass, with the main
network's last checkpoint and the clock of `acceptingEnv`. -/
def acceptingHeaderEnv : HeaderEnv where
  C := Crypto.truncating
  nMaxReorgDepth := 500
  getNextTargetRequired block := block.nBits
  fCheckpointsEnabled := true
  lastCheckpointHeight := some 860000
  checkHardened _ _ := true
  nAdjustedTime := 2000000000

/-- The parent of `unmaskedBlock`, a minute older. -/
def unmaskedParent : PrevIndex := ⟨871499, blockTime.toNat - 60⟩

end StakeTimeFixtures

/-- The only stake-time rule a block meets is the coin-stake equality of
`CheckBlock`: `ContextualCheckBlockHeader` never rejects a header for its time
as a stake block, so nothing asks the time to be a multiple of
`STAKE_TIMESTAMP_MASK + 1`. -/
theorem stakeTimestamp_mask_unchecked (henv : HeaderEnv) (env : BlockEnv) (ctx : TxContext)
    (tokenCache : Option IssuanceChecks) (block : CBlock) (pindexPrev : PrevIndex) (hash : uint256)
    (fCheckPOW fCheckMerkleRoot fCheckSig fChecked : Bool) :
    rejectReason (contextualCheckBlockHeader henv ctx block pindexPrev hash) ≠ some "bad-pos-time" ∧
      (block.fChecked = false →
        checkBlock env ctx tokenCache block (env.C.getBlockHash block.toCBlockHeader) fCheckPOW fCheckMerkleRoot
          fCheckSig = .ok fChecked →
        block.isProofOfStake = true →
        ∃ coinbase coinstake rest, block.vtx = coinbase :: coinstake :: rest ∧
          block.getBlockTime = coinstake.nTime.toNat) := by
  refine ⟨fun h => ?_, fun hf hcheck hpos => checkProofOfStakeLayout_time (checkProofOfStakeLayout_of_checkBlock hf hcheck) hpos⟩
  have hmem := contextualCheckBlockHeader_reasons henv ctx h
  simp only [List.mem_cons, List.not_mem_nil, or_false] at hmem
  rcases hmem with h | h | h | h | h | h | h
  all_goals first | exact absurd h (by decide) | exact badVersionReason_ne_badPosTime _ h.symm

set_option maxRecDepth 10000 in
/-- `unmaskedBlock`, one second into a sixteen-second slot, passes the header,
block and connection checks at height 871500. -/
theorem unmaskedBlock_accepted :
    unmaskedBlock.nTime &&& STAKE_TIMESTAMP_MASK ≠ 0 ∧ unmaskedBlock.isProofOfStake = true ∧
      mainParams.consensus.nLastPOWBlock < 871500 ∧
      contextualCheckBlockHeader acceptingHeaderEnv (tipNode 871499).tx unmaskedBlock unmaskedParent
        (Crypto.truncating.getBlockHash unmaskedBlock.toCBlockHeader) = .ok () ∧
      checkBlock (acceptingEnv acceptAll).block (tipNode 871499).tx (some passIssuance) unmaskedBlock
        (Crypto.truncating.getBlockHash unmaskedBlock.toCBlockHeader) true true true = .ok true ∧
      (acceptBlockChecks (acceptingEnv acceptAll).block (tipNode 871499).tx (some passIssuance) unmaskedBlock
        871500).toBool = true ∧
      (connectBlock (acceptingEnv acceptAll) (tipNode 871499) passTokensCache unmaskedBlock 871500 governanceView
        CGovernance.empty false false).1.toBool = true ∧
      unmaskedBlock.getBlockTime = unmaskedStake.nTime.toNat := by
  have hcheck : checkBlock (acceptingEnv acceptAll).block (tipNode 871499).tx (some passIssuance) unmaskedBlock
      (Crypto.truncating.getBlockHash unmaskedBlock.toCBlockHeader) true true true = .ok true := by decide
  have hpos : unmaskedBlock.isProofOfStake = true := by decide
  obtain ⟨_, htime⟩ := stakeTimestamp_mask_unchecked acceptingHeaderEnv (acceptingEnv acceptAll).block
    (tipNode 871499).tx (some passIssuance) unmaskedBlock unmaskedParent
    (Crypto.truncating.getBlockHash unmaskedBlock.toCBlockHeader) true true true true
  obtain ⟨_, coinstake, _, hvtx, htime⟩ := htime rfl hcheck hpos
  have hstake : coinstake = unmaskedStake := by
    simp only [unmaskedBlock, List.cons.injEq] at hvtx
    exact hvtx.2.1.symm
  refine ⟨by decide, hpos, by decide, by decide, hcheck, by decide, by decide, ?_⟩
  rw [htime, hstake]

end AokChain

