import AokChain.Consensus.TxVerify

/-!
# Block checks

`CheckBlockHeader`, `CheckBlock`, `ContextualCheckBlock` and the verdict
`AcceptBlock` draws from them (`validation.cpp`), with the merkle computation of
`consensus/merkle.cpp` and the proof-of-stake helpers of `pos.cpp` and
`miner.cpp`.  `CheckBlock` runs `CheckTransaction` on every transaction, so it
reads the same node context: the active chain's height and the current token
cache.  Proof-of-work and block-signature verification and the adjusted clock
are the parameters `BlockEnv` collects.
-/

namespace AokChain
open Serial

/-- `FutureDrift`: ten minutes past a time. -/
def futureDrift (nTime : Int) : Int := nTime + 10 * 60

section Merkle

variable (C : Crypto)

/-- `CHash256().Write(a).Write(b)` on two 32-byte hashes. -/
def hashPair (a b : uint256) : uint256 := C.hash256 (serUint256 a ++ serUint256 b)

/-- The inner loop of `MerkleComputation`: while bit `level` of `count` is
clear, combine `inner[level]` with `h` and move a level up.  It records whether
it combined two equal hashes.  `fuel` bounds the levels by the 32 bits of the
counter. -/
def mergeLevels (inner : ℕ → uint256) (count : ℕ) :
    ℕ → ℕ → uint256 → Bool → ℕ × uint256 × Bool
  | 0, level, h, mutated => (level, h, mutated)
  | fuel + 1, level, h, mutated =>
    if count.testBit level then (level, h, mutated)
    else mergeLevels inner count fuel (level + 1) (hashPair C (inner level) h) (mutated || inner level == h)

/-- The state of `MerkleComputation` between leaves. -/
structure MerkleState where
  count : ℕ
  inner : ℕ → uint256
  mutated : Bool

/-- One leaf of `MerkleComputation`'s main loop. -/
def merkleStep (st : MerkleState) (h : uint256) : MerkleState :=
  let count := st.count + 1
  let (level, h, mutated) := mergeLevels C st.inner count 32 0 h st.mutated
  ⟨count, Function.update st.inner level h, mutated⟩

/-- The lowest set bit of `count`, from `level` up. -/
def lowestSetBit (count : ℕ) : ℕ → ℕ → ℕ
  | 0, level => level
  | fuel + 1, level => if count.testBit level then level else lowestSetBit count fuel (level + 1)

/-- The final loop of `MerkleComputation`: a subtree of `2 ^ level` leaves that
is not yet the whole tree is hashed with itself, which pads the leaf count up
to the next multiple of `2 ^ (level + 1)`, and the inner hashes above it fold
in. -/
def merkleFinish (inner : ℕ → uint256) : ℕ → ℕ → ℕ → uint256 → uint256
  | 0, _, _, h => h
  | fuel + 1, count, level, h =>
    if count = 2 ^ level then h
    else
      let count := count + 2 ^ level
      let (level, h, _) := mergeLevels C inner count 32 (level + 1) (hashPair C h h) false
      merkleFinish inner fuel count level h

/-- `ComputeMerkleRoot`: the root and whether some level combined two equal
hashes, the mutation of CVE-2012-2459. -/
def computeMerkleRoot (leaves : List uint256) : uint256 × Bool :=
  if leaves.isEmpty then (0, false)
  else
    let st := leaves.foldl (merkleStep C) ⟨0, fun _ => 0, false⟩
    let level := lowestSetBit st.count 32 0
    (merkleFinish C st.inner 32 st.count level (st.inner level), st.mutated)

/-- `BlockMerkleRoot`: over the transaction ids. -/
def blockMerkleRoot (block : CBlock) : uint256 × Bool := computeMerkleRoot C (block.vtx.map C.getHash)

/-- `BlockWitnessMerkleRoot`: over the witness ids, with zero for the coin base
and, in a proof-of-stake block, for the coin stake. -/
def blockWitnessMerkleRoot (block : CBlock) : uint256 × Bool :=
  computeMerkleRoot C (block.vtx.zipIdx.map fun (tx, i) =>
    if i = 0 || (i = 1 && block.isProofOfStake) then 0 else C.getWitnessHash tx)

end Merkle

/-- What block validation reads besides the block, the parameters and the node
context, and does not compute here. -/
structure BlockEnv where
  C : Crypto
  /-- `CheckProofOfWork(hash, nBits, params)`. -/
  checkProofOfWork : uint256 → UInt32 → Bool
  /-- The proof-of-stake branch of `CheckBlockSignature`: `GetBlockPublicKey`
  and `CPubKey::Verify`. -/
  verifyStakeBlockSignature : CBlock → uint256 → Bool
  /-- `GetAdjustedTime()`. -/
  nAdjustedTime : Int

namespace CBlock

/-- `block.vtx[i]`, when there is one. -/
def vtxAt (block : CBlock) (i : ℕ) : Option CTransaction := block.vtx[i]?

end CBlock

/-- `CheckCoinStakeTimestamp`. -/
def checkCoinStakeTimestamp (nTimeBlock nTimeTx : Int) : Bool := nTimeBlock == nTimeTx

/-- `CheckStakeBlockTimestamp`: `CheckCoinStakeTimestamp` of the block time with
itself. -/
def checkStakeBlockTimestamp (nTimeBlock : Int) : Bool := checkCoinStakeTimestamp nTimeBlock nTimeBlock

/-- The output `GenerateCoinbaseCommitment` adds: `OP_RETURN`, a 36-byte push
and the tag `aa21a9ed`. -/
def isWitnessCommitment (s : CScript) : Bool :=
  s.length ≥ 38 && byteAt s 0 == OP_RETURN && byteAt s 1 == 0x24 && byteAt s 2 == 0xaa &&
    byteAt s 3 == 0x21 && byteAt s 4 == 0xa9 && byteAt s 5 == 0xed

/-- `GetWitnessCommitmentIndex` (and its copy `GetWitnessCommitmentIndexPos` of
`miner.cpp`): the last commitment output of the coin base. -/
def getWitnessCommitmentIndex (block : CBlock) : Option ℕ :=
  match block.vtx with
  | [] => none
  | coinbase :: _ =>
    ((coinbase.vout.zipIdx.filter fun (out, _) => isWitnessCommitment out.scriptPubKey).getLast?).map
      Prod.snd

/-- `CheckFirstCoinstakeOutput`: the coin base of a proof-of-stake block has one
empty output, or an empty output and a commitment of value zero. -/
def checkFirstCoinstakeOutput (block : CBlock) : Bool :=
  match block.vtx with
  | [] => false
  | coinbase :: _ =>
    match getWitnessCommitmentIndex block, coinbase.vout with
    | none, [out] => out.isEmpty
    | some _, [out, commitment] => out.isEmpty && commitment.nValue == 0
    | _, _ => false

/-- `CheckBlockSignature`: a proof-of-work block carries no signature. -/
def checkBlockSignature (env : BlockEnv) (block : CBlock) (hash : uint256) : Bool :=
  if block.isProofOfWork then block.vchBlockSig.isEmpty else env.verifyStakeBlockSignature block hash

/-- `GetLegacySigOpCount`. -/
def getLegacySigOpCount (tx : CTransaction) : ℕ :=
  (tx.vin.map fun txin => getSigOpCount txin.scriptSig false).sum +
    (tx.vout.map fun out => getSigOpCount out.scriptPubKey false).sum

/-- `GetBlockWeight`. -/
def getBlockWeight (block : CBlock) : ℕ :=
  (serializeBlock false block).length * (WITNESS_SCALE_FACTOR - 1) + (serializeBlock true block).length

section CheckBlock

variable (env : BlockEnv) (ctx : TxContext) (tokenCache : Option IssuanceChecks)

/-- `CheckBlockHeader`. -/
def checkBlockHeader (block : CBlockHeader) (fCheckPOW : Bool) : Check := do
  if block.nVersion < 7 && env.C.getBlockHash block != ctx.params.consensus.hashGenesisBlock then
    rejectInvalid REJECT_OBSOLETE "bad-version"
  require (!fCheckPOW || env.checkProofOfWork (env.C.getBlockHash block) block.nBits) 50 REJECT_INVALID
    "high-hash" false
  if (block.nTime.toNat : Int) > futureDrift env.nAdjustedTime then
    rejectInvalid REJECT_INVALID "time-too-new"

/-- A failure of `CheckTransaction` as `CheckBlock` passes it on: through
`state.Invalid` with the same code and reason, which keeps the ban score and
clears the corruption flag. -/
def Failure.reinvalidate : Failure → Failure
  | .invalid st => .invalid (st.Invalid st.chRejectCode st.strRejectReason)
  | .exception what => .exception what

/-- The transaction loop of `CheckBlock`. -/
def checkBlockTransactions (block : CBlock) : Check :=
  block.vtx.forM fun tx => do
    match checkTransaction ctx tx tokenCache true with
    | .error e => .error e.reinvalidate
    | .ok () => pure ()
    require (!(block.getBlockTime < (tx.nTime.toNat : Int))) 100 REJECT_INVALID "bad-tx-time" false

/-- The proof-of-stake checks of `CheckBlock`: the coin base pays nothing and
the coin stake is the second transaction and the only one. -/
def checkProofOfStakeLayout (block : CBlock) : Check :=
  match block.vtx with
  | _ :: coinstake :: rest =>
    if coinstake.isCoinStake then do
      require (checkCoinStakeTimestamp block.getBlockTime coinstake.nTime.toNat) 50 REJECT_INVALID
        "bad-cs-time" false
      require (checkFirstCoinstakeOutput block) 100 REJECT_INVALID "bad-cb-not-empty" false
      require (rest.all fun tx => !tx.isCoinStake) 100 REJECT_INVALID "bad-cs-multiple" false
    else pure ()
  | _ => pure ()

/-- `CheckBlock`, returning the value of the memory-only flag `fChecked` after
it.  A block already checked passes at once, whatever the context. -/
def checkBlock (block : CBlock) (hash : uint256) (fCheckPOW fCheckMerkleRoot fCheckSig : Bool) :
    Except Failure Bool :=
  if block.fChecked then pure true
  else do
    checkBlockHeader env ctx block.toCBlockHeader (block.isProofOfWork && fCheckPOW)
    if fCheckMerkleRoot then
      let (hashMerkleRoot2, mutated) := blockMerkleRoot env.C block
      require (block.hashMerkleRoot == hashMerkleRoot2) 100 REJECT_INVALID "bad-txnmrklroot" true
      require (!mutated) 100 REJECT_INVALID "bad-txns-duplicate" true
    require (!(block.vtx.isEmpty || block.vtx.length * WITNESS_SCALE_FACTOR > getMaxBlockWeight ||
      (serializeBlock false block).length * WITNESS_SCALE_FACTOR > getMaxBlockWeight)) 100
      REJECT_INVALID "bad-blk-length" false
    match block.vtx with
    | [] => reject 100 REJECT_INVALID "bad-cb-missing" false
    | coinbase :: rest =>
      require coinbase.isCoinBase 100 REJECT_INVALID "bad-cb-missing" false
      require (rest.all fun tx => !tx.isCoinBase) 100 REJECT_INVALID "bad-cb-multiple" false
      require (!(block.getBlockTime > futureDrift coinbase.nTime.toNat)) 25 REJECT_INVALID "bad-cb-time"
        false
      checkProofOfStakeLayout block
      require (!fCheckSig || checkBlockSignature env block hash) 100 REJECT_INVALID
        "bad-block-signature" false
      checkBlockTransactions ctx tokenCache block
      let nSigOps := (block.vtx.map getLegacySigOpCount).sum
      require (!(nSigOps * WITNESS_SCALE_FACTOR > MAX_BLOCK_SIGOPS_COST)) 100 REJECT_INVALID
        "bad-blk-sigops" false
      pure (fCheckPOW && fCheckMerkleRoot)

end CheckBlock

/-- `IsFinalTx`. -/
def isFinalTx (tx : CTransaction) (nBlockHeight nBlockTime : Int) : Bool :=
  let lock : Int := tx.nLockTime.toNat
  tx.nLockTime == 0 || lock < (if lock < LOCKTIME_THRESHOLD then nBlockHeight else nBlockTime) ||
    tx.vin.all fun txin => txin.nSequence == SEQUENCE_FINAL

/-- `ReissueTokenFromTransaction`: the reissue of the last output. -/
def reissueTokenFromTransaction (tx : CTransaction) : Option CReissueToken :=
  if tx.isReissueTokenTx then reissueTokenFromScript (voutFromEnd tx.vout 1).scriptPubKey else none

section ContextualCheckBlock

variable (C : Crypto) (consensus : ConsensusParams)

/-- The witness-commitment check of `ContextualCheckBlock` when witnesses are
enabled and the coin base carries a commitment. -/
def checkWitnessCommitment (block : CBlock) (coinbase : CTransaction) (commitpos : ℕ) : Check := do
  let (hashWitness, _) := blockWitnessMerkleRoot C block
  match coinbase.vin with
  | txin :: _ =>
    match txin.scriptWitness with
    | [nonce] =>
      require (nonce.length == 32) 100 REJECT_INVALID "bad-witness-nonce-size" true
      let hashWitness := C.hash256 (serUint256 hashWitness ++ nonce)
      let commitment := (coinbase.vout.getD commitpos CTxOut.null).scriptPubKey
      require (serUint256 hashWitness == (commitment.drop 6).take 32) 100 REJECT_INVALID
        "bad-witness-merkle-match" true
    | _ => reject 100 REJECT_INVALID "bad-witness-nonce-size" true
  | [] => reject 100 REJECT_INVALID "bad-witness-nonce-size" true

/-- `ContextualCheckBlock` for a block at height `nHeight`. -/
def contextualCheckBlock (block : CBlock) (nHeight : Int) : Check := do
  require (!(block.isProofOfWork && nHeight > consensus.nLastPOWBlock)) 100 REJECT_INVALID
    "bad-pow-height" false
  let nLockTimeCutoff := block.getBlockTime
  block.vtx.forM fun tx => do
    require (isFinalTx tx nHeight nLockTimeCutoff) 10 REJECT_INVALID "bad-txns-nonfinal" false
    if tx.isReissueTokenTx then
      require (reissueTokenFromTransaction tx).isSome 100 REJECT_INVALID "bad-txns-reissue-token" false
    if tx.isNewUniqueTokenTx then
      tx.vout.forM fun out =>
        if isScriptNewUniqueToken out.scriptPubKey then
          require (tokenFromScript out.scriptPubKey).isSome 100 REJECT_INVALID
            "bad-txns-issue-unique-token" false
        else pure ()
  let expect := pushInt64 (Int64.ofInt nHeight)
  match block.vtx with
  | [] => pure ()
  | coinbase :: _ =>
    if nHeight ≥ 20 && consensus.nBIP34Enabled then
      let scriptSig := match coinbase.vin with
        | txin :: _ => txin.scriptSig
        | [] => []
      require (expect.isPrefixOf scriptSig) 100 REJECT_INVALID "bad-cb-height" false
    let commitpos := if consensus.nSegwitEnabled then getWitnessCommitmentIndex block else none
    match commitpos with
    | some pos => checkWitnessCommitment C block coinbase pos
    | none =>
      require (block.vtx.all fun tx => !tx.hasWitness) 100 REJECT_INVALID "unexpected-witness" true
  require (getBlockWeight block ≤ getMaxBlockWeight) 100 REJECT_INVALID "bad-blk-weight" false

end ContextualCheckBlock

/-- The failures `AcceptBlock` records as `BLOCK_FAILED_VALID`: an invalid state
without the corruption flag. -/
def Failure.marksFailedValid : Failure → Bool
  | .invalid st => st.isInvalid && !st.corruptionPossible
  | .exception _ => false

/-- The checks `AcceptBlock` runs on a block at height `nHeight` once it has its
header: `CheckBlock` with every check on and `ContextualCheckBlock`, both with
the current token cache. -/
def acceptBlockChecks (env : BlockEnv) (ctx : TxContext) (tokenCache : Option IssuanceChecks)
    (block : CBlock) (nHeight : Int) : Except Failure Bool := do
  let fChecked ← checkBlock env ctx tokenCache block (env.C.getBlockHash block.toCBlockHeader) true true true
  contextualCheckBlock env.C ctx.params.consensus block nHeight
  pure fChecked

/-- Whether `AcceptBlock` marks the block permanently invalid. -/
def acceptBlockMarksInvalid (env : BlockEnv) (ctx : TxContext) (tokenCache : Option IssuanceChecks)
    (block : CBlock) (nHeight : Int) : Bool :=
  match acceptBlockChecks env ctx tokenCache block nHeight with
  | .error e => e.marksFailedValid
  | .ok _ => false

end AokChain
