import AokChain.Governance.Freeze

/-!
# The memory pool

`CTxMemPool` of `txmempool.cpp` as the list of its transactions, with the
removals `ConnectTip` runs after a block (`removeForBlock`, `removeConflicts`,
`removeRecursive`), and the consensus part of `AcceptToMemoryPoolWorker`
(`validation.cpp`): the checks it makes against the tip's coins and the
mempool's outputs, the governance database and the token cache, with the relay
policy as parameters.

The node's state is the tip's coins, the governance database and the mempool.
Connecting a block changes the first two through `ConnectBlock` and the third
through `removeForBlock`, which looks at the block's transactions and at the
inputs they spend, and at nothing `ConnectBlock` wrote to the governance.
-/

namespace AokChain
open Serial

/-- `CTxMemPool`: its transactions in the order they entered. -/
structure CTxMemPool where
  mapTx : List CTransaction
  deriving DecidableEq

/-- `MEMPOOL_HEIGHT`, the height of a coin a mempool transaction creates. -/
def MEMPOOL_HEIGHT : Int := 0x7FFFFFFF

namespace CTxMemPool

variable (C : Crypto)

def empty : CTxMemPool := ⟨[]⟩

/-- `mapTx.find(hash)`. -/
def get (pool : CTxMemPool) (hash : uint256) : Option CTransaction := pool.mapTx.find? fun tx => C.getHash tx == hash

/-- `exists(hash)`. -/
def existsTx (pool : CTxMemPool) (hash : uint256) : Bool := (pool.get C hash).isSome

/-- `mapNextTx.find(prevout)`: the mempool transaction spending an outpoint. -/
def mapNextTx (pool : CTxMemPool) (prevout : COutPoint) : Option CTransaction :=
  pool.mapTx.find? fun tx => tx.vin.any fun txin => txin.prevout == prevout

/-- `GetMemPoolChildren`: the mempool transactions spending an output of `tx`. -/
def getMemPoolChildren (pool : CTxMemPool) (tx : CTransaction) : List CTransaction :=
  pool.mapTx.filter fun child => child.vin.any fun txin => txin.prevout.hash == C.getHash tx

/-- The loop of `CalculateDescendants`: move the next staged transaction into
`setDescendants` and stage its children not already there.  Each transaction
enters `setDescendants` once and stages at most every transaction of the pool,
so `(size + 1) ^ 2` rounds empty the stage. -/
def calculateDescendantsFrom (pool : CTxMemPool) : ℕ → List CTransaction → List CTransaction → List CTransaction
  | 0, _, setDescendants => setDescendants
  | _ + 1, [], setDescendants => setDescendants
  | fuel + 1, it :: stage, setDescendants =>
    let setDescendants := if setDescendants.contains it then setDescendants else setDescendants ++ [it]
    let children := (pool.getMemPoolChildren C it).filter fun child => !setDescendants.contains child
    calculateDescendantsFrom pool fuel (stage ++ children) setDescendants

/-- `CalculateDescendants(entryit, setDescendants)`. -/
def calculateDescendants (pool : CTxMemPool) (entry : CTransaction) (setDescendants : List CTransaction) :
    List CTransaction :=
  let stage := if setDescendants.contains entry then [] else [entry]
  pool.calculateDescendantsFrom C ((pool.mapTx.length + 1) ^ 2) stage setDescendants

/-- `RemoveStaged`. -/
def removeStaged (pool : CTxMemPool) (stage : List CTransaction) : CTxMemPool :=
  ⟨pool.mapTx.filter fun tx => !stage.contains tx⟩

/-- `removeRecursive`: the transaction and its descendants, or, when it is not
in the pool, the children of its outputs and theirs. -/
def removeRecursive (pool : CTxMemPool) (origTx : CTransaction) : CTxMemPool :=
  let txToRemove := match pool.get C (C.getHash origTx) with
    | some origit => [origit]
    | none => (List.range origTx.vout.length).filterMap fun (i : ℕ) => pool.mapNextTx ⟨C.getHash origTx, i.toUInt32⟩
  let setAllRemoves := txToRemove.foldl (fun setAllRemoves it => pool.calculateDescendants C it setAllRemoves) []
  pool.removeStaged setAllRemoves

/-- `removeConflicts`: each mempool transaction spending an input of `tx`, other
than `tx`, goes with its descendants. -/
def removeConflicts (pool : CTxMemPool) (tx : CTransaction) : CTxMemPool :=
  tx.vin.foldl (fun pool txin =>
    match pool.mapNextTx txin.prevout with
    | some txConflict => if C.getHash txConflict != C.getHash tx then pool.removeRecursive C txConflict else pool
    | none => pool) pool

/-- The entry of `tx`, if in the pool, alone: `RemoveStaged` of `{it}`. -/
def removeEntry (pool : CTxMemPool) (tx : CTransaction) : CTxMemPool :=
  match pool.get C (C.getHash tx) with
  | some it => pool.removeStaged [it]
  | none => pool

/-- One transaction of the block, or of the new-token issues, as `removeForBlock` treats it. -/
def removeForBlockTx (pool : CTxMemPool) (tx : CTransaction) : CTxMemPool :=
  (pool.removeEntry C tx).removeConflicts C tx

/-- `removeForBlock(vtx, nBlockHeight, setNewTokens)`: `newTokenHashes` are the
hashes `mapTokenToHash` gives for the tokens the block created. -/
def removeForBlock (pool : CTxMemPool) (vtx : List CTransaction) (newTokenHashes : List uint256) : CTxMemPool :=
  let trans := newTokenHashes.filterMap (pool.get C)
  let pool := vtx.foldl (removeForBlockTx C) pool
  trans.foldl (removeForBlockTx C) pool

/-- `c` spends an outpoint that `tx` spends. -/
def Conflicts (c tx : CTransaction) : Prop :=
  ∃ txin ∈ c.vin, ∃ txin' ∈ tx.vin, txin.prevout = txin'.prevout

instance (c tx : CTransaction) : Decidable (Conflicts c tx) := by
  unfold Conflicts
  infer_instance

/-- No outpoint is spent by two entries of the pool, nor twice by one. -/
def NoConflicts (pool : CTxMemPool) : Prop :=
  (pool.mapTx.flatMap fun tx => tx.vin.map CTxIn.prevout).Nodup

instance (pool : CTxMemPool) : Decidable pool.NoConflicts := by
  unfold NoConflicts
  infer_instance

section Removal

variable {C}

/-- A run of removals keeps a part of the pool when each one does. -/
theorem foldl_sublist {α : Type} {f : CTxMemPool → α → CTxMemPool}
    (hf : ∀ pool a, List.Sublist (f pool a).mapTx pool.mapTx) (l : List α) (pool : CTxMemPool) :
    List.Sublist (l.foldl f pool).mapTx pool.mapTx := by
  induction l generalizing pool with
  | nil => exact List.Sublist.refl _
  | cons a l ih => exact (ih (f pool a)).trans (hf pool a)

theorem removeStaged_sublist (pool : CTxMemPool) (stage : List CTransaction) :
    List.Sublist (pool.removeStaged stage).mapTx pool.mapTx :=
  List.filter_sublist

theorem mem_removeStaged {pool : CTxMemPool} {stage : List CTransaction} {t : CTransaction} :
    t ∈ (pool.removeStaged stage).mapTx ↔ t ∈ pool.mapTx ∧ t ∉ stage := by
  simp [removeStaged]

theorem removeRecursive_sublist (pool : CTxMemPool) (origTx : CTransaction) :
    List.Sublist (pool.removeRecursive C origTx).mapTx pool.mapTx :=
  removeStaged_sublist _ _

theorem removeConflicts_sublist (pool : CTxMemPool) (tx : CTransaction) :
    List.Sublist (pool.removeConflicts C tx).mapTx pool.mapTx := by
  refine foldl_sublist (fun pool txin => ?_) _ _
  split
  · split
    · exact removeRecursive_sublist _ _
    · exact List.Sublist.refl _
  · exact List.Sublist.refl _

theorem removeEntry_sublist (pool : CTxMemPool) (tx : CTransaction) :
    List.Sublist (pool.removeEntry C tx).mapTx pool.mapTx := by
  unfold removeEntry
  split
  · exact removeStaged_sublist _ _
  · exact List.Sublist.refl _

theorem removeForBlockTx_sublist (pool : CTxMemPool) (tx : CTransaction) :
    List.Sublist (pool.removeForBlockTx C tx).mapTx pool.mapTx :=
  (removeConflicts_sublist _ tx).trans (removeEntry_sublist pool tx)

/-- `removeForBlock` only removes. -/
theorem removeForBlock_sublist (pool : CTxMemPool) (vtx : List CTransaction) (newTokenHashes : List uint256) :
    List.Sublist (pool.removeForBlock C vtx newTokenHashes).mapTx pool.mapTx :=
  (foldl_sublist removeForBlockTx_sublist _ _).trans (foldl_sublist removeForBlockTx_sublist _ _)

theorem NoConflicts.sublist {pool pool' : CTxMemPool} (h : List.Sublist pool'.mapTx pool.mapTx) (hnc : pool.NoConflicts) :
    pool'.NoConflicts :=
  List.Nodup.sublist (h.flatMap _) hnc

/-- Two entries of a pool without conflicts that spend one outpoint are one
transaction. -/
theorem NoConflicts.eq_of_conflicts {pool : CTxMemPool} (hnc : pool.NoConflicts) {c b : CTransaction}
    (hc : c ∈ pool.mapTx) (hb : b ∈ pool.mapTx) (h : Conflicts c b) : c = b := by
  by_contra hne
  have : Std.Symm (Function.onFun List.Disjoint fun tx : CTransaction => tx.vin.map CTxIn.prevout) :=
    ⟨fun _ _ h => h.symm⟩
  have hdisj := (List.nodup_flatMap.mp hnc).2.forall hc hb hne
  obtain ⟨txin, htxin, txin', htxin', heq⟩ := h
  exact hdisj (List.mem_map_of_mem htxin) (heq ▸ List.mem_map_of_mem htxin')

theorem get_eq_some {pool : CTxMemPool} {hash : uint256} {it : CTransaction} (h : pool.get C hash = some it) :
    C.getHash it = hash ∧ it ∈ pool.mapTx :=
  ⟨by simpa using List.find?_some h, List.mem_of_find?_eq_some h⟩

theorem mapNextTx_eq_some {pool : CTxMemPool} {prevout : COutPoint} {c : CTransaction}
    (h : pool.mapNextTx prevout = some c) : c ∈ pool.mapTx ∧ ∃ txin ∈ c.vin, txin.prevout = prevout := by
  refine ⟨List.mem_of_find?_eq_some h, ?_⟩
  simpa using List.find?_some h

theorem mapNextTx_eq_none {pool : CTxMemPool} {prevout : COutPoint} :
    pool.mapNextTx prevout = none ↔ ∀ c ∈ pool.mapTx, ∀ txin ∈ c.vin, txin.prevout ≠ prevout := by
  simp [mapNextTx, List.find?_eq_none]

/-- An entry of another hash survives the removal of `tx`'s entry. -/
theorem mem_removeEntry {pool : CTxMemPool} {tx t : CTransaction} (ht : t ∈ pool.mapTx)
    (hne : C.getHash t ≠ C.getHash tx) : t ∈ (pool.removeEntry C tx).mapTx := by
  unfold removeEntry
  split
  · next it hit =>
    refine mem_removeStaged.mpr ⟨ht, ?_⟩
    rw [List.mem_singleton]
    rintro rfl
    exact hne (get_eq_some hit).1
  · exact ht

/-- With no entry but `tx`'s own spending an input of `tx`, `removeConflicts`
removes nothing. -/
theorem removeConflicts_eq_self {pool : CTxMemPool} {tx : CTransaction}
    (h : ∀ c ∈ pool.mapTx, Conflicts c tx → C.getHash c = C.getHash tx) : pool.removeConflicts C tx = pool := by
  unfold removeConflicts
  -- the pool the loop carries never changes, so it is the first pool throughout
  suffices hfix : ∀ l : List CTxIn, (∀ txin ∈ l, txin ∈ tx.vin) → l.foldl (fun pool txin =>
      match pool.mapNextTx txin.prevout with
      | some txConflict => if C.getHash txConflict != C.getHash tx then pool.removeRecursive C txConflict else pool
      | none => pool) pool = pool from hfix tx.vin fun _ h => h
  intro l hl
  induction l with
  | nil => rfl
  | cons txin l ih =>
    rw [List.foldl_cons]
    have hstep : (match pool.mapNextTx txin.prevout with
        | some txConflict => if C.getHash txConflict != C.getHash tx then pool.removeRecursive C txConflict else pool
        | none => pool) = pool := by
      split
      · next c hc =>
        obtain ⟨hmem, txin₀, htxin₀, hprev⟩ := mapNextTx_eq_some hc
        have hconf : Conflicts c tx := ⟨txin₀, htxin₀, txin, hl txin (by simp), hprev⟩
        simp [h c hmem hconf]
      · rfl
    rw [hstep]
    exact ih fun txin' h' => hl txin' (by simp [h'])

/-- An entry of another hash, with no entry but `tx`'s own spending an input of
`tx`, survives `tx`'s removal. -/
theorem mem_removeForBlockTx {pool : CTxMemPool} {tx t : CTransaction} (ht : t ∈ pool.mapTx)
    (hne : C.getHash t ≠ C.getHash tx) (hconf : ∀ c ∈ pool.mapTx, Conflicts c tx → C.getHash c = C.getHash tx) :
    t ∈ (pool.removeForBlockTx C tx).mapTx := by
  unfold removeForBlockTx
  rw [removeConflicts_eq_self fun c hc => hconf c ((removeEntry_sublist pool tx).subset hc)]
  exact mem_removeEntry ht hne

/-- The loop of `removeForBlock` over a list of transactions keeps an entry
that no one of them has the hash of, when the entries spending their inputs are
theirs. -/
theorem mem_foldl_removeForBlockTx (l : List CTransaction) {pool : CTxMemPool} {t : CTransaction}
    (ht : t ∈ pool.mapTx) (hne : ∀ b ∈ l, C.getHash t ≠ C.getHash b)
    (hconf : ∀ c ∈ pool.mapTx, ∀ b ∈ l, Conflicts c b → C.getHash c = C.getHash b) :
    t ∈ (l.foldl (removeForBlockTx C) pool).mapTx := by
  induction l generalizing pool with
  | nil => exact ht
  | cons b l ih =>
    rw [List.foldl_cons]
    have hsub := removeForBlockTx_sublist (C := C) pool b
    refine ih (mem_removeForBlockTx ht (hne b (by simp)) fun c hc => hconf c hc b (by simp))
      (fun b' hb' => hne b' (by simp [hb'])) fun c hc b' hb' => hconf c (hsub.subset hc) b' (by simp [hb'])

/-- `removeForBlock` keeps every entry whose hash is neither a block
transaction's nor a new token's, unless an entry of another hash spends an input
of a block transaction. -/
theorem removeForBlock_mem {pool : CTxMemPool} {vtx : List CTransaction} {newTokenHashes : List uint256}
    {t : CTransaction} (hnc : pool.NoConflicts) (ht : t ∈ pool.mapTx) (hvtx : ∀ b ∈ vtx, C.getHash t ≠ C.getHash b)
    (hnew : C.getHash t ∉ newTokenHashes)
    (hconf : ∀ c ∈ pool.mapTx, ∀ b ∈ vtx, Conflicts c b → C.getHash c = C.getHash b) :
    t ∈ (pool.removeForBlock C vtx newTokenHashes).mapTx := by
  unfold removeForBlock
  have hsub := foldl_sublist (removeForBlockTx_sublist (C := C)) vtx pool
  -- the issues `mapTokenToHash` names are entries of the pool, of a new token's hash
  have htrans : ∀ b ∈ newTokenHashes.filterMap (pool.get C), C.getHash b ∈ newTokenHashes ∧ b ∈ pool.mapTx := by
    intro b hb
    obtain ⟨hash, hhash, hget⟩ := List.mem_filterMap.mp hb
    obtain ⟨rfl, hmem⟩ := get_eq_some hget
    exact ⟨hhash, hmem⟩
  refine mem_foldl_removeForBlockTx _ (mem_foldl_removeForBlockTx vtx ht hvtx hconf) ?_ ?_
  · intro b hb heq
    exact hnew (heq ▸ (htrans b hb).1)
  · intro c hc b hb hcb
    rw [hnc.eq_of_conflicts (hsub.subset hc) (htrans b hb).2 hcb]

theorem NoConflicts.removeForBlock {pool : CTxMemPool} (hnc : pool.NoConflicts) (vtx : List CTransaction)
    (newTokenHashes : List uint256) : (pool.removeForBlock C vtx newTokenHashes).NoConflicts :=
  hnc.sublist (removeForBlock_sublist pool vtx newTokenHashes)

end Removal

end CTxMemPool

/-- `CCoinsViewMemPool` under a cache: the outputs of the mempool's
transactions, at `MEMPOOL_HEIGHT`, over the tip's coins. -/
def mempoolView (C : Crypto) (coinsTip : CCoinsMap) (pool : CTxMemPool) : CCoinsMap :=
  pool.mapTx.foldl (fun view tx =>
    tx.vout.zipIdx.foldl (fun view (entry : CTxOut × ℕ) => view.insert ⟨C.getHash tx, entry.2.toUInt32⟩
      (Coin.make entry.1 MEMPOOL_HEIGHT false false 0)) view) coinsTip

/-- What `AcceptToMemoryPoolWorker` reads besides consensus: the relay policy
and the node's settings. -/
structure MempoolPolicy where
  fRequireStandard : Bool
  /-- `IsWitnessEnabled` of the tip, without `-prematurewitness`. -/
  witnessEnabled : Bool
  /-- `IsStandardTx`: the reason a transaction is not standard. -/
  isStandardTx : CTransaction → Option String
  /-- `CheckFinalTx(tx, STANDARD_LOCKTIME_VERIFY_FLAGS)`. -/
  checkFinalTx : CTransaction → Bool
  nAdjustedTime : Int
  /-- `CheckSequenceLocks(tx, STANDARD_LOCKTIME_VERIFY_FLAGS, &lp)`. -/
  checkSequenceLocks : CTransaction → Bool
  /-- `GetSpendTime(view)`, the tip's time. -/
  nSpendTime : Int
  areInputsStandard : CTransaction → CCoinsMap → Bool
  isWitnessStandard : CTransaction → CCoinsMap → Bool
  /-- The sigop, fee, absurd-fee and package-limit checks, given the fee. -/
  checkFeesAndLimits : CTransaction → CCoinsMap → CAmount → Check
  /-- `CheckInputs` with the standard flags and `CheckInputsFromMempoolAndCache`
  with the tip's. -/
  checkScripts : CTransaction → CCoinsMap → Check

/-- The node's state that `cs_main` guards: the active chain's context, the
tip's coins, the governance database and the mempool. -/
structure NodeState where
  node : NodeContext
  coins : CCoinsMap
  governance : CGovernance
  mempool : CTxMemPool

section AcceptToMemoryPool

variable (C : Crypto) (policy : MempoolPolicy) (st : NodeState)

/-- The test of `IsStandardTx` when `fRequireStandard`. -/
def requireStandard (tx : CTransaction) : Check :=
  match (if policy.fRequireStandard then policy.isStandardTx tx else none) with
  | some reason => reject 0 REJECT_NONSTANDARD reason false
  | none => pure ()

/-- The input test: an input neither coin nor mempool output is a missing
input, which leaves the state valid, unless the tip already has an output of
the transaction. -/
def requireInputs (view : CCoinsMap) (tx : CTransaction) : Check :=
  if tx.vin.all fun txin => view.haveCoin txin.prevout then pure ()
  else if (List.range tx.vout.length).any fun (i : ℕ) => st.coins.haveCoin ⟨C.getHash tx, i.toUInt32⟩ then
    rejectInvalid REJECT_DUPLICATE "txn-already-known"
  else error "missing inputs"

/-- The token tests of `AcceptToMemoryPoolWorker` after `CheckTxInputs`. -/
def checkMempoolTokens (view : CCoinsMap) (tx : CTransaction) : Check := do
  require (!(!st.node.tx.tokensDeployed && tx.vout.any fun out => isTokenScript out.scriptPubKey)) 100
    REJECT_INVALID "bad-txns-contained-token-when-not-active" false
  require (!(!st.node.tx.tokensP2SHDeployed && tx.vout.any fun out => isScriptNewUsername out.scriptPubKey)) 100
    REJECT_INVALID "bad-txns-contained-username-when-not-active" false
  if st.node.tx.tokensDeployed then
    let _ ← checkTxTokens C tx view (st.node.tx.nTipHeight + 1) policy.nSpendTime false
      st.node.currentTokensCacheView st.node.mapReissuedTokens
    pure ()
  else pure ()

/-- `AcceptToMemoryPoolWorker`: the pool with the transaction added.  Since the
replacement opt-out is forced on (`if (0)`), any conflict rejects, and the
replacement checks after it never run. -/
def acceptToMemoryPool (tx : CTransaction) : Except Failure CTxMemPool := do
  checkTransaction st.node.tx tx st.node.currentTokenCache true
  require (!tx.isCoinBase) 100 REJECT_INVALID "coinbase" false
  require (!tx.isCoinStake) 100 REJECT_INVALID "coinstake" false
  require (!(tx.hasWitness && !policy.witnessEnabled)) 0 REJECT_NONSTANDARD "no-witness-yet" true
  requireStandard policy tx
  require (policy.checkFinalTx tx) 0 REJECT_NONSTANDARD "non-final" false
  require (!((tx.nTime.toNat : Int) > futureDrift policy.nAdjustedTime)) 0 REJECT_NONSTANDARD "time-too-new" false
  require (!(!st.node.tx.governanceDeployed && tx.nVersion > 1)) 0 REJECT_NONSTANDARD
    "bad-transaction-v2-not-active" false
  require (!st.mempool.existsTx C (C.getHash tx)) 0 REJECT_DUPLICATE "txn-already-in-mempool" false
  require (tx.vin.all fun txin => (st.mempool.mapNextTx txin.prevout).isNone) 0 REJECT_DUPLICATE
    "txn-mempool-conflict" false
  let view := mempoolView C st.coins st.mempool
  requireInputs C st view tx
  require (policy.checkSequenceLocks tx) 0 REJECT_NONSTANDARD "non-BIP68-final" false
  let nFees ← checkTxInputs st.node.tx.params.consensus st.governance tx view (st.node.tx.nTipHeight + 1)
  checkMempoolTokens C policy st view tx
  require (!(policy.fRequireStandard && !policy.areInputsStandard tx view)) 0 REJECT_NONSTANDARD
    "bad-txns-nonstandard-inputs" false
  require (!(tx.hasWitness && policy.fRequireStandard && !policy.isWitnessStandard tx view)) 0 REJECT_NONSTANDARD
    "bad-witness-nonstandard" true
  policy.checkFeesAndLimits tx view nFees
  policy.checkScripts tx view
  pure ⟨st.mempool.mapTx ++ [tx]⟩

/-- What an accepted transaction brings to the pool: itself at the end, with
inputs that no entry spends and that it spends once. -/
theorem acceptToMemoryPool_eq_ok {tx : CTransaction} {pool' : CTxMemPool}
    (h : acceptToMemoryPool C policy st tx = .ok pool') :
    pool' = ⟨st.mempool.mapTx ++ [tx]⟩ ∧ (tx.vin.map CTxIn.prevout).Nodup ∧
      ∀ txin ∈ tx.vin, st.mempool.mapNextTx txin.prevout = none := by
  simp only [acceptToMemoryPool, Except.bind_eq_ok] at h
  obtain ⟨_, hct, _, -, _, -, _, -, _, -, _, -, _, -, _, -, _, -, _, hconf, _, -, _, -, _, -, _, -, _, -, _, -,
    _, -, _, -, h⟩ := h
  refine ⟨(Except.ok.inj h).symm, checkTransaction_inputs_nodup _ hct, fun txin htxin => ?_⟩
  simpa using List.all_eq_true.mp (require_eq_ok.mp hconf) txin htxin

/-- An accepted transaction has no entry of its hash in the pool before it. -/
theorem acceptToMemoryPool_fresh {tx : CTransaction} {pool' : CTxMemPool}
    (h : acceptToMemoryPool C policy st tx = .ok pool') : st.mempool.existsTx C (C.getHash tx) = false := by
  simp only [acceptToMemoryPool, Except.bind_eq_ok] at h
  obtain ⟨_, -, _, -, _, -, _, -, _, -, _, -, _, -, _, -, _, hfresh, -⟩ := h
  simpa using require_eq_ok.mp hfresh

/-- Accepting a transaction keeps the pool free of conflicts. -/
theorem NoConflicts.acceptToMemoryPool {tx : CTransaction} {pool' : CTxMemPool}
    (h : acceptToMemoryPool C policy st tx = .ok pool') (hnc : st.mempool.NoConflicts) :
    pool'.NoConflicts := by
  obtain ⟨rfl, hdup, hfree⟩ := acceptToMemoryPool_eq_ok C policy st h
  unfold CTxMemPool.NoConflicts
  rw [List.flatMap_append, List.flatMap_singleton, List.nodup_append]
  refine ⟨hnc, hdup, ?_⟩
  -- an outpoint of the pool is spent by an entry, and none of the new inputs is
  intro p hp p' hp' heq
  subst heq
  obtain ⟨c, hc, hpc⟩ := List.mem_flatMap.mp hp
  obtain ⟨txin, htxin, rfl⟩ := List.mem_map.mp hp'
  obtain ⟨txin', htxin', hprev⟩ := List.mem_map.mp hpc
  exact CTxMemPool.mapNextTx_eq_none.mp (hfree txin htxin) c hc txin' htxin' hprev

end AcceptToMemoryPool

section Node

variable (env : ConnectEnv) (tokensCache : Option (CTransaction → Check))

/-- `ConnectTip`: `ConnectBlock` at the next height over the tip's coins, then,
when it accepts, `removeForBlock` of the block's transactions and of the issues
of the tokens it created; `node'` is the context of the new tip.  When
`ConnectBlock` rejects, the coins, the tip and the mempool stay, and the
governance keeps what the block's actions wrote before the rejection. -/
def connectTip (st : NodeState) (block : CBlock) (newTokenHashes : List uint256) (node' : NodeContext) :
    NodeState × Bool :=
  match connectBlock env st.node tokensCache block (st.node.tx.nTipHeight + 1) st.coins st.governance false false with
  | (.ok (view', _), governance') =>
    (⟨node', view', governance', st.mempool.removeForBlock env.block.C block.vtx newTokenHashes⟩, true)
  | (.error _, governance') => ({ st with governance := governance' }, false)

theorem connectTip_mempool {st st' : NodeState} {block : CBlock} {newTokenHashes : List uint256}
    {node' : NodeContext} {b : Bool} (h : connectTip env tokensCache st block newTokenHashes node' = (st', b)) :
    st'.mempool = if b then st.mempool.removeForBlock env.block.C block.vtx newTokenHashes else st.mempool := by
  unfold connectTip at h
  split at h <;> cases h <;> rfl

/-- The node's moves between two releases of `cs_main`: a transaction accepted
into the mempool, and a block connected to the tip or rejected. -/
inductive NodeStep (policy : MempoolPolicy) : NodeState → NodeState → Prop
  | accept {st : NodeState} {tx : CTransaction} {pool' : CTxMemPool}
      (h : acceptToMemoryPool env.block.C policy st tx = .ok pool') : NodeStep policy st { st with mempool := pool' }
  | connect (st : NodeState) (block : CBlock) (newTokenHashes : List uint256) (node' : NodeContext) :
      NodeStep policy st (connectTip env tokensCache st block newTokenHashes node').1

variable {env tokensCache} {policy : MempoolPolicy}

theorem nodeStep_noConflicts {st st' : NodeState} (step : NodeStep env tokensCache policy st st')
    (hnc : st.mempool.NoConflicts) : st'.mempool.NoConflicts := by
  cases step with
  | accept h => exact NoConflicts.acceptToMemoryPool env.block.C policy st h hnc
  | connect block newTokenHashes node' =>
    rcases hr : connectTip env tokensCache st block newTokenHashes node' with ⟨st', b⟩
    rw [connectTip_mempool env tokensCache hr]
    split
    · exact hnc.removeForBlock block.vtx newTokenHashes
    · exact hnc

/-- No reachable state has two mempool entries spending one outpoint. -/
theorem reachable_noConflicts {st st' : NodeState} (steps : Relation.ReflTransGen (NodeStep env tokensCache policy) st st')
    (hnc : st.mempool.NoConflicts) : st'.mempool.NoConflicts := by
  induction steps with
  | refl => exact hnc
  | tail _ step ih => exact nodeStep_noConflicts step ih

/-- `ConnectTip` of a block that freezes a script keeps every entry spending a
coin of that script, unless the block itself takes it out: the new state's
mempool holds a transaction that `CheckTxInputs` rejects against the new tip's
governance, whatever the consensus parameters and the height. -/
theorem mempool_keeps_frozen_spend {st st' : NodeState} {block : CBlock} {newTokenHashes : List uint256}
    {node' : NodeContext} {tx : CTransaction} {script : CScript} (hnc : st.mempool.NoConflicts)
    (htx : tx ∈ st.mempool.mapTx) (hvtx : ∀ b ∈ block.vtx, env.block.C.getHash tx ≠ env.block.C.getHash b)
    (hnew : env.block.C.getHash tx ∉ newTokenHashes)
    (hconf : ∀ c ∈ st.mempool.mapTx, ∀ b ∈ block.vtx, CTxMemPool.Conflicts c b →
      env.block.C.getHash c = env.block.C.getHash b)
    (hstep : connectTip env tokensCache st block newTokenHashes node' = (st', true))
    (hfrozen : st'.governance.canSend script = false)
    (hspent : ∃ txin ∈ tx.vin,
      ((mempoolView env.block.C st'.coins st'.mempool).accessCoin txin.prevout).out.scriptPubKey = script) :
    tx ∈ st'.mempool.mapTx ∧ ∀ (params : ConsensusParams) (nSpendHeight : Int) (txfee : CAmount),
      checkTxInputs params st'.governance tx (mempoolView env.block.C st'.coins st'.mempool) nSpendHeight ≠
        .ok txfee := by
  have hpool := connectTip_mempool env tokensCache hstep
  rw [if_pos rfl] at hpool
  refine ⟨?_, fun params nSpendHeight txfee => checkTxInputs_frozen params tx _ nSpendHeight hfrozen hspent txfee⟩
  rw [hpool]
  exact CTxMemPool.removeForBlock_mem hnc htx hvtx hnew hconf

end Node

section Fixtures

/-- A coin of the owner and a second coin of the staker, beside the coins of
`governanceView`. -/
def ownerOut : COutPoint := ⟨13, 0⟩

def kernelOut2 : COutPoint := ⟨14, 0⟩

def ownerView : CCoinsMap :=
  viewOf [(kernelOut, Coin.make ⟨1000 * COIN, stakerScript⟩ 871000 false false 0),
    (masterOut, Coin.make ⟨COIN, mainParams.governanceMasterScript⟩ 871000 false false 0),
    (ownerOut, Coin.make ⟨COIN, ownerScript⟩ 871000 false false 0),
    (kernelOut2, Coin.make ⟨1000 * COIN, stakerScript⟩ 871000 false false 0)]

/-- The owner pays itself, with no fee. -/
def ownerSpend : CTransaction := spendTx [ownerOut] [⟨COIN, ownerScript⟩]

/-- A relay policy that lets every transaction through. -/
def relayAll : MempoolPolicy where
  fRequireStandard := false
  witnessEnabled := true
  isStandardTx _ := none
  checkFinalTx _ := true
  nAdjustedTime := 2000000000
  checkSequenceLocks _ := true
  nSpendTime := 1600000000
  areInputsStandard _ _ := true
  isWitnessStandard _ _ := true
  checkFeesAndLimits _ _ _ := pure ()
  checkScripts _ _ := pure ()

/-- The node before the freeze, with an empty mempool. -/
def startState : NodeState := ⟨tipNode 871499, ownerView, CGovernance.empty, CTxMemPool.empty⟩

/-- The node after `ConnectTip` of `freezeBlock 0`, from the mempool holding the
owner's spend. -/
def frozenState : NodeState :=
  (connectTip (acceptingEnv acceptAll) passTokensCache { startState with mempool := ⟨[ownerSpend]⟩ }
    (freezeBlock 0) [] (tipNode 871500)).1

/-- The proof-of-stake block `CreateNewBlock` assembles on the frozen tip: the
coin base, a coin stake on the staker's second coin, and the mempool's entry. -/
def frozenTemplate : CBlock :=
  fixtureBlock [coinbaseTx 871501 [emptyOut], spendTx [kernelOut2] [emptyOut, ⟨1000 * COIN, stakerScript⟩],
    ownerSpend] [1]

end Fixtures

set_option maxRecDepth 10000 in
/-- The owner's spend enters the mempool, the block freezing the owner connects
and leaves the spend there, and the proof-of-stake template that carries it is
rejected by `ConnectBlock`. -/
theorem frozenSpend_stays_in_mempool :
    Relation.ReflTransGen (NodeStep (acceptingEnv acceptAll) passTokensCache relayAll) startState frozenState ∧
    frozenState.governance.canSend ownerScript = false ∧
    (ownerSpend ∈ frozenState.mempool.mapTx ∧ ∀ (params : ConsensusParams) (nSpendHeight : Int) (txfee : CAmount),
      checkTxInputs params frozenState.governance ownerSpend
        (mempoolView Crypto.truncating frozenState.coins frozenState.mempool) nSpendHeight ≠ .ok txfee) ∧
    rejectReason (connectBlock (acceptingEnv acceptAll) frozenState.node passTokensCache frozenTemplate 871501
      frozenState.coins frozenState.governance false false).1 = some "bad-txns-address-frozen" := by
  have haccept : acceptToMemoryPool Crypto.truncating relayAll startState ownerSpend = .ok ⟨[ownerSpend]⟩ := by
    decide
  have hok : (connectTip (acceptingEnv acceptAll) passTokensCache { startState with mempool := ⟨[ownerSpend]⟩ }
      (freezeBlock 0) [] (tipNode 871500)).2 = true := by decide
  have hfrozen : frozenState.governance.canSend ownerScript = false := by decide
  refine ⟨?_, hfrozen, ?_, by decide⟩
  · -- accept the spend, then connect the block
    have h1 : NodeStep (acceptingEnv acceptAll) passTokensCache relayAll startState
        { startState with mempool := ⟨[ownerSpend]⟩ } := NodeStep.accept haccept
    have h2 : NodeStep (acceptingEnv acceptAll) passTokensCache relayAll
        { startState with mempool := ⟨[ownerSpend]⟩ } frozenState :=
      NodeStep.connect _ (freezeBlock 0) [] (tipNode 871500)
    exact (Relation.ReflTransGen.single h1).tail h2
  · unfold frozenState at hfrozen ⊢
    have hstep : connectTip (acceptingEnv acceptAll) passTokensCache { startState with mempool := ⟨[ownerSpend]⟩ }
        (freezeBlock 0) [] (tipNode 871500) = ((connectTip (acceptingEnv acceptAll) passTokensCache
          { startState with mempool := ⟨[ownerSpend]⟩ } (freezeBlock 0) [] (tipNode 871500)).1, true) := by
      rw [← hok]
    -- the environment is given first: the conclusion names it only through its hash function
    refine @mempool_keeps_frozen_spend (acceptingEnv acceptAll) passTokensCache _ _ _ _ _ ownerSpend ownerScript
      ?_ ?_ ?_ List.not_mem_nil ?_ hstep hfrozen ?_
    · decide
    · simp
    · decide
    · decide
    · decide

end AokChain
