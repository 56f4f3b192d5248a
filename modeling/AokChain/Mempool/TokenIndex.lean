import AokChain.Mempool.Mempool
import AokChain.Tokens.Uniqueness

/-!
# The token names of the memory pool

`CTxMemPool::mapTokenToHash` and `mapHashToToken` (`txmempool.h`): the names
the pool's transactions issue, which `CNewToken::IsValid` reads to refuse a
second issue of a name still waiting.  `AcceptToMemoryPoolWorker` writes both
maps for every new-token output whose name is not an owner name, once the entry
survived `LimitMempoolSize`; `removeUnchecked` erases the name stored for the
hash, then the hash.

The second map keeps one name per hash, the last one written.  A transaction
issuing several names, a unique-token issue, leaves all but its last name
mapped to its hash once it leaves the pool (`removeStaged_leaves_token_name`),
and the name can no longer be issued through the pool.  The map from hashes
only ever names transactions of the pool (`reachable_hashesInPool`).
-/

namespace AokChain
open Serial

/-- The order of a `std::map` keyed by `uint256`; only lookups are used here. -/
def hashLt (a b : uint256) : Bool := decide (a < b)

/-- The token maps of `CTxMemPool`. -/
structure MempoolTokenMaps where
  mapTokenToHash : List (Bytes × uint256)
  mapHashToToken : List (uint256 × Bytes)
  deriving DecidableEq

/-- The name the token loop of `AcceptToMemoryPoolWorker` records for an
output: a token script whose data is a new token, not an owner token. -/
def mempoolTokenName (out : CTxOut) : Option Bytes :=
  if isTokenScript out.scriptPubKey then
    match getTokenData out.scriptPubKey with
    | some data =>
      if data.type == .TX_NEW_TOKEN && !isTokenNameAnOwner data.tokenName then some data.tokenName else none
    | none => none
  else none

namespace MempoolTokenMaps

def empty : MempoolTokenMaps := ⟨[], []⟩

/-- `pool.mapTokenToHash[name] = hash; pool.mapHashToToken[hash] = name;` -/
def setToken (maps : MempoolTokenMaps) (name : Bytes) (hash : uint256) : MempoolTokenMaps :=
  ⟨OrderedMap.alter bytesLt name (fun _ => hash) maps.mapTokenToHash,
    OrderedMap.alter hashLt hash (fun _ => name) maps.mapHashToToken⟩

/-- The token loop at the end of `AcceptToMemoryPoolWorker`, run when tokens
are deployed. -/
def addTokens (fTokensDeployed : Bool) (maps : MempoolTokenMaps) (tx : CTransaction) (hash : uint256) :
    MempoolTokenMaps :=
  if fTokensDeployed then
    tx.vout.foldl (fun maps out =>
      match mempoolTokenName out with
      | some name => maps.setToken name hash
      | none => maps) maps
  else maps

/-- The token part of `removeUnchecked`. -/
def removeUnchecked (maps : MempoolTokenMaps) (hash : uint256) : MempoolTokenMaps :=
  match OrderedMap.find? hash maps.mapHashToToken with
  | some name => ⟨OrderedMap.erase name maps.mapTokenToHash, OrderedMap.erase hash maps.mapHashToToken⟩
  | none => maps

/-- `mempool.mapTokenToHash.count(name)`, the test of `CNewToken::IsValid`. -/
def hasToken (maps : MempoolTokenMaps) (name : Bytes) : Bool :=
  (OrderedMap.find? name maps.mapTokenToHash).isSome

end MempoolTokenMaps

/-- `CTxMemPool` with its token maps. -/
structure TokenMempool where
  pool : CTxMemPool
  maps : MempoolTokenMaps
  deriving DecidableEq

namespace TokenMempool

variable (C : Crypto)

def empty : TokenMempool := ⟨CTxMemPool.empty, MempoolTokenMaps.empty⟩

/-- The entries a removal takes out of the pool, in the pool's order. -/
def removedEntries (m : TokenMempool) (pool' : CTxMemPool) : List CTransaction :=
  m.pool.mapTx.filter fun tx => !pool'.mapTx.contains tx

/-- A removal from `mapTx` with the `removeUnchecked` that `RemoveStaged` runs
for each entry it takes out: every removal of the pool goes through it. -/
def afterRemoval (m : TokenMempool) (pool' : CTxMemPool) : TokenMempool :=
  ⟨pool', (m.removedEntries pool').foldl (fun maps tx => maps.removeUnchecked (C.getHash tx)) m.maps⟩

/-- `RemoveStaged`, as `Expire` and `TrimToSize` call it on the entries they pick. -/
def removeStaged (m : TokenMempool) (stage : List CTransaction) : TokenMempool :=
  m.afterRemoval C (m.pool.removeStaged stage)

def removeRecursive (m : TokenMempool) (origTx : CTransaction) : TokenMempool :=
  m.afterRemoval C (m.pool.removeRecursive C origTx)

def removeConflicts (m : TokenMempool) (tx : CTransaction) : TokenMempool :=
  m.afterRemoval C (m.pool.removeConflicts C tx)

/-- `removeForBlock(vtx, nBlockHeight, setNewTokens)`: the names of the tokens
the block created are looked up in `mapTokenToHash` before anything is removed. -/
def removeForBlock (m : TokenMempool) (vtx : List CTransaction) (setNewTokens : List Bytes) : TokenMempool :=
  m.afterRemoval C
    (m.pool.removeForBlock C vtx (setNewTokens.filterMap fun name => OrderedMap.find? name m.maps.mapTokenToHash))

/-- `AcceptToMemoryPoolWorker` with the pool's token maps: the checks and
`addUnchecked`, then `LimitMempoolSize`, which removes the entries `trim`
picks (the expired ones, then the packages of lowest fee rate), the rejection
when the new entry is among them, and the token loop.  A rejection after
`addUnchecked` keeps what `LimitMempoolSize` removed. -/
def acceptToMemoryPoolWorker (policy : MempoolPolicy) (st : NodeState) (maps : MempoolTokenMaps)
    (trim : CTxMemPool → List CTransaction) (tx : CTransaction) : TokenMempool × Check :=
  match acceptToMemoryPool C policy st tx with
  | .error e => (⟨st.mempool, maps⟩, .error e)
  | .ok pool =>
    let m := TokenMempool.removeStaged C ⟨pool, maps⟩ (trim pool)
    if !m.pool.existsTx C (C.getHash tx) then (m, reject 0 0x42 "mempool full" false)
    else (⟨m.pool, m.maps.addTokens st.node.tx.tokensDeployed tx (C.getHash tx)⟩, pure ())

/-- The moves of the pool with its token maps: a transaction accepted by any
node whose mempool is this pool, the removals of a connected block, of a
transaction and its descendants, of conflicts, of the entries `Expire` or
`TrimToSize` pick, and `clear`. -/
inductive Step : TokenMempool → TokenMempool → Prop
  | accept {m : TokenMempool} (policy : MempoolPolicy) (st : NodeState) (trim : CTxMemPool → List CTransaction)
      (tx : CTransaction) (hpool : st.mempool = m.pool) : Step m (acceptToMemoryPoolWorker C policy st m.maps trim tx).1
  | removeForBlock (m : TokenMempool) (vtx : List CTransaction) (setNewTokens : List Bytes) :
      Step m (m.removeForBlock C vtx setNewTokens)
  | removeRecursive (m : TokenMempool) (tx : CTransaction) : Step m (m.removeRecursive C tx)
  | removeConflicts (m : TokenMempool) (tx : CTransaction) : Step m (m.removeConflicts C tx)
  | removeStaged (m : TokenMempool) (stage : List CTransaction) : Step m (m.removeStaged C stage)
  | clear (m : TokenMempool) : Step m empty

/-- What the two maps are for: a name maps to a hash exactly when an entry of
that hash records the name, and a hash maps to a name such an entry records. -/
def TokenIndexExact (m : TokenMempool) : Prop :=
  (∀ name hash, OrderedMap.find? name m.maps.mapTokenToHash = some hash ↔
    ∃ tx ∈ m.pool.mapTx, C.getHash tx = hash ∧ name ∈ tx.vout.filterMap mempoolTokenName) ∧
  ∀ hash name, OrderedMap.find? hash m.maps.mapHashToToken = some name →
    ∃ tx ∈ m.pool.mapTx, C.getHash tx = hash ∧ name ∈ tx.vout.filterMap mempoolTokenName

/-- Every hash the second map holds is the hash of an entry. -/
def HashesInPool (m : TokenMempool) : Prop :=
  ∀ hash name, OrderedMap.find? hash m.maps.mapHashToToken = some name → m.pool.existsTx C hash = true

end TokenMempool

namespace MempoolTokenMaps

section Updates

variable {maps : MempoolTokenMaps} {name n : Bytes} {hash h : uint256}

theorem find?_setToken_token :
    OrderedMap.find? n (maps.setToken name hash).mapTokenToHash =
      if n = name then some hash else OrderedMap.find? n maps.mapTokenToHash := by
  unfold setToken
  split_ifs with hn
  · subst hn
    simp
  · simp [OrderedMap.find?_alter_ne, hn]

theorem find?_setToken_hash :
    OrderedMap.find? h (maps.setToken name hash).mapHashToToken =
      if h = hash then some name else OrderedMap.find? h maps.mapHashToToken := by
  unfold setToken
  split_ifs with hh
  · subst hh
    simp
  · simp [OrderedMap.find?_alter_ne, hh]

theorem addTokens_true (tx : CTransaction) :
    maps.addTokens true tx hash =
      (tx.vout.filterMap mempoolTokenName).foldl (fun maps name => maps.setToken name hash) maps := by
  unfold addTokens
  rw [if_pos rfl, List.foldl_filterMap]
  congr 1
  funext maps out
  cases mempoolTokenName out <;> rfl

-- Every name of the loop maps to the hash; the names before it keep their entries.
theorem find?_foldl_setToken_token (names : List Bytes) (maps : MempoolTokenMaps) :
    OrderedMap.find? n (names.foldl (fun maps name => maps.setToken name hash) maps).mapTokenToHash =
      if n ∈ names then some hash else OrderedMap.find? n maps.mapTokenToHash := by
  induction names generalizing maps with
  | nil => simp
  | cons name names ih =>
    rw [List.foldl_cons, ih, find?_setToken_token]
    by_cases hn : n ∈ names
    · simp [hn]
    · by_cases hname : n = name <;> simp [hn, hname]

-- The hash keeps the last name written for it.
theorem find?_foldl_setToken_hash (names : List Bytes) (maps : MempoolTokenMaps) :
    OrderedMap.find? h (names.foldl (fun maps name => maps.setToken name hash) maps).mapHashToToken =
      if h = hash then names.getLast?.or (OrderedMap.find? h maps.mapHashToToken)
      else OrderedMap.find? h maps.mapHashToToken := by
  induction names generalizing maps with
  | nil => simp
  | cons name names ih =>
    rw [List.foldl_cons, ih, find?_setToken_hash, List.getLast?_cons]
    split_ifs
    · cases names.getLast? <;> rfl
    · rfl

theorem find?_removeUnchecked_hash :
    OrderedMap.find? h (maps.removeUnchecked hash).mapHashToToken =
      if h = hash then none else OrderedMap.find? h maps.mapHashToToken := by
  unfold removeUnchecked
  split
  · split_ifs with hh
    · subst hh
      simp
    · simp [OrderedMap.find?_erase_ne hh]
  · next hnone =>
    split_ifs with hh
    · subst hh
      exact hnone
    · rfl

theorem find?_removeUnchecked_token :
    OrderedMap.find? n (maps.removeUnchecked hash).mapTokenToHash =
      if OrderedMap.find? hash maps.mapHashToToken = some n then none
      else OrderedMap.find? n maps.mapTokenToHash := by
  unfold removeUnchecked
  split
  · next name hname =>
    by_cases hn : name = n
    · subst hn
      simp [hname]
    · simp [hname, hn, OrderedMap.find?_erase_ne (Ne.symm hn)]
  · next hnone => simp [hnone]

end Updates

end MempoolTokenMaps

namespace CTxMemPool

variable {C : Crypto} {pool : CTxMemPool} {hash : uint256}

theorem existsTx_eq_true_iff : pool.existsTx C hash = true ↔ ∃ tx ∈ pool.mapTx, C.getHash tx = hash := by
  simp [existsTx, get, List.find?_isSome]

theorem existsTx_eq_false_iff : pool.existsTx C hash = false ↔ ∀ tx ∈ pool.mapTx, C.getHash tx ≠ hash := by
  rw [← Bool.not_eq_true, existsTx_eq_true_iff]
  simp

end CTxMemPool

namespace TokenMempool

section Removal

variable {C : Crypto}

theorem find?_foldl_removeUnchecked_hash (l : List CTransaction) (maps : MempoolTokenMaps) (h : uint256) :
    OrderedMap.find? h (l.foldl (fun maps tx => maps.removeUnchecked (C.getHash tx)) maps).mapHashToToken =
      if ∃ tx ∈ l, C.getHash tx = h then none else OrderedMap.find? h maps.mapHashToToken := by
  induction l generalizing maps with
  | nil => simp
  | cons t l ih =>
    rw [List.foldl_cons, ih, MempoolTokenMaps.find?_removeUnchecked_hash]
    by_cases hl : ∃ tx ∈ l, C.getHash tx = h
    · have hcons : ∃ tx ∈ t :: l, C.getHash tx = h := by
        obtain ⟨tx, htx, heq⟩ := hl
        exact ⟨tx, List.mem_cons_of_mem _ htx, heq⟩
      rw [if_pos hl, if_pos hcons]
    · by_cases ht : h = C.getHash t
      · rw [if_neg hl, if_pos ht, if_pos ⟨t, List.mem_cons_self, ht.symm⟩]
      · have hcons : ¬ ∃ tx ∈ t :: l, C.getHash tx = h := by
          rintro ⟨tx, htx, heq⟩
          rcases List.mem_cons.mp htx with rfl | htx
          · exact ht heq.symm
          · exact hl ⟨tx, htx, heq⟩
        rw [if_neg hl, if_neg ht, if_neg hcons]

-- A name survives the removals when no removed hash stores it.
theorem find?_foldl_removeUnchecked_token (l : List CTransaction) (maps : MempoolTokenMaps) {name : Bytes}
    (hno : ∀ tx ∈ l, OrderedMap.find? (C.getHash tx) maps.mapHashToToken ≠ some name) :
    OrderedMap.find? name (l.foldl (fun maps tx => maps.removeUnchecked (C.getHash tx)) maps).mapTokenToHash =
      OrderedMap.find? name maps.mapTokenToHash := by
  induction l generalizing maps with
  | nil => rfl
  | cons t l ih =>
    rw [List.foldl_cons, ih, MempoolTokenMaps.find?_removeUnchecked_token, if_neg (hno t List.mem_cons_self)]
    -- the erased hash is gone, every other keeps its name
    intro tx htx
    rw [MempoolTokenMaps.find?_removeUnchecked_hash]
    split_ifs
    · simp
    · exact hno tx (List.mem_cons_of_mem _ htx)

theorem mem_removedEntries {m : TokenMempool} {pool' : CTxMemPool} {tx : CTransaction} :
    tx ∈ m.removedEntries pool' ↔ tx ∈ m.pool.mapTx ∧ tx ∉ pool'.mapTx := by
  simp [removedEntries]

theorem afterRemoval_hashesInPool {m : TokenMempool} (hm : m.HashesInPool C) (pool' : CTxMemPool) :
    (m.afterRemoval C pool').HashesInPool C := by
  intro h name hfind
  simp only [afterRemoval, find?_foldl_removeUnchecked_hash] at hfind
  split_ifs at hfind with hremoved
  -- the entry of the hash was not removed, so it is still there
  obtain ⟨tx, htx, rfl⟩ := CTxMemPool.existsTx_eq_true_iff.mp (hm _ name hfind)
  refine CTxMemPool.existsTx_eq_true_iff.mpr ⟨tx, ?_, rfl⟩
  by_contra hgone
  exact hremoved ⟨tx, mem_removedEntries.mpr ⟨htx, hgone⟩, rfl⟩

theorem addTokens_hashesInPool {pool : CTxMemPool} {maps : MempoolTokenMaps} (hm : HashesInPool C ⟨pool, maps⟩)
    {tx : CTransaction} {hash : uint256} (hexists : pool.existsTx C hash = true) (fTokensDeployed : Bool) :
    HashesInPool C ⟨pool, maps.addTokens fTokensDeployed tx hash⟩ := by
  cases fTokensDeployed with
  | false => exact hm
  | true =>
    intro h name hfind
    simp only [MempoolTokenMaps.addTokens_true, MempoolTokenMaps.find?_foldl_setToken_hash] at hfind
    split_ifs at hfind with hh
    · exact hh ▸ hexists
    · exact hm h name hfind

end Removal

section Acceptance

variable (C : Crypto) {policy : MempoolPolicy} {st : NodeState} {maps : MempoolTokenMaps}
  {trim : CTxMemPool → List CTransaction} {tx : CTransaction}

/-- What an accepted transaction leaves: the pool after `addUnchecked` and
`LimitMempoolSize`, still holding the entry, with its names added to the maps. -/
theorem acceptToMemoryPoolWorker_eq_ok {m : TokenMempool}
    (h : acceptToMemoryPoolWorker C policy st maps trim tx = (m, .ok ())) :
    ∃ m₁ : TokenMempool, m = ⟨m₁.pool, m₁.maps.addTokens st.node.tx.tokensDeployed tx (C.getHash tx)⟩ ∧
      m₁ = removeStaged C ⟨⟨st.mempool.mapTx ++ [tx]⟩, maps⟩ (trim ⟨st.mempool.mapTx ++ [tx]⟩) ∧
      m₁.pool.existsTx C (C.getHash tx) = true ∧ st.mempool.existsTx C (C.getHash tx) = false := by
  unfold acceptToMemoryPoolWorker at h
  split at h
  · cases h
  · next pool hpool =>
    obtain ⟨rfl, -, -⟩ := acceptToMemoryPool_eq_ok C policy st hpool
    have hfresh := acceptToMemoryPool_fresh C policy st hpool
    dsimp only at h
    split_ifs at h with hfull
    · cases h
    · cases h
      exact ⟨_, rfl, rfl, by simpa using hfull, hfresh⟩

theorem acceptToMemoryPoolWorker_hashesInPool {m : TokenMempool} (hm : m.HashesInPool C)
    (hpool : st.mempool = m.pool) : (acceptToMemoryPoolWorker C policy st m.maps trim tx).1.HashesInPool C := by
  unfold acceptToMemoryPoolWorker
  split
  · rw [hpool]
    exact hm
  · next pool hacc =>
    obtain ⟨rfl, -, -⟩ := acceptToMemoryPool_eq_ok C policy st hacc
    -- the appended entry keeps every hash of the pool in it
    have happend : HashesInPool C ⟨⟨st.mempool.mapTx ++ [tx]⟩, m.maps⟩ := by
      intro h name hfind
      obtain ⟨t, ht, rfl⟩ := CTxMemPool.existsTx_eq_true_iff.mp (hm h name hfind)
      exact CTxMemPool.existsTx_eq_true_iff.mpr ⟨t, by simp [hpool, ht], rfl⟩
    have htrim := afterRemoval_hashesInPool happend (CTxMemPool.removeStaged ⟨st.mempool.mapTx ++ [tx]⟩
      (trim ⟨st.mempool.mapTx ++ [tx]⟩))
    dsimp only
    split_ifs with hfull
    · exact htrim
    · exact addTokens_hashesInPool htrim (by simpa [removeStaged, afterRemoval] using hfull) _

end Acceptance

end TokenMempool

section Fixtures

/-- A node at `tip` over the cache `L` whose `CheckTransaction` makes the
mempool test of `AcceptToMemoryPoolWorker` against the pool's maps. -/
def mempoolNode (tip : Int) (L : TokenLayers) (maps : MempoolTokenMaps) : NodeContext :=
  let ctx : TxContext := ⟨mainParams, tip, false⟩
  ⟨ctx, some (issuanceChecksOf Crypto.truncating initGovernance ctx L maps.hasToken true true true),
    some L.toView, fun _ => none⟩

/-- The node holding `ABC` and the funds of its unique issue, with an empty pool. -/
def uniqueIssueState : NodeState :=
  ⟨mempoolNode 871500 issuedLayers MempoolTokenMaps.empty, reissueView, initGovernance, CTxMemPool.empty⟩

/-- The pool once the issue of `ABC#A` and `ABC#B` is accepted, with nothing trimmed. -/
def uniqueIssueMempool : TokenMempool :=
  (TokenMempool.acceptToMemoryPoolWorker Crypto.truncating relayAll uniqueIssueState MempoolTokenMaps.empty
    (fun _ => []) uniqueIssueTx).1

/-- The pool once the issue has expired. -/
def expiredIssueMempool : TokenMempool := uniqueIssueMempool.removeStaged Crypto.truncating [uniqueIssueTx]

/-- A later issue of `ABC#A`, as a unique-token transaction carries it. -/
def abcUniqueAIssue : CNewToken := ⟨abcUniqueA, COIN, 0, 0, 0, []⟩

theorem expiredIssueMempool_reachable :
    Relation.ReflTransGen (TokenMempool.Step Crypto.truncating) TokenMempool.empty expiredIssueMempool := by
  have haccept : TokenMempool.Step Crypto.truncating TokenMempool.empty uniqueIssueMempool :=
    TokenMempool.Step.accept relayAll uniqueIssueState (fun _ => []) uniqueIssueTx rfl
  exact (Relation.ReflTransGen.single haccept).tail (TokenMempool.Step.removeStaged _ _)

end Fixtures

namespace TokenMempool

section StaleNames

variable (C : Crypto) {policy : MempoolPolicy} {st : NodeState} {maps : MempoolTokenMaps}
  {trim : CTxMemPool → List CTransaction} {tx : CTransaction}

/-- A transaction accepted with two names, one of which is not its last,
leaves that name mapped to its hash once its entry is removed: the pool no
longer has the hash, and the index is no longer exact. -/
theorem removeStaged_leaves_token_name {m : TokenMempool}
    (h : acceptToMemoryPoolWorker C policy st maps trim tx = (m, .ok ()))
    (hdeployed : st.node.tx.tokensDeployed = true) {names : List Bytes} {name last : Bytes}
    (hnames : tx.vout.filterMap mempoolTokenName = names ++ [last]) (hname : name ∈ names) (hne : name ≠ last) :
    OrderedMap.find? name (m.removeStaged C [tx]).maps.mapTokenToHash = some (C.getHash tx) ∧
      (m.removeStaged C [tx]).pool.existsTx C (C.getHash tx) = false ∧ ¬ (m.removeStaged C [tx]).TokenIndexExact C := by
  obtain ⟨m₁, rfl, hm₁, -, hfresh⟩ := acceptToMemoryPoolWorker_eq_ok C h
  rw [hdeployed, MempoolTokenMaps.addTokens_true, hnames]
  set maps₂ := (names ++ [last]).foldl (fun maps name => maps.setToken name (C.getHash tx)) m₁.maps
  -- after the loop the name maps to the hash, and the hash to the last name
  have htoken : OrderedMap.find? name maps₂.mapTokenToHash = some (C.getHash tx) := by
    rw [MempoolTokenMaps.find?_foldl_setToken_token, if_pos (List.mem_append_left _ hname)]
  have hlast : OrderedMap.find? (C.getHash tx) maps₂.mapHashToToken = some last := by
    rw [MempoolTokenMaps.find?_foldl_setToken_hash, if_pos rfl, List.getLast?_concat]
    rfl
  -- the removal takes out the entry of the transaction and nothing else
  have hremoved : ∀ t ∈ removedEntries ⟨m₁.pool, maps₂⟩ (m₁.pool.removeStaged [tx]), t = tx := by
    intro t ht
    simp only [mem_removedEntries, CTxMemPool.mem_removeStaged, List.mem_singleton, not_and, not_not] at ht
    exact ht.2 ht.1
  have hsub : List.Sublist m₁.pool.mapTx (st.mempool.mapTx ++ [tx]) := by
    rw [hm₁]
    exact CTxMemPool.removeStaged_sublist _ _
  have hgone : (TokenMempool.removeStaged C ⟨m₁.pool, maps₂⟩ [tx]).pool.existsTx C (C.getHash tx) = false := by
    refine CTxMemPool.existsTx_eq_false_iff.mpr fun t ht heq => ?_
    obtain ⟨ht₁, htne⟩ := CTxMemPool.mem_removeStaged.mp ht
    rcases List.mem_append.mp (hsub.subset ht₁) with hold | hnew
    · exact CTxMemPool.existsTx_eq_false_iff.mp hfresh t hold heq
    · exact htne hnew
  have hstale : OrderedMap.find? name (TokenMempool.removeStaged C ⟨m₁.pool, maps₂⟩ [tx]).maps.mapTokenToHash =
      some (C.getHash tx) := by
    simp only [removeStaged, afterRemoval]
    rw [find?_foldl_removeUnchecked_token _ _ fun t ht => by rw [hremoved t ht, hlast]; simpa using Ne.symm hne]
    exact htoken
  refine ⟨hstale, hgone, fun hexact => ?_⟩
  obtain ⟨t, ht, heq, -⟩ := (hexact.1 name (C.getHash tx)).mp hstale
  rw [CTxMemPool.existsTx_eq_true_iff.mpr ⟨t, ht, heq⟩] at hgone
  cases hgone

set_option maxRecDepth 4000 in
/-- The issue of `ABC#A` and `ABC#B` enters the pool and expires: `ABC#A` stays
mapped to its hash, and a later issue of `ABC#A` is refused as already in the
mempool. -/
theorem expiredIssue_leaves_name :
    Relation.ReflTransGen (Step Crypto.truncating) empty expiredIssueMempool ∧
    acceptToMemoryPoolWorker Crypto.truncating relayAll uniqueIssueState MempoolTokenMaps.empty (fun _ => [])
        uniqueIssueTx = (uniqueIssueMempool, .ok ()) ∧
    uniqueIssueTx.vout.filterMap mempoolTokenName = [abcUniqueA] ++ [abcUniqueB] ∧
    (OrderedMap.find? abcUniqueA expiredIssueMempool.maps.mapTokenToHash = some (Crypto.truncating.getHash uniqueIssueTx) ∧
      expiredIssueMempool.pool.existsTx Crypto.truncating (Crypto.truncating.getHash uniqueIssueTx) = false ∧
      ¬ expiredIssueMempool.TokenIndexExact Crypto.truncating) ∧
    (abcUniqueAIssue.isValid issuedLayers expiredIssueMempool.maps.hasToken true true true).1 =
      .error "Token with this name is already in the mempool" := by
  have hacc : acceptToMemoryPoolWorker Crypto.truncating relayAll uniqueIssueState MempoolTokenMaps.empty
      (fun _ => []) uniqueIssueTx = (uniqueIssueMempool, .ok ()) :=
    Prod.ext (by unfold uniqueIssueMempool; rfl) (by decide)
  have hnames : uniqueIssueTx.vout.filterMap mempoolTokenName = [abcUniqueA] ++ [abcUniqueB] := by decide
  refine ⟨expiredIssueMempool_reachable, hacc, hnames,
    removeStaged_leaves_token_name Crypto.truncating hacc (by decide) hnames (List.mem_singleton_self _)
      (by decide), by decide⟩

end StaleNames

section Runs

variable {C : Crypto}

theorem empty_hashesInPool : empty.HashesInPool C := by
  intro h name hfind
  simp [empty, MempoolTokenMaps.empty] at hfind

theorem step_hashesInPool {m m' : TokenMempool} (step : Step C m m') (hm : m.HashesInPool C) : m'.HashesInPool C := by
  cases step with
  | accept policy st trim tx hpool => exact acceptToMemoryPoolWorker_hashesInPool C hm hpool
  | removeForBlock vtx setNewTokens => exact afterRemoval_hashesInPool hm _
  | removeRecursive tx => exact afterRemoval_hashesInPool hm _
  | removeConflicts tx => exact afterRemoval_hashesInPool hm _
  | removeStaged stage => exact afterRemoval_hashesInPool hm _
  | clear => exact empty_hashesInPool

/-- From an empty pool, whatever is accepted and removed, the map from hashes
to names names only transactions of the pool. -/
theorem reachable_hashesInPool {m : TokenMempool} (run : Relation.ReflTransGen (Step C) empty m) :
    m.HashesInPool C := by
  induction run with
  | refl => exact empty_hashesInPool
  | tail _ step ih => exact step_hashesInPool step ih

theorem expiredIssueMempool_hashesInPool :
    Relation.ReflTransGen (Step Crypto.truncating) empty expiredIssueMempool ∧
      expiredIssueMempool.HashesInPool Crypto.truncating :=
  ⟨expiredIssueMempool_reachable, reachable_hashesInPool expiredIssueMempool_reachable⟩

end Runs

end TokenMempool

end AokChain
