import AokChain.Crypto
import AokChain.Consensus.Params
import Mathlib.Data.Finmap

/-!
# The entries of the memory pool

`CTxMemPool` of `txmempool.cpp` with the state each entry keeps of its
package: the count, size, modified fee and sigop cost of the entry with its
in-pool ancestors, and the count, size and modified fee with its in-pool
descendants.  `mapLinks` holds each entry's in-pool parents and children,
`mapNextTx` the spender of each outpoint, `mapDeltas` the fee deltas of
`prioritisetransaction`.

Entries are keyed by the hash of their transaction; a `setEntries` is the
list of the hashes in `CompareIteratorByHash` order, so that every loop over
one runs in the order of the source.  The counts, sizes and sigop costs are
integers: the source keeps them in 64 bits, which the sizes of a pool never
approach.  Fees are `CAmount`.
-/

namespace AokChain
namespace Packages
open Serial

/-- `GetTransactionWeight`. -/
def getTransactionWeight (tx : CTransaction) : ℕ :=
  (serializeTransaction false tx).length * (WITNESS_SCALE_FACTOR - 1) + (serializeTransaction true tx).length

/-- `GetVirtualTransactionSize(nWeight, nSigOpCost)` at the setting `-bytespersigop`. -/
def getVirtualTransactionSize (nBytesPerSigOp nWeight nSigOpCost : ℕ) : ℕ :=
  (max nWeight (nSigOpCost * nBytesPerSigOp) + WITNESS_SCALE_FACTOR - 1) / WITNESS_SCALE_FACTOR

section Sets

/-- The bytes of a hash as `base_blob` stores them, least significant first. -/
def blobBytes (hash : uint256) : List ℕ := (List.range 32).map fun i => hash.toNat / 256 ^ i % 256

/-- `CompareIteratorByHash`: `base_blob`'s `operator<`, a `memcmp` of the bytes. -/
def compareByHash (a b : uint256) : Bool := decide (blobBytes a < blobBytes b)

/-- `setEntries`: the entries of a set by their hashes, in `CompareIteratorByHash` order. -/
abbrev setEntries := List uint256

/-- Where an entry goes in a set: before the first entry it compares less than. -/
def insertOrdered (it : uint256) : setEntries → setEntries
  | [] => [it]
  | x :: s => if compareByHash it x then it :: x :: s else x :: insertOrdered it s

/-- `setEntries::insert`: nothing changes where the entry is there already. -/
def insertEntry (it : uint256) (s : setEntries) : setEntries := if it ∈ s then s else insertOrdered it s

/-- `setEntries::erase`. -/
def eraseEntry (it : uint256) (s : setEntries) : setEntries := s.erase it

theorem perm_insertOrdered (it : uint256) : ∀ s : setEntries, (insertOrdered it s).Perm (it :: s)
  | [] => List.Perm.refl _
  | x :: s => by
    unfold insertOrdered
    split
    · exact List.Perm.refl _
    · exact ((perm_insertOrdered it s).cons x).trans (List.Perm.swap it x s)

@[simp] theorem mem_insertEntry {it x : uint256} {s : setEntries} : x ∈ insertEntry it s ↔ x = it ∨ x ∈ s := by
  unfold insertEntry
  split
  · constructor
    · exact .inr
    · rintro (rfl | h) <;> assumption
  · rw [(perm_insertOrdered it s).mem_iff, List.mem_cons]

theorem nodup_insertEntry {it : uint256} {s : setEntries} (h : s.Nodup) : (insertEntry it s).Nodup := by
  unfold insertEntry
  split
  · exact h
  · exact (perm_insertOrdered it s).nodup_iff.mpr (List.nodup_cons.mpr ⟨‹_›, h⟩)

theorem length_insertEntry {it : uint256} {s : setEntries} (h : it ∉ s) : (insertEntry it s).length = s.length + 1 := by
  rw [insertEntry, if_neg h, (perm_insertOrdered it s).length_eq, List.length_cons]

theorem mem_eraseEntry {it x : uint256} {s : setEntries} (h : s.Nodup) : x ∈ eraseEntry it s ↔ x ≠ it ∧ x ∈ s :=
  h.mem_erase_iff

end Sets

/-- `CTxMemPoolEntry`, without its lock points and memory usage. -/
structure CTxMemPoolEntry where
  tx : CTransaction
  nFee : CAmount
  nTxWeight : ℕ
  nTime : Int64
  entryHeight : UInt32
  spendsCoinbase : Bool
  sigOpCost : ℕ
  feeDelta : CAmount
  nCountWithDescendants : ℤ
  nSizeWithDescendants : ℤ
  nModFeesWithDescendants : CAmount
  nCountWithAncestors : ℤ
  nSizeWithAncestors : ℤ
  nModFeesWithAncestors : CAmount
  nSigOpCostWithAncestors : ℤ
  deriving DecidableEq

namespace CTxMemPoolEntry

variable (nBytesPerSigOp : ℕ)

/-- `GetTxSize`. -/
def getTxSize (e : CTxMemPoolEntry) : ℕ := getVirtualTransactionSize nBytesPerSigOp e.nTxWeight e.sigOpCost

/-- The constructor: the package of a new entry is the entry alone. -/
def make (tx : CTransaction) (nFee : CAmount) (nTime : Int64) (entryHeight : UInt32) (spendsCoinbase : Bool)
    (sigOpCost : ℕ) : CTxMemPoolEntry :=
  let nTxWeight := getTransactionWeight tx
  let size : ℤ := getVirtualTransactionSize nBytesPerSigOp nTxWeight sigOpCost
  ⟨tx, nFee, nTxWeight, nTime, entryHeight, spendsCoinbase, sigOpCost, 0, 1, size, nFee, 1, size, nFee, sigOpCost⟩

/-- `GetModifiedFee`. -/
def getModifiedFee (e : CTxMemPoolEntry) : CAmount := e.nFee + e.feeDelta

/-- `UpdateFeeDelta`. -/
def updateFeeDelta (e : CTxMemPoolEntry) (newFeeDelta : CAmount) : CTxMemPoolEntry :=
  { e with nModFeesWithDescendants := e.nModFeesWithDescendants + (newFeeDelta - e.feeDelta),
           nModFeesWithAncestors := e.nModFeesWithAncestors + (newFeeDelta - e.feeDelta),
           feeDelta := newFeeDelta }

/-- `UpdateDescendantState`, without its asserts. -/
def updateDescendantState (e : CTxMemPoolEntry) (modifySize : ℤ) (modifyFee : CAmount) (modifyCount : ℤ) :
    CTxMemPoolEntry :=
  { e with nSizeWithDescendants := e.nSizeWithDescendants + modifySize,
           nModFeesWithDescendants := e.nModFeesWithDescendants + modifyFee,
           nCountWithDescendants := e.nCountWithDescendants + modifyCount }

/-- `UpdateAncestorState`, without its asserts. -/
def updateAncestorState (e : CTxMemPoolEntry) (modifySize : ℤ) (modifyFee : CAmount) (modifyCount modifySigOps : ℤ) :
    CTxMemPoolEntry :=
  { e with nSizeWithAncestors := e.nSizeWithAncestors + modifySize,
           nModFeesWithAncestors := e.nModFeesWithAncestors + modifyFee,
           nCountWithAncestors := e.nCountWithAncestors + modifyCount,
           nSigOpCostWithAncestors := e.nSigOpCostWithAncestors + modifySigOps }

end CTxMemPoolEntry

/-- `TxLinks`. -/
structure TxLinks where
  parents : setEntries
  children : setEntries
  deriving DecidableEq

/-- The limits of `CalculateMemPoolAncestors`. -/
structure Limits where
  limitAncestorCount : ℕ
  limitAncestorSize : ℕ
  limitDescendantCount : ℕ
  limitDescendantSize : ℕ
  deriving DecidableEq

/-- `std::numeric_limits<uint64_t>::max()` for every limit. -/
def noLimits : Limits := ⟨2 ^ 64 - 1, 2 ^ 64 - 1, 2 ^ 64 - 1, 2 ^ 64 - 1⟩

/-- `uint256::ToString`: the hexadecimal digits, most significant first. -/
def hashToString (hash : uint256) : String :=
  String.ofList ((List.range 64).map fun i => Nat.digitChar (hash.toNat / 16 ^ (63 - i) % 16))

/-- `CTxMemPool`: the entries by hash, their links, the spenders of outpoints,
the fee deltas, and the token issues of `mapTokenToHash` and `mapHashToToken`.
`mapTx` lists its entries in an order of its own, as the hashed index does. -/
structure CTxMemPool where
  mapTx : AList fun _ : uint256 => CTxMemPoolEntry
  mapLinks : Finmap fun _ : uint256 => TxLinks
  mapNextTx : Finmap fun _ : COutPoint => uint256
  mapDeltas : Finmap fun _ : uint256 => CAmount
  mapTokenToHash : Finmap fun _ : Bytes => uint256
  mapHashToToken : Finmap fun _ : uint256 => Bytes

namespace CTxMemPool

def empty : CTxMemPool := ⟨∅, ∅, ∅, ∅, ∅, ∅⟩

variable (nBytesPerSigOp : ℕ) (pool : CTxMemPool)

section Links

/-- `mapTx.modify(it, f)`. -/
def modifyEntry (it : uint256) (f : CTxMemPoolEntry → CTxMemPoolEntry) : CTxMemPool :=
  match pool.mapTx.lookup it with
  | some e => { pool with mapTx := pool.mapTx.insert it (f e) }
  | none => pool

/-- `mapLinks[it]`, which is created empty where it is missing. -/
def links (it : uint256) : TxLinks := (pool.mapLinks.lookup it).getD ⟨[], []⟩

/-- `GetMemPoolParents`, without its asserts. -/
def getMemPoolParents (it : uint256) : setEntries := (pool.links it).parents

/-- `GetMemPoolChildren`, without its asserts. -/
def getMemPoolChildren (it : uint256) : setEntries := (pool.links it).children

/-- `UpdateChild`. -/
def updateChild (entry child : uint256) (add : Bool) : CTxMemPool :=
  let links := pool.links entry
  let links := { links with
    children := if add then insertEntry child links.children else eraseEntry child links.children }
  { pool with mapLinks := pool.mapLinks.insert entry links }

/-- `UpdateParent`. -/
def updateParent (entry parent : uint256) (add : Bool) : CTxMemPool :=
  let links := pool.links entry
  let links := { links with
    parents := if add then insertEntry parent links.parents else eraseEntry parent links.parents }
  { pool with mapLinks := pool.mapLinks.insert entry links }

end Links

section Ancestors

/-- The search of `CalculateMemPoolAncestors` for the parents of a transaction
not yet in the pool: the hashes its inputs spend that the pool holds. -/
def searchParents (limitAncestorCount : ℕ) : setEntries → List CTxIn → Except String setEntries
  | parentHashes, [] => .ok parentHashes
  | parentHashes, txin :: vin =>
    if txin.prevout.hash ∈ pool.mapTx then
      let parentHashes := insertEntry txin.prevout.hash parentHashes
      if (parentHashes.length + 1) % 2 ^ 64 > limitAncestorCount then
        .error ("too many unconfirmed parents [limit: " ++ toString limitAncestorCount ++ "]")
      else searchParents limitAncestorCount parentHashes vin
    else searchParents limitAncestorCount parentHashes vin

/-- The loop over the parents of an ancestor: each new one is staged. -/
def stageParents (limitAncestorCount : ℕ) (setAncestors : setEntries) :
    setEntries → setEntries → Except String setEntries
  | parentHashes, [] => .ok parentHashes
  | parentHashes, phash :: setMemPoolParents =>
    let parentHashes := if phash ∈ setAncestors then parentHashes else insertEntry phash parentHashes
    if (parentHashes.length + setAncestors.length + 1) % 2 ^ 64 > limitAncestorCount then
      .error ("too many unconfirmed ancestors [limit: " ++ toString limitAncestorCount ++ "]")
    else stageParents limitAncestorCount setAncestors parentHashes setMemPoolParents

/-- The inner loop of both searches without the count limit: the entries of `ps`
not in `done` join the stage. -/
def stageNew (done stage ps : setEntries) : setEntries :=
  ps.foldl (fun stage p => if p ∈ done then stage else insertEntry p stage) stage

/-- The loop of `CalculateMemPoolAncestors`, from the staged `parentHashes` and
the ancestors found: it returns `setAncestors` as the loop leaves it, with the
error that stopped it.  The sums are compared as the 64-bit unsigned values of
the source.  The fuel bounds the iterations, each of which finds an ancestor. -/
def ancestorsLoop (entrySize : ℕ) (limits : Limits) :
    ℕ → setEntries → setEntries → ℤ → setEntries × Option String
  | 0, _, setAncestors, _ => (setAncestors, none)
  | _ + 1, [], setAncestors, _ => (setAncestors, none)
  | fuel + 1, stageit :: parentHashes, setAncestors, totalSizeWithAncestors =>
    let setAncestors := insertEntry stageit setAncestors
    match pool.mapTx.lookup stageit with
    | none => (setAncestors, none)
    | some stage =>
      let totalSizeWithAncestors := totalSizeWithAncestors + stage.getTxSize nBytesPerSigOp
      if ((stage.nSizeWithDescendants + entrySize) % 2 ^ 64).toNat > limits.limitDescendantSize then
        (setAncestors, some ("exceeds descendant size limit for tx " ++ hashToString stageit ++ " [limit: " ++
          toString limits.limitDescendantSize ++ "]"))
      else if ((stage.nCountWithDescendants + 1) % 2 ^ 64).toNat > limits.limitDescendantCount then
        (setAncestors, some ("too many descendants for tx " ++ hashToString stageit ++ " [limit: " ++
          toString limits.limitDescendantCount ++ "]"))
      else if (totalSizeWithAncestors % 2 ^ 64).toNat > limits.limitAncestorSize then
        (setAncestors, some ("exceeds ancestor size limit [limit: " ++ toString limits.limitAncestorSize ++ "]"))
      else
        match stageParents limits.limitAncestorCount setAncestors parentHashes (pool.getMemPoolParents stageit) with
        | .error errString => (setAncestors, some errString)
        | .ok parentHashes => ancestorsLoop entrySize limits fuel parentHashes setAncestors totalSizeWithAncestors

/-- `CalculateMemPoolAncestors`: the ancestors found, and the error where it
returns `false`.  Without `fSearchForParents` the entry is the one at `hash`. -/
def calculateMemPoolAncestors (hash : uint256) (entry : CTxMemPoolEntry) (limits : Limits)
    (fSearchForParents : Bool) : setEntries × Option String :=
  let parents := if fSearchForParents then pool.searchParents limits.limitAncestorCount [] entry.tx.vin
    else .ok (pool.getMemPoolParents hash)
  match parents with
  | .error errString => ([], some errString)
  | .ok parentHashes =>
    let entrySize := entry.getTxSize nBytesPerSigOp
    pool.ancestorsLoop nBytesPerSigOp entrySize limits (pool.mapTx.keys.length + 1) parentHashes [] entrySize

end Ancestors

section Descendants

/-- The loop of `CalculateDescendants`: each staged entry joins the
descendants, and its children not among them are staged. -/
def descendantsLoop : ℕ → setEntries → setEntries → setEntries
  | 0, _, setDescendants => setDescendants
  | _ + 1, [], setDescendants => setDescendants
  | fuel + 1, it :: stage, setDescendants =>
    let setDescendants := insertEntry it setDescendants
    let stage := (pool.getMemPoolChildren it).foldl
      (fun stage childiter => if childiter ∈ setDescendants then stage else insertEntry childiter stage) stage
    descendantsLoop fuel stage setDescendants

/-- `CalculateDescendants`: `setDescendants` with the entry and its descendants. -/
def calculateDescendants (entryit : uint256) (setDescendants : setEntries) : setEntries :=
  pool.descendantsLoop (pool.mapTx.keys.length + 1) (if entryit ∈ setDescendants then [] else [entryit]) setDescendants

end Descendants

section Update

/-- `UpdateAncestorsOf`: the entry becomes, or stops being, a child of its
parents, and its size and fee are added to, or taken from, the descendant
state of its ancestors. -/
def updateAncestorsOf (add : Bool) (it : uint256) (setAncestors : setEntries) : CTxMemPool :=
  let pool := (pool.getMemPoolParents it).foldl (fun pool piter => pool.updateChild piter it add) pool
  match pool.mapTx.lookup it with
  | none => pool
  | some e =>
    let updateCount : ℤ := if add then 1 else -1
    let updateSize : ℤ := updateCount * e.getTxSize nBytesPerSigOp
    let updateFee : CAmount := (if add then 1 else -1) * e.getModifiedFee
    setAncestors.foldl (fun pool ancestorIt =>
      pool.modifyEntry ancestorIt (·.updateDescendantState updateSize updateFee updateCount)) pool

/-- `UpdateEntryForAncestors`: the ancestors' sizes, fees and sigop costs join
the entry's ancestor state. -/
def updateEntryForAncestors (it : uint256) (setAncestors : setEntries) : CTxMemPool :=
  let ancestors := setAncestors.filterMap pool.mapTx.lookup
  let updateSize : ℤ := (ancestors.map fun a => (a.getTxSize nBytesPerSigOp : ℤ)).sum
  let updateFee : CAmount := (ancestors.map CTxMemPoolEntry.getModifiedFee).foldl (· + ·) 0
  let updateSigOpsCost : ℤ := (ancestors.map fun a => (a.sigOpCost : ℤ)).sum
  pool.modifyEntry it (·.updateAncestorState updateSize updateFee setAncestors.length updateSigOpsCost)

/-- `UpdateChildrenForRemoval`: the entry stops being a parent of its children. -/
def updateChildrenForRemoval (it : uint256) : CTxMemPool :=
  (pool.getMemPoolChildren it).foldl (fun pool updateIt => pool.updateParent updateIt it false) pool

/-- The descendants' part of `UpdateForRemoveFromMempool` for one entry: its
size, fee and sigop cost leave the ancestor state of its descendants. -/
def removeFromDescendants (removeIt : uint256) : CTxMemPool :=
  match pool.mapTx.lookup removeIt with
  | none => pool
  | some e =>
    let setDescendants := eraseEntry removeIt (pool.calculateDescendants removeIt [])
    let modifySize : ℤ := -(e.getTxSize nBytesPerSigOp : ℤ)
    let modifyFee : CAmount := -e.getModifiedFee
    let modifySigOps : ℤ := -(e.sigOpCost : ℤ)
    setDescendants.foldl (fun pool dit =>
      pool.modifyEntry dit (·.updateAncestorState modifySize modifyFee (-1) modifySigOps)) pool

/-- The ancestors' part of `UpdateForRemoveFromMempool` for one entry: its
ancestors through `mapLinks`, and `UpdateAncestorsOf(false, ...)`. -/
def removeFromAncestors (removeIt : uint256) : CTxMemPool :=
  match pool.mapTx.lookup removeIt with
  | none => pool
  | some e =>
    pool.updateAncestorsOf nBytesPerSigOp false removeIt
      (pool.calculateMemPoolAncestors nBytesPerSigOp removeIt e noLimits false).1

/-- `UpdateForRemoveFromMempool`. -/
def updateForRemoveFromMempool (entriesToRemove : setEntries) (updateDescendants : Bool) : CTxMemPool :=
  let pool := if updateDescendants then
      entriesToRemove.foldl (fun pool removeIt => pool.removeFromDescendants nBytesPerSigOp removeIt) pool
    else pool
  let pool := entriesToRemove.foldl (fun pool removeIt => pool.removeFromAncestors nBytesPerSigOp removeIt) pool
  entriesToRemove.foldl (fun pool removeIt => pool.updateChildrenForRemoval removeIt) pool

end Update

section Remove

/-- `removeUnchecked`: the entry, its links, the outpoints it spends, and its
token issue leave the pool. -/
def removeUnchecked (it : uint256) : CTxMemPool :=
  match pool.mapTx.lookup it with
  | none => pool
  | some e =>
    let mapTokenToHash := match pool.mapHashToToken.lookup it with
      | some name => pool.mapTokenToHash.erase name
      | none => pool.mapTokenToHash
    { pool with
      mapNextTx := e.tx.vin.foldl (fun mapNextTx txin => mapNextTx.erase txin.prevout) pool.mapNextTx
      mapLinks := pool.mapLinks.erase it
      mapTx := pool.mapTx.erase it
      mapTokenToHash
      mapHashToToken := pool.mapHashToToken.erase it }

/-- `RemoveStaged`. -/
def removeStaged (stage : setEntries) (updateDescendants : Bool) : CTxMemPool :=
  stage.foldl (fun pool it => pool.removeUnchecked it) (pool.updateForRemoveFromMempool nBytesPerSigOp stage updateDescendants)

variable (C : Crypto)

/-- `removeRecursive`: the transaction, or where the pool does not hold it its
spenders, with all their descendants. -/
def removeRecursive (origTx : CTransaction) : CTxMemPool :=
  let hash := C.getHash origTx
  let txToRemove : setEntries :=
    if hash ∈ pool.mapTx then [hash]
    else (List.range origTx.vout.length).foldl (fun txToRemove i =>
      match pool.mapNextTx.lookup ⟨hash, UInt32.ofNat i⟩ with
      | some nextit => insertEntry nextit txToRemove
      | none => txToRemove) []
  let setAllRemoves := txToRemove.foldl (fun setAllRemoves it => pool.calculateDescendants it setAllRemoves) []
  pool.removeStaged nBytesPerSigOp setAllRemoves false

/-- `ClearPrioritisation`. -/
def clearPrioritisation (hash : uint256) : CTxMemPool := { pool with mapDeltas := pool.mapDeltas.erase hash }

/-- `removeConflicts`: the spenders of the transaction's inputs other than the
transaction itself, with their descendants. -/
def removeConflicts (tx : CTransaction) : CTxMemPool :=
  tx.vin.foldl (fun pool txin =>
    match pool.mapNextTx.lookup txin.prevout with
    | none => pool
    | some conflict =>
      match pool.mapTx.lookup conflict with
      | none => pool
      | some e =>
        if C.getHash e.tx ≠ C.getHash tx then
          (pool.clearPrioritisation conflict).removeRecursive nBytesPerSigOp C e.tx
        else pool) pool

/-- One transaction of `removeForBlock`: its entry leaves the pool alone, with
`updateDescendants`, then its conflicts and its fee delta. -/
def removeForBlockTx (tx : CTransaction) : CTxMemPool :=
  let hash := C.getHash tx
  let pool := if hash ∈ pool.mapTx then pool.removeStaged nBytesPerSigOp [hash] true else pool
  ((pool.removeConflicts nBytesPerSigOp C tx).clearPrioritisation hash)

/-- `removeForBlock(vtx, nBlockHeight, setNewTokens)`, with the names of the
new tokens in the set's order: the block's transactions, then the pool's
issues of the block's new tokens. -/
def removeForBlock (vtx : List CTransaction) (setNewTokens : List Bytes) : CTxMemPool :=
  let trans := setNewTokens.filterMap fun name =>
    (pool.mapTokenToHash.lookup name).bind fun hash => (pool.mapTx.lookup hash).map CTxMemPoolEntry.tx
  let pool := vtx.foldl (fun pool tx => pool.removeForBlockTx nBytesPerSigOp C tx) pool
  trans.foldl (fun pool tx => pool.removeForBlockTx nBytesPerSigOp C tx) pool

end Remove

section Add

/-- `addUnchecked` with the ancestors `CalculateMemPoolAncestors` found.  An
entry whose hash the pool holds is kept, as `insert` does. -/
def addUnchecked (hash : uint256) (entry : CTxMemPoolEntry) (setAncestors : setEntries) : CTxMemPool :=
  let tx := ((pool.mapTx.lookup hash).getD entry).tx
  let pool := { pool with
    mapTx := if hash ∈ pool.mapTx then pool.mapTx else pool.mapTx.insert hash entry
    mapLinks := if hash ∈ pool.mapLinks then pool.mapLinks else pool.mapLinks.insert hash ⟨[], []⟩ }
  let pool := match pool.mapDeltas.lookup hash with
    | some delta => if delta ≠ 0 then pool.modifyEntry hash (·.updateFeeDelta delta) else pool
    | none => pool
  let pool := { pool with mapNextTx := tx.vin.foldl (fun mapNextTx (txin : CTxIn) =>
    if txin.prevout ∈ mapNextTx then mapNextTx else mapNextTx.insert txin.prevout hash) pool.mapNextTx }
  let setParentTransactions : setEntries := tx.vin.foldl (fun s txin => insertEntry txin.prevout.hash s) []
  let pool := setParentTransactions.foldl (fun pool phash =>
    if phash ∈ pool.mapTx then pool.updateParent hash phash true else pool) pool
  let pool := pool.updateAncestorsOf nBytesPerSigOp true hash setAncestors
  pool.updateEntryForAncestors nBytesPerSigOp hash setAncestors

/-- `PrioritiseTransaction`: the delta joins `mapDeltas`, and, where the pool
holds the entry, its modified fee and that of its packages. -/
def prioritiseTransaction (hash : uint256) (nFeeDelta : CAmount) : CTxMemPool :=
  let delta := (pool.mapDeltas.lookup hash).getD 0 + nFeeDelta
  let pool := { pool with mapDeltas := pool.mapDeltas.insert hash delta }
  match pool.mapTx.lookup hash with
  | none => pool
  | some e =>
    let pool := pool.modifyEntry hash (·.updateFeeDelta delta)
    let setAncestors := (pool.calculateMemPoolAncestors nBytesPerSigOp hash e noLimits false).1
    let pool := setAncestors.foldl (fun pool ancestorIt =>
      pool.modifyEntry ancestorIt (·.updateDescendantState 0 nFeeDelta 0)) pool
    let setDescendants := eraseEntry hash (pool.calculateDescendants hash [])
    setDescendants.foldl (fun pool descendantIt =>
      pool.modifyEntry descendantIt (·.updateAncestorState 0 nFeeDelta 0 0)) pool

/-- `Expire`: the entries that entered before `time`, with their descendants. -/
def expire (time : Int64) : CTxMemPool × ℕ :=
  let toremove := pool.mapTx.entries.foldl (fun toremove e =>
    if e.2.nTime < time then insertEntry e.1 toremove else toremove) []
  let stage := toremove.foldl (fun stage removeit => pool.calculateDescendants removeit stage) []
  (pool.removeStaged nBytesPerSigOp stage false, stage.length)

end Add

end CTxMemPool

end Packages
end AokChain
