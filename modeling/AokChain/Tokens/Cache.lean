import AokChain.Consensus.TxVerify
import AokChain.Lib.KeyedSet

/-!
# The token cache

`CTokensCache` of `tokens/tokens.cpp` as far as the token view goes: the new
and removed issues, the reissued metadata, and the new and removed reissues.
`ConnectBlock` and `DisconnectBlock` write into a cache of their own, which
reads through the global cache `ptokens`, the LRU `ptokensCache` and the
database `ptokensdb`; `Flush` moves it into `ptokens`, and
`DumpCacheToDatabase` moves `ptokens` into the database.

The address balances of `-tokenindex` and the owner and transfer sets, which
only those balances read, are left out, and the LRU never evicts.  The sets
keep their elements in the order they came in, where the source walks them in
key order: this only decides which of several reissues of one name gives the
height and hash written with its metadata.

The two lookups walk the layers in different orders, `Flush` copies reissued
metadata without ever deleting any, and `DumpCacheToDatabase` writes the
metadata of every undone reissue whose issue is not removed in the same dump.
-/

namespace AokChain
open Serial

/-- `CTokenCacheNewToken` without its address: an issue and the block that made
it.  Its sets compare the name only. -/
structure CTokenCacheNewToken where
  token : CNewToken
  blockHeight : Int
  blockHash : uint256
  deriving DecidableEq, Repr

def CTokenCacheNewToken.name (e : CTokenCacheNewToken) : Bytes := e.token.strName

/-- `CTokenCacheReissueToken` without its address.  Its sets compare the
outpoint only.  The height and hash are those `GetTokenMetaDataIfExists` gave,
`none` where it left the caller's variables unwritten. -/
structure CTokenCacheReissueToken where
  reissue : CReissueToken
  out : COutPoint
  block : Option (Int × uint256)
  deriving DecidableEq, Repr

/-- `CDatabasedTokenData`, the value of the database and of its LRU. -/
structure CDatabasedTokenData where
  token : CNewToken
  block : Option (Int × uint256)
  deriving DecidableEq, Repr

/-- `CBlockTokenUndo`: what a reissue changed besides the amount. -/
structure CBlockTokenUndo where
  fChangedIPFS : Bool
  fChangedUnits : Bool
  strIPFS : Bytes
  nUnits : Int8
  deriving DecidableEq, Repr

/-- The dirty part of a `CTokensCache` that the token view reads and writes. -/
structure CTokensCache where
  setNewTokensToAdd : List CTokenCacheNewToken
  setNewTokensToRemove : List CTokenCacheNewToken
  mapReissuedTokenData : List (Bytes × CNewToken)
  setNewReissueToAdd : List CTokenCacheReissueToken
  setNewReissueToRemove : List CTokenCacheReissueToken
  deriving DecidableEq, Repr

namespace CTokensCache

def empty : CTokensCache := ⟨[], [], [], [], []⟩

/-- An issue recorded: a removal of its name dropped, the issue inserted. -/
def addNew (c : CTokensCache) (e : CTokenCacheNewToken) : CTokensCache :=
  { c with
    setNewTokensToRemove := KeyedSet.erase CTokenCacheNewToken.name e.name c.setNewTokensToRemove
    setNewTokensToAdd := KeyedSet.insert CTokenCacheNewToken.name e c.setNewTokensToAdd }

/-- A removal recorded: an issue of its name dropped, the removal inserted. -/
def removeNew (c : CTokensCache) (e : CTokenCacheNewToken) : CTokensCache :=
  { c with
    setNewTokensToAdd := KeyedSet.erase CTokenCacheNewToken.name e.name c.setNewTokensToAdd
    setNewTokensToRemove := KeyedSet.insert CTokenCacheNewToken.name e c.setNewTokensToRemove }

/-- A reissue recorded, by outpoint. -/
def addReissue (c : CTokensCache) (e : CTokenCacheReissueToken) : CTokensCache :=
  { c with
    setNewReissueToRemove := KeyedSet.erase CTokenCacheReissueToken.out e.out c.setNewReissueToRemove
    setNewReissueToAdd := KeyedSet.insert CTokenCacheReissueToken.out e c.setNewReissueToAdd }

/-- An undone reissue recorded, by outpoint. -/
def removeReissue (c : CTokensCache) (e : CTokenCacheReissueToken) : CTokensCache :=
  { c with
    setNewReissueToAdd := KeyedSet.erase CTokenCacheReissueToken.out e.out c.setNewReissueToAdd
    setNewReissueToRemove := KeyedSet.insert CTokenCacheReissueToken.out e c.setNewReissueToRemove }

/-- Reissued metadata written under its name. -/
def setReissued (c : CTokensCache) (name : Bytes) (token : CNewToken) : CTokensCache :=
  { c with mapReissuedTokenData := OrderedMap.alter bytesLt name (fun _ => token) c.mapReissuedTokenData }

end CTokensCache

/-- The stores a cache of `ConnectBlock` or `DisconnectBlock` reads through. -/
structure TokenLayers where
  cache : CTokensCache
  ptokens : CTokensCache
  ptokensCache : List (Bytes × CDatabasedTokenData)
  ptokensdb : List (Bytes × CDatabasedTokenData)
  deriving DecidableEq, Repr

section Metadata

/-- The metadata `AddReissueToken` leaves: the amount added, the reissuable
flag taken over, the units unless `-1`, the IPFS hash unless empty. -/
def CReissueToken.applyTo (reissue : CReissueToken) (token : CNewToken) : CNewToken :=
  { token with
    nAmount := token.nAmount + reissue.nAmount
    nReissuable := reissue.nReissuable
    units := if reissue.nUnits != -1 then reissue.nUnits else token.units
    nHasIPFS := if reissue.strIPFSHash != [] then 1 else token.nHasIPFS
    strIPFSHash := if reissue.strIPFSHash != [] then reissue.strIPFSHash else token.strIPFSHash }

/-- The metadata `RemoveReissueToken` leaves: the amount taken back, reissuable
set, and the IPFS hash and units of the first undo record of the name. -/
def CReissueToken.undoFrom (reissue : CReissueToken) (vUndoToken : List (Bytes × CBlockTokenUndo))
    (token : CNewToken) : CNewToken :=
  let tokenData := { token with nAmount := token.nAmount - reissue.nAmount, nReissuable := 1 }
  match vUndoToken.find? fun undoItem => undoItem.1 == reissue.strName with
  | some (_, undo) =>
    let tokenData := if undo.fChangedIPFS then { tokenData with strIPFSHash := undo.strIPFS } else tokenData
    let tokenData := if undo.fChangedUnits then { tokenData with units := undo.nUnits } else tokenData
    if tokenData.strIPFSHash == [] then { tokenData with nHasIPFS := 0 } else tokenData
  | none => tokenData

end Metadata

namespace TokenLayers

variable (L : TokenLayers)

/-- `CheckIfTokenExists(name, fForceDuplicateCheck)`: the removals of the cache
and of `ptokens`, their additions, the LRU, and the database, whose entry goes
into the LRU.  Without `fForceDuplicateCheck` an addition found is only logged. -/
def checkIfTokenExists (name : Bytes) (fForceDuplicateCheck : Bool) : Bool × TokenLayers :=
  if KeyedSet.contains CTokenCacheNewToken.name name L.cache.setNewTokensToRemove then (false, L)
  else if KeyedSet.contains CTokenCacheNewToken.name name L.ptokens.setNewTokensToRemove then (false, L)
  else if fForceDuplicateCheck && KeyedSet.contains CTokenCacheNewToken.name name L.cache.setNewTokensToAdd then
    (true, L)
  else if fForceDuplicateCheck && KeyedSet.contains CTokenCacheNewToken.name name L.ptokens.setNewTokensToAdd then
    (true, L)
  else if (OrderedMap.find? name L.ptokensCache).isSome then (fForceDuplicateCheck, L)
  else
    match OrderedMap.find? name L.ptokensdb with
    | some data =>
      (fForceDuplicateCheck,
        { L with ptokensCache := OrderedMap.alter bytesLt data.token.strName (fun _ => data) L.ptokensCache })
    | none => (false, L)

/-- `GetTokenMetaDataIfExists(name, token, nHeight, blockHash)`: the reissued
metadata of the cache and of `ptokens` come before the removals. -/
def getTokenMetaDataIfExists (name : Bytes) : Option (CNewToken × Option (Int × uint256)) × TokenLayers :=
  match OrderedMap.find? name L.cache.mapReissuedTokenData with
  | some token => (some (token, none), L)
  | none =>
    match OrderedMap.find? name L.ptokens.mapReissuedTokenData with
    | some token => (some (token, none), L)
    | none =>
      if KeyedSet.contains CTokenCacheNewToken.name name L.cache.setNewTokensToRemove then (none, L)
      else if KeyedSet.contains CTokenCacheNewToken.name name L.ptokens.setNewTokensToRemove then (none, L)
      else
        match KeyedSet.find? CTokenCacheNewToken.name name L.cache.setNewTokensToAdd with
        | some e => (some (e.token, some (e.blockHeight, e.blockHash)), L)
        | none =>
          match KeyedSet.find? CTokenCacheNewToken.name name L.ptokens.setNewTokensToAdd with
          | some e => (some (e.token, some (e.blockHeight, e.blockHash)), L)
          | none =>
            match OrderedMap.find? name L.ptokensCache with
            | some data => (some (data.token, data.block), L)
            | none =>
              match OrderedMap.find? name L.ptokensdb with
              | some data =>
                (some (data.token, data.block),
                  { L with ptokensCache := OrderedMap.alter bytesLt data.token.strName (fun _ => data) L.ptokensCache })
              | none => (none, L)

/-- `AddNewToken(token, address, nHeight, blockHash)`. -/
def addNewToken (token : CNewToken) (nHeight : Int) (blockHash : uint256) : Bool × TokenLayers :=
  let r := L.checkIfTokenExists token.strName true
  if r.1 then (false, r.2)
  else (true, { r.2 with cache := r.2.cache.addNew ⟨token, nHeight, blockHash⟩ })

/-- `RemoveNewToken(token, address)`. -/
def removeNewToken (token : CNewToken) : Bool × TokenLayers :=
  let r := L.checkIfTokenExists token.strName true
  if !r.1 then (false, r.2)
  else (true, { r.2 with cache := r.2.cache.removeNew ⟨token, 0, 0⟩ })

/-- `AddReissueToken(reissue, address, out)`.  Both branches of the source update
the same fields, of the looked-up metadata or of the cache's entry. -/
def addReissueToken (reissue : CReissueToken) (out : COutPoint) : Bool × TokenLayers :=
  let r := L.getTokenMetaDataIfExists reissue.strName
  match r.1 with
  | none => (false, r.2)
  | some (token, block) =>
    let cache := match OrderedMap.find? reissue.strName r.2.cache.mapReissuedTokenData with
      | none => r.2.cache.setReissued reissue.strName (reissue.applyTo token)
      | some entry => r.2.cache.setReissued reissue.strName (reissue.applyTo entry)
    (true, { r.2 with cache := cache.addReissue ⟨reissue, out, block⟩ })

/-- `RemoveReissueToken(reissue, address, out, vUndoToken)`. -/
def removeReissueToken (reissue : CReissueToken) (out : COutPoint) (vUndoToken : List (Bytes × CBlockTokenUndo)) :
    Bool × TokenLayers :=
  let r := L.getTokenMetaDataIfExists reissue.strName
  match r.1 with
  | none => (false, r.2)
  | some (token, block) =>
    let tokenData := reissue.undoFrom vUndoToken token
    let cache := r.2.cache.setReissued tokenData.strName tokenData
    (true, { r.2 with cache := cache.removeReissue ⟨reissue, out, block⟩ })

end TokenLayers

namespace CTokensCache

/-- The loops of `Flush` over the issues: an addition cancels a removal of the
name and is inserted, and the other way round. -/
def flushNewTokens (c p : CTokensCache) : CTokensCache :=
  c.setNewTokensToRemove.foldl removeNew (c.setNewTokensToAdd.foldl addNew p)

/-- The loops of `Flush` over the reissues, keyed by outpoint. -/
def flushReissues (c p : CTokensCache) : CTokensCache :=
  c.setNewReissueToRemove.foldl removeReissue (c.setNewReissueToAdd.foldl addReissue p)

/-- `Flush`: the cache into `ptokens`; the reissued metadata is copied over
what `ptokens` holds, entry by entry. -/
def flushInto (c p : CTokensCache) : CTokensCache :=
  c.flushReissues (c.mapReissuedTokenData.foldl (fun p item => p.setReissued item.1 item.2) (c.flushNewTokens p))

end CTokensCache

namespace TokenLayers

variable (L : TokenLayers)

/-- `Flush` of the cache into `ptokens`; the next block starts a new cache. -/
def flush : TokenLayers := { L with cache := CTokensCache.empty, ptokens := L.cache.flushInto L.ptokens }

/-- The LRU and the database as `DumpCacheToDatabase` writes them. -/
abbrev Stores := List (Bytes × CDatabasedTokenData) × List (Bytes × CDatabasedTokenData)

/-- The write of reissued metadata, with the reissue's height and hash, that
both reissue loops of `DumpCacheToDatabase` make. -/
def writeReissued (p : CTokensCache) (s : Stores) (item : CTokenCacheReissueToken) : Stores :=
  match OrderedMap.find? item.reissue.strName p.mapReissuedTokenData with
  | some token =>
    (OrderedMap.erase item.reissue.strName s.1,
      OrderedMap.alter bytesLt token.strName (fun _ => ⟨token, item.block⟩) s.2)
  | none => s

/-- `DumpCacheToDatabase` of `ptokens`, then `ClearDirtyCache`: the removed
issues are erased, the new ones written, and then the metadata of every reissue
and of every undone reissue, unless its issue is removed in this dump. -/
def dumpCacheToDatabase : TokenLayers :=
  let p := L.ptokens
  let s : Stores := p.setNewTokensToRemove.foldl (fun s item =>
    (OrderedMap.erase item.name s.1, OrderedMap.erase item.name s.2)) (L.ptokensCache, L.ptokensdb)
  let s := p.setNewTokensToAdd.foldl (fun s item =>
    (OrderedMap.alter bytesLt item.name (fun _ => ⟨item.token, some (item.blockHeight, item.blockHash)⟩) s.1,
      OrderedMap.alter bytesLt item.token.strName (fun _ => ⟨item.token, some (item.blockHeight, item.blockHash)⟩)
        s.2)) s
  let s := p.setNewReissueToAdd.foldl (writeReissued p) s
  let s := p.setNewReissueToRemove.foldl (fun s item =>
    if KeyedSet.contains CTokenCacheNewToken.name item.reissue.strName p.setNewTokensToRemove then s
    else writeReissued p s item) s
  { L with ptokens := CTokensCache.empty, ptokensCache := s.1, ptokensdb := s.2 }

/-- A lookup that meets a removal of the name answers no and writes nothing. -/
theorem checkIfTokenExists_of_removed {name : Bytes} (fForceDuplicateCheck : Bool)
    (h : KeyedSet.contains CTokenCacheNewToken.name name L.cache.setNewTokensToRemove = true ∨
      KeyedSet.contains CTokenCacheNewToken.name name L.ptokens.setNewTokensToRemove = true) :
    L.checkIfTokenExists name fForceDuplicateCheck = (false, L) := by
  unfold checkIfTokenExists
  rcases h with h | h
  · rw [if_pos h]
  · by_cases hc : KeyedSet.contains CTokenCacheNewToken.name name L.cache.setNewTokensToRemove = true
    · rw [if_pos hc]
    · rw [if_neg hc, if_pos h]

/-- A lookup answering no with the duplicate test on leaves the layers as they were. -/
theorem checkIfTokenExists_false {L : TokenLayers} {name : Bytes}
    (h : (L.checkIfTokenExists name true).1 = false) : (L.checkIfTokenExists name true).2 = L := by
  unfold TokenLayers.checkIfTokenExists at *
  split_ifs at h ⊢ <;> try rfl
  all_goals
    split at h
    · cases h
    · rfl

/-- What `CheckIfTokenExists` answers: the name is removed in neither the cache
nor `ptokens`, and, with `fForceDuplicateCheck`, some layer has it. -/
theorem checkIfTokenExists_fst (name : Bytes) (fForceDuplicateCheck : Bool) :
    (L.checkIfTokenExists name fForceDuplicateCheck).1 =
      (!KeyedSet.contains CTokenCacheNewToken.name name L.cache.setNewTokensToRemove &&
        !KeyedSet.contains CTokenCacheNewToken.name name L.ptokens.setNewTokensToRemove && fForceDuplicateCheck &&
        (KeyedSet.contains CTokenCacheNewToken.name name L.cache.setNewTokensToAdd ||
          KeyedSet.contains CTokenCacheNewToken.name name L.ptokens.setNewTokensToAdd ||
          (OrderedMap.find? name L.ptokensCache).isSome || (OrderedMap.find? name L.ptokensdb).isSome)) := by
  unfold checkIfTokenExists
  split_ifs <;> try simp_all
  split <;> simp_all

/-- The lookups write the LRU only. -/
@[simp] theorem getTokenMetaDataIfExists_cache (name : Bytes) : (L.getTokenMetaDataIfExists name).2.cache = L.cache := by
  unfold getTokenMetaDataIfExists
  repeat' split
  all_goals rfl

@[simp] theorem getTokenMetaDataIfExists_ptokens (name : Bytes) :
    (L.getTokenMetaDataIfExists name).2.ptokens = L.ptokens := by
  unfold getTokenMetaDataIfExists
  repeat' split
  all_goals rfl

/-- After a reissue the lookup of the name reads the reissued metadata from the
cache, whichever layer the metadata came from. -/
theorem getTokenMetaDataIfExists_addReissueToken {reissue : CReissueToken} {token : CNewToken}
    {block : Option (Int × uint256)} (out : COutPoint)
    (hget : (L.getTokenMetaDataIfExists reissue.strName).1 = some (token, block)) :
    ((L.addReissueToken reissue out).2.getTokenMetaDataIfExists reissue.strName).1 =
      some (reissue.applyTo token, none) := by
  -- an entry the cache already holds for the name is what the lookup returned
  have hentry : ∀ entry, OrderedMap.find? reissue.strName L.cache.mapReissuedTokenData = some entry →
      entry = token := by
    intro entry hc
    unfold getTokenMetaDataIfExists at hget
    rw [hc] at hget
    cases hget
    rfl
  have hstored : OrderedMap.find? reissue.strName (L.addReissueToken reissue out).2.cache.mapReissuedTokenData =
      some (reissue.applyTo token) := by
    simp only [addReissueToken, hget, getTokenMetaDataIfExists_cache]
    cases hc : OrderedMap.find? reissue.strName L.cache.mapReissuedTokenData with
    | none => simp [CTokensCache.addReissue, CTokensCache.setReissued]
    | some entry => simp [hentry entry hc, CTokensCache.addReissue, CTokensCache.setReissued]
  unfold getTokenMetaDataIfExists
  rw [hstored]

/-- `AddNewToken` succeeds exactly when the name does not exist. -/
theorem addNewToken_fst (token : CNewToken) (nHeight : Int) (blockHash : uint256) :
    (L.addNewToken token nHeight blockHash).1 = !(L.checkIfTokenExists token.strName true).1 := by
  simp only [addNewToken]
  cases (L.checkIfTokenExists token.strName true).1 <;> rfl

/-- `AddNewToken` of a name that does not exist records the issue and nothing else. -/
theorem addNewToken_of_fresh {token : CNewToken} (nHeight : Int) (blockHash : uint256)
    (hfresh : (L.checkIfTokenExists token.strName true).1 = false) :
    L.addNewToken token nHeight blockHash = (true, { L with cache := L.cache.addNew ⟨token, nHeight, blockHash⟩ }) := by
  simp only [addNewToken, hfresh, checkIfTokenExists_false hfresh, Bool.false_eq_true, if_false]

/-- An issue added where its name did not exist, and where `ptokens` does not
hide it, exists for the next lookup. -/
theorem checkIfTokenExists_addNewToken {token : CNewToken} (nHeight : Int) (blockHash : uint256)
    (hfresh : (L.checkIfTokenExists token.strName true).1 = false)
    (hshown : KeyedSet.contains CTokenCacheNewToken.name token.strName L.ptokens.setNewTokensToRemove = false) :
    ((L.addNewToken token nHeight blockHash).2.checkIfTokenExists token.strName true).1 = true := by
  have hremoved : KeyedSet.contains CTokenCacheNewToken.name token.strName
      (L.cache.addNew ⟨token, nHeight, blockHash⟩).setNewTokensToRemove = false :=
    KeyedSet.contains_erase_self _ _
  have hadded : KeyedSet.contains CTokenCacheNewToken.name token.strName
      (L.cache.addNew ⟨token, nHeight, blockHash⟩).setNewTokensToAdd = true := by
    simp [CTokensCache.addNew, KeyedSet.contains_insert, CTokenCacheNewToken.name]
  rw [L.addNewToken_of_fresh nHeight blockHash hfresh]
  unfold checkIfTokenExists
  simp [hremoved, hadded, hshown]

/-- `Flush` of an empty cache leaves the layers as they are. -/
theorem flush_of_empty {L : TokenLayers} (h : L.cache = CTokensCache.empty) : L.flush = L := by
  obtain ⟨c, p, lru, db⟩ := L
  dsimp only at h
  subst h
  rfl

/-- An issue in `ptokens`, under an empty cache, exists for the next lookup,
which writes nothing. -/
theorem checkIfTokenExists_flushedNew (token : CNewToken) (nHeight : Int) (blockHash : uint256) :
    ({ L with cache := CTokensCache.empty, ptokens := L.ptokens.addNew ⟨token, nHeight, blockHash⟩ } :
        TokenLayers).checkIfTokenExists token.strName true =
      (true, { L with cache := CTokensCache.empty, ptokens := L.ptokens.addNew ⟨token, nHeight, blockHash⟩ }) := by
  have hremoved : KeyedSet.contains CTokenCacheNewToken.name token.strName
      (L.ptokens.addNew ⟨token, nHeight, blockHash⟩).setNewTokensToRemove = false :=
    KeyedSet.contains_erase_self _ _
  have hadded : KeyedSet.contains CTokenCacheNewToken.name token.strName
      (L.ptokens.addNew ⟨token, nHeight, blockHash⟩).setNewTokensToAdd = true := by
    simp [CTokensCache.addNew, KeyedSet.contains_insert, CTokenCacheNewToken.name]
  unfold checkIfTokenExists
  simp [hremoved, hadded, CTokensCache.empty]

end TokenLayers

section Store

/-- What the token view stands for: the metadata of each existing token. -/
abbrev TokenStore := Bytes → Option CNewToken

/-- The operations of the token view, with what the cache records of each. -/
inductive TokenOp
  | addNew (token : CNewToken) (nHeight : Int) (blockHash : uint256)
  | removeNew (token : CNewToken)
  | addReissue (reissue : CReissueToken) (out : COutPoint)
  | removeReissue (reissue : CReissueToken) (out : COutPoint) (vUndoToken : List (Bytes × CBlockTokenUndo))

/-- An operation on the store. -/
def TokenStore.apply (s : TokenStore) : TokenOp → TokenStore
  | .addNew token _ _ => Function.update s token.strName (some token)
  | .removeNew token => Function.update s token.strName none
  | .addReissue reissue _ => Function.update s reissue.strName ((s reissue.strName).map reissue.applyTo)
  | .removeReissue reissue _ vUndoToken =>
    Function.update s reissue.strName ((s reissue.strName).map (reissue.undoFrom vUndoToken))

@[simp] theorem TokenStore.apply_addNew_self (s : TokenStore) (token : CNewToken) (nHeight : Int)
    (blockHash : uint256) : s.apply (.addNew token nHeight blockHash) token.strName = some token := by
  simp [TokenStore.apply]

/-- An operation on the layers, and whether the source reports it done. -/
def TokenLayers.perform (L : TokenLayers) : TokenOp → Bool × TokenLayers
  | .addNew token nHeight blockHash => L.addNewToken token nHeight blockHash
  | .removeNew token => L.removeNewToken token
  | .addReissue reissue out => L.addReissueToken reissue out
  | .removeReissue reissue out vUndoToken => L.removeReissueToken reissue out vUndoToken

/-- The layers answer both lookups as the store does. -/
def TokenLayers.Refines (L : TokenLayers) (s : TokenStore) : Prop :=
  ∀ name, (L.checkIfTokenExists name true).1 = (s name).isSome ∧
    (L.getTokenMetaDataIfExists name).1.map Prod.fst = s name

/-- The moves of the token view: an operation, which the store follows when the
source reports it done, a `Flush` of the cache, a `DumpCacheToDatabase`. -/
inductive TokenStep : TokenLayers × TokenStore → TokenLayers × TokenStore → Prop
  | perform {L : TokenLayers} {op : TokenOp} (s : TokenStore) (h : (L.perform op).1 = true) :
      TokenStep (L, s) ((L.perform op).2, s.apply op)
  | fail {L : TokenLayers} {op : TokenOp} (s : TokenStore) (h : (L.perform op).1 = false) :
      TokenStep (L, s) ((L.perform op).2, s)
  | flush (L : TokenLayers) (s : TokenStore) : TokenStep (L, s) (L.flush, s)
  | dump (L : TokenLayers) (s : TokenStore) : TokenStep (L, s) (L.dumpCacheToDatabase, s)

end Store

/-- Once `ptokens` records the removal of a name, as it does after a block
issuing the name is disconnected and before the next dump, a cache over it
adds the name and still does not see it: after the addition, the layers refine
no store the addition leads to. -/
theorem addNewToken_hidden_by_removal (L : TokenLayers) (token : CNewToken) (nHeight : Int) (blockHash : uint256)
    (hrem : KeyedSet.contains CTokenCacheNewToken.name token.strName L.ptokens.setNewTokensToRemove = true)
    (s : TokenStore) :
    (L.perform (.addNew token nHeight blockHash)).1 = true ∧
      ¬ (L.perform (.addNew token nHeight blockHash)).2.Refines (s.apply (.addNew token nHeight blockHash)) := by
  have hcheck := L.checkIfTokenExists_of_removed true (Or.inr hrem)
  simp only [TokenLayers.perform, TokenLayers.addNewToken, hcheck, Bool.false_eq_true, if_false]
  refine ⟨trivial, fun href => ?_⟩
  -- the cache dropped its own removal of the name, and that of ptokens still hides the addition
  have hafter := TokenLayers.checkIfTokenExists_of_removed
    { L with cache := L.cache.addNew ⟨token, nHeight, blockHash⟩ } true (Or.inr hrem)
  have h := (href token.strName).1
  rw [hafter, TokenStore.apply_addNew_self] at h
  cases h

section Fixtures

def nameABC : Bytes := [65, 66, 67]

/-- The issue of `ABC` on the chain that is disconnected, reissuable. -/
def abcIssue : CNewToken := ⟨nameABC, 100 * COIN, 0, 1, 0, []⟩

/-- A reissue of fifty more, keeping the units and the IPFS hash. -/
def abcReissue : CReissueToken := ⟨nameABC, 50 * COIN, -1, 1, []⟩

def abcReissueOut : COutPoint := ⟨5, 1⟩

/-- The issue of `ABC` on the competing chain: two decimals, not reissuable. -/
def abcRivalIssue : CNewToken := ⟨nameABC, 7 * COIN, 2, 0, 0, []⟩

def emptyLayers : TokenLayers := ⟨CTokensCache.empty, CTokensCache.empty, [], []⟩

/-- The layers after the issue and the reissue are connected and then both
disconnected, each block flushed, before any dump. -/
def reorgLayers : TokenLayers :=
  let L := (emptyLayers.perform (.addNew abcIssue 871500 1)).2.flush
  let L := (L.perform (.addReissue abcReissue abcReissueOut)).2.flush
  let L := (L.perform (.removeReissue abcReissue abcReissueOut [])).2.flush
  (L.perform (.removeNew abcIssue)).2.flush

def reorgStore : TokenStore :=
  let s := TokenStore.apply (fun _ => none) (.addNew abcIssue 871500 1)
  let s := TokenStore.apply s (.addReissue abcReissue abcReissueOut)
  let s := TokenStore.apply s (.removeReissue abcReissue abcReissueOut [])
  TokenStore.apply s (.removeNew abcIssue)

/-- The competing chain's block issuing `ABC`, connected and flushed. -/
def rivalLayers : TokenLayers := (reorgLayers.perform (.addNew abcRivalIssue 871500 2)).2.flush

end Fixtures

/-- The run: issue, reissue, undo the reissue, undo the issue, each flushed.
Adding the rival issue then leaves the layers refining no store; once the
rival block is flushed the metadata read is the undone issue's, and the next
dump writes it over the rival issue in the database. -/
theorem rivalIssue_reads_stale_metadata :
    Relation.ReflTransGen TokenStep (emptyLayers, fun _ => none) (reorgLayers, reorgStore) ∧
    KeyedSet.contains CTokenCacheNewToken.name abcRivalIssue.strName reorgLayers.ptokens.setNewTokensToRemove = true ∧
    ((reorgLayers.perform (.addNew abcRivalIssue 871500 2)).1 = true ∧
      ¬ (reorgLayers.perform (.addNew abcRivalIssue 871500 2)).2.Refines
        (TokenStore.apply reorgStore (.addNew abcRivalIssue 871500 2))) ∧
    (rivalLayers.getTokenMetaDataIfExists nameABC).1.map Prod.fst = some abcIssue ∧
    (OrderedMap.find? nameABC rivalLayers.dumpCacheToDatabase.ptokensdb).map CDatabasedTokenData.token =
      some abcIssue := by
  have hrem : KeyedSet.contains CTokenCacheNewToken.name abcRivalIssue.strName
      reorgLayers.ptokens.setNewTokensToRemove = true := by decide
  refine ⟨?_, hrem, addNewToken_hidden_by_removal reorgLayers abcRivalIssue 871500 2 hrem reorgStore,
    by decide, by decide⟩
  -- each operation is reported done, and each block is flushed
  have h1 : (emptyLayers.perform (.addNew abcIssue 871500 1)).1 = true := by decide
  have h2 : ((emptyLayers.perform (.addNew abcIssue 871500 1)).2.flush.perform
      (.addReissue abcReissue abcReissueOut)).1 = true := by decide
  have h3 : (((emptyLayers.perform (.addNew abcIssue 871500 1)).2.flush.perform
      (.addReissue abcReissue abcReissueOut)).2.flush.perform (.removeReissue abcReissue abcReissueOut [])).1 = true := by
    decide
  have h4 : ((((emptyLayers.perform (.addNew abcIssue 871500 1)).2.flush.perform
      (.addReissue abcReissue abcReissueOut)).2.flush.perform
        (.removeReissue abcReissue abcReissueOut [])).2.flush.perform (.removeNew abcIssue)).1 = true := by
    decide
  exact ((((((((Relation.ReflTransGen.single (TokenStep.perform _ h1)).tail (TokenStep.flush _ _)).tail
    (TokenStep.perform _ h2)).tail (TokenStep.flush _ _)).tail (TokenStep.perform _ h3)).tail
      (TokenStep.flush _ _)).tail (TokenStep.perform _ h4)).tail (TokenStep.flush _ _))

end AokChain
