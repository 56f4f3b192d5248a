import Mathlib.Data.List.AList
import AokChain.Coins.Coins

/-!
# The coins-view cache stack

`CCoinsViewCache` of `coins.h` and `coins.cpp`: a stack of caches over the
coin database, each cache holding entries with a coin and the `DIRTY` and
`FRESH` flags.  `FetchCoin` fills every cache on the way down, `AddCoin` and
`SpendCoin` work on the top cache, `Uncache` drops a clean entry, and `Flush`
hands a cache's entries to the view below it through `BatchWrite`, the
database's or the parent cache's.  The stack is the one
`coins_cache_simulation_test` pushes and pops: a top cache, the caches below
it, and the database.  The database is
`CCoinsViewDB`, read through `GetCoin` and written by its `BatchWrite`; its
best block is not modelled.
-/

namespace AokChain

/-- `CCoinsCacheEntry`: the cached coin and its flags. -/
structure CCoinsCacheEntry where
  coin : Coin
  /-- `DIRTY`: the entry may differ from the parent view's. -/
  dirty : Bool
  /-- `FRESH`: the parent view has no unspent coin for the outpoint. -/
  fresh : Bool
  deriving DecidableEq

/-- The coin `GetCoin` finds in an entry: none when it is spent. -/
def CCoinsCacheEntry.unspentCoin (e : CCoinsCacheEntry) : Option Coin :=
  if e.coin.isSpent then none else some e.coin

/-- A cache's `cacheCoins`, the source's map of entries by outpoint. -/
abbrev CacheCoins := AList fun _ : COutPoint => CCoinsCacheEntry

namespace CCoinsViewCache

/-- `FetchCoin` of a cache with entries `cacheCoins` over the caches `ps`:
its own entry, or the coin `GetCoin` of the view below finds (`getParent`),
cached as a clean entry.  Returns the entry, this cache and the caches below. -/
def fetchCoin (cacheCoins : CacheCoins) (ps : List CacheCoins) (o : COutPoint)
    (getParent : Unit → Option Coin × List CacheCoins) :
    Option CCoinsCacheEntry × CacheCoins × List CacheCoins :=
  match cacheCoins.lookup o with
  | some e => (some e, cacheCoins, ps)
  | none =>
    match getParent () with
    | (none, ps') => (none, cacheCoins, ps')
    | (some tmp, ps') =>
      -- the parent only has an empty entry for this outpoint: ours is fresh
      let e : CCoinsCacheEntry := ⟨tmp, false, tmp.isSpent⟩
      (some e, cacheCoins.insert o e, ps')

/-- `GetCoin` of the view made of the caches `ls` (top first) over the
database: the coin found, and the caches after the fetches.  A cache finds only
an unspent coin; the database finds what it stores. -/
def getCoin (base : CCoinsMap) (o : COutPoint) : List CacheCoins → Option Coin × List CacheCoins
  | [] => (base.lookup o, [])
  | cacheCoins :: ps =>
    let r := fetchCoin cacheCoins ps o fun _ => getCoin base o ps
    (r.1.bind CCoinsCacheEntry.unspentCoin, r.2.1 :: r.2.2)

/-- `AddCoin` on a cache's entries. -/
def addCoin (cacheCoins : CacheCoins) (o : COutPoint) (coin : Coin) (possible_overwrite : Bool) :
    Except String CacheCoins :=
  if coin.isSpent then .error "assert(!coin.IsSpent())"
  else if isUnspendable coin.out.scriptPubKey then .ok cacheCoins
  else
    -- `emplace`: a new entry holds the empty coin and no flags
    let e := (cacheCoins.lookup o).getD ⟨Coin.empty, false, false⟩
    if !possible_overwrite && !e.coin.isSpent then .error "Adding new coin that replaces non-pruned entry"
    else
      let fresh := !possible_overwrite && !e.dirty
      .ok (cacheCoins.insert o ⟨coin, true, e.fresh || fresh⟩)

/-- The part of `SpendCoin` after the fetch: a fresh entry is erased, any other
is marked dirty and its coin cleared. -/
def spendEntry (cacheCoins : CacheCoins) (o : COutPoint) (e : CCoinsCacheEntry) : CacheCoins :=
  if e.fresh then cacheCoins.erase o
  else cacheCoins.insert o { e with coin := Coin.empty, dirty := true }

/-- `Uncache`: an entry with no flags is dropped. -/
def uncache (cacheCoins : CacheCoins) (o : COutPoint) : CacheCoins :=
  match cacheCoins.lookup o with
  | some e => if !e.dirty && !e.fresh then cacheCoins.erase o else cacheCoins
  | none => cacheCoins

/-- One entry of `CCoinsViewCache::BatchWrite`: a child's entry into the parent's entries. -/
def batchWriteEntry (parent : CacheCoins) (o : COutPoint) (child : CCoinsCacheEntry) :
    Except String CacheCoins :=
  -- non-dirty entries are ignored
  if !child.dirty then .ok parent
  else
    match parent.lookup o with
    | none =>
      -- a fresh entry that is spent in the child need not reach the parent
      if child.fresh && child.coin.isSpent then .ok parent
      else .ok (parent.insert o ⟨child.coin, true, child.fresh⟩)
    | some us =>
      if child.fresh && !us.coin.isSpent then
        .error "FRESH flag misapplied to cache entry for base transaction with spendable outputs"
      -- the grandparent has no entry and the child prunes it: drop it from the parent
      else if us.fresh && child.coin.isSpent then .ok (parent.erase o)
      -- a normal modification; the child's `FRESH` is not copied
      else .ok (parent.insert o { us with coin := child.coin, dirty := true })

/-- `CCoinsViewCache::BatchWrite`. -/
def batchWrite (parent mapCoins : CacheCoins) : Except String CacheCoins :=
  mapCoins.entries.foldlM (fun parent e => batchWriteEntry parent e.1 e.2) parent

end CCoinsViewCache

/-- One entry of `CCoinsViewDB::BatchWrite`: a dirty entry is erased when spent
and written otherwise. -/
def CCoinsMap.batchWriteEntry (db : CCoinsMap) (o : COutPoint) (e : CCoinsCacheEntry) : CCoinsMap :=
  if e.dirty then (if e.coin.isSpent then db.erase o else db.insert o e.coin) else db

/-- `CCoinsViewDB::BatchWrite`. -/
def CCoinsMap.batchWrite (db : CCoinsMap) (mapCoins : CacheCoins) : CCoinsMap :=
  mapCoins.entries.foldl (fun db e => db.batchWriteEntry e.1 e.2) db

/-- A stack of caches over the coin database: the top cache, the caches below
it (nearest first) and the database. -/
structure CoinsStack where
  top : CacheCoins
  parents : List CacheCoins
  base : CCoinsMap
  deriving DecidableEq

/-- An operation on the stack: reads, `AddCoin` and `SpendCoin` at the top,
`Uncache` and `Flush` of the cache at a depth (the top at depth 0), and pushing
and popping caches.  `SpendCoin` takes the token cache's `TrySpendCoin` when
there is one. -/
inductive CoinsOp where
  | accessCoin (o : COutPoint)
  | haveCoin (o : COutPoint)
  | getCoin (o : COutPoint)
  | addCoin (o : COutPoint) (coin : Coin) (possible_overwrite : Bool)
  | spendCoin (o : COutPoint) (tokensCache : Option (COutPoint → CTxOut → Bool))
  | uncache (depth : ℕ) (o : COutPoint)
  | flush (depth : ℕ)
  | push
  | pop

namespace CoinsStack

open CCoinsViewCache

/-- `n + 1` new caches over the database. -/
def init (n : ℕ) (base : CCoinsMap) : CoinsStack := ⟨∅, List.replicate n ∅, base⟩

/-- `FetchCoin` of the top cache, and the stack after it. -/
def fetchTop (s : CoinsStack) (o : COutPoint) : Option CCoinsCacheEntry × CoinsStack :=
  let r := fetchCoin s.top s.parents o fun _ => getCoin s.base o s.parents
  (r.1, { s with top := r.2.1, parents := r.2.2 })

/-- `AccessCoin` at the top: the empty coin when there is none. -/
def accessCoin (s : CoinsStack) (o : COutPoint) : Coin × CoinsStack :=
  let r := s.fetchTop o
  ((r.1.map (·.coin)).getD Coin.empty, r.2)

/-- `HaveCoin` at the top. -/
def haveCoin (s : CoinsStack) (o : COutPoint) : Bool × CoinsStack :=
  let r := s.fetchTop o
  (match r.1 with
    | some e => !e.coin.isSpent
    | none => false, r.2)

/-- `GetCoin` at the top. -/
def getCoinTop (s : CoinsStack) (o : COutPoint) : Option Coin × CoinsStack :=
  let r := s.fetchTop o
  (r.1.bind CCoinsCacheEntry.unspentCoin, r.2)

/-- `AddCoin` at the top. -/
def addCoin (s : CoinsStack) (o : COutPoint) (coin : Coin) (possible_overwrite : Bool) :
    Except String CoinsStack := do
  let top ← CCoinsViewCache.addCoin s.top o coin possible_overwrite
  .ok { s with top := top }

/-- `SpendCoin` at the top: whether a coin was found (and the token cache, if
given, spent its token), the coin moved out, and the stack after it.  A failed
token spend does not undo the coin's. -/
def spendCoin (s : CoinsStack) (o : COutPoint) (tokensCache : Option (COutPoint → CTxOut → Bool)) :
    Bool × Coin × CoinsStack :=
  let r := s.fetchTop o
  match r.1 with
  | some e =>
    let ok := match tokensCache with
      | some trySpendCoin => trySpendCoin o e.coin.out
      | none => true
    (ok, e.coin, { r.2 with top := spendEntry r.2.top o e })
  | none => (false, Coin.empty, r.2)

/-- `Uncache` of the cache at depth `d`; a depth with no cache does nothing. -/
def uncacheAt (o : COutPoint) : ℕ → CacheCoins → List CacheCoins → CacheCoins × List CacheCoins
  | 0, cacheCoins, ps => (uncache cacheCoins o, ps)
  | _ + 1, cacheCoins, [] => (cacheCoins, [])
  | d + 1, cacheCoins, p :: ps =>
    let r := uncacheAt o d p ps
    (cacheCoins, r.1 :: r.2)

/-- `Flush` of the cache `cacheCoins` over the caches `ps`: its entries go to
the cache below it, or to the database, and it is left empty. -/
def flushInto (base : CCoinsMap) (cacheCoins : CacheCoins) :
    List CacheCoins → Except String (List CacheCoins × CCoinsMap)
  | [] => .ok ([], base.batchWrite cacheCoins)
  | parent :: ps => do
    let parent ← batchWrite parent cacheCoins
    .ok (parent :: ps, base)

/-- `Flush` of the cache at depth `d`; a depth with no cache does nothing. -/
def flushAt (base : CCoinsMap) :
    ℕ → CacheCoins → List CacheCoins → Except String (CacheCoins × List CacheCoins × CCoinsMap)
  | 0, cacheCoins, ps => do
    let r ← flushInto base cacheCoins ps
    .ok (∅, r.1, r.2)
  | _ + 1, cacheCoins, [] => .ok (cacheCoins, [], base)
  | d + 1, cacheCoins, p :: ps => do
    let r ← flushAt base d p ps
    .ok (cacheCoins, r.1 :: r.2.1, r.2.2)

/-- One operation. -/
def exec (s : CoinsStack) : CoinsOp → Except String CoinsStack
  | .accessCoin o => .ok (s.accessCoin o).2
  | .haveCoin o => .ok (s.haveCoin o).2
  | .getCoin o => .ok (s.getCoinTop o).2
  | .addCoin o coin possible_overwrite => s.addCoin o coin possible_overwrite
  | .spendCoin o tokensCache => .ok (s.spendCoin o tokensCache).2.2
  | .uncache d o =>
    let r := uncacheAt o d s.top s.parents
    .ok { s with top := r.1, parents := r.2 }
  | .flush d => do
    let r ← flushAt s.base d s.top s.parents
    .ok ⟨r.1, r.2.1, r.2.2⟩
  -- a new cache over the top one
  | .push => .ok ⟨∅, s.top :: s.parents, s.base⟩
  -- `Flush` the top cache and delete it; the last one is replaced by a new
  -- cache over the database, as the simulation test does
  | .pop => do
    let r ← flushInto s.base s.top s.parents
    match r.1 with
    | [] => .ok ⟨∅, [], r.2⟩
    | p :: ps => .ok ⟨p, ps, r.2⟩

/-- A sequence of operations, stopping at the first exception. -/
def run (s : CoinsStack) (ops : List CoinsOp) : Except String CoinsStack :=
  ops.foldlM exec s

end CoinsStack

/-- The flat map's meaning of an operation: the same adds and spends, with
everything else leaving it as it is. -/
def CCoinsMap.exec (flat : CCoinsMap) : CoinsOp → CCoinsMap
  | .addCoin o coin possible_overwrite =>
    match flat.addCoin o coin possible_overwrite with
    | .ok flat => flat
    | .error _ => flat
  | .spendCoin o _ =>
    match flat.spendCoin o with
    | some (_, flat) => flat
    | none => flat
  | _ => flat

/-- The flat map after a sequence of operations. -/
def CCoinsMap.run (flat : CCoinsMap) (ops : List CoinsOp) : CCoinsMap :=
  ops.foldl CCoinsMap.exec flat

end AokChain
