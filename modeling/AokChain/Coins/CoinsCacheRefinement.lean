import AokChain.Coins.CoinsViewCache
import AokChain.Lib.KeyedFold

/-!
# The cache stack refines the flat coins map

`view` is what caches over the database present: at each outpoint the nearest
cache's entry, read as `GetCoin` reads it, or else the view below.  `LayersOK`
says the `DIRTY` and `FRESH` flags of every cache agree with the view below it:
a spent entry holds the empty coin, a fresh entry has no coin below it, and a
clean one presents the coin below it.  Every operation keeps this and moves the
view as the flat map moves, so a run of the operations the flat map accepts
never throws, and `AccessCoin`, `HaveCoin` and `GetCoin` at the top read the
flat map.

The condition is needed.  An `AddCoin` that may not overwrite checks the top
cache only, so over an unspent coin of a lower cache or of the database it makes
a fresh entry: `SpendCoin` then erases it and uncovers the old coin, and a
`Flush` into a cache holding the old coin throws `BatchWrite`'s logic error.
-/

namespace AokChain
namespace CoinsCache

open CCoinsViewCache

/-- The coin an optional entry presents over the coin `b` below it. -/
def presents : Option CCoinsCacheEntry → Option Coin → Option Coin
  | some e, _ => e.unspentCoin
  | none, b => b

def overlay (L : CacheCoins) (below : COutPoint → Option Coin) (o : COutPoint) : Option Coin :=
  presents (L.lookup o) (below o)

/-- The coins the caches `ls`, nearest first, present over the database. -/
def view (base : CCoinsMap) : List CacheCoins → COutPoint → Option Coin
  | [] => fun o => base.lookup o
  | L :: ls => overlay L (view base ls)

/-- The flags of an entry agree with the coin `b` below it. -/
structure EntryOK (e : CCoinsCacheEntry) (b : Option Coin) : Prop where
  spent : e.coin.isSpent = true → e.coin = Coin.empty
  fresh : e.fresh = true → b = none
  clean : e.dirty = false → b = e.unspentCoin

def SlotOK (us : Option CCoinsCacheEntry) (b : Option Coin) : Prop :=
  ∀ e, us = some e → EntryOK e b

def LayerOK (L : CacheCoins) (below : COutPoint → Option Coin) : Prop :=
  ∀ o, SlotOK (L.lookup o) (below o)

/-- Every cache agrees with the view below it, and the database holds unspent
coins only, as `CCoinsViewDB::BatchWrite` leaves it. -/
def LayersOK (base : CCoinsMap) : List CacheCoins → Prop
  | [] => ∀ o c, base.lookup o = some c → c.isSpent = false
  | L :: ls => LayerOK L (view base ls) ∧ LayersOK base ls

/-- The caches `ls'` over `base'` may stand for `ls` over `base`. -/
structure Replaces (base : CCoinsMap) (ls : List CacheCoins) (base' : CCoinsMap)
    (ls' : List CacheCoins) : Prop where
  ok : LayersOK base' ls'
  view_eq : view base' ls' = view base ls

section Entries

variable {e : CCoinsCacheEntry} {c : Coin} {b : Option Coin}

@[simp] theorem unspentCoin_eq_none : e.unspentCoin = none ↔ e.coin.isSpent = true := by
  unfold CCoinsCacheEntry.unspentCoin
  split <;> simp_all

@[simp] theorem unspentCoin_eq_some : e.unspentCoin = some c ↔ e.coin.isSpent = false ∧ e.coin = c := by
  unfold CCoinsCacheEntry.unspentCoin
  split <;> simp_all

@[simp] theorem isSpent_empty : Coin.empty.isSpent = true := rfl

theorem unspentCoin_of_isSpent (h : e.coin.isSpent = false) : e.unspentCoin = some e.coin :=
  unspentCoin_eq_some.mpr ⟨h, rfl⟩

/-- A slot that presents nothing holds a spent entry or none. -/
theorem presents_eq_none {us : Option CCoinsCacheEntry} (h : presents us b = none) :
    ∀ e, us = some e → e.coin.isSpent = true := by
  rintro e rfl
  exact unspentCoin_eq_none.mp h

end Entries

section Layers

variable {L : CacheCoins} {below : COutPoint → Option Coin} {o : COutPoint} {e : CCoinsCacheEntry}

@[simp] theorem overlay_empty (below : COutPoint → Option Coin) : overlay ∅ below = below := by
  funext j
  simp [overlay, presents]

@[simp] theorem overlay_insert :
    overlay (L.insert o e) below = Function.update (overlay L below) o e.unspentCoin := by
  funext j
  by_cases hj : j = o
  · subst hj
    simp [overlay, presents]
  · simp [overlay, AList.lookup_insert_ne hj, hj]

@[simp] theorem overlay_erase :
    overlay (L.erase o) below = Function.update (overlay L below) o (below o) := by
  funext j
  by_cases hj : j = o
  · subst hj
    simp [overlay, presents]
  · simp [overlay, AList.lookup_erase_ne hj, hj]

theorem LayerOK.empty : LayerOK ∅ below := by
  intro j e h
  simp at h

theorem LayerOK.insert (hL : LayerOK L below) (he : EntryOK e (below o)) : LayerOK (L.insert o e) below := by
  intro j e' h
  by_cases hj : j = o
  · subst hj
    rw [AList.lookup_insert, Option.some.injEq] at h
    exact h ▸ he
  · rw [AList.lookup_insert_ne hj] at h
    exact hL j e' h

theorem LayerOK.erase (hL : LayerOK L below) : LayerOK (L.erase o) below := by
  intro j e' h
  by_cases hj : j = o
  · subst hj
    simp at h
  · rw [AList.lookup_erase_ne hj] at h
    exact hL j e' h

theorem LayerOK.entry (hL : LayerOK L below) (h : L.lookup o = some e) : EntryOK e (below o) :=
  hL o e h

end Layers

section Views

variable {base : CCoinsMap} {ls : List CacheCoins} {o : COutPoint} {c : Coin}

/-- The caches and the database present unspent coins only. -/
theorem view_unspent : ∀ {ls : List CacheCoins}, LayersOK base ls → view base ls o = some c → c.isSpent = false
  | [], h, hv => h o c hv
  | L :: ls, h, hv => by
    simp only [view, overlay] at hv
    cases hL : L.lookup o with
    | none =>
      rw [hL] at hv
      exact view_unspent h.2 hv
    | some e =>
      rw [hL] at hv
      obtain ⟨hs, rfl⟩ := unspentCoin_eq_some.mp hv
      exact hs

theorem Replaces.refl (h : LayersOK base ls) : Replaces base ls base ls := ⟨h, rfl⟩

/-- A cache over caches that are replaced keeps what it presents. -/
theorem Replaces.cons {base' : CCoinsMap} {ls' : List CacheCoins} {L : CacheCoins}
    (h : Replaces base ls base' ls') (hL : LayerOK L (view base ls)) :
    Replaces base (L :: ls) base' (L :: ls') where
  ok := ⟨h.view_eq ▸ hL, h.ok⟩
  view_eq := by simp only [view, h.view_eq]

/-- A new cache presents what lies below it. -/
theorem Replaces.empty_cons {base' : CCoinsMap} {ls' : List CacheCoins} (h : Replaces base ls base' ls') :
    Replaces base ls base' (∅ :: ls') :=
  ⟨⟨LayerOK.empty, h.ok⟩, by simp only [view, overlay_empty, h.view_eq]⟩

theorem replicate_empty_replaces (h : LayersOK base []) : ∀ n, Replaces base [] base (List.replicate n ∅)
  | 0 => Replaces.refl h
  | n + 1 => (replicate_empty_replaces h n).empty_cons

end Views

section Fetch

variable {base : CCoinsMap} {o : COutPoint}

/-- What a fetch from the caches `ls` returns: the coin they present at `o`,
and caches that stand for them. -/
structure Fetched (base : CCoinsMap) (ls : List CacheCoins) (o : COutPoint)
    (r : Option Coin × List CacheCoins) : Prop where
  coin : r.1 = view base ls o
  replaces : Replaces base ls base r.2

/-- `FetchCoin` of a coherent cache: what it returns is what the cache
presents, the entry it returns is the one it now holds, and a coin fetched from
below is cached as a clean entry. -/
theorem fetchCoin_spec {L L' : CacheCoins} {ps ps' : List CacheCoins}
    {getParent : Unit → Option Coin × List CacheCoins} {r : Option CCoinsCacheEntry}
    (hL : LayerOK L (view base ps)) (hps : LayersOK base ps) (hp : Fetched base ps o (getParent ()))
    (hr : fetchCoin L ps o getParent = (r, L', ps')) :
    Fetched base (L :: ps) o (r.bind CCoinsCacheEntry.unspentCoin, L' :: ps') ∧
      ∀ e, r = some e → L'.lookup o = some e := by
  unfold fetchCoin at hr
  cases hlook : L.lookup o with
  | some e =>
    simp only [hlook, Prod.mk.injEq] at hr
    obtain ⟨rfl, rfl, rfl⟩ := hr
    refine ⟨⟨?_, Replaces.refl ⟨hL, hps⟩⟩, fun e' he' => by rw [hlook, he']⟩
    simp [view, overlay, hlook, presents]
  | none =>
    simp only [hlook] at hr
    obtain ⟨hcoin, hrep⟩ := hp
    rcases hget : getParent () with ⟨_ | tmp, ps₁⟩
    · -- the view below has no coin: nothing is cached
      simp only [hget, Prod.mk.injEq] at hr hcoin hrep
      obtain ⟨rfl, rfl, rfl⟩ := hr
      refine ⟨⟨?_, hrep.cons hL⟩, fun e' he' => by cases he'⟩
      simp [view, overlay, hlook, presents, ← hcoin]
    · simp only [hget, Prod.mk.injEq] at hr hcoin hrep
      obtain ⟨rfl, rfl, rfl⟩ := hr
      have hspent : tmp.isSpent = false := view_unspent hps hcoin.symm
      have hentry : EntryOK ⟨tmp, false, tmp.isSpent⟩ (view base ps o) :=
        ⟨by simp [hspent], by simp [hspent], fun _ => by simp [unspentCoin_of_isSpent, hspent, hcoin]⟩
      refine ⟨⟨?_, ⟨⟨?_, hrep.ok⟩, ?_⟩⟩, fun e' he' => by simp [← he']⟩
      · simp [view, overlay, hlook, presents, unspentCoin_of_isSpent, hspent, hcoin]
      · rw [hrep.view_eq]
        exact hL.insert hentry
      · funext j
        by_cases hj : j = o
        · subst hj
          simp [view, overlay, hlook, presents, unspentCoin_of_isSpent, hspent, hcoin]
        · simp [view, hrep.view_eq, hj]

/-- `GetCoin` of coherent caches returns the coin they present. -/
theorem getCoin_fetched : ∀ (ls : List CacheCoins), LayersOK base ls → Fetched base ls o (getCoin base o ls)
  | [], h => ⟨rfl, Replaces.refl h⟩
  | L :: ps, h => by
    rcases hr : fetchCoin L ps o (fun _ => getCoin base o ps) with ⟨r, L', ps'⟩
    have hspec := fetchCoin_spec h.1 h.2 (getCoin_fetched ps h.2) hr
    simp only [getCoin, hr]
    exact hspec.1

end Fetch

section BatchWrite

variable {base : CCoinsMap}

/-- The entry `CCoinsViewCache::BatchWrite` leaves in the parent at one
outpoint, from the parent's entry `us` there and the child's. -/
def mergeEntry (us : Option CCoinsCacheEntry) (child : CCoinsCacheEntry) :
    Except String (Option CCoinsCacheEntry) :=
  if !child.dirty then .ok us
  else
    match us with
    | none => if child.fresh && child.coin.isSpent then .ok none else .ok (some ⟨child.coin, true, child.fresh⟩)
    | some us =>
      if child.fresh && !us.coin.isSpent then
        .error "FRESH flag misapplied to cache entry for base transaction with spendable outputs"
      else if us.fresh && child.coin.isSpent then .ok none
      else .ok (some { us with coin := child.coin, dirty := true })

/-- The coin `CCoinsViewDB::BatchWrite` leaves at one outpoint. -/
def writeEntry (old : Option Coin) (e : CCoinsCacheEntry) : Option Coin :=
  if e.dirty then e.unspentCoin else old

theorem batchWriteEntry_actsAt :
    KeyedFold.ActsAtM (fun (m : CacheCoins) o => m.lookup o) mergeEntry batchWriteEntry := by
  intro m o child w h
  simp only [mergeEntry] at h
  by_cases hd : child.dirty = true
  · simp only [hd, Bool.not_true, Bool.false_eq_true, if_false] at h
    cases hus : m.lookup o with
    | none =>
      simp only [hus] at h
      by_cases hf : (child.fresh && child.coin.isSpent) = true
      · simp only [hf, if_true, Except.ok.injEq] at h
        subst h
        exact ⟨m, by simp [batchWriteEntry, hd, hus, hf], hus, fun _ _ => rfl⟩
      · simp only [hf, Bool.false_eq_true, if_false, Except.ok.injEq] at h
        subst h
        refine ⟨m.insert o ⟨child.coin, true, child.fresh⟩, ?_, by simp, fun j hj => AList.lookup_insert_ne hj⟩
        simp only [batchWriteEntry, hd, hus, hf, Bool.not_true, Bool.false_eq_true, if_false]
    | some us =>
      simp only [hus] at h
      by_cases hm : (child.fresh && !us.coin.isSpent) = true
      · simp only [hm, if_true] at h
        cases h
      by_cases hp : (us.fresh && child.coin.isSpent) = true
      · simp only [hm, hp, Bool.false_eq_true, if_true, if_false, Except.ok.injEq] at h
        subst h
        refine ⟨m.erase o, ?_, by simp, fun j hj => AList.lookup_erase_ne hj⟩
        simp only [batchWriteEntry, hd, hus, hm, hp, Bool.not_true, Bool.false_eq_true, if_true, if_false]
      · simp only [hm, hp, Bool.false_eq_true, if_false, Except.ok.injEq] at h
        subst h
        refine ⟨m.insert o { us with coin := child.coin, dirty := true }, ?_, by simp,
          fun j hj => AList.lookup_insert_ne hj⟩
        simp only [batchWriteEntry, hd, hus, hm, hp, Bool.not_true, Bool.false_eq_true, if_false]
  · simp only [Bool.not_eq_true] at hd
    simp only [hd, Bool.not_false, if_true, Except.ok.injEq] at h
    exact ⟨m, by simp [batchWriteEntry, hd], h, fun _ _ => rfl⟩

theorem dbBatchWriteEntry_actsAt :
    KeyedFold.ActsAt (fun (db : CCoinsMap) o => db.lookup o) writeEntry CCoinsMap.batchWriteEntry := by
  intro db o e
  by_cases hd : e.dirty = true
  · by_cases hs : e.coin.isSpent = true
    · refine ⟨?_, fun j hj => by simp [CCoinsMap.batchWriteEntry, hd, hs, Finmap.lookup_erase_ne hj]⟩
      simp [CCoinsMap.batchWriteEntry, writeEntry, hd, hs, CCoinsCacheEntry.unspentCoin]
    · refine ⟨?_, fun j hj => by simp [CCoinsMap.batchWriteEntry, hd, hs, Finmap.lookup_insert_of_ne _ hj]⟩
      simp [CCoinsMap.batchWriteEntry, writeEntry, hd, hs, CCoinsCacheEntry.unspentCoin]
  · simp [CCoinsMap.batchWriteEntry, writeEntry, hd]

/-- A coherent child never trips `BatchWrite`'s check, and the parent's new
entry presents what the child presented. -/
theorem mergeEntry_spec {us : Option CCoinsCacheEntry} {b : Option Coin} {child : CCoinsCacheEntry}
    (hus : SlotOK us b) (hchild : EntryOK child (presents us b)) :
    ∃ w, mergeEntry us child = .ok w ∧ SlotOK w b ∧ presents w b = child.unspentCoin := by
  by_cases hd : child.dirty = true
  · cases us with
    | none =>
      by_cases hf : child.fresh = true ∧ child.coin.isSpent = true
      · refine ⟨none, by simp [mergeEntry, hd, hf.1, hf.2], nofun, ?_⟩
        simp only [presents] at hchild ⊢
        rw [hchild.fresh hf.1, eq_comm, unspentCoin_eq_none]
        exact hf.2
      · refine ⟨some ⟨child.coin, true, child.fresh⟩, ?_, ?_, by simp [presents, CCoinsCacheEntry.unspentCoin]⟩
        · simp only [mergeEntry, hd, Bool.not_true, Bool.false_eq_true, if_false]
          rw [if_neg (by simpa using hf)]
        · rintro e ⟨⟩
          exact ⟨hchild.spent, hchild.fresh, nofun⟩
    | some us =>
      have hok := hus us rfl
      -- the child is fresh only over a spent parent entry
      have hfresh : child.fresh = true → us.coin.isSpent = true := fun hf =>
        unspentCoin_eq_none.mp (hchild.fresh hf)
      have hno : ¬(child.fresh = true ∧ us.coin.isSpent = false) := fun h => by
        simp [hfresh h.1] at h
      by_cases hp : us.fresh = true ∧ child.coin.isSpent = true
      · refine ⟨none, ?_, nofun, ?_⟩
        · simp only [mergeEntry, hd, Bool.not_true, Bool.false_eq_true, if_false]
          rw [if_neg (by simpa using hno), if_pos (by simpa using hp)]
        · simp only [presents]
          rw [hok.fresh hp.1, eq_comm, unspentCoin_eq_none]
          exact hp.2
      · refine ⟨some { us with coin := child.coin, dirty := true }, ?_, ?_, by simp [presents, CCoinsCacheEntry.unspentCoin]⟩
        · simp only [mergeEntry, hd, Bool.not_true, Bool.false_eq_true, if_false]
          rw [if_neg (by simpa using hno), if_neg (by simpa using hp)]
        · rintro e ⟨⟩
          exact ⟨hchild.spent, hok.fresh, nofun⟩
  · simp only [Bool.not_eq_true] at hd
    refine ⟨us, by simp [mergeEntry, hd], hus, ?_⟩
    cases us with
    | none => exact hchild.clean hd
    | some us => exact hchild.clean hd

theorem writeEntry_eq {e : CCoinsCacheEntry} {b : Option Coin} (he : EntryOK e b) :
    writeEntry b e = e.unspentCoin := by
  by_cases hd : e.dirty = true
  · simp [writeEntry, hd]
  · simp only [Bool.not_eq_true] at hd
    simp [writeEntry, hd, he.clean hd]

/-- `Flush` into the database: the database afterwards presents what the cache
presented over it. -/
theorem dbBatchWrite_replaces {C : CacheCoins} (h : LayersOK base [C]) :
    Replaces base [C] (base.batchWrite C) [] := by
  have hview : view (base.batchWrite C) [] = view base [C] := by
    funext j
    have hj := KeyedFold.lookup_foldl dbBatchWriteEntry_actsAt C.entries base C.nodupKeys j
    simp only [view, overlay]
    rw [CCoinsMap.batchWrite, hj]
    change _ = presents (C.lookup j) _
    cases hC : C.lookup j with
    | none =>
      rw [show C.entries.dlookup j = none from hC]
      rfl
    | some e =>
      rw [show C.entries.dlookup j = some e from hC]
      exact writeEntry_eq (h.1.entry hC)
  refine ⟨fun o c hc => view_unspent (o := o) h ?_, hview⟩
  rw [← hview]
  exact hc

/-- `Flush` into a coherent parent cache succeeds, and the parent afterwards
presents what the child presented over it. -/
theorem batchWrite_replaces {C P : CacheCoins} {ps : List CacheCoins} (h : LayersOK base (C :: P :: ps)) :
    ∃ P', batchWrite P C = .ok P' ∧ Replaces base (C :: P :: ps) base (P' :: ps) := by
  obtain ⟨hC, hP, hps⟩ := h
  have hok : ∀ e ∈ C.entries, ∃ w, mergeEntry (P.lookup e.1) e.2 = .ok w := by
    intro e he
    have hlook : C.lookup e.1 = some e.2 := Option.mem_def.mp (AList.mem_lookup_iff.mpr he)
    obtain ⟨w, hw, -⟩ := mergeEntry_spec (hP e.1) (hC.entry hlook)
    exact ⟨w, hw⟩
  obtain ⟨P', hfold, hkeys⟩ := KeyedFold.foldlM_eq_ok batchWriteEntry_actsAt C.entries P C.nodupKeys hok
  -- at each outpoint the parent's new entry is the merge of the child's into its own
  have hslot : ∀ j, SlotOK (P'.lookup j) (view base ps j) ∧
      presents (P'.lookup j) (view base ps j) = overlay C (overlay P (view base ps)) j := by
    intro j
    have hj := hkeys j
    cases hCj : C.lookup j with
    | none =>
      rw [show C.entries.dlookup j = none from hCj] at hj
      simp only at hj
      rw [hj]
      exact ⟨hP j, by simp [overlay, hCj, presents]⟩
    | some v =>
      rw [show C.entries.dlookup j = some v from hCj] at hj
      obtain ⟨w, hw, hws, hwv⟩ := mergeEntry_spec (hP j) (hC.entry hCj)
      have hw' : w = P'.lookup j := Except.ok.inj (hw.symm.trans hj)
      subst hw'
      refine ⟨hws, ?_⟩
      rw [hwv]
      simp [overlay, hCj, presents]
  refine ⟨P', hfold, ⟨⟨fun j => (hslot j).1, hps⟩, ?_⟩⟩
  funext j
  exact (hslot j).2

end BatchWrite

section Operations

variable {base : CCoinsMap} {L : CacheCoins} {below : COutPoint → Option Coin} {o : COutPoint}

/-- `Uncache` drops only a clean entry, which presents what lies below it. -/
theorem uncache_spec (hL : LayerOK L below) :
    LayerOK (uncache L o) below ∧ overlay (uncache L o) below = overlay L below := by
  cases hl : L.lookup o with
  | none =>
    simp only [uncache, hl, and_true]
    exact hL
  | some e =>
    simp only [uncache, hl]
    by_cases hflags : (!e.dirty && !e.fresh) = true
    · obtain ⟨hd, -⟩ : e.dirty = false ∧ e.fresh = false := by simpa using hflags
      have hsame : below o = overlay L below o := by
        rw [(hL.entry hl).clean hd]
        simp [overlay, hl, presents]
      rw [if_pos hflags, overlay_erase, hsame, Function.update_eq_self]
      exact ⟨hL.erase, rfl⟩
    · rw [if_neg hflags]
      exact ⟨hL, rfl⟩

theorem LayerOK.insert_added {coin : Coin} {f : Bool} (hL : LayerOK L below) (hc : coin.isSpent = false)
    (hf : f = true → below o = none) :
    LayerOK (L.insert o ⟨coin, true, f⟩) below ∧
      overlay (L.insert o ⟨coin, true, f⟩) below = Function.update (overlay L below) o (some coin) :=
  ⟨hL.insert ⟨by simp [hc], hf, nofun⟩, by rw [overlay_insert, unspentCoin_of_isSpent (e := ⟨coin, true, f⟩) hc]⟩

/-- `AddCoin` of an unspent coin where it may overwrite, or where nothing is
presented: it does not throw, and the cache presents the coin unless its script
is unspendable.  The new entry is fresh only over nothing. -/
theorem addCoin_spec {coin : Coin} {possible_overwrite : Bool} (hL : LayerOK L below)
    (hc : coin.isSpent = false)
    (hpo : isUnspendable coin.out.scriptPubKey = false → possible_overwrite = false → overlay L below o = none) :
    ∃ L', addCoin L o coin possible_overwrite = .ok L' ∧ LayerOK L' below ∧
      overlay L' below = if isUnspendable coin.out.scriptPubKey = true then overlay L below
        else Function.update (overlay L below) o (some coin) := by
  by_cases hu : isUnspendable coin.out.scriptPubKey = true
  · exact ⟨L, by simp [addCoin, hc, hu], hL, by simp [hu]⟩
  simp only [Bool.not_eq_true] at hu
  have hpo := hpo hu
  simp only [hu, Bool.false_eq_true, if_false]
  cases hl : L.lookup o with
  | none =>
    -- `emplace` makes an empty entry without flags
    have hf : (!possible_overwrite) = true → below o = none := fun h => by
      simpa [overlay, hl, presents] using hpo (by simpa using h)
    obtain ⟨hok, hview⟩ := hL.insert_added hc hf
    exact ⟨_, by simp [addCoin, hc, hu, hl], hok, hview⟩
  | some e =>
    have hspent : possible_overwrite = false → e.coin.isSpent = true := fun h => by
      simpa [overlay, hl, presents] using hpo h
    have hf : (e.fresh || (!possible_overwrite && !e.dirty)) = true → below o = none := by
      intro h
      have he := hL.entry hl
      rcases (by simpa using h : e.fresh = true ∨ possible_overwrite = false ∧ e.dirty = false) with h | h
      · exact he.fresh h
      · rw [he.clean h.2, unspentCoin_eq_none.mpr (hspent h.1)]
    obtain ⟨hok, hview⟩ := hL.insert_added hc hf
    refine ⟨_, ?_, hok, hview⟩
    cases possible_overwrite with
    | true => simp [addCoin, hc, hu, hl]
    | false => simp [addCoin, hc, hu, hl, hspent rfl]

/-- `SpendCoin` on the entry it fetched: the outpoint presents nothing afterwards. -/
theorem spendEntry_spec {e : CCoinsCacheEntry} (hL : LayerOK L below) (he : L.lookup o = some e) :
    LayerOK (spendEntry L o e) below ∧
      overlay (spendEntry L o e) below = Function.update (overlay L below) o none := by
  have hok := hL.entry he
  unfold spendEntry
  by_cases hf : e.fresh = true
  · rw [if_pos hf, overlay_erase, hok.fresh hf]
    exact ⟨hL.erase, rfl⟩
  · rw [if_neg hf]
    simp only [Bool.not_eq_true] at hf
    refine ⟨hL.insert ⟨fun _ => rfl, fun h => absurd h (by simp [hf]), nofun⟩, ?_⟩
    rw [overlay_insert]
    rfl

/-- `Uncache` at any depth leaves a stack that presents the same coins. -/
theorem uncacheAt_replaces (o : COutPoint) : ∀ (d : ℕ) (L : CacheCoins) (ps : List CacheCoins),
    LayersOK base (L :: ps) →
      Replaces base (L :: ps) base ((CoinsStack.uncacheAt o d L ps).1 :: (CoinsStack.uncacheAt o d L ps).2)
  | 0, L, ps, h => by
    obtain ⟨hok, hview⟩ := uncache_spec (o := o) h.1
    exact ⟨⟨hok, h.2⟩, by simp only [CoinsStack.uncacheAt, view, hview]⟩
  | _ + 1, L, [], h => Replaces.refl h
  | d + 1, L, p :: ps, h => by
    simp only [CoinsStack.uncacheAt]
    exact (uncacheAt_replaces o d p ps h.2).cons h.1

/-- `Flush` of a coherent cache succeeds, and what lies below it afterwards
presents what it presented. -/
theorem flushInto_replaces {C : CacheCoins} : ∀ {ps : List CacheCoins}, LayersOK base (C :: ps) →
    ∃ ps' base', CoinsStack.flushInto base C ps = .ok (ps', base') ∧ Replaces base (C :: ps) base' ps'
  | [], h => ⟨[], _, rfl, dbBatchWrite_replaces h⟩
  | P :: ps, h => by
    obtain ⟨P', hw, hrep⟩ := batchWrite_replaces h
    exact ⟨P' :: ps, base, by rw [CoinsStack.flushInto, hw]; rfl, hrep⟩

/-- `Flush` at any depth succeeds and leaves a stack that presents the same coins. -/
theorem flushAt_replaces : ∀ (d : ℕ) (C : CacheCoins) (ps : List CacheCoins), LayersOK base (C :: ps) →
    ∃ C' ps' base', CoinsStack.flushAt base d C ps = .ok (C', ps', base') ∧ Replaces base (C :: ps) base' (C' :: ps')
  | 0, C, ps, h => by
    obtain ⟨ps', base', hf, hrep⟩ := flushInto_replaces h
    exact ⟨∅, ps', base', by rw [CoinsStack.flushAt, hf]; rfl, hrep.empty_cons⟩
  | _ + 1, C, [], h => ⟨C, [], base, rfl, Replaces.refl h⟩
  | d + 1, C, p :: ps, h => by
    obtain ⟨p', ps', base', hf, hrep⟩ := flushAt_replaces d p ps h.2
    exact ⟨C, p' :: ps', base', by rw [CoinsStack.flushAt, hf]; rfl, hrep.cons h.1⟩

end Operations

end CoinsCache

namespace CCoinsMap

variable {flat : CCoinsMap} {o : COutPoint} {coin : Coin} {possible_overwrite : Bool}

/-- An operation the flat map accepts: an `AddCoin` must add an unspent coin
and not be refused by the flat map's own `AddCoin`. -/
def allowed (flat : CCoinsMap) : CoinsOp → Bool
  | .addCoin o coin possible_overwrite => !coin.isSpent && (flat.addCoin o coin possible_overwrite).isOk
  | _ => true

/-- Every operation of the run is accepted by the flat map it meets. -/
def admissible (flat : CCoinsMap) : List CoinsOp → Bool
  | [] => true
  | op :: ops => flat.allowed op && (flat.exec op).admissible ops

theorem haveCoin_eq_isSome (h : ∀ c, flat.lookup o = some c → c.isSpent = false) :
    flat.haveCoin o = (flat.lookup o).isSome := by
  unfold haveCoin
  cases hl : flat.lookup o with
  | none => rfl
  | some c => simp [h c hl]

theorem lookup_insert_update (flat : CCoinsMap) (o : COutPoint) (c : Coin) :
    (fun j => (flat.insert o c).lookup j) = Function.update (fun j => flat.lookup j) o (some c) := by
  funext j
  by_cases hj : j = o
  · subst hj
    simp
  · simp [hj, Finmap.lookup_insert_of_ne _ hj]

theorem exec_addCoin (h : (flat.addCoin o coin possible_overwrite).isOk = true) :
    flat.exec (.addCoin o coin possible_overwrite) =
      if isUnspendable coin.out.scriptPubKey = true then flat else flat.insert o coin := by
  unfold exec addCoin at *
  by_cases hu : isUnspendable coin.out.scriptPubKey = true
  · simp [hu]
  · by_cases hr : (!possible_overwrite && flat.haveCoin o) = true
    · simp [hu, hr, Except.isOk, Except.toBool] at h
    · simp [hu, hr]

/-- An `AddCoin` that may not overwrite is accepted only where there is no coin. -/
theorem haveCoin_of_addCoin_isOk (h : (flat.addCoin o coin possible_overwrite).isOk = true)
    (hu : isUnspendable coin.out.scriptPubKey = false) (hpo : possible_overwrite = false) :
    flat.haveCoin o = false := by
  unfold addCoin at h
  subst hpo
  cases hhave : flat.haveCoin o
  · rfl
  · simp [hu, hhave, Except.isOk, Except.toBool] at h

theorem exec_spendCoin_lookup (flat : CCoinsMap) (o : COutPoint) (tokensCache : Option (COutPoint → CTxOut → Bool)) :
    (fun j => (flat.exec (.spendCoin o tokensCache)).lookup j) = Function.update (fun j => flat.lookup j) o none := by
  funext j
  cases hl : flat.lookup o with
  | none =>
    simp only [exec, spendCoin, hl, Option.map_none]
    by_cases hj : j = o
    · subst hj
      simp [hl]
    · simp [hj]
  | some c =>
    simp only [exec, spendCoin, hl, Option.map_some]
    by_cases hj : j = o
    · subst hj
      simp
    · simp [hj, Finmap.lookup_erase_ne hj]

end CCoinsMap

namespace CoinsStack

open CoinsCache

variable {s : CoinsStack} {flat : CCoinsMap} {o : COutPoint}

/-- The stack refines the flat map: its caches are coherent and present the
flat map's coins. -/
structure Refines (s : CoinsStack) (flat : CCoinsMap) : Prop where
  ok : LayersOK s.base (s.top :: s.parents)
  view_eq : view s.base (s.top :: s.parents) = fun o => flat.lookup o

theorem Refines.unspent (h : Refines s flat) {c : Coin} (hc : flat.lookup o = some c) : c.isSpent = false :=
  view_unspent h.ok (by rw [h.view_eq]; exact hc)

theorem Refines.replaces {top' : CacheCoins} {ps' : List CacheCoins} {base' : CCoinsMap} (h : Refines s flat)
    (hr : Replaces s.base (s.top :: s.parents) base' (top' :: ps')) : Refines ⟨top', ps', base'⟩ flat :=
  ⟨hr.ok, hr.view_eq.trans h.view_eq⟩

theorem init_refines (n : ℕ) {base : CCoinsMap} (hbase : ∀ o c, base.lookup o = some c → c.isSpent = false) :
    Refines (init n base) base :=
  have h := replicate_empty_replaces hbase (n + 1)
  ⟨h.ok, h.view_eq⟩

/-- `FetchCoin` at the top: the stack still refines the flat map, the entry
found presents the flat map's coin, and it is the top cache's entry. -/
theorem fetchTop_spec (h : Refines s flat) :
    Refines (s.fetchTop o).2 flat ∧ (s.fetchTop o).1.bind CCoinsCacheEntry.unspentCoin = flat.lookup o ∧
      ∀ e, (s.fetchTop o).1 = some e → (s.fetchTop o).2.top.lookup o = some e := by
  rcases hr : CCoinsViewCache.fetchCoin s.top s.parents o (fun _ => CCoinsViewCache.getCoin s.base o s.parents)
    with ⟨r, L', ps'⟩
  have hspec := fetchCoin_spec h.ok.1 h.ok.2 (getCoin_fetched s.parents h.ok.2) hr
  simp only [fetchTop, hr]
  exact ⟨h.replaces hspec.1.replaces, hspec.1.coin.trans (congrFun h.view_eq o), hspec.2⟩

theorem accessCoin_refines (h : Refines s flat) :
    (s.accessCoin o).1 = flat.accessCoin o ∧ Refines (s.accessCoin o).2 flat := by
  obtain ⟨h', hcoin, hmem⟩ := fetchTop_spec (o := o) h
  refine ⟨?_, h'⟩
  simp only [accessCoin, CCoinsMap.accessCoin, ← hcoin]
  cases hr : (s.fetchTop o).1 with
  | none => rfl
  | some e =>
    -- a spent entry holds the empty coin, which `AccessCoin` of nothing returns
    have he := h'.ok.1.entry (hmem e hr)
    by_cases hs : e.coin.isSpent = true
    · simp [he.spent hs, CCoinsCacheEntry.unspentCoin]
    · simp [unspentCoin_of_isSpent (by simpa using hs)]

theorem haveCoin_refines (h : Refines s flat) :
    (s.haveCoin o).1 = flat.haveCoin o ∧ Refines (s.haveCoin o).2 flat := by
  obtain ⟨h', hcoin, -⟩ := fetchTop_spec (o := o) h
  refine ⟨?_, h'⟩
  rw [CCoinsMap.haveCoin_eq_isSome fun c => h.unspent, ← hcoin]
  simp only [haveCoin]
  cases (s.fetchTop o).1 with
  | none => rfl
  | some e => by_cases hs : e.coin.isSpent = true <;> simp [CCoinsCacheEntry.unspentCoin, hs]

theorem getCoinTop_refines (h : Refines s flat) :
    (s.getCoinTop o).1 = flat.lookup o ∧ Refines (s.getCoinTop o).2 flat :=
  have h' := fetchTop_spec (o := o) h
  ⟨h'.2.1, h'.1⟩

theorem addCoin_refines {coin : Coin} {possible_overwrite : Bool} (h : Refines s flat)
    (hop : flat.allowed (.addCoin o coin possible_overwrite) = true) :
    ∃ s', s.addCoin o coin possible_overwrite = .ok s' ∧
      Refines s' (flat.exec (.addCoin o coin possible_overwrite)) := by
  simp only [CCoinsMap.allowed, Bool.and_eq_true, Bool.not_eq_true'] at hop
  obtain ⟨hc, hok⟩ := hop
  -- the flat map accepts an add that may not overwrite only where the stack presents nothing
  have hpo : isUnspendable coin.out.scriptPubKey = false → possible_overwrite = false →
      overlay s.top (view s.base s.parents) o = none := fun hu hpo => by
    have hhave := CCoinsMap.haveCoin_of_addCoin_isOk hok hu hpo
    rw [CCoinsMap.haveCoin_eq_isSome fun c => h.unspent] at hhave
    show view s.base (s.top :: s.parents) o = none
    rw [h.view_eq]
    simpa using hhave
  obtain ⟨L', hadd, hL', hview⟩ := CoinsCache.addCoin_spec h.ok.1 hc hpo
  refine ⟨{ s with top := L' }, by rw [CoinsStack.addCoin, hadd]; rfl, ⟨⟨hL', h.ok.2⟩, ?_⟩⟩
  show overlay L' (view s.base s.parents) = _
  rw [CCoinsMap.exec_addCoin hok, hview]
  by_cases hu : isUnspendable coin.out.scriptPubKey = true
  · simp only [hu, if_true]
    exact h.view_eq
  · simp only [hu, Bool.false_eq_true, if_false]
    rw [CCoinsMap.lookup_insert_update, ← h.view_eq]
    rfl

theorem spendCoin_refines (tokensCache : Option (COutPoint → CTxOut → Bool)) (h : Refines s flat) :
    Refines (s.spendCoin o tokensCache).2.2 (flat.exec (.spendCoin o tokensCache)) := by
  obtain ⟨h', hcoin, hmem⟩ := fetchTop_spec (o := o) h
  have hflat := CCoinsMap.exec_spendCoin_lookup flat o tokensCache
  cases hr : (s.fetchTop o).1 with
  | none =>
    -- nothing to spend: the flat map has no coin there either
    have hnone : flat.lookup o = none := by rw [← hcoin, hr]; rfl
    simp only [spendCoin, hr]
    refine ⟨h'.ok, ?_⟩
    rw [hflat, Function.update_eq_self_iff.mpr hnone.symm]
    exact h'.view_eq
  | some e =>
    obtain ⟨hok, hview⟩ := spendEntry_spec h'.ok.1 (hmem e hr)
    simp only [spendCoin, hr]
    refine ⟨⟨hok, h'.ok.2⟩, ?_⟩
    show overlay _ _ = _
    rw [hflat, hview]
    exact congrArg (Function.update · o none) h'.view_eq

/-- One operation the flat map accepts: the stack does not throw and still
refines the flat map after it. -/
theorem exec_refines {op : CoinsOp} (h : Refines s flat) (hop : flat.allowed op = true) :
    ∃ s', s.exec op = .ok s' ∧ Refines s' (flat.exec op) := by
  cases op with
  | accessCoin o => exact ⟨_, rfl, (accessCoin_refines h).2⟩
  | haveCoin o => exact ⟨_, rfl, (haveCoin_refines h).2⟩
  | getCoin o => exact ⟨_, rfl, (getCoinTop_refines h).2⟩
  | addCoin o coin possible_overwrite => exact addCoin_refines h hop
  | spendCoin o tokensCache => exact ⟨_, rfl, spendCoin_refines tokensCache h⟩
  | uncache d o => exact ⟨_, rfl, h.replaces (uncacheAt_replaces o d s.top s.parents h.ok)⟩
  | flush d =>
    obtain ⟨C', ps', base', hf, hrep⟩ := flushAt_replaces d s.top s.parents h.ok
    exact ⟨⟨C', ps', base'⟩, by rw [exec, hf]; rfl, h.replaces hrep⟩
  | push => exact ⟨_, rfl, h.replaces (Replaces.refl h.ok).empty_cons⟩
  | pop =>
    obtain ⟨ps', base', hf, hrep⟩ := flushInto_replaces h.ok
    cases ps' with
    | nil => exact ⟨⟨∅, [], base'⟩, by rw [exec, hf]; rfl, h.replaces hrep.empty_cons⟩
    | cons p ps => exact ⟨⟨p, ps, base'⟩, by rw [exec, hf]; rfl, h.replaces hrep⟩

/-- A run the flat map accepts: the stack does not throw and refines the flat
map at the end.  By induction on the operations, with the flat map moving along. -/
theorem run_refines : ∀ (ops : List CoinsOp) {s : CoinsStack} {flat : CCoinsMap}, Refines s flat →
    flat.admissible ops = true → ∃ s', s.run ops = .ok s' ∧ Refines s' (flat.run ops)
  | [], s, _, h, _ => ⟨s, rfl, h⟩
  | op :: ops, s, flat, h, hops => by
    simp only [CCoinsMap.admissible, Bool.and_eq_true] at hops
    obtain ⟨s₁, h₁, hr₁⟩ := exec_refines h hops.1
    obtain ⟨s', h', hr'⟩ := run_refines ops hr₁ hops.2
    refine ⟨s', ?_, hr'⟩
    rw [run, List.foldlM_cons, h₁]
    exact h'

theorem coinsStack_refines_flatMap (n : ℕ) (base : CCoinsMap)
    (hbase : ∀ o c, base.lookup o = some c → c.isSpent = false) (ops : List CoinsOp)
    (hops : base.admissible ops = true) :
    ∃ s, (init n base).run ops = .ok s ∧ ∀ o,
      (s.accessCoin o).1 = (base.run ops).accessCoin o ∧ (s.haveCoin o).1 = (base.run ops).haveCoin o ∧
        (s.getCoinTop o).1 = (base.run ops).lookup o := by
  obtain ⟨s, hrun, hs⟩ := run_refines ops (init_refines n hbase) hops
  exact ⟨s, hrun, fun o => ⟨(accessCoin_refines hs).1, (haveCoin_refines hs).1, (getCoinTop_refines hs).1⟩⟩

/-- A coin as the simulation test makes it: a value, height 1 and an empty script. -/
def simulationCoin (nValue : CAmount) : Coin := ⟨⟨nValue, []⟩, false, false, 0, 1, by norm_num⟩

/-- Add at the top, flush the cache below a new top into its parent, spend the
coin (fetched down through the caches), pop the top, and add again. -/
def simulationRun : List CoinsOp :=
  [.addCoin ⟨0, 0⟩ (simulationCoin 1) false, .push, .flush 1, .spendCoin ⟨0, 0⟩ none, .pop,
    .addCoin ⟨0, 0⟩ (simulationCoin 2) false]

theorem coinsStack_refines_flatMap_simulationRun :
    (∀ o c, (∅ : CCoinsMap).lookup o = some c → c.isSpent = false) ∧
      (∅ : CCoinsMap).admissible simulationRun = true ∧
      ∃ s, (init 1 ∅).run simulationRun = .ok s ∧ ∀ o,
        (s.accessCoin o).1 = ((∅ : CCoinsMap).run simulationRun).accessCoin o ∧
          (s.haveCoin o).1 = ((∅ : CCoinsMap).run simulationRun).haveCoin o ∧
          (s.getCoinTop o).1 = ((∅ : CCoinsMap).run simulationRun).lookup o :=
  have hbase : ∀ o c, (∅ : CCoinsMap).lookup o = some c → c.isSpent = false := fun o c h => by
    simp at h
  have hops : (∅ : CCoinsMap).admissible simulationRun = true := by decide
  ⟨hbase, hops, coinsStack_refines_flatMap 1 ∅ hbase simulationRun hops⟩

/-- Without the condition the stack goes wrong: an `AddCoin` that may not
overwrite, over a coin the top cache does not hold, makes a fresh entry.  A
`Flush` of it into a cache holding the old coin throws, and a `SpendCoin` of it
uncovers the old coin where the flat map has none. -/
theorem freshAdd_over_lowerCoin :
    let o : COutPoint := ⟨0, 0⟩
    let base : CCoinsMap := (∅ : CCoinsMap).insert o (simulationCoin 1)
    (init 0 base).run [.accessCoin o, .push, .addCoin o (simulationCoin 2) false, .pop] =
        .error "FRESH flag misapplied to cache entry for base transaction with spendable outputs" ∧
      ((init 0 base).run [.addCoin o (simulationCoin 2) false, .spendCoin o none]).toOption.map
          (fun s => (s.accessCoin o).1) = some (simulationCoin 1) ∧
        (base.run [.addCoin o (simulationCoin 2) false, .spendCoin o none]).accessCoin o = Coin.empty := by
  decide

end CoinsStack
end AokChain
