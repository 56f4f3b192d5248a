import AokChain.Mempool.FreshEntry
import AokChain.Mempool.Removal

/-!
# `addUnchecked` keeps the packages consistent

`AcceptToMemoryPool` adds a new transaction by `addUnchecked` with the
ancestors `CalculateMemPoolAncestors` found for it.  The new entry is linked
to its parents in the pool, joins the descendant state of each of its
ancestors, and its own ancestor state takes theirs.  On a consistent pool, for
a transaction no entry of the pool spends, the pool it leaves is consistent.
-/

namespace AokChain
namespace Packages

open Relation

namespace CTxMemPoolEntry

variable {nBytesPerSigOp : ℕ}

/-- The fee delta `addUnchecked` applies to its new entry, from `mapDeltas`. -/
def applyDelta (delta : Option CAmount) (e : CTxMemPoolEntry) : CTxMemPoolEntry :=
  match delta with
  | some delta => if delta ≠ 0 then e.updateFeeDelta delta else e
  | none => e

@[simp] theorem tx_applyDelta (delta : Option CAmount) (e : CTxMemPoolEntry) : (applyDelta delta e).tx = e.tx := by
  unfold applyDelta
  split
  · split <;> rfl
  · rfl

/-- A new entry with its fee delta applied: the delta is the one of `mapDeltas`, and its packages hold it alone. -/
theorem applyDelta_make (delta : Option CAmount) (tx : CTransaction) (nFee : CAmount) (nTime : Int64)
    (entryHeight : UInt32) (spendsCoinbase : Bool) (sigOpCost : ℕ) :
    let e := applyDelta delta (make nBytesPerSigOp tx nFee nTime entryHeight spendsCoinbase sigOpCost)
    e.feeDelta = delta.getD 0 ∧ e.HoldsAncestors (e.ownSums nBytesPerSigOp) ∧
      e.HoldsDescendants (e.ownSums nBytesPerSigOp) := by
  obtain ⟨hanc, hdesc⟩ := @holds_make nBytesPerSigOp tx nFee nTime entryHeight spendsCoinbase sigOpCost
  intro e
  cases delta with
  | none => exact ⟨rfl, hanc, hdesc⟩
  | some delta =>
    by_cases hδ : delta = 0
    · simp only [e, applyDelta, hδ, ne_eq, not_true_eq_false, if_false]
      exact ⟨rfl, hanc, hdesc⟩
    · -- the delta joins the modified fee of both packages, which hold the entry alone
      have hfee : nFee + (delta - 0) = Int64.ofInt (nFee + delta).toInt := by
        rw [Int64.sub_zero, Int64.ofInt_toInt]
      simp only [e, applyDelta, hδ, ne_eq, not_false_eq_true, if_true]
      exact ⟨rfl, ⟨rfl, rfl, hfee, rfl⟩, ⟨rfl, rfl, hfee⟩⟩

end CTxMemPoolEntry

namespace CTxMemPool

open CTxMemPoolEntry

variable (nBytesPerSigOp : ℕ) (pool : CTxMemPool)

/-- `addUnchecked` before its package updates: the entry with its fee delta,
its inputs in `mapNextTx`, and its links to its parents. -/
def addLinked (hash : uint256) (entry : CTxMemPoolEntry) : CTxMemPool :=
  let tx := ((pool.mapTx.lookup hash).getD entry).tx
  let pool := { pool with
    mapTx := if hash ∈ pool.mapTx then pool.mapTx else pool.mapTx.insert hash entry
    mapLinks := if hash ∈ pool.mapLinks then pool.mapLinks else pool.mapLinks.insert hash ⟨[], []⟩ }
  let pool := match pool.mapDeltas.lookup hash with
    | some delta => if delta ≠ 0 then pool.modifyEntry hash (·.updateFeeDelta delta) else pool
    | none => pool
  let pool := { pool with mapNextTx := tx.vin.foldl (fun mapNextTx (txin : CTxIn) =>
    if txin.prevout ∈ mapNextTx then mapNextTx else mapNextTx.insert txin.prevout hash) pool.mapNextTx }
  let setParentTransactions : setEntries := tx.vin.foldl (fun s txin => insertEntry txin.prevout.hash s) []
  setParentTransactions.foldl (fun pool phash =>
    if phash ∈ pool.mapTx then pool.updateParent hash phash true else pool) pool

theorem addUnchecked_eq (hash : uint256) (entry : CTxMemPoolEntry) (setAncestors : setEntries) :
    pool.addUnchecked nBytesPerSigOp hash entry setAncestors =
      ((pool.addLinked hash entry).updateAncestorsOf nBytesPerSigOp true hash setAncestors).updateEntryForAncestors
        nBytesPerSigOp hash setAncestors := rfl

variable {nBytesPerSigOp pool}

section Parents

variable {hash : uint256}

/-- The loop of `addUnchecked` over the hashes its inputs spend. -/
abbrev addParent (hash : uint256) (pool : CTxMemPool) (phash : uint256) : CTxMemPool :=
  if phash ∈ pool.mapTx then pool.updateParent hash phash true else pool

theorem mapTx_addParent (pool : CTxMemPool) (phash : uint256) : (addParent hash pool phash).mapTx = pool.mapTx := by
  unfold addParent
  split <;> rfl

theorem mapTx_foldl_addParent (l : setEntries) (pool : CTxMemPool) :
    (l.foldl (addParent hash) pool).mapTx = pool.mapTx :=
  foldl_keeps (·.mapTx) mapTx_addParent l pool

theorem mapDeltas_foldl_addParent (l : setEntries) (pool : CTxMemPool) :
    (l.foldl (addParent hash) pool).mapDeltas = pool.mapDeltas :=
  foldl_keeps (·.mapDeltas) (fun p a => by unfold addParent; split <;> rfl) l pool

theorem getMemPoolChildren_foldl_addParent (l : setEntries) (pool : CTxMemPool) (z : uint256) :
    (l.foldl (addParent hash) pool).getMemPoolChildren z = pool.getMemPoolChildren z :=
  foldl_keeps (·.getMemPoolChildren z) (fun p a => by unfold addParent; split <;> simp) l pool

theorem getMemPoolParents_foldl_addParent :
    ∀ (l : setEntries) (pool : CTxMemPool) (z : uint256),
      (l.foldl (addParent hash) pool).getMemPoolParents z =
        if z = hash then l.foldl (fun s p => if p ∈ pool.mapTx then insertEntry p s else s) (pool.getMemPoolParents hash)
        else pool.getMemPoolParents z
  | [], pool, z => by
    split
    · subst z
      rfl
    · rfl
  | p :: l, pool, z => by
    rw [List.foldl_cons, List.foldl_cons, getMemPoolParents_foldl_addParent l _ z, mapTx_addParent]
    unfold addParent
    split_ifs with hz hp hp <;> simp_all [getMemPoolParents_updateParent]

theorem mem_mapLinks_foldl_addParent (l : setEntries) (pool : CTxMemPool) (hh : hash ∈ pool.mapLinks) (z : uint256) :
    z ∈ (l.foldl (addParent hash) pool).mapLinks ↔ z ∈ pool.mapLinks := by
  -- each step writes the links of `hash`, which are there already
  have hstep : ∀ p a, hash ∈ p.mapLinks → ∀ w, (w ∈ (addParent hash p a).mapLinks ↔ w ∈ p.mapLinks) := by
    intro p a hp w
    unfold addParent
    split
    · exact mem_mapLinks_updateParent_of_mem hp
    · rfl
  exact mem_mapLinks_foldl (fun _ => hash) hstep l pool (fun _ _ => hh) z

end Parents

section Linked

variable {hash : uint256} {entry : CTxMemPoolEntry}

/-- `addLinked` as its parts: the entry inserted, the fee delta, then the parents' loop. -/
theorem addLinked_eq (hfresh : hash ∉ pool.mapTx) (hlinks : hash ∉ pool.mapLinks) :
    ∃ pool₁ : CTxMemPool, pool.addLinked hash entry =
      (entry.tx.vin.foldl (fun s txin => insertEntry txin.prevout.hash s) []).foldl (addParent hash) pool₁ ∧
      (∀ y, pool₁.mapTx.lookup y =
        if y = hash then some (applyDelta (pool.mapDeltas.lookup hash) entry) else pool.mapTx.lookup y) ∧
      pool₁.mapLinks = pool.mapLinks.insert hash ⟨[], []⟩ ∧ pool₁.mapDeltas = pool.mapDeltas := by
  let pool₀ : CTxMemPool :=
    { pool with mapTx := pool.mapTx.insert hash entry
                mapLinks := pool.mapLinks.insert hash ⟨[], []⟩ }
  let pool₂ : CTxMemPool := match pool.mapDeltas.lookup hash with
    | some delta => if delta ≠ 0 then pool₀.modifyEntry hash (·.updateFeeDelta delta) else pool₀
    | none => pool₀
  have hlookup₀ : ∀ y, pool₀.mapTx.lookup y = if y = hash then some entry else pool.mapTx.lookup y := by
    intro y
    split
    · subst y
      exact AList.lookup_insert _
    · exact AList.lookup_insert_ne ‹_›
  let mapNextTx := entry.tx.vin.foldl (fun mapNextTx (txin : CTxIn) =>
    if txin.prevout ∈ mapNextTx then mapNextTx else mapNextTx.insert txin.prevout hash) pool₂.mapNextTx
  refine ⟨{ pool₂ with mapNextTx }, ?_, fun y => ?_, ?_, ?_⟩
  · simp only [addLinked, hfresh, hlinks, if_false, AList.lookup_eq_none.mpr hfresh, Option.getD_none]
    rfl
  · show pool₂.mapTx.lookup y = _
    cases hd : pool.mapDeltas.lookup hash with
    | none => simp only [pool₂, hd, applyDelta, hlookup₀]
    | some delta =>
      by_cases hδ : delta = 0
      · simp only [pool₂, hd, applyDelta, hδ, ne_eq, not_true_eq_false, if_false, hlookup₀]
      · simp only [pool₂, hd, applyDelta, hδ, ne_eq, not_false_eq_true, if_true, lookup_modifyEntry, hlookup₀]
        split <;> simp_all
  · show pool₂.mapLinks = _
    simp only [pool₂]
    split
    · split <;> simp [pool₀]
    · rfl
  · show pool₂.mapDeltas = _
    simp only [pool₂]
    split
    · split <;> simp [pool₀]
    · rfl

theorem lookup_addLinked (hfresh : hash ∉ pool.mapTx) (hlinks : hash ∉ pool.mapLinks) (y : uint256) :
    (pool.addLinked hash entry).mapTx.lookup y =
      if y = hash then some (applyDelta (pool.mapDeltas.lookup hash) entry) else pool.mapTx.lookup y := by
  obtain ⟨pool₁, heq, hlookup, -, -⟩ := @addLinked_eq pool hash entry hfresh hlinks
  rw [heq, mapTx_foldl_addParent, hlookup]

theorem mapDeltas_addLinked (hfresh : hash ∉ pool.mapTx) (hlinks : hash ∉ pool.mapLinks) :
    (pool.addLinked hash entry).mapDeltas = pool.mapDeltas := by
  obtain ⟨pool₁, heq, -, -, hdeltas⟩ := @addLinked_eq pool hash entry hfresh hlinks
  rw [heq, mapDeltas_foldl_addParent, hdeltas]

theorem mem_mapLinks_addLinked (hfresh : hash ∉ pool.mapTx) (hlinks : hash ∉ pool.mapLinks) (z : uint256) :
    z ∈ (pool.addLinked hash entry).mapLinks ↔ z = hash ∨ z ∈ pool.mapLinks := by
  obtain ⟨pool₁, heq, -, hlinks₁, -⟩ := @addLinked_eq pool hash entry hfresh hlinks
  rw [heq, mem_mapLinks_foldl_addParent _ _ (by rw [hlinks₁]; exact Finmap.mem_insert.mpr (.inl rfl)), hlinks₁,
    Finmap.mem_insert]

theorem getMemPoolChildren_addLinked (hfresh : hash ∉ pool.mapTx) (hlinks : hash ∉ pool.mapLinks) (z : uint256) :
    (pool.addLinked hash entry).getMemPoolChildren z = if z = hash then [] else pool.getMemPoolChildren z := by
  obtain ⟨pool₁, heq, -, hlinks₁, -⟩ := @addLinked_eq pool hash entry hfresh hlinks
  rw [heq, getMemPoolChildren_foldl_addParent]
  unfold getMemPoolChildren links
  rw [hlinks₁]
  split
  · subst z
    rw [Finmap.lookup_insert]
    rfl
  · rw [Finmap.lookup_insert_of_ne _ ‹_›]

theorem getMemPoolParents_addLinked_of_ne (hfresh : hash ∉ pool.mapTx) (hlinks : hash ∉ pool.mapLinks)
    {z : uint256} (hz : z ≠ hash) :
    (pool.addLinked hash entry).getMemPoolParents z = pool.getMemPoolParents z := by
  obtain ⟨pool₁, heq, -, hlinks₁, -⟩ := @addLinked_eq pool hash entry hfresh hlinks
  rw [heq, getMemPoolParents_foldl_addParent, if_neg hz]
  unfold getMemPoolParents links
  rw [hlinks₁, Finmap.lookup_insert_of_ne _ hz]

/-- The parents `addUnchecked` links: the entries of the pool its inputs spend. -/
theorem getMemPoolParents_addLinked (hfresh : hash ∉ pool.mapTx) (hlinks : hash ∉ pool.mapLinks)
    (hself : ∀ txin ∈ entry.tx.vin, txin.prevout.hash ≠ hash) :
    ((pool.addLinked hash entry).getMemPoolParents hash).Nodup ∧
      ∀ p, p ∈ (pool.addLinked hash entry).getMemPoolParents hash ↔
        p ∈ pool.mapTx ∧ ∃ txin ∈ entry.tx.vin, txin.prevout.hash = p := by
  obtain ⟨pool₁, heq, hlookup, hlinks₁, -⟩ := @addLinked_eq pool hash entry hfresh hlinks
  have hnil : pool₁.getMemPoolParents hash = [] := by
    unfold getMemPoolParents links
    rw [hlinks₁, Finmap.lookup_insert]
    rfl
  have hmem₁ : ∀ p, p ∈ pool₁.mapTx ↔ p = hash ∨ p ∈ pool.mapTx := by
    intro p
    rw [← AList.lookup_isSome, ← AList.lookup_isSome, hlookup]
    split <;> simp_all
  rw [heq, getMemPoolParents_foldl_addParent, if_pos rfl, hnil]
  refine ⟨nodup_foldl_insertIf List.nodup_nil, fun p => ?_⟩
  simp only [mem_foldl_insertIf, mem_foldl_insertEntry, hmem₁, List.not_mem_nil, false_or]
  constructor
  · rintro ⟨⟨txin, htxin, rfl⟩, h | hp⟩
    · exact absurd h (hself txin htxin)
    · exact ⟨hp, txin, htxin, rfl⟩
  · rintro ⟨hp, txin, htxin, rfl⟩
    exact ⟨⟨txin, htxin, rfl⟩, .inr hp⟩

end Linked

section EntryForAncestors

variable {setAncestors : setEntries}

theorem foldl_add_eq_ofInt : ∀ (l : List Int64) (a : Int64), l.foldl (· + ·) a = a + Int64.ofInt (l.map Int64.toInt).sum
  | [], a => by rw [List.foldl_nil, List.map_nil, List.sum_nil, show Int64.ofInt 0 = 0 from rfl, Int64.add_zero]
  | x :: l, a => by
    rw [List.foldl_cons, foldl_add_eq_ofInt l, List.map_cons, List.sum_cons, Int64.ofInt_add, Int64.ofInt_toInt,
      Int64.add_assoc]

theorem sum_map_ownSums : ∀ l : List CTxMemPoolEntry,
    (l.map (·.ownSums nBytesPerSigOp)).sum = ((l.length : ℤ), (l.map fun a => (a.getTxSize nBytesPerSigOp : ℤ)).sum,
      (l.map fun a => a.getModifiedFee.toInt).sum, (l.map fun a => (a.sigOpCost : ℤ)).sum)
  | [] => rfl
  | a :: l => by
    rw [List.map_cons, List.sum_cons, sum_map_ownSums l]
    simp only [ownSums, List.length_cons, List.map_cons, List.sum_cons, Prod.mk_add_mk, Nat.cast_succ, add_comm]

theorem map_filterMap_lookup (hmem : ∀ a ∈ setAncestors, a ∈ pool.mapTx) :
    (setAncestors.filterMap pool.mapTx.lookup).map (·.ownSums nBytesPerSigOp) = setAncestors.map (pool.sums nBytesPerSigOp) := by
  induction setAncestors with
  | nil => rfl
  | cons a l ih =>
    obtain ⟨e, he⟩ := Option.isSome_iff_exists.mp (AList.lookup_isSome.mpr (hmem a List.mem_cons_self))
    simp only [List.filterMap_cons, he, List.map_cons, sums_of_lookup nBytesPerSigOp he,
      ih fun b hb => hmem b (List.mem_cons_of_mem a hb)]

/-- `UpdateEntryForAncestors`: the ancestors' sums join the entry's ancestor state. -/
theorem updateEntryForAncestors_eq (hA : setAncestors.Nodup) (hmem : ∀ a ∈ setAncestors, a ∈ pool.mapTx)
    (it : uint256) :
    pool.updateEntryForAncestors nBytesPerSigOp it setAncestors = pool.modifyEntry it fun e =>
      e.updateAncestorState (∑ a ∈ setAncestors.toFinset, pool.sums nBytesPerSigOp a).2.1
        (Int64.ofInt (∑ a ∈ setAncestors.toFinset, pool.sums nBytesPerSigOp a).2.2.1)
        (∑ a ∈ setAncestors.toFinset, pool.sums nBytesPerSigOp a).1
        (∑ a ∈ setAncestors.toFinset, pool.sums nBytesPerSigOp a).2.2.2 := by
  have hmap := @map_filterMap_lookup nBytesPerSigOp pool setAncestors hmem
  have hlen : (setAncestors.filterMap pool.mapTx.lookup).length = setAncestors.length := by
    rw [← List.length_map (f := (·.ownSums nBytesPerSigOp)), hmap, List.length_map]
  rw [List.sum_toFinset _ hA, ← hmap, sum_map_ownSums, hlen]
  simp only [updateEntryForAncestors, foldl_add_eq_ofInt, Int64.zero_add, List.map_map, Function.comp_def]

end EntryForAncestors

section Add

variable (nBytesPerSigOp) {pool : CTxMemPool} {hash : uint256} {entry : CTxMemPoolEntry} {setAncestors : setEntries}

theorem sameEntries_updateAncestorsOf {it : uint256} {eit : CTxMemPoolEntry} (hit : pool.mapTx.lookup it = some eit)
    (add : Bool) (hA : setAncestors.Nodup) :
    pool.SameEntries nBytesPerSigOp (pool.updateAncestorsOf nBytesPerSigOp add it setAncestors) := by
  rw [updateAncestorsOf_eq nBytesPerSigOp hit]
  have hlinks : pool.SameEntries nBytesPerSigOp
      ((pool.getMemPoolParents it).foldl (fun pool piter => pool.updateChild piter it add) pool) :=
    fun z => by rw [mapTx_foldl_updateChild]
  exact hlinks.trans (sameEntries_foldl_modifyEntry (fun _ => base_updateForAncestor) hA)

theorem sameEntries_updateEntryForAncestors (it : uint256) (setAncestors : setEntries) :
    pool.SameEntries nBytesPerSigOp (pool.updateEntryForAncestors nBytesPerSigOp it setAncestors) :=
  sameEntries_foldl_modifyEntry (S := [it]) (fun _ => base_updateAncestorState ..) (List.nodup_singleton it)

theorem lookup_addLinked_self (hfresh : hash ∉ pool.mapTx) (hlinks : hash ∉ pool.mapLinks) :
    (pool.addLinked hash entry).mapTx.lookup hash = some (applyDelta (pool.mapDeltas.lookup hash) entry) := by
  rw [lookup_addLinked hfresh hlinks, if_pos rfl]

/-- The package updates of `addUnchecked` keep what the packages read of each entry. -/
theorem sameEntries_addUnchecked (hfresh : hash ∉ pool.mapTx) (hlinks : hash ∉ pool.mapLinks)
    (hA : setAncestors.Nodup) :
    (pool.addLinked hash entry).SameEntries nBytesPerSigOp (pool.addUnchecked nBytesPerSigOp hash entry setAncestors) := by
  rw [addUnchecked_eq]
  exact (sameEntries_updateAncestorsOf nBytesPerSigOp (lookup_addLinked_self hfresh hlinks) true hA).trans
    (sameEntries_updateEntryForAncestors nBytesPerSigOp hash setAncestors)

theorem addsEntry_addUnchecked (hfresh : hash ∉ pool.mapTx) (hlinks : hash ∉ pool.mapLinks)
    (hunspent : ∀ c e, pool.mapTx.lookup c = some e → ∀ txin ∈ e.tx.vin, txin.prevout.hash ≠ hash)
    (hself : ∀ txin ∈ entry.tx.vin, txin.prevout.hash ≠ hash) (hA : setAncestors.Nodup) :
    pool.AddsEntry nBytesPerSigOp (pool.addUnchecked nBytesPerSigOp hash entry setAncestors) hash entry.tx := by
  have hlinked : pool.AddsEntry nBytesPerSigOp (pool.addLinked hash entry) hash entry.tx :=
    { fresh := hfresh
      lookup_hash := by rw [lookup_addLinked_self hfresh hlinks, Option.map_some, tx_applyDelta]
      lookup_ne := fun y hy => by rw [lookup_addLinked hfresh hlinks, if_neg hy]
      unspent := hunspent
      not_self := hself }
  exact hlinked.of_sameEntries (sameEntries_addUnchecked nBytesPerSigOp hfresh hlinks hA)

/-- The new entry: its fee delta applied, then the sums over its ancestors
joined to its ancestor state. -/
theorem lookup_addUnchecked_self (hfresh : hash ∉ pool.mapTx) (hlinks : hash ∉ pool.mapLinks)
    (hA : setAncestors.Nodup) (hmem : ∀ a ∈ setAncestors, a ∈ pool.mapTx) :
    (pool.addUnchecked nBytesPerSigOp hash entry setAncestors).mapTx.lookup hash =
      some ((applyDelta (pool.mapDeltas.lookup hash) entry).updateAncestorState
        (∑ a ∈ setAncestors.toFinset, pool.sums nBytesPerSigOp a).2.1
        (Int64.ofInt (∑ a ∈ setAncestors.toFinset, pool.sums nBytesPerSigOp a).2.2.1)
        (∑ a ∈ setAncestors.toFinset, pool.sums nBytesPerSigOp a).1
        (∑ a ∈ setAncestors.toFinset, pool.sums nBytesPerSigOp a).2.2.2) := by
  have hit : (pool.addLinked hash entry).mapTx.lookup hash = some (applyDelta (pool.mapDeltas.lookup hash) entry) :=
    lookup_addLinked_self hfresh hlinks
  have hsame := sameEntries_updateAncestorsOf nBytesPerSigOp hit true hA
  have hmem₁ : ∀ a ∈ setAncestors, a ∈ (pool.addLinked hash entry).mapTx := fun a ha => by
    rw [← AList.lookup_isSome, lookup_addLinked hfresh hlinks, if_neg fun h : a = hash => hfresh (h ▸ hmem a ha)]
    exact AList.lookup_isSome.mpr (hmem a ha)
  -- the sums over the ancestors are those of the pool before
  have hsums : ∀ a ∈ setAncestors.toFinset, (pool.addLinked hash entry).sums nBytesPerSigOp a = pool.sums nBytesPerSigOp a :=
    fun a ha => by
      have hne : a ≠ hash := fun h => hfresh (h ▸ hmem a (List.mem_toFinset.mp ha))
      rw [sums, sums, lookup_addLinked hfresh hlinks, if_neg hne]
  rw [addUnchecked_eq, updateEntryForAncestors_eq hA fun a ha => hsame.mem_iff.mpr (hmem₁ a ha),
    lookup_modifyEntry, if_pos rfl, lookup_updateAncestorsOf nBytesPerSigOp hit true hA,
    if_neg fun h => hfresh (hmem hash h), hit, Option.map_some, hsame.sums_eq, Finset.sum_congr rfl hsums]

/-- The other entries: each ancestor of the new entry has it join its
descendant state. -/
theorem lookup_addUnchecked_of_ne (hfresh : hash ∉ pool.mapTx) (hlinks : hash ∉ pool.mapLinks)
    (hA : setAncestors.Nodup) {y : uint256} (hy : y ≠ hash) :
    (pool.addUnchecked nBytesPerSigOp hash entry setAncestors).mapTx.lookup y =
      (pool.mapTx.lookup y).map fun e =>
        if y ∈ setAncestors then updateForAncestor nBytesPerSigOp true (applyDelta (pool.mapDeltas.lookup hash) entry) e
        else e := by
  have hit : (pool.addLinked hash entry).mapTx.lookup hash = some (applyDelta (pool.mapDeltas.lookup hash) entry) :=
    lookup_addLinked_self hfresh hlinks
  rw [addUnchecked_eq, updateEntryForAncestors, lookup_modifyEntry, if_neg hy,
    lookup_updateAncestorsOf nBytesPerSigOp hit true hA, lookup_addLinked hfresh hlinks, if_neg hy]
  split
  · rfl
  · exact Option.map_id'.symm

theorem mapDeltas_addUnchecked (hfresh : hash ∉ pool.mapTx) (hlinks : hash ∉ pool.mapLinks) :
    (pool.addUnchecked nBytesPerSigOp hash entry setAncestors).mapDeltas = pool.mapDeltas := by
  rw [addUnchecked_eq, updateEntryForAncestors, mapDeltas_modifyEntry,
    mapDeltas_updateAncestorsOf nBytesPerSigOp (lookup_addLinked_self hfresh hlinks), mapDeltas_addLinked hfresh hlinks]

theorem getMemPoolParents_addUnchecked (hfresh : hash ∉ pool.mapTx) (hlinks : hash ∉ pool.mapLinks) (z : uint256) :
    (pool.addUnchecked nBytesPerSigOp hash entry setAncestors).getMemPoolParents z =
      (pool.addLinked hash entry).getMemPoolParents z := by
  rw [addUnchecked_eq, updateEntryForAncestors, getMemPoolParents_modifyEntry,
    getMemPoolParents_updateAncestorsOf nBytesPerSigOp (lookup_addLinked_self hfresh hlinks)]

theorem getMemPoolChildren_addUnchecked (hfresh : hash ∉ pool.mapTx) (hlinks : hash ∉ pool.mapLinks)
    (hps : ((pool.addLinked hash entry).getMemPoolParents hash).Nodup) (z : uint256) :
    (pool.addUnchecked nBytesPerSigOp hash entry setAncestors).getMemPoolChildren z =
      if z ∈ (pool.addLinked hash entry).getMemPoolParents hash then
        insertEntry hash ((pool.addLinked hash entry).getMemPoolChildren z)
      else (pool.addLinked hash entry).getMemPoolChildren z := by
  rw [addUnchecked_eq, updateEntryForAncestors, getMemPoolChildren_modifyEntry,
    getMemPoolChildren_updateAncestorsOf nBytesPerSigOp (lookup_addLinked_self hfresh hlinks) true hps]
  rfl

/-- The links `addUnchecked` leaves: the new entry a child of each of its
parents in the pool, with no children of its own. -/
theorem linksConsistent_addUnchecked (hc : pool.LinksConsistent) (hfresh : hash ∉ pool.mapTx)
    (hunspent : ∀ c e, pool.mapTx.lookup c = some e → ∀ txin ∈ e.tx.vin, txin.prevout.hash ≠ hash)
    (hself : ∀ txin ∈ entry.tx.vin, txin.prevout.hash ≠ hash) (hA : setAncestors.Nodup) :
    (pool.addUnchecked nBytesPerSigOp hash entry setAncestors).LinksConsistent := by
  have hlinks : hash ∉ pool.mapLinks := (hc.links_keys hash).not.mpr hfresh
  have ha := addsEntry_addUnchecked nBytesPerSigOp hfresh hlinks hunspent hself hA
  obtain ⟨hps, hpar⟩ := getMemPoolParents_addLinked hfresh hlinks hself
  have hpar' : ∀ p, p ∈ (pool.addLinked hash entry).getMemPoolParents hash ↔
      (pool.addUnchecked nBytesPerSigOp hash entry setAncestors).Spends hash p :=
    fun p => (hpar p).trans ha.spends_hash_iff.symm
  have hpsLinks : ∀ p ∈ (pool.addLinked hash entry).getMemPoolParents hash, p ∈ (pool.addLinked hash entry).mapLinks :=
    fun p hp => (mem_mapLinks_addLinked hfresh hlinks p).mpr (.inr ((hc.links_keys p).mpr ((hpar p).mp hp).1))
  refine ⟨fun x => ?_, fun x hx p => ?_, fun x hx c => ?_, fun x => ?_, fun x => ?_⟩
  · rw [ha.mem_iff, addUnchecked_eq, updateEntryForAncestors, mapLinks_modifyEntry,
      mem_mapLinks_updateAncestorsOf nBytesPerSigOp (lookup_addLinked_self hfresh hlinks) true hpsLinks,
      mem_mapLinks_addLinked hfresh hlinks, hc.links_keys]
  · rw [getMemPoolParents_addUnchecked nBytesPerSigOp hfresh hlinks]
    by_cases hxh : x = hash
    · rw [hxh]
      exact hpar' p
    · rw [getMemPoolParents_addLinked_of_ne hfresh hlinks hxh, ha.spends_iff_of_ne hxh]
      exact hc.parents x ((ha.mem_iff.mp hx).resolve_left hxh) p
  · rw [getMemPoolChildren_addUnchecked nBytesPerSigOp hfresh hlinks hps, getMemPoolChildren_addLinked hfresh hlinks]
    by_cases hxh : x = hash
    · -- nothing spends the new entry
      rw [hxh, if_pos rfl, if_neg fun h => hfresh ((hpar hash).mp h).1]
      exact iff_of_false List.not_mem_nil ha.not_spends_hash
    have hx' := (ha.mem_iff.mp hx).resolve_left hxh
    rw [if_neg hxh]
    by_cases hch : c = hash
    · -- the new entry is a child of the entries it spends
      have hnot : hash ∉ pool.getMemPoolChildren x := fun h => hfresh ((hc.children x hx' hash).mp h).mem_left
      rw [hch, ← hpar' x]
      split_ifs with hin
      · exact iff_of_true (mem_insertEntry.mpr (.inl rfl)) hin
      · exact iff_of_false hnot hin
    · rw [ha.spends_iff_of_ne hch, ← hc.children x hx' c]
      split_ifs
      · rw [mem_insertEntry, or_iff_right hch]
      · rfl
  · rw [getMemPoolParents_addUnchecked nBytesPerSigOp hfresh hlinks]
    by_cases hxh : x = hash
    · rw [hxh]
      exact hps
    · rw [getMemPoolParents_addLinked_of_ne hfresh hlinks hxh]
      exact hc.parents_nodup x
  · have h₁ : ((pool.addLinked hash entry).getMemPoolChildren x).Nodup := by
      rw [getMemPoolChildren_addLinked hfresh hlinks]
      split
      · exact List.nodup_nil
      · exact hc.children_nodup x
    rw [getMemPoolChildren_addUnchecked nBytesPerSigOp hfresh hlinks hps]
    split
    · exact nodup_insertEntry h₁
    · exact h₁

variable {tx : CTransaction} {nFee : CAmount} {nTime : Int64} {entryHeight : UInt32} {spendsCoinbase : Bool}
  {sigOpCost : ℕ}

/-- `addUnchecked` of a new transaction that no entry of a consistent pool
spends, with the ancestors `CalculateMemPoolAncestors` found for it, leaves
the pool consistent. -/
theorem addUnchecked_consistent (hc : pool.Consistent nBytesPerSigOp) (hfresh : hash ∉ pool.mapTx)
    (hunspent : ∀ c e, pool.mapTx.lookup c = some e → ∀ txin ∈ e.tx.vin, txin.prevout.hash ≠ hash)
    (hself : ∀ txin ∈ tx.vin, txin.prevout.hash ≠ hash) {limits : Limits}
    (hanc : pool.calculateMemPoolAncestors nBytesPerSigOp hash
      (make nBytesPerSigOp tx nFee nTime entryHeight spendsCoinbase sigOpCost) limits true = (setAncestors, none)) :
    (pool.addUnchecked nBytesPerSigOp hash (make nBytesPerSigOp tx nFee nTime entryHeight spendsCoinbase sigOpCost)
      setAncestors).Consistent nBytesPerSigOp := by
  have hlinks : hash ∉ pool.mapLinks := (hc.links_keys hash).not.mpr hfresh
  obtain ⟨hA, hAmem⟩ := calculateMemPoolAncestors_search nBytesPerSigOp hc.linksWithin hanc
  rw [hc.linkParent_eq] at hAmem
  have ha := @addsEntry_addUnchecked nBytesPerSigOp pool hash
    (make nBytesPerSigOp tx nFee nTime entryHeight spendsCoinbase sigOpCost) setAncestors hfresh hlinks hunspent hself hA
  -- the ancestors found are those of the new entry in the pool it leaves
  have hS : ∀ z, z ∈ setAncestors.toFinset ↔ TransGen
      (pool.addUnchecked nBytesPerSigOp hash (make nBytesPerSigOp tx nFee nTime entryHeight spendsCoinbase sigOpCost)
        setAncestors).Spends hash z :=
    fun z => List.mem_toFinset.trans ((hAmem z).trans ha.transGen_hash_iff.symm)
  have hmem : ∀ a ∈ setAncestors, a ∈ pool.mapTx := fun a h => by
    obtain ⟨x, ⟨hx, -⟩, hxa⟩ := (hAmem a).mp h
    exact mem_of_reflTransGen hx hxa
  have hnot : hash ∉ setAncestors.toFinset := fun h => hfresh (hmem hash (List.mem_toFinset.mp h))
  have hself' := @lookup_addUnchecked_self nBytesPerSigOp pool hash
    (make nBytesPerSigOp tx nFee nTime entryHeight spendsCoinbase sigOpCost) setAncestors hfresh hlinks hA hmem
  obtain ⟨hδ, hanc₁, hdesc₁⟩ := @applyDelta_make nBytesPerSigOp (pool.mapDeltas.lookup hash)
    tx nFee nTime entryHeight spendsCoinbase sigOpCost
  have hsums : (pool.addUnchecked nBytesPerSigOp hash (make nBytesPerSigOp tx nFee nTime entryHeight spendsCoinbase sigOpCost)
      setAncestors).sums nBytesPerSigOp hash = (applyDelta (pool.mapDeltas.lookup hash)
        (make nBytesPerSigOp tx nFee nTime entryHeight spendsCoinbase sigOpCost)).ownSums nBytesPerSigOp :=
    -- the ancestor state is not what the packages read of the entry
    (sums_of_lookup nBytesPerSigOp hself').trans rfl
  refine ⟨linksConsistent_addUnchecked nBytesPerSigOp hc.toLinksConsistent hfresh hunspent hself hA,
    ha.acyclic hc.acyclic, fun x e hx => ?_, fun x e hx => ?_, fun x e hx => ?_⟩
  · rw [mapDeltas_addUnchecked nBytesPerSigOp hfresh hlinks]
    by_cases hxh : x = hash
    · rw [hxh, hself'] at hx
      cases hx
      rw [hxh]
      exact hδ
    · rw [lookup_addUnchecked_of_ne nBytesPerSigOp hfresh hlinks hA hxh] at hx
      obtain ⟨e₀, he₀, rfl⟩ := Option.map_eq_some_iff.mp hx
      have := hc.deltas x e₀ he₀
      split <;> exact this
  · by_cases hxh : x = hash
    · -- the new entry's ancestor state takes the sums over its ancestors
      rw [hxh, hself'] at hx
      cases hx
      rw [hxh, ha.ancestorSet_hash hS, Finset.sum_insert hnot, hsums,
        ha.sum_sums fun z hz => hmem z (List.mem_toFinset.mp hz)]
      exact hanc₁.update _ _ _ _
    · rw [lookup_addUnchecked_of_ne nBytesPerSigOp hfresh hlinks hA hxh] at hx
      obtain ⟨e₀, he₀, rfl⟩ := Option.map_eq_some_iff.mp hx
      rw [ha.ancestorSet_of_ne hxh, ha.sum_sums fun z hz => (mem_ancestorSet.mp hz).1]
      have := hc.ancestors x e₀ he₀
      split <;> exact this
  · by_cases hxh : x = hash
    · rw [hxh, hself'] at hx
      cases hx
      rw [hxh, ha.descendantSet_hash, Finset.sum_singleton, hsums]
      exact hdesc₁
    · -- an ancestor of the new entry has it join its descendant state
      rw [lookup_addUnchecked_of_ne nBytesPerSigOp hfresh hlinks hA hxh] at hx
      obtain ⟨e₀, he₀, rfl⟩ := Option.map_eq_some_iff.mp hx
      have hD : ∀ z ∈ pool.descendantSet x, z ∈ pool.mapTx := fun z hz => (mem_descendantSet.mp hz).1
      have hdesc := hc.descendants x e₀ he₀
      rw [ha.descendantSet_of_ne hS hxh]
      by_cases hxA : x ∈ setAncestors
      · rw [if_pos (List.mem_toFinset.mpr hxA), Finset.sum_insert fun h => hfresh (hD hash h), hsums, ha.sum_sums hD,
          add_comm]
        simp only [hxA, if_true]
        exact hdesc.updateForAncestor true
      · rw [if_neg (mt List.mem_toFinset.mp hxA), ha.sum_sums hD]
        simp only [hxA, if_false]
        exact hdesc

end Add

end CTxMemPool
end Packages
end AokChain
