import AokChain.Mempool.AddUnchecked
import Mathlib.Algebra.BigOperators.Ring.Finset

/-!
# What one removal keeps

`RemoveStaged({it}, true)` cuts the links of `it` on both sides: `it` leaves
the children of its parents and the parents of its children, so the links of
the entries left are the spend relation among them.  Their packages are their
old ones less `it` (`removeStaged_singleton_packages`), which are their
packages in the pool left exactly where no path runs through `it`.  Where `it`
spends no entry of the pool, as each transaction of a block when
`removeForBlock` reaches it, the pool stays consistent; where every path from
an entry to one of its ancestors runs through `it`, it does not.
-/

namespace AokChain
namespace Packages
namespace CTxMemPool

open Relation CTxMemPoolEntry

variable (nBytesPerSigOp : ℕ)

/-- The pool `pool'` is `pool` without the entry `it`, up to package state. -/
structure RemovesEntry (pool pool' : CTxMemPool) (it : uint256) : Prop where
  gone : it ∉ pool'.mapTx
  lookup_ne : ∀ y, y ≠ it →
    (pool'.mapTx.lookup y).map (·.base nBytesPerSigOp) = (pool.mapTx.lookup y).map (·.base nBytesPerSigOp)

variable {nBytesPerSigOp} {pool pool' : CTxMemPool} {it : uint256} {x y c p : uint256}

namespace RemovesEntry

variable (hr : pool.RemovesEntry nBytesPerSigOp pool' it)
include hr

theorem tx_ne (hy : y ≠ it) :
    (pool'.mapTx.lookup y).map CTxMemPoolEntry.tx = (pool.mapTx.lookup y).map CTxMemPoolEntry.tx := by
  have := congrArg (Option.map Prod.fst) (hr.lookup_ne y hy)
  simpa [Option.map_map, Function.comp_def, CTxMemPoolEntry.base] using this

theorem sums_ne (hy : y ≠ it) : pool'.sums nBytesPerSigOp y = pool.sums nBytesPerSigOp y := by
  have := congrArg (Option.map Prod.snd) (hr.lookup_ne y hy)
  simpa [sums, Option.map_map, Function.comp_def, CTxMemPoolEntry.base] using congrArg (Option.getD · 0) this

theorem mem_iff : y ∈ pool'.mapTx ↔ y ≠ it ∧ y ∈ pool.mapTx := by
  by_cases hy : y = it
  · subst hy
    exact iff_of_false hr.gone fun h => h.1 rfl
  · rw [← AList.lookup_isSome, ← AList.lookup_isSome, ← Option.isSome_map (f := CTxMemPoolEntry.tx), hr.tx_ne hy,
      Option.isSome_map, and_iff_right hy]

/-- The spends left are those between entries other than `it`. -/
theorem spends_iff : pool'.Spends c p ↔ c ≠ it ∧ p ≠ it ∧ pool.Spends c p := by
  by_cases hc : c = it
  · subst hc
    exact iff_of_false (fun h => hr.gone h.mem_left) fun h => h.1 rfl
  · rw [spends_iff_map_tx, spends_iff_map_tx, hr.tx_ne hc, hr.mem_iff]
    exact ⟨fun ⟨⟨hp, hp'⟩, h⟩ => ⟨hc, hp, hp', h⟩, fun ⟨_, hp, hp', h⟩ => ⟨⟨hp, hp'⟩, h⟩⟩

theorem reflTransGen_of (h : ReflTransGen pool'.Spends x y) : ReflTransGen pool.Spends x y :=
  ReflTransGen.mono (r := pool'.Spends) (p := pool.Spends) (fun _ _ hs => (hr.spends_iff.mp hs).2.2) _ _ h

theorem acyclic (h : ∀ x, ¬TransGen pool.Spends x x) (x : uint256) : ¬TransGen pool'.Spends x x :=
  fun hcyc => h x (TransGen.mono (r := pool'.Spends) (p := pool.Spends) (fun _ _ hs => (hr.spends_iff.mp hs).2.2) _ _ hcyc)

/-- Where `it` spends no entry, no path between two other entries runs through it. -/
theorem reflTransGen_iff (hno : ∀ p, ¬pool.Spends it p) (hy : y ≠ it) :
    ReflTransGen pool'.Spends x y ↔ ReflTransGen pool.Spends x y := by
  refine ⟨hr.reflTransGen_of, fun h => ?_⟩
  revert hy
  induction h with
  | refl => exact fun _ => .refl
  | @tail b c _ hbc ih =>
    intro hc
    have hb : b ≠ it := fun hb => hno c (hb ▸ hbc)
    exact (ih hb).tail (hr.spends_iff.mpr ⟨hb, hc, hbc⟩)

theorem ancestorSet_eq (hno : ∀ p, ¬pool.Spends it p) :
    pool'.ancestorSet x = (pool.ancestorSet x).erase it := by
  ext z
  rw [mem_ancestorSet, Finset.mem_erase, mem_ancestorSet, hr.mem_iff]
  constructor
  · rintro ⟨⟨hz, hzm⟩, h⟩
    exact ⟨hz, hzm, hr.reflTransGen_of h⟩
  · rintro ⟨hz, hzm, h⟩
    exact ⟨⟨hz, hzm⟩, (hr.reflTransGen_iff hno hz).mpr h⟩

theorem descendantSet_eq (hno : ∀ p, ¬pool.Spends it p) (hx : x ≠ it) :
    pool'.descendantSet x = (pool.descendantSet x).erase it := by
  ext z
  rw [mem_descendantSet, Finset.mem_erase, mem_descendantSet, hr.mem_iff]
  constructor
  · rintro ⟨⟨hz, hzm⟩, h⟩
    exact ⟨hz, hzm, hr.reflTransGen_of h⟩
  · rintro ⟨hz, hzm, h⟩
    exact ⟨⟨hz, hzm⟩, (hr.reflTransGen_iff hno hx).mpr h⟩

theorem sum_sums {S : Finset uint256} (hS : it ∉ S) :
    ∑ z ∈ S, pool'.sums nBytesPerSigOp z = ∑ z ∈ S, pool.sums nBytesPerSigOp z :=
  Finset.sum_congr rfl fun _ hz => hr.sums_ne fun h => hS (h ▸ hz)

end RemovesEntry

/-- The count of a package is the number of its entries. -/
theorem fst_sum_sums {S : Finset uint256} (hS : ∀ z ∈ S, z ∈ pool.mapTx) :
    (∑ z ∈ S, pool.sums nBytesPerSigOp z).1 = S.card := by
  rw [Prod.fst_sum, Finset.card_eq_sum_ones, Nat.cast_sum]
  refine Finset.sum_congr rfl fun z hz => ?_
  obtain ⟨e, he⟩ := Option.isSome_iff_exists.mp (AList.lookup_isSome.mpr (hS z hz))
  rw [sums_of_lookup nBytesPerSigOp he]
  simp [ownSums]

section Links

variable (nBytesPerSigOp) {eit : CTxMemPoolEntry}

@[simp] theorem mapLinks_removeFromDescendants : (pool.removeFromDescendants nBytesPerSigOp it).mapLinks = pool.mapLinks := by
  unfold removeFromDescendants
  split <;> simp

@[simp] theorem getMemPoolParents_removeFromDescendants (z : uint256) :
    (pool.removeFromDescendants nBytesPerSigOp it).getMemPoolParents z = pool.getMemPoolParents z := by
  rw [getMemPoolParents, links, mapLinks_removeFromDescendants, getMemPoolParents, links]

@[simp] theorem getMemPoolChildren_removeFromDescendants (z : uint256) :
    (pool.removeFromDescendants nBytesPerSigOp it).getMemPoolChildren z = pool.getMemPoolChildren z := by
  rw [getMemPoolChildren, links, mapLinks_removeFromDescendants, getMemPoolChildren, links]

@[simp] theorem mem_removeFromDescendants (z : uint256) :
    z ∈ (pool.removeFromDescendants nBytesPerSigOp it).mapTx ↔ z ∈ pool.mapTx := by
  unfold removeFromDescendants
  split <;> simp

@[simp] theorem mapDeltas_removeFromDescendants :
    (pool.removeFromDescendants nBytesPerSigOp it).mapDeltas = pool.mapDeltas := by
  unfold removeFromDescendants
  split <;> simp

theorem getMemPoolParents_removeFromAncestors (hit : pool.mapTx.lookup it = some eit) (z : uint256) :
    (pool.removeFromAncestors nBytesPerSigOp it).getMemPoolParents z = pool.getMemPoolParents z := by
  rw [removeFromAncestors_eq nBytesPerSigOp hit, getMemPoolParents_updateAncestorsOf nBytesPerSigOp hit]

theorem getMemPoolChildren_removeFromAncestors (hit : pool.mapTx.lookup it = some eit)
    (hps : (pool.getMemPoolParents it).Nodup) (z : uint256) :
    (pool.removeFromAncestors nBytesPerSigOp it).getMemPoolChildren z =
      if z ∈ pool.getMemPoolParents it then eraseEntry it (pool.getMemPoolChildren z) else pool.getMemPoolChildren z := by
  rw [removeFromAncestors_eq nBytesPerSigOp hit, getMemPoolChildren_updateAncestorsOf nBytesPerSigOp hit false hps]
  rfl

theorem mem_mapLinks_removeFromAncestors (hit : pool.mapTx.lookup it = some eit)
    (hps : ∀ p ∈ pool.getMemPoolParents it, p ∈ pool.mapLinks) (z : uint256) :
    z ∈ (pool.removeFromAncestors nBytesPerSigOp it).mapLinks ↔ z ∈ pool.mapLinks := by
  rw [removeFromAncestors_eq nBytesPerSigOp hit]
  exact mem_mapLinks_updateAncestorsOf nBytesPerSigOp hit false hps _ z

theorem mem_removeFromAncestors (hit : pool.mapTx.lookup it = some eit) (z : uint256) :
    z ∈ (pool.removeFromAncestors nBytesPerSigOp it).mapTx ↔ z ∈ pool.mapTx := by
  rw [removeFromAncestors_eq nBytesPerSigOp hit, updateAncestorsOf_eq nBytesPerSigOp hit, mem_foldl_modifyEntry,
    mapTx_foldl_updateChild]

theorem mapDeltas_removeFromAncestors (hit : pool.mapTx.lookup it = some eit) :
    (pool.removeFromAncestors nBytesPerSigOp it).mapDeltas = pool.mapDeltas := by
  rw [removeFromAncestors_eq nBytesPerSigOp hit, mapDeltas_updateAncestorsOf nBytesPerSigOp hit]

/-- `UpdateChildrenForRemoval`: `it` leaves the parents of each of its children. -/
theorem getMemPoolParents_updateChildrenForRemoval (hcs : (pool.getMemPoolChildren it).Nodup) (z : uint256) :
    (pool.updateChildrenForRemoval it).getMemPoolParents z =
      if z ∈ pool.getMemPoolChildren it then eraseEntry it (pool.getMemPoolParents z) else pool.getMemPoolParents z :=
  getMemPoolParents_foldl_updateParent hcs it pool z

@[simp] theorem getMemPoolChildren_updateChildrenForRemoval (z : uint256) :
    (pool.updateChildrenForRemoval it).getMemPoolChildren z = pool.getMemPoolChildren z :=
  foldl_keeps (g := fun pool updateIt => pool.updateParent updateIt it false) (·.getMemPoolChildren z)
    (fun _ _ => getMemPoolChildren_updateParent) _ pool

theorem mem_mapLinks_updateChildrenForRemoval (hcs : ∀ c ∈ pool.getMemPoolChildren it, c ∈ pool.mapLinks)
    (z : uint256) : z ∈ (pool.updateChildrenForRemoval it).mapLinks ↔ z ∈ pool.mapLinks :=
  mem_mapLinks_foldl id (fun _ _ hc _ => mem_mapLinks_updateParent_of_mem hc) _ pool hcs z

@[simp] theorem mapDeltas_updateChildrenForRemoval : (pool.updateChildrenForRemoval it).mapDeltas = pool.mapDeltas :=
  foldl_keeps (g := fun pool updateIt => pool.updateParent updateIt it false) (·.mapDeltas) (fun _ _ => rfl) _ pool

theorem links_removeUnchecked (hit : it ∈ pool.mapTx) (z : uint256) :
    (pool.removeUnchecked it).links z = if z = it then ⟨[], []⟩ else pool.links z := by
  obtain ⟨e, he⟩ := Option.isSome_iff_exists.mp (AList.lookup_isSome.mpr hit)
  unfold removeUnchecked links
  simp only [he]
  by_cases hz : z = it
  · rw [if_pos hz, hz, Finmap.lookup_erase]
    rfl
  · rw [if_neg hz, Finmap.lookup_erase_ne hz]

theorem mem_mapLinks_removeUnchecked (hit : it ∈ pool.mapTx) (z : uint256) :
    z ∈ (pool.removeUnchecked it).mapLinks ↔ z ≠ it ∧ z ∈ pool.mapLinks := by
  obtain ⟨e, he⟩ := Option.isSome_iff_exists.mp (AList.lookup_isSome.mpr hit)
  unfold removeUnchecked
  simp only [he]
  exact Finmap.mem_erase

@[simp] theorem mapDeltas_removeUnchecked : (pool.removeUnchecked it).mapDeltas = pool.mapDeltas := by
  unfold removeUnchecked
  split <;> rfl

end Links

section Singleton

variable (nBytesPerSigOp) {eit : CTxMemPoolEntry}

/-- `UpdateForRemoveFromMempool({it}, true)` in its three steps. -/
theorem updateForRemoveFromMempool_singleton :
    pool.updateForRemoveFromMempool nBytesPerSigOp [it] true =
      ((pool.removeFromDescendants nBytesPerSigOp it).removeFromAncestors nBytesPerSigOp it).updateChildrenForRemoval it :=
  rfl

theorem removeStaged_singleton_eq_removeUnchecked :
    pool.removeStaged nBytesPerSigOp [it] true = (pool.updateForRemoveFromMempool nBytesPerSigOp [it] true).removeUnchecked it :=
  rfl

variable (hc : pool.LinksConsistent) (hit : pool.mapTx.lookup it = some eit)
include hc hit

/-- The children of `it` after the ancestors' update: its children but itself. -/
theorem mem_children_removeFromAncestors {z : uint256} (hz : z ≠ it) :
    z ∈ ((pool.removeFromDescendants nBytesPerSigOp it).removeFromAncestors nBytesPerSigOp it).getMemPoolChildren it ↔
      z ∈ pool.getMemPoolChildren it := by
  rw [getMemPoolChildren_removeFromAncestors nBytesPerSigOp (lookup_removeFromDescendants_self hc hit)
    (by simpa using hc.parents_nodup it)]
  simp only [getMemPoolParents_removeFromDescendants, getMemPoolChildren_removeFromDescendants]
  split
  · rw [mem_eraseEntry (hc.children_nodup it), and_iff_right hz]
  · rfl

/-- `UpdateForRemoveFromMempool({it}, true)` takes `it` out of the parents of its children. -/
theorem getMemPoolParents_updateForRemove {z : uint256} (hz : z ≠ it) :
    (pool.updateForRemoveFromMempool nBytesPerSigOp [it] true).getMemPoolParents z =
      if z ∈ pool.getMemPoolChildren it then eraseEntry it (pool.getMemPoolParents z) else pool.getMemPoolParents z := by
  have hit1 : (pool.removeFromDescendants nBytesPerSigOp it).mapTx.lookup it = some eit :=
    lookup_removeFromDescendants_self hc hit
  have hcs : (((pool.removeFromDescendants nBytesPerSigOp it).removeFromAncestors nBytesPerSigOp it).getMemPoolChildren
      it).Nodup := by
    rw [getMemPoolChildren_removeFromAncestors nBytesPerSigOp hit1 (by simpa using hc.parents_nodup it)]
    simp only [getMemPoolParents_removeFromDescendants, getMemPoolChildren_removeFromDescendants]
    split
    · exact (hc.children_nodup it).erase it
    · exact hc.children_nodup it
  rw [updateForRemoveFromMempool_singleton, getMemPoolParents_updateChildrenForRemoval hcs,
    getMemPoolParents_removeFromAncestors nBytesPerSigOp hit1, getMemPoolParents_removeFromDescendants]
  simp only [mem_children_removeFromAncestors nBytesPerSigOp hc hit hz]

/-- `UpdateForRemoveFromMempool({it}, true)` takes `it` out of the children of its parents. -/
theorem getMemPoolChildren_updateForRemove (z : uint256) :
    (pool.updateForRemoveFromMempool nBytesPerSigOp [it] true).getMemPoolChildren z =
      if z ∈ pool.getMemPoolParents it then eraseEntry it (pool.getMemPoolChildren z) else pool.getMemPoolChildren z := by
  rw [updateForRemoveFromMempool_singleton, getMemPoolChildren_updateChildrenForRemoval,
    getMemPoolChildren_removeFromAncestors nBytesPerSigOp (lookup_removeFromDescendants_self hc hit)
      (by simpa using hc.parents_nodup it)]
  simp only [getMemPoolParents_removeFromDescendants, getMemPoolChildren_removeFromDescendants]

theorem mem_mapLinks_updateForRemove (z : uint256) :
    z ∈ (pool.updateForRemoveFromMempool nBytesPerSigOp [it] true).mapLinks ↔ z ∈ pool.mapLinks := by
  have hit1 : (pool.removeFromDescendants nBytesPerSigOp it).mapTx.lookup it = some eit :=
    lookup_removeFromDescendants_self hc hit
  -- the links each step writes are those of parents and children of `it`, which the pool has
  have hlinked : ∀ q, pool.Spends it q ∨ pool.Spends q it → q ∈ pool.mapLinks := fun q h =>
    (hc.links_keys q).mpr (h.elim Spends.mem_right Spends.mem_left)
  have hitmem : it ∈ pool.mapTx := AList.lookup_isSome.mp (by rw [hit]; rfl)
  rw [updateForRemoveFromMempool_singleton, mem_mapLinks_updateChildrenForRemoval,
    mem_mapLinks_removeFromAncestors nBytesPerSigOp hit1, mapLinks_removeFromDescendants]
  · intro p hp
    rw [getMemPoolParents_removeFromDescendants] at hp
    rw [mapLinks_removeFromDescendants]
    exact hlinked p (.inl ((hc.parents it hitmem p).mp hp))
  · intro c hcit
    rw [mem_mapLinks_removeFromAncestors nBytesPerSigOp hit1, mapLinks_removeFromDescendants]
    · by_cases hcne : c = it
      · exact hcne ▸ (hc.links_keys it).mpr hitmem
      · exact hlinked c (.inr ((hc.children it hitmem c).mp ((mem_children_removeFromAncestors nBytesPerSigOp hc hit hcne).mp hcit)))
    · intro p hp
      rw [getMemPoolParents_removeFromDescendants] at hp
      rw [mapLinks_removeFromDescendants]
      exact hlinked p (.inl ((hc.parents it hitmem p).mp hp))

theorem mem_updateForRemove (z : uint256) :
    z ∈ (pool.updateForRemoveFromMempool nBytesPerSigOp [it] true).mapTx ↔ z ∈ pool.mapTx := by
  rw [updateForRemoveFromMempool_singleton, mapTx_updateChildrenForRemoval,
    mem_removeFromAncestors nBytesPerSigOp (lookup_removeFromDescendants_self hc hit), mem_removeFromDescendants]

theorem links_removeStaged_singleton (z : uint256) :
    (pool.removeStaged nBytesPerSigOp [it] true).links z =
      if z = it then ⟨[], []⟩ else (pool.updateForRemoveFromMempool nBytesPerSigOp [it] true).links z :=
  links_removeUnchecked ((mem_updateForRemove nBytesPerSigOp hc hit it).mpr
    (AList.lookup_isSome.mp (by rw [hit]; rfl))) z

/-- After `RemoveStaged({it}, true)` the parents of each entry but `it` are
its parents before, less `it` where `it` was one. -/
theorem getMemPoolParents_removeStaged_singleton {z : uint256} (hz : z ≠ it) :
    (pool.removeStaged nBytesPerSigOp [it] true).getMemPoolParents z =
      if z ∈ pool.getMemPoolChildren it then eraseEntry it (pool.getMemPoolParents z) else pool.getMemPoolParents z := by
  rw [getMemPoolParents, links_removeStaged_singleton nBytesPerSigOp hc hit, if_neg hz, ← getMemPoolParents,
    getMemPoolParents_updateForRemove nBytesPerSigOp hc hit hz]

theorem getMemPoolChildren_removeStaged_singleton {z : uint256} (hz : z ≠ it) :
    (pool.removeStaged nBytesPerSigOp [it] true).getMemPoolChildren z =
      if z ∈ pool.getMemPoolParents it then eraseEntry it (pool.getMemPoolChildren z) else pool.getMemPoolChildren z := by
  rw [getMemPoolChildren, links_removeStaged_singleton nBytesPerSigOp hc hit, if_neg hz, ← getMemPoolChildren,
    getMemPoolChildren_updateForRemove nBytesPerSigOp hc hit]

theorem mem_mapLinks_removeStaged_singleton (z : uint256) :
    z ∈ (pool.removeStaged nBytesPerSigOp [it] true).mapLinks ↔ z ≠ it ∧ z ∈ pool.mapLinks := by
  rw [removeStaged_singleton_eq_removeUnchecked, mem_mapLinks_removeUnchecked ((mem_updateForRemove nBytesPerSigOp hc hit it).mpr
    (AList.lookup_isSome.mp (by rw [hit]; rfl))), mem_mapLinks_updateForRemove nBytesPerSigOp hc hit]

theorem removesEntry_removeStaged_singleton :
    pool.RemovesEntry nBytesPerSigOp (pool.removeStaged nBytesPerSigOp [it] true) it where
  gone h := by
    have := AList.lookup_isSome.mpr h
    rw [lookup_removeStaged_singleton hc hit, if_pos rfl] at this
    cases this
  lookup_ne y hy := by
    rw [lookup_removeStaged_singleton hc hit, if_neg hy, Option.map_map]
    refine Option.map_congr fun e _ => ?_
    simp only [Function.comp_apply]
    split_ifs <;> rfl

/-- `RemoveStaged({it}, true)` keeps the links the spend relation of the entries left. -/
theorem linksConsistent_removeStaged_singleton : (pool.removeStaged nBytesPerSigOp [it] true).LinksConsistent := by
  have hr := removesEntry_removeStaged_singleton nBytesPerSigOp hc hit
  have hitmem : it ∈ pool.mapTx := AList.lookup_isSome.mp (by rw [hit]; rfl)
  refine ⟨fun x => ?_, fun x hx p => ?_, fun x hx c => ?_, fun x => ?_, fun x => ?_⟩
  · rw [mem_mapLinks_removeStaged_singleton nBytesPerSigOp hc hit, hr.mem_iff, hc.links_keys]
  · obtain ⟨hxit, hx'⟩ := hr.mem_iff.mp hx
    rw [getMemPoolParents_removeStaged_singleton nBytesPerSigOp hc hit hxit, hr.spends_iff,
      ← hc.parents x hx' p]
    split_ifs with hch
    · rw [mem_eraseEntry (hc.parents_nodup x)]
      exact ⟨fun ⟨hp, h⟩ => ⟨hxit, hp, h⟩, fun ⟨_, hp, h⟩ => ⟨hp, h⟩⟩
    · -- `it` is no parent of an entry it is no child of
      refine ⟨fun h => ⟨hxit, fun hp => hch ?_, h⟩, fun h => h.2.2⟩
      rw [hc.children it hitmem x, ← hp, ← hc.parents x hx' p]
      exact h
  · obtain ⟨hxit, hx'⟩ := hr.mem_iff.mp hx
    rw [getMemPoolChildren_removeStaged_singleton nBytesPerSigOp hc hit hxit, hr.spends_iff,
      ← hc.children x hx' c]
    split_ifs with hpar
    · rw [mem_eraseEntry (hc.children_nodup x)]
      exact ⟨fun ⟨hc', h⟩ => ⟨hc', hxit, h⟩, fun ⟨hc', _, h⟩ => ⟨hc', h⟩⟩
    · refine ⟨fun h => ⟨fun hcit => hpar ?_, hxit, h⟩, fun h => h.2.2⟩
      rw [hc.parents it hitmem x, ← hcit, ← hc.children x hx' c]
      exact h
  · by_cases hxit : x = it
    · rw [getMemPoolParents, links_removeStaged_singleton nBytesPerSigOp hc hit, if_pos hxit]
      exact List.nodup_nil
    · rw [getMemPoolParents_removeStaged_singleton nBytesPerSigOp hc hit hxit]
      split
      · exact (hc.parents_nodup x).erase it
      · exact hc.parents_nodup x
  · by_cases hxit : x = it
    · rw [getMemPoolChildren, links_removeStaged_singleton nBytesPerSigOp hc hit, if_pos hxit]
      exact List.nodup_nil
    · rw [getMemPoolChildren_removeStaged_singleton nBytesPerSigOp hc hit hxit]
      split
      · exact (hc.children_nodup x).erase it
      · exact hc.children_nodup x

theorem mapDeltas_removeStaged_singleton :
    (pool.removeStaged nBytesPerSigOp [it] true).mapDeltas = pool.mapDeltas := by
  rw [removeStaged_singleton_eq_removeUnchecked, mapDeltas_removeUnchecked, updateForRemoveFromMempool_singleton,
    mapDeltas_updateChildrenForRemoval,
    mapDeltas_removeFromAncestors nBytesPerSigOp (lookup_removeFromDescendants_self hc hit),
    mapDeltas_removeFromDescendants]

end Singleton

section Packages

variable (nBytesPerSigOp) {pool : CTxMemPool} {it : uint256}

/-- `RemoveStaged({it}, true)` of an entry that spends no entry of the pool, as
each transaction of a block is when `removeForBlock` reaches it, keeps the
pool consistent. -/
theorem consistent_removeStaged_singleton (hc : pool.Consistent nBytesPerSigOp) (hit : it ∈ pool.mapTx)
    (hno : ∀ p, ¬pool.Spends it p) : (pool.removeStaged nBytesPerSigOp [it] true).Consistent nBytesPerSigOp := by
  obtain ⟨eit, heit⟩ := Option.isSome_iff_exists.mp (AList.lookup_isSome.mpr hit)
  have hr := removesEntry_removeStaged_singleton nBytesPerSigOp hc.toLinksConsistent heit
  have hne : ∀ x e, (pool.removeStaged nBytesPerSigOp [it] true).mapTx.lookup x = some e → x ≠ it :=
    fun x e hx => (hr.mem_iff.mp (AList.lookup_isSome.mp (by rw [hx]; rfl))).1
  refine ⟨linksConsistent_removeStaged_singleton nBytesPerSigOp hc.toLinksConsistent heit, hr.acyclic hc.acyclic,
    fun x e hx => ?_, fun x e hx => ?_, fun x e hx => ?_⟩
  · -- the package updates leave the fee deltas as they were
    rw [mapDeltas_removeStaged_singleton nBytesPerSigOp hc.toLinksConsistent heit]
    have hxit := hne x e hx
    rw [lookup_removeStaged_singleton hc.toLinksConsistent heit, if_neg hxit] at hx
    obtain ⟨e₀, he₀, rfl⟩ := Option.map_eq_some_iff.mp hx
    have := hc.deltas x e₀ he₀
    simp only
    split_ifs <;> exact this
  · rw [hr.ancestorSet_eq hno, hr.sum_sums (Finset.notMem_erase it _)]
    exact (removeStaged_singleton_packages hc hit hx).1
  · rw [hr.descendantSet_eq hno (hne x e hx), hr.sum_sums (Finset.notMem_erase it _)]
    exact (removeStaged_singleton_packages hc hit hx).2

/-- `RemoveStaged({it}, true)` of an entry between an entry `d` and its
ancestor `a`, with every path from `d` to `a` through `it`, leaves the pool
inconsistent: `d` keeps counting `a` among its ancestors. -/
theorem removeStaged_singleton_inconsistent (hc : pool.Consistent nBytesPerSigOp) {d a : uint256}
    (hd : pool.Spends d it) (ha : pool.Spends it a)
    (hsep : ¬ReflTransGen (fun c p => c ≠ it ∧ p ≠ it ∧ pool.Spends c p) d a) :
    ¬(pool.removeStaged nBytesPerSigOp [it] true).Consistent nBytesPerSigOp := by
  intro hc'
  have hit : it ∈ pool.mapTx := hd.mem_right
  obtain ⟨eit, heit⟩ := Option.isSome_iff_exists.mp (AList.lookup_isSome.mpr hit)
  have hr := removesEntry_removeStaged_singleton nBytesPerSigOp hc.toLinksConsistent heit
  have hdit : d ≠ it := fun h => hc.acyclic it (TransGen.single (h ▸ hd))
  have hait : a ≠ it := fun h => hc.acyclic it (TransGen.single (h ▸ ha))
  obtain ⟨e, he⟩ := Option.isSome_iff_exists.mp (AList.lookup_isSome.mpr (hr.mem_iff.mpr ⟨hdit, hd.mem_left⟩))
  -- the ancestor state of `d` counts its old ancestors less `it`, and must count its new ones
  have hold := @fst_sum_sums nBytesPerSigOp pool ((pool.ancestorSet d).erase it)
    fun z hz => (mem_ancestorSet.mp (Finset.mem_of_mem_erase hz)).1
  have hnew := @fst_sum_sums nBytesPerSigOp _ ((pool.removeStaged nBytesPerSigOp [it] true).ancestorSet d)
    fun z hz => (mem_ancestorSet.mp hz).1
  rw [← (removeStaged_singleton_packages hc hit he).1.1, (hc'.ancestors d e he).1, hnew] at hold
  have hsub : (pool.removeStaged nBytesPerSigOp [it] true).ancestorSet d ⊂ (pool.ancestorSet d).erase it := by
    refine Finset.ssubset_iff_of_subset (fun z hz => ?_) |>.mpr ⟨a, ?_, fun ha' => hsep ?_⟩
    · obtain ⟨hzm, hreach⟩ := mem_ancestorSet.mp hz
      obtain ⟨hzit, hz'⟩ := hr.mem_iff.mp hzm
      exact Finset.mem_erase.mpr ⟨hzit, mem_ancestorSet.mpr ⟨hz', hr.reflTransGen_of hreach⟩⟩
    · exact Finset.mem_erase.mpr ⟨hait, mem_ancestorSet.mpr ⟨ha.mem_right, .tail (.single hd) ha⟩⟩
    · exact ReflTransGen.mono (r := (pool.removeStaged nBytesPerSigOp [it] true).Spends)
        (fun _ _ hs => hr.spends_iff.mp hs) _ _ (mem_ancestorSet.mp ha').2
  exact absurd (Nat.cast_injective hold) (Finset.card_lt_card hsub).ne

theorem unspent_of_entries {hash : uint256}
    (h : ∀ s ∈ pool.mapTx.entries, ∀ txin ∈ s.2.tx.vin, txin.prevout.hash ≠ hash) :
    ∀ c e, pool.mapTx.lookup c = some e → ∀ txin ∈ e.tx.vin, txin.prevout.hash ≠ hash :=
  fun c e he => h ⟨c, e⟩ (AList.mem_lookup_iff.mp he)

/-- A transaction with no inputs. -/
def rootTx : CTransaction := ⟨[], [], 1, 0, 0, []⟩

/-- A transaction spending the first output of `h`. -/
def spendingTx (h : uint256) : CTransaction := ⟨[⟨⟨h, 0⟩, [], 0, []⟩], [], 1, 0, 0, []⟩

/-- Three entries added as `AcceptToMemoryPool` adds them: `3` spends `2`, which spends `1`. -/
def chainPool : CTxMemPool :=
  ((empty.addUnchecked 0 1 (make 0 rootTx 0 0 0 false 0) []).addUnchecked 0 2
    (make 0 (spendingTx 1) 0 0 0 false 0) [1]).addUnchecked 0 3 (make 0 (spendingTx 2) 0 0 0 false 0) [1, 2]

theorem removeStaged_singleton_inconsistent_chain :
    chainPool.Consistent 0 ∧ chainPool.Spends 3 2 ∧ chainPool.Spends 2 1 ∧
      ¬ReflTransGen (fun c p => c ≠ 2 ∧ p ≠ 2 ∧ chainPool.Spends c p) 3 1 ∧
      ¬(chainPool.removeStaged 0 [2] true).Consistent 0 := by
  have h₁ := addUnchecked_consistent 0 (consistent_empty 0) (by decide) (unspent_of_entries (by decide)) (by decide)
    (by decide : empty.calculateMemPoolAncestors 0 1 (make 0 rootTx 0 0 0 false 0) noLimits true = ([], none))
  have h₂ := addUnchecked_consistent 0 h₁ (by decide) (unspent_of_entries (by decide)) (by decide)
    (by decide : (empty.addUnchecked 0 1 (make 0 rootTx 0 0 0 false 0) []).calculateMemPoolAncestors 0 2
      (make 0 (spendingTx 1) 0 0 0 false 0) noLimits true = ([1], none))
  have hc := addUnchecked_consistent 0 h₂ (by decide) (unspent_of_entries (by decide)) (by decide)
    (by decide : ((empty.addUnchecked 0 1 (make 0 rootTx 0 0 0 false 0) []).addUnchecked 0 2
      (make 0 (spendingTx 1) 0 0 0 false 0) [1]).calculateMemPoolAncestors 0 3
      (make 0 (spendingTx 2) 0 0 0 false 0) noLimits true = ([1, 2], none))
  have hd : chainPool.Spends 3 2 := by decide
  have ha : chainPool.Spends 2 1 := by decide
  -- the only entry `3` spends is the one removed
  have hsep : ¬ReflTransGen (fun c p => c ≠ 2 ∧ p ≠ 2 ∧ chainPool.Spends c p) 3 1 := by
    have htx : (chainPool.mapTx.lookup 3).map CTxMemPoolEntry.tx = some (spendingTx 2) := by decide
    intro h
    rcases ReflTransGen.cases_head_iff.mp h with h | ⟨b, ⟨-, hb, hspend⟩, -⟩
    · exact absurd h (by decide)
    · rw [spends_iff_map_tx, htx] at hspend
      obtain ⟨-, t, ht, txin, htxin, rfl⟩ := hspend
      cases ht
      simp only [spendingTx, List.mem_singleton] at htxin
      exact hb (by rw [htxin])
  exact ⟨hc, hd, ha, hsep, removeStaged_singleton_inconsistent 0 hc hd ha hsep⟩

end Packages

end CTxMemPool
end Packages
end AokChain
