import AokChain.Mempool.PackageSearch
import AokChain.Lib.KeyedFold

/-!
# What the pool's updates change

Each update of `txmempool.cpp` touches one part of the pool: `mapTx.modify`
one entry, `UpdateChild` and `UpdateParent` the links of one entry,
`removeUnchecked` one entry and its links.  These are the frame lemmas the
package proofs cite in place of the definitions; the loops over a set of
entries are instances of `KeyedFold.get_foldl`.
-/

namespace AokChain
namespace Packages
namespace CTxMemPool

open KeyedFold

/-- A loop of updates that each keep a part of the pool keeps it. -/
theorem foldl_keeps {α β : Type} {g : CTxMemPool → α → CTxMemPool} (F : CTxMemPool → β)
    (hg : ∀ p a, F (g p a) = F p) : ∀ (l : List α) (pool : CTxMemPool), F (l.foldl g pool) = F pool
  | [], _ => rfl
  | a :: l, pool => by rw [List.foldl_cons, foldl_keeps F hg l, hg]

section ModifyEntry

variable {pool : CTxMemPool} {y z : uint256} {f : CTxMemPoolEntry → CTxMemPoolEntry}

theorem lookup_modifyEntry :
    (pool.modifyEntry y f).mapTx.lookup z = if z = y then (pool.mapTx.lookup z).map f else pool.mapTx.lookup z := by
  unfold modifyEntry
  split
  · rename_i e he
    by_cases hz : z = y
    · subst hz
      rw [AList.lookup_insert, if_pos rfl, he, Option.map_some]
    · rw [AList.lookup_insert_ne hz, if_neg hz]
  · rename_i he
    by_cases hz : z = y
    · subst hz
      rw [if_pos rfl, he, Option.map_none]
    · rw [if_neg hz]

@[simp] theorem mem_modifyEntry : z ∈ (pool.modifyEntry y f).mapTx ↔ z ∈ pool.mapTx := by
  rw [← AList.lookup_isSome, ← AList.lookup_isSome, lookup_modifyEntry]
  split <;> simp

@[simp] theorem mapLinks_modifyEntry : (pool.modifyEntry y f).mapLinks = pool.mapLinks := by
  unfold modifyEntry
  split <;> rfl

@[simp] theorem mapDeltas_modifyEntry : (pool.modifyEntry y f).mapDeltas = pool.mapDeltas := by
  unfold modifyEntry
  split <;> rfl

@[simp] theorem getMemPoolParents_modifyEntry : (pool.modifyEntry y f).getMemPoolParents z = pool.getMemPoolParents z := by
  rw [getMemPoolParents, links, mapLinks_modifyEntry, getMemPoolParents, links]

@[simp] theorem getMemPoolChildren_modifyEntry :
    (pool.modifyEntry y f).getMemPoolChildren z = pool.getMemPoolChildren z := by
  rw [getMemPoolChildren, links, mapLinks_modifyEntry, getMemPoolChildren, links]

theorem modifyEntry_actsOn (f : CTxMemPoolEntry → CTxMemPoolEntry) :
    ActsOn (fun (p : CTxMemPool) k => p.mapTx.lookup k) (Option.map f) (fun p k => p.modifyEntry k f) :=
  fun _ _ => ⟨by simp [lookup_modifyEntry], fun _ hj => by simp [lookup_modifyEntry, hj]⟩

/-- `mapTx.modify` over a set of entries. -/
theorem lookup_foldl_modifyEntry (f : CTxMemPoolEntry → CTxMemPoolEntry) {S : setEntries} (hS : S.Nodup)
    (pool : CTxMemPool) (z : uint256) :
    (S.foldl (fun pool y => pool.modifyEntry y f) pool).mapTx.lookup z =
      if z ∈ S then (pool.mapTx.lookup z).map f else pool.mapTx.lookup z :=
  get_foldl (modifyEntry_actsOn f) S pool hS z

@[simp] theorem mem_foldl_modifyEntry {S : setEntries} :
    z ∈ (S.foldl (fun pool y => pool.modifyEntry y f) pool).mapTx ↔ z ∈ pool.mapTx :=
  Iff.of_eq (foldl_keeps (fun p : CTxMemPool => z ∈ p.mapTx) (fun _ _ => propext mem_modifyEntry) S pool)

@[simp] theorem mapLinks_foldl_modifyEntry {S : setEntries} :
    (S.foldl (fun pool y => pool.modifyEntry y f) pool).mapLinks = pool.mapLinks :=
  foldl_keeps _ (fun _ _ => mapLinks_modifyEntry) S pool

@[simp] theorem mapDeltas_foldl_modifyEntry {S : setEntries} :
    (S.foldl (fun pool y => pool.modifyEntry y f) pool).mapDeltas = pool.mapDeltas :=
  foldl_keeps _ (fun _ _ => mapDeltas_modifyEntry) S pool

end ModifyEntry

section Links

variable {pool : CTxMemPool} {e c z : uint256} {add : Bool}

theorem links_of_not_mem (hz : z ∉ pool.mapLinks) : pool.links z = ⟨[], []⟩ := by
  rw [links, Finmap.lookup_eq_none.mpr hz, Option.getD_none]

@[simp] theorem mapTx_updateChild : (pool.updateChild e c add).mapTx = pool.mapTx := rfl
@[simp] theorem mapDeltas_updateChild : (pool.updateChild e c add).mapDeltas = pool.mapDeltas := rfl
@[simp] theorem mapTx_updateParent : (pool.updateParent e c add).mapTx = pool.mapTx := rfl
@[simp] theorem mapDeltas_updateParent : (pool.updateParent e c add).mapDeltas = pool.mapDeltas := rfl

theorem mem_mapLinks_updateChild : z ∈ (pool.updateChild e c add).mapLinks ↔ z = e ∨ z ∈ pool.mapLinks :=
  Finmap.mem_insert

theorem mem_mapLinks_updateParent : z ∈ (pool.updateParent e c add).mapLinks ↔ z = e ∨ z ∈ pool.mapLinks :=
  Finmap.mem_insert

theorem mem_mapLinks_updateChild_of_mem (he : e ∈ pool.mapLinks) :
    z ∈ (pool.updateChild e c add).mapLinks ↔ z ∈ pool.mapLinks :=
  mem_mapLinks_updateChild.trans ⟨fun h => h.elim (fun h => h ▸ he) id, .inr⟩

theorem mem_mapLinks_updateParent_of_mem (he : e ∈ pool.mapLinks) :
    z ∈ (pool.updateParent e c add).mapLinks ↔ z ∈ pool.mapLinks :=
  mem_mapLinks_updateParent.trans ⟨fun h => h.elim (fun h => h ▸ he) id, .inr⟩

/-- A loop whose steps each write the links of an entry the pool has links
for keeps the keys of `mapLinks`. -/
theorem mem_mapLinks_foldl {α : Type} {g : CTxMemPool → α → CTxMemPool} (key : α → uint256)
    (hg : ∀ p a, key a ∈ p.mapLinks → ∀ w, (w ∈ (g p a).mapLinks ↔ w ∈ p.mapLinks)) :
    ∀ (l : List α) (pool : CTxMemPool), (∀ a ∈ l, key a ∈ pool.mapLinks) → ∀ z,
      (z ∈ (l.foldl g pool).mapLinks ↔ z ∈ pool.mapLinks)
  | [], _, _, _ => Iff.rfl
  | a :: l, pool, hl, z => by
    have hstep := hg pool a (hl a List.mem_cons_self)
    rw [List.foldl_cons, mem_mapLinks_foldl key hg l _ fun b hb => (hstep _).mpr (hl b (List.mem_cons_of_mem a hb)),
      hstep]

theorem links_updateChild :
    (pool.updateChild e c add).links z = if z = e then
      { pool.links e with children :=
        if add then insertEntry c (pool.links e).children else eraseEntry c (pool.links e).children }
    else pool.links z := by
  by_cases hz : z = e
  · subst hz
    rw [if_pos rfl, links, updateChild, Finmap.lookup_insert, Option.getD_some]
  · rw [if_neg hz, links, updateChild, Finmap.lookup_insert_of_ne _ hz, links]

theorem links_updateParent :
    (pool.updateParent e c add).links z = if z = e then
      { pool.links e with parents :=
        if add then insertEntry c (pool.links e).parents else eraseEntry c (pool.links e).parents }
    else pool.links z := by
  by_cases hz : z = e
  · subst hz
    rw [if_pos rfl, links, updateParent, Finmap.lookup_insert, Option.getD_some]
  · rw [if_neg hz, links, updateParent, Finmap.lookup_insert_of_ne _ hz, links]

theorem getMemPoolParents_updateParent :
    (pool.updateParent e c add).getMemPoolParents z = if z = e then
      (if add then insertEntry c (pool.getMemPoolParents e) else eraseEntry c (pool.getMemPoolParents e))
    else pool.getMemPoolParents z := by
  unfold getMemPoolParents
  rw [links_updateParent]
  split <;> rfl

theorem getMemPoolChildren_updateChild :
    (pool.updateChild e c add).getMemPoolChildren z = if z = e then
      (if add then insertEntry c (pool.getMemPoolChildren e) else eraseEntry c (pool.getMemPoolChildren e))
    else pool.getMemPoolChildren z := by
  unfold getMemPoolChildren
  rw [links_updateChild]
  split <;> rfl

@[simp] theorem getMemPoolParents_updateChild :
    (pool.updateChild e c add).getMemPoolParents z = pool.getMemPoolParents z := by
  unfold getMemPoolParents
  rw [links_updateChild]
  split <;> simp_all

@[simp] theorem getMemPoolChildren_updateParent :
    (pool.updateParent e c add).getMemPoolChildren z = pool.getMemPoolChildren z := by
  unfold getMemPoolChildren
  rw [links_updateParent]
  split <;> simp_all

/-- The loop of `UpdateAncestorsOf` over the parents: the entry joins, or
leaves, the children of each. -/
theorem getMemPoolChildren_foldl_updateChild {ps : setEntries} (hps : ps.Nodup) (it : uint256) (add : Bool)
    (pool : CTxMemPool) (z : uint256) :
    (ps.foldl (fun pool piter => pool.updateChild piter it add) pool).getMemPoolChildren z =
      if z ∈ ps then (if add then insertEntry it (pool.getMemPoolChildren z) else eraseEntry it (pool.getMemPoolChildren z))
      else pool.getMemPoolChildren z := by
  have hacts : ActsOn (fun (p : CTxMemPool) k => p.getMemPoolChildren k)
      (fun s => if add then insertEntry it s else eraseEntry it s) (fun p k => p.updateChild k it add) :=
    fun p k => ⟨by simp [getMemPoolChildren, links_updateChild],
      fun j hj => by simp [getMemPoolChildren, links_updateChild, hj]⟩
  exact get_foldl hacts ps pool hps z

/-- The loop of `UpdateChildrenForRemoval`: the entry leaves the parents of
each of its children. -/
theorem getMemPoolParents_foldl_updateParent {cs : setEntries} (hcs : cs.Nodup) (it : uint256)
    (pool : CTxMemPool) (z : uint256) :
    (cs.foldl (fun pool updateIt => pool.updateParent updateIt it false) pool).getMemPoolParents z =
      if z ∈ cs then eraseEntry it (pool.getMemPoolParents z) else pool.getMemPoolParents z := by
  have hacts : ActsOn (fun (p : CTxMemPool) k => p.getMemPoolParents k) (eraseEntry it)
      (fun p k => p.updateParent k it false) :=
    fun p k => ⟨by simp [getMemPoolParents, links_updateParent],
      fun j hj => by simp [getMemPoolParents, links_updateParent, hj]⟩
  exact get_foldl hacts cs pool hcs z

end Links

end CTxMemPool
end Packages
end AokChain
