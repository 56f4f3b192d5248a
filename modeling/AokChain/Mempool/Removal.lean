import AokChain.Mempool.Consistency

/-!
# Removing one entry with its packages updated

`removeForBlock` removes each transaction of the block, and then each pool
transaction issuing a token the block issues, by `RemoveStaged({it}, true)`:
the entry's size, fee and sigop cost leave the ancestor state of its
descendants and the descendant state of its ancestors, its links are cut and
it leaves the pool.  Each entry left then keeps as its packages its old
ancestors and descendants, less the entry removed.
-/

namespace AokChain
namespace Packages

open Relation

namespace CTxMemPoolEntry

variable (nBytesPerSigOp : ℕ)

/-- The entry `eit` leaves the ancestor package of `e`, as
`UpdateForRemoveFromMempool` has it for each descendant. -/
def leaveAncestors (eit e : CTxMemPoolEntry) : CTxMemPoolEntry :=
  e.updateAncestorState (-(eit.getTxSize nBytesPerSigOp : ℤ)) (-eit.getModifiedFee) (-1) (-(eit.sigOpCost : ℤ))

/-- What `UpdateAncestorsOf(add, ...)` does for the entry `eit` to each of its
ancestors `e`: `eit` joins, or leaves, the descendant package of `e`. -/
def updateForAncestor (add : Bool) (eit e : CTxMemPoolEntry) : CTxMemPoolEntry :=
  let updateCount : ℤ := if add then 1 else -1
  e.updateDescendantState (updateCount * eit.getTxSize nBytesPerSigOp) ((if add then 1 else -1) * eit.getModifiedFee)
    updateCount

variable {nBytesPerSigOp}

section Entry

variable {eit e : CTxMemPoolEntry} {s : Sums}

@[simp] theorem base_leaveAncestors :
    (leaveAncestors nBytesPerSigOp eit e).base nBytesPerSigOp = e.base nBytesPerSigOp := rfl

@[simp] theorem base_updateForAncestor {add : Bool} :
    (updateForAncestor nBytesPerSigOp add eit e).base nBytesPerSigOp = e.base nBytesPerSigOp := rfl

theorem HoldsAncestors.leave (h : e.HoldsAncestors s) :
    (leaveAncestors nBytesPerSigOp eit e).HoldsAncestors (s - eit.ownSums nBytesPerSigOp) := by
  have hfee : -eit.getModifiedFee = Int64.ofInt (-eit.getModifiedFee.toInt) := by
    rw [Int64.ofInt_neg, Int64.ofInt_toInt]
  have hupd := h.update (-(eit.getTxSize nBytesPerSigOp : ℤ)) (-eit.getModifiedFee.toInt) (-1) (-(eit.sigOpCost : ℤ))
  rw [← hfee] at hupd
  simpa [leaveAncestors, sub_eq_add_neg, ownSums] using hupd

theorem HoldsDescendants.updateForAncestor (h : e.HoldsDescendants s) (add : Bool) :
    (updateForAncestor nBytesPerSigOp add eit e).HoldsDescendants
      (if add then s + eit.ownSums nBytesPerSigOp else s - eit.ownSums nBytesPerSigOp) := by
  cases add with
  | true =>
    have hupd := h.update (eit.getTxSize nBytesPerSigOp : ℤ) eit.getModifiedFee.toInt 1 (eit.sigOpCost : ℤ)
    rw [Int64.ofInt_toInt] at hupd
    simpa [CTxMemPoolEntry.updateForAncestor, ownSums, Int64.one_mul] using hupd
  | false =>
    have hfee : -1 * eit.getModifiedFee = Int64.ofInt (-eit.getModifiedFee.toInt) := by
      rw [Int64.ofInt_neg, Int64.ofInt_toInt, Int64.neg_mul, Int64.one_mul]
    have hupd := h.update (-(eit.getTxSize nBytesPerSigOp : ℤ)) (-eit.getModifiedFee.toInt) (-1) (-(eit.sigOpCost : ℤ))
    rw [← hfee] at hupd
    simpa [CTxMemPoolEntry.updateForAncestor, sub_eq_add_neg, ownSums] using hupd

end Entry

end CTxMemPoolEntry

namespace CTxMemPool

open CTxMemPoolEntry

variable {nBytesPerSigOp : ℕ}

section Steps

variable (nBytesPerSigOp) {pool : CTxMemPool} {it : uint256} {eit : CTxMemPoolEntry}

theorem removeFromDescendants_eq (hit : pool.mapTx.lookup it = some eit) :
    pool.removeFromDescendants nBytesPerSigOp it =
      (eraseEntry it (pool.calculateDescendants it [])).foldl
        (fun pool dit => pool.modifyEntry dit (leaveAncestors nBytesPerSigOp eit)) pool := by
  simp only [removeFromDescendants, hit]
  rfl

theorem removeFromAncestors_eq (hit : pool.mapTx.lookup it = some eit) :
    pool.removeFromAncestors nBytesPerSigOp it =
      pool.updateAncestorsOf nBytesPerSigOp false it (pool.calculateMemPoolAncestors nBytesPerSigOp it eit noLimits false).1 := by
  simp only [removeFromAncestors, hit]

theorem mapTx_foldl_updateChild (ps : setEntries) (add : Bool) :
    (ps.foldl (fun pool piter => pool.updateChild piter it add) pool).mapTx = pool.mapTx :=
  foldl_keeps (g := fun pool piter => pool.updateChild piter it add) (·.mapTx) (fun _ _ => rfl) ps pool

theorem updateAncestorsOf_eq (hit : pool.mapTx.lookup it = some eit) (add : Bool) (setAncestors : setEntries) :
    pool.updateAncestorsOf nBytesPerSigOp add it setAncestors =
      setAncestors.foldl (fun pool a => pool.modifyEntry a (updateForAncestor nBytesPerSigOp add eit))
        ((pool.getMemPoolParents it).foldl (fun pool piter => pool.updateChild piter it add) pool) := by
  simp only [updateAncestorsOf, mapTx_foldl_updateChild, hit]
  rfl

theorem lookup_updateAncestorsOf (hit : pool.mapTx.lookup it = some eit) (add : Bool) {setAncestors : setEntries}
    (hA : setAncestors.Nodup) (y : uint256) :
    (pool.updateAncestorsOf nBytesPerSigOp add it setAncestors).mapTx.lookup y =
      if y ∈ setAncestors then (pool.mapTx.lookup y).map (updateForAncestor nBytesPerSigOp add eit)
      else pool.mapTx.lookup y := by
  rw [updateAncestorsOf_eq nBytesPerSigOp hit, lookup_foldl_modifyEntry _ hA, mapTx_foldl_updateChild]

theorem getMemPoolParents_updateAncestorsOf (hit : pool.mapTx.lookup it = some eit) (add : Bool)
    (setAncestors : setEntries) (z : uint256) :
    (pool.updateAncestorsOf nBytesPerSigOp add it setAncestors).getMemPoolParents z = pool.getMemPoolParents z := by
  rw [updateAncestorsOf_eq nBytesPerSigOp hit]
  unfold getMemPoolParents links
  rw [mapLinks_foldl_modifyEntry]
  exact foldl_keeps (g := fun pool piter => pool.updateChild piter it add) (·.getMemPoolParents z)
    (fun _ _ => getMemPoolParents_updateChild) _ pool

/-- `UpdateAncestorsOf` makes the entry a child, or no child, of each of its parents. -/
theorem getMemPoolChildren_updateAncestorsOf (hit : pool.mapTx.lookup it = some eit) (add : Bool)
    (hps : (pool.getMemPoolParents it).Nodup) (setAncestors : setEntries) (z : uint256) :
    (pool.updateAncestorsOf nBytesPerSigOp add it setAncestors).getMemPoolChildren z =
      if z ∈ pool.getMemPoolParents it then
        (if add then insertEntry it (pool.getMemPoolChildren z) else eraseEntry it (pool.getMemPoolChildren z))
      else pool.getMemPoolChildren z := by
  rw [updateAncestorsOf_eq nBytesPerSigOp hit]
  unfold getMemPoolChildren links
  rw [mapLinks_foldl_modifyEntry]
  exact getMemPoolChildren_foldl_updateChild hps it add pool z

theorem mem_mapLinks_updateAncestorsOf (hit : pool.mapTx.lookup it = some eit) (add : Bool)
    (hps : ∀ p ∈ pool.getMemPoolParents it, p ∈ pool.mapLinks) (setAncestors : setEntries) (z : uint256) :
    z ∈ (pool.updateAncestorsOf nBytesPerSigOp add it setAncestors).mapLinks ↔ z ∈ pool.mapLinks := by
  rw [updateAncestorsOf_eq nBytesPerSigOp hit, mapLinks_foldl_modifyEntry]
  -- each step writes the links of a parent, which are there already
  exact mem_mapLinks_foldl id (fun _ _ hp _ => mem_mapLinks_updateChild_of_mem hp) _ pool hps z

theorem mapDeltas_updateAncestorsOf (hit : pool.mapTx.lookup it = some eit) (add : Bool)
    (setAncestors : setEntries) :
    (pool.updateAncestorsOf nBytesPerSigOp add it setAncestors).mapDeltas = pool.mapDeltas := by
  rw [updateAncestorsOf_eq nBytesPerSigOp hit, mapDeltas_foldl_modifyEntry]
  exact foldl_keeps (g := fun pool piter => pool.updateChild piter it add) (·.mapDeltas) (fun _ _ => rfl) _ pool

@[simp] theorem mapTx_updateChildrenForRemoval : (pool.updateChildrenForRemoval it).mapTx = pool.mapTx :=
  foldl_keeps (g := fun pool updateIt => pool.updateParent updateIt it false) (·.mapTx) (fun _ _ => rfl) _ pool

theorem lookup_removeUnchecked (y : uint256) :
    (pool.removeUnchecked it).mapTx.lookup y = if y = it then none else pool.mapTx.lookup y := by
  unfold removeUnchecked
  cases hlk : pool.mapTx.lookup it with
  | none =>
    by_cases hy : y = it
    · subst hy
      simp [hlk]
    · simp [hy]
  | some e =>
    by_cases hy : y = it
    · subst hy
      simp
    · simp [hy, AList.lookup_erase_ne hy]

theorem removeStaged_singleton :
    pool.removeStaged nBytesPerSigOp [it] true =
      (((pool.removeFromDescendants nBytesPerSigOp it).removeFromAncestors nBytesPerSigOp it).updateChildrenForRemoval
        it).removeUnchecked it := rfl

end Steps

section Singleton

variable {pool : CTxMemPool} {it : uint256} {eit : CTxMemPoolEntry}

/-- Where `it` is in a package `S` of an entry, it leaves it. -/
theorem sum_erase_sums (hit : pool.mapTx.lookup it = some eit) (S : Finset uint256) :
    ∑ z ∈ S.erase it, pool.sums nBytesPerSigOp z =
      if it ∈ S then ∑ z ∈ S, pool.sums nBytesPerSigOp z - eit.ownSums nBytesPerSigOp
      else ∑ z ∈ S, pool.sums nBytesPerSigOp z := by
  split
  · rename_i hS
    rw [← Finset.sum_erase_add S _ hS, sums_of_lookup nBytesPerSigOp hit, add_sub_cancel_right]
  · rw [Finset.erase_eq_of_notMem ‹_›]

/-- The descendants' update leaves `it` itself as it was. -/
theorem lookup_removeFromDescendants_self (hc : pool.LinksConsistent) (hit : pool.mapTx.lookup it = some eit) :
    (pool.removeFromDescendants nBytesPerSigOp it).mapTx.lookup it = some eit := by
  have hitmem : it ∈ pool.mapTx := AList.lookup_isSome.mp (by rw [hit]; rfl)
  obtain ⟨hDnodup, -⟩ := hc.mem_calculateDescendants hitmem
  rw [removeFromDescendants_eq nBytesPerSigOp hit,
    lookup_foldl_modifyEntry _ (S := eraseEntry it (pool.calculateDescendants it [])) (hDnodup.erase it),
    if_neg fun h => ((mem_eraseEntry hDnodup).mp h).1 rfl, hit]

/-- What `RemoveStaged({it}, true)` does to each entry: `it` leaves the pool,
and leaves the ancestor state of each descendant and the descendant state of
each ancestor. -/
theorem lookup_removeStaged_singleton (hc : pool.LinksConsistent) (hit : pool.mapTx.lookup it = some eit)
    (y : uint256) :
    (pool.removeStaged nBytesPerSigOp [it] true).mapTx.lookup y =
      if y = it then none else (pool.mapTx.lookup y).map fun e =>
        let e := if it ∈ pool.ancestorSet y then leaveAncestors nBytesPerSigOp eit e else e
        if it ∈ pool.descendantSet y then updateForAncestor nBytesPerSigOp false eit e else e := by
  have hitmem : it ∈ pool.mapTx := AList.lookup_isSome.mp (by rw [hit]; rfl)
  -- the descendants' ancestor state first
  obtain ⟨hDnodup, hDmem⟩ := hc.mem_calculateDescendants hitmem
  have hD : ∀ z, z ≠ it → (z ∈ eraseEntry it (pool.calculateDescendants it []) ↔ it ∈ pool.ancestorSet z) := by
    intro z hz
    rw [mem_eraseEntry hDnodup, hDmem, mem_ancestorSet]
    exact ⟨fun h => ⟨hitmem, h.2⟩, fun h => ⟨hz, h.2⟩⟩
  have hP1 := removeFromDescendants_eq nBytesPerSigOp hit
  have hsame1 : pool.SameEntries nBytesPerSigOp (pool.removeFromDescendants nBytesPerSigOp it) :=
    hP1 ▸ sameEntries_foldl_modifyEntry (f := leaveAncestors nBytesPerSigOp eit) (fun _ => rfl) (hDnodup.erase it)
  have hc1 : (pool.removeFromDescendants nBytesPerSigOp it).LinksConsistent :=
    hc.of_sameEntries hsame1 (by rw [hP1]; simp)
  have hlookup1 := lookup_foldl_modifyEntry (leaveAncestors nBytesPerSigOp eit)
    (S := eraseEntry it (pool.calculateDescendants it [])) (hDnodup.erase it) pool
  rw [← hP1] at hlookup1
  have hit1 : (pool.removeFromDescendants nBytesPerSigOp it).mapTx.lookup it = some eit :=
    lookup_removeFromDescendants_self hc hit
  -- then the ancestors' descendant state, over the ancestors the links give
  obtain ⟨hAnodup, hAmem⟩ := hc1.mem_calculateMemPoolAncestors nBytesPerSigOp
    (Prod.ext rfl (@calculateMemPoolAncestors_noLimits nBytesPerSigOp (pool.removeFromDescendants nBytesPerSigOp it) it
      eit false))
  have hA : ∀ z, z ≠ it → (z ∈ ((pool.removeFromDescendants nBytesPerSigOp it).calculateMemPoolAncestors
      nBytesPerSigOp it eit noLimits false).1 ↔ it ∈ pool.descendantSet z) := by
    intro z hz
    rw [hAmem, hsame1.spends_eq, mem_descendantSet, ← reflTransGen_iff_eq_or_transGen.trans (or_iff_right hz)]
    exact ⟨fun h => ⟨hitmem, h⟩, fun h => h.2⟩
  have hlookup2 := lookup_foldl_modifyEntry (updateForAncestor nBytesPerSigOp false eit) hAnodup
  rw [removeStaged_singleton, lookup_removeUnchecked, mapTx_updateChildrenForRemoval, removeFromAncestors_eq _ hit1,
    updateAncestorsOf_eq _ hit1, hlookup2, mapTx_foldl_updateChild, hlookup1]
  by_cases hy : y = it
  · simp [hy]
  · rw [if_neg hy, if_neg hy]
    simp only [hD y hy, hA y hy]
    cases pool.mapTx.lookup y <;> split_ifs <;> rfl

/-- `RemoveStaged({it}, true)`: each entry left keeps as its packages its
ancestors and its descendants in the pool before, less `it`. -/
theorem removeStaged_singleton_packages (hc : pool.Consistent nBytesPerSigOp) (hit : it ∈ pool.mapTx) {y : uint256}
    {e' : CTxMemPoolEntry} (hy : (pool.removeStaged nBytesPerSigOp [it] true).mapTx.lookup y = some e') :
    e'.HoldsAncestors (∑ z ∈ (pool.ancestorSet y).erase it, pool.sums nBytesPerSigOp z) ∧
      e'.HoldsDescendants (∑ z ∈ (pool.descendantSet y).erase it, pool.sums nBytesPerSigOp z) := by
  obtain ⟨eit, heit⟩ := Option.isSome_iff_exists.mp (AList.lookup_isSome.mpr hit)
  rw [lookup_removeStaged_singleton hc.toLinksConsistent heit] at hy
  by_cases hyit : y = it
  · rw [if_pos hyit] at hy
    cases hy
  rw [if_neg hyit] at hy
  obtain ⟨e, he, rfl⟩ := Option.map_eq_some_iff.mp hy
  rw [sum_erase_sums heit, sum_erase_sums heit]
  have hanc : e.HoldsAncestors (∑ z ∈ pool.ancestorSet y, pool.sums nBytesPerSigOp z) := hc.ancestors y e he
  have hdesc : e.HoldsDescendants (∑ z ∈ pool.descendantSet y, pool.sums nBytesPerSigOp z) := hc.descendants y e he
  -- the first update changes the ancestor state only, the second the descendant state only
  by_cases ha : it ∈ pool.ancestorSet y <;> by_cases hd : it ∈ pool.descendantSet y <;>
    simp only [ha, hd, if_true, if_false]
  · exact ⟨hanc.leave, (show (leaveAncestors nBytesPerSigOp eit e).HoldsDescendants _ from hdesc).updateForAncestor false⟩
  · exact ⟨hanc.leave, hdesc⟩
  · exact ⟨hanc, hdesc.updateForAncestor false⟩
  · exact ⟨hanc, hdesc⟩

end Singleton

end CTxMemPool
end Packages
end AokChain
