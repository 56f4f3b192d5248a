import AokChain.Mempool.Consistency

/-!
# `PrioritiseTransaction` keeps the packages consistent

`prioritisetransaction` adds a delta to the one `mapDeltas` keeps for a hash.
Where the pool holds the entry, its modified fee moves by the delta, and so
does the descendant state of each of its ancestors and the ancestor state of
each of its descendants: those are exactly the packages that hold the entry.
On a consistent pool the pool it leaves is consistent.
-/

namespace AokChain
namespace Packages

open Relation

namespace CTxMemPoolEntry

variable {nBytesPerSigOp : ℕ} {e : CTxMemPoolEntry} {s : Sums}

/-- How far a new fee delta moves the entry's modified fee, exactly. -/
def feeChange (e : CTxMemPoolEntry) (delta : CAmount) : ℤ := (e.nFee + delta).toInt - e.getModifiedFee.toInt

theorem ownSums_updateFeeDelta (delta : CAmount) :
    (e.updateFeeDelta delta).ownSums nBytesPerSigOp = e.ownSums nBytesPerSigOp + (0, 0, e.feeChange delta, 0) := by
  simp [ownSums, feeChange, updateFeeDelta, getModifiedFee, getTxSize]

/-- The machine fee moves by the delta less the old one, whatever the wrap. -/
theorem ofInt_feeChange (delta : CAmount) : Int64.ofInt (e.feeChange delta) = delta - e.feeDelta := by
  rw [feeChange, Int64.ofInt_sub, Int64.ofInt_toInt, Int64.ofInt_toInt, getModifiedFee]
  grind

theorem HoldsAncestors.updateFeeDelta (h : e.HoldsAncestors s) (delta : CAmount) :
    (e.updateFeeDelta delta).HoldsAncestors (s + (0, 0, e.feeChange delta, 0)) := by
  obtain ⟨h₁, h₂, h₃, h₄⟩ := h
  refine ⟨by simp [CTxMemPoolEntry.updateFeeDelta, h₁], by simp [CTxMemPoolEntry.updateFeeDelta, h₂], ?_,
    by simp [CTxMemPoolEntry.updateFeeDelta, h₄]⟩
  simp only [CTxMemPoolEntry.updateFeeDelta, h₃, Prod.snd_add, Prod.fst_add, Int64.ofInt_add, ofInt_feeChange]

theorem HoldsDescendants.updateFeeDelta (h : e.HoldsDescendants s) (delta : CAmount) :
    (e.updateFeeDelta delta).HoldsDescendants (s + (0, 0, e.feeChange delta, 0)) := by
  obtain ⟨h₁, h₂, h₃⟩ := h
  refine ⟨by simp [CTxMemPoolEntry.updateFeeDelta, h₁], by simp [CTxMemPoolEntry.updateFeeDelta, h₂], ?_⟩
  simp only [CTxMemPoolEntry.updateFeeDelta, h₃, Prod.snd_add, Prod.fst_add, Int64.ofInt_add, ofInt_feeChange]

end CTxMemPoolEntry

namespace CTxMemPool

open CTxMemPoolEntry

section Prioritise

variable (nBytesPerSigOp : ℕ) {pool : CTxMemPool} {hash : uint256} (nFeeDelta : CAmount)

/-- Where the pool does not hold the entry, only its delta changes. -/
theorem prioritiseTransaction_of_none (he : pool.mapTx.lookup hash = none) :
    pool.prioritiseTransaction nBytesPerSigOp hash nFeeDelta =
      { pool with mapDeltas := pool.mapDeltas.insert hash ((pool.mapDeltas.lookup hash).getD 0 + nFeeDelta) } := by
  simp only [prioritiseTransaction, he]

/-- What `PrioritiseTransaction` does to each entry: the entry takes the new
delta, and the descendant state of its ancestors and the ancestor state of its
descendants move by `nFeeDelta`. -/
theorem lookup_prioritiseTransaction (hc : pool.LinksConsistent) (hac : ∀ x, ¬TransGen pool.Spends x x)
    {e : CTxMemPoolEntry} (he : pool.mapTx.lookup hash = some e) (y : uint256) :
    (pool.prioritiseTransaction nBytesPerSigOp hash nFeeDelta).mapTx.lookup y =
      (pool.mapTx.lookup y).map fun ey =>
        if y = hash then ey.updateFeeDelta ((pool.mapDeltas.lookup hash).getD 0 + nFeeDelta)
        else if y ∈ pool.ancestorSet hash then ey.updateDescendantState 0 nFeeDelta 0
        else if y ∈ pool.descendantSet hash then ey.updateAncestorState 0 nFeeDelta 0 0
        else ey := by
  have hhash : hash ∈ pool.mapTx := AList.lookup_isSome.mp (by rw [he]; rfl)
  simp only [prioritiseTransaction, he]
  set delta := (pool.mapDeltas.lookup hash).getD 0 + nFeeDelta
  set pool₁ := ({ pool with mapDeltas := pool.mapDeltas.insert hash delta } : CTxMemPool).modifyEntry hash
    (fun x => x.updateFeeDelta delta) with hpool₁
  set A := (pool₁.calculateMemPoolAncestors nBytesPerSigOp hash e noLimits false).1 with hA
  set pool₂ := A.foldl (fun pool ancestorIt =>
    pool.modifyEntry ancestorIt fun x => x.updateDescendantState 0 nFeeDelta 0) pool₁ with hpool₂
  -- the entry's own update, which keeps its transaction and the links
  have hlookup₁ : ∀ z, pool₁.mapTx.lookup z =
      if z = hash then (pool.mapTx.lookup z).map (·.updateFeeDelta delta) else pool.mapTx.lookup z :=
    fun z => by rw [hpool₁, lookup_modifyEntry]
  have hsame₁ : pool.SameTxs pool₁ := fun z => by
    rw [hlookup₁ z]
    split
    · rw [Option.map_map]
      rfl
    · rfl
  have hc₁ : pool₁.LinksConsistent := hc.of_sameTxs hsame₁ (by rw [hpool₁, mapLinks_modifyEntry])
  -- the ancestors found through the links
  obtain ⟨hAnodup, hAmem⟩ := hc₁.mem_calculateMemPoolAncestors nBytesPerSigOp
    (Prod.ext rfl (@calculateMemPoolAncestors_noLimits nBytesPerSigOp pool₁ hash e false))
  rw [hsame₁.spends_eq] at hAmem
  have hsame₂ : pool.SameTxs pool₂ := hsame₁.trans
    (@sameEntries_foldl_modifyEntry nBytesPerSigOp pool₁ _ (fun _ => base_updateDescendantState ..) A hAnodup).toSameTxs
  have hc₂ : pool₂.LinksConsistent :=
    hc.of_sameTxs hsame₂ (by rw [hpool₂, mapLinks_foldl_modifyEntry, hpool₁, mapLinks_modifyEntry])
  -- the descendants found through the links
  obtain ⟨hDnodup, hDmem⟩ := hc₂.mem_calculateDescendants (hsame₂.mem_iff.mpr hhash)
  rw [hsame₂.spends_eq] at hDmem
  have hlookup₂ : ∀ z, pool₂.mapTx.lookup z =
      if z ∈ A then (pool₁.mapTx.lookup z).map (·.updateDescendantState 0 nFeeDelta 0) else pool₁.mapTx.lookup z :=
    lookup_foldl_modifyEntry _ (S := A) hAnodup pool₁
  rw [lookup_foldl_modifyEntry _ (S := eraseEntry hash (pool₂.calculateDescendants hash [])) (hDnodup.erase hash),
    hlookup₂, hlookup₁]
  cases hy : pool.mapTx.lookup y with
  | none => simp
  | some ey =>
    have hymem : y ∈ pool.mapTx := AList.lookup_isSome.mp (by rw [hy]; rfl)
    by_cases hyh : y = hash
    · -- the entry is neither its own strict ancestor nor its own strict descendant
      subst hyh
      have hnA : y ∉ A := fun h => hac y ((hAmem y).mp h)
      simp [mem_eraseEntry hDnodup, hnA]
    · have hanc : y ∈ pool.ancestorSet hash ↔ y ∈ A := by
        rw [mem_ancestorSet, hAmem, reflTransGen_iff_eq_or_transGen, or_iff_right hyh, and_iff_right hymem]
      have hdesc : y ∈ pool.descendantSet hash ↔ y ∈ eraseEntry hash (pool₂.calculateDescendants hash []) := by
        rw [mem_descendantSet, mem_eraseEntry hDnodup, hDmem, and_iff_right hymem, and_iff_right hyh]
      by_cases hyA : y ∈ A
      · -- an ancestor is no descendant
        have hnD : y ∉ eraseEntry hash (pool₂.calculateDescendants hash []) := fun h =>
          hac hash (TransGen.trans_left ((hAmem y).mp hyA) ((hDmem y).mp ((mem_eraseEntry hDnodup).mp h).2))
        simp [hyh, hyA, hnD, hanc]
      · simp only [hyh, hyA, hanc, hdesc, if_false]
        split <;> rfl

theorem mapLinks_prioritiseTransaction :
    (pool.prioritiseTransaction nBytesPerSigOp hash nFeeDelta).mapLinks = pool.mapLinks := by
  cases he : pool.mapTx.lookup hash with
  | none => rw [prioritiseTransaction_of_none nBytesPerSigOp nFeeDelta he]
  | some e => simp only [prioritiseTransaction, he, mapLinks_foldl_modifyEntry, mapLinks_modifyEntry]

theorem mapDeltas_prioritiseTransaction :
    (pool.prioritiseTransaction nBytesPerSigOp hash nFeeDelta).mapDeltas =
      pool.mapDeltas.insert hash ((pool.mapDeltas.lookup hash).getD 0 + nFeeDelta) := by
  cases he : pool.mapTx.lookup hash with
  | none => rw [prioritiseTransaction_of_none nBytesPerSigOp nFeeDelta he]
  | some e => simp only [prioritiseTransaction, he, mapDeltas_foldl_modifyEntry, mapDeltas_modifyEntry]

/-- Sums over a pool where one entry's sums moved by `c`. -/
theorem sum_sums_of_change {pool' : CTxMemPool} {c : Sums}
    (h : ∀ z, pool'.sums nBytesPerSigOp z = if z = hash then pool.sums nBytesPerSigOp z + c else pool.sums nBytesPerSigOp z)
    (S : Finset uint256) :
    ∑ z ∈ S, pool'.sums nBytesPerSigOp z =
      if hash ∈ S then ∑ z ∈ S, pool.sums nBytesPerSigOp z + c else ∑ z ∈ S, pool.sums nBytesPerSigOp z := by
  have h' : ∀ z, pool'.sums nBytesPerSigOp z = pool.sums nBytesPerSigOp z + if z = hash then c else 0 := fun z => by
    rw [h z]
    split <;> simp
  rw [Finset.sum_congr rfl fun z _ => h' z, Finset.sum_add_distrib, Finset.sum_ite_eq']
  split <;> simp

/-- `PrioritiseTransaction` keeps a consistent pool consistent. -/
theorem consistent_prioritiseTransaction (hc : pool.Consistent nBytesPerSigOp) :
    (pool.prioritiseTransaction nBytesPerSigOp hash nFeeDelta).Consistent nBytesPerSigOp := by
  cases he : pool.mapTx.lookup hash with
  | none =>
    -- only the delta of an entry the pool does not hold changes
    rw [prioritiseTransaction_of_none nBytesPerSigOp nFeeDelta he]
    refine ⟨hc.of_sameTxs (fun _ => rfl) rfl, hc.acyclic, fun x e hx => ?_, hc.ancestors, hc.descendants⟩
    have hxh : x ≠ hash := fun h => by
      rw [h] at hx
      exact absurd (hx.symm.trans he) (Option.some_ne_none e)
    rw [Finmap.lookup_insert_of_ne _ hxh]
    exact hc.deltas x e hx
  | some e =>
    have hhash : hash ∈ pool.mapTx := AList.lookup_isSome.mp (by rw [he]; rfl)
    have hlk := lookup_prioritiseTransaction nBytesPerSigOp nFeeDelta hc.toLinksConsistent hc.acyclic he
    have hfc : Int64.ofInt (e.feeChange ((pool.mapDeltas.lookup hash).getD 0 + nFeeDelta)) = nFeeDelta := by
      rw [ofInt_feeChange, hc.deltas hash e he]
      grind
    have hsame : pool.SameTxs (pool.prioritiseTransaction nBytesPerSigOp hash nFeeDelta) := fun z => by
      rw [hlk z, Option.map_map]
      refine Option.map_congr fun ey _ => ?_
      simp only [Function.comp_apply]
      split_ifs <;> rfl
    -- only the entry's own sums move, by its fee change
    have hsums : ∀ z, (pool.prioritiseTransaction nBytesPerSigOp hash nFeeDelta).sums nBytesPerSigOp z =
        if z = hash then pool.sums nBytesPerSigOp z + (0, 0, e.feeChange ((pool.mapDeltas.lookup hash).getD 0 + nFeeDelta), 0)
        else pool.sums nBytesPerSigOp z := by
      intro z
      unfold sums
      rw [hlk z]
      split
      · subst z
        simp [he, ownSums_updateFeeDelta]
      · cases pool.mapTx.lookup z with
        | none => rfl
        | some ez =>
          simp only [Option.map_some, Option.getD_some]
          split_ifs <;> rfl
    refine ⟨hc.of_sameTxs hsame (mapLinks_prioritiseTransaction nBytesPerSigOp nFeeDelta),
      fun x => by rw [hsame.spends_eq]; exact hc.acyclic x, fun x e' hx => ?_, fun x e' hx => ?_, fun x e' hx => ?_⟩
    all_goals
      rw [hlk x] at hx
      obtain ⟨ex, hex, rfl⟩ := Option.map_eq_some_iff.mp hx
      have hxmem : x ∈ pool.mapTx := AList.lookup_isSome.mp (by rw [hex]; rfl)
    · -- the entry takes the new delta, the others keep theirs
      rw [mapDeltas_prioritiseTransaction]
      by_cases hxh : x = hash
      · subst hxh
        simp only [if_true, Finmap.lookup_insert, Option.getD_some]
        rfl
      · rw [Finmap.lookup_insert_of_ne _ hxh, ← hc.deltas x ex hex]
        simp only [hxh, if_false]
        split_ifs <;> rfl
    · rw [hsame.ancestorSet_eq, sum_sums_of_change nBytesPerSigOp hsums]
      have hA := hc.ancestors x ex hex
      by_cases hxh : x = hash
      · subst hxh
        rw [he] at hex
        cases hex
        simp only [if_true, self_mem_ancestorSet hhash]
        exact hA.updateFeeDelta _
      by_cases hxa : x ∈ pool.ancestorSet hash
      · -- a strict ancestor of the entry does not have it as an ancestor
        have hnot : hash ∉ pool.ancestorSet x := fun h => hxh (eq_of_mem_ancestorSet hc.acyclic hxa h).symm
        simp only [hxh, hxa, hnot, if_true, if_false]
        exact hA
      by_cases hxd : x ∈ pool.descendantSet hash
      · have hin : hash ∈ pool.ancestorSet x := (mem_ancestorSet_iff_mem_descendantSet hxmem hhash).mpr hxd
        simp only [hxh, hxa, hxd, hin, if_true, if_false]
        have := hA.update 0 (e.feeChange ((pool.mapDeltas.lookup hash).getD 0 + nFeeDelta)) 0 0
        rwa [hfc] at this
      · have hnot : hash ∉ pool.ancestorSet x := fun h => hxd ((mem_ancestorSet_iff_mem_descendantSet hxmem hhash).mp h)
        simp only [hxh, hxa, hxd, hnot, if_false]
        exact hA
    · rw [hsame.descendantSet_eq, sum_sums_of_change nBytesPerSigOp hsums]
      have hD := hc.descendants x ex hex
      by_cases hxh : x = hash
      · subst hxh
        rw [he] at hex
        cases hex
        simp only [if_true, self_mem_descendantSet hhash]
        exact hD.updateFeeDelta _
      by_cases hxa : x ∈ pool.ancestorSet hash
      · have hin : hash ∈ pool.descendantSet x := (mem_ancestorSet_iff_mem_descendantSet hhash hxmem).mp hxa
        simp only [hxh, hxa, hin, if_true, if_false]
        have := hD.update 0 (e.feeChange ((pool.mapDeltas.lookup hash).getD 0 + nFeeDelta)) 0 0
        rwa [hfc] at this
      have hnot : hash ∉ pool.descendantSet x := fun h => hxa ((mem_ancestorSet_iff_mem_descendantSet hhash hxmem).mpr h)
      simp only [hxh, hxa, hnot, if_false]
      split_ifs <;> exact hD

end Prioritise

end CTxMemPool

end Packages
end AokChain
