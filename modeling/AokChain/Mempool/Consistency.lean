import AokChain.Mempool.Frame
import Mathlib.Algebra.BigOperators.Pi

/-!
# Consistent package state

What `CTxMemPool::check` asserts of the package bookkeeping, stated over the
spend relation of the pool: an entry spends another when one of its inputs
spends an output of the other.  The links of each entry are its parents and
children under that relation, and the state each entry keeps of its
ancestors and descendants is the sum over the entries the relation reaches,
each entry counted once with its size, modified fee and sigop cost.

Under consistent links the two searches of `PackageSearch` find exactly the
ancestors and descendants of the spend relation.
-/

namespace AokChain
namespace Packages

open Relation

/-- The sums a package keeps: its entries, their sizes, modified fees and
sigop costs.  The fee is exact here; the entries keep it in 64 bits. -/
abbrev Sums := ℤ × ℤ × ℤ × ℤ

namespace CTxMemPoolEntry

variable (nBytesPerSigOp : ℕ)

/-- What an entry adds to each package that holds it. -/
def ownSums (e : CTxMemPoolEntry) : Sums :=
  (1, e.getTxSize nBytesPerSigOp, e.getModifiedFee.toInt, e.sigOpCost)

/-- What the packages and the spend relation read of an entry. -/
def base (e : CTxMemPoolEntry) : CTransaction × Sums := (e.tx, e.ownSums nBytesPerSigOp)

/-- The ancestor state of the entry is the sums `s`. -/
def HoldsAncestors (e : CTxMemPoolEntry) (s : Sums) : Prop :=
  e.nCountWithAncestors = s.1 ∧ e.nSizeWithAncestors = s.2.1 ∧ e.nModFeesWithAncestors = Int64.ofInt s.2.2.1 ∧
    e.nSigOpCostWithAncestors = s.2.2.2

/-- The descendant state of the entry is the sums `s`, but for the sigop cost,
which it does not keep. -/
def HoldsDescendants (e : CTxMemPoolEntry) (s : Sums) : Prop :=
  e.nCountWithDescendants = s.1 ∧ e.nSizeWithDescendants = s.2.1 ∧ e.nModFeesWithDescendants = Int64.ofInt s.2.2.1

variable {nBytesPerSigOp} {e : CTxMemPoolEntry} {s : Sums}

@[simp] theorem base_updateAncestorState (size count sigOps : ℤ) (fee : CAmount) :
    (e.updateAncestorState size fee count sigOps).base nBytesPerSigOp = e.base nBytesPerSigOp := rfl

@[simp] theorem base_updateDescendantState (size count : ℤ) (fee : CAmount) :
    (e.updateDescendantState size fee count).base nBytesPerSigOp = e.base nBytesPerSigOp := rfl

theorem HoldsAncestors.update (h : e.HoldsAncestors s) (size fee count sigOps : ℤ) :
    (e.updateAncestorState size (Int64.ofInt fee) count sigOps).HoldsAncestors (s + (count, size, fee, sigOps)) := by
  obtain ⟨h₁, h₂, h₃, h₄⟩ := h
  refine ⟨?_, ?_, ?_, ?_⟩ <;> simp [updateAncestorState, h₁, h₂, h₃, h₄, Int64.ofInt_add]

theorem HoldsDescendants.update (h : e.HoldsDescendants s) (size fee count sigOps : ℤ) :
    (e.updateDescendantState size (Int64.ofInt fee) count).HoldsDescendants (s + (count, size, fee, sigOps)) := by
  obtain ⟨h₁, h₂, h₃⟩ := h
  refine ⟨?_, ?_, ?_⟩ <;> simp [updateDescendantState, h₁, h₂, h₃, Int64.ofInt_add]

/-- A new entry's packages hold the entry alone. -/
theorem holds_make (tx : CTransaction) (nFee : CAmount) (nTime : Int64) (entryHeight : UInt32)
    (spendsCoinbase : Bool) (sigOpCost : ℕ) :
    (make nBytesPerSigOp tx nFee nTime entryHeight spendsCoinbase sigOpCost).HoldsAncestors
        ((make nBytesPerSigOp tx nFee nTime entryHeight spendsCoinbase sigOpCost).ownSums nBytesPerSigOp) ∧
      (make nBytesPerSigOp tx nFee nTime entryHeight spendsCoinbase sigOpCost).HoldsDescendants
        ((make nBytesPerSigOp tx nFee nTime entryHeight spendsCoinbase sigOpCost).ownSums nBytesPerSigOp) := by
  have hfee : nFee + 0 = nFee := Int64.add_zero nFee
  refine ⟨⟨rfl, rfl, ?_, rfl⟩, ⟨rfl, rfl, ?_⟩⟩ <;>
    simp [make, ownSums, getModifiedFee, getTxSize, hfee, Int64.ofInt_toInt]

end CTxMemPoolEntry

namespace CTxMemPool

variable (nBytesPerSigOp : ℕ) (pool : CTxMemPool)

/-- `c`'s transaction spends an output of `p`, both entries of the pool. -/
def Spends (c p : uint256) : Prop :=
  p ∈ pool.mapTx ∧ ∃ e ∈ pool.mapTx.lookup c, ∃ txin ∈ e.tx.vin, txin.prevout.hash = p

instance : DecidableRel pool.Spends := fun _ _ => inferInstanceAs (Decidable (_ ∧ _))

open Classical in
/-- The ancestors of `x`, `x` among them: the entries the spend relation reaches from it. -/
noncomputable def ancestorSet (x : uint256) : Finset uint256 :=
  {y ∈ pool.mapTx.keys.toFinset | ReflTransGen pool.Spends x y}

open Classical in
/-- The descendants of `x`, `x` among them: the entries from which the spend relation reaches it. -/
noncomputable def descendantSet (x : uint256) : Finset uint256 :=
  {y ∈ pool.mapTx.keys.toFinset | ReflTransGen pool.Spends y x}

/-- What the entry at `y` adds to a package, nothing where there is none. -/
def sums (y : uint256) : Sums := ((pool.mapTx.lookup y).map (·.ownSums nBytesPerSigOp)).getD 0

/-- The links of each entry are its parents and children under the spend
relation, each set once. -/
structure LinksConsistent : Prop where
  links_keys : ∀ x, x ∈ pool.mapLinks ↔ x ∈ pool.mapTx
  parents : ∀ x ∈ pool.mapTx, ∀ p, p ∈ pool.getMemPoolParents x ↔ pool.Spends x p
  children : ∀ x ∈ pool.mapTx, ∀ c, c ∈ pool.getMemPoolChildren x ↔ pool.Spends c x
  parents_nodup : ∀ x, (pool.getMemPoolParents x).Nodup
  children_nodup : ∀ x, (pool.getMemPoolChildren x).Nodup

/-- The package bookkeeping `CTxMemPool::check` asserts: consistent links, no
entry its own ancestor, each entry's fee delta the one `mapDeltas` holds, and
each entry's ancestor and descendant state the sums over its ancestors and
descendants. -/
structure Consistent : Prop extends pool.LinksConsistent where
  acyclic : ∀ x, ¬TransGen pool.Spends x x
  deltas : ∀ x e, pool.mapTx.lookup x = some e → e.feeDelta = (pool.mapDeltas.lookup x).getD 0
  ancestors : ∀ x e, pool.mapTx.lookup x = some e →
    e.HoldsAncestors (∑ y ∈ pool.ancestorSet x, pool.sums nBytesPerSigOp y)
  descendants : ∀ x e, pool.mapTx.lookup x = some e →
    e.HoldsDescendants (∑ y ∈ pool.descendantSet x, pool.sums nBytesPerSigOp y)

variable {pool} {x y c p : uint256}

theorem Spends.mem_left (h : pool.Spends c p) : c ∈ pool.mapTx := by
  obtain ⟨-, e, he, -⟩ := h
  exact AList.lookup_isSome.mp (Option.isSome_iff_exists.mpr ⟨e, he⟩)

theorem Spends.mem_right (h : pool.Spends c p) : p ∈ pool.mapTx := h.1

/-- The spend relation reads of an entry only its transaction. -/
theorem spends_iff_map_tx : pool.Spends c p ↔
    p ∈ pool.mapTx ∧ ∃ t ∈ (pool.mapTx.lookup c).map CTxMemPoolEntry.tx, ∃ txin ∈ t.vin, txin.prevout.hash = p := by
  unfold Spends
  cases pool.mapTx.lookup c <;> simp

theorem mem_of_reflTransGen (hx : x ∈ pool.mapTx) (h : ReflTransGen pool.Spends x y) : y ∈ pool.mapTx := by
  induction h with
  | refl => exact hx
  | tail _ hbc _ => exact hbc.mem_right

theorem mem_ancestorSet : y ∈ pool.ancestorSet x ↔ y ∈ pool.mapTx ∧ ReflTransGen pool.Spends x y := by
  classical
  simp [ancestorSet, AList.mem_keys]

theorem mem_descendantSet : y ∈ pool.descendantSet x ↔ y ∈ pool.mapTx ∧ ReflTransGen pool.Spends y x := by
  classical
  simp [descendantSet, AList.mem_keys]

theorem self_mem_ancestorSet (hx : x ∈ pool.mapTx) : x ∈ pool.ancestorSet x :=
  mem_ancestorSet.mpr ⟨hx, .refl⟩

theorem self_mem_descendantSet (hx : x ∈ pool.mapTx) : x ∈ pool.descendantSet x :=
  mem_descendantSet.mpr ⟨hx, .refl⟩

/-- An entry is an ancestor of its descendants. -/
theorem mem_ancestorSet_iff_mem_descendantSet (hx : x ∈ pool.mapTx) (hy : y ∈ pool.mapTx) :
    y ∈ pool.ancestorSet x ↔ x ∈ pool.descendantSet y := by
  rw [mem_ancestorSet, mem_descendantSet]
  exact ⟨fun h => ⟨hx, h.2⟩, fun h => ⟨hy, h.2⟩⟩

/-- In an acyclic pool two entries each the other's ancestor are one. -/
theorem eq_of_mem_ancestorSet (hac : ∀ x, ¬TransGen pool.Spends x x) (hxy : y ∈ pool.ancestorSet x)
    (hyx : x ∈ pool.ancestorSet y) : x = y := by
  by_contra hne
  have hxy' : TransGen pool.Spends x y :=
    (reflTransGen_iff_eq_or_transGen.mp (mem_ancestorSet.mp hxy).2).resolve_left (Ne.symm hne)
  exact hac x (hxy'.trans_left (mem_ancestorSet.mp hyx).2)

theorem sums_of_lookup {e : CTxMemPoolEntry} (he : pool.mapTx.lookup y = some e) :
    pool.sums nBytesPerSigOp y = e.ownSums nBytesPerSigOp := by
  rw [sums, he, Option.map_some, Option.getD_some]

section Links

theorem LinksConsistent.links_of_not_mem (hc : pool.LinksConsistent) (hx : x ∉ pool.mapTx) :
    pool.links x = ⟨[], []⟩ :=
  CTxMemPool.links_of_not_mem ((hc.links_keys x).not.mpr hx)

theorem LinksConsistent.linkParent_iff (hc : pool.LinksConsistent) : pool.LinkParent x p ↔ pool.Spends x p := by
  by_cases hx : x ∈ pool.mapTx
  · exact hc.parents x hx p
  · have hnil : pool.getMemPoolParents x = [] := by rw [getMemPoolParents, hc.links_of_not_mem hx]
    rw [LinkParent, hnil]
    exact ⟨fun h => absurd h List.not_mem_nil, fun h => absurd h.mem_left hx⟩

theorem LinksConsistent.linkChild_iff (hc : pool.LinksConsistent) : pool.LinkChild x c ↔ pool.Spends c x := by
  by_cases hx : x ∈ pool.mapTx
  · exact hc.children x hx c
  · have hnil : pool.getMemPoolChildren x = [] := by rw [getMemPoolChildren, hc.links_of_not_mem hx]
    rw [LinkChild, hnil]
    exact ⟨fun h => absurd h List.not_mem_nil, fun h => absurd h.mem_right hx⟩

theorem LinksConsistent.linkParent_eq (hc : pool.LinksConsistent) : pool.LinkParent = pool.Spends :=
  funext₂ fun _ _ => propext hc.linkParent_iff

theorem LinksConsistent.linkChild_eq (hc : pool.LinksConsistent) : pool.LinkChild = Function.swap pool.Spends :=
  funext₂ fun _ _ => propext hc.linkChild_iff

theorem LinksConsistent.linksWithin (hc : pool.LinksConsistent) : pool.LinksWithin where
  parents_mem _ _ hp := (hc.linkParent_iff.mp hp).mem_right
  children_mem _ _ hc' := (hc.linkChild_iff.mp hc').mem_left
  parents_nodup := hc.parents_nodup

/-- Under consistent links, the ancestor search of an entry finds the entries
the spend relation reaches from it in one step or more. -/
theorem LinksConsistent.mem_calculateMemPoolAncestors (hc : pool.LinksConsistent) {e : CTxMemPoolEntry}
    {limits : Limits} {setAncestors : setEntries}
    (h : pool.calculateMemPoolAncestors nBytesPerSigOp x e limits false = (setAncestors, none)) :
    setAncestors.Nodup ∧ ∀ y, y ∈ setAncestors ↔ TransGen pool.Spends x y := by
  have hspec := calculateMemPoolAncestors_links nBytesPerSigOp hc.linksWithin h
  rwa [hc.linkParent_eq] at hspec

/-- Under consistent links, the descendant search of an entry finds the
entries from which the spend relation reaches it. -/
theorem LinksConsistent.mem_calculateDescendants (hc : pool.LinksConsistent) (hx : x ∈ pool.mapTx) :
    (pool.calculateDescendants x []).Nodup ∧
      ∀ y, y ∈ pool.calculateDescendants x [] ↔ ReflTransGen pool.Spends y x := by
  obtain ⟨hnodup, hmem⟩ := calculateDescendants_spec hc.linksWithin hx List.nodup_nil
    (fun _ h => absurd h List.not_mem_nil) (fun _ h => absurd h List.not_mem_nil)
  refine ⟨hnodup, fun y => (hmem y).trans ?_⟩
  rw [hc.linkChild_eq, reflTransGen_swap]
  simp

end Links

/-- The pool a node starts with holds no entry, so its bookkeeping is consistent. -/
theorem consistent_empty : empty.Consistent nBytesPerSigOp := by
  have hnone : ∀ x, empty.mapTx.lookup x = none := fun _ => rfl
  have hlinks : ∀ x, empty.links x = ⟨[], []⟩ := fun _ => rfl
  have hnot : ∀ x, x ∉ empty.mapTx := fun x h => by
    simpa [hnone] using AList.lookup_isSome.mpr h
  have hspends : ∀ c p, ¬empty.Spends c p := fun _ p h => hnot p h.1
  refine ⟨⟨fun x => ?_, fun x hx => absurd hx (hnot x), fun x hx => absurd hx (hnot x), fun x => ?_, fun x => ?_⟩,
    fun x h => ?_, fun x e hx => ?_, fun x e hx => ?_, fun x e hx => ?_⟩
  · exact iff_of_false Finmap.notMem_empty (hnot x)
  · rw [getMemPoolParents, hlinks]
    exact List.nodup_nil
  · rw [getMemPoolChildren, hlinks]
    exact List.nodup_nil
  · obtain ⟨b, hb, -⟩ := TransGen.head'_iff.mp h
    exact hspends x b hb
  all_goals simp [hnone] at hx

section SameEntries

variable (pool) (pool' : CTxMemPool)

/-- Two pools hold the same transactions under the same hashes. -/
def SameTxs : Prop :=
  ∀ y, (pool'.mapTx.lookup y).map CTxMemPoolEntry.tx = (pool.mapTx.lookup y).map CTxMemPoolEntry.tx

/-- Two pools hold the same entries up to their package state. -/
def SameEntries : Prop :=
  ∀ y, (pool'.mapTx.lookup y).map (·.base nBytesPerSigOp) = (pool.mapTx.lookup y).map (·.base nBytesPerSigOp)

variable {nBytesPerSigOp pool pool'}

theorem SameTxs.mem_iff (h : pool.SameTxs pool') : y ∈ pool'.mapTx ↔ y ∈ pool.mapTx := by
  rw [← AList.lookup_isSome, ← AList.lookup_isSome, ← Option.isSome_map, h y, Option.isSome_map]

/-- The spend relation and so the packages read only the transactions. -/
theorem SameTxs.spends_eq (h : pool.SameTxs pool') : pool'.Spends = pool.Spends := by
  funext c p
  rw [spends_iff_map_tx, spends_iff_map_tx, h c, h.mem_iff]

theorem SameTxs.trans {pool'' : CTxMemPool} (h : pool.SameTxs pool') (h' : pool'.SameTxs pool'') :
    pool.SameTxs pool'' :=
  fun z => (h' z).trans (h z)

theorem SameTxs.ancestorSet_eq (h : pool.SameTxs pool') : pool'.ancestorSet = pool.ancestorSet := by
  funext x
  ext y
  rw [mem_ancestorSet, mem_ancestorSet, h.mem_iff, h.spends_eq]

theorem SameTxs.descendantSet_eq (h : pool.SameTxs pool') : pool'.descendantSet = pool.descendantSet := by
  funext x
  ext y
  rw [mem_descendantSet, mem_descendantSet, h.mem_iff, h.spends_eq]

/-- Links are consistent in a pool with the same transactions and the same links. -/
theorem LinksConsistent.of_sameTxs (hc : pool.LinksConsistent) (h : pool.SameTxs pool')
    (hlinks : pool'.mapLinks = pool.mapLinks) : pool'.LinksConsistent := by
  have hlk : ∀ z, pool'.links z = pool.links z := fun z => by rw [links, links, hlinks]
  refine ⟨fun z => ?_, fun z hz q => ?_, fun z hz q => ?_, fun z => ?_, fun z => ?_⟩
  · rw [hlinks, h.mem_iff]
    exact hc.links_keys z
  · rw [getMemPoolParents, hlk, h.spends_eq]
    exact hc.parents z (h.mem_iff.mp hz) q
  · rw [getMemPoolChildren, hlk, h.spends_eq]
    exact hc.children z (h.mem_iff.mp hz) q
  · rw [getMemPoolParents, hlk]
    exact hc.parents_nodup z
  · rw [getMemPoolChildren, hlk]
    exact hc.children_nodup z

theorem SameEntries.toSameTxs (h : pool.SameEntries nBytesPerSigOp pool') : pool.SameTxs pool' := fun y => by
  have := congrArg (Option.map Prod.fst) (h y)
  simpa [Option.map_map, Function.comp_def, CTxMemPoolEntry.base] using this

theorem SameEntries.mem_iff (h : pool.SameEntries nBytesPerSigOp pool') : y ∈ pool'.mapTx ↔ y ∈ pool.mapTx :=
  h.toSameTxs.mem_iff

theorem SameEntries.spends_eq (h : pool.SameEntries nBytesPerSigOp pool') : pool'.Spends = pool.Spends :=
  h.toSameTxs.spends_eq

theorem SameEntries.sums_eq (h : pool.SameEntries nBytesPerSigOp pool') :
    pool'.sums nBytesPerSigOp = pool.sums nBytesPerSigOp := by
  funext y
  have := congrArg (Option.map Prod.snd) (h y)
  simpa [sums, Option.map_map, Function.comp_def, CTxMemPoolEntry.base] using congrArg (Option.getD · 0) this

theorem SameEntries.ancestorSet_eq (h : pool.SameEntries nBytesPerSigOp pool') :
    pool'.ancestorSet = pool.ancestorSet :=
  h.toSameTxs.ancestorSet_eq

theorem SameEntries.descendantSet_eq (h : pool.SameEntries nBytesPerSigOp pool') :
    pool'.descendantSet = pool.descendantSet :=
  h.toSameTxs.descendantSet_eq

/-- Links are consistent in a pool with the same entries and the same links. -/
theorem LinksConsistent.of_sameEntries (hc : pool.LinksConsistent) (h : pool.SameEntries nBytesPerSigOp pool')
    (hlinks : pool'.mapLinks = pool.mapLinks) : pool'.LinksConsistent :=
  hc.of_sameTxs h.toSameTxs hlinks

/-- `mapTx.modify` over a set of entries with an update that keeps what the
packages read. -/
theorem sameEntries_foldl_modifyEntry {f : CTxMemPoolEntry → CTxMemPoolEntry}
    (hf : ∀ e, (f e).base nBytesPerSigOp = e.base nBytesPerSigOp) {S : setEntries} (hS : S.Nodup) :
    pool.SameEntries nBytesPerSigOp (S.foldl (fun pool y => pool.modifyEntry y f) pool) := by
  intro z
  rw [lookup_foldl_modifyEntry f hS]
  split
  · rw [Option.map_map]
    exact Option.map_congr fun e _ => hf e
  · rfl

theorem SameEntries.trans {pool'' : CTxMemPool} (h : pool.SameEntries nBytesPerSigOp pool')
    (h' : pool'.SameEntries nBytesPerSigOp pool'') : pool.SameEntries nBytesPerSigOp pool'' :=
  fun z => (h' z).trans (h z)

end SameEntries

end CTxMemPool
end Packages
end AokChain
