import AokChain.Mempool.RemovalConsistency

/-!
# Removing entries with their descendants

`removeRecursive`, `Expire` and `removeConflicts` hand `RemoveStaged` a set
that holds every spender of each of its entries, and pass
`updateDescendants = false`: no descendant's ancestor state is updated, since
no descendant stays.  The ancestors' part of `UpdateForRemoveFromMempool`
takes each entry of the set out of the children of its parents and out of the
descendant state of its ancestors (`LeftAncestors`).  The entries of the set
then have no children left, so `UpdateChildrenForRemoval` changes nothing, and
`removeUnchecked` takes them out.  The entries left keep their parents and
ancestors, and keep their descendants less the set: the pool stays
consistent.
-/

namespace AokChain
namespace Packages
namespace CTxMemPool

open Relation CTxMemPoolEntry

variable (nBytesPerSigOp : ℕ)

/-- Every spender of an entry of `S` is in `S`. -/
def SpendersClosed (pool : CTxMemPool) (S : setEntries) : Prop :=
  ∀ s ∈ S, ∀ c, pool.Spends c s → c ∈ S

/-- The pool `pool'` is `pool` without the entries of `S`, up to package state. -/
structure RemovesSet (pool pool' : CTxMemPool) (S : setEntries) : Prop where
  gone : ∀ s ∈ S, s ∉ pool'.mapTx
  lookup_ne : ∀ y ∉ S,
    (pool'.mapTx.lookup y).map (·.base nBytesPerSigOp) = (pool.mapTx.lookup y).map (·.base nBytesPerSigOp)

variable {nBytesPerSigOp} {pool pool' : CTxMemPool} {S : setEntries} {x y z c p : uint256}

/-- An entry that reaches an entry of a closed set is in it. -/
theorem SpendersClosed.mem_of_reflTransGen (hS : pool.SpendersClosed S) (h : ReflTransGen pool.Spends y z)
    (hz : z ∈ S) : y ∈ S := by
  induction h with
  | refl => exact hz
  | tail _ hbc ih => exact ih (hS _ hz _ hbc)

namespace RemovesSet

variable (hr : pool.RemovesSet nBytesPerSigOp pool' S)
include hr

theorem tx_ne (hy : y ∉ S) :
    (pool'.mapTx.lookup y).map CTxMemPoolEntry.tx = (pool.mapTx.lookup y).map CTxMemPoolEntry.tx := by
  have := congrArg (Option.map Prod.fst) (hr.lookup_ne y hy)
  simpa [Option.map_map, Function.comp_def, CTxMemPoolEntry.base] using this

theorem sums_ne (hy : y ∉ S) : pool'.sums nBytesPerSigOp y = pool.sums nBytesPerSigOp y := by
  have := congrArg (Option.map Prod.snd) (hr.lookup_ne y hy)
  simpa [sums, Option.map_map, Function.comp_def, CTxMemPoolEntry.base] using congrArg (Option.getD · 0) this

theorem mem_iff : y ∈ pool'.mapTx ↔ y ∉ S ∧ y ∈ pool.mapTx := by
  by_cases hy : y ∈ S
  · exact iff_of_false (hr.gone y hy) fun h => h.1 hy
  · rw [← AList.lookup_isSome, ← AList.lookup_isSome, ← Option.isSome_map (f := CTxMemPoolEntry.tx), hr.tx_ne hy,
      Option.isSome_map, and_iff_right hy]

theorem spends_iff : pool'.Spends c p ↔ c ∉ S ∧ p ∉ S ∧ pool.Spends c p := by
  by_cases hc : c ∈ S
  · exact iff_of_false (fun h => hr.gone c hc h.mem_left) fun h => h.1 hc
  · rw [spends_iff_map_tx, spends_iff_map_tx, hr.tx_ne hc, hr.mem_iff]
    exact ⟨fun ⟨⟨hp, hp'⟩, h⟩ => ⟨hc, hp, hp', h⟩, fun ⟨_, hp, hp', h⟩ => ⟨⟨hp, hp'⟩, h⟩⟩

theorem acyclic (h : ∀ x, ¬TransGen pool.Spends x x) (x : uint256) : ¬TransGen pool'.Spends x x :=
  fun hcyc => h x (TransGen.mono (r := pool'.Spends) (p := pool.Spends) (fun _ _ hs => (hr.spends_iff.mp hs).2.2) _ _ hcyc)

theorem sum_sums {F : Finset uint256} (hF : ∀ z ∈ F, z ∉ S) :
    ∑ z ∈ F, pool'.sums nBytesPerSigOp z = ∑ z ∈ F, pool.sums nBytesPerSigOp z :=
  Finset.sum_congr rfl fun z hz => hr.sums_ne (hF z hz)

variable (hS : pool.SpendersClosed S)
include hS

/-- From an entry left, the paths of the pool never enter a closed set, so the
pool left has them all. -/
theorem reflTransGen_iff (hy : y ∉ S) : ReflTransGen pool'.Spends y z ↔ ReflTransGen pool.Spends y z := by
  refine ⟨ReflTransGen.mono (r := pool'.Spends) (p := pool.Spends) (fun _ _ hs => (hr.spends_iff.mp hs).2.2) _ _,
    fun h => ?_⟩
  induction h with
  | refl => exact .refl
  | @tail b d hyb hbd ih =>
    have hb : b ∉ S := fun hb => hy (hS.mem_of_reflTransGen hyb hb)
    have hd : d ∉ S := fun hd => hb (hS d hd b hbd)
    exact ih.tail (hr.spends_iff.mpr ⟨hb, hd, hbd⟩)

theorem ancestorSet_eq (hy : y ∉ S) : pool'.ancestorSet y = pool.ancestorSet y := by
  ext z
  rw [mem_ancestorSet, mem_ancestorSet, hr.mem_iff, hr.reflTransGen_iff hS hy]
  exact ⟨fun ⟨⟨_, hz⟩, h⟩ => ⟨hz, h⟩,
    fun ⟨hz, h⟩ => ⟨⟨fun hzS => hy (hS.mem_of_reflTransGen h hzS), hz⟩, h⟩⟩

theorem descendantSet_eq : pool'.descendantSet y = pool.descendantSet y \ S.toFinset := by
  ext z
  rw [mem_descendantSet, Finset.mem_sdiff, mem_descendantSet, hr.mem_iff, List.mem_toFinset]
  constructor
  · rintro ⟨⟨hzS, hz⟩, h⟩
    exact ⟨⟨hz, (hr.reflTransGen_iff hS hzS).mp h⟩, hzS⟩
  · rintro ⟨⟨hz, h⟩, hzS⟩
    exact ⟨⟨hzS, hz⟩, (hr.reflTransGen_iff hS hzS).mpr h⟩

end RemovesSet

section Unchecked

theorem lookup_foldl_removeUnchecked :
    ∀ (l : setEntries) (pool : CTxMemPool) (y : uint256),
      (l.foldl (fun pool it => pool.removeUnchecked it) pool).mapTx.lookup y =
        if y ∈ l then none else pool.mapTx.lookup y
  | [], _, _ => by simp
  | it :: l, pool, y => by
    rw [List.foldl_cons, lookup_foldl_removeUnchecked l, lookup_removeUnchecked]
    by_cases hy : y = it
    · simp [hy]
    · simp [hy]

/-- `removeUnchecked` over a set of entries of the pool clears their links and
keeps the others. -/
theorem links_foldl_removeUnchecked :
    ∀ (l : setEntries) (pool : CTxMemPool), l.Nodup → (∀ s ∈ l, s ∈ pool.mapTx) → ∀ z,
      (l.foldl (fun pool it => pool.removeUnchecked it) pool).links z = if z ∈ l then ⟨[], []⟩ else pool.links z
  | [], _, _, _, _ => by simp
  | it :: l, pool, hl, hmem, z => by
    obtain ⟨hit, hl⟩ := List.nodup_cons.mp hl
    have hmem' : ∀ s ∈ l, s ∈ (pool.removeUnchecked it).mapTx := fun s hs => by
      rw [← AList.lookup_isSome, lookup_removeUnchecked, if_neg fun h : s = it => hit (h ▸ hs), AList.lookup_isSome]
      exact hmem s (List.mem_cons_of_mem it hs)
    rw [List.foldl_cons, links_foldl_removeUnchecked l _ hl hmem' z, links_removeUnchecked (hmem it List.mem_cons_self)]
    by_cases hz : z = it
    · simp [hz, hit]
    · simp [hz]

theorem mem_mapLinks_foldl_removeUnchecked :
    ∀ (l : setEntries) (pool : CTxMemPool), l.Nodup → (∀ s ∈ l, s ∈ pool.mapTx) → ∀ z,
      z ∈ (l.foldl (fun pool it => pool.removeUnchecked it) pool).mapLinks ↔ z ∉ l ∧ z ∈ pool.mapLinks
  | [], _, _, _, _ => by simp
  | it :: l, pool, hl, hmem, z => by
    obtain ⟨hit, hl⟩ := List.nodup_cons.mp hl
    have hmem' : ∀ s ∈ l, s ∈ (pool.removeUnchecked it).mapTx := fun s hs => by
      rw [← AList.lookup_isSome, lookup_removeUnchecked, if_neg fun h : s = it => hit (h ▸ hs), AList.lookup_isSome]
      exact hmem s (List.mem_cons_of_mem it hs)
    rw [List.foldl_cons, mem_mapLinks_foldl_removeUnchecked l _ hl hmem' z,
      mem_mapLinks_removeUnchecked (hmem it List.mem_cons_self), List.mem_cons, not_or]
    tauto

@[simp] theorem mapDeltas_foldl_removeUnchecked (l : setEntries) :
    (l.foldl (fun pool it => pool.removeUnchecked it) pool).mapDeltas = pool.mapDeltas :=
  foldl_keeps (g := fun pool it => pool.removeUnchecked it) (·.mapDeltas) (fun _ _ => mapDeltas_removeUnchecked) l pool

/-- `UpdateChildrenForRemoval` of entries with no children changes nothing. -/
theorem foldl_updateChildrenForRemoval_of_nil :
    ∀ (l : setEntries) (pool : CTxMemPool), (∀ s ∈ l, pool.getMemPoolChildren s = []) →
      l.foldl (fun pool removeIt => pool.updateChildrenForRemoval removeIt) pool = pool
  | [], _, _ => rfl
  | s :: l, pool, h => by
    rw [List.foldl_cons, updateChildrenForRemoval, h s List.mem_cons_self, List.foldl_nil]
    exact foldl_updateChildrenForRemoval_of_nil l pool fun s' hs' => h s' (List.mem_cons_of_mem s hs')

end Unchecked

section Ancestors

variable (nBytesPerSigOp)

/-- What the ancestors' part of `UpdateForRemoveFromMempool(S, false)` leaves
once it has taken the entries `T` of `S` out of their ancestors: the same
entries, parents and fee deltas, the children less `T`, and for each entry
outside `S` its ancestor state and, less `T`, its descendant state. -/
structure LeftAncestors (pool pool' : CTxMemPool) (S : setEntries) (T : Finset uint256) : Prop where
  same : pool.SameEntries nBytesPerSigOp pool'
  parents : ∀ z, pool'.getMemPoolParents z = pool.getMemPoolParents z
  children : ∀ z c, c ∈ pool'.getMemPoolChildren z ↔ c ∈ pool.getMemPoolChildren z ∧ c ∉ T
  children_nodup : ∀ z, (pool'.getMemPoolChildren z).Nodup
  links_keys : ∀ z, z ∈ pool'.mapLinks ↔ z ∈ pool.mapLinks
  deltas : pool'.mapDeltas = pool.mapDeltas
  entries : ∀ y ∉ S, ∀ e', pool'.mapTx.lookup y = some e' →
    e'.feeDelta = (pool.mapDeltas.lookup y).getD 0 ∧
      e'.HoldsAncestors (∑ z ∈ pool.ancestorSet y, pool.sums nBytesPerSigOp z) ∧
      e'.HoldsDescendants (∑ z ∈ pool.descendantSet y \ T, pool.sums nBytesPerSigOp z)

/-- What a consistent pool holds of its entries outside `S`. -/
def EntriesHold (pool : CTxMemPool) (S : setEntries) : Prop :=
  ∀ y ∉ S, ∀ e, pool.mapTx.lookup y = some e →
    e.feeDelta = (pool.mapDeltas.lookup y).getD 0 ∧
      e.HoldsAncestors (∑ z ∈ pool.ancestorSet y, pool.sums nBytesPerSigOp z) ∧
      e.HoldsDescendants (∑ z ∈ pool.descendantSet y, pool.sums nBytesPerSigOp z)

variable {nBytesPerSigOp} {T : Finset uint256}

theorem Consistent.entriesHold (hc : pool.Consistent nBytesPerSigOp) (S : setEntries) :
    pool.EntriesHold nBytesPerSigOp S :=
  fun y _ e he => ⟨hc.deltas y e he, hc.ancestors y e he, hc.descendants y e he⟩

variable (hl : pool.LinksConsistent)
include hl

theorem LeftAncestors.init (hentries : pool.EntriesHold nBytesPerSigOp S) :
    pool.LeftAncestors nBytesPerSigOp pool S ∅ where
  same _ := rfl
  parents _ := rfl
  children _ _ := (and_iff_left (Finset.notMem_empty _)).symm
  children_nodup := hl.children_nodup
  links_keys _ := Iff.rfl
  deltas := rfl
  entries y hy e he := by simpa only [Finset.sdiff_empty] using hentries y hy e he

theorem LeftAncestors.linksWithin (h : pool.LeftAncestors nBytesPerSigOp pool' S T) : pool'.LinksWithin where
  parents_mem x p hp := h.same.mem_iff.mpr (hl.linksWithin.parents_mem x p (h.parents x ▸ hp))
  children_mem x c hc := h.same.mem_iff.mpr (hl.linksWithin.children_mem x c ((h.children x c).mp hc).1)
  parents_nodup x := h.parents x ▸ hl.parents_nodup x

theorem LeftAncestors.linkParent_eq (h : pool.LeftAncestors nBytesPerSigOp pool' S T) :
    pool'.LinkParent = pool.Spends := by
  funext x p
  rw [← hl.linkParent_eq]
  exact congrArg (p ∈ ·) (h.parents x)

/-- One entry `it` of `S` leaves the children of its parents and the
descendant state of its ancestors, which the parent links still give. -/
theorem LeftAncestors.step (h : pool.LeftAncestors nBytesPerSigOp pool' S T) {it : uint256} (hitS : it ∈ S)
    (hitT : it ∉ T) (hit : it ∈ pool.mapTx) :
    pool.LeftAncestors nBytesPerSigOp (pool'.removeFromAncestors nBytesPerSigOp it) S (insert it T) := by
  obtain ⟨eit, heit⟩ := Option.isSome_iff_exists.mp (AList.lookup_isSome.mpr hit)
  obtain ⟨e', he'⟩ := Option.isSome_iff_exists.mp (AList.lookup_isSome.mpr (h.same.mem_iff.mpr hit))
  have hown : e'.ownSums nBytesPerSigOp = eit.ownSums nBytesPerSigOp := by
    have := h.same it
    rw [he', heit] at this
    exact congrArg Prod.snd (Option.some.inj this)
  obtain ⟨hAnodup, hAmem⟩ := calculateMemPoolAncestors_links nBytesPerSigOp (h.linksWithin hl)
    (Prod.ext rfl (calculateMemPoolAncestors_noLimits nBytesPerSigOp) :
      pool'.calculateMemPoolAncestors nBytesPerSigOp it e' noLimits false =
        ((pool'.calculateMemPoolAncestors nBytesPerSigOp it e' noLimits false).1, none))
  rw [h.linkParent_eq hl] at hAmem
  have hps : (pool'.getMemPoolParents it).Nodup := by
    rw [h.parents]
    exact hl.parents_nodup it
  have hpsmem : ∀ q ∈ pool'.getMemPoolParents it, q ∈ pool'.mapLinks := by
    intro q hq
    rw [h.parents] at hq
    exact (h.links_keys q).mpr ((hl.links_keys q).mpr (hl.linkParent_iff.mp hq).mem_right)
  rw [removeFromAncestors_eq nBytesPerSigOp he']
  refine ⟨h.same.trans (sameEntries_updateAncestorsOf nBytesPerSigOp he' false hAnodup), fun z => ?_, fun z c => ?_,
    fun z => ?_, fun z => ?_, ?_, fun y hy e'' he'' => ?_⟩
  · rw [getMemPoolParents_updateAncestorsOf nBytesPerSigOp he', h.parents]
  · rw [getMemPoolChildren_updateAncestorsOf nBytesPerSigOp he' false hps, h.parents, Finset.mem_insert, not_or]
    simp only [Bool.false_eq_true, if_false]
    split_ifs with hz
    · rw [mem_eraseEntry (h.children_nodup z), h.children]
      tauto
    · -- `it` is a child of its parents only
      have hit' : it ∉ pool.getMemPoolChildren z := fun hc => hz (hl.linkParent_iff.mpr (hl.linkChild_iff.mp hc))
      rw [h.children]
      exact ⟨fun ⟨hc, hcT⟩ => ⟨hc, fun hcit => hit' (hcit ▸ hc), hcT⟩, fun ⟨hc, _, hcT⟩ => ⟨hc, hcT⟩⟩
  · rw [getMemPoolChildren_updateAncestorsOf nBytesPerSigOp he' false hps]
    simp only [Bool.false_eq_true, if_false]
    split
    · exact (h.children_nodup z).erase it
    · exact h.children_nodup z
  · rw [mem_mapLinks_updateAncestorsOf nBytesPerSigOp he' false hpsmem, h.links_keys]
  · rw [mapDeltas_updateAncestorsOf nBytesPerSigOp he', h.deltas]
  · have hyit : y ≠ it := fun hyit => hy (hyit ▸ hitS)
    -- `it` is a descendant of `y` exactly where the search found `y`
    have hdesc : it ∈ pool.descendantSet y \ T ↔ TransGen pool.Spends it y := by
      rw [Finset.mem_sdiff, mem_descendantSet, reflTransGen_iff_eq_or_transGen, and_iff_left hitT]
      exact ⟨fun ⟨_, h⟩ => h.resolve_left hyit, fun h => ⟨hit, .inr h⟩⟩
    rw [lookup_updateAncestorsOf nBytesPerSigOp he' false hAnodup] at he''
    rw [Finset.sdiff_insert, sum_erase_sums heit]
    split_ifs at he'' with hyA
    · obtain ⟨ey, hey, rfl⟩ := Option.map_eq_some_iff.mp he''
      obtain ⟨hd, ha, hds⟩ := h.entries y hy ey hey
      have hleft : (updateForAncestor nBytesPerSigOp false e' ey).HoldsDescendants
          ((∑ z ∈ pool.descendantSet y \ T, pool.sums nBytesPerSigOp z) - e'.ownSums nBytesPerSigOp) :=
        hds.updateForAncestor false
      rw [if_pos (hdesc.mpr ((hAmem y).mp hyA)), ← hown]
      exact ⟨hd, ha, hleft⟩
    · rw [if_neg fun hin => hyA ((hAmem y).mpr (hdesc.mp hin))]
      exact h.entries y hy e'' he''

/-- The ancestors' loop over the rest of `S`. -/
theorem LeftAncestors.foldl :
    ∀ (rest : setEntries) {pool' : CTxMemPool} {T : Finset uint256}, pool.LeftAncestors nBytesPerSigOp pool' S T →
      rest.Nodup → (∀ x ∈ rest, x ∈ S ∧ x ∉ T ∧ x ∈ pool.mapTx) →
      pool.LeftAncestors nBytesPerSigOp
        (rest.foldl (fun pool removeIt => pool.removeFromAncestors nBytesPerSigOp removeIt) pool') S
        (T ∪ rest.toFinset)
  | [], _, _, h, _, _ => by simpa using h
  | it :: rest, pool', T, h, hnd, hrest => by
    obtain ⟨hitS, hitT, hit⟩ := hrest it List.mem_cons_self
    obtain ⟨hnot, hnd'⟩ := List.nodup_cons.mp hnd
    have h' := h.step hl hitS hitT hit
    have hrest' : ∀ x ∈ rest, x ∈ S ∧ x ∉ insert it T ∧ x ∈ pool.mapTx := by
      intro x hx
      obtain ⟨hxS, hxT, hxm⟩ := hrest x (List.mem_cons_of_mem it hx)
      exact ⟨hxS, by rw [Finset.mem_insert, not_or]; exact ⟨fun hxit => hnot (hxit ▸ hx), hxT⟩, hxm⟩
    rw [List.foldl_cons, List.toFinset_cons, Finset.union_insert, ← Finset.insert_union]
    exact LeftAncestors.foldl rest h' hnd' hrest'

end Ancestors

section Staged

variable (nBytesPerSigOp)

theorem updateForRemoveFromMempool_false :
    pool.updateForRemoveFromMempool nBytesPerSigOp S false =
      S.foldl (fun pool removeIt => pool.updateChildrenForRemoval removeIt)
        (S.foldl (fun pool removeIt => pool.removeFromAncestors nBytesPerSigOp removeIt) pool) :=
  rfl

/-- `RemoveStaged(S, false)` of a set that holds the spenders of its entries
keeps consistent each part of the pool its entries outside `S` had
consistent. -/
theorem consistent_removeStaged_closed_of (hl : pool.LinksConsistent) (hac : ∀ x, ¬TransGen pool.Spends x x)
    (hS : S.Nodup) (hmem : ∀ s ∈ S, s ∈ pool.mapTx) (hclosed : pool.SpendersClosed S)
    (hentries : pool.EntriesHold nBytesPerSigOp S) :
    (pool.removeStaged nBytesPerSigOp S false).Consistent nBytesPerSigOp := by
  have hP : pool.LeftAncestors nBytesPerSigOp
      (S.foldl (fun pool removeIt => pool.removeFromAncestors nBytesPerSigOp removeIt) pool) S S.toFinset := by
    simpa using (LeftAncestors.init hl hentries).foldl hl S hS
      fun x hx => ⟨hx, Finset.notMem_empty x, hmem x hx⟩
  -- the entries of `S` have no children left, so their parents' update does nothing
  have hnil : ∀ s ∈ S, (S.foldl (fun pool removeIt => pool.removeFromAncestors nBytesPerSigOp removeIt)
      pool).getMemPoolChildren s = [] := fun s hs =>
    List.eq_nil_iff_forall_not_mem.mpr fun c hc =>
      ((hP.children s c).mp hc).2 (List.mem_toFinset.mpr (hclosed s hs c (hl.linkChild_iff.mp ((hP.children s c).mp hc).1)))
  rw [removeStaged, updateForRemoveFromMempool_false, foldl_updateChildrenForRemoval_of_nil S _ hnil]
  generalize S.foldl (fun pool removeIt => pool.removeFromAncestors nBytesPerSigOp removeIt) pool = P at hP ⊢
  have hmemP : ∀ s ∈ S, s ∈ P.mapTx := fun s hs => hP.same.mem_iff.mpr (hmem s hs)
  have hlookup := lookup_foldl_removeUnchecked S P
  have hlinks := links_foldl_removeUnchecked S P hS hmemP
  have hkeys := mem_mapLinks_foldl_removeUnchecked S P hS hmemP
  have hdeltas : (S.foldl (fun pool it => pool.removeUnchecked it) P).mapDeltas = P.mapDeltas :=
    mapDeltas_foldl_removeUnchecked S
  generalize S.foldl (fun pool it => pool.removeUnchecked it) P = R at hlookup hlinks hkeys hdeltas ⊢
  have hr : pool.RemovesSet nBytesPerSigOp R S :=
    ⟨fun s hs h => by simpa [hlookup, hs] using AList.lookup_isSome.mpr h,
      fun y hy => by rw [hlookup, if_neg hy]; exact hP.same y⟩
  have hparents : ∀ x ∉ S, R.getMemPoolParents x = pool.getMemPoolParents x := fun x hx => by
    rw [getMemPoolParents, hlinks, if_neg hx, ← getMemPoolParents, hP.parents]
  have hchildren : ∀ x ∉ S, R.getMemPoolChildren x = P.getMemPoolChildren x := fun x hx => by
    rw [getMemPoolChildren, hlinks, if_neg hx, ← getMemPoolChildren]
  have hentry : ∀ x e, R.mapTx.lookup x = some e → x ∉ S ∧ P.mapTx.lookup x = some e := fun x e hx => by
    rw [hlookup] at hx
    split_ifs at hx with hxS
    exact ⟨hxS, hx⟩
  refine ⟨⟨fun z => ?_, fun x hx q => ?_, fun x hx q => ?_, fun x => ?_, fun x => ?_⟩, hr.acyclic hac,
    fun x e hx => ?_, fun x e hx => ?_, fun x e hx => ?_⟩
  · rw [hkeys, hP.links_keys, hl.links_keys, hr.mem_iff]
  · obtain ⟨hxS, hx'⟩ := hr.mem_iff.mp hx
    -- a parent of an entry left is left
    rw [hparents x hxS, hr.spends_iff, ← hl.parents x hx' q]
    exact ⟨fun hq => ⟨hxS, fun hqS => hxS (hclosed q hqS x ((hl.parents x hx' q).mp hq)), hq⟩, fun h => h.2.2⟩
  · obtain ⟨hxS, hx'⟩ := hr.mem_iff.mp hx
    rw [hchildren x hxS, hP.children, hr.spends_iff, ← hl.children x hx' q, List.mem_toFinset]
    exact ⟨fun hq => ⟨hq.2, hxS, hq.1⟩, fun hq => ⟨hq.2.2, hq.1⟩⟩
  · by_cases hxS : x ∈ S
    · rw [getMemPoolParents, hlinks, if_pos hxS]
      exact List.nodup_nil
    · rw [hparents x hxS]
      exact hl.parents_nodup x
  · by_cases hxS : x ∈ S
    · rw [getMemPoolChildren, hlinks, if_pos hxS]
      exact List.nodup_nil
    · rw [hchildren x hxS]
      exact hP.children_nodup x
  · obtain ⟨hxS, hxP⟩ := hentry x e hx
    rw [hdeltas, hP.deltas]
    exact (hP.entries x hxS e hxP).1
  · obtain ⟨hxS, hxP⟩ := hentry x e hx
    rw [hr.ancestorSet_eq hclosed hxS, hr.sum_sums fun z hz hzS =>
      hxS (hclosed.mem_of_reflTransGen (mem_ancestorSet.mp hz).2 hzS)]
    exact (hP.entries x hxS e hxP).2.1
  · obtain ⟨hxS, hxP⟩ := hentry x e hx
    rw [hr.descendantSet_eq hclosed, hr.sum_sums fun z hz => by simpa using (Finset.mem_sdiff.mp hz).2]
    exact (hP.entries x hxS e hxP).2.2

/-- `RemoveStaged(S, false)` of a set that holds the spenders of its entries
keeps a consistent pool consistent. -/
theorem consistent_removeStaged_closed (hc : pool.Consistent nBytesPerSigOp) (hS : S.Nodup)
    (hmem : ∀ s ∈ S, s ∈ pool.mapTx) (hclosed : pool.SpendersClosed S) :
    (pool.removeStaged nBytesPerSigOp S false).Consistent nBytesPerSigOp :=
  consistent_removeStaged_closed_of nBytesPerSigOp hc.toLinksConsistent hc.acyclic hS hmem hclosed
    (hc.entriesHold S)

end Staged

end CTxMemPool
end Packages
end AokChain
