import AokChain.Mempool.PoolInvariants

/-!
# Every removal of the pool

`removeRecursive` and `Expire` stage their transactions with all their
descendants, by `CalculateDescendants` over the set staged so far, and pass
the stage to `RemoveStaged(stage, false)`; `removeConflicts` removes each
conflict by `removeRecursive`.  `removeForBlock` removes each transaction of
the block alone, with `RemoveStaged({it}, true)`, then its conflicts.  Each of
these leaves a `Checked` pool checked, `removeForBlock`'s singletons where the
transaction spends no entry left in the pool.
-/

namespace AokChain
namespace Packages
namespace CTxMemPool

open Relation CTxMemPoolEntry

variable (nBytesPerSigOp : ℕ) (C : Crypto)

/-- A stage of `RemoveStaged(stage, false)`: free of repetition, in the pool,
and holding the spenders of its entries. -/
structure ClosedStage (pool : CTxMemPool) (S : setEntries) : Prop where
  nodup : S.Nodup
  mem : ∀ s ∈ S, s ∈ pool.mapTx
  closed : pool.SpendersClosed S

variable {nBytesPerSigOp C} {pool : CTxMemPool}

section Stage

/-- A loop each of whose rounds adds to a list what a predicate picks. -/
theorem mem_foldl_of_step {α β : Type} {g : List β → α → List β} {P : α → β → Prop}
    (hg : ∀ acc a y, y ∈ g acc a ↔ y ∈ acc ∨ P a y) :
    ∀ (l : List α) (acc : List β) (y : β), y ∈ l.foldl g acc ↔ y ∈ acc ∨ ∃ a ∈ l, P a y
  | [], _, _ => by simp
  | a :: l, acc, y => by
    rw [List.foldl_cons, mem_foldl_of_step hg l, hg]
    simp only [List.mem_cons, exists_eq_or_imp]
    tauto

theorem ClosedStage.nil (pool : CTxMemPool) : pool.ClosedStage [] :=
  ⟨List.nodup_nil, fun _ h => absurd h List.not_mem_nil, fun _ h => absurd h List.not_mem_nil⟩

/-- `CalculateDescendants` of an entry adds it with its descendants to a stage,
which stays closed. -/
theorem ClosedStage.calculateDescendants (hl : pool.LinksConsistent) {D : setEntries} (hD : pool.ClosedStage D)
    {it : uint256} (hit : it ∈ pool.mapTx) :
    pool.ClosedStage (pool.calculateDescendants it D) ∧
      ∀ y, y ∈ pool.calculateDescendants it D ↔ y ∈ D ∨ ReflTransGen pool.Spends y it := by
  obtain ⟨hnodup, hmem⟩ := calculateDescendants_spec hl.linksWithin hit hD.nodup hD.mem
    fun x hx y hy => hD.closed x hx y (hl.linkChild_iff.mp hy)
  have hmem' : ∀ y, y ∈ pool.calculateDescendants it D ↔ y ∈ D ∨ ReflTransGen pool.Spends y it := by
    intro y
    rw [hmem, hl.linkChild_eq, reflTransGen_swap]
  refine ⟨⟨hnodup, fun s hs => ?_, fun s hs c hcs => ?_⟩, hmem'⟩
  · rcases (hmem' s).mp hs with hs | hs
    · exact hD.mem s hs
    · rcases hs.cases_head with rfl | ⟨b, hsb, -⟩
      · exact hit
      · exact hsb.mem_left
  · rw [hmem'] at hs ⊢
    rcases hs with hs | hs
    · exact .inl (hD.closed s hs c hcs)
    · exact .inr (hs.head hcs)

/-- The loop of `removeRecursive` and `Expire`: the stage holds the entries
that reach one of the roots. -/
theorem ClosedStage.foldl_calculateDescendants (hl : pool.LinksConsistent) :
    ∀ (l : setEntries) {D : setEntries}, pool.ClosedStage D → (∀ it ∈ l, it ∈ pool.mapTx) →
      pool.ClosedStage (l.foldl (fun D it => pool.calculateDescendants it D) D) ∧
        ∀ y, y ∈ l.foldl (fun D it => pool.calculateDescendants it D) D ↔
          y ∈ D ∨ ∃ x ∈ l, ReflTransGen pool.Spends y x
  | [], _, hD, _ => ⟨hD, fun y => by simp⟩
  | it :: l, _, hD, hroots => by
    obtain ⟨hD', hmem'⟩ := hD.calculateDescendants hl (hroots it List.mem_cons_self)
    obtain ⟨hS, hmemS⟩ :=
      ClosedStage.foldl_calculateDescendants hl l hD' fun x hx => hroots x (List.mem_cons_of_mem it hx)
    refine ⟨hS, fun y => ?_⟩
    rw [List.foldl_cons, hmemS, hmem']
    simp only [List.mem_cons, exists_eq_or_imp]
    tauto

end Stage

section Removals

variable (nBytesPerSigOp C)

/-- The transactions `removeRecursive` removes with their descendants: the
transaction where the pool holds it, else the spenders `mapNextTx` names of
its outputs. -/
def RecursiveRoot (origTx : CTransaction) (x : uint256) : Prop :=
  if C.getHash origTx ∈ pool.mapTx then x = C.getHash origTx
  else ∃ i < origTx.vout.length, pool.mapNextTx.lookup ⟨C.getHash origTx, UInt32.ofNat i⟩ = some x

theorem RecursiveRoot.mem (hn : pool.NextTxWithin) {origTx : CTransaction} {x : uint256}
    (h : pool.RecursiveRoot C origTx x) : x ∈ pool.mapTx := by
  unfold RecursiveRoot at h
  split_ifs at h with hh
  · exact h ▸ hh
  · obtain ⟨i, -, hi⟩ := h
    obtain ⟨e, he, -⟩ := hn _ _ hi
    exact mem_of_lookup he

/-- `removeRecursive` is `RemoveStaged(stage, false)` of a closed stage: its
roots with their descendants. -/
theorem removeRecursive_eq (hl : pool.LinksConsistent) (hn : pool.NextTxWithin) (origTx : CTransaction) :
    ∃ S, pool.removeRecursive nBytesPerSigOp C origTx = pool.removeStaged nBytesPerSigOp S false ∧
      pool.ClosedStage S ∧ ∀ y, y ∈ S ↔ ∃ x, pool.RecursiveRoot C origTx x ∧ ReflTransGen pool.Spends y x := by
  obtain ⟨roots, heq, hroots⟩ : ∃ roots : setEntries, pool.removeRecursive nBytesPerSigOp C origTx =
      pool.removeStaged nBytesPerSigOp (roots.foldl (fun D it => pool.calculateDescendants it D) []) false ∧
      ∀ x, x ∈ roots ↔ pool.RecursiveRoot C origTx x := by
    refine ⟨_, rfl, fun x => ?_⟩
    unfold RecursiveRoot
    split_ifs
    · exact List.mem_singleton
    · -- the spenders of the outputs, one output after the other
      refine (mem_foldl_of_step
        (P := fun i y => pool.mapNextTx.lookup ⟨C.getHash origTx, UInt32.ofNat i⟩ = some y)
        (fun acc i y => ?_) _ _ x).trans ?_
      · split
        · rename_i nextit hnext
          rw [mem_insertEntry, hnext, Option.some.injEq, eq_comm]
          exact or_comm
        · rename_i hnone
          rw [hnone]
          simp
      · simp
  obtain ⟨hstage, hmemS⟩ := ClosedStage.foldl_calculateDescendants hl roots (ClosedStage.nil pool)
    fun x hx => ((hroots x).mp hx).mem C hn
  refine ⟨_, heq, hstage, fun y => ?_⟩
  rw [hmemS]
  simp only [List.not_mem_nil, false_or, hroots]

/-- The entries `Expire` finds: those that entered before the time. -/
theorem mem_foldl_expired {time : Int64} (l : List (Σ _ : uint256, CTxMemPoolEntry)) (acc : setEntries)
    (y : uint256) :
    y ∈ l.foldl (fun toremove e => if e.2.nTime < time then insertEntry e.1 toremove else toremove) acc ↔
      y ∈ acc ∨ ∃ e ∈ l, e.2.nTime < time ∧ e.1 = y := by
  refine mem_foldl_of_step (P := fun e y => e.2.nTime < time ∧ e.1 = y) (fun acc e y => ?_) l acc y
  split_ifs with he
  · rw [mem_insertEntry, eq_comm]
    simp only [he, true_and]
    exact or_comm
  · simp [he]

/-- `Expire` is `RemoveStaged(stage, false)` of a closed stage: the entries
that entered before the time with their descendants, and it counts them. -/
theorem expire_eq (hl : pool.LinksConsistent) (time : Int64) :
    ∃ S, pool.expire nBytesPerSigOp time = (pool.removeStaged nBytesPerSigOp S false, S.length) ∧
      pool.ClosedStage S ∧
      ∀ y, y ∈ S ↔ ∃ x e, pool.mapTx.lookup x = some e ∧ e.nTime < time ∧ ReflTransGen pool.Spends y x := by
  have hroots : ∀ x, x ∈ pool.mapTx.entries.foldl (fun toremove e =>
      if e.2.nTime < time then insertEntry e.1 toremove else toremove) [] ↔
        ∃ e, pool.mapTx.lookup x = some e ∧ e.nTime < time := by
    intro x
    rw [mem_foldl_expired]
    simp only [List.not_mem_nil, false_or]
    constructor
    · rintro ⟨⟨x, e⟩, hxe, hlt, rfl⟩
      exact ⟨e, AList.mem_lookup_iff.mpr hxe, hlt⟩
    · rintro ⟨e, he, hlt⟩
      exact ⟨⟨x, e⟩, AList.mem_lookup_iff.mp he, hlt, rfl⟩
  have hmem : ∀ x ∈ pool.mapTx.entries.foldl (fun toremove e =>
      if e.2.nTime < time then insertEntry e.1 toremove else toremove) [], x ∈ pool.mapTx := fun x hx => by
    obtain ⟨e, he, -⟩ := (hroots x).mp hx
    exact mem_of_lookup he
  obtain ⟨hstage, hmemS⟩ := ClosedStage.foldl_calculateDescendants hl _ (ClosedStage.nil pool) hmem
  refine ⟨_, rfl, hstage, fun y => ?_⟩
  rw [hmemS]
  simp only [List.not_mem_nil, false_or, hroots]
  constructor
  · rintro ⟨x, ⟨e, he, hlt⟩, h⟩
    exact ⟨x, e, he, hlt, h⟩
  · rintro ⟨x, e, he, hlt, h⟩
    exact ⟨x, ⟨e, he, hlt⟩, h⟩

/-- `RemoveStaged` leaves the entries outside the stage. -/
theorem mem_removeStaged {S : setEntries} {updateDescendants : Bool} {y : uint256} :
    y ∈ (pool.removeStaged nBytesPerSigOp S updateDescendants).mapTx ↔ y ∉ S ∧ y ∈ pool.mapTx := by
  rw [← AList.lookup_isSome, removeStaged, lookup_foldl_removeUnchecked]
  split_ifs with hy
  · simp [hy]
  · rw [AList.lookup_isSome, (keepsTxs_updateForRemoveFromMempool nBytesPerSigOp S updateDescendants).txs.mem_iff]
    exact ⟨fun h => ⟨hy, h⟩, fun h => h.2⟩

/-- `RemoveStaged` of entries of the pool removes as many entries as it stages. -/
theorem length_removeStaged {S : setEntries} {updateDescendants : Bool} (hS : S.Nodup)
    (hmem : ∀ s ∈ S, s ∈ pool.mapTx) :
    (pool.removeStaged nBytesPerSigOp S updateDescendants).mapTx.entries.length + S.length =
      pool.mapTx.entries.length := by
  have hkeys : (pool.removeStaged nBytesPerSigOp S updateDescendants).mapTx.keys.toFinset =
      pool.mapTx.keys.toFinset \ S.toFinset := by
    ext y
    simp only [List.mem_toFinset, Finset.mem_sdiff, ← AList.mem_keys, mem_removeStaged]
    exact and_comm
  have hsub : S.toFinset ⊆ pool.mapTx.keys.toFinset := fun s hs => by
    simpa [AList.mem_keys] using hmem s (List.mem_toFinset.mp hs)
  have hcard := Finset.card_sdiff_add_card_eq_card hsub
  rw [← hkeys, List.toFinset_card_of_nodup (AList.keys_nodup _), List.toFinset_card_of_nodup hS,
    List.toFinset_card_of_nodup (AList.keys_nodup _)] at hcard
  simpa [AList.keys, List.keys] using hcard

/-- An entry `RemoveStaged` leaves holds the transaction it held before. -/
theorem lookup_removeStaged_tx {S : setEntries} {updateDescendants : Bool} {y : uint256} {e : CTxMemPoolEntry}
    (h : (pool.removeStaged nBytesPerSigOp S updateDescendants).mapTx.lookup y = some e) :
    ∃ e₀, pool.mapTx.lookup y = some e₀ ∧ e₀.tx = e.tx := by
  rw [removeStaged, lookup_foldl_removeUnchecked] at h
  split_ifs at h
  exact (keepsTxs_updateForRemoveFromMempool nBytesPerSigOp S updateDescendants).lookup_of_lookup h

theorem mem_of_mem_removeRecursive (origTx : CTransaction) {y : uint256}
    (h : y ∈ (pool.removeRecursive nBytesPerSigOp C origTx).mapTx) : y ∈ pool.mapTx := by
  simp only [removeRecursive] at h
  exact ((mem_removeStaged nBytesPerSigOp).mp h).2

theorem mem_of_mem_removeConflicts (tx : CTransaction) {y : uint256}
    (h : y ∈ (pool.removeConflicts nBytesPerSigOp C tx).mapTx) : y ∈ pool.mapTx := by
  simp only [removeConflicts] at h
  refine List.foldlRecOn (motive := fun p : CTxMemPool => y ∈ p.mapTx → y ∈ pool.mapTx) _ _ id
    (fun p hp txin _ hy => hp ?_) h
  split at hy
  · exact hy
  · split at hy
    · exact hy
    · split_ifs at hy
      · -- the conflict's fee delta is cleared first, which keeps the entries
        have hq := mem_of_mem_removeRecursive nBytesPerSigOp C _ hy
        exact hq
      · exact hy

end Removals

section Checked

variable (nBytesPerSigOp C)

theorem Consistent.clearPrioritisation (hc : pool.Consistent nBytesPerSigOp) {hash : uint256}
    (hh : hash ∉ pool.mapTx) : (pool.clearPrioritisation hash).Consistent nBytesPerSigOp where
  toLinksConsistent := hc.toLinksConsistent.of_sameTxs (fun _ => rfl) rfl
  acyclic := hc.acyclic
  deltas x e he := by
    have he' : pool.mapTx.lookup x = some e := he
    have hx : x ≠ hash := by
      rintro rfl
      exact hh (mem_of_lookup he')
    rw [CTxMemPool.clearPrioritisation, Finmap.lookup_erase_ne hx]
    exact hc.deltas x e he
  ancestors := hc.ancestors
  descendants := hc.descendants

theorem Checked.removeStaged_closed (h : pool.Checked nBytesPerSigOp C) {S : setEntries} (hS : pool.ClosedStage S) :
    (pool.removeStaged nBytesPerSigOp S false).Checked nBytesPerSigOp C :=
  checked_removeStaged h.nextTx h.complete h.keyed
    (consistent_removeStaged_closed nBytesPerSigOp h.consistent hS.nodup hS.mem hS.closed)

theorem Checked.removeRecursive (h : pool.Checked nBytesPerSigOp C) (origTx : CTransaction) :
    (pool.removeRecursive nBytesPerSigOp C origTx).Checked nBytesPerSigOp C := by
  obtain ⟨S, hS, hstage, -⟩ := removeRecursive_eq nBytesPerSigOp C h.consistent.toLinksConsistent h.nextTx origTx
  rw [hS]
  exact h.removeStaged_closed nBytesPerSigOp C hstage

theorem Checked.expire (h : pool.Checked nBytesPerSigOp C) (time : Int64) :
    (pool.expire nBytesPerSigOp time).1.Checked nBytesPerSigOp C := by
  obtain ⟨S, hS, hstage, -⟩ := expire_eq nBytesPerSigOp h.consistent.toLinksConsistent time
  rw [hS]
  exact h.removeStaged_closed nBytesPerSigOp C hstage

/-- The stage of one conflict of `removeConflicts`: the conflict with its
descendants, in the pool with the conflict's fee delta cleared. -/
theorem removeConflict_eq (h : pool.Checked nBytesPerSigOp C) {conflict : uint256} {e : CTxMemPoolEntry}
    (he : pool.mapTx.lookup conflict = some e) :
    ∃ S, (pool.clearPrioritisation conflict).removeRecursive nBytesPerSigOp C e.tx =
        (pool.clearPrioritisation conflict).removeStaged nBytesPerSigOp S false ∧
      (pool.clearPrioritisation conflict).ClosedStage S ∧ conflict ∈ S := by
  have hkey : C.getHash e.tx = conflict := h.keyed conflict e he
  have hl : (pool.clearPrioritisation conflict).LinksConsistent :=
    h.consistent.toLinksConsistent.of_sameTxs (fun _ => rfl) rfl
  have hkeeps : pool.KeepsTxs (pool.clearPrioritisation conflict) := keepsTxs_clearPrioritisation conflict
  obtain ⟨S, hS, hstage, hmemS⟩ := removeRecursive_eq nBytesPerSigOp C hl (hkeeps.nextTxWithin h.nextTx) e.tx
  -- the pool holds the conflict, so it is the root
  have hroot : (pool.clearPrioritisation conflict).RecursiveRoot C e.tx conflict := by
    have hin : conflict ∈ (pool.clearPrioritisation conflict).mapTx := mem_of_lookup he
    rw [RecursiveRoot, hkey, if_pos hin]
  exact ⟨S, hS, hstage, (hmemS conflict).mpr ⟨conflict, hroot, .refl⟩⟩

/-- One conflict of `removeConflicts`: its fee delta is cleared and it leaves
with its descendants, so the delta cleared belongs to no entry left. -/
theorem Checked.removeConflict (h : pool.Checked nBytesPerSigOp C) {conflict : uint256} {e : CTxMemPoolEntry}
    (he : pool.mapTx.lookup conflict = some e) :
    ((pool.clearPrioritisation conflict).removeRecursive nBytesPerSigOp C e.tx).Checked nBytesPerSigOp C := by
  have hl : (pool.clearPrioritisation conflict).LinksConsistent :=
    h.consistent.toLinksConsistent.of_sameTxs (fun _ => rfl) rfl
  have hkeeps : pool.KeepsTxs (pool.clearPrioritisation conflict) := keepsTxs_clearPrioritisation conflict
  obtain ⟨S, hS, hstage, hcS⟩ := removeConflict_eq nBytesPerSigOp C h he
  -- every entry outside the stage keeps its fee delta
  have hentries : (pool.clearPrioritisation conflict).EntriesHold nBytesPerSigOp S := by
    intro y hy ey hey
    obtain ⟨hd, ha, hds⟩ := h.consistent.entriesHold S y hy ey hey
    refine ⟨?_, ha, hds⟩
    rw [CTxMemPool.clearPrioritisation, Finmap.lookup_erase_ne fun hyc : y = conflict => hy (hyc ▸ hcS)]
    exact hd
  rw [hS]
  exact checked_removeStaged (hkeeps.nextTxWithin h.nextTx) (hkeeps.nextTxComplete h.complete) (hkeeps.keyedBy h.keyed)
    (consistent_removeStaged_closed_of nBytesPerSigOp hl h.consistent.acyclic hstage.nodup hstage.mem hstage.closed
      hentries)

theorem Checked.removeConflicts (h : pool.Checked nBytesPerSigOp C) (tx : CTransaction) :
    (pool.removeConflicts nBytesPerSigOp C tx).Checked nBytesPerSigOp C := by
  simp only [CTxMemPool.removeConflicts]
  refine List.foldlRecOn (motive := fun p : CTxMemPool => p.Checked nBytesPerSigOp C) _ _ h fun p hp txin _ => ?_
  split
  · exact hp
  · split
    · exact hp
    · rename_i e he
      split_ifs
      · exact hp.removeConflict nBytesPerSigOp C he
      · exact hp

/-- The first part of one transaction of `removeForBlock`: its entry leaves
alone, where the pool holds it and it spends no entry of the pool. -/
theorem Checked.blockStaged (h : pool.Checked nBytesPerSigOp C) (tx : CTransaction)
    (hno : C.getHash tx ∈ pool.mapTx → ∀ p, ¬pool.Spends (C.getHash tx) p) :
    (if C.getHash tx ∈ pool.mapTx then pool.removeStaged nBytesPerSigOp [C.getHash tx] true else pool).Checked
        nBytesPerSigOp C ∧
      C.getHash tx ∉ (if C.getHash tx ∈ pool.mapTx then pool.removeStaged nBytesPerSigOp [C.getHash tx] true
        else pool).mapTx := by
  split_ifs with hh
  · obtain ⟨eit, heit⟩ := Option.isSome_iff_exists.mp (AList.lookup_isSome.mpr hh)
    exact ⟨checked_removeStaged h.nextTx h.complete h.keyed
        (consistent_removeStaged_singleton nBytesPerSigOp h.consistent hh (hno hh)),
      (removesEntry_removeStaged_singleton nBytesPerSigOp h.consistent.toLinksConsistent heit).gone⟩
  · exact ⟨h, hh⟩

/-- One transaction of `removeForBlock` leaves no entry under its hash:
`removeConflicts` only removes, and clearing the fee delta leaves `mapTx`. -/
theorem Checked.not_mem_removeForBlockTx (h : pool.Checked nBytesPerSigOp C) (tx : CTransaction)
    (hno : C.getHash tx ∈ pool.mapTx → ∀ p, ¬pool.Spends (C.getHash tx) p) :
    C.getHash tx ∉ (pool.removeForBlockTx nBytesPerSigOp C tx).mapTx :=
  fun hin => (h.blockStaged nBytesPerSigOp C tx hno).2 (mem_of_mem_removeConflicts nBytesPerSigOp C tx hin)

/-- One transaction of `removeForBlock`: where the pool holds it, it spends no
entry of the pool, as when the block's transactions before it have left. -/
theorem Checked.removeForBlockTx (h : pool.Checked nBytesPerSigOp C) (tx : CTransaction)
    (hno : C.getHash tx ∈ pool.mapTx → ∀ p, ¬pool.Spends (C.getHash tx) p) :
    (pool.removeForBlockTx nBytesPerSigOp C tx).Checked nBytesPerSigOp C := by
  have h₂ := (h.blockStaged nBytesPerSigOp C tx hno).1.removeConflicts nBytesPerSigOp C tx
  have hgone₂ := h.not_mem_removeForBlockTx nBytesPerSigOp C tx hno
  simp only [CTxMemPool.removeForBlockTx]
  exact h₂.of_keepsTxs (keepsTxs_clearPrioritisation _) (h₂.consistent.clearPrioritisation nBytesPerSigOp hgone₂)

end Checked

section Conflicts

/-- Each entry of `pool'` holds the transaction `pool` holds under its hash. -/
def TxsWithin (pool' pool : CTxMemPool) : Prop :=
  ∀ x e', pool'.mapTx.lookup x = some e' → ∃ e, pool.mapTx.lookup x = some e ∧ e.tx = e'.tx

/-- No entry spends the outpoint. -/
def NoSpender (pool : CTxMemPool) (o : COutPoint) : Prop :=
  ∀ x e, pool.mapTx.lookup x = some e → ∀ txin ∈ e.tx.vin, txin.prevout ≠ o

theorem TxsWithin.refl (pool : CTxMemPool) : pool.TxsWithin pool := fun _ e h => ⟨e, h, rfl⟩

theorem TxsWithin.trans {p₁ p₂ p₃ : CTxMemPool} (h₁ : p₂.TxsWithin p₁) (h₂ : p₃.TxsWithin p₂) :
    p₃.TxsWithin p₁ := fun x e₃ h => by
  obtain ⟨e₂, he₂, htx₂⟩ := h₂ x e₃ h
  obtain ⟨e₁, he₁, htx₁⟩ := h₁ x e₂ he₂
  exact ⟨e₁, he₁, htx₁.trans htx₂⟩

theorem TxsWithin.mem {pool' : CTxMemPool} (hw : pool'.TxsWithin pool) {x : uint256} (h : x ∈ pool'.mapTx) :
    x ∈ pool.mapTx := by
  obtain ⟨e', he'⟩ := Option.isSome_iff_exists.mp (AList.lookup_isSome.mpr h)
  obtain ⟨e, he, -⟩ := hw x e' he'
  exact mem_of_lookup he

/-- An entry of `pool'` spends in `pool` what it spends in `pool'`. -/
theorem Spends.of_txsWithin {pool' : CTxMemPool} (hw : pool'.TxsWithin pool) {c p : uint256}
    (h : pool'.Spends c p) : pool.Spends c p := by
  obtain ⟨hp, e', he', txin, htxin, hhash⟩ := h
  obtain ⟨e, he, htx⟩ := hw c e' he'
  exact ⟨hw.mem hp, e, he, txin, htx ▸ htxin, hhash⟩

theorem NoSpender.of_txsWithin {pool' : CTxMemPool} {o : COutPoint} (h : pool.NoSpender o)
    (hw : pool'.TxsWithin pool) : pool'.NoSpender o := fun x e' he' txin htxin => by
  obtain ⟨e, he, htx⟩ := hw x e' he'
  exact h x e he txin (htx ▸ htxin)

/-- With every input marked, an outpoint `mapNextTx` does not name has no spender. -/
theorem NoSpender.of_none (hn : pool.NextTxComplete) {o : COutPoint} (h : pool.mapNextTx.lookup o = none) :
    pool.NoSpender o := fun x e he txin htxin ho => by
  have := hn x e he txin htxin
  rw [ho, h] at this
  cases this

/-- What one transaction of `removeForBlock` leaves: no entry under its hash,
and no entry spending one of its inputs. -/
structure Cleared (pool : CTxMemPool) (C : Crypto) (tx : CTransaction) : Prop where
  gone : C.getHash tx ∉ pool.mapTx
  noSpender : ∀ txin ∈ tx.vin, pool.NoSpender txin.prevout

theorem Cleared.of_txsWithin {pool' : CTxMemPool} {tx : CTransaction} (h : pool.Cleared C tx)
    (hw : pool'.TxsWithin pool) : pool'.Cleared C tx :=
  ⟨fun hin => h.gone (hw.mem hin), fun txin htxin => (h.noSpender txin htxin).of_txsWithin hw⟩

theorem txsWithin_removeRecursive (origTx : CTransaction) :
    (pool.removeRecursive nBytesPerSigOp C origTx).TxsWithin pool := fun _ _ h => by
  simp only [removeRecursive] at h
  exact lookup_removeStaged_tx nBytesPerSigOp h

/-- A loop over inputs, each of whose rounds keeps `Q`, keeps only entries of
the pool and leaves no spender of its input, leaves no spender of any input. -/
theorem foldl_noSpender {g : CTxMemPool → CTxIn → CTxMemPool} {Q : CTxMemPool → Prop}
    (hg : ∀ p txin, Q p → Q (g p txin) ∧ (g p txin).TxsWithin p ∧ (g p txin).NoSpender txin.prevout) :
    ∀ (l : List CTxIn) (p : CTxMemPool), Q p →
      (l.foldl g p).TxsWithin p ∧ ∀ t ∈ l, (l.foldl g p).NoSpender t.prevout
  | [], p, _ => ⟨TxsWithin.refl p, fun _ h => absurd h List.not_mem_nil⟩
  | txin :: l, p, hp => by
    obtain ⟨hq, hw, hnone⟩ := hg p txin hp
    obtain ⟨hw', hrest⟩ := foldl_noSpender hg l (g p txin) hq
    refine ⟨hw.trans hw', fun t ht => ?_⟩
    rcases List.mem_cons.mp ht with rfl | ht
    · exact hnone.of_txsWithin hw'
    · exact hrest t ht

variable (nBytesPerSigOp C)

/-- `removeConflicts` of a transaction the pool does not hold keeps only
entries of the pool, and leaves no entry spending one of its inputs: the one
spender `mapNextTx` names leaves with its descendants. -/
theorem Checked.removeConflicts_clears (h : pool.Checked nBytesPerSigOp C) {tx : CTransaction}
    (hh : C.getHash tx ∉ pool.mapTx) :
    (pool.removeConflicts nBytesPerSigOp C tx).TxsWithin pool ∧
      ∀ t ∈ tx.vin, (pool.removeConflicts nBytesPerSigOp C tx).NoSpender t.prevout := by
  simp only [CTxMemPool.removeConflicts]
  refine foldl_noSpender (Q := fun p : CTxMemPool => p.Checked nBytesPerSigOp C ∧ C.getHash tx ∉ p.mapTx)
    (fun p txin hp => ?_) tx.vin pool ⟨h, hh⟩
  obtain ⟨hp, hhp⟩ := hp
  split
  · rename_i hnone
    exact ⟨⟨hp, hhp⟩, TxsWithin.refl p, NoSpender.of_none hp.complete hnone⟩
  · rename_i conflict hnext
    split
    · -- `mapNextTx` names only entries of the pool
      rename_i hnone
      obtain ⟨e, he, -⟩ := hp.nextTx _ _ hnext
      rw [hnone] at he
      cases he
    · rename_i e he
      split_ifs with hne
      · obtain ⟨S, hS, -, hcS⟩ := removeConflict_eq nBytesPerSigOp C hp he
        have hw : ((p.clearPrioritisation conflict).removeRecursive nBytesPerSigOp C e.tx).TxsWithin p :=
          txsWithin_removeRecursive e.tx
        refine ⟨⟨hp.removeConflict nBytesPerSigOp C he,
          fun hin => hhp (show C.getHash tx ∈ (p.clearPrioritisation conflict).mapTx from
            mem_of_mem_removeRecursive nBytesPerSigOp C _ hin)⟩, hw, fun x ex hx t ht ho => ?_⟩
        -- the one spender of the outpoint is the conflict, which has left
        obtain ⟨e₀, he₀, htx⟩ := hw x ex hx
        have hnext' : p.mapNextTx.lookup t.prevout = some conflict := by rw [ho]; exact hnext
        have hxc : x = conflict := Option.some.inj ((hp.complete x e₀ he₀ t (htx ▸ ht)).symm.trans hnext')
        have hgone : conflict ∉ ((p.clearPrioritisation conflict).removeRecursive nBytesPerSigOp C e.tx).mapTx := by
          rw [hS, mem_removeStaged]
          exact fun hin => hin.1 hcS
        rw [hxc] at hx
        exact hgone (mem_of_lookup hx)
      · -- a conflict under the transaction's own hash would be the transaction
        have hkey : C.getHash e.tx = conflict := hp.keyed conflict e he
        exact absurd (hkey.symm.trans (not_not.mp hne) ▸ mem_of_lookup he) hhp

/-- One transaction of `removeForBlock` keeps only entries of the pool, and
leaves the transaction cleared: gone, and no entry spending one of its inputs. -/
theorem Checked.removeForBlockTx_within (h : pool.Checked nBytesPerSigOp C) (tx : CTransaction)
    (hno : C.getHash tx ∈ pool.mapTx → ∀ p, ¬pool.Spends (C.getHash tx) p) :
    (pool.removeForBlockTx nBytesPerSigOp C tx).TxsWithin pool ∧
      (pool.removeForBlockTx nBytesPerSigOp C tx).Cleared C tx := by
  obtain ⟨h₁, hgone⟩ := h.blockStaged nBytesPerSigOp C tx hno
  obtain ⟨hw, hclear⟩ := h₁.removeConflicts_clears nBytesPerSigOp C hgone
  -- the entry leaves alone; clearing the fee delta at the end leaves `mapTx`
  have hstaged : (if C.getHash tx ∈ pool.mapTx then pool.removeStaged nBytesPerSigOp [C.getHash tx] true
      else pool).TxsWithin pool := by
    split_ifs
    · exact fun _ _ hy => lookup_removeStaged_tx nBytesPerSigOp hy
    · exact TxsWithin.refl pool
  exact ⟨hstaged.trans hw, h.not_mem_removeForBlockTx nBytesPerSigOp C tx hno, hclear⟩

end Conflicts

end CTxMemPool
end Packages
end AokChain
