import AokChain.Mempool.ClosedRemoval
import AokChain.Mempool.Prioritise

/-!
# The spenders index and the keys of the pool

More facts of `CTxMemPool::check`: each outpoint of `mapNextTx` is spent by
the entry it names (`NextTxWithin`), each input of each entry is marked in
`mapNextTx` under the entry (`NextTxComplete`), and each entry of `mapTx` sits
under the hash of its transaction (`KeyedBy`).  `removeRecursive` asserts the
first of the spenders it finds, and `removeConflicts` needs the last to remove
a conflict by its transaction.  The package updates keep the transactions and
the spenders index (`KeepsTxs`); `removeUnchecked` keeps the three facts on its
own, and `addUnchecked` where the new transaction spends no outpoint of
`mapNextTx`, which `AcceptToMemoryPoolWorker` rejects as `txn-mempool-conflict`.
-/

namespace AokChain
namespace Packages
namespace CTxMemPool

open CTxMemPoolEntry

variable (C : Crypto) (pool : CTxMemPool)

/-- Each outpoint of `mapNextTx` is spent by the entry it names. -/
def NextTxWithin : Prop :=
  ∀ o h, pool.mapNextTx.lookup o = some h → ∃ e, pool.mapTx.lookup h = some e ∧ ∃ txin ∈ e.tx.vin, txin.prevout = o

/-- Each input of each entry is marked in `mapNextTx` under the entry. -/
def NextTxComplete : Prop :=
  ∀ x e, pool.mapTx.lookup x = some e → ∀ txin ∈ e.tx.vin, pool.mapNextTx.lookup txin.prevout = some x

/-- Each entry sits under the hash of its transaction. -/
def KeyedBy : Prop := ∀ x e, pool.mapTx.lookup x = some e → C.getHash e.tx = x

/-- An update keeps the transactions and the spenders index. -/
structure KeepsTxs (pool pool' : CTxMemPool) : Prop where
  txs : pool.SameTxs pool'
  nextTx : pool'.mapNextTx = pool.mapNextTx

variable {C pool} {pool' pool'' : CTxMemPool}

theorem mem_of_lookup {x : uint256} {e : CTxMemPoolEntry} (h : pool.mapTx.lookup x = some e) : x ∈ pool.mapTx :=
  AList.lookup_isSome.mp (by rw [h]; rfl)

namespace KeepsTxs

theorem refl (pool : CTxMemPool) : pool.KeepsTxs pool := ⟨fun _ => rfl, rfl⟩

theorem trans (h : pool.KeepsTxs pool') (h' : pool'.KeepsTxs pool'') : pool.KeepsTxs pool'' :=
  ⟨h.txs.trans h'.txs, h'.nextTx.trans h.nextTx⟩

theorem of_mapTx (hm : pool'.mapTx = pool.mapTx) (hn : pool'.mapNextTx = pool.mapNextTx) : pool.KeepsTxs pool' :=
  ⟨fun y => by rw [hm], hn⟩

/-- A loop of updates that each keep the transactions keeps them. -/
theorem foldl {α : Type} {g : CTxMemPool → α → CTxMemPool} (hg : ∀ (p : CTxMemPool) (a : α), p.KeepsTxs (g p a)) :
    ∀ (l : List α) (pool : CTxMemPool), pool.KeepsTxs (l.foldl g pool)
  | [], pool => refl pool
  | a :: l, pool => (hg pool a).trans (foldl hg l _)

theorem nextTxWithin (h : pool.KeepsTxs pool') (hn : pool.NextTxWithin) : pool'.NextTxWithin := by
  intro o x hx
  rw [h.nextTx] at hx
  obtain ⟨e, he, hspend⟩ := hn o x hx
  have htx := h.txs x
  rw [he, Option.map_some] at htx
  obtain ⟨e', he', htx'⟩ := Option.map_eq_some_iff.mp htx
  exact ⟨e', he', htx' ▸ hspend⟩

/-- An entry after the update is one of the pool before, up to its package state. -/
theorem lookup_of_lookup (h : pool.KeepsTxs pool') {x : uint256} {e' : CTxMemPoolEntry}
    (he' : pool'.mapTx.lookup x = some e') : ∃ e, pool.mapTx.lookup x = some e ∧ e.tx = e'.tx := by
  have htx := h.txs x
  rw [he', Option.map_some] at htx
  exact Option.map_eq_some_iff.mp htx.symm

theorem keyedBy (h : pool.KeepsTxs pool') (hk : pool.KeyedBy C) : pool'.KeyedBy C := by
  intro x e' he'
  obtain ⟨e, he, htx⟩ := h.lookup_of_lookup he'
  rw [← htx]
  exact hk x e he

theorem nextTxComplete (h : pool.KeepsTxs pool') (hn : pool.NextTxComplete) : pool'.NextTxComplete := by
  intro x e' he' txin htxin
  obtain ⟨e, he, htx⟩ := h.lookup_of_lookup he'
  rw [h.nextTx]
  exact hn x e he txin (htx ▸ htxin)

end KeepsTxs

section Updates

variable (nBytesPerSigOp : ℕ)

theorem keepsTxs_modifyEntry {f : CTxMemPoolEntry → CTxMemPoolEntry} (hf : ∀ e, (f e).tx = e.tx) (y : uint256) :
    pool.KeepsTxs (pool.modifyEntry y f) := by
  refine ⟨fun z => ?_, by unfold modifyEntry; split <;> rfl⟩
  rw [lookup_modifyEntry]
  split
  · rw [Option.map_map]
    exact Option.map_congr fun e _ => hf e
  · rfl

theorem keepsTxs_foldl_modifyEntry {f : CTxMemPoolEntry → CTxMemPoolEntry} (hf : ∀ e, (f e).tx = e.tx)
    (l : setEntries) (pool : CTxMemPool) : pool.KeepsTxs (l.foldl (fun pool y => pool.modifyEntry y f) pool) :=
  KeepsTxs.foldl (fun _ a => keepsTxs_modifyEntry hf a) l pool

theorem keepsTxs_updateChild (e c : uint256) (add : Bool) : pool.KeepsTxs (pool.updateChild e c add) :=
  KeepsTxs.of_mapTx rfl rfl

theorem keepsTxs_updateParent (e c : uint256) (add : Bool) : pool.KeepsTxs (pool.updateParent e c add) :=
  KeepsTxs.of_mapTx rfl rfl

theorem keepsTxs_updateAncestorsOf (add : Bool) (it : uint256) (setAncestors : setEntries) :
    pool.KeepsTxs (pool.updateAncestorsOf nBytesPerSigOp add it setAncestors) := by
  have hlinks := KeepsTxs.foldl (g := fun pool piter => pool.updateChild piter it add)
    (fun _ a => keepsTxs_updateChild a it add) (pool.getMemPoolParents it) pool
  dsimp only [updateAncestorsOf]
  split
  · exact hlinks
  · exact hlinks.trans (keepsTxs_foldl_modifyEntry (fun _ => by rfl) _ _)

theorem keepsTxs_removeFromDescendants (removeIt : uint256) :
    pool.KeepsTxs (pool.removeFromDescendants nBytesPerSigOp removeIt) := by
  simp only [removeFromDescendants]
  split
  · exact KeepsTxs.refl pool
  · exact keepsTxs_foldl_modifyEntry (fun _ => by rfl) _ _

theorem keepsTxs_removeFromAncestors (removeIt : uint256) :
    pool.KeepsTxs (pool.removeFromAncestors nBytesPerSigOp removeIt) := by
  unfold removeFromAncestors
  split
  · exact KeepsTxs.refl pool
  · exact keepsTxs_updateAncestorsOf nBytesPerSigOp false removeIt _

theorem keepsTxs_updateChildrenForRemoval (it : uint256) : pool.KeepsTxs (pool.updateChildrenForRemoval it) :=
  KeepsTxs.foldl (fun _ a => keepsTxs_updateParent a it false) _ _

theorem keepsTxs_updateForRemoveFromMempool (entriesToRemove : setEntries) (updateDescendants : Bool) :
    pool.KeepsTxs (pool.updateForRemoveFromMempool nBytesPerSigOp entriesToRemove updateDescendants) := by
  have hdesc : pool.KeepsTxs (if updateDescendants then
      entriesToRemove.foldl (fun pool removeIt => pool.removeFromDescendants nBytesPerSigOp removeIt) pool
    else pool) := by
    split
    · exact KeepsTxs.foldl (fun _ a => keepsTxs_removeFromDescendants nBytesPerSigOp a) _ _
    · exact KeepsTxs.refl pool
  exact hdesc.trans ((KeepsTxs.foldl (fun _ a => keepsTxs_removeFromAncestors nBytesPerSigOp a) _ _).trans
    (KeepsTxs.foldl (fun _ a => keepsTxs_updateChildrenForRemoval a) _ _))

theorem keepsTxs_updateEntryForAncestors (it : uint256) (setAncestors : setEntries) :
    pool.KeepsTxs (pool.updateEntryForAncestors nBytesPerSigOp it setAncestors) := by
  simp only [updateEntryForAncestors]
  exact keepsTxs_modifyEntry (fun _ => by rfl) it

theorem keepsTxs_prioritiseTransaction (hash : uint256) (nFeeDelta : CAmount) :
    pool.KeepsTxs (pool.prioritiseTransaction nBytesPerSigOp hash nFeeDelta) := by
  have hdeltas : ∀ d : Finmap fun _ : uint256 => CAmount, pool.KeepsTxs { pool with mapDeltas := d } :=
    fun _ => KeepsTxs.of_mapTx rfl rfl
  simp only [prioritiseTransaction]
  split
  · exact hdeltas _
  · -- the descendants' loop, the ancestors' loop, the entry, then the delta
    refine KeepsTxs.trans ?_ (keepsTxs_foldl_modifyEntry (fun _ => by rfl) _ _)
    refine KeepsTxs.trans ?_ (keepsTxs_foldl_modifyEntry (fun _ => by rfl) _ _)
    exact (hdeltas _).trans (keepsTxs_modifyEntry (fun _ => by rfl) hash)

theorem keepsTxs_clearPrioritisation (hash : uint256) : pool.KeepsTxs (pool.clearPrioritisation hash) :=
  KeepsTxs.of_mapTx rfl rfl

end Updates

section Unchecked

variable {it : uint256}

/-- `mapNextTx` after the inputs of a removed entry are erased. -/
theorem lookup_foldl_erase_prevout {x : uint256} :
    ∀ (l : List CTxIn) (m : Finmap fun _ : COutPoint => uint256) (o : COutPoint),
      (l.foldl (fun mapNextTx txin => mapNextTx.erase txin.prevout) m).lookup o = some x →
        m.lookup o = some x ∧ ∀ txin ∈ l, txin.prevout ≠ o
  | [], _, _, h => ⟨h, fun _ h => absurd h List.not_mem_nil⟩
  | txin :: l, m, o, h => by
    obtain ⟨herase, hl⟩ := lookup_foldl_erase_prevout l (m.erase txin.prevout) o h
    have hne : txin.prevout ≠ o := fun heq => by rw [heq, Finmap.lookup_erase] at herase; cases herase
    rw [Finmap.lookup_erase_ne hne.symm] at herase
    exact ⟨herase, fun t ht => (List.mem_cons.mp ht).elim (fun h => h ▸ hne) (hl t)⟩

theorem NextTxWithin.removeUnchecked (hn : pool.NextTxWithin) : (pool.removeUnchecked it).NextTxWithin := by
  unfold CTxMemPool.removeUnchecked
  cases hit : pool.mapTx.lookup it with
  | none => exact hn
  | some eit =>
    intro o x hx
    obtain ⟨hold, hnot⟩ := lookup_foldl_erase_prevout eit.tx.vin pool.mapNextTx o hx
    obtain ⟨e, he, txin, htxin, hpo⟩ := hn o x hold
    -- the entry removed spends none of the outpoints left
    have hxit : x ≠ it := by
      rintro rfl
      rw [hit, Option.some.injEq] at he
      exact hnot txin (he ▸ htxin) hpo
    exact ⟨e, by rw [AList.lookup_erase_ne hxit]; exact he, txin, htxin, hpo⟩

theorem KeyedBy.removeUnchecked (hk : pool.KeyedBy C) : (pool.removeUnchecked it).KeyedBy C := by
  intro x e he
  rw [lookup_removeUnchecked] at he
  split_ifs at he
  exact hk x e he

/-- With every input marked, no two entries spend one outpoint. -/
theorem NextTxComplete.eq_of_prevout (hn : pool.NextTxComplete) {x y : uint256} {ex ey : CTxMemPoolEntry}
    (hx : pool.mapTx.lookup x = some ex) (hy : pool.mapTx.lookup y = some ey) {tx ty : CTxIn}
    (htx : tx ∈ ex.tx.vin) (hty : ty ∈ ey.tx.vin) (ho : tx.prevout = ty.prevout) : x = y :=
  Option.some.inj ((hn x ex hx tx htx).symm.trans (ho ▸ hn y ey hy ty hty))

/-- Erasing inputs that spend other outpoints leaves the spender of `o`. -/
theorem lookup_foldl_erase_prevout_of_ne {o : COutPoint} :
    ∀ (l : List CTxIn) (m : Finmap fun _ : COutPoint => uint256), (∀ txin ∈ l, txin.prevout ≠ o) →
      (l.foldl (fun mapNextTx txin => mapNextTx.erase txin.prevout) m).lookup o = m.lookup o
  | [], _, _ => rfl
  | txin :: l, m, h => by
    rw [List.foldl_cons, lookup_foldl_erase_prevout_of_ne l _ fun t ht => h t (List.mem_cons_of_mem txin ht),
      Finmap.lookup_erase_ne (h txin List.mem_cons_self).symm]

theorem NextTxComplete.removeUnchecked (hn : pool.NextTxComplete) : (pool.removeUnchecked it).NextTxComplete := by
  unfold CTxMemPool.removeUnchecked
  cases hit : pool.mapTx.lookup it with
  | none => exact hn
  | some eit =>
    intro x e he txin htxin
    have hxit : x ≠ it := by
      rintro rfl
      rw [AList.lookup_erase] at he
      cases he
    rw [AList.lookup_erase_ne hxit] at he
    -- the entry removed spends none of the inputs of another
    have hne : ∀ t ∈ eit.tx.vin, t.prevout ≠ txin.prevout :=
      fun t ht ho => hxit (hn.eq_of_prevout he hit htxin ht ho.symm)
    exact (lookup_foldl_erase_prevout_of_ne _ _ hne).trans (hn x e he txin htxin)

variable (nBytesPerSigOp : ℕ) (stage : setEntries) (updateDescendants : Bool)

/-- A fact the updates and `removeUnchecked` keep, `RemoveStaged` keeps. -/
theorem removeStaged_of {P : CTxMemPool → Prop} (hkeeps : ∀ p p' : CTxMemPool, p.KeepsTxs p' → P p → P p')
    (hremove : ∀ (p : CTxMemPool) (it : uint256), P p → P (p.removeUnchecked it)) (h : P pool) :
    P (pool.removeStaged nBytesPerSigOp stage updateDescendants) :=
  List.foldlRecOn (motive := P) stage _
    (hkeeps _ _ (keepsTxs_updateForRemoveFromMempool nBytesPerSigOp stage updateDescendants) h)
    fun p hp it _ => hremove p it hp

theorem NextTxWithin.removeStaged (hn : pool.NextTxWithin) :
    (pool.removeStaged nBytesPerSigOp stage updateDescendants).NextTxWithin :=
  removeStaged_of nBytesPerSigOp stage updateDescendants (fun _ _ hk hn => hk.nextTxWithin hn)
    (fun _ _ hn => hn.removeUnchecked) hn

theorem NextTxComplete.removeStaged (hn : pool.NextTxComplete) :
    (pool.removeStaged nBytesPerSigOp stage updateDescendants).NextTxComplete :=
  removeStaged_of nBytesPerSigOp stage updateDescendants (fun _ _ hk hn => hk.nextTxComplete hn)
    (fun _ _ hn => hn.removeUnchecked) hn

theorem KeyedBy.removeStaged (hk : pool.KeyedBy C) :
    (pool.removeStaged nBytesPerSigOp stage updateDescendants).KeyedBy C :=
  removeStaged_of nBytesPerSigOp stage updateDescendants (fun _ _ h hk => h.keyedBy hk)
    (fun _ _ hk => hk.removeUnchecked) hk

end Unchecked

section Add

variable (nBytesPerSigOp : ℕ) {hash : uint256} {entry : CTxMemPoolEntry} {setAncestors : setEntries}

/-- The spenders index after the new entry's inputs are added: an outpoint
named before, or one of the inputs, named for the new entry. -/
theorem lookup_foldl_insert_prevout {x : uint256} :
    ∀ (l : List CTxIn) (m : Finmap fun _ : COutPoint => uint256) (o : COutPoint),
      (l.foldl (fun mapNextTx (txin : CTxIn) =>
        if txin.prevout ∈ mapNextTx then mapNextTx else mapNextTx.insert txin.prevout hash) m).lookup o = some x →
        m.lookup o = some x ∨ (x = hash ∧ ∃ txin ∈ l, txin.prevout = o)
  | [], _, _, h => .inl h
  | txin :: l, m, o, h => by
    rcases lookup_foldl_insert_prevout l _ o h with hm | ⟨rfl, t, ht, hto⟩
    · dsimp only at hm
      split at hm
      · exact .inl hm
      · by_cases ho : o = txin.prevout
        · rw [ho, Finmap.lookup_insert, Option.some.injEq] at hm
          exact .inr ⟨hm.symm, txin, List.mem_cons_self, ho.symm⟩
        · rw [Finmap.lookup_insert_of_ne _ ho] at hm
          exact .inl hm
    · exact .inr ⟨rfl, t, List.mem_cons_of_mem txin ht, hto⟩

theorem mapNextTx_addLinked (hfresh : hash ∉ pool.mapTx) :
    (pool.addLinked hash entry).mapNextTx = entry.tx.vin.foldl (fun mapNextTx (txin : CTxIn) =>
      if txin.prevout ∈ mapNextTx then mapNextTx else mapNextTx.insert txin.prevout hash) pool.mapNextTx := by
  simp only [addLinked, AList.lookup_eq_none.mpr hfresh, Option.getD_none]
  rw [foldl_keeps (·.mapNextTx) fun p a => by split <;> rfl]
  split
  · split <;> simp [modifyEntry]
  · rfl

theorem NextTxWithin.addUnchecked (hn : pool.NextTxWithin) (hfresh : hash ∉ pool.mapTx)
    (hlinks : hash ∉ pool.mapLinks) :
    (pool.addUnchecked nBytesPerSigOp hash entry setAncestors).NextTxWithin := by
  have hlinked : (pool.addLinked hash entry).NextTxWithin := by
    intro o x hx
    rw [mapNextTx_addLinked hfresh] at hx
    rcases lookup_foldl_insert_prevout entry.tx.vin pool.mapNextTx o hx with hold | ⟨rfl, txin, htxin, hpo⟩
    · obtain ⟨e, he, hspend⟩ := hn o x hold
      have hxh : x ≠ hash := fun h => hfresh (h ▸ mem_of_lookup he)
      exact ⟨e, by rw [lookup_addLinked hfresh hlinks, if_neg hxh, he], hspend⟩
    · exact ⟨_, lookup_addLinked_self hfresh hlinks, txin, by rw [tx_applyDelta]; exact htxin, hpo⟩
  rw [addUnchecked_eq]
  exact ((keepsTxs_updateAncestorsOf nBytesPerSigOp true hash setAncestors).trans
    (keepsTxs_updateEntryForAncestors nBytesPerSigOp hash setAncestors)).nextTxWithin hlinked

/-- The spenders index keeps the outpoints it names while the new entry's inputs join it. -/
theorem lookup_foldl_insert_prevout_of_some {o : COutPoint} {x : uint256} :
    ∀ (l : List CTxIn) (m : Finmap fun _ : COutPoint => uint256), m.lookup o = some x →
      (l.foldl (fun mapNextTx (txin : CTxIn) =>
        if txin.prevout ∈ mapNextTx then mapNextTx else mapNextTx.insert txin.prevout hash) m).lookup o = some x
  | [], _, h => h
  | txin :: l, m, h => by
    refine lookup_foldl_insert_prevout_of_some l _ ?_
    dsimp only
    split
    · exact h
    · rename_i hnot
      rw [Finmap.lookup_insert_of_ne _ fun ho : o = txin.prevout => hnot (ho ▸ Finmap.lookup_isSome.mp (by rw [h]; rfl))]
      exact h

/-- An input of the new entry that spends an outpoint not yet named is named for it. -/
theorem lookup_foldl_insert_prevout_of_mem {o : COutPoint} :
    ∀ (l : List CTxIn) (m : Finmap fun _ : COutPoint => uint256), m.lookup o = none → (∃ txin ∈ l, txin.prevout = o) →
      (l.foldl (fun mapNextTx (txin : CTxIn) =>
        if txin.prevout ∈ mapNextTx then mapNextTx else mapNextTx.insert txin.prevout hash) m).lookup o = some hash
  | [], _, _, ⟨_, h, _⟩ => absurd h List.not_mem_nil
  | txin :: l, m, hnone, ⟨t, ht, hto⟩ => by
    rw [List.foldl_cons]
    by_cases ho : txin.prevout = o
    · refine lookup_foldl_insert_prevout_of_some l _ ?_
      rw [if_neg (ho ▸ Finmap.lookup_eq_none.mp hnone), ho, Finmap.lookup_insert]
    · have ht' : t ∈ l := (List.mem_cons.mp ht).resolve_left fun h => ho (h ▸ hto)
      refine lookup_foldl_insert_prevout_of_mem l _ ?_ ⟨t, ht', hto⟩
      split
      · exact hnone
      · rw [Finmap.lookup_insert_of_ne _ (Ne.symm ho)]
        exact hnone

/-- `addUnchecked` of a transaction that spends no outpoint `mapNextTx` names
marks its inputs under its hash. -/
theorem NextTxComplete.addUnchecked (hn : pool.NextTxComplete) (hfresh : hash ∉ pool.mapTx)
    (hlinks : hash ∉ pool.mapLinks) (hconflict : ∀ txin ∈ entry.tx.vin, pool.mapNextTx.lookup txin.prevout = none) :
    (pool.addUnchecked nBytesPerSigOp hash entry setAncestors).NextTxComplete := by
  have hlinked : (pool.addLinked hash entry).NextTxComplete := by
    intro x e he txin htxin
    rw [mapNextTx_addLinked hfresh]
    rw [lookup_addLinked hfresh hlinks] at he
    split_ifs at he with hx
    · rw [← Option.some.inj he, tx_applyDelta] at htxin
      rw [hx]
      exact lookup_foldl_insert_prevout_of_mem _ _ (hconflict txin htxin) ⟨txin, htxin, rfl⟩
    · exact lookup_foldl_insert_prevout_of_some _ _ (hn x e he txin htxin)
  rw [addUnchecked_eq]
  exact ((keepsTxs_updateAncestorsOf nBytesPerSigOp true hash setAncestors).trans
    (keepsTxs_updateEntryForAncestors nBytesPerSigOp hash setAncestors)).nextTxComplete hlinked

theorem KeyedBy.addUnchecked (hk : pool.KeyedBy C) (hfresh : hash ∉ pool.mapTx) (hlinks : hash ∉ pool.mapLinks)
    (hkey : C.getHash entry.tx = hash) :
    (pool.addUnchecked nBytesPerSigOp hash entry setAncestors).KeyedBy C := by
  have hlinked : (pool.addLinked hash entry).KeyedBy C := by
    intro x e he
    rw [lookup_addLinked hfresh hlinks] at he
    split_ifs at he with hx
    · rw [← Option.some.inj he, tx_applyDelta, hkey, hx]
    · exact hk x e he
  rw [addUnchecked_eq]
  exact ((keepsTxs_updateAncestorsOf nBytesPerSigOp true hash setAncestors).trans
    (keepsTxs_updateEntryForAncestors nBytesPerSigOp hash setAncestors)).keyedBy hlinked

end Add

section Checked

variable (nBytesPerSigOp : ℕ) (C : Crypto)

/-- The facts of `CTxMemPool::check` the model keeps: consistent packages, the
spenders index within the pool and marking every input, and each entry under
its hash. -/
structure Checked (pool : CTxMemPool) : Prop where
  consistent : pool.Consistent nBytesPerSigOp
  nextTx : pool.NextTxWithin
  complete : pool.NextTxComplete
  keyed : pool.KeyedBy C

theorem checked_empty : empty.Checked nBytesPerSigOp C where
  consistent := consistent_empty nBytesPerSigOp
  nextTx _ _ h := by cases h
  complete _ _ h := by cases h
  keyed _ _ h := by cases h

variable {nBytesPerSigOp C} {tx : CTransaction} {nFee : CAmount} {nTime : Int64} {entryHeight : UInt32}
  {spendsCoinbase : Bool} {sigOpCost : ℕ}

/-- The end of `AcceptToMemoryPoolWorker`: `addUnchecked` of a new
transaction, under its hash, spending no outpoint an entry spends and none of
its own outputs, that no entry spends, with the ancestors
`CalculateMemPoolAncestors` found. -/
theorem Checked.accept (h : pool.Checked nBytesPerSigOp C) (hfresh : C.getHash tx ∉ pool.mapTx)
    (hconflict : ∀ txin ∈ tx.vin, pool.mapNextTx.lookup txin.prevout = none)
    (hunspent : ∀ c e, pool.mapTx.lookup c = some e → ∀ txin ∈ e.tx.vin, txin.prevout.hash ≠ C.getHash tx)
    (hself : ∀ txin ∈ tx.vin, txin.prevout.hash ≠ C.getHash tx) {limits : Limits}
    (hanc : pool.calculateMemPoolAncestors nBytesPerSigOp (C.getHash tx)
      (make nBytesPerSigOp tx nFee nTime entryHeight spendsCoinbase sigOpCost) limits true = (setAncestors, none)) :
    (pool.addUnchecked nBytesPerSigOp (C.getHash tx) (make nBytesPerSigOp tx nFee nTime entryHeight spendsCoinbase
      sigOpCost) setAncestors).Checked nBytesPerSigOp C := by
  have hlinks : C.getHash tx ∉ pool.mapLinks := (h.consistent.links_keys _).not.mpr hfresh
  exact ⟨addUnchecked_consistent nBytesPerSigOp h.consistent hfresh hunspent hself hanc,
    h.nextTx.addUnchecked nBytesPerSigOp hfresh hlinks, h.complete.addUnchecked nBytesPerSigOp hfresh hlinks hconflict,
    h.keyed.addUnchecked nBytesPerSigOp hfresh hlinks rfl⟩

/-- An update that keeps the transactions and `mapNextTx` keeps the index
facts, so only the packages are left to check. -/
theorem Checked.of_keepsTxs (h : pool.Checked nBytesPerSigOp C) (hk : pool.KeepsTxs pool')
    (hc : pool'.Consistent nBytesPerSigOp) : pool'.Checked nBytesPerSigOp C :=
  ⟨hc, hk.nextTxWithin h.nextTx, hk.nextTxComplete h.complete, hk.keyedBy h.keyed⟩

/-- `RemoveStaged` keeps the index facts, so only the packages are left to check. -/
theorem checked_removeStaged {S : setEntries} {updateDescendants : Bool} (hn : pool.NextTxWithin)
    (hcomplete : pool.NextTxComplete) (hk : pool.KeyedBy C)
    (hc : (pool.removeStaged nBytesPerSigOp S updateDescendants).Consistent nBytesPerSigOp) :
    (pool.removeStaged nBytesPerSigOp S updateDescendants).Checked nBytesPerSigOp C :=
  ⟨hc, hn.removeStaged nBytesPerSigOp S updateDescendants, hcomplete.removeStaged nBytesPerSigOp S updateDescendants,
    hk.removeStaged nBytesPerSigOp S updateDescendants⟩

theorem Checked.prioritise (h : pool.Checked nBytesPerSigOp C) (hash : uint256) (nFeeDelta : CAmount) :
    (pool.prioritiseTransaction nBytesPerSigOp hash nFeeDelta).Checked nBytesPerSigOp C :=
  h.of_keepsTxs (keepsTxs_prioritiseTransaction nBytesPerSigOp hash nFeeDelta)
    (consistent_prioritiseTransaction nBytesPerSigOp nFeeDelta h.consistent)

/-- `rootTx`, then the spend of its first output, accepted into the empty pool. -/
def samplePool : CTxMemPool :=
  (empty.addUnchecked 0 (Crypto.truncating.getHash rootTx) (make 0 rootTx 0 0 0 false 0) []).addUnchecked 0
    (Crypto.truncating.getHash (spendingTx (Crypto.truncating.getHash rootTx)))
    (make 0 (spendingTx (Crypto.truncating.getHash rootTx)) 0 0 0 false 0) [Crypto.truncating.getHash rootTx]

set_option maxRecDepth 10000 in
theorem samplePool_checked : samplePool.Checked 0 Crypto.truncating :=
  ((checked_empty 0 Crypto.truncating).accept (by decide) (by decide) (unspent_of_entries (by decide)) (by decide)
    (by decide : empty.calculateMemPoolAncestors 0 (Crypto.truncating.getHash rootTx)
      (make 0 rootTx 0 0 0 false 0) noLimits true = ([], none))).accept (by decide) (by decide)
    (unspent_of_entries (by decide)) (by decide)
    (by decide : (empty.addUnchecked 0 (Crypto.truncating.getHash rootTx) (make 0 rootTx 0 0 0 false 0) []).calculateMemPoolAncestors
      0 (Crypto.truncating.getHash (spendingTx (Crypto.truncating.getHash rootTx)))
      (make 0 (spendingTx (Crypto.truncating.getHash rootTx)) 0 0 0 false 0) noLimits true =
        ([Crypto.truncating.getHash rootTx], none))

end Checked

end CTxMemPool
end Packages
end AokChain
