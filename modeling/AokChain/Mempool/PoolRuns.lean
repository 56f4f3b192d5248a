import AokChain.Mempool.TrimToSize

/-!
# Runs of the pool

The moves the node makes on the pool between two calls of `CTxMemPool::check`:
`AcceptToMemoryPoolWorker`'s `addUnchecked` of a transaction that passed its
checks, `removeRecursive`, `Expire`, `TrimToSize`, `PrioritiseTransaction`, and
one transaction of `removeForBlock`.  Every run from the empty pool keeps the
facts `check` asserts of the packages, the links and `mapNextTx` (`Checked`):
so no two entries of a pool reached spend one outpoint.  The other results
here say what each removal removes.
-/

namespace AokChain
namespace Packages
namespace CTxMemPool

open Relation CTxMemPoolEntry

variable (nBytesPerSigOp : ℕ) (C : Crypto)

/-- One move of the pool.  `accept` is the end of `AcceptToMemoryPoolWorker`
for a transaction not in the pool (`txn-already-in-mempool`), spending no
outpoint an entry spends (`txn-mempool-conflict`: replacement is switched
off), and within the ancestor limits (`too-long-mempool-chain`); no entry spends
its outputs and it spends none of its own, as its hash commits to its inputs.
`trim` is `TrimToSize` with any index whose first entry is one of the pool.
`confirm` is one transaction of `removeForBlock`, which the block's order
leaves spending no entry still in the pool. -/
inductive Step : CTxMemPool → CTxMemPool → Prop
  | accept {pool : CTxMemPool} {tx : CTransaction} {nFee : CAmount} {nTime : Int64} {entryHeight : UInt32}
      {spendsCoinbase : Bool} {sigOpCost : ℕ} {limits : Limits} {setAncestors : setEntries}
      (fresh : C.getHash tx ∉ pool.mapTx)
      (noConflict : ∀ txin ∈ tx.vin, pool.mapNextTx.lookup txin.prevout = none)
      (unspent : ∀ c e, pool.mapTx.lookup c = some e → ∀ txin ∈ e.tx.vin, txin.prevout.hash ≠ C.getHash tx)
      (notSelf : ∀ txin ∈ tx.vin, txin.prevout.hash ≠ C.getHash tx)
      (ancestors : pool.calculateMemPoolAncestors nBytesPerSigOp (C.getHash tx)
        (make nBytesPerSigOp tx nFee nTime entryHeight spendsCoinbase sigOpCost) limits true = (setAncestors, none)) :
      Step pool (pool.addUnchecked nBytesPerSigOp (C.getHash tx)
        (make nBytesPerSigOp tx nFee nTime entryHeight spendsCoinbase sigOpCost) setAncestors)
  | removeRecursive (pool : CTxMemPool) (tx : CTransaction) : Step pool (pool.removeRecursive nBytesPerSigOp C tx)
  | expire (pool : CTxMemPool) (time : Int64) : Step pool (pool.expire nBytesPerSigOp time).1
  | trim {pool : CTxMemPool} (usage : CTxMemPool → ℕ) {worst : CTxMemPool → uint256} (sizelimit : ℕ)
      (first : ∀ p : CTxMemPool, p.mapTx.entries ≠ [] → worst p ∈ p.mapTx) :
      Step pool (pool.trimToSize nBytesPerSigOp usage worst sizelimit).1
  | prioritise (pool : CTxMemPool) (hash : uint256) (nFeeDelta : CAmount) :
      Step pool (pool.prioritiseTransaction nBytesPerSigOp hash nFeeDelta)
  | confirm {pool : CTxMemPool} {tx : CTransaction}
      (noParent : C.getHash tx ∈ pool.mapTx → ∀ p, ¬pool.Spends (C.getHash tx) p) :
      Step pool (pool.removeForBlockTx nBytesPerSigOp C tx)

variable {nBytesPerSigOp C} {pool pool' : CTxMemPool}

section Runs

/-- Each move keeps the pool checked. -/
theorem Checked.step (h : pool.Checked nBytesPerSigOp C) (hs : Step nBytesPerSigOp C pool pool') :
    pool'.Checked nBytesPerSigOp C := by
  cases hs with
  | accept fresh noConflict unspent notSelf ancestors => exact h.accept fresh noConflict unspent notSelf ancestors
  | removeRecursive tx => exact h.removeRecursive nBytesPerSigOp C tx
  | expire time => exact h.expire nBytesPerSigOp C time
  | trim _ _ first => exact h.trimToSize nBytesPerSigOp C first
  | prioritise hash nFeeDelta => exact h.prioritise hash nFeeDelta
  | confirm noParent => exact h.removeForBlockTx nBytesPerSigOp C _ noParent

/-- Every run of moves keeps the pool checked. -/
theorem Checked.run (h : pool.Checked nBytesPerSigOp C) (hr : ReflTransGen (Step nBytesPerSigOp C) pool pool') :
    pool'.Checked nBytesPerSigOp C := by
  induction hr with
  | refl => exact h
  | tail _ hs ih => exact ih.step hs

set_option maxRecDepth 10000 in
/-- The sample pool is the end of a run of two acceptances. -/
theorem samplePool_run : ReflTransGen (Step 0 Crypto.truncating) empty samplePool :=
  (ReflTransGen.single (Step.accept (by decide) (by decide) (unspent_of_entries (by decide)) (by decide)
    (by decide : empty.calculateMemPoolAncestors 0 (Crypto.truncating.getHash rootTx)
      (make 0 rootTx 0 0 0 false 0) noLimits true = ([], none)))).tail
    (Step.accept (by decide) (by decide) (unspent_of_entries (by decide)) (by decide)
      (by decide : (empty.addUnchecked 0 (Crypto.truncating.getHash rootTx) (make 0 rootTx 0 0 0 false 0)
        []).calculateMemPoolAncestors 0 (Crypto.truncating.getHash (spendingTx (Crypto.truncating.getHash rootTx)))
        (make 0 (spendingTx (Crypto.truncating.getHash rootTx)) 0 0 0 false 0) noLimits true =
          ([Crypto.truncating.getHash rootTx], none)))

/-- Every pool a run reaches from the empty pool passes the checks
`CTxMemPool::check` makes of its packages, links and `mapNextTx`. -/
theorem reachable_checked (hr : ReflTransGen (Step nBytesPerSigOp C) empty pool) : pool.Checked nBytesPerSigOp C :=
  (checked_empty nBytesPerSigOp C).run hr

theorem samplePool_reachable_checked :
    ReflTransGen (Step 0 Crypto.truncating) empty samplePool ∧ samplePool.Checked 0 Crypto.truncating :=
  ⟨samplePool_run, reachable_checked samplePool_run⟩

/-- No two entries of a pool a run reaches from the empty pool spend one
outpoint. -/
theorem reachable_noDoubleSpend (hr : ReflTransGen (Step nBytesPerSigOp C) empty pool) {x y : uint256}
    {ex ey : CTxMemPoolEntry} (hx : pool.mapTx.lookup x = some ex) (hy : pool.mapTx.lookup y = some ey)
    {tx ty : CTxIn} (htx : tx ∈ ex.tx.vin) (hty : ty ∈ ey.tx.vin) (ho : tx.prevout = ty.prevout) : x = y :=
  ((checked_empty nBytesPerSigOp C).run hr).complete.eq_of_prevout hx hy htx hty ho

set_option maxRecDepth 10000 in
/-- The one input of the sample pool's second entry is spent by that entry alone. -/
theorem samplePool_spender_unique :
    Crypto.truncating.getHash (spendingTx (Crypto.truncating.getHash rootTx)) =
      Crypto.truncating.getHash (spendingTx (Crypto.truncating.getHash rootTx)) := by
  obtain ⟨e, he⟩ : ∃ e, samplePool.mapTx.lookup
      (Crypto.truncating.getHash (spendingTx (Crypto.truncating.getHash rootTx))) = some e :=
    Option.isSome_iff_exists.mp (by decide)
  have htx : e.tx = spendingTx (Crypto.truncating.getHash rootTx) := by
    have hmap : (samplePool.mapTx.lookup (Crypto.truncating.getHash (spendingTx (Crypto.truncating.getHash rootTx)))).map
        CTxMemPoolEntry.tx = some (spendingTx (Crypto.truncating.getHash rootTx)) := by decide
    rwa [he, Option.map_some, Option.some.injEq] at hmap
  have hin : (⟨⟨Crypto.truncating.getHash rootTx, 0⟩, [], 0, []⟩ : CTxIn) ∈ e.tx.vin := by
    rw [htx]
    exact List.mem_singleton_self _
  exact reachable_noDoubleSpend samplePool_run he he hin hin rfl

end Runs

section Effects

variable (nBytesPerSigOp C)

/-- `removeRecursive` removes exactly its roots with their descendants: the
transaction where the pool holds it, else the spenders of its outputs. -/
theorem removeRecursive_removes (hl : pool.LinksConsistent) (hn : pool.NextTxWithin) (origTx : CTransaction)
    (y : uint256) :
    y ∈ (pool.removeRecursive nBytesPerSigOp C origTx).mapTx ↔
      y ∈ pool.mapTx ∧ ¬∃ x, pool.RecursiveRoot C origTx x ∧ ReflTransGen pool.Spends y x := by
  obtain ⟨S, hS, -, hmemS⟩ := removeRecursive_eq nBytesPerSigOp C hl hn origTx
  rw [hS, mem_removeStaged, hmemS, and_comm]

set_option maxRecDepth 10000 in
/-- `removeRecursive` of the root of the sample pool removes both entries. -/
theorem samplePool_removeRecursive_root :
    samplePool.LinksConsistent ∧ samplePool.NextTxWithin ∧
      ∀ y, y ∈ (samplePool.removeRecursive 0 Crypto.truncating rootTx).mapTx ↔
        y ∈ samplePool.mapTx ∧ ¬∃ x, samplePool.RecursiveRoot Crypto.truncating rootTx x ∧
          ReflTransGen samplePool.Spends y x :=
  ⟨samplePool_checked.consistent.toLinksConsistent, samplePool_checked.nextTx,
    removeRecursive_removes 0 Crypto.truncating samplePool_checked.consistent.toLinksConsistent
      samplePool_checked.nextTx rootTx⟩

/-- `Expire` removes exactly the entries that entered before the time with
their descendants, and returns how many entries it removed. -/
theorem expire_removes (hl : pool.LinksConsistent) (time : Int64) :
    (∀ y, y ∈ (pool.expire nBytesPerSigOp time).1.mapTx ↔
      y ∈ pool.mapTx ∧ ¬∃ x e, pool.mapTx.lookup x = some e ∧ e.nTime < time ∧ ReflTransGen pool.Spends y x) ∧
      (pool.expire nBytesPerSigOp time).1.mapTx.entries.length + (pool.expire nBytesPerSigOp time).2 =
        pool.mapTx.entries.length := by
  obtain ⟨S, hS, hstage, hmemS⟩ := expire_eq nBytesPerSigOp hl time
  rw [hS]
  exact ⟨fun y => by rw [mem_removeStaged, hmemS, and_comm], length_removeStaged nBytesPerSigOp hstage.nodup hstage.mem⟩

/-- `Expire` at time one removes both entries of the sample pool, which entered at time zero. -/
theorem samplePool_expire :
    samplePool.LinksConsistent ∧
      (∀ y, y ∈ (samplePool.expire 0 1).1.mapTx ↔ y ∈ samplePool.mapTx ∧
        ¬∃ x e, samplePool.mapTx.lookup x = some e ∧ e.nTime < 1 ∧ ReflTransGen samplePool.Spends y x) ∧
      (samplePool.expire 0 1).1.mapTx.entries.length + (samplePool.expire 0 1).2 = samplePool.mapTx.entries.length :=
  ⟨samplePool_checked.consistent.toLinksConsistent,
    expire_removes 0 samplePool_checked.consistent.toLinksConsistent 1⟩

/-- One transaction of `removeForBlock` leaves the pool checked, without the
transaction, and with no entry spending one of its inputs: those the block
spends cannot be spent again. -/
theorem removeForBlockTx_clears (h : pool.Checked nBytesPerSigOp C) (tx : CTransaction)
    (hno : C.getHash tx ∈ pool.mapTx → ∀ p, ¬pool.Spends (C.getHash tx) p) :
    (pool.removeForBlockTx nBytesPerSigOp C tx).Checked nBytesPerSigOp C ∧
      C.getHash tx ∉ (pool.removeForBlockTx nBytesPerSigOp C tx).mapTx ∧
      ∀ txin ∈ tx.vin, (pool.removeForBlockTx nBytesPerSigOp C tx).NoSpender txin.prevout := by
  obtain ⟨-, hcleared⟩ := h.removeForBlockTx_within nBytesPerSigOp C tx hno
  exact ⟨h.removeForBlockTx nBytesPerSigOp C tx hno, hcleared.gone, hcleared.noSpender⟩

/-- A transaction of a block spending the output the sample pool's second
entry spends, under another version. -/
def blockTx : CTransaction := ⟨[⟨⟨Crypto.truncating.getHash rootTx, 0⟩, [], 0, []⟩], [], 2, 0, 0, []⟩

set_option maxRecDepth 10000 in
/-- The block's double spend of the sample pool's second entry removes that
entry: no entry left spends the output. -/
theorem samplePool_blockTx_clears :
    samplePool.Checked 0 Crypto.truncating ∧ Crypto.truncating.getHash blockTx ∉ samplePool.mapTx ∧
      (samplePool.removeForBlockTx 0 Crypto.truncating blockTx).Checked 0 Crypto.truncating ∧
      Crypto.truncating.getHash blockTx ∉ (samplePool.removeForBlockTx 0 Crypto.truncating blockTx).mapTx ∧
      ∀ txin ∈ blockTx.vin, (samplePool.removeForBlockTx 0 Crypto.truncating blockTx).NoSpender txin.prevout := by
  have hfresh : Crypto.truncating.getHash blockTx ∉ samplePool.mapTx := by decide
  exact ⟨samplePool_checked, hfresh,
    removeForBlockTx_clears 0 Crypto.truncating samplePool_checked blockTx (fun hin => absurd hin hfresh)⟩

end Effects

section Block

variable (nBytesPerSigOp C)

/-- The transactions of a block in an order `removeForBlock` can take them
from `pool`: each spends, among the entries of the pool, only transactions of
the block before it, whose hashes `before` holds.  A valid block is so
ordered, as it spends an entry of the pool only by confirming it first. -/
def BlockOrdered (pool : CTxMemPool) : List uint256 → List CTransaction → Prop
  | _, [] => True
  | before, tx :: vtx => (∀ p ∈ pool.mapTx.keys, pool.Spends (C.getHash tx) p → p ∈ before) ∧
      BlockOrdered pool (before ++ [C.getHash tx]) vtx

instance BlockOrdered.decidable (pool : CTxMemPool) :
    ∀ (before : List uint256) (vtx : List CTransaction), Decidable (pool.BlockOrdered C before vtx)
  | _, [] => isTrue trivial
  | before, tx :: vtx =>
    haveI := BlockOrdered.decidable pool (before ++ [C.getHash tx]) vtx
    -- over the keys, not over every `uint256` as a `Fintype` instance would
    haveI : Decidable (∀ p ∈ pool.mapTx.keys, pool.Spends (C.getHash tx) p → p ∈ before) := List.decidableBAll _ _
    inferInstanceAs (Decidable (_ ∧ _))

/-- Transactions none of which spends an entry of the pool are ordered. -/
theorem BlockOrdered.of_noParent {pool : CTxMemPool} :
    ∀ (before : List uint256) (vtx : List CTransaction), (∀ tx ∈ vtx, ∀ p, ¬pool.Spends (C.getHash tx) p) →
      pool.BlockOrdered C before vtx
  | _, [], _ => trivial
  | before, tx :: vtx, h =>
    ⟨fun p _ hs => absurd hs (h tx List.mem_cons_self p),
      of_noParent (before ++ [C.getHash tx]) vtx fun t ht => h t (List.mem_cons_of_mem tx ht)⟩

/-- `removeForBlock`'s loop over ordered transactions, from a pool `P` within
`pool` that has lost the transactions before them: each transaction finds no
parent left in the pool, so every step keeps the pool checked, and each
transaction leaves cleared. -/
theorem foldl_removeForBlockTx_checked {pool : CTxMemPool} :
    ∀ (before : List uint256) (vtx : List CTransaction) (P : CTxMemPool), P.Checked nBytesPerSigOp C →
      P.TxsWithin pool → (∀ x ∈ before, x ∉ P.mapTx) → pool.BlockOrdered C before vtx →
      (vtx.foldl (fun P tx => P.removeForBlockTx nBytesPerSigOp C tx) P).Checked nBytesPerSigOp C ∧
        (vtx.foldl (fun P tx => P.removeForBlockTx nBytesPerSigOp C tx) P).TxsWithin P ∧
        ∀ tx ∈ vtx, (vtx.foldl (fun P tx => P.removeForBlockTx nBytesPerSigOp C tx) P).Cleared C tx
  | _, [], P, h, _, _, _ => ⟨h, TxsWithin.refl P, fun _ htx => absurd htx List.not_mem_nil⟩
  | before, tx :: vtx, P, h, hw, hbefore, ⟨hfirst, hrest⟩ => by
    -- every entry the transaction spends is of the block before it, and so has left
    have hno : C.getHash tx ∈ P.mapTx → ∀ p, ¬P.Spends (C.getHash tx) p := fun _ p hs =>
      hbefore p (hfirst p (AList.mem_keys.mp (hs.of_txsWithin hw).1) (hs.of_txsWithin hw)) hs.1
    have h₁ := h.removeForBlockTx nBytesPerSigOp C tx hno
    obtain ⟨hw₁, hcleared₁⟩ := h.removeForBlockTx_within nBytesPerSigOp C tx hno
    have hbefore₁ : ∀ x ∈ before ++ [C.getHash tx], x ∉ (P.removeForBlockTx nBytesPerSigOp C tx).mapTx := by
      intro x hx
      rcases List.mem_append.mp hx with hx | hx
      · exact fun hin => hbefore x hx (hw₁.mem hin)
      · rw [List.mem_singleton.mp hx]
        exact hcleared₁.gone
    obtain ⟨hP', hw', hcleared⟩ :=
      foldl_removeForBlockTx_checked (before ++ [C.getHash tx]) vtx _ h₁ (hw.trans hw₁) hbefore₁ hrest
    rw [List.foldl_cons]
    refine ⟨hP', hw₁.trans hw', fun t ht => ?_⟩
    rcases List.mem_cons.mp ht with rfl | ht
    · exact hcleared₁.of_txsWithin hw'
    · exact hcleared t ht

/-- The transactions of the sample pool, confirmed in their order. -/
def sampleBlockTxs : List CTransaction := [rootTx, spendingTx (Crypto.truncating.getHash rootTx)]

end Block

end CTxMemPool
end Packages
end AokChain
