import AokChain.Mempool.RemovalPaths
import AokChain.Lib.FuelLoop

/-!
# `TrimToSize`

While the pool holds entries and uses more memory than the limit, `TrimToSize`
removes the entry first in the `descendant_score` index with its descendants,
and lists in `vNoSpendsRemaining` the outpoints the removed transactions spent
that name no transaction left in the pool.  `DynamicMemoryUsage` and the order
of the index are parameters here (`usage`, `worst`): whichever entry comes
first, a round removes a closed stage, so the pool stays `Checked`, and removes
at least that entry, so a round for each entry of the pool lets the loop stop
on its own condition.
-/

namespace AokChain
namespace Packages
namespace CTxMemPool

open FuelLoop

variable (nBytesPerSigOp : ℕ)

/-- The condition of the loop: `!mapTx.empty() && DynamicMemoryUsage() > sizelimit`. -/
def trimCond (usage : CTxMemPool → ℕ) (sizelimit : ℕ) (s : CTxMemPool × List COutPoint) : Bool :=
  !s.1.mapTx.entries.isEmpty && decide (usage s.1 > sizelimit)

/-- One round of the loop, on the pool and `vNoSpendsRemaining`: the entry
`worst` puts first leaves with its descendants, and the inputs of the
transactions removed whose transaction the pool no longer holds are listed. -/
def trimRound (worst : CTxMemPool → uint256) (s : CTxMemPool × List COutPoint) : CTxMemPool × List COutPoint :=
  let stage := s.1.calculateDescendants (worst s.1) []
  let txn := stage.filterMap fun iter => (s.1.mapTx.lookup iter).map CTxMemPoolEntry.tx
  let pool := s.1.removeStaged nBytesPerSigOp stage false
  (pool, txn.foldl (fun noSpends (tx : CTransaction) => tx.vin.foldl (fun noSpends txin =>
    if txin.prevout.hash ∈ pool.mapTx then noSpends else noSpends ++ [txin.prevout]) noSpends) s.2)

/-- `TrimToSize(sizelimit, pvNoSpendsRemaining)`: the pool left and the
outpoints listed.  Each round removes an entry, so a round for each entry of
the pool is enough. -/
def trimToSize (pool : CTxMemPool) (usage : CTxMemPool → ℕ) (worst : CTxMemPool → uint256) (sizelimit : ℕ) :
    CTxMemPool × List COutPoint :=
  whileFuel (trimCond usage sizelimit) (trimRound nBytesPerSigOp worst) pool.mapTx.entries.length (pool, [])

variable (C : Crypto)

/-- What each round keeps, from the pool `pool₀` the loop starts from: the pool
checked, each entry one of `pool₀`, and each outpoint listed an input of a
transaction of `pool₀` that has left, naming no transaction of the pool. -/
structure TrimInv (pool₀ : CTxMemPool) (s : CTxMemPool × List COutPoint) : Prop where
  checked : s.1.Checked nBytesPerSigOp C
  txs : ∀ x e, s.1.mapTx.lookup x = some e → ∃ e₀, pool₀.mapTx.lookup x = some e₀ ∧ e₀.tx = e.tx
  noSpends : ∀ o ∈ s.2, o.hash ∉ s.1.mapTx ∧
    ∃ x e, pool₀.mapTx.lookup x = some e ∧ x ∉ s.1.mapTx ∧ ∃ txin ∈ e.tx.vin, txin.prevout = o

variable {nBytesPerSigOp C}

/-- The outpoints a round lists: inputs of its transactions whose transaction
the pool left does not hold. -/
theorem mem_foldl_noSpends {pool : CTxMemPool} (txn : List CTransaction) (ns : List COutPoint) (o : COutPoint) :
    o ∈ txn.foldl (fun noSpends (tx : CTransaction) => tx.vin.foldl (fun noSpends txin =>
      if txin.prevout.hash ∈ pool.mapTx then noSpends else noSpends ++ [txin.prevout]) noSpends) ns ↔
      o ∈ ns ∨ ∃ tx ∈ txn, ∃ txin ∈ tx.vin, txin.prevout.hash ∉ pool.mapTx ∧ txin.prevout = o := by
  have hinput : ∀ (vin : List CTxIn) (ns : List COutPoint) (o : COutPoint),
      o ∈ vin.foldl (fun noSpends (txin : CTxIn) =>
        if txin.prevout.hash ∈ pool.mapTx then noSpends else noSpends ++ [txin.prevout]) ns ↔
        o ∈ ns ∨ ∃ txin ∈ vin, txin.prevout.hash ∉ pool.mapTx ∧ txin.prevout = o := by
    refine mem_foldl_of_step (P := fun (txin : CTxIn) (o : COutPoint) => txin.prevout.hash ∉ pool.mapTx ∧ txin.prevout = o)
      fun ns txin o => ?_
    split_ifs with hin <;> simp [hin, eq_comm]
  exact mem_foldl_of_step (fun ns tx o => hinput tx.vin ns o) txn ns o

/-- A round from an entry of a checked pool keeps the invariant and removes
at least that entry. -/
theorem TrimInv.round {pool₀ : CTxMemPool} {s : CTxMemPool × List COutPoint} (h : TrimInv nBytesPerSigOp C pool₀ s)
    {worst : CTxMemPool → uint256} (hit : worst s.1 ∈ s.1.mapTx) :
    TrimInv nBytesPerSigOp C pool₀ (trimRound nBytesPerSigOp worst s) ∧
      (trimRound nBytesPerSigOp worst s).1.mapTx.entries.length < s.1.mapTx.entries.length := by
  obtain ⟨pool, ns⟩ := s
  obtain ⟨hstage, hmemS⟩ := (ClosedStage.nil pool).calculateDescendants h.checked.consistent.toLinksConsistent hit
  have hitS : worst pool ∈ pool.calculateDescendants (worst pool) [] := (hmemS _).mpr (.inr .refl)
  have hlen : (pool.removeStaged nBytesPerSigOp (pool.calculateDescendants (worst pool) []) false).mapTx.entries.length +
      (pool.calculateDescendants (worst pool) []).length = pool.mapTx.entries.length :=
    length_removeStaged nBytesPerSigOp hstage.nodup hstage.mem
  -- an entry of the stage is not in the pool left
  have hgone : ∀ x ∈ pool.calculateDescendants (worst pool) [],
      x ∉ (pool.removeStaged nBytesPerSigOp (pool.calculateDescendants (worst pool) []) false).mapTx :=
    fun x hx hin => ((mem_removeStaged nBytesPerSigOp).mp hin).1 hx
  have hleft : ∀ x, x ∉ pool.mapTx →
      x ∉ (pool.removeStaged nBytesPerSigOp (pool.calculateDescendants (worst pool) []) false).mapTx :=
    fun x hx hin => hx ((mem_removeStaged nBytesPerSigOp).mp hin).2
  refine ⟨⟨h.checked.removeStaged_closed nBytesPerSigOp C hstage, fun x e hx => ?_, fun o ho => ?_⟩, ?_⟩
  · obtain ⟨e₁, he₁, htx₁⟩ := lookup_removeStaged_tx nBytesPerSigOp hx
    obtain ⟨e₀, he₀, htx₀⟩ := h.txs x e₁ he₁
    exact ⟨e₀, he₀, htx₀.trans htx₁⟩
  · rcases (mem_foldl_noSpends _ _ o).mp ho with ho | ⟨tx, htx, txin, htxin, hhash, rfl⟩
    · -- listed before: the pool only shrinks
      obtain ⟨hhash, x, e, he, hx, hspend⟩ := h.noSpends o ho
      exact ⟨hleft _ hhash, x, e, he, hleft x hx, hspend⟩
    · -- listed now: an input of a transaction of the stage
      obtain ⟨iter, hiter, hlookup⟩ := List.mem_filterMap.mp htx
      obtain ⟨e₁, he₁, rfl⟩ := Option.map_eq_some_iff.mp hlookup
      obtain ⟨e₀, he₀, htx₀⟩ := h.txs iter e₁ he₁
      exact ⟨hhash, iter, e₀, he₀, hgone iter hiter, txin, htx₀ ▸ htxin, rfl⟩
  · have := List.length_pos_of_mem hitS
    dsimp only [trimRound]
    omega

section Loop

variable (nBytesPerSigOp C) {pool : CTxMemPool} {usage : CTxMemPool → ℕ} {worst : CTxMemPool → uint256}
  {sizelimit : ℕ}

variable (hworst : ∀ p : CTxMemPool, p.mapTx.entries ≠ [] → worst p ∈ p.mapTx)
include hworst

/-- From a checked pool, with an index whose first entry is one of the pool,
the invariant holds after `TrimToSize`, whose loop stops on its condition
before its rounds run out. -/
theorem trimToSize_inv (h : pool.Checked nBytesPerSigOp C) :
    TrimInv nBytesPerSigOp C pool (pool.trimToSize nBytesPerSigOp usage worst sizelimit) ∧
      trimCond usage sizelimit (pool.trimToSize nBytesPerSigOp usage worst sizelimit) = false := by
  have hround : ∀ s, TrimInv nBytesPerSigOp C pool s → trimCond usage sizelimit s = true →
      TrimInv nBytesPerSigOp C pool (trimRound nBytesPerSigOp worst s) ∧
        (trimRound nBytesPerSigOp worst s).1.mapTx.entries.length < s.1.mapTx.entries.length := by
    intro s hs hc
    simp only [trimCond, Bool.and_eq_true, Bool.not_eq_true', List.isEmpty_eq_false_iff] at hc
    exact hs.round (hworst s.1 hc.1)
  have hinit : TrimInv nBytesPerSigOp C pool (pool, []) :=
    ⟨h, fun x e he => ⟨e, he, rfl⟩, fun o ho => absurd ho List.not_mem_nil⟩
  exact ⟨whileFuel_inv (trimCond usage sizelimit) (trimRound nBytesPerSigOp worst)
      (fun s hs hc => (hround s hs hc).1) _ hinit,
    whileFuel_exits (trimCond usage sizelimit) (trimRound nBytesPerSigOp worst) (fun s => s.1.mapTx.entries.length)
      hround _ hinit le_rfl⟩

theorem Checked.trimToSize (h : pool.Checked nBytesPerSigOp C) :
    (pool.trimToSize nBytesPerSigOp usage worst sizelimit).1.Checked nBytesPerSigOp C :=
  (trimToSize_inv nBytesPerSigOp C hworst h).1.checked

/-- `TrimToSize` from a checked pool, with an index whose first entry is one
of the pool: the pool left is checked and is empty or within the limit; it
holds only entries of the pool; and each outpoint listed is an input of a
transaction that has left, naming no transaction of the pool left. -/
theorem trimToSize_spec (h : pool.Checked nBytesPerSigOp C) :
    (pool.trimToSize nBytesPerSigOp usage worst sizelimit).1.Checked nBytesPerSigOp C ∧
      ((pool.trimToSize nBytesPerSigOp usage worst sizelimit).1.mapTx.entries = [] ∨
        usage (pool.trimToSize nBytesPerSigOp usage worst sizelimit).1 ≤ sizelimit) ∧
      (∀ y ∈ (pool.trimToSize nBytesPerSigOp usage worst sizelimit).1.mapTx, y ∈ pool.mapTx) ∧
      ∀ o ∈ (pool.trimToSize nBytesPerSigOp usage worst sizelimit).2,
        o.hash ∉ (pool.trimToSize nBytesPerSigOp usage worst sizelimit).1.mapTx ∧
        ∃ x e, pool.mapTx.lookup x = some e ∧ x ∉ (pool.trimToSize nBytesPerSigOp usage worst sizelimit).1.mapTx ∧
          ∃ txin ∈ e.tx.vin, txin.prevout = o := by
  obtain ⟨hI, hexit⟩ := trimToSize_inv nBytesPerSigOp C hworst h
  simp only [trimCond, Bool.and_eq_false_iff, Bool.not_eq_false', List.isEmpty_iff, decide_eq_false_iff_not,
    not_lt] at hexit
  refine ⟨hI.checked, hexit, fun y hy => ?_, hI.noSpends⟩
  obtain ⟨e, he⟩ := Option.isSome_iff_exists.mp (AList.lookup_isSome.mpr hy)
  obtain ⟨e₀, he₀, -⟩ := hI.txs y e he
  exact mem_of_lookup he₀

end Loop

/-- The first entry `mapTx` lists, as an index in the order of `mapTx` puts first. -/
def firstEntry (p : CTxMemPool) : uint256 := (p.mapTx.entries.head?.map Sigma.fst).getD 0

theorem firstEntry_mem (p : CTxMemPool) (hp : p.mapTx.entries ≠ []) : firstEntry p ∈ p.mapTx := by
  obtain ⟨⟨x, e⟩, l, hl⟩ := List.exists_cons_of_ne_nil hp
  have hx : p.mapTx.lookup x = some e := AList.mem_lookup_iff.mpr (by rw [hl]; exact List.mem_cons_self)
  simp only [firstEntry, hl, List.head?_cons, Option.map_some, Option.getD_some]
  exact mem_of_lookup hx

/-- Trimming the sample pool to no memory at all empties it. -/
theorem samplePool_trimmed :
    (samplePool.trimToSize 0 (fun p => p.mapTx.entries.length) firstEntry 0).1.mapTx.entries = [] :=
  (trimToSize_spec 0 Crypto.truncating firstEntry_mem samplePool_checked).2.1.elim id
    fun h => List.eq_nil_of_length_eq_zero (Nat.le_zero.mp h)

end CTxMemPool
end Packages
end AokChain
