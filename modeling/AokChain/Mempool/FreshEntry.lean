import AokChain.Mempool.Consistency

/-!
# A pool with one fresh entry more

`addUnchecked` assumes the entry it adds has no spender in the pool: a new
transaction arriving cannot have children there.  Under that assumption the
spend relation of the larger pool is the old one with the edges from the new
entry to its parents: no path enters the new entry, so the ancestors of the
old entries are as they were, the new entry's ancestors are its parents' with
it, and it joins the descendants of exactly those.
-/

namespace AokChain
namespace Packages
namespace CTxMemPool

open Relation

variable (nBytesPerSigOp : ℕ)

/-- `pool'` is `pool` with an entry whose transaction is `tx` added at the
fresh key `hash`, and otherwise changed in package state only; `tx` spends no
output of its own and no entry of `pool` spends it. -/
structure AddsEntry (pool pool' : CTxMemPool) (hash : uint256) (tx : CTransaction) : Prop where
  fresh : hash ∉ pool.mapTx
  lookup_hash : (pool'.mapTx.lookup hash).map CTxMemPoolEntry.tx = some tx
  lookup_ne : ∀ y, y ≠ hash →
    (pool'.mapTx.lookup y).map (·.base nBytesPerSigOp) = (pool.mapTx.lookup y).map (·.base nBytesPerSigOp)
  unspent : ∀ c e, pool.mapTx.lookup c = some e → ∀ txin ∈ e.tx.vin, txin.prevout.hash ≠ hash
  not_self : ∀ txin ∈ tx.vin, txin.prevout.hash ≠ hash

variable {nBytesPerSigOp} {pool pool' : CTxMemPool} {hash : uint256} {tx : CTransaction}
  {x y c p : uint256}

namespace AddsEntry

variable (ha : pool.AddsEntry nBytesPerSigOp pool' hash tx)
include ha

theorem tx_ne (hy : y ≠ hash) : (pool'.mapTx.lookup y).map CTxMemPoolEntry.tx = (pool.mapTx.lookup y).map CTxMemPoolEntry.tx := by
  have := congrArg (Option.map Prod.fst) (ha.lookup_ne y hy)
  simpa [Option.map_map, Function.comp_def, CTxMemPoolEntry.base] using this

theorem sums_ne (hy : y ≠ hash) : pool'.sums nBytesPerSigOp y = pool.sums nBytesPerSigOp y := by
  have := congrArg (Option.map Prod.snd) (ha.lookup_ne y hy)
  simpa [sums, Option.map_map, Function.comp_def, CTxMemPoolEntry.base] using congrArg (Option.getD · 0) this

theorem mem_iff : y ∈ pool'.mapTx ↔ y = hash ∨ y ∈ pool.mapTx := by
  by_cases hy : y = hash
  · subst hy
    have : (pool'.mapTx.lookup y).isSome := by
      rw [← Option.isSome_map (f := CTxMemPoolEntry.tx), ha.lookup_hash]
      rfl
    exact iff_of_true (AList.lookup_isSome.mp this) (.inl rfl)
  · rw [← AList.lookup_isSome, ← AList.lookup_isSome, ← Option.isSome_map (f := CTxMemPoolEntry.tx),
      ha.tx_ne hy, Option.isSome_map, or_iff_right hy]

theorem mem_of_mem (hy : y ∈ pool.mapTx) : y ∈ pool'.mapTx := ha.mem_iff.mpr (.inr hy)

theorem ne_of_mem (hy : y ∈ pool.mapTx) : y ≠ hash := fun h => ha.fresh (h ▸ hy)

/-- The spends of an entry of the old pool are as they were. -/
theorem spends_iff_of_ne (hc : c ≠ hash) : pool'.Spends c p ↔ pool.Spends c p := by
  rw [spends_iff_map_tx, spends_iff_map_tx, ha.tx_ne hc, ha.mem_iff]
  constructor
  · rintro ⟨rfl | hp, hspend⟩
    · -- no entry of the old pool spends the new one
      obtain ⟨t, ht, txin, htxin, hhash⟩ := hspend
      obtain ⟨e, he, rfl⟩ := Option.map_eq_some_iff.mp ht
      exact absurd hhash (ha.unspent c e he txin htxin)
    · exact ⟨hp, hspend⟩
  · rintro ⟨hp, hspend⟩
    exact ⟨.inr hp, hspend⟩

/-- The new entry spends the entries of the old pool its inputs spend. -/
theorem spends_hash_iff : pool'.Spends hash p ↔ p ∈ pool.mapTx ∧ ∃ txin ∈ tx.vin, txin.prevout.hash = p := by
  have hex : (∃ e ∈ pool'.mapTx.lookup hash, ∃ txin ∈ e.tx.vin, txin.prevout.hash = p) ↔
      ∃ txin ∈ tx.vin, txin.prevout.hash = p := by
    have h := ha.lookup_hash
    cases hlk : pool'.mapTx.lookup hash with
    | none => rw [hlk] at h; cases h
    | some e =>
      rw [hlk, Option.map_some, Option.some.injEq] at h
      subst h
      simp
  rw [Spends, hex, ha.mem_iff]
  constructor
  · rintro ⟨rfl | hp, txin, htxin, hhash⟩
    · exact absurd hhash (ha.not_self txin htxin)
    · exact ⟨hp, txin, htxin, hhash⟩
  · rintro ⟨hp, hspend⟩
    exact ⟨.inr hp, hspend⟩

theorem not_spends_hash : ¬pool'.Spends c hash := by
  by_cases hc : c = hash
  · subst hc
    intro h
    obtain ⟨-, txin, htxin, hhash⟩ := ha.spends_hash_iff.mp h
    exact ha.not_self txin htxin hhash
  · intro h
    exact ha.fresh ((ha.spends_iff_of_ne hc).mp h).mem_right

/-- No path enters the new entry. -/
theorem eq_of_reflTransGen_hash (h : ReflTransGen pool'.Spends x hash) : x = hash := by
  rcases (ReflTransGen.cases_tail_iff _ _ _).mp h with h | ⟨b, -, hb⟩
  · exact h.symm
  · exact absurd hb ha.not_spends_hash

/-- From an old entry the paths are the old pool's. -/
theorem reflTransGen_iff_of_ne (hx : x ≠ hash) : ReflTransGen pool'.Spends x y ↔ ReflTransGen pool.Spends x y := by
  constructor
  · intro h
    induction h with
    | refl => exact .refl
    | @tail b d hxb hbd ih =>
      have hb : b ≠ hash := fun hb => hx (ha.eq_of_reflTransGen_hash (hb ▸ hxb))
      exact ih.tail ((ha.spends_iff_of_ne hb).mp hbd)
  · intro h
    induction h with
    | refl => exact .refl
    | @tail b d _ hbd ih => exact ih.tail ((ha.spends_iff_of_ne (ha.ne_of_mem hbd.mem_left)).mpr hbd)

theorem transGen_iff_of_ne (hx : x ≠ hash) : TransGen pool'.Spends x y ↔ TransGen pool.Spends x y := by
  rw [TransGen.head'_iff, TransGen.head'_iff]
  constructor
  · rintro ⟨b, hxb, hby⟩
    have hb : b ≠ hash := fun hb => ha.not_spends_hash (hb ▸ hxb)
    exact ⟨b, (ha.spends_iff_of_ne hx).mp hxb, (ha.reflTransGen_iff_of_ne hb).mp hby⟩
  · rintro ⟨b, hxb, hby⟩
    exact ⟨b, (ha.spends_iff_of_ne hx).mpr hxb, (ha.reflTransGen_iff_of_ne (ha.ne_of_mem hxb.mem_right)).mpr hby⟩

/-- No entry of the larger pool is its own ancestor where none of the old pool is. -/
theorem acyclic (h : ∀ x, ¬TransGen pool.Spends x x) (x : uint256) : ¬TransGen pool'.Spends x x := by
  by_cases hx : x = hash
  · subst hx
    intro hcyc
    obtain ⟨b, -, hb⟩ := TransGen.tail'_iff.mp hcyc
    exact ha.not_spends_hash hb
  · rw [ha.transGen_iff_of_ne hx]
    exact h x

/-- The new entry reaches its parents and what they reach in the old pool. -/
theorem transGen_hash_iff :
    TransGen pool'.Spends hash y ↔
      ∃ p, (p ∈ pool.mapTx ∧ ∃ txin ∈ tx.vin, txin.prevout.hash = p) ∧ ReflTransGen pool.Spends p y := by
  rw [TransGen.head'_iff]
  constructor
  · rintro ⟨p, hp, hreach⟩
    have hp' := ha.spends_hash_iff.mp hp
    exact ⟨p, hp', (ha.reflTransGen_iff_of_ne (ha.ne_of_mem hp'.1)).mp hreach⟩
  · rintro ⟨p, hp, hreach⟩
    exact ⟨p, ha.spends_hash_iff.mpr hp, (ha.reflTransGen_iff_of_ne (ha.ne_of_mem hp.1)).mpr hreach⟩

theorem ancestorSet_of_ne (hy : y ≠ hash) : pool'.ancestorSet y = pool.ancestorSet y := by
  ext z
  rw [mem_ancestorSet, mem_ancestorSet, ha.reflTransGen_iff_of_ne hy, ha.mem_iff]
  constructor
  · rintro ⟨rfl | hz, hreach⟩
    · exact absurd (ha.eq_of_reflTransGen_hash ((ha.reflTransGen_iff_of_ne hy).mpr hreach)) hy
    · exact ⟨hz, hreach⟩
  · rintro ⟨hz, hreach⟩
    exact ⟨.inr hz, hreach⟩

/-- The new entry's ancestors: itself, and the set `S` of what its parents reach. -/
theorem ancestorSet_hash {S : Finset uint256} (hS : ∀ z, z ∈ S ↔ TransGen pool'.Spends hash z) :
    pool'.ancestorSet hash = insert hash S := by
  ext z
  rw [mem_ancestorSet, Finset.mem_insert, hS, reflTransGen_iff_eq_or_transGen]
  constructor
  · rintro ⟨-, h⟩
    exact h
  · rintro (rfl | h)
    · exact ⟨ha.mem_iff.mpr (.inl rfl), .inl rfl⟩
    · refine ⟨?_, .inr h⟩
      obtain ⟨p, hp, hreach⟩ := ha.transGen_hash_iff.mp h
      exact ha.mem_of_mem (mem_of_reflTransGen hp.1 hreach)

theorem descendantSet_hash : pool'.descendantSet hash = {hash} := by
  ext z
  rw [mem_descendantSet, Finset.mem_singleton]
  constructor
  · rintro ⟨-, h⟩
    exact ha.eq_of_reflTransGen_hash h
  · rintro rfl
    exact ⟨ha.mem_iff.mpr (.inl rfl), .refl⟩

/-- An old entry gains the new one as a descendant where the new one reaches it. -/
theorem descendantSet_of_ne {S : Finset uint256} (hS : ∀ z, z ∈ S ↔ TransGen pool'.Spends hash z) (hy : y ≠ hash) :
    pool'.descendantSet y = if y ∈ S then insert hash (pool.descendantSet y) else pool.descendantSet y := by
  have hhash : hash ∈ pool'.descendantSet y ↔ y ∈ S := by
    rw [mem_descendantSet, hS, reflTransGen_iff_eq_or_transGen, or_iff_right hy]
    exact ⟨fun h => h.2, fun h => ⟨ha.mem_iff.mpr (.inl rfl), h⟩⟩
  have hold : ∀ z, z ≠ hash → (z ∈ pool'.descendantSet y ↔ z ∈ pool.descendantSet y) := by
    intro z hz
    rw [mem_descendantSet, mem_descendantSet, ha.reflTransGen_iff_of_ne hz, ha.mem_iff, or_iff_right hz]
  ext z
  by_cases hz : z = hash
  · rw [hz, hhash]
    split_ifs with hyS
    · exact iff_of_true hyS (Finset.mem_insert_self _ _)
    · exact iff_of_false hyS fun h => ha.fresh (mem_descendantSet.mp h).1
  · rw [hold z hz]
    split_ifs
    · rw [Finset.mem_insert, or_iff_right hz]
    · rfl

/-- Over entries of the old pool the sums are as they were. -/
theorem sum_sums {S : Finset uint256} (hS : ∀ z ∈ S, z ∈ pool.mapTx) :
    ∑ z ∈ S, pool'.sums nBytesPerSigOp z = ∑ z ∈ S, pool.sums nBytesPerSigOp z :=
  Finset.sum_congr rfl fun z hz => ha.sums_ne (ha.ne_of_mem (hS z hz))

/-- Package updates that keep the entries keep an added entry added. -/
theorem of_sameEntries {pool'' : CTxMemPool} (h : pool'.SameEntries nBytesPerSigOp pool'') :
    pool.AddsEntry nBytesPerSigOp pool'' hash tx where
  fresh := ha.fresh
  lookup_hash := by
    have := congrArg (Option.map Prod.fst) (h hash)
    simp only [Option.map_map, Function.comp_def, CTxMemPoolEntry.base] at this
    rw [this]
    exact ha.lookup_hash
  lookup_ne y hy := (h y).trans (ha.lookup_ne y hy)
  unspent := ha.unspent
  not_self := ha.not_self

end AddsEntry

end CTxMemPool
end Packages
end AokChain
