import Mathlib.Data.UInt
import AokChain.Governance.Governance

/-!
# The frozen-script counter

`DB_NUMBER_FROZEN` moves by one exactly when one of the four freeze writes
flips a script's flag between frozen and not frozen.  `Init` writes the counter
`0` beside the dummy entry, whose default `FreezeDetails` is frozen, so along
every run the counter stays one below the number of frozen entries, the dummy
included, in `unsigned int`.  It counts the other frozen scripts only while the
dummy stays frozen: a release of the dummy puts it one below them, which on a
new database is `2^32 - 1`.
-/

namespace AokChain
namespace CGovernance

/-- The scripts a flag map records as frozen. -/
def frozenSet (frozen : Finmap fun _ : CScript => Bool) : Finset CScript :=
  frozen.keys.filter fun s => frozen.lookup s = some true

section FrozenSet

variable {frozen : Finmap fun _ : CScript => Bool} {s : CScript}

theorem mem_frozenSet : s ∈ frozenSet frozen ↔ frozen.lookup s = some true := by
  unfold frozenSet
  rw [Finset.mem_filter, Finmap.mem_keys]
  exact ⟨And.right, fun h => ⟨Finmap.mem_of_lookup_eq_some h, h⟩⟩

@[simp] theorem frozenSet_empty : frozenSet (∅ : Finmap fun _ : CScript => Bool) = ∅ := by
  simp [frozenSet]

@[simp] theorem frozenSet_insert_true : frozenSet (frozen.insert s true) = insert s (frozenSet frozen) := by
  ext t
  rw [mem_frozenSet, Finset.mem_insert, mem_frozenSet]
  by_cases hts : t = s
  · subst hts
    simp [Finmap.lookup_insert]
  · simp [Finmap.lookup_insert_of_ne _ hts, hts]

@[simp] theorem frozenSet_insert_false : frozenSet (frozen.insert s false) = (frozenSet frozen).erase s := by
  ext t
  rw [mem_frozenSet, Finset.mem_erase, mem_frozenSet]
  by_cases hts : t = s
  · subst hts
    simp [Finmap.lookup_insert]
  · simp [Finmap.lookup_insert_of_ne _ hts, hts]

end FrozenSet

/-- The counter is one below the number of frozen entries, modulo `2^32`. -/
def CountsFrozen (g : CGovernance) : Prop :=
  g.numberFrozen + 1 = UInt32.ofNat (frozenSet g.frozen).card

section CountsFrozen

variable {g : CGovernance} {s : CScript}

/-- A script that was not frozen becomes frozen and the counter goes up. -/
theorem CountsFrozen.freeze (h : g.CountsFrozen) (hs : g.frozen.lookup s ≠ some true) :
    CountsFrozen { g with frozen := g.frozen.insert s true, numberFrozen := g.numberFrozen + 1 } := by
  have hnot : s ∉ frozenSet g.frozen := mt mem_frozenSet.mp hs
  unfold CountsFrozen at h ⊢
  rw [frozenSet_insert_true, Finset.card_insert_of_notMem hnot, UInt32.ofNat_add, ← h]
  rfl

/-- A frozen script is released and the counter goes down. -/
theorem CountsFrozen.release (h : g.CountsFrozen) (hs : g.frozen.lookup s = some true) :
    CountsFrozen { g with frozen := g.frozen.insert s false, numberFrozen := g.numberFrozen - 1 } := by
  have hcard := Finset.card_erase_add_one (mem_frozenSet.mpr hs)
  unfold CountsFrozen at h ⊢
  rw [← hcard, UInt32.ofNat_add] at h
  rw [frozenSet_insert_false, sub_add_cancel]
  exact add_right_cancel h

/-- A script recorded as not frozen, without a change of the counter, was not
frozen before either. -/
theorem CountsFrozen.record (h : g.CountsFrozen) (hs : g.frozen.lookup s ≠ some true) :
    CountsFrozen { g with frozen := g.frozen.insert s false } := by
  unfold CountsFrozen at h ⊢
  rw [frozenSet_insert_false, Finset.erase_eq_of_notMem (mt mem_frozenSet.mp hs)]
  exact h

-- Each write is split on the flag it reads, as the source branches on `Read(entry, details)`
-- and then on `details.frozen`.
theorem freezeScript_countsFrozen (h : g.CountsFrozen) (s : CScript) : (g.freezeScript s).2.CountsFrozen := by
  unfold freezeScript
  cases hl : g.frozen.lookup s with
  | none => exact h.freeze (by simp [hl])
  | some b =>
    cases b with
    | false => exact h.freeze (by simp [hl])
    | true => exact h

theorem unfreezeScript_countsFrozen (h : g.CountsFrozen) (s : CScript) :
    (g.unfreezeScript s).2.CountsFrozen := by
  unfold unfreezeScript
  cases hl : g.frozen.lookup s with
  | none => exact h.record (by simp [hl])
  | some b =>
    cases b with
    | false => exact h
    | true => exact h.release hl

theorem revertFreezeScript_countsFrozen (h : g.CountsFrozen) (s : CScript) :
    (g.revertFreezeScript s).2.CountsFrozen := by
  unfold revertFreezeScript
  split
  · next hl => exact h.release hl
  · exact h

theorem revertUnfreezeScript_countsFrozen (h : g.CountsFrozen) (s : CScript) :
    (g.revertUnfreezeScript s).2.CountsFrozen := by
  unfold revertUnfreezeScript
  split
  · next hl => exact h.freeze (by simp [hl])
  · exact h

end CountsFrozen

end CGovernance

/-- The four writes to the freeze flags: the two actions `ConnectBlock` applies
and the two reverts `DisconnectBlock` applies. -/
inductive FreezeOp
  | freeze (script : CScript)
  | unfreeze (script : CScript)
  | revertFreeze (script : CScript)
  | revertUnfreeze (script : CScript)
  deriving DecidableEq, Repr

namespace CGovernance

def applyFreezeOp (g : CGovernance) : FreezeOp → CGovernance
  | .freeze script => (g.freezeScript script).2
  | .unfreeze script => (g.unfreezeScript script).2
  | .revertFreeze script => (g.revertFreezeScript script).2
  | .revertUnfreeze script => (g.revertUnfreezeScript script).2

def runFreezeOps (g : CGovernance) (ops : List FreezeOp) : CGovernance :=
  ops.foldl applyFreezeOp g

theorem applyFreezeOp_countsFrozen {g : CGovernance} (h : g.CountsFrozen) :
    ∀ op, (g.applyFreezeOp op).CountsFrozen
  | .freeze s => freezeScript_countsFrozen h s
  | .unfreeze s => unfreezeScript_countsFrozen h s
  | .revertFreeze s => revertFreezeScript_countsFrozen h s
  | .revertUnfreeze s => revertUnfreezeScript_countsFrozen h s

theorem runFreezeOps_countsFrozen {g : CGovernance} (h : g.CountsFrozen) :
    ∀ ops, (g.runFreezeOps ops).CountsFrozen
  | [] => h
  | op :: ops => runFreezeOps_countsFrozen (applyFreezeOp_countsFrozen h op) ops

/-- A new database holds the counter `0` and the frozen dummy entry. -/
theorem init_empty_countsFrozen (fWipe : Bool) (params : CChainParams) :
    (init fWipe params empty).CountsFrozen := by
  simp [init, initialEntries, empty, CountsFrozen]

/-- While the dummy entry is frozen, the counter is the number of the other frozen scripts. -/
theorem CountsFrozen.numberFrozen_of_dummy {g : CGovernance} (h : g.CountsFrozen)
    (hd : g.frozen.lookup DUMMY_SCRIPT = some true) :
    g.numberFrozen = UInt32.ofNat ((frozenSet g.frozen).erase DUMMY_SCRIPT).card := by
  unfold CountsFrozen at h
  rw [← Finset.card_erase_add_one (mem_frozenSet.mpr hd), UInt32.ofNat_add] at h
  exact add_right_cancel h

/-- Once the dummy entry is released, the counter is one below the number of
the other frozen scripts. -/
theorem CountsFrozen.numberFrozen_of_dummy_released {g : CGovernance} (h : g.CountsFrozen)
    (hd : g.frozen.lookup DUMMY_SCRIPT ≠ some true) :
    g.numberFrozen + 1 = UInt32.ofNat ((frozenSet g.frozen).erase DUMMY_SCRIPT).card := by
  rw [Finset.erase_eq_of_notMem (mt mem_frozenSet.mp hd)]
  exact h

end CGovernance

section InitRuns

open CGovernance

/-- Along every run of freeze writes on a new database, the counter is the
number of frozen scripts other than the dummy while the dummy stays frozen. -/
theorem runFreezeOps_numberFrozen_of_dummy_frozen (fWipe : Bool) (params : CChainParams) (ops : List FreezeOp)
    (hd : ((init fWipe params empty).runFreezeOps ops).frozen.lookup DUMMY_SCRIPT = some true) :
    ((init fWipe params empty).runFreezeOps ops).numberFrozen =
      UInt32.ofNat ((frozenSet ((init fWipe params empty).runFreezeOps ops).frozen).erase DUMMY_SCRIPT).card :=
  (runFreezeOps_countsFrozen (init_empty_countsFrozen fWipe params) ops).numberFrozen_of_dummy hd

def twoFrozenOps : List FreezeOp :=
  [.freeze (pushData [1]), .freeze (pushData [2]), .unfreeze (pushData [1]), .freeze (pushData [3])]

theorem twoFrozenOps_counted :
    ((init false mainParams empty).runFreezeOps twoFrozenOps).frozen.lookup DUMMY_SCRIPT = some true ∧
      ((init false mainParams empty).runFreezeOps twoFrozenOps).numberFrozen =
        UInt32.ofNat ((frozenSet ((init false mainParams empty).runFreezeOps twoFrozenOps).frozen).erase
          DUMMY_SCRIPT).card ∧
      ((init false mainParams empty).runFreezeOps twoFrozenOps).numberFrozen = 2 :=
  have hd : ((init false mainParams empty).runFreezeOps twoFrozenOps).frozen.lookup DUMMY_SCRIPT = some true := by
    decide
  ⟨hd, runFreezeOps_numberFrozen_of_dummy_frozen false mainParams twoFrozenOps hd, by decide⟩

/-- Once a run releases the dummy entry, the counter on a new database is one
below the number of the other frozen scripts; releasing it first wraps the
counter to `2^32 - 1` with no script frozen. -/
theorem runFreezeOps_numberFrozen_of_dummy_released (fWipe : Bool) (params : CChainParams) (ops : List FreezeOp)
    (hd : ((init fWipe params empty).runFreezeOps ops).frozen.lookup DUMMY_SCRIPT ≠ some true) :
    ((init fWipe params empty).runFreezeOps ops).numberFrozen + 1 =
      UInt32.ofNat ((frozenSet ((init fWipe params empty).runFreezeOps ops).frozen).erase DUMMY_SCRIPT).card :=
  (runFreezeOps_countsFrozen (init_empty_countsFrozen fWipe params) ops).numberFrozen_of_dummy_released hd

theorem unfreezeDummy_wraps_counter :
    ((init false mainParams empty).runFreezeOps [.unfreeze DUMMY_SCRIPT]).frozen.lookup DUMMY_SCRIPT ≠ some true ∧
      ((init false mainParams empty).runFreezeOps [.unfreeze DUMMY_SCRIPT]).numberFrozen + 1 =
        UInt32.ofNat ((frozenSet ((init false mainParams empty).runFreezeOps [.unfreeze DUMMY_SCRIPT]).frozen).erase
          DUMMY_SCRIPT).card ∧
      ((init false mainParams empty).runFreezeOps [.unfreeze DUMMY_SCRIPT]).numberFrozen = 4294967295 ∧
      frozenSet ((init false mainParams empty).runFreezeOps [.unfreeze DUMMY_SCRIPT]).frozen = ∅ :=
  have hd : ((init false mainParams empty).runFreezeOps [.unfreeze DUMMY_SCRIPT]).frozen.lookup DUMMY_SCRIPT ≠
      some true := by
    decide
  ⟨hd, runFreezeOps_numberFrozen_of_dummy_released false mainParams [.unfreeze DUMMY_SCRIPT] hd,
    by decide, by decide⟩

end InitRuns

end AokChain
