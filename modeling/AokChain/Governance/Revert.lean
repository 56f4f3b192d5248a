import AokChain.Consensus.ConnectProperties
import AokChain.Coins.Undo

/-!
# Undoing governance actions

`DisconnectBlock` undoes the actions of a master-key transaction with
`RevertFreezeScript`, `RevertUnfreezeScript`, `RevertUpdateCost` and
`RevertUpdateFeeScript`, in the order of the outputs.  The two freeze reverts
set the flag without knowing whether the action they undo changed it:
`FreezeScript` of a frozen script and `UnfreezeScript` of a script that is not
frozen write no new flag, and their reverts still flip it.  So a freeze and its
revert always leave the script sendable, and an unfreeze and its revert always
leave it frozen, whatever the governance held before.
-/

namespace AokChain
open Serial

namespace CGovernance

variable (g : CGovernance) (script : CScript)

/-- After `FreezeScript` the script is recorded as frozen. -/
theorem freezeScript_lookup : (g.freezeScript script).2.frozen.lookup script = some true := by
  unfold freezeScript
  cases h : g.frozen.lookup script with
  | none => simp [Finmap.lookup_insert]
  | some b => cases b <;> simp [h, Finmap.lookup_insert]

/-- After `UnfreezeScript` the script is recorded as not frozen. -/
theorem unfreezeScript_lookup : (g.unfreezeScript script).2.frozen.lookup script = some false := by
  unfold unfreezeScript
  cases h : g.frozen.lookup script with
  | none => simp [Finmap.lookup_insert]
  | some b => cases b <;> simp [h, Finmap.lookup_insert]

/-- `RevertFreezeScript` of a frozen script releases it. -/
theorem revertFreezeScript_of_lookup {g : CGovernance} {script : CScript} (h : g.frozen.lookup script = some true) :
    (g.revertFreezeScript script).2.frozen.lookup script = some false := by
  simp [revertFreezeScript, h, Finmap.lookup_insert]

/-- `RevertUnfreezeScript` of a released script freezes it. -/
theorem revertUnfreezeScript_of_lookup {g : CGovernance} {script : CScript}
    (h : g.frozen.lookup script = some false) :
    (g.revertUnfreezeScript script).2.frozen.lookup script = some true := by
  simp [revertUnfreezeScript, h, Finmap.lookup_insert]

/-- A freeze and its revert leave the script released, whatever it was. -/
theorem revertAction_freeze_lookup (nHeight : Int) :
    ((g.applyAction nHeight (.freeze script)).revertAction nHeight (.freeze script)).frozen.lookup script =
      some false :=
  revertFreezeScript_of_lookup (freezeScript_lookup g script)

/-- An unfreeze and its revert leave the script frozen, whatever it was. -/
theorem revertAction_unfreeze_lookup (nHeight : Int) :
    ((g.applyAction nHeight (.unfreeze script)).revertAction nHeight (.unfreeze script)).frozen.lookup script =
      some true :=
  revertUnfreezeScript_of_lookup (unfreezeScript_lookup g script)

/-- The actions of a transaction whose one output carries `a`. -/
theorem applyOutputs_single {masterKey : CScript} {nHeight : Int} {out : CTxOut} {a : GovernanceAction}
    (hout : governanceAction masterKey out.scriptPubKey = some a) :
    g.applyOutputs masterKey nHeight [out] = g.applyAction nHeight a := by
  simp [applyOutputs, hout]

theorem revertOutputs_single {masterKey : CScript} {nHeight : Int} {out : CTxOut} {a : GovernanceAction}
    (hout : governanceAction masterKey out.scriptPubKey = some a) :
    g.revertOutputs masterKey nHeight [out] = g.revertAction nHeight a := by
  simp [revertOutputs, hout]

end CGovernance

section Fixtures

/-- The output of a master-key transaction that unfreezes `script`. -/
def unfreezeOut (script : CScript) : CTxOut :=
  ⟨0, [OP_RETURN] ++ pushData ([GOVERNANCE_MARKER, GOVERNANCE_ACTION, GOVERNANCE_UNFREEZE,
    UInt8.ofNat script.length] ++ script)⟩

/-- The master key unfreezes the owner's key-hash script, which is not frozen. -/
def unfreezeTx : CTransaction := spendTx [masterOut] [unfreezeOut ownerScript]

/-- The first proof-of-stake block of the governance era, unfreezing the owner. -/
def unfreezeBlock : CBlock := fixtureBlock [posCoinbase, stakeOf 0, unfreezeTx] [1]

end Fixtures

/-- Disconnecting a transaction whose one action is a freeze, after connecting
it, leaves the script sendable; one whose action is an unfreeze leaves it
frozen.  Whatever the governance held for the script, one of the two does not
give it back. -/
theorem governance_revert_mismatch (g : CGovernance) (masterKey : CScript) (nHeight : Int) (script : CScript)
    (freeze unfreeze : CTxOut) (hfreeze : governanceAction masterKey freeze.scriptPubKey = some (.freeze script))
    (hunfreeze : governanceAction masterKey unfreeze.scriptPubKey = some (.unfreeze script)) :
    ((g.applyOutputs masterKey nHeight [freeze]).revertOutputs masterKey nHeight [freeze]).canSend script = true ∧
      ((g.applyOutputs masterKey nHeight [unfreeze]).revertOutputs masterKey nHeight [unfreeze]).canSend script =
        false := by
  rw [CGovernance.applyOutputs_single g hfreeze, CGovernance.revertOutputs_single _ hfreeze,
    CGovernance.applyOutputs_single g hunfreeze, CGovernance.revertOutputs_single _ hunfreeze]
  simp [CGovernance.canSend, CGovernance.revertAction_freeze_lookup, CGovernance.revertAction_unfreeze_lookup]

set_option maxRecDepth 10000 in
/-- The owner's script, sendable on the empty governance, comes out frozen from
connecting and disconnecting `unfreezeBlock`, and the output-level round trip
says the same of any governance. -/
theorem unfreezeBlock_disconnect_freezes :
    (governanceAction mainParams.governanceMasterScript (freezeOut ownerScript).scriptPubKey =
        some (.freeze ownerScript) ∧
      governanceAction mainParams.governanceMasterScript (unfreezeOut ownerScript).scriptPubKey =
        some (.unfreeze ownerScript)) ∧
    ((CGovernance.empty.applyOutputs mainParams.governanceMasterScript 871500 [unfreezeOut ownerScript]).revertOutputs
        mainParams.governanceMasterScript 871500 [unfreezeOut ownerScript]).canSend ownerScript = false ∧
    CGovernance.empty.canSend ownerScript = true ∧
    ∃ view' blockundo governance',
      connectBlock (acceptingEnv acceptAll) (tipNode 871499) passTokensCache unfreezeBlock 871500 governanceView
          CGovernance.empty false false = (.ok (view', blockundo), governance') ∧
      governance'.canSend ownerScript = true ∧
      ∃ st, disconnectBlock Crypto.truncating mainParams.governanceMasterScript 871500 unfreezeBlock
          (some (undoWriteToDisk Crypto.truncating blockundo)) view' governance' = .ok (.DISCONNECT_OK, st) ∧
        st.governance.canSend ownerScript = false := by
  have hfreeze : governanceAction mainParams.governanceMasterScript (freezeOut ownerScript).scriptPubKey =
      some (.freeze ownerScript) := by decide
  have hunfreeze : governanceAction mainParams.governanceMasterScript (unfreezeOut ownerScript).scriptPubKey =
      some (.unfreeze ownerScript) := by decide
  refine ⟨⟨hfreeze, hunfreeze⟩, (governance_revert_mismatch CGovernance.empty _ 871500 ownerScript _ _ hfreeze
    hunfreeze).2, by decide, ?_⟩
  have hok : (connectBlock (acceptingEnv acceptAll) (tipNode 871499) passTokensCache unfreezeBlock 871500
      governanceView CGovernance.empty false false).1.toBool = true := by decide
  rcases hr : connectBlock (acceptingEnv acceptAll) (tipNode 871499) passTokensCache unfreezeBlock 871500
      governanceView CGovernance.empty false false with ⟨_ | ⟨view', blockundo⟩, governance'⟩
  · rw [hr] at hok
    cases hok
  -- the governance the block leaves, and the disconnection from it, evaluated
  have hgov : (connectBlock (acceptingEnv acceptAll) (tipNode 871499) passTokensCache unfreezeBlock 871500
      governanceView CGovernance.empty false false).2.canSend ownerScript = true := by decide
  have hdis : (match connectBlock (acceptingEnv acceptAll) (tipNode 871499) passTokensCache unfreezeBlock 871500
      governanceView CGovernance.empty false false with
    | (.ok (view', blockundo), governance') =>
      (disconnectBlock Crypto.truncating mainParams.governanceMasterScript 871500 unfreezeBlock
          (some (undoWriteToDisk Crypto.truncating blockundo)) view' governance').toOption.map
        fun r => (r.1, r.2.governance.canSend ownerScript)
    | _ => none) = some (.DISCONNECT_OK, false) := by decide
  rw [hr] at hgov hdis
  refine ⟨view', blockundo, governance', rfl, hgov, ?_⟩
  cases hd : disconnectBlock Crypto.truncating mainParams.governanceMasterScript 871500 unfreezeBlock
      (some (undoWriteToDisk Crypto.truncating blockundo)) view' governance' with
  | error e => simp [hd, Except.toOption] at hdis
  | ok r =>
    obtain ⟨res, st⟩ := r
    simp only [hd, Except.toOption, Option.map_some, Option.some.injEq, Prod.mk.injEq] at hdis
    obtain ⟨rfl, hst⟩ := hdis
    exact ⟨st, rfl, hst⟩

end AokChain
