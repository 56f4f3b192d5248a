import AokChain.Coins.Coins
import AokChain.Consensus.Params
import AokChain.Script.ScriptError

/-!
# Script checks and the check queue

`CheckInputs` of `validation.cpp` and `CCheckQueueControl` of `checkqueue.h`.
With a vector for deferred checks, `CheckInputs` only builds a `CScriptCheck`
per input and hands them back; without one it runs them and rejects at the
first that fails.  The queue a control feeds is modelled by what its `Wait`
returns: whether every check handed to it succeeds, whichever worker runs it.
The script-execution cache is a parameter: a hit accepts a transaction's
scripts without running them.
-/

namespace AokChain

section CheckInputs

variable (verify : ScriptVerifier) (scriptExecutionCached : CTransaction → UInt32 → Bool)

/-- The checks of one transaction's inputs, in input order. -/
def scriptChecks (tx : CTransaction) (inputs : CCoinsMap) (flags : UInt32) : List CScriptCheck :=
  tx.vin.zipIdx.map fun (txin, i) => ⟨(inputs.accessCoin txin.prevout).out, tx, i, flags⟩

/-- A check that fails, run inline: a failure that only the standard flags cause
is non-standard, any other is a consensus failure; both quote the error of the
run with every flag. -/
def rejectScriptCheck (check : CScriptCheck) : Check :=
  let err := scriptErrorString (verify check)
  if check.nFlags &&& STANDARD_NOT_MANDATORY_VERIFY_FLAGS != 0 &&
      (CScriptCheck.run verify { check with nFlags := check.nFlags &&& ~~~STANDARD_NOT_MANDATORY_VERIFY_FLAGS }) then
    rejectInvalid REJECT_NONSTANDARD ("non-mandatory-script-verify-flag (" ++ err ++ ")")
  else reject 100 REJECT_INVALID ("mandatory-script-verify-flag-failed (" ++ err ++ ")") false

/-- The inline loop of `CheckInputs`. -/
def runScriptChecks : List CScriptCheck → Check
  | [] => pure ()
  | check :: checks =>
    if check.run verify then runScriptChecks checks else rejectScriptCheck verify check

/-- `CheckInputs(tx, state, inputs, fScriptChecks, flags, ..., pvChecks)`, with
`fDeferred` for a non-null `pvChecks`; it returns the checks it defers. -/
def checkInputs (tx : CTransaction) (inputs : CCoinsMap) (fScriptChecks : Bool) (flags : UInt32)
    (fDeferred : Bool) : Except Failure (List CScriptCheck) :=
  if tx.isCoinBase || !fScriptChecks || scriptExecutionCached tx flags then pure []
  else if fDeferred then pure (scriptChecks tx inputs flags)
  else do
    runScriptChecks verify (scriptChecks tx inputs flags)
    pure []

end CheckInputs

/-- A `CCheckQueueControl`: the checks handed to its queue, none for a control
made without a queue. -/
structure CCheckQueueControl where
  queue : Option (List CScriptCheck)

namespace CCheckQueueControl

/-- The control `ConnectBlock` makes: with the queue exactly when scripts are
checked on worker threads. -/
def make (fScriptChecks : Bool) (nScriptCheckThreads : ℕ) : CCheckQueueControl :=
  ⟨if fScriptChecks && nScriptCheckThreads != 0 then some [] else none⟩

/-- `Add`: a control without a queue drops the checks. -/
def add (control : CCheckQueueControl) (vChecks : List CScriptCheck) : CCheckQueueControl :=
  ⟨control.queue.map (· ++ vChecks)⟩

/-- `Wait`: whether every check handed to the queue succeeded. -/
def wait (verify : ScriptVerifier) (control : CCheckQueueControl) : Bool :=
  match control.queue with
  | none => true
  | some checks => checks.all (·.run verify)

end CCheckQueueControl

section Lemmas

/-- Deferring reads no script: the checks handed back do not depend on the
verifier. -/
theorem checkInputs_deferred (verify verify' : ScriptVerifier) (cached : CTransaction → UInt32 → Bool)
    (tx : CTransaction) (inputs : CCoinsMap) (fScriptChecks : Bool) (flags : UInt32) :
    checkInputs verify cached tx inputs fScriptChecks flags true =
      checkInputs verify' cached tx inputs fScriptChecks flags true := by
  unfold checkInputs
  split <;> rfl

/-- Inline, every check of the transaction must succeed. -/
theorem runScriptChecks_eq_ok {verify : ScriptVerifier} :
    ∀ {checks : List CScriptCheck}, runScriptChecks verify checks = .ok () → ∀ c ∈ checks, c.run verify = true
  | [], _ => by simp
  | check :: checks, h => by
    unfold runScriptChecks at h
    by_cases hc : check.run verify
    · rw [if_pos hc] at h
      intro c hmem
      rcases List.mem_cons.mp hmem with rfl | hmem
      · exact hc
      · exact runScriptChecks_eq_ok h c hmem
    · rw [if_neg hc] at h
      unfold rejectScriptCheck at h
      split at h <;> simp [reject, rejectInvalid] at h

end Lemmas

end AokChain
