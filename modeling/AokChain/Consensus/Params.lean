import AokChain.Script.Script

/-!
# Consensus parameters, deployments and validation states

`consensus/params.h`, `consensus/consensus.h`, `chainparams.cpp`, the
deployment switches of `validation.cpp` and `CValidationState` of
`consensus/validation.h`.  The switches `AreTokensDeployed` and friends read
the height of the node's active chain, not the height of the block being
checked; the model makes that height an explicit argument.
-/

namespace AokChain

def MAX_BLOCK_WEIGHT : ℕ := 8000000
def MAX_BLOCK_SIGOPS_COST : ℕ := 80000
def COINBASE_MATURITY : Int := 10
def COINSTAKE_MATURITY : Int := 60
def WITNESS_SCALE_FACTOR : ℕ := 4

/-- `GetMaxBlockWeight`. -/
def getMaxBlockWeight : ℕ := MAX_BLOCK_WEIGHT

/-- The fields of `Consensus::Params` that the modelled checks read. -/
structure ConsensusParams where
  hashGenesisBlock : uint256
  nSubsidyHalvingInterval : Int
  nBIP34Enabled : Bool
  nSegwitEnabled : Bool
  nLastPOWBlock : Int
  nTokensDeploymentHeight : Int
  nTokensP2SHDeploymentHeight : Int
  nTokensIPFSDeploymentHeight : Int
  nDisableTimestampCheck : Int
  nGovernanceHeight : Int
  deriving DecidableEq, Repr

/-- The main network's values (`CMainParams`). -/
def mainConsensus : ConsensusParams where
  hashGenesisBlock := 0x000c513d39b0e3657b7b0ca79b2d4b9b18c1f03dacb394acf0e71f49064b3306
  nSubsidyHalvingInterval := 525960
  nBIP34Enabled := true
  nSegwitEnabled := false
  nLastPOWBlock := 1440
  nTokensDeploymentHeight := 159500
  nTokensP2SHDeploymentHeight := 450000
  nTokensIPFSDeploymentHeight := 622000
  nDisableTimestampCheck := 695000
  nGovernanceHeight := 871500

/-- The fields of `CChainParams` that the modelled code reads.  The two scripts
are `GetScriptForDestination(DecodeDestination(...))` of the configured
addresses. -/
structure CChainParams where
  consensus : ConsensusParams
  governanceMasterScript : CScript
  tokenFeeScript : CScript
  nFeeAmountRoot : CAmount
  nFeeAmountReissue : CAmount
  nFeeAmountUnique : CAmount
  nFeeAmountSub : CAmount
  nFeeAmountUsername : CAmount
  deriving DecidableEq, Repr

/-- The main network's `CChainParams`: the master address
`kp5eNwMzDfDgHXMG3XZw73c6rTA6WzFJEx` is a script hash, the token fee address
`KdZFAFeKV8C5JzdEdgcPYDZku92KkD3fHy` a key hash. -/
def mainParams : CChainParams where
  consensus := mainConsensus
  governanceMasterScript := payToScriptHash
    [0xe1, 0xb8, 0x7b, 0x71, 0x79, 0x31, 0x31, 0x75, 0x3b, 0x29, 0x3f, 0x7b, 0x67, 0xa3, 0xb6, 0x4c, 0x82,
      0x30, 0xcb, 0x3d]
  tokenFeeScript := payToPubKeyHash
    [0x4c, 0xe0, 0xfa, 0x1e, 0xe0, 0x7d, 0x8b, 0x1a, 0x21, 0x94, 0x3e, 0xbc, 0x66, 0x71, 0xff, 0x95, 0x4f,
      0xcf, 0x35, 0xfd]
  nFeeAmountRoot := 10000 * COIN
  nFeeAmountReissue := 10000 * COIN
  nFeeAmountUnique := 100 * COIN
  nFeeAmountSub := 100 * COIN
  nFeeAmountUsername := 1 * COIN

section Deployments

variable (params : ConsensusParams) (nTipHeight : Int)

/-- `AreTokensDeployed`: from one block past the active tip. -/
def areTokensDeployed : Bool := nTipHeight + 1 ≥ params.nTokensDeploymentHeight

def areTokensP2SHDeployed : Bool := nTipHeight + 1 ≥ params.nTokensP2SHDeploymentHeight

def areTokensIPFSDeployed : Bool := nTipHeight + 1 ≥ params.nTokensIPFSDeploymentHeight

def areGovernanceDeployed : Bool := nTipHeight + 1 ≥ params.nGovernanceHeight

end Deployments

/-- `GetBlockSubsidy`: the premine at height one, then four coins halved every
`nSubsidyHalvingInterval` blocks, and nothing from the tenth halving on. -/
def getBlockSubsidy (nHeight : Int) (params : ConsensusParams) : CAmount :=
  if nHeight = 1 then 2100000000 * COIN
  else
    -- C++ `int` division truncates toward zero
    let halvings := nHeight.tdiv params.nSubsidyHalvingInterval
    if halvings ≥ 10 then 0
    else (4 * COIN) >>> Int64.ofInt halvings

def REJECT_MALFORMED : ℕ := 0x01
def REJECT_INVALID : ℕ := 0x10
def REJECT_OBSOLETE : ℕ := 0x11
def REJECT_DUPLICATE : ℕ := 0x12
def REJECT_NONSTANDARD : ℕ := 0x40
def REJECT_CHECKPOINT : ℕ := 0x43
def REJECT_MAXREORGDEPTH : ℕ := 0x44

inductive ValidationMode
  | MODE_VALID
  | MODE_INVALID
  | MODE_ERROR
  deriving DecidableEq, Repr

/-- `CValidationState` without its debug message, which only logging reads. -/
structure CValidationState where
  mode : ValidationMode
  nDoS : Int
  strRejectReason : String
  chRejectCode : ℕ
  corruptionPossible : Bool
  deriving DecidableEq, Repr

namespace CValidationState

/-- The state a fresh `CValidationState()` starts in. -/
def init : CValidationState := ⟨.MODE_VALID, 0, "", 0, false⟩

/-- `DoS`: record the rejection and, unless an error was already recorded, add
the ban score and become invalid. -/
def DoS (st : CValidationState) (level : Int) (chRejectCodeIn : ℕ) (strRejectReasonIn : String)
    (corruptionIn : Bool) : CValidationState :=
  let st := { st with chRejectCode := chRejectCodeIn, strRejectReason := strRejectReasonIn,
                      corruptionPossible := corruptionIn }
  if st.mode = .MODE_ERROR then st else { st with nDoS := st.nDoS + level, mode := .MODE_INVALID }

def Invalid (st : CValidationState) (chRejectCode : ℕ) (strRejectReason : String) :
    CValidationState :=
  st.DoS 0 chRejectCode strRejectReason false

def Error (st : CValidationState) (strRejectReasonIn : String) : CValidationState :=
  { st with strRejectReason := if st.mode = .MODE_VALID then strRejectReasonIn else st.strRejectReason,
            mode := .MODE_ERROR }

def isInvalid (st : CValidationState) : Bool := st.mode = .MODE_INVALID

end CValidationState

/-- How a check of the code ends when it does not accept: `false` with the
validation state it leaves, or a C++ exception or failed assertion. -/
inductive Failure
  | invalid (state : CValidationState)
  | exception (what : String)
  deriving DecidableEq, Repr

/-- A check started from a fresh validation state. -/
abbrev Check := Except Failure Unit

/-- `return state.DoS(level, false, code, reason, corruption)` on a fresh state. -/
def reject {α : Type} (level : Int) (code : ℕ) (reason : String) (corruption : Bool) :
    Except Failure α :=
  .error (.invalid (CValidationState.init.DoS level code reason corruption))

/-- `return state.Invalid(false, code, reason)` on a fresh state. -/
def rejectInvalid {α : Type} (code : ℕ) (reason : String) : Except Failure α :=
  .error (.invalid (CValidationState.init.Invalid code reason))

/-- The code's `return error(...)`: false, with the state left valid; the text is only logged. -/
def error {α : Type} (_message : String) : Except Failure α :=
  .error (.invalid CValidationState.init)

/-- Fail with `reason` at ban score `level` unless `cond` holds: the
`if (!cond) return state.DoS(...)` of the code. -/
def require (cond : Bool) (level : Int) (code : ℕ) (reason : String) (corruption : Bool) : Check :=
  if cond then pure () else reject level code reason corruption

/-- The rejection reason of a failure, empty for an exception. -/
def Failure.reason : Failure → String
  | .invalid st => st.strRejectReason
  | .exception _ => ""

/-- The rejection reason of a verdict, `none` when it accepts. -/
def rejectReason {α : Type} : Except Failure α → Option String
  | .ok _ => none
  | .error e => some e.reason

@[simp] theorem require_true (level : Int) (code : ℕ) (reason : String) (corruption : Bool) :
    require true level code reason corruption = pure () := rfl

theorem require_eq_ok {cond : Bool} {level : Int} {code : ℕ} {reason : String}
    {corruption : Bool} : require cond level code reason corruption = .ok () ↔ cond = true := by
  cases cond <;> simp [require, reject, pure, Except.pure]

/-- Two runs of checks that start with the same guard agree when what follows
agrees wherever the guard passes. -/
theorem require_bind_congr {α : Type} {c c' : Bool} {level : Int} {code : ℕ} {reason : String}
    {corruption : Bool} {f g : Unit → Except Failure α} (hc : c = c') (h : c' = true → f () = g ()) :
    (require c level code reason corruption >>= f) = (require c' level code reason corruption >>= g) := by
  subst hc
  cases c with
  | false => rfl
  | true => exact h rfl

/-- A `do` block of checks rejects with the reason of its first check, or, when
that check passes, with a reason of the rest. -/
theorem rejectReason_bind {α β : Type} {x : Except Failure α} {f : α → Except Failure β} {r : String}
    (h : rejectReason (x >>= f) = some r) : rejectReason x = some r ∨ ∃ a, x = .ok a ∧ rejectReason (f a) = some r := by
  cases x with
  | error e => exact Or.inl h
  | ok a => exact Or.inr ⟨a, rfl, h⟩

theorem rejectReason_require_eq_some {c : Bool} {level : Int} {code : ℕ} {reason r : String} {corruption : Bool} :
    rejectReason (require c level code reason corruption) = some r ↔ c = false ∧ r = reason := by
  cases c <;> simp [require, reject, rejectReason, Failure.reason, CValidationState.DoS, CValidationState.init,
    pure, Except.pure, eq_comm]

/-- A guard followed by more checks rejects with the guard's reason when it
fails, and otherwise as the rest does. -/
theorem rejectReason_require_bind {α : Type} {c : Bool} {level : Int} {code : ℕ} {reason r : String}
    {corruption : Bool} {f : Unit → Except Failure α} (h : rejectReason (require c level code reason corruption >>= f) = some r) :
    (c = false ∧ r = reason) ∨ (c = true ∧ rejectReason (f ()) = some r) := by
  cases c with
  | false => exact Or.inl (rejectReason_require_eq_some.mp h)
  | true => exact Or.inr ⟨rfl, h⟩

/-- A `do` block of checks accepts exactly when its first check does and the
rest accept. -/
theorem Except.bind_eq_ok {ε α β : Type} {x : Except ε α} {f : α → Except ε β} {b : β} :
    (x >>= f) = .ok b ↔ ∃ a, x = .ok a ∧ f a = .ok b := by
  cases x with
  | error e => simp [bind, Except.bind]
  | ok a => simp [bind, Except.bind]

/-- A guard followed by more checks accepts exactly when the guard holds and the
rest accept. -/
theorem require_bind_eq_ok {α : Type} {c : Bool} {level : Int} {code : ℕ} {reason : String}
    {corruption : Bool} {f : Unit → Except Failure α} {b : α} :
    (require c level code reason corruption >>= f) = .ok b ↔ c = true ∧ f () = .ok b := by
  cases c with
  | false => simp [require, reject, bind, Except.bind]
  | true => simp [require, bind, Except.bind, pure, Except.pure]

end AokChain
