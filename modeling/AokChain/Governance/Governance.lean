import Mathlib.Data.Finmap
import Mathlib.Data.Finset.Max
import AokChain.Consensus.Params
import AokChain.Script.Script

/-!
# The governance database

`CGovernance` of `governance/governance.cpp`: a key-value store holding the
counter `DB_NUMBER_FROZEN`, a freeze flag per script, the issuance costs by
type and height and the fee scripts by height.  Each operation reads the store
and writes one batch; what it returns is the batch's success, or `false` where
it finds the store inconsistent and writes nothing.  The governance actions
that blocks carry are `OP_RETURN` outputs of transactions signed by the master
key; their parser is shared by block connection and disconnection.
-/

namespace AokChain
open Serial

def GOVERNANCE_MARKER : UInt8 := 71
def GOVERNANCE_ACTION : UInt8 := 65
def GOVERNANCE_FREEZE : UInt8 := 70
def GOVERNANCE_UNFREEZE : UInt8 := 85
def GOVERNANCE_COST : UInt8 := 67
def GOVERNANCE_FEE : UInt8 := 102

def GOVERNANCE_COST_ROOT : Int := 1
def GOVERNANCE_COST_REISSUE : Int := 2
def GOVERNANCE_COST_UNIQUE : Int := 3
def GOVERNANCE_COST_SUB : Int := 4
def GOVERNANCE_COST_USERNAME : Int := 5

/-- `DUMMY_SCRIPT`: `CScript() << ParseHex("6885777789")`. -/
def DUMMY_SCRIPT : CScript := pushData [0x68, 0x85, 0x77, 0x77, 0x89]

def DUMMY_TYPE : Int := 0

/-- The governance database.  `frozen` maps each `FreezeEntry` script to its
`FreezeDetails.frozen`, `cost` maps `CostEntry(type, height)` to the cost and
`fee` maps `FeeEntry(height)` to the fee script. -/
structure CGovernance where
  numberFrozen : UInt32
  frozen : Finmap fun _ : CScript => Bool
  cost : Finmap fun _ : Int × Int => CAmount
  fee : Finmap fun _ : Int => CScript
  governanceInit : Option Bool

namespace CGovernance

/-- The database `CDBWrapper` opens on an empty directory. -/
def empty : CGovernance := ⟨0, ∅, ∅, ∅, none⟩

/-- The batch `Init` writes into a new database: the counter, the dummy entries
and the chain's initial costs and fee script. -/
def initialEntries (params : CChainParams) (g : CGovernance) : CGovernance :=
  { g with
    numberFrozen := 0
    frozen := g.frozen.insert DUMMY_SCRIPT true
    cost := ((((((g.cost.insert (DUMMY_TYPE, 0) 0).insert (GOVERNANCE_COST_ROOT, 0)
      params.nFeeAmountRoot).insert (GOVERNANCE_COST_REISSUE, 0) params.nFeeAmountReissue).insert
      (GOVERNANCE_COST_UNIQUE, 0) params.nFeeAmountUnique).insert (GOVERNANCE_COST_SUB, 0)
      params.nFeeAmountSub).insert (GOVERNANCE_COST_USERNAME, 0) params.nFeeAmountUsername)
    fee := g.fee.insert 0 params.tokenFeeScript
    governanceInit := some true }

/-- `Init`: first the fix of a wrong reissue cost at height `0`, then a new
database unless one was already initialised. -/
def init (fWipe : Bool) (params : CChainParams) (g : CGovernance) : CGovernance :=
  let g :=
    match g.cost.lookup (GOVERNANCE_COST_REISSUE, 0) with
    | some c =>
      if c ≠ params.nFeeAmountReissue then
        { g with cost := ((g.cost.erase (GOVERNANCE_COST_SUB, 0)).insert (GOVERNANCE_COST_REISSUE, 0)
            params.nFeeAmountReissue).insert (GOVERNANCE_COST_SUB, 0) params.nFeeAmountSub }
      else g
    | none => g
  if fWipe || g.governanceInit != some true then initialEntries params g else g

/-- `FreezeScript`: a known script that is not frozen, or an unknown one, becomes
frozen and counts. -/
def freezeScript (g : CGovernance) (script : CScript) : Bool × CGovernance :=
  match g.frozen.lookup script with
  | some true => (true, g)
  | some false => (true, { g with frozen := g.frozen.insert script true, numberFrozen := g.numberFrozen + 1 })
  | none => (true, { g with frozen := g.frozen.insert script true, numberFrozen := g.numberFrozen + 1 })

/-- `UnfreezeScript`: a frozen script is released and uncounted; an unknown one
is recorded as not frozen. -/
def unfreezeScript (g : CGovernance) (script : CScript) : Bool × CGovernance :=
  match g.frozen.lookup script with
  | some true => (true, { g with frozen := g.frozen.insert script false, numberFrozen := g.numberFrozen - 1 })
  | some false => (true, g)
  | none => (true, { g with frozen := g.frozen.insert script false })

/-- `RevertFreezeScript`: only a frozen script can have its freezing undone. -/
def revertFreezeScript (g : CGovernance) (script : CScript) : Bool × CGovernance :=
  match g.frozen.lookup script with
  | some true => (true, { g with frozen := g.frozen.insert script false, numberFrozen := g.numberFrozen - 1 })
  | _ => (false, g)

/-- `RevertUnfreezeScript`: only a released script can be frozen again. -/
def revertUnfreezeScript (g : CGovernance) (script : CScript) : Bool × CGovernance :=
  match g.frozen.lookup script with
  | some false => (true, { g with frozen := g.frozen.insert script true, numberFrozen := g.numberFrozen + 1 })
  | _ => (false, g)

/-- `ScriptExist`. -/
def scriptExist (g : CGovernance) (script : CScript) : Bool := script ∈ g.frozen

/-- `CanSend`: a script may be spent unless it is recorded as frozen. -/
def canSend (g : CGovernance) (script : CScript) : Bool := g.frozen.lookup script != some true

/-- The cost types `UpdateCost` knows a name for. -/
def isCostType (type : Int) : Bool := 1 ≤ type && type ≤ 5

/-- `UpdateCost`: a cost is recorded once per type and height. -/
def updateCost (g : CGovernance) (cost : CAmount) (type height : Int) : Bool × CGovernance :=
  if !isCostType type then (false, g)
  else if (type, height) ∈ g.cost then (true, g)
  else (true, { g with cost := g.cost.insert (type, height) cost })

/-- `RevertUpdateCost`. -/
def revertUpdateCost (g : CGovernance) (type height : Int) : Bool × CGovernance :=
  if (type, height) ∈ g.cost then (true, { g with cost := g.cost.erase (type, height) })
  else (false, g)

/-- `UpdateFeeScript`: a fee script is recorded once per height. -/
def updateFeeScript (g : CGovernance) (script : CScript) (height : Int) : Bool × CGovernance :=
  if height ∈ g.fee then (true, g) else (true, { g with fee := g.fee.insert height script })

/-- `RevertUpdateFeeScript`. -/
def revertUpdateFeeScript (g : CGovernance) (height : Int) : Bool × CGovernance :=
  if height ∈ g.fee then (true, { g with fee := g.fee.erase height }) else (false, g)

/-- The greatest height above `-1` in a set of heights. -/
def maxHeight (hs : Finset Int) : Option Int :=
  match (hs.filter (fun h => h > -1)).max with
  | ⊥ => none
  | (h : Int) => some h

/-- `GetCost`: the walk over the cost entries keeps an entry of the type when its
height exceeds the best so far, starting from `-1`, so it returns the cost at
the greatest height, whatever the order of the walk; `0` without one. -/
def getCost (g : CGovernance) (type : Int) : CAmount :=
  match maxHeight ((g.cost.keys.filter (fun k => k.1 = type)).image Prod.snd) with
  | some h => (g.cost.lookup (type, h)).getD 0
  | none => 0

/-- `GetFeeScript`: the fee script at the greatest height, `DUMMY_SCRIPT` without one. -/
def getFeeScript (g : CGovernance) : CScript :=
  match maxHeight g.fee.keys with
  | some h => (g.fee.lookup h).getD DUMMY_SCRIPT
  | none => DUMMY_SCRIPT

end CGovernance

/-- A governance action a block carries. -/
inductive GovernanceAction
  | freeze (script : CScript)
  | unfreeze (script : CScript)
  | cost (type : Int) (amount : CAmount)
  | fee (script : CScript)
  deriving DecidableEq, Repr

/-- The governance action an output of a master-key transaction carries, read as
`ConnectBlock` and `DisconnectBlock` read it: `OP_RETURN`, a push byte, the
marker `G A`, the action byte, and then a length-prefixed script, or a cost
type and an eight-byte amount.  The fail-safe drops a script equal to the
master key. -/
def governanceAction (masterKey : CScript) (s : CScript) : Option GovernanceAction :=
  if byteAt s 0 == OP_RETURN && s.length ≥ 5 && byteAt s 2 == GOVERNANCE_MARKER &&
      byteAt s 3 == GOVERNANCE_ACTION then
    let length := (byteAt s 5).toNat
    let payload := (s.drop 6).take length
    let scriptAction (action : CScript → GovernanceAction) : Option GovernanceAction :=
      if s.length = 6 + length && payload ≠ masterKey then some (action payload) else none
    if byteAt s 4 == GOVERNANCE_FREEZE && s.length ≥ 6 then scriptAction .freeze
    else if byteAt s 4 == GOVERNANCE_UNFREEZE && s.length ≥ 6 then scriptAction .unfreeze
    else if byteAt s 4 == GOVERNANCE_COST && s.length = 14 then
      let type : Int := (byteAt s 5).toNat
      if 0 < type && type < 6 then some (.cost type (Int64.ofNat (leValue (s.drop 6)))) else none
    else if byteAt s 4 == GOVERNANCE_FEE && s.length ≥ 6 then scriptAction .fee
    else none
  else none

namespace CGovernance

/-- What `ConnectBlock` writes for one action at the block's height. -/
def applyAction (g : CGovernance) (nHeight : Int) : GovernanceAction → CGovernance
  | .freeze script => (g.freezeScript script).2
  | .unfreeze script => (g.unfreezeScript script).2
  | .cost type amount => (g.updateCost amount type nHeight).2
  | .fee script => (g.updateFeeScript script nHeight).2

/-- What `DisconnectBlock` writes to undo one action at the block's height. -/
def revertAction (g : CGovernance) (nHeight : Int) : GovernanceAction → CGovernance
  | .freeze script => (g.revertFreezeScript script).2
  | .unfreeze script => (g.revertUnfreezeScript script).2
  | .cost type _ => (g.revertUpdateCost type nHeight).2
  | .fee _ => (g.revertUpdateFeeScript nHeight).2

/-- The actions of a transaction's outputs, in output order. -/
def applyOutputs (g : CGovernance) (masterKey : CScript) (nHeight : Int) (vout : List CTxOut) :
    CGovernance :=
  vout.foldl (fun g out => match governanceAction masterKey out.scriptPubKey with
    | some a => g.applyAction nHeight a
    | none => g) g

def revertOutputs (g : CGovernance) (masterKey : CScript) (nHeight : Int) (vout : List CTxOut) :
    CGovernance :=
  vout.foldl (fun g out => match governanceAction masterKey out.scriptPubKey with
    | some a => g.revertAction nHeight a
    | none => g) g

@[simp] theorem canSend_freezeScript (g : CGovernance) (script : CScript) :
    (g.freezeScript script).2.canSend script = false := by
  unfold freezeScript canSend
  cases h : g.frozen.lookup script with
  | none => simp [Finmap.lookup_insert]
  | some b => cases b <;> simp [h, Finmap.lookup_insert]

theorem canSend_freezeScript_ne (g : CGovernance) {script other : CScript} (h : other ≠ script) :
    (g.freezeScript script).2.canSend other = g.canSend other := by
  unfold freezeScript canSend
  cases hl : g.frozen.lookup script with
  | none => simp [Finmap.lookup_insert_of_ne _ h]
  | some b => cases b <;> simp [Finmap.lookup_insert_of_ne _ h]

end CGovernance

end AokChain
