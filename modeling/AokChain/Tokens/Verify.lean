import AokChain.Script.Standard
import AokChain.Governance.Governance

/-!
# The layout checks of issuing transactions

`CTransaction::VerifyNewToken`, `VerifyNewUsername`, `VerifyNewUniqueToken` and
`VerifyReissueToken` of `tokens/tokens.cpp`, with `IsNewOwnerTxValid` and the
output tests they use: which outputs carry the token data, that one pays the
burn fee to the fee address, and how many token outputs of each kind there are.
They read the transaction and the governance database, which holds the burn
costs and the fee script; no token cache.

Addresses are compared as the destinations they encode: `EncodeDestination`
takes distinct destinations to distinct addresses, and the empty address of a
script without a destination to none of them.
-/

namespace AokChain
open Serial

def OWNER_TAG : Bytes := [chr '!']
def OWNER_LENGTH : ℕ := 1

/-- `if (bad) { strError = message; return false; }`. -/
def failWhen (bad : Bool) (strError : String) : Except String Unit := if bad then .error strError else .ok ()

@[simp] theorem failWhen_false (strError : String) : failWhen false strError = .ok () := rfl

@[simp] theorem failWhen_eq_ok {bad : Bool} {strError : String} {u : Unit} :
    failWhen bad strError = .ok u ↔ bad = false := by
  cases bad <;> simp [failWhen]

theorem failWhen_bind_eq_ok {α : Type} {bad : Bool} {strError : String} {f : Unit → Except String α} {b : α} :
    (failWhen bad strError >>= f) = .ok b ↔ bad = false ∧ f () = .ok b := by
  cases bad <;> simp [failWhen, bind, Except.bind]

/-- `name.find_last_of(c)`, `none` for `npos`. -/
def findLastOf (name : Bytes) (c : UInt8) : Option ℕ :=
  (name.reverse.idxOf? c).map fun i => name.length - 1 - i

/-- `GetParentName`: a sub token's name before its last `/`, a unique token's
before its last `#`, and the name itself for the other valid types; the empty
name for an invalid one. -/
def getParentName (name : Bytes) : Bytes :=
  let (type, valid) := isTokenNameValidType name
  if !valid.isOk then []
  else if type = .ROOT then name
  else
    let index := if type = .SUB then findLastOf name (chr '/')
      else if type = .UNIQUE then findLastOf name (chr '#') else none
    match index with
    | some i => name.take i
    | none => name

/-- The address `TokenFromScript` and its kin return with the payload, as the
destination it encodes: none where `ExtractDestination` fails. -/
def scriptAddress (C : Crypto) (script : CScript) : CTxDestination :=
  (extractDestination C script).getD .noDestination

section Outputs

variable (C : Crypto) (g : CGovernance)

/-- The burn amount `CheckIssueBurnTx` requires of a token type, `none` for the
types it rejects. -/
def issueBurnAmount : KnownTokenType → Option CAmount
  | .SUB => some (g.getCost GOVERNANCE_COST_SUB)
  | .ROOT => some (g.getCost GOVERNANCE_COST_ROOT)
  | .UNIQUE => some (g.getCost GOVERNANCE_COST_UNIQUE)
  | .USERNAME => some (g.getCost GOVERNANCE_COST_USERNAME)
  | _ => none

/-- The destination test the burn checks share: a valid destination whose
address is `GetTokenFeeAddress()`, the address of the governance fee script. -/
def paysTokenFeeAddress (txOut : CTxOut) : Bool :=
  match extractDestination C txOut.scriptPubKey with
  | some destination =>
    destination != .noDestination && some destination == extractDestination C g.getFeeScript
  | none => false

/-- `CheckIssueBurnTx(txOut, type, numberIssued)`. -/
def checkIssueBurnTx (txOut : CTxOut) (type : KnownTokenType) (numberIssued : ℕ) : Bool :=
  match issueBurnAmount g type with
  | some burnAmount => txOut.nValue == burnAmount * Int64.ofNat numberIssued && paysTokenFeeAddress C g txOut
  | none => false

/-- `CheckReissueBurnTx`. -/
def checkReissueBurnTx (txOut : CTxOut) : Bool :=
  txOut.nValue == g.getCost GOVERNANCE_COST_REISSUE && paysTokenFeeAddress C g txOut

end Outputs

def checkIssueDataTx (txOut : CTxOut) : Bool := isNewToken txOut.scriptPubKey
def checkReissueDataTx (txOut : CTxOut) : Bool := isReissueToken txOut.scriptPubKey
def checkOwnerDataTx (txOut : CTxOut) : Bool := isOwnerToken txOut.scriptPubKey

/-- The counters `GetTxOutTokenTypes` fills. -/
structure TokenOutCounts where
  issues : ℕ
  reissues : ℕ
  transfers : ℕ
  owners : ℕ
  deriving DecidableEq, Repr

/-- One output of `GetTxOutTokenTypes`. -/
def TokenOutCounts.count (n : TokenOutCounts) (out : CTxOut) : TokenOutCounts :=
  match tokenScriptInfo out.scriptPubKey with
  | some info =>
    if info.nType = .TX_NEW_TOKEN && !info.fIsOwner then { n with issues := n.issues + 1 }
    else if info.nType = .TX_NEW_TOKEN && info.fIsOwner then { n with owners := n.owners + 1 }
    else if info.nType = .TX_TRANSFER_TOKEN then { n with transfers := n.transfers + 1 }
    else if info.nType = .TX_REISSUE_TOKEN then { n with reissues := n.reissues + 1 }
    else n
  | none => n

/-- `GetTxOutTokenTypes(vout, issues, reissues, transfers, owners)` from zero. -/
def getTxOutTokenTypes (vout : List CTxOut) : TokenOutCounts := vout.foldl TokenOutCounts.count ⟨0, 0, 0, 0⟩

/-- Whether some output transfers the token `name`. -/
def hasTransferOf (vout : List CTxOut) (name : Bytes) : Bool :=
  vout.any fun out => (transferTokenFromScript out.scriptPubKey).any fun transfer => transfer.strName == name

namespace CTransaction

variable (C : Crypto) (g : CGovernance) (tx : CTransaction)

/-- `CTransaction::VerifyNewToken`. -/
def verifyNewToken : Except String Unit := do
  failWhen (tx.vout.length < 3) "bad-txns-issue-vout-size-to-small"
  failWhen (!checkIssueDataTx (voutFromEnd tx.vout 1)) "bad-txns-issue-data-not-found"
  failWhen (!checkOwnerDataTx (voutFromEnd tx.vout 2)) "bad-txns-issue-owner-data-not-found"
  match tokenFromScript (voutFromEnd tx.vout 1).scriptPubKey with
  | none => .error "bad-txns-issue-serialzation-failed"
  | some token =>
    let tokenType := (isTokenNameValidType token.strName).1
    match ownerTokenFromScript (voutFromEnd tx.vout 2).scriptPubKey with
    | none => .error "bad-txns-issue-owner-serialzation-failed"
    | some strOwnerName =>
      failWhen (strOwnerName != token.strName ++ OWNER_TAG) "bad-txns-issue-owner-name-doesn\x27t-match"
      failWhen (!tx.vout.any fun out => checkIssueBurnTx C g out tokenType 1) "bad-txns-issue-burn-not-found"
      if tokenType = .SUB then
        failWhen (!hasTransferOf tx.vout (getParentName token.strName ++ OWNER_TAG))
          "bad-txns-issue-sub-token-owner-not-found"
      let n := getTxOutTokenTypes tx.vout
      failWhen (n.owners != 1 || n.issues != 1 || n.reissues > 0) "bad-txns-failed-issue-token-formatting-check"

/-- `CTransaction::VerifyNewUsername`: no owner token and no reissue, and no
bound on the issue outputs. -/
def verifyNewUsername : Except String Unit := do
  failWhen (tx.vout.length < 2) "bad-txns-issue-vout-size-to-small"
  failWhen (!checkIssueDataTx (voutFromEnd tx.vout 1)) "bad-txns-issue-data-not-found"
  match tokenFromScript (voutFromEnd tx.vout 1).scriptPubKey with
  | none => .error "bad-txns-issue-serialzation-failed"
  | some token =>
    let tokenType := (isTokenNameValidType token.strName).1
    failWhen (!tx.vout.any fun out => checkIssueBurnTx C g out tokenType 1) "bad-txns-issue-burn-not-found"
    let n := getTxOutTokenTypes tx.vout
    failWhen (n.owners > 0 || n.reissues > 0) "bad-txns-failed-issue-token-formatting-check"

/-- The loop of `VerifyNewUniqueToken` over the unique-token outputs, carrying
the root they share (empty before the first), the names seen and their count. -/
def uniqueOutputsFrom : Bytes × List Bytes × ℕ → List CTxOut → Except String (Bytes × List Bytes × ℕ)
  | acc, [] => .ok acc
  | (tokenRoot, setUniqueTokens, count), out :: vout =>
    if isScriptNewUniqueToken out.scriptPubKey then
      match tokenFromScript out.scriptPubKey with
      | none => .error "bad-txns-issue-unique-token-from-script"
      | some token =>
        let root := getParentName token.strName
        let tokenRoot := if tokenRoot = [] then root else tokenRoot
        if tokenRoot != root then .error "bad-txns-issue-unique-token-compare-failed"
        else if setUniqueTokens.contains token.strName then .error "bad-txns-issue-unique-duplicate-name-in-same-tx"
        else uniqueOutputsFrom (tokenRoot, setUniqueTokens ++ [token.strName], count + 1) vout
    else uniqueOutputsFrom (tokenRoot, setUniqueTokens, count) vout

/-- `CTransaction::VerifyNewUniqueToken`. -/
def verifyNewUniqueToken : Except String Unit := do
  failWhen (tx.vout.length < 3) "bad-txns-unique-vout-size-to-small"
  let (tokenRoot, _, tokenOutpointCount) ← uniqueOutputsFrom ([], [], 0) tx.vout
  failWhen (tokenOutpointCount == 0) "bad-txns-issue-unique-token-bad-outpoint-count"
  failWhen (!tx.vout.any fun out => checkIssueBurnTx C g out .UNIQUE tokenOutpointCount)
    "bad-txns-issue-unique-token-burn-outpoints-not-found"
  failWhen (!hasTransferOf tx.vout (tokenRoot ++ OWNER_TAG)) "bad-txns-issue-unique-token-bad-owner-token"
  let n := getTxOutTokenTypes tx.vout
  failWhen (n.owners > 0 || n.reissues > 0 || n.issues != tokenOutpointCount)
    "bad-txns-failed-unique-token-formatting-check"

/-- `CTransaction::VerifyReissueToken`. -/
def verifyReissueToken : Except String Unit := do
  failWhen (tx.vout.length < 3) "bad-txns-vout-size-to-small"
  failWhen (!checkReissueDataTx (voutFromEnd tx.vout 1)) "bad-txns-reissue-data-not-found"
  match reissueTokenFromScript (voutFromEnd tx.vout 1).scriptPubKey with
  | none => .error "bad-txns-reissue-serialization-failed"
  | some reissue =>
    failWhen (!hasTransferOf tx.vout (reissue.strName ++ OWNER_TAG)) "bad-txns-reissue-owner-outpoint-not-found"
    failWhen (!tx.vout.any (checkReissueBurnTx C g)) "bad-txns-reissue-burn-outpoint-not-found"
    let n := getTxOutTokenTypes tx.vout
    failWhen (n.owners > 0 || n.reissues != 1 || n.issues > 0) "bad-txns-failed-reissue-token-formatting-check"

/-- `IsNewOwnerTxValid(tx, tokenName, address, errorMsg)`, after
`OwnerFromTransaction`, which reads the output before the last of a new-token
transaction. -/
def isNewOwnerTxValid (tokenName : Bytes) (address : CTxDestination) : Except String Unit := do
  let ownerScript := (voutFromEnd tx.vout 2).scriptPubKey
  match if tx.isNewTokenTx then ownerTokenFromScript ownerScript else none with
  | none => .error "bad-txns-bad-owner"
  | some ownerName =>
    failWhen (scriptAddress C ownerScript != address) "bad-txns-owner-address-mismatch"
    failWhen (ownerName.length < OWNER_LENGTH + MIN_TOKEN_LENGTH) "bad-txns-owner-token-length"
    failWhen (ownerName != tokenName ++ OWNER_TAG) "bad-txns-owner-name-mismatch"

end CTransaction

section UniqueNames

/-- The names of the unique tokens the outputs issue, in order. -/
def uniqueTokenNames (vout : List CTxOut) : List Bytes :=
  (vout.filter fun out => isScriptNewUniqueToken out.scriptPubKey).map
    fun out => ((tokenFromScript out.scriptPubKey).map CNewToken.strName).getD []

variable {tx : CTransaction}

/-- The names the unique-token loop collects extend the names it started with
by those of the unique-token outputs, in order, and stay distinct. -/
theorem uniqueOutputsFrom_names {vout : List CTxOut} {tokenRoot tokenRoot' : Bytes} {seen seen' : List Bytes}
    {count count' : ℕ} (hseen : seen.Nodup)
    (h : CTransaction.uniqueOutputsFrom (tokenRoot, seen, count) vout = .ok (tokenRoot', seen', count')) :
    seen'.Nodup ∧ seen' = seen ++ uniqueTokenNames vout := by
  induction vout generalizing tokenRoot seen count with
  | nil =>
    cases h
    simp [hseen, uniqueTokenNames]
  | cons out vout ih =>
    unfold CTransaction.uniqueOutputsFrom at h
    by_cases hunique : isScriptNewUniqueToken out.scriptPubKey = true
    · rw [if_pos hunique] at h
      cases htoken : tokenFromScript out.scriptPubKey with
      | none => simp [htoken] at h
      | some token =>
        simp only [htoken] at h
        by_cases hdup : token.strName ∈ seen
        · simp [hdup] at h
          split_ifs at h
        -- whatever root the loop carries on, a name not seen before joins the distinct names
        obtain ⟨root, hrec⟩ : ∃ root, CTransaction.uniqueOutputsFrom (root, seen ++ [token.strName], count + 1) vout =
            .ok (tokenRoot', seen', count') := by
          split_ifs at h
          all_goals exact ⟨_, h⟩
        have hnodup : (seen ++ [token.strName]).Nodup := by
          simpa using hseen.concat hdup
        obtain ⟨hnodup', heq⟩ := ih hnodup hrec
        exact ⟨hnodup', by simp [heq, hunique, htoken, uniqueTokenNames]⟩
    · rw [if_neg hunique] at h
      obtain ⟨hnodup', heq⟩ := ih hseen h
      exact ⟨hnodup', by simp [heq, hunique, uniqueTokenNames]⟩

/-- A transaction `VerifyNewUniqueToken` accepts issues each unique name at
most once. -/
theorem verifyNewUniqueToken_names_nodup {C : Crypto} {g : CGovernance}
    (h : tx.verifyNewUniqueToken C g = .ok ()) : (uniqueTokenNames tx.vout).Nodup := by
  simp only [CTransaction.verifyNewUniqueToken, Except.bind_eq_ok] at h
  obtain ⟨_, -, ⟨tokenRoot, seen, count⟩, hloop, -⟩ := h
  obtain ⟨hnodup, heq⟩ := uniqueOutputsFrom_names List.nodup_nil hloop
  simpa [heq] using hnodup

end UniqueNames

end AokChain
