import AokChain.Tokens.Verify
import AokChain.Tokens.BlockTokens
import AokChain.Consensus.BlockContext
import AokChain.Lib.Int64Sum

/-!
# Issuance against the token cache

`CNewToken::IsValid` and `CReissueToken::IsValid` of `tokens/tokens.cpp`, with
the error texts they set, and the two places that call them on a transaction:
the issuance branches of `CheckTransaction`, against the token cache of the
tip, and the token section of `ConnectBlock`'s loop, against the cache the
block is being connected into, which `AddCoins` fills one transaction at a
time.  The branches of `ConnectBlock` cover new tokens, reissues and unique
tokens; a username is not validated again.

`CReissueToken::IsValid` bounds `token.nAmount + nAmount` by `MAX_MONEY_TOKENS`
in `int64_t` before it tests the reissued amount for a sign, so a sum past
`2 ^ 63` wraps below the bound.
-/

namespace AokChain
open Serial

def UNIQUE_TOKEN_UNITS : Int8 := 0

section IPFS

def pszBase58 : List Char := "123456789ABCDEFGHJKLMNPQRSTUVWXYZabcdefghijkmnopqrstuvwxyz".toList

/-- The base-58 digits of `n`, most significant first, within `fuel` digits. -/
def base58Digits : ℕ → ℕ → List ℕ
  | 0, _ => []
  | fuel + 1, n => if n = 0 then [] else base58Digits fuel (n / 58) ++ [n % 58]

/-- `EncodeBase58`: a `1` for each leading zero byte, then the base-58 digits of
the other bytes read as one big-endian number.  The source's digit loop computes
those digits within the `size` it allocates. -/
def encodeBase58 (bytes : Bytes) : String :=
  let zeroes := (bytes.takeWhile (· == 0)).length
  let rest := bytes.drop zeroes
  let size := rest.length * 138 / 100 + 1
  let n := rest.foldl (fun acc b => acc * 256 + b.toNat) 0
  String.ofList (List.replicate zeroes '1' ++ (base58Digits size n).map fun d => pszBase58.getD d '1')

def encodeIPFS (decoded : Bytes) : String := encodeBase58 decoded

def checkEncodedIPFS (hash : String) : Except String Unit :=
  failWhen (hash.toList.take 2 != ['Q', 'm']) "Invalid parameter: ipfs_hash must start with \x27Qm\x27."

/-- The two checks both `IsValid`s make of an IPFS hash they carry: 34 bytes,
whose base-58 encoding starts with `Qm`. -/
def checkIPFSHash (fHasIPFS : Bool) (hash : Bytes) : Except String Unit :=
  if fHasIPFS then do
    failWhen (hash.length != 34) "Invalid parameter: ipfs_hash must be 34 bytes."
    checkEncodedIPFS (encodeIPFS hash)
  else pure ()

@[simp] theorem checkIPFSHash_false (hash : Bytes) : checkIPFSHash false hash = .ok () := rfl

end IPFS

namespace CNewToken

variable (token : CNewToken)

/-- The fixed metadata `CNewToken::IsValid` asks of a unique token and of a
username. -/
def checkUniqueFields (tokenType : KnownTokenType) : Except String Unit :=
  if tokenType = .UNIQUE || tokenType = .USERNAME then do
    failWhen (token.units != UNIQUE_TOKEN_UNITS)
      ("Invalid parameter: units must be " ++ toString (UNIQUE_TOKEN_UNITS.toInt / COIN.toInt))
    failWhen (token.nAmount != UNIQUE_TOKEN_AMOUNT)
      ("Invalid parameter: amount must be " ++ toString UNIQUE_TOKEN_AMOUNT.toInt)
    failWhen (token.nReissuable != 0) "Invalid parameter: reissuable must be 0"
  else pure ()

/-- The checks of `CNewToken::IsValid` after its duplicate and mempool tests:
the name, the fixed metadata of unique tokens and usernames, and the range of
every field. -/
def checkFields : Except String Unit := do
  let (tokenType, valid) := isTokenNameValidType token.strName
  failWhen (!valid.isOk) ("Invalid parameter: token_name must only consist of valid characters and have a size " ++
    "between 3 and 30 characters. See help for more details.")
  token.checkUniqueFields tokenType
  failWhen (isTokenNameAnOwner token.strName)
    "Invalid parameters: token_name can\x27t have a \x27!\x27 at the end of it. See help for more details."
  failWhen (token.nAmount ≤ 0) "Invalid parameter: token amount can\x27t be equal to or less than zero."
  failWhen (token.nAmount > MAX_MONEY_TOKENS)
    ("Invalid parameter: token amount greater than max money: " ++ toString (MAX_MONEY_TOKENS / COIN).toInt)
  failWhen (token.units < 0 || token.units > 8) "Invalid parameter: units must be between 0-8."
  failWhen (!checkAmountWithUnits token.nAmount token.units)
    "Invalid parameter: amount must be divisible by the smaller unit assigned to the token"
  failWhen (token.nReissuable != 0 && token.nReissuable != 1) "Invalid parameter: reissuable must be 0 or 1"
  failWhen (token.nHasIPFS != 0 && token.nHasIPFS != 1) "Invalid parameter: has_ipfs must be 0 or 1."
  checkIPFSHash (token.nHasIPFS != 0) token.strIPFSHash

/-- `CNewToken::IsValid(strError, tokenCache, fCheckMempool, fCheckDuplicateInputs,
fForceDuplicateCheck)`, with the mempool's `mapTokenToHash` as the names it
holds.  The lookup in the cache may fill its LRU. -/
def isValid (L : TokenLayers) (mapTokenToHash : Bytes → Bool)
    (fCheckMempool fCheckDuplicateInputs fForceDuplicateCheck : Bool) : Except String Unit × TokenLayers :=
  let r := if fCheckDuplicateInputs then L.checkIfTokenExists token.strName fForceDuplicateCheck else (false, L)
  if r.1 then (.error ("Invalid parameter: token_name \x27" ++ asciiString token.strName ++ "\x27 has already been used"), r.2)
  else if fCheckMempool && mapTokenToHash token.strName then (.error "Token with this name is already in the mempool", r.2)
  else (token.checkFields, r.2)

end CNewToken

namespace CReissueToken

variable (reissue : CReissueToken)

/-- The checks of `CReissueToken::IsValid` against the token reissued.  The
bound is tested on the `int64_t` sum. -/
def checkAgainst (token : CNewToken) : Except String Unit := do
  failWhen (token.nReissuable == 0) "Unable to reissue token: reissuable is set to false"
  failWhen (token.nAmount + reissue.nAmount > MAX_MONEY_TOKENS)
    ("Unable to reissue token: token_name \x27" ++ asciiString reissue.strName ++
      "\x27 the amount trying to reissue is to large")
  failWhen (!checkAmountWithUnits reissue.nAmount token.units)
    "Unable to reissue token: amount must be divisible by the smaller unit assigned to the token"
  failWhen (reissue.nUnits < token.units && reissue.nUnits != -1)
    "Unable to reissue token: unit must be larger than current unit selection"

/-- The checks of `CReissueToken::IsValid` on the reissue alone. -/
def checkFields : Except String Unit := do
  checkIPFSHash (reissue.strIPFSHash != []) reissue.strIPFSHash
  failWhen (reissue.nAmount < 0) "Unable to reissue token: amount must be 0 or larger"
  failWhen (reissue.nUnits.toInt > MAX_UNIT || reissue.nUnits.toInt < -1)
    "Unable to reissue token: unit must be between 8 and -1"

/-- `CReissueToken::IsValid(strError, tokenCache, fForceCheckPrimaryTokenExists)`. -/
def isValid (L : TokenLayers) (fForceCheckPrimaryTokenExists : Bool) : Except String Unit × TokenLayers :=
  if fForceCheckPrimaryTokenExists then
    let r := L.getTokenMetaDataIfExists reissue.strName
    match r.1 with
    | none =>
      (.error ("Unable to reissue token: token_name \x27" ++ asciiString reissue.strName ++
        "\x27 doesn\x27t exist in the database"), r.2)
    | some (token, _) => (reissue.checkAgainst token >>= fun _ => reissue.checkFields, r.2)
  else (reissue.checkFields, L)

end CReissueToken

section Metadata

/-- The metadata every existing token should carry: a positive amount up to
`MAX_MONEY_TOKENS`, units from `0` to `8`, a reissuable flag `0` or `1`, and an
amount in whole units of its smallest division. -/
def TokenMetadataValid (token : CNewToken) : Prop :=
  0 < token.nAmount.toInt ∧ token.nAmount.toInt ≤ MAX_MONEY_TOKENS.toInt ∧ 0 ≤ token.units.toInt ∧
    token.units.toInt ≤ MAX_UNIT ∧ (token.nReissuable = 0 ∨ token.nReissuable = 1) ∧
    (10 : Int) ^ (MAX_UNIT - token.units.toInt).toNat ∣ token.nAmount.toInt

instance (token : CNewToken) : Decidable (TokenMetadataValid token) :=
  inferInstanceAs (Decidable (0 < token.nAmount.toInt ∧ token.nAmount.toInt ≤ MAX_MONEY_TOKENS.toInt ∧
    0 ≤ token.units.toInt ∧ token.units.toInt ≤ MAX_UNIT ∧ (token.nReissuable = 0 ∨ token.nReissuable = 1) ∧
    (10 : Int) ^ (MAX_UNIT - token.units.toInt).toNat ∣ token.nAmount.toInt))

/-- For units from `0` to `8` the power `CheckAmountWithUnits` divides by is
exact, and the test is divisibility of the amount. -/
theorem checkAmountWithUnits_iff {nAmount : CAmount} {nUnits : Int8} (h0 : 0 ≤ nUnits.toInt)
    (h8 : nUnits.toInt ≤ MAX_UNIT) :
    checkAmountWithUnits nAmount nUnits = true ↔ (10 : Int) ^ (MAX_UNIT - nUnits.toInt).toNat ∣ nAmount.toInt := by
  have he : ¬ MAX_UNIT - nUnits.toInt < 0 := by omega
  have hpow : 10 ^ (MAX_UNIT - nUnits.toInt).toNat < 2 ^ 63 := by
    calc 10 ^ (MAX_UNIT - nUnits.toInt).toNat ≤ 10 ^ 8 :=
          Nat.pow_le_pow_right (by norm_num) (by unfold MAX_UNIT; omega)
      _ < 2 ^ 63 := by decide
  simp only [checkAmountWithUnits, if_neg he, beq_iff_eq]
  rw [← Int64.toInt_inj, Int64.toInt_mod, Int64.toInt_ofNat_of_lt hpow, Int64.toInt_zero,
    Int.dvd_iff_tmod_eq_zero]
  push_cast
  rfl

/-- The checks of a reissue against its token pass exactly when the token is
reissuable, the `int64_t` sum is within the bound, the amount is in the token's
units, and the new units are `-1` or no finer. -/
theorem CReissueToken.checkAgainst_eq_ok_iff {reissue : CReissueToken} {token : CNewToken} :
    reissue.checkAgainst token = .ok () ↔ token.nReissuable ≠ 0 ∧ ¬ token.nAmount + reissue.nAmount > MAX_MONEY_TOKENS ∧
      checkAmountWithUnits reissue.nAmount token.units = true ∧ (reissue.nUnits = -1 ∨ token.units ≤ reissue.nUnits) := by
  -- the last guard fails exactly on finer units other than `-1`
  have hselection : (decide (reissue.nUnits < token.units) && reissue.nUnits != -1) = false ↔
      (reissue.nUnits = -1 ∨ token.units ≤ reissue.nUnits) := by
    by_cases hkeep : reissue.nUnits = -1
    · simp [hkeep]
    · simp [hkeep, Int8.not_lt]
  simp only [CReissueToken.checkAgainst, failWhen_bind_eq_ok, failWhen_eq_ok, hselection]
  simp

/-- The checks of a reissue on its own fields pass exactly when its IPFS hash
passes, its amount is not negative and its units are from `-1` to `8`. -/
theorem CReissueToken.checkFields_eq_ok_iff {reissue : CReissueToken} :
    reissue.checkFields = .ok () ↔ checkIPFSHash (reissue.strIPFSHash != []) reissue.strIPFSHash = .ok () ∧
      0 ≤ reissue.nAmount.toInt ∧ reissue.nUnits.toInt ≤ MAX_UNIT ∧ -1 ≤ reissue.nUnits.toInt := by
  simp only [CReissueToken.checkFields, Except.bind_eq_ok, failWhen_eq_ok, Unique.exists_iff, Bool.or_eq_false_iff,
    decide_eq_false_iff_not, Int64.lt_iff_toInt_lt, Int64.toInt_zero, not_lt, gt_iff_lt]

/-- `CReissueToken::IsValid` does not read the reissue's flag, which
`AddReissueToken` makes the token's. -/
theorem CReissueToken.isValid_nReissuable (reissue : CReissueToken) (flag : Int8) (L : TokenLayers)
    (fForceCheckPrimaryTokenExists : Bool) :
    ({ reissue with nReissuable := flag }.isValid L fForceCheckPrimaryTokenExists) =
      reissue.isValid L fForceCheckPrimaryTokenExists := rfl

/-- A reissue keeps the metadata of its token valid where the exact sum of the
amounts stays below `2 ^ 63` and the reissue's flag is `0` or `1`, the two
things the checks of `CReissueToken::IsValid` leave out.  The reissued amount
is in whole units of the old division, and the new units are no coarser. -/
theorem CReissueToken.applyTo_metadataValid {reissue : CReissueToken} {token : CNewToken}
    (hvalid : TokenMetadataValid token) (hagainst : reissue.checkAgainst token = .ok ())
    (hfields : reissue.checkFields = .ok ()) (hsum : token.nAmount.toInt + reissue.nAmount.toInt < 2 ^ 63)
    (hflag : reissue.nReissuable = 0 ∨ reissue.nReissuable = 1) :
    TokenMetadataValid (reissue.applyTo token) := by
  obtain ⟨hpos, -, hu0, hu8, -, hdiv⟩ := hvalid
  obtain ⟨-, hbound, hdivReissue, hselection⟩ := CReissueToken.checkAgainst_eq_ok_iff.mp hagainst
  obtain ⟨-, hnonneg, hn8, -⟩ := CReissueToken.checkFields_eq_ok_iff.mp hfields
  -- below `2 ^ 63` the machine sum is the exact one, and the bound holds of it
  have hexact : (reissue.applyTo token).nAmount.toInt = token.nAmount.toInt + reissue.nAmount.toInt :=
    Int64Sum.toInt_add_of_lt hpos.le hnonneg hsum
  have hmax : (reissue.applyTo token).nAmount.toInt ≤ MAX_MONEY_TOKENS.toInt := by
    rw [gt_iff_lt, Int64.lt_iff_toInt_lt, not_lt] at hbound
    exact hbound
  have hdivSum : (10 : Int) ^ (MAX_UNIT - token.units.toInt).toNat ∣ (reissue.applyTo token).nAmount.toInt := by
    rw [hexact]
    exact Int.dvd_add hdiv ((checkAmountWithUnits_iff hu0 hu8).mp hdivReissue)
  -- the units are kept, or replaced by the reissue's, which are no coarser and at most `8`
  have hunits : token.units.toInt ≤ (reissue.applyTo token).units.toInt ∧
      (reissue.applyTo token).units.toInt ≤ MAX_UNIT := by
    by_cases hkeep : reissue.nUnits = -1
    · simp [CReissueToken.applyTo, hkeep, hu8]
    · have hle := Int8.le_iff_toInt_le.mp (hselection.resolve_left hkeep)
      simp [CReissueToken.applyTo, hkeep, hle, hn8]
  refine ⟨by omega, hmax, by omega, hunits.2, hflag, ?_⟩
  exact (pow_dvd_pow 10 (by omega)).trans hdivSum

/-- Fifty more `ABC` keep the metadata of a hundred valid. -/
theorem abcReissue_keeps_metadata :
    TokenMetadataValid abcIssue ∧ abcReissue.checkAgainst abcIssue = .ok () ∧ abcReissue.checkFields = .ok () ∧
      abcIssue.nAmount.toInt + abcReissue.nAmount.toInt < 2 ^ 63 ∧
      (abcReissue.nReissuable = 0 ∨ abcReissue.nReissuable = 1) ∧ TokenMetadataValid (abcReissue.applyTo abcIssue) := by
  have hvalid : TokenMetadataValid abcIssue := by decide
  have hagainst : abcReissue.checkAgainst abcIssue = .ok () := by decide
  have hfields : abcReissue.checkFields = .ok () := by decide
  have hsum : abcIssue.nAmount.toInt + abcReissue.nAmount.toInt < 2 ^ 63 := by decide
  have hflag : abcReissue.nReissuable = 0 ∨ abcReissue.nReissuable = 1 := by decide
  exact ⟨hvalid, hagainst, hfields, hsum, hflag, CReissueToken.applyTo_metadataValid hvalid hagainst hfields hsum hflag⟩

end Metadata

/-- The cache `CheckTxTokens` reads, as a view of the layers. -/
def TokenLayers.toView (L : TokenLayers) : CTokensCacheView :=
  ⟨fun name => (L.getTokenMetaDataIfExists name).1.map Prod.fst, fun reissue => (reissue.isValid L true).1⟩

/-- `if (!check(strError)) return state.DoS(100, false, REJECT_INVALID, reason)`,
the reason built from the error text. -/
def requireValid (r : Except String Unit) (reason : String → String) : Check :=
  match r with
  | .error strError => reject 100 REJECT_INVALID (reason strError) false
  | .ok () => pure ()

theorem requireValid_eq_ok {r : Except String Unit} {reason : String → String} :
    requireValid r reason = .ok () ↔ r = .ok () := by
  cases r <;> simp [requireValid, reject, pure, Except.pure]

section CheckTransaction

variable (C : Crypto) (g : CGovernance) (ctx : TxContext) (L : TokenLayers) (mapTokenToHash : Bytes → Bool)
  (fMemPoolCheck fCheckTokenDuplicate fForceDuplicateCheck : Bool)

/-- The IPFS test every issuance branch of `CheckTransaction` ends with. -/
def requireIPFSDeployed (strIPFSHash : Bytes) : Check :=
  require (!(!ctx.tokensIPFSDeployed && strIPFSHash != [])) 100 REJECT_INVALID "bad-txns-ipfs-not-enabled" false

/-- The new-token branch of `CheckTransaction`. -/
def checkNewTokenTx (tx : CTransaction) : Check := do
  requireValid (tx.verifyNewToken C g) id
  match tx.tokenFromTx with
  | none => reject 100 REJECT_INVALID "bad-txns-issue-token-from-transaction" false
  | some token => do
    requireValid (tx.isNewOwnerTxValid C token.strName (scriptAddress C (voutFromEnd tx.vout 1).scriptPubKey)) id
    requireValid (token.isValid L mapTokenToHash fMemPoolCheck fCheckTokenDuplicate fForceDuplicateCheck).1
      ("bad-txns-issue-" ++ ·)
    requireIPFSDeployed ctx token.strIPFSHash

/-- The reissue branch of `CheckTransaction`: the reissued token is not looked up. -/
def checkReissueTokenTx (tx : CTransaction) : Check := do
  requireValid (tx.verifyReissueToken C g) id
  match tx.reissueFromTx with
  | none => reject 100 REJECT_INVALID "bad-txns-reissue-token" false
  | some reissue => do
    requireValid (reissue.isValid L false).1 ("bad-txns-reissue-" ++ ·)
    requireIPFSDeployed ctx reissue.strIPFSHash

/-- The unique-token branch of `CheckTransaction`: every unique-token output,
each against the same cache. -/
def checkNewUniqueTokenTx (tx : CTransaction) : Check := do
  requireValid (tx.verifyNewUniqueToken C g) id
  tx.vout.forM fun out =>
    if isScriptNewUniqueToken out.scriptPubKey then
      match tokenFromScript out.scriptPubKey with
      | none => reject 100 REJECT_INVALID "bad-txns-check-transaction-issue-unique-token-serialization" false
      | some token => do
        requireValid (token.isValid L mapTokenToHash fMemPoolCheck fCheckTokenDuplicate fForceDuplicateCheck).1
          ("bad-txns-" ++ ·)
        requireIPFSDeployed ctx token.strIPFSHash
    else pure ()

/-- The username branch of `CheckTransaction`. -/
def checkNewUsernameTx (tx : CTransaction) : Check := do
  requireValid (tx.verifyNewUsername C g) id
  match tx.tokenFromTx with
  | none => reject 100 REJECT_INVALID "bad-txns-issue-username-from-transaction" false
  | some token => do
    requireValid (token.isValid L mapTokenToHash fMemPoolCheck fCheckTokenDuplicate fForceDuplicateCheck).1
      ("bad-txns-issue-" ++ ·)
    requireIPFSDeployed ctx token.strIPFSHash

/-- The issuance branches of `CheckTransaction` with the token cache `L`; the
LRU entries their lookups write are dropped. -/
def issuanceChecksOf : IssuanceChecks :=
  ⟨checkNewTokenTx C g ctx L mapTokenToHash fMemPoolCheck fCheckTokenDuplicate fForceDuplicateCheck,
    checkReissueTokenTx C g ctx L,
    checkNewUniqueTokenTx C g ctx L mapTokenToHash fMemPoolCheck fCheckTokenDuplicate fForceDuplicateCheck,
    checkNewUsernameTx C g ctx L mapTokenToHash fMemPoolCheck fCheckTokenDuplicate fForceDuplicateCheck⟩

end CheckTransaction

section ConnectBlock

variable (C : Crypto) (g : CGovernance) (fTokensDeployed : Bool)

/-- The issues of a unique-token transaction validated again, each against the
cache, with the LRU entries the lookups write. -/
def revalidateUniqueTokens : TokenLayers → List CTxOut → Check × TokenLayers
  | L, [] => (pure (), L)
  | L, out :: vout =>
    if isScriptNewUniqueToken out.scriptPubKey then
      match tokenFromScript out.scriptPubKey with
      | none => (reject 100 REJECT_INVALID "bad-txns-connect-block-issue-unique-token-serialization" false, L)
      | some token =>
        let r := token.isValid L (fun _ => false) false true true
        match r.1 with
        | .error strError => (reject 100 REJECT_INVALID strError false, r.2)
        | .ok () => revalidateUniqueTokens r.2 vout
    else revalidateUniqueTokens L vout

/-- The token section of `ConnectBlock`'s loop for one transaction, against the
cache the block is connected into. -/
def connectTokenRevalidation (L : TokenLayers) (tx : CTransaction) : Check × TokenLayers :=
  if tx.isNewTokenTx then
    if !fTokensDeployed then
      (reject 100 REJECT_INVALID "bad-txns-new-token-when-tokens-is-not-active" false, L)
    else if !(tx.verifyNewToken C g).isOk then
      (reject 100 REJECT_INVALID "bad-txns-issue-token-failed-verify" false, L)
    else
      match tx.tokenFromTx with
      | none => (reject 100 REJECT_INVALID "bad-txns-issue-token-serialization" false, L)
      | some token =>
        match tx.isNewOwnerTxValid C token.strName (scriptAddress C (voutFromEnd tx.vout 1).scriptPubKey) with
        | .error strError => (reject 100 REJECT_INVALID strError false, L)
        | .ok () =>
          let r := token.isValid L (fun _ => false) false true true
          (requireValid r.1 fun _ => "bad-txns-issue-token", r.2)
  else if tx.isReissueTokenTx then
    if !fTokensDeployed then
      (reject 100 REJECT_INVALID "bad-txns-reissue-token-when-tokens-is-not-active" false, L)
    else
      match tx.verifyReissueToken C g with
      | .error strError => (reject 100 REJECT_INVALID strError false, L)
      | .ok () =>
        match tx.reissueFromTx with
        | none => (reject 100 REJECT_INVALID "bad-txns-reissue-token-serialization" false, L)
        | some reissue =>
          let r := reissue.isValid L true
          (requireValid r.1 id, r.2)
  else if tx.isNewUniqueTokenTx then
    if !fTokensDeployed then
      (reject 100 REJECT_INVALID "bad-txns-issue-unique-token-when-tokens-is-not-active" false, L)
    else if !(tx.verifyNewUniqueToken C g).isOk then
      (reject 100 REJECT_INVALID "bad-txns-issue-unique-token-failed-verify" false, L)
    else revalidateUniqueTokens L tx.vout
  else (pure (), L)

/-- The token work of `ConnectBlock`'s loop over a block: each transaction
validated again against the cache, then written into it by `AddCoins`. -/
def connectBlockTokenChecks (nHeight : Int) (blockHash : uint256) : TokenLayers → List CTransaction →
    Except Failure TokenLayers
  | L, [] => .ok L
  | L, tx :: vtx =>
    match connectTokenRevalidation C g fTokensDeployed L tx with
    | (.error e, _) => .error e
    | (.ok (), L) =>
      connectBlockTokenChecks nHeight blockHash (addCoinsTokens fTokensDeployed nHeight blockHash L tx (C.getHash tx)).1 vtx

end ConnectBlock

section NodeFixtures

/-- Governance at its initial costs: `10000` coins for a root token or a
reissue, one coin for a username, paid to the main network's fee script. -/
def initGovernance : CGovernance := CGovernance.init false mainParams CGovernance.empty

/-- A node at `tip` whose issuance checks and tokens cache are those of `L`. -/
def tokenNode (tip : Int) (L : TokenLayers) : NodeContext :=
  let ctx : TxContext := ⟨mainParams, tip, false⟩
  ⟨ctx, some (issuanceChecksOf Crypto.truncating initGovernance ctx L (fun _ => false) false true true),
    some L.toView, fun _ => none⟩

def revalidationAgainst (L : TokenLayers) : Option (CTransaction → Check) :=
  some fun tx => (connectTokenRevalidation Crypto.truncating initGovernance true L tx).1

def tokenPart (type : UInt8) (payload : Bytes) : Bytes :=
  [OP_TOKEN_SCRIPT] ++ pushData ([TOKEN_AOK, TOKEN_LOCAL, TOKEN_PAYMENT, type] ++ payload) ++ [OP_DROP]

end NodeFixtures

section Overflow

theorem toInt_MAX_MONEY_TOKENS : MAX_MONEY_TOKENS.toInt = 2500000000000000000 := by decide

/-- `CReissueToken::IsValid` with the existence test accepts a reissue of an
existing reissuable token whose exact sum with the token's amount reaches
`2 ^ 63`, past `MAX_MONEY_TOKENS`, when the other checks pass; `AddReissueToken`
then stores a negative amount, which the next lookup of the name returns. -/
theorem reissue_overflow_accepted (L : TokenLayers) (reissue : CReissueToken) (out : COutPoint)
    {token : CNewToken} {block : Option (Int × uint256)}
    (hget : (L.getTokenMetaDataIfExists reissue.strName).1 = some (token, block))
    (hreissuable : token.nReissuable ≠ 0) (hunits : checkAmountWithUnits reissue.nAmount token.units = true)
    (hnUnits : (reissue.nUnits = -1 ∨ token.units ≤ reissue.nUnits) ∧ -1 ≤ reissue.nUnits.toInt ∧
      reissue.nUnits.toInt ≤ MAX_UNIT)
    (hipfs : reissue.strIPFSHash = []) (hsum : 2 ^ 63 ≤ token.nAmount.toInt + reissue.nAmount.toInt) :
    (reissue.isValid L true).1 = .ok () ∧ MAX_MONEY_TOKENS.toInt < token.nAmount.toInt + reissue.nAmount.toInt ∧
      ((L.addReissueToken reissue out).2.getTokenMetaDataIfExists reissue.strName).1 =
        some (reissue.applyTo token, none) ∧ (reissue.applyTo token).nAmount.toInt < 0 := by
  have hwrap : (token.nAmount + reissue.nAmount).toInt < 0 := Int64Sum.toInt_add_neg_of_le hsum
  have hnonneg : 0 ≤ reissue.nAmount.toInt := by
    have := Int64.toInt_lt token.nAmount
    omega
  -- the wrapped sum is below the bound, and every other check passes
  have hbound : ¬ token.nAmount + reissue.nAmount > MAX_MONEY_TOKENS := by
    rw [gt_iff_lt, Int64.lt_iff_toInt_lt, toInt_MAX_MONEY_TOKENS]
    omega
  have hagainst : reissue.checkAgainst token = .ok () :=
    CReissueToken.checkAgainst_eq_ok_iff.mpr ⟨hreissuable, hbound, hunits, hnUnits.1⟩
  have hfields : reissue.checkFields = .ok () :=
    CReissueToken.checkFields_eq_ok_iff.mpr ⟨by simp [hipfs], hnonneg, hnUnits.2.2, hnUnits.2.1⟩
  refine ⟨?_, by rw [toInt_MAX_MONEY_TOKENS]; omega, L.getTokenMetaDataIfExists_addReissueToken out hget, hwrap⟩
  simp [CReissueToken.isValid, hget, hagainst, hfields, bind, Except.bind]

/-- `ABC` issued at `MAX_MONEY_TOKENS`, units `0`, reissuable. -/
def maxIssue : CNewToken := ⟨nameABC, MAX_MONEY_TOKENS, 0, 1, 0, []⟩

/-- A reissue of `7 * 10 ^ 10` more coins of `ABC`, keeping its units. -/
def overflowReissue : CReissueToken := ⟨nameABC, 70000000000 * COIN, -1, 1, []⟩

def abcFunds : COutPoint := ⟨18, 0⟩

def reissueFunds : COutPoint := ⟨19, 0⟩

def reissueKernel : COutPoint := ⟨20, 0⟩

def abcOwnerScript : CScript := stakerScript ++ tokenPart TOKEN_OWNER_KEY (serBytes (nameABC ++ OWNER_TAG))

/-- The issue of `maxIssue`: the burn, the owner token, then the new token. -/
def maxIssueTx : CTransaction :=
  spendTx [abcFunds] [⟨10000 * COIN, mainParams.tokenFeeScript⟩, ⟨0, abcOwnerScript⟩,
    ⟨0, stakerScript ++ tokenPart TOKEN_ISSUE (serBytes nameABC ++ serInt64 MAX_MONEY_TOKENS ++ [0, 1, 0])⟩]

def issueView : CCoinsMap :=
  viewOf [(kernelOut, Coin.make ⟨1000 * COIN, stakerScript⟩ 871000 false false 0),
    (abcFunds, Coin.make ⟨10001 * COIN, stakerScript⟩ 871000 false false 0)]

def issueBlock : CBlock := fixtureBlock [posCoinbase, stakeOf 0, maxIssueTx] [1]

def issueBlockHash : uint256 := Crypto.truncating.getBlockHash issueBlock.toCBlockHeader

/-- The token cache once the issue block is connected and flushed. -/
def issuedLayers : TokenLayers := (emptyLayers.addNewToken maxIssue 871500 issueBlockHash).2.flush

def abcOwnerOut : COutPoint := ⟨Crypto.truncating.getHash maxIssueTx, 1⟩

/-- The reissue of `overflowReissue`: the burn, the owner token sent back, then
the reissue, the units byte `-1`. -/
def overflowReissueTx : CTransaction :=
  spendTx [reissueFunds, abcOwnerOut] [⟨10000 * COIN, mainParams.tokenFeeScript⟩,
    ⟨0, CTokenTransfer.constructTransaction ⟨nameABC ++ OWNER_TAG, OWNER_TOKEN_AMOUNT, 0⟩ stakerScript⟩,
    ⟨0, stakerScript ++ tokenPart TOKEN_AOK (serBytes nameABC ++ serInt64 (70000000000 * COIN) ++ [0xff, 1])⟩]

def overflowReissueOut : COutPoint := overflowReissueTx.lastOut (Crypto.truncating.getHash overflowReissueTx)

def reissueView : CCoinsMap :=
  viewOf [(reissueKernel, Coin.make ⟨1000 * COIN, stakerScript⟩ 871000 false false 0),
    (reissueFunds, Coin.make ⟨10001 * COIN, stakerScript⟩ 871000 false false 0),
    (abcOwnerOut, Coin.make ⟨0, abcOwnerScript⟩ 871500 false false blockTime)]

def reissueBlock : CBlock :=
  fixtureBlock [coinbaseTx 871501 [emptyOut], spendTx [reissueKernel] [emptyOut, ⟨1000 * COIN, stakerScript⟩],
    overflowReissueTx] [1]

def reissueBlockHash : uint256 := Crypto.truncating.getBlockHash reissueBlock.toCBlockHeader

set_option maxRecDepth 10000 in
/-- `ConnectBlock` accepts the block issuing `ABC` at `MAX_MONEY_TOKENS` and the
next block reissuing `7 * 10 ^ 10` coins of it, each checked against the cache it
is connected into; the reissue leaves `ABC` with a negative amount. -/
theorem maxReissue_wraps_negative :
    (connectBlock (acceptingEnv acceptAll) (tokenNode 871499 emptyLayers) (revalidationAgainst emptyLayers)
        issueBlock 871500 issueView initGovernance false false).1.toBool = true ∧
      connectBlockTokenChecks Crypto.truncating initGovernance true 871500 issueBlockHash emptyLayers issueBlock.vtx =
        .ok (emptyLayers.addNewToken maxIssue 871500 issueBlockHash).2 ∧
      (connectBlock (acceptingEnv acceptAll) (tokenNode 871500 issuedLayers) (revalidationAgainst issuedLayers)
        reissueBlock 871501 reissueView initGovernance false false).1.toBool = true ∧
      connectBlockTokenChecks Crypto.truncating initGovernance true 871501 reissueBlockHash issuedLayers
        reissueBlock.vtx = .ok (issuedLayers.addReissueToken overflowReissue overflowReissueOut).2 ∧
      overflowReissueTx.reissueFromTx = some overflowReissue ∧
      (issuedLayers.getTokenMetaDataIfExists overflowReissue.strName).1 = some (maxIssue, some (871500, issueBlockHash)) ∧
      maxIssue.nReissuable ≠ 0 ∧ checkAmountWithUnits overflowReissue.nAmount maxIssue.units = true ∧
      ((overflowReissue.nUnits = -1 ∨ maxIssue.units ≤ overflowReissue.nUnits) ∧ -1 ≤ overflowReissue.nUnits.toInt ∧
        overflowReissue.nUnits.toInt ≤ MAX_UNIT) ∧
      overflowReissue.strIPFSHash = [] ∧ 2 ^ 63 ≤ maxIssue.nAmount.toInt + overflowReissue.nAmount.toInt ∧
      ((overflowReissue.isValid issuedLayers true).1 = .ok () ∧
        MAX_MONEY_TOKENS.toInt < maxIssue.nAmount.toInt + overflowReissue.nAmount.toInt ∧
        ((issuedLayers.addReissueToken overflowReissue overflowReissueOut).2.getTokenMetaDataIfExists
          overflowReissue.strName).1 = some (overflowReissue.applyTo maxIssue, none) ∧
        (overflowReissue.applyTo maxIssue).nAmount.toInt < 0) := by
  have hget : (issuedLayers.getTokenMetaDataIfExists overflowReissue.strName).1 =
      some (maxIssue, some (871500, issueBlockHash)) := by decide
  have hreissuable : maxIssue.nReissuable ≠ 0 := by decide
  have hunits : checkAmountWithUnits overflowReissue.nAmount maxIssue.units = true := by decide
  have hnUnits : (overflowReissue.nUnits = -1 ∨ maxIssue.units ≤ overflowReissue.nUnits) ∧
      -1 ≤ overflowReissue.nUnits.toInt ∧ overflowReissue.nUnits.toInt ≤ MAX_UNIT := by decide
  have hsum : 2 ^ 63 ≤ maxIssue.nAmount.toInt + overflowReissue.nAmount.toInt := by decide
  exact ⟨by decide, by decide, by decide, by decide, by decide, hget,
    hreissuable, hunits, hnUnits, rfl, hsum,
    reissue_overflow_accepted issuedLayers overflowReissue overflowReissueOut hget hreissuable hunits hnUnits rfl hsum⟩

end Overflow

section Usernames

variable {C : Crypto} {g : CGovernance}

/-- `ConnectBlock` validates a username issue no further: its token section has
no branch for one. -/
theorem connectTokenRevalidation_username {fTokensDeployed : Bool} (L : TokenLayers) {tx : CTransaction}
    (husername : tx.isNewUsernameTx = true) (hnew : tx.isNewTokenTx = false) :
    connectTokenRevalidation C g fTokensDeployed L tx = (pure (), L) := by
  obtain ⟨hreissue, hunique⟩ := CTransaction.kinds_of_isNewUsernameTx husername
  simp [connectTokenRevalidation, hnew, hreissue, hunique]

/-- Two username issues of one name in a block both pass the token work of
`ConnectBlock`: the first adds the name to the cache, and the second, not
validated again, meets it there and its `AddNewToken` fails, which `AddCoins`
only logs. -/
theorem username_issued_twice_in_block (C : Crypto) (g : CGovernance) (L : TokenLayers) (nHeight : Int)
    (blockHash : uint256) {tx₁ tx₂ : CTransaction} {token₁ token₂ : CNewToken}
    (husername₁ : tx₁.isNewUsernameTx = true) (hnew₁ : tx₁.isNewTokenTx = false)
    (htoken₁ : tx₁.tokenFromTx = some token₁) (husername₂ : tx₂.isNewUsernameTx = true)
    (hnew₂ : tx₂.isNewTokenTx = false) (htoken₂ : tx₂.tokenFromTx = some token₂) (hname : token₂.strName = token₁.strName)
    (hfresh : (L.checkIfTokenExists token₁.strName true).1 = false)
    (hshown : KeyedSet.contains CTokenCacheNewToken.name token₁.strName L.ptokens.setNewTokensToRemove = false) :
    (L.addNewToken token₁ nHeight blockHash).1 = true ∧
      ((L.addNewToken token₁ nHeight blockHash).2.addNewToken token₂ nHeight blockHash).1 = false ∧
      connectBlockTokenChecks C g true nHeight blockHash L [tx₁, tx₂] =
        .ok ((L.addNewToken token₁ nHeight blockHash).2.addNewToken token₂ nHeight blockHash).2 := by
  -- the second issue meets the first in the cache
  have hexists : ((L.addNewToken token₁ nHeight blockHash).2.checkIfTokenExists token₂.strName true).1 = true := by
    rw [hname]
    exact L.checkIfTokenExists_addNewToken nHeight blockHash hfresh hshown
  refine ⟨by rw [TokenLayers.addNewToken_fst, hfresh]; rfl, by rw [TokenLayers.addNewToken_fst, hexists]; rfl, ?_⟩
  simp [connectBlockTokenChecks, connectTokenRevalidation_username _ husername₁ hnew₁,
    connectTokenRevalidation_username _ husername₂ hnew₂, addCoinsTokens_username _ _ hnew₁ husername₁ htoken₁,
    addCoinsTokens_username _ _ hnew₂ husername₂ htoken₂, pure, Except.pure]

def aliceFunds₁ : COutPoint := ⟨16, 0⟩

def aliceFunds₂ : COutPoint := ⟨17, 0⟩

/-- An issue of `@ALICE` paying its coin to the fee script. -/
def aliceIssue (funds : COutPoint) : CTransaction :=
  spendTx [funds] [⟨COIN, mainParams.tokenFeeScript⟩, ⟨0, stakerScript ++ usernamePart⟩]

-- the kind and the token of the issue, whatever coin pays for it
theorem aliceIssue_isNewUsernameTx (funds : COutPoint) : (aliceIssue funds).isNewUsernameTx = true := rfl

theorem aliceIssue_isNewTokenTx (funds : COutPoint) : (aliceIssue funds).isNewTokenTx = false := rfl

theorem aliceIssue_tokenFromTx (funds : COutPoint) : (aliceIssue funds).tokenFromTx = some aliceToken := rfl

/-- The empty layers know no `@ALICE`. -/
theorem aliceToken_fresh : (emptyLayers.checkIfTokenExists aliceToken.strName true).1 = false := by decide

def twoAliceView : CCoinsMap :=
  viewOf [(kernelOut, Coin.make ⟨1000 * COIN, stakerScript⟩ 871000 false false 0),
    (aliceFunds₁, Coin.make ⟨2 * COIN, stakerScript⟩ 871000 false false 0),
    (aliceFunds₂, Coin.make ⟨2 * COIN, stakerScript⟩ 871000 false false 0)]

def twoAliceBlock : CBlock :=
  fixtureBlock [posCoinbase, stakeOf 0, aliceIssue aliceFunds₁, aliceIssue aliceFunds₂] [1]

def twoAliceBlockHash : uint256 := Crypto.truncating.getBlockHash twoAliceBlock.toCBlockHeader

set_option maxRecDepth 10000 in
/-- `ConnectBlock` accepts a block with two issues of `@ALICE`, each checked by
`CheckTransaction` against the empty cache of the tip; the token work of the block
is that of the two issues, the second of which adds nothing. -/
theorem aliceUsername_issued_twice :
    (connectBlock (acceptingEnv acceptAll) (tokenNode 871499 emptyLayers) (revalidationAgainst emptyLayers)
        twoAliceBlock 871500 twoAliceView initGovernance false false).1.toBool = true ∧
      connectBlockTokenChecks Crypto.truncating initGovernance true 871500 twoAliceBlockHash emptyLayers
        twoAliceBlock.vtx = connectBlockTokenChecks Crypto.truncating initGovernance true 871500 twoAliceBlockHash
          emptyLayers [aliceIssue aliceFunds₁, aliceIssue aliceFunds₂] ∧
      (aliceIssue aliceFunds₁).isNewUsernameTx = true ∧ (aliceIssue aliceFunds₁).isNewTokenTx = false ∧
      (aliceIssue aliceFunds₁).tokenFromTx = some aliceToken ∧ (aliceIssue aliceFunds₂).isNewUsernameTx = true ∧
      (aliceIssue aliceFunds₂).isNewTokenTx = false ∧ (aliceIssue aliceFunds₂).tokenFromTx = some aliceToken ∧
      (emptyLayers.checkIfTokenExists aliceToken.strName true).1 = false ∧
      KeyedSet.contains CTokenCacheNewToken.name aliceToken.strName emptyLayers.ptokens.setNewTokensToRemove = false ∧
      ((emptyLayers.addNewToken aliceToken 871500 twoAliceBlockHash).1 = true ∧
        ((emptyLayers.addNewToken aliceToken 871500 twoAliceBlockHash).2.addNewToken aliceToken 871500
          twoAliceBlockHash).1 = false ∧
        connectBlockTokenChecks Crypto.truncating initGovernance true 871500 twoAliceBlockHash emptyLayers
            [aliceIssue aliceFunds₁, aliceIssue aliceFunds₂] =
          .ok ((emptyLayers.addNewToken aliceToken 871500 twoAliceBlockHash).2.addNewToken aliceToken 871500
            twoAliceBlockHash).2) := by
  have husername₁ : (aliceIssue aliceFunds₁).isNewUsernameTx = true := by decide
  have hnew₁ : (aliceIssue aliceFunds₁).isNewTokenTx = false := by decide
  have htoken₁ : (aliceIssue aliceFunds₁).tokenFromTx = some aliceToken := by decide
  have husername₂ : (aliceIssue aliceFunds₂).isNewUsernameTx = true := by decide
  have hnew₂ : (aliceIssue aliceFunds₂).isNewTokenTx = false := by decide
  have htoken₂ : (aliceIssue aliceFunds₂).tokenFromTx = some aliceToken := by decide
  have hfresh : (emptyLayers.checkIfTokenExists aliceToken.strName true).1 = false := by decide
  have hshown : KeyedSet.contains CTokenCacheNewToken.name aliceToken.strName
      emptyLayers.ptokens.setNewTokensToRemove = false := by decide
  exact ⟨by decide, by decide, husername₁, hnew₁, htoken₁, husername₂, hnew₂, htoken₂, hfresh, hshown,
    username_issued_twice_in_block Crypto.truncating initGovernance emptyLayers 871500 twoAliceBlockHash husername₁
      hnew₁ htoken₁ husername₂ hnew₂ htoken₂ rfl hfresh hshown⟩

/-- The staker's coin and one coin paying for `@ALICE`. -/
def aliceView : CCoinsMap :=
  viewOf [(kernelOut, Coin.make ⟨1000 * COIN, stakerScript⟩ 871000 false false 0),
    (aliceFunds₁, Coin.make ⟨2 * COIN, stakerScript⟩ 871000 false false 0)]

/-- A proof-of-stake block whose one issue is that of `@ALICE`. -/
def aliceBlock : CBlock := fixtureBlock [posCoinbase, stakeOf 0, aliceIssue aliceFunds₁] [1]

def aliceBlockHash : uint256 := Crypto.truncating.getBlockHash aliceBlock.toCBlockHeader

/-- The issue of a username, connected and flushed from a fresh cache where its
name does not exist, survives disconnecting the block and flushing again: the
name exists where it did not. -/
theorem username_issue_survives_disconnect (C : Crypto) (S : TokenLayers) (nHeight : Int) (blockHash : uint256)
    (vUndoData : List (Bytes × CBlockTokenUndo)) {tx : CTransaction} {token : CNewToken}
    (hS : S.cache = CTokensCache.empty) (hnew : tx.isNewTokenTx = false) (husername : tx.isNewUsernameTx = true)
    (htoken : tx.tokenFromTx = some token)
    (htransfers : (tx.vout.all fun out => isUnspendable out.scriptPubKey || !isTransferToken out.scriptPubKey ||
        (transferTokenFromScript out.scriptPubKey).isSome) = true)
    (hfresh : (S.checkIfTokenExists token.strName true).1 = false) :
    (disconnectBlockTokens true C (connectBlockTokens true nHeight blockHash C S [tx]).1.flush [tx] vUndoData).map
      (fun L => (L.flush.checkIfTokenExists token.strName true).1) = some true := by
  -- connecting adds the username to the fresh cache, and the flush moves it to ptokens
  rw [connectBlockTokens_issue_flush S hS hfresh (addCoinsTokens_username S (C.getHash tx) hnew husername htoken)]
  simp only [disconnectBlockTokens, List.reverse_singleton, List.foldlM_cons, List.foldlM_nil,
    disconnectTxTokens_username _ vUndoData hnew husername htransfers]
  -- the disconnect leaves the issue in ptokens, where the lookup finds it
  simp [TokenLayers.flush_of_empty, TokenLayers.checkIfTokenExists_flushedNew]

set_option maxRecDepth 10000 in
/-- `ConnectBlock` accepts the block issuing `@ALICE` on a node whose issuance
checks and token cache are those of the empty layers.  The token operations of
the block, connected and then disconnected, are those of the issue, and leave
the name existing. -/
theorem aliceUsername_survives_disconnect :
    (connectBlock (acceptingEnv acceptAll) (tokenNode 871499 emptyLayers) (revalidationAgainst emptyLayers)
      aliceBlock 871500 aliceView initGovernance false false).1.toBool = true ∧
    connectBlockTokens true 871500 aliceBlockHash Crypto.truncating emptyLayers aliceBlock.vtx =
      connectBlockTokens true 871500 aliceBlockHash Crypto.truncating emptyLayers [aliceIssue aliceFunds₁] ∧
    disconnectBlockTokens true Crypto.truncating
        (connectBlockTokens true 871500 aliceBlockHash Crypto.truncating emptyLayers [aliceIssue aliceFunds₁]).1.flush
        aliceBlock.vtx [] =
      disconnectBlockTokens true Crypto.truncating
        (connectBlockTokens true 871500 aliceBlockHash Crypto.truncating emptyLayers [aliceIssue aliceFunds₁]).1.flush
        [aliceIssue aliceFunds₁] [] ∧
    emptyLayers.cache = CTokensCache.empty ∧ (aliceIssue aliceFunds₁).isNewTokenTx = false ∧
    (aliceIssue aliceFunds₁).isNewUsernameTx = true ∧ (aliceIssue aliceFunds₁).tokenFromTx = some aliceToken ∧
    ((aliceIssue aliceFunds₁).vout.all fun out => isUnspendable out.scriptPubKey ||
      !isTransferToken out.scriptPubKey || (transferTokenFromScript out.scriptPubKey).isSome) = true ∧
    (emptyLayers.checkIfTokenExists aliceToken.strName true).1 = false ∧
    (disconnectBlockTokens true Crypto.truncating
        (connectBlockTokens true 871500 aliceBlockHash Crypto.truncating emptyLayers [aliceIssue aliceFunds₁]).1.flush
        [aliceIssue aliceFunds₁] []).map (fun L => (L.flush.checkIfTokenExists aliceToken.strName true).1) =
      some true := by
  have htransfers : ((aliceIssue aliceFunds₁).vout.all fun out => isUnspendable out.scriptPubKey ||
      !isTransferToken out.scriptPubKey || (transferTokenFromScript out.scriptPubKey).isSome) = true := by
    decide
  exact ⟨by decide, by decide, by decide, rfl, aliceIssue_isNewTokenTx _, aliceIssue_isNewUsernameTx _,
    aliceIssue_tokenFromTx _, htransfers, aliceToken_fresh,
    username_issue_survives_disconnect Crypto.truncating emptyLayers 871500 aliceBlockHash [] rfl
      (aliceIssue_isNewTokenTx _) (aliceIssue_isNewUsernameTx _) (aliceIssue_tokenFromTx _) htransfers
      aliceToken_fresh⟩

end Usernames

section TipReads

variable {ctx ctx' : TxContext}

/-- The issuance checks of `CheckTransaction` read the context only through the
IPFS switch. -/
theorem issuanceChecksOf_sameSwitches (h : SameSwitches ctx ctx') (C : Crypto) (g : CGovernance) (L : TokenLayers)
    (mapTokenToHash : Bytes → Bool) (fMemPoolCheck fCheckTokenDuplicate fForceDuplicateCheck : Bool) :
    issuanceChecksOf C g ctx L mapTokenToHash fMemPoolCheck fCheckTokenDuplicate fForceDuplicateCheck =
      issuanceChecksOf C g ctx' L mapTokenToHash fMemPoolCheck fCheckTokenDuplicate fForceDuplicateCheck := by
  simp only [issuanceChecksOf, IssuanceChecks.mk.injEq]
  -- each branch ends with `requireIPFSDeployed`, the one reader of the context
  refine ⟨funext fun tx => ?_, funext fun tx => ?_, funext fun tx => ?_, funext fun tx => ?_⟩ <;>
    simp only [checkNewTokenTx, checkReissueTokenTx, checkNewUniqueTokenTx, checkNewUsernameTx, requireIPFSDeployed,
      h.ipfs]

end TipReads

end AokChain
