import AokChain.Tokens.Cache
import AokChain.Consensus.ConnectProperties

/-!
# The token operations of a block

What `ConnectBlock` and `DisconnectBlock` do to the token cache: the token
section of `AddCoins` (`coins.cpp`), run for every transaction of the block in
order, with the undo record of each reissue that changed units or the IPFS hash,
and the token section of `DisconnectBlock` (`validation.cpp`), run for every
transaction from the last.

The two dispatch differently.  `AddCoins` tests the new-token and username
kinds one after the other, without an `else`, and then the reissue and unique
kinds; `DisconnectBlock` has a chain for new tokens, reissues and unique tokens
only, so nothing undoes the issue of a username.  The owner tokens and the
transfers touch only the sets the balance index reads, which are left out; a
payload that does not deserialize leaves the default-constructed object, as
`SetNull` fills it.
-/

namespace AokChain
open Serial

/-- `CNewToken::SetNull`. -/
def CNewToken.null : CNewToken := ⟨[], 0, 8, 0, 0, []⟩

/-- `CReissueToken::SetNull`. -/
def CReissueToken.null : CReissueToken := ⟨[], 0, 0, 1, []⟩

namespace CTransaction

/-- `TokenFromTransaction` and `UsernameFromTransaction`: the payload of the
last output. -/
def tokenFromTx (tx : CTransaction) : Option CNewToken := tokenFromScript (voutFromEnd tx.vout 1).scriptPubKey

/-- `ReissueTokenFromTransaction`. -/
def reissueFromTx (tx : CTransaction) : Option CReissueToken :=
  reissueTokenFromScript (voutFromEnd tx.vout 1).scriptPubKey

/-- `COutPoint(txid, vout.size() - 1)`, the outpoint a reissue is recorded by. -/
def lastOut (tx : CTransaction) (txid : uint256) : COutPoint := ⟨txid, (tx.vout.length - 1).toUInt32⟩

end CTransaction

section Connect

variable (fTokensDeployed : Bool) (nHeight : Int) (blockHash : uint256)

/-- The unique-token loop of `AddCoins`. -/
def addUniqueTokens (L : TokenLayers) (vout : List CTxOut) : TokenLayers :=
  vout.foldl (fun L out =>
    if isScriptNewUniqueToken out.scriptPubKey then
      (L.addNewToken ((tokenFromScript out.scriptPubKey).getD CNewToken.null) nHeight blockHash).2
    else L) L

/-- The token section of `AddCoins(cache, tx, nHeight, blockHash, check,
tokensCache, undoTokenData)`: the layers and the undo record it writes.  A
failed addition is only logged. -/
def addCoinsTokens (L : TokenLayers) (tx : CTransaction) (txid : uint256) :
    TokenLayers × Option (Bytes × CBlockTokenUndo) :=
  if !fTokensDeployed then (L, none)
  else
    let L := if tx.isNewTokenTx then (L.addNewToken (tx.tokenFromTx.getD CNewToken.null) nHeight blockHash).2 else L
    if tx.isNewUsernameTx then ((L.addNewToken (tx.tokenFromTx.getD CNewToken.null) nHeight blockHash).2, none)
    else if tx.isReissueTokenTx then
      let reissue := tx.reissueFromTx.getD CReissueToken.null
      -- the metadata before the reissue, for the undo record
      let r := L.getTokenMetaDataIfExists reissue.strName
      let token := (r.1.map Prod.fst).getD CNewToken.null
      let L := (r.2.addReissueToken reissue (tx.lastOut txid)).2
      let fIPFSChanged := reissue.strIPFSHash != []
      let fUnitsChanged := reissue.nUnits != -1
      (L, if fIPFSChanged || fUnitsChanged then
          some (reissue.strName, ⟨fIPFSChanged, fUnitsChanged, token.strIPFSHash, token.units⟩)
        else none)
    else if tx.isNewUniqueTokenTx then (addUniqueTokens nHeight blockHash L tx.vout, none)
    else (L, none)

/-- The token part of `ConnectBlock`'s loop over the block: the layers and the
block's `vUndoTokenData`, the records whose name is not empty. -/
def connectBlockTokens (C : Crypto) (L : TokenLayers) (vtx : List CTransaction) :
    TokenLayers × List (Bytes × CBlockTokenUndo) :=
  vtx.foldl (fun acc tx =>
    let r := addCoinsTokens fTokensDeployed nHeight blockHash acc.1 tx (C.getHash tx)
    match r.2 with
    | some undo => (r.1, if undo.1.isEmpty then acc.2 else acc.2 ++ [undo])
    | none => (r.1, acc.2)) (L, [])

end Connect

section Disconnect

variable (fTokensDeployed : Bool)

/-- `if (tokensCache->ContainsToken(name)) { if (!remove) return DISCONNECT_FAILED; }`. -/
def removeIfContained (L : TokenLayers) (name : Bytes) (remove : TokenLayers → Bool × TokenLayers) :
    Option TokenLayers :=
  let r := L.checkIfTokenExists name true
  if r.1 then
    let r' := remove r.2
    if r'.1 then some r'.2 else none
  else some r.2

/-- The unique-token loop of `DisconnectBlock`. -/
def removeUniqueTokens (L : TokenLayers) (vout : List CTxOut) : Option TokenLayers :=
  vout.foldlM (fun L out =>
    if isScriptNewUniqueToken out.scriptPubKey then
      match tokenFromScript out.scriptPubKey with
      | some token => removeIfContained L token.strName fun L => L.removeNewToken token
      | none => none
    else some L) L

/-- The token section of `DisconnectBlock` for one transaction, `none` for
`DISCONNECT_FAILED`: the issue, the reissue or the unique tokens undone when
the cache has the name, and every transfer output read back.  The owner token
of a new-token issue is left out here: `RemoveOwnerToken` always succeeds and
writes only the owner sets and, with `-tokenindex`, the owner's balance.  It
and the exit where `OwnerFromTransaction` finds no owner output are modelled
with the balances, in `disconnectTxIndexed`. -/
def disconnectTxTokens (C : Crypto) (L : TokenLayers) (tx : CTransaction)
    (vUndoData : List (Bytes × CBlockTokenUndo)) : Option TokenLayers :=
  if !fTokensDeployed then some L
  else
    let L' : Option TokenLayers :=
      if tx.isNewTokenTx then
        match tx.tokenFromTx with
        | some token => removeIfContained L token.strName fun L => L.removeNewToken token
        | none => none
      else if tx.isReissueTokenTx then
        match tx.reissueFromTx with
        | some reissue => removeIfContained L reissue.strName fun L =>
            L.removeReissueToken reissue (tx.lastOut (C.getHash tx)) vUndoData
        | none => none
      else if tx.isNewUniqueTokenTx then removeUniqueTokens L tx.vout
      else some L
    -- the transfer outputs, whose removal touches only the balance sets
    if tx.vout.all fun out => isUnspendable out.scriptPubKey || !isTransferToken out.scriptPubKey ||
        (transferTokenFromScript out.scriptPubKey).isSome then L'
    else none

/-- The token part of `DisconnectBlock`'s loop, from the last transaction. -/
def disconnectBlockTokens (C : Crypto) (L : TokenLayers) (vtx : List CTransaction)
    (vUndoData : List (Bytes × CBlockTokenUndo)) : Option TokenLayers :=
  vtx.reverse.foldlM (fun L tx => disconnectTxTokens fTokensDeployed C L tx vUndoData) L

end Disconnect

section Kinds

theorem isReissueToken_of_isNewToken {script : CScript} (h : isNewToken script = true) :
    isReissueToken script = false := by
  unfold isNewToken isReissueToken at *
  cases hinfo : tokenScriptInfo script with
  | none => rfl
  | some info =>
    rw [hinfo] at h
    simp only [Option.any_some, TokenScriptInfo.isNew, Bool.and_eq_true, decide_eq_true_eq] at h
    simp [TokenScriptInfo.isReissue, h.1]

/-- A username's name is of the username type, so it is not a unique token's. -/
theorem isScriptNewUniqueToken_of_username {script : CScript} (h : isScriptNewUsername script = true) :
    isScriptNewUniqueToken script = false := by
  unfold isScriptNewUsername isScriptNewUniqueToken isScriptNewTokenOfType at *
  cases htoken : tokenFromScript script with
  | none => simp
  | some token =>
    rw [htoken] at h
    simp only [Bool.and_eq_true, beq_iff_eq] at h
    simp [h.2.2]

theorem CTransaction.kinds_of_isNewUsernameTx {tx : CTransaction} (h : tx.isNewUsernameTx = true) :
    tx.isReissueTokenTx = false ∧ tx.isNewUniqueTokenTx = false := by
  simp only [CTransaction.isNewUsernameTx, Bool.and_eq_true] at h
  exact ⟨isReissueToken_of_isNewToken h.1, by
    simp [CTransaction.isNewUniqueTokenTx, isScriptNewUniqueToken_of_username h.2]⟩

end Kinds

section Username

variable {C : Crypto} {nHeight : Int} {blockHash : uint256} {tx : CTransaction} {token : CNewToken}

/-- `AddCoins` of a username issue that is not also a new-token issue adds the
username and writes no undo record. -/
theorem addCoinsTokens_username (L : TokenLayers) (txid : uint256) (hnew : tx.isNewTokenTx = false)
    (husername : tx.isNewUsernameTx = true) (htoken : tx.tokenFromTx = some token) :
    addCoinsTokens true nHeight blockHash L tx txid = ((L.addNewToken token nHeight blockHash).2, none) := by
  simp [addCoinsTokens, hnew, husername, htoken]

/-- `DisconnectBlock` of a username issue touches no token. -/
theorem disconnectTxTokens_username (L : TokenLayers) (vUndoData : List (Bytes × CBlockTokenUndo))
    (hnew : tx.isNewTokenTx = false) (husername : tx.isNewUsernameTx = true)
    (htransfers : (tx.vout.all fun out => isUnspendable out.scriptPubKey || !isTransferToken out.scriptPubKey ||
        (transferTokenFromScript out.scriptPubKey).isSome) = true) :
    disconnectTxTokens true C L tx vUndoData = some L := by
  obtain ⟨hreissue, hunique⟩ := CTransaction.kinds_of_isNewUsernameTx husername
  simp only [disconnectTxTokens, hnew, hreissue, hunique, htransfers]
  rfl

/-- The token work of a block whose one transaction adds a token and writes no
undo record, connected over a cache with nothing pending where the name does
not exist, and flushed: the issue in `ptokens` and nothing else. -/
theorem connectBlockTokens_issue_flush (S : TokenLayers) (hS : S.cache = CTokensCache.empty)
    (hfresh : (S.checkIfTokenExists token.strName true).1 = false)
    (hadd : addCoinsTokens true nHeight blockHash S tx (C.getHash tx) = ((S.addNewToken token nHeight blockHash).2, none)) :
    (connectBlockTokens true nHeight blockHash C S [tx]).1.flush =
      { S with cache := CTokensCache.empty, ptokens := S.ptokens.addNew ⟨token, nHeight, blockHash⟩ } := by
  have hnew : S.addNewToken token nHeight blockHash =
      (true, { S with cache := CTokensCache.empty.addNew ⟨token, nHeight, blockHash⟩ }) := by
    rw [S.addNewToken_of_fresh nHeight blockHash hfresh, hS]
  simp only [connectBlockTokens, List.foldl_cons, List.foldl_nil, hadd, hnew]
  rfl

end Username

section Fixtures

def aliceName : Bytes := [chr '@', 65, 76, 73, 67, 69]

/-- The username `@ALICE`: one unit, units `0`, not reissuable. -/
def aliceToken : CNewToken := ⟨aliceName, COIN, 0, 0, 0, []⟩

def usernamePart : Bytes :=
  [OP_TOKEN_SCRIPT] ++ pushData ([TOKEN_AOK, TOKEN_LOCAL, TOKEN_PAYMENT, TOKEN_ISSUE] ++
    serBytes aliceName ++ serInt64 COIN ++ [0, 0, 0]) ++ [OP_DROP]

end Fixtures

end AokChain
