import AokChain.Tokens.Names
import AokChain.Script.Script
import AokChain.Primitives.Serialize

/-!
# Token scripts

A token output is a pay-to-pubkey-hash or pay-to-script-hash template followed
by `OP_TOKEN_SCRIPT`, one push of a payload that starts with the bytes `a l p`
and a type byte, and `OP_DROP`.  `CScript::IsTokenScript` finds the payload by
fixed offsets (`script/script.cpp`); the payload readers of `tokens/tokens.cpp`
deserialize what follows the type byte, up to the end of the script.
-/

namespace AokChain
open Serial

def TOKEN_AOK : UInt8 := 97
def TOKEN_LOCAL : UInt8 := 108
def TOKEN_PAYMENT : UInt8 := 112
def TOKEN_ISSUE : UInt8 := 113
def TOKEN_TRANSFER : UInt8 := 116
def TOKEN_OWNER_KEY : UInt8 := 111

def OWNER_TOKEN_AMOUNT : CAmount := 1 * COIN
def UNIQUE_TOKEN_AMOUNT : CAmount := 1 * COIN
def MAX_UNIT : Int := 8

inductive txnouttype
  | TX_NONSTANDARD
  | TX_PUBKEY
  | TX_PUBKEYHASH
  | TX_SCRIPTHASH
  | TX_MULTISIG
  | TX_NULL_DATA
  | TX_WITNESS_V0_SCRIPTHASH
  | TX_WITNESS_V0_KEYHASH
  | TX_NEW_TOKEN
  | TX_REISSUE_TOKEN
  | TX_TRANSFER_TOKEN
  | TX_CLTV
  | TX_OFFLINE_STAKING
  deriving DecidableEq, Repr

/-- `SearchForToken`: the index of the type byte after the `a l p` marker, which
starts at `startingValue` or one byte later; `none` for the source's `-1`. -/
def searchForToken (script : CScript) (startingValue : ℕ) : Option ℕ :=
  if byteAt script startingValue == TOKEN_AOK then
    if byteAt script (startingValue + 1) == TOKEN_LOCAL &&
        byteAt script (startingValue + 2) == TOKEN_PAYMENT then some (startingValue + 3)
    else none
  else if byteAt script (startingValue + 1) == TOKEN_AOK &&
      byteAt script (startingValue + 2) == TOKEN_LOCAL &&
      byteAt script (startingValue + 3) == TOKEN_PAYMENT then some (startingValue + 4)
  else none

/-- What `CScript::IsTokenScript` reports through its out-parameters. -/
structure TokenScriptInfo where
  nType : txnouttype
  nScriptType : txnouttype
  fIsOwner : Bool
  nStartingIndex : ℕ
  deriving DecidableEq, Repr

/-- The template `IsTokenScript` assumes in front of the token part. -/
def tokenScriptType (script : CScript) : txnouttype :=
  if byteAt script 0 == OP_HASH160 && byteAt script 1 == 0x14 && byteAt script 22 == OP_EQUAL then
    .TX_SCRIPTHASH
  else .TX_PUBKEYHASH

/-- `CScript::IsTokenScript(nType, nScriptType, fIsOwner, nStartingIndex)`. -/
def tokenScriptInfo (script : CScript) : Option TokenScriptInfo :=
  if script.length > 31 then
    let nScriptType := tokenScriptType script
    let index :=
      if nScriptType = .TX_SCRIPTHASH && byteAt script 23 == OP_TOKEN_SCRIPT then
        searchForToken script 25
      else if byteAt script 25 == OP_TOKEN_SCRIPT then searchForToken script 27
      else none
    match index with
    | none => none
    | some index =>
      let found (nType : txnouttype) (fIsOwner : Bool) : Option TokenScriptInfo :=
        some ⟨nType, nScriptType, fIsOwner, index + 1⟩
      if byteAt script index == TOKEN_TRANSFER then found .TX_TRANSFER_TOKEN false
      else if byteAt script index == TOKEN_ISSUE && script.length > 39 then found .TX_NEW_TOKEN false
      else if byteAt script index == TOKEN_OWNER_KEY then found .TX_NEW_TOKEN true
      else if byteAt script index == TOKEN_AOK then found .TX_REISSUE_TOKEN false
      else none
  else none

def isTokenScript (script : CScript) : Bool := (tokenScriptInfo script).isSome

section Kinds

/-- The four kinds `IsScriptNewToken`, `IsScriptOwnerToken`,
`IsScriptReissueToken` and `IsScriptTransferToken` select. -/
def TokenScriptInfo.isNew (info : TokenScriptInfo) : Bool :=
  info.nType = .TX_NEW_TOKEN && !info.fIsOwner

def TokenScriptInfo.isOwner (info : TokenScriptInfo) : Bool :=
  info.nType = .TX_NEW_TOKEN && info.fIsOwner

def TokenScriptInfo.isReissue (info : TokenScriptInfo) : Bool := info.nType = .TX_REISSUE_TOKEN

def TokenScriptInfo.isTransfer (info : TokenScriptInfo) : Bool := info.nType = .TX_TRANSFER_TOKEN

def isNewToken (script : CScript) : Bool := (tokenScriptInfo script).any TokenScriptInfo.isNew
def isOwnerToken (script : CScript) : Bool := (tokenScriptInfo script).any TokenScriptInfo.isOwner
def isReissueToken (script : CScript) : Bool := (tokenScriptInfo script).any TokenScriptInfo.isReissue
def isTransferToken (script : CScript) : Bool := (tokenScriptInfo script).any TokenScriptInfo.isTransfer

end Kinds

section Payloads

/-- `CTokenTransfer`. -/
structure CTokenTransfer where
  strName : Bytes
  nAmount : CAmount
  nTokenLockTime : UInt32
  deriving DecidableEq, Repr

def serTokenTransfer (t : CTokenTransfer) : Bytes :=
  serBytes t.strName ++ serInt64 t.nAmount ++ serUInt32 t.nTokenLockTime

def unserTokenTransfer : Reader CTokenTransfer := do
  let strName ← unserBytes
  let nAmount ← unserInt64
  let nTokenLockTime ← unserUInt32
  pure ⟨strName, nAmount, nTokenLockTime⟩

def IPFS_SHA2_256 : UInt8 := 0x12
def IPFS_SHA2_256_LEN : UInt8 := 0x20

/-- The reading half of `ReadWriteIPFSHash`: only with at least 34 bytes left, a
hash-type byte and a string, of which the first 32 bytes are kept behind the
two-byte multihash prefix. -/
def readIPFSHash : Reader Bytes := fun s =>
  if !s.isEmpty && s.length ≥ 34 then
    (do
      let _ ← readLE 1
      let hash ← unserBytes
      pure ([IPFS_SHA2_256, IPFS_SHA2_256_LEN] ++ hash.take 32)).run s
  else some ([], s)

/-- `CNewToken`. -/
structure CNewToken where
  strName : Bytes
  nAmount : CAmount
  units : Int8
  nReissuable : Int8
  nHasIPFS : Int8
  strIPFSHash : Bytes
  deriving DecidableEq, Repr

def unserNewToken : Reader CNewToken := do
  let strName ← unserBytes
  let nAmount ← unserInt64
  let units ← unserInt8
  let nReissuable ← unserInt8
  let nHasIPFS ← unserInt8
  let strIPFSHash ← if nHasIPFS = 1 then readIPFSHash else pure []
  pure ⟨strName, nAmount, units, nReissuable, nHasIPFS, strIPFSHash⟩

/-- `CReissueToken`. -/
structure CReissueToken where
  strName : Bytes
  nAmount : CAmount
  nUnits : Int8
  nReissuable : Int8
  strIPFSHash : Bytes
  deriving DecidableEq, Repr

def unserReissueToken : Reader CReissueToken := do
  let strName ← unserBytes
  let nAmount ← unserInt64
  let nUnits ← unserInt8
  let nReissuable ← unserInt8
  let strIPFSHash ← readIPFSHash
  pure ⟨strName, nAmount, nUnits, nReissuable, strIPFSHash⟩

/-- The readers `TokenFromScript`, `OwnerTokenFromScript`,
`ReissueTokenFromScript` and `TransferTokenFromScript` share: a token script of
the selected kind, whose bytes from `nStartingIndex` on the reader accepts.
Bytes it leaves unread, such as the closing `OP_DROP`, are ignored. -/
def payloadFromScript {α : Type} (select : TokenScriptInfo → Bool) (r : Reader α)
    (script : CScript) : Option α :=
  match tokenScriptInfo script with
  | some info => if select info then (r.run (script.drop info.nStartingIndex)).map Prod.fst else none
  | none => none

def tokenFromScript : CScript → Option CNewToken :=
  payloadFromScript TokenScriptInfo.isNew unserNewToken

def ownerTokenFromScript : CScript → Option Bytes :=
  payloadFromScript TokenScriptInfo.isOwner unserBytes

def reissueTokenFromScript : CScript → Option CReissueToken :=
  payloadFromScript TokenScriptInfo.isReissue unserReissueToken

def transferTokenFromScript : CScript → Option CTokenTransfer :=
  payloadFromScript TokenScriptInfo.isTransfer unserTokenTransfer

end Payloads

/-- `CTokenOutputEntry` without the destination, which only the indexes read. -/
structure CTokenOutputEntry where
  type : txnouttype
  tokenName : Bytes
  nAmount : CAmount
  nTokenLockTime : UInt32
  deriving DecidableEq, Repr

/-- `GetTokenData`. -/
def getTokenData (script : CScript) : Option CTokenOutputEntry :=
  match tokenScriptInfo script with
  | none => none
  | some info =>
    if info.isNew then
      (tokenFromScript script).map fun t => ⟨.TX_NEW_TOKEN, t.strName, t.nAmount, 0⟩
    else if info.isTransfer then
      (transferTokenFromScript script).map fun t =>
        ⟨.TX_TRANSFER_TOKEN, t.strName, t.nAmount, t.nTokenLockTime⟩
    else if info.isOwner then
      (ownerTokenFromScript script).map fun name => ⟨.TX_NEW_TOKEN, name, OWNER_TOKEN_AMOUNT, 0⟩
    else if info.isReissue then
      (reissueTokenFromScript script).map fun t => ⟨.TX_REISSUE_TOKEN, t.strName, t.nAmount, 0⟩
    else none

/-- `GetTokenAmountFromScript`: an owner script counts `OWNER_TOKEN_AMOUNT`
without its payload being read. -/
def getTokenAmountFromScript (script : CScript) : Option CAmount :=
  match tokenScriptInfo script with
  | none => none
  | some info =>
    if info.isNew then (tokenFromScript script).map CNewToken.nAmount
    else if info.isTransfer then (transferTokenFromScript script).map CTokenTransfer.nAmount
    else if info.isOwner then some OWNER_TOKEN_AMOUNT
    else if info.isReissue then (reissueTokenFromScript script).map CReissueToken.nAmount
    else none

/-- `CScript::IsUnspendable`: `OP_RETURN` first, oversized, or a token amount of
zero. -/
def isUnspendable (script : CScript) : Bool :=
  (!script.isEmpty && byteAt script 0 == OP_RETURN) || script.length > MAX_SCRIPT_SIZE ||
    getTokenAmountFromScript script == some 0

/-- `CTokenTransfer::IsValid`: the later failed check overwrites the earlier
error text. -/
def CTokenTransfer.isValid (t : CTokenTransfer) : Except String Unit :=
  if t.nAmount ≤ 0 then .error "Invalid parameter: token amount can\x27t be equal to or less than zero."
  else if !isTokenNameValid t.strName then
    .error "Invalid parameter: token_name must only consist of valid characters and have a size between 3 and 30 characters. See help for more details."
  else .ok ()

/-- `CheckAmountWithUnits`: the amount is a multiple of `10 ^ (MAX_UNIT - nUnits)`.
The source computes the power in floating point and casts it to `int64_t`,
which is exact for the units `-10` to `8`.  Past `8` the power is below one
and casts to `0`, and the source's `nAmount % 0` traps; below `-10` the cast
overflows.  There the model takes `nAmount % 0 = nAmount` and the power modulo
`2 ^ 64`, which stand for no behaviour of the code: every caller passes units
of `0` to `8`, `CNewToken::IsValid` after testing them, and the reissue and
transfer checks the units of a token in the cache, which issuance and reissue
keep in that range. -/
def checkAmountWithUnits (nAmount : CAmount) (nUnits : Int8) : Bool :=
  let e := MAX_UNIT - nUnits.toInt
  let d : Int64 := if e < 0 then 0 else Int64.ofNat (10 ^ e.toNat)
  nAmount % d == 0

/-- `CTokenTransfer::ConstructTransaction` appended to a destination script. -/
def CTokenTransfer.constructTransaction (t : CTokenTransfer) (script : CScript) : CScript :=
  script ++ [OP_TOKEN_SCRIPT] ++
    pushData ([TOKEN_AOK, TOKEN_LOCAL, TOKEN_PAYMENT, TOKEN_TRANSFER] ++ serTokenTransfer t) ++ [OP_DROP]

/-- Past its last element, an index into `vout` reads the null output: the
source reads out of bounds there. -/
def voutFromEnd (vout : List CTxOut) (k : ℕ) : CTxOut :=
  if k ≤ vout.length then vout.getD (vout.length - k) CTxOut.null else CTxOut.null

/-- `IsScriptNewUniqueToken` and `IsScriptNewUsername`: a new-token script whose
payload names a valid token of the given type. -/
def isScriptNewTokenOfType (type : KnownTokenType) (script : CScript) : Bool :=
  isTokenScript script &&
    match tokenFromScript script with
    | some token => isTokenNameValid token.strName && (isTokenNameValidType token.strName).1 == type
    | none => false

def isScriptNewUniqueToken : CScript → Bool := isScriptNewTokenOfType .UNIQUE

def isScriptNewUsername : CScript → Bool := isScriptNewTokenOfType .USERNAME

namespace CTransaction

/-- `CTransaction::IsNewToken`: issue data last, the owner token before it, and
not a unique token. -/
def isNewTokenTx (tx : CTransaction) : Bool :=
  isNewToken (voutFromEnd tx.vout 1).scriptPubKey && isOwnerToken (voutFromEnd tx.vout 2).scriptPubKey &&
    !isScriptNewUniqueToken (voutFromEnd tx.vout 1).scriptPubKey

def isNewUsernameTx (tx : CTransaction) : Bool :=
  isNewToken (voutFromEnd tx.vout 1).scriptPubKey && isScriptNewUsername (voutFromEnd tx.vout 1).scriptPubKey

def isNewUniqueTokenTx (tx : CTransaction) : Bool :=
  isNewToken (voutFromEnd tx.vout 1).scriptPubKey &&
    isScriptNewUniqueToken (voutFromEnd tx.vout 1).scriptPubKey

def isReissueTokenTx (tx : CTransaction) : Bool := isReissueToken (voutFromEnd tx.vout 1).scriptPubKey

end CTransaction

end AokChain
