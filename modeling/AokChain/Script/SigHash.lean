import AokChain.Script.Script
import AokChain.Crypto

/-!
# Signature hashes

`CTransactionSignatureSerializer` and `SignatureHash` of
`script/interpreter.cpp`.  The legacy pre-image serializes the spending
transaction field by field with the other inputs' scripts blanked and the
script code stripped of `OP_CODESEPARATOR`; the witness version hashes the
BIP143 digest of prevouts, sequences and outputs.
-/

namespace AokChain
open Serial

def SIGHASH_ALL : Int32 := 1
def SIGHASH_NONE : Int32 := 2
def SIGHASH_SINGLE : Int32 := 3
def SIGHASH_ANYONECANPAY : Int32 := 0x80

inductive SigVersion
  | SIGVERSION_BASE
  | SIGVERSION_WITNESS_V0
  deriving DecidableEq, Repr

/-- How far `GetOp2` has moved its iterator when it fails on a non-empty script:
past the opcode, and past a size field that was there to read. -/
def failedGetOpAdvance (s : CScript) : ℕ :=
  match s with
  | [] => 0
  | opcode :: pc =>
    if OP_PUSHDATA1 ≤ opcode && opcode ≤ OP_PUSHDATA4 && pushSizeWidth opcode ≤ pc.length then
      1 + pushSizeWidth opcode
    else 1

/-- The bytes `SerializeScriptCode` writes after the size: every instruction but
the `OP_CODESEPARATOR`s, up to where `GetOp` stops. -/
def stripCodeSeparators : ℕ → CScript → Bytes
  | 0, _ => []
  | fuel + 1, s =>
    match getOp s with
    | none => s.take (failedGetOpAdvance s)
    | some (opcode, _, rest) =>
      (if opcode = OP_CODESEPARATOR then [] else s.take (s.length - rest.length)) ++
        stripCodeSeparators fuel rest

/-- `SerializeScriptCode`: the size counts every byte but the separators. -/
def serializeScriptCode (scriptCode : CScript) : Bytes :=
  writeCompactSize (scriptCode.length - findOp scriptCode OP_CODESEPARATOR).toUInt64 ++
    stripCodeSeparators scriptCode.length scriptCode

/-- The input of `CTxIn()`, read where an index runs past `vin`. -/
def CTxIn.default : CTxIn := ⟨⟨0, 0xffffffff⟩, [], SEQUENCE_FINAL, []⟩

/-- `CTransactionSignatureSerializer::Serialize`. -/
def signatureSerialize (txTo : CTransaction) (scriptCode : CScript) (nIn : ℕ)
    (nHashType : Int32) : Bytes :=
  let fAnyoneCanPay := nHashType &&& SIGHASH_ANYONECANPAY != 0
  let fHashSingle := nHashType &&& 0x1f == SIGHASH_SINGLE
  let fHashNone := nHashType &&& 0x1f == SIGHASH_NONE
  let serializeInput (nInput : ℕ) : Bytes :=
    let nInput := if fAnyoneCanPay then nIn else nInput
    let txin := txTo.vin.getD nInput CTxIn.default
    serOutPoint txin.prevout ++
      (if nInput ≠ nIn then serBytes [] else serializeScriptCode scriptCode) ++
      (if nInput ≠ nIn && (fHashSingle || fHashNone) then serInt32 0 else serUInt32 txin.nSequence)
  let serializeOutput (nOutput : ℕ) : Bytes :=
    if fHashSingle && nOutput ≠ nIn then serTxOut CTxOut.null
    else serTxOut (txTo.vout.getD nOutput CTxOut.null)
  let nInputs := if fAnyoneCanPay then 1 else txTo.vin.length
  let nOutputs := if fHashNone then 0 else if fHashSingle then nIn + 1 else txTo.vout.length
  serInt32 txTo.nVersion ++ serUInt32 txTo.nTime ++
    writeCompactSize nInputs.toUInt64 ++ (List.range nInputs).flatMap serializeInput ++
    writeCompactSize nOutputs.toUInt64 ++ (List.range nOutputs).flatMap serializeOutput ++
    serUInt32 txTo.nLockTime

/-- The bytes the legacy `SignatureHash` hashes: the serializer, then the hash type. -/
def sigHashPreimage (txTo : CTransaction) (scriptCode : CScript) (nIn : ℕ) (nHashType : Int32) :
    Bytes :=
  signatureSerialize txTo scriptCode nIn nHashType ++ serInt32 nHashType

/-- `uint256` one, returned for `SIGHASH_SINGLE` without a matching output. -/
def uint256One : uint256 := 1

/-- `SignatureHash`, legacy and BIP143 witness version.  Its
`assert(nIn < txTo.vin.size())` is left out: past the end of `vin` the model
reads the default input where the source aborts. -/
def signatureHash (C : Crypto) (scriptCode : CScript) (txTo : CTransaction) (nIn : ℕ)
    (nHashType : Int32) (amount : CAmount) : SigVersion → uint256
  | .SIGVERSION_WITNESS_V0 =>
    let anyoneCanPay := nHashType &&& SIGHASH_ANYONECANPAY != 0
    let base := nHashType &&& 0x1f
    let hashPrevouts : uint256 :=
      if !anyoneCanPay then C.hash256 (txTo.vin.flatMap (fun txin => serOutPoint txin.prevout))
      else 0
    let hashSequence : uint256 :=
      if !anyoneCanPay && base != SIGHASH_SINGLE && base != SIGHASH_NONE then
        C.hash256 (txTo.vin.flatMap (fun txin => serUInt32 txin.nSequence))
      else 0
    let hashOutputs : uint256 :=
      if base != SIGHASH_SINGLE && base != SIGHASH_NONE then C.hash256 (txTo.vout.flatMap serTxOut)
      else if base == SIGHASH_SINGLE && nIn < txTo.vout.length then
        C.hash256 (serTxOut (txTo.vout.getD nIn CTxOut.null))
      else 0
    let txin := txTo.vin.getD nIn CTxIn.default
    C.hash256 (serInt32 txTo.nVersion ++ serUint256 hashPrevouts ++ serUint256 hashSequence ++
      serOutPoint txin.prevout ++ serBytes scriptCode ++ serInt64 amount ++
      serUInt32 txin.nSequence ++ serUint256 hashOutputs ++ serUInt32 txTo.nLockTime ++
      serInt32 nHashType)
  | .SIGVERSION_BASE =>
    if nHashType &&& 0x1f == SIGHASH_SINGLE && txTo.vout.length ≤ nIn then uint256One
    else C.hash256 (sigHashPreimage txTo scriptCode nIn nHashType)

/-! ## What the pre-image leaves out

`CTransactionSignatureSerializer` writes `nVersion`, `nTime`, the inputs, the
outputs and `nLockTime`, but not the `nMessage` that `SerializeTransaction`
appends from `MESSAGE_VERSION` on. -/

/-- The signature pre-image is the same whatever the transaction's `nMessage`. -/
theorem sigHashPreimage_nMessage (txTo : CTransaction) (m : Bytes) (scriptCode : CScript)
    (nIn : ℕ) (nHashType : Int32) :
    sigHashPreimage { txTo with nMessage := m } scriptCode nIn nHashType =
      sigHashPreimage txTo scriptCode nIn nHashType := rfl

/-- Both signature hash versions are blind to `nMessage`. -/
theorem signatureHash_nMessage (C : Crypto) (scriptCode : CScript) (txTo : CTransaction)
    (m : Bytes) (nIn : ℕ) (nHashType : Int32) (amount : CAmount) (sigversion : SigVersion) :
    signatureHash C scriptCode { txTo with nMessage := m } nIn nHashType amount sigversion =
      signatureHash C scriptCode txTo nIn nHashType amount sigversion := by
  cases sigversion <;> rfl

/-- From `MESSAGE_VERSION` on, the txid serialization tells apart any two messages
of a size the network accepts. -/
theorem serializeTransaction_nMessage_ne (tx : CTransaction) {m : Bytes}
    (hv : tx.nVersion ≥ MESSAGE_VERSION) (hm : m ≠ tx.nMessage)
    (hlen : m.length ≤ MAX_SIZE) (hlen' : tx.nMessage.length ≤ MAX_SIZE) :
    serializeTransaction false { tx with nMessage := m } ≠ serializeTransaction false tx := by
  intro h
  -- everything before the message is the same, so the two message encodings are
  simp only [serializeTransaction, Bool.false_and, hv, if_true, List.append_cancel_left_eq] at h
  have := serBytes_prefixFree m tx.nMessage [] [] hlen hlen' (by simpa using h)
  exact hm this.1

/-- A transaction's message can be changed under its signatures: the signature
pre-images stay byte for byte the same while the txid serialization changes. -/
theorem sigHashPreimage_misses_nMessage (tx : CTransaction) (m : Bytes)
    (hv : tx.nVersion ≥ MESSAGE_VERSION) (hm : m ≠ tx.nMessage)
    (hlen : m.length ≤ MAX_SIZE) (hlen' : tx.nMessage.length ≤ MAX_SIZE) :
    (∀ scriptCode nIn nHashType, sigHashPreimage { tx with nMessage := m } scriptCode nIn nHashType =
      sigHashPreimage tx scriptCode nIn nHashType) ∧
    serializeTransaction false { tx with nMessage := m } ≠ serializeTransaction false tx :=
  ⟨fun scriptCode nIn nHashType => sigHashPreimage_nMessage tx m scriptCode nIn nHashType,
    serializeTransaction_nMessage_ne tx hv hm hlen hlen'⟩

/-- A one-input, one-output version-2 transaction with an empty message. -/
def messageTx : CTransaction :=
  ⟨[⟨⟨1, 0⟩, [], SEQUENCE_FINAL, []⟩], [⟨COIN, [OP_1]⟩], 2, 0, 0, []⟩

theorem messageTx_message_rewritable :
    (messageTx.nVersion ≥ MESSAGE_VERSION ∧ [0x41] ≠ messageTx.nMessage ∧
      [(0x41 : UInt8)].length ≤ MAX_SIZE ∧ messageTx.nMessage.length ≤ MAX_SIZE) ∧
    (∀ scriptCode nIn nHashType,
      sigHashPreimage { messageTx with nMessage := [0x41] } scriptCode nIn nHashType =
        sigHashPreimage messageTx scriptCode nIn nHashType) ∧
    serializeTransaction false { messageTx with nMessage := [0x41] } ≠
      serializeTransaction false messageTx :=
  have hyp : messageTx.nVersion ≥ MESSAGE_VERSION ∧ [0x41] ≠ messageTx.nMessage ∧
      [(0x41 : UInt8)].length ≤ MAX_SIZE ∧ messageTx.nMessage.length ≤ MAX_SIZE := by decide
  ⟨hyp, sigHashPreimage_misses_nMessage messageTx [0x41] hyp.1 hyp.2.1 hyp.2.2.1 hyp.2.2.2⟩

end AokChain
