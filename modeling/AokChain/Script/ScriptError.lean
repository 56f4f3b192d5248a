import AokChain.Primitives.Transaction

/-!
# Script verification flags and errors

The flags of `script/interpreter.h` that block validation sets, the flag sets of
`script/standard.h` and `policy/policy.h`, and `ScriptError` with the texts of
`ScriptErrorString` (`script/script_error.cpp`), which reject reasons quote.
-/

namespace AokChain

def SCRIPT_VERIFY_NONE : UInt32 := 0
def SCRIPT_VERIFY_P2SH : UInt32 := (1 : UInt32) <<< 0
def SCRIPT_VERIFY_STRICTENC : UInt32 := (1 : UInt32) <<< 1
def SCRIPT_VERIFY_DERSIG : UInt32 := (1 : UInt32) <<< 2
def SCRIPT_VERIFY_LOW_S : UInt32 := (1 : UInt32) <<< 3
def SCRIPT_VERIFY_NULLDUMMY : UInt32 := (1 : UInt32) <<< 4
def SCRIPT_VERIFY_SIGPUSHONLY : UInt32 := (1 : UInt32) <<< 5
def SCRIPT_VERIFY_MINIMALDATA : UInt32 := (1 : UInt32) <<< 6
def SCRIPT_VERIFY_DISCOURAGE_UPGRADABLE_NOPS : UInt32 := (1 : UInt32) <<< 7
def SCRIPT_VERIFY_CLEANSTACK : UInt32 := (1 : UInt32) <<< 8
def SCRIPT_VERIFY_CHECKLOCKTIMEVERIFY : UInt32 := (1 : UInt32) <<< 9
/-- `SCRIPT_VERIFY_DERKEY` shares its bit with `SCRIPT_VERIFY_CHECKSEQUENCEVERIFY`. -/
def SCRIPT_VERIFY_DERKEY : UInt32 := (1 : UInt32) <<< 10
def SCRIPT_VERIFY_CHECKSEQUENCEVERIFY : UInt32 := (1 : UInt32) <<< 10
def SCRIPT_VERIFY_WITNESS : UInt32 := (1 : UInt32) <<< 11
def SCRIPT_VERIFY_DISCOURAGE_UPGRADABLE_WITNESS_PROGRAM : UInt32 := (1 : UInt32) <<< 12
def SCRIPT_VERIFY_MINIMALIF : UInt32 := (1 : UInt32) <<< 13
def SCRIPT_VERIFY_NULLFAIL : UInt32 := (1 : UInt32) <<< 14
def SCRIPT_VERIFY_WITNESS_PUBKEYTYPE : UInt32 := (1 : UInt32) <<< 15

def MANDATORY_SCRIPT_VERIFY_FLAGS : UInt32 :=
  SCRIPT_VERIFY_P2SH ||| SCRIPT_VERIFY_DERKEY ||| SCRIPT_VERIFY_LOW_S ||| SCRIPT_VERIFY_NULLDUMMY |||
    SCRIPT_VERIFY_CHECKLOCKTIMEVERIFY ||| SCRIPT_VERIFY_DERSIG

def STANDARD_SCRIPT_VERIFY_FLAGS : UInt32 :=
  MANDATORY_SCRIPT_VERIFY_FLAGS ||| SCRIPT_VERIFY_STRICTENC ||| SCRIPT_VERIFY_MINIMALDATA |||
    SCRIPT_VERIFY_DISCOURAGE_UPGRADABLE_NOPS ||| SCRIPT_VERIFY_CLEANSTACK ||| SCRIPT_VERIFY_MINIMALIF |||
    SCRIPT_VERIFY_NULLFAIL ||| SCRIPT_VERIFY_CHECKSEQUENCEVERIFY ||| SCRIPT_VERIFY_CHECKLOCKTIMEVERIFY |||
    SCRIPT_VERIFY_WITNESS ||| SCRIPT_VERIFY_DISCOURAGE_UPGRADABLE_WITNESS_PROGRAM |||
    SCRIPT_VERIFY_WITNESS_PUBKEYTYPE

def STANDARD_NOT_MANDATORY_VERIFY_FLAGS : UInt32 :=
  STANDARD_SCRIPT_VERIFY_FLAGS &&& ~~~MANDATORY_SCRIPT_VERIFY_FLAGS

inductive ScriptError
  | SCRIPT_ERR_OK
  | SCRIPT_ERR_UNKNOWN_ERROR
  | SCRIPT_ERR_EVAL_FALSE
  | SCRIPT_ERR_OP_RETURN
  | SCRIPT_ERR_SCRIPT_SIZE
  | SCRIPT_ERR_PUSH_SIZE
  | SCRIPT_ERR_OP_COUNT
  | SCRIPT_ERR_STACK_SIZE
  | SCRIPT_ERR_SIG_COUNT
  | SCRIPT_ERR_PUBKEY_COUNT
  | SCRIPT_ERR_VERIFY
  | SCRIPT_ERR_EQUALVERIFY
  | SCRIPT_ERR_CHECKMULTISIGVERIFY
  | SCRIPT_ERR_CHECKSIGVERIFY
  | SCRIPT_ERR_NUMEQUALVERIFY
  | SCRIPT_ERR_BAD_OPCODE
  | SCRIPT_ERR_DISABLED_OPCODE
  | SCRIPT_ERR_INVALID_STACK_OPERATION
  | SCRIPT_ERR_INVALID_ALTSTACK_OPERATION
  | SCRIPT_ERR_UNBALANCED_CONDITIONAL
  | SCRIPT_ERR_NEGATIVE_LOCKTIME
  | SCRIPT_ERR_UNSATISFIED_LOCKTIME
  | SCRIPT_ERR_SIG_HASHTYPE
  | SCRIPT_ERR_SIG_DER
  | SCRIPT_ERR_MINIMALDATA
  | SCRIPT_ERR_SIG_PUSHONLY
  | SCRIPT_ERR_SIG_HIGH_S
  | SCRIPT_ERR_SIG_NULLDUMMY
  | SCRIPT_ERR_PUBKEYTYPE
  | SCRIPT_ERR_CLEANSTACK
  | SCRIPT_ERR_MINIMALIF
  | SCRIPT_ERR_SIG_NULLFAIL
  | SCRIPT_ERR_DISCOURAGE_UPGRADABLE_NOPS
  | SCRIPT_ERR_DISCOURAGE_UPGRADABLE_WITNESS_PROGRAM
  | SCRIPT_ERR_WITNESS_PROGRAM_WRONG_LENGTH
  | SCRIPT_ERR_WITNESS_PROGRAM_WITNESS_EMPTY
  | SCRIPT_ERR_WITNESS_PROGRAM_MISMATCH
  | SCRIPT_ERR_WITNESS_MALLEATED
  | SCRIPT_ERR_WITNESS_MALLEATED_P2SH
  | SCRIPT_ERR_WITNESS_UNEXPECTED
  | SCRIPT_ERR_WITNESS_PUBKEYTYPE
  | SCRIPT_ERR_ERROR_COUNT
  deriving DecidableEq, Repr

open ScriptError in
def scriptErrorString : ScriptError → String
  | SCRIPT_ERR_OK => "No error"
  | SCRIPT_ERR_EVAL_FALSE => "Script evaluated without error but finished with a false/empty top stack element"
  | SCRIPT_ERR_VERIFY => "Script failed an OP_VERIFY operation"
  | SCRIPT_ERR_EQUALVERIFY => "Script failed an OP_EQUALVERIFY operation"
  | SCRIPT_ERR_CHECKMULTISIGVERIFY => "Script failed an OP_CHECKMULTISIGVERIFY operation"
  | SCRIPT_ERR_CHECKSIGVERIFY => "Script failed an OP_CHECKSIGVERIFY operation"
  | SCRIPT_ERR_NUMEQUALVERIFY => "Script failed an OP_NUMEQUALVERIFY operation"
  | SCRIPT_ERR_SCRIPT_SIZE => "Script is too big"
  | SCRIPT_ERR_PUSH_SIZE => "Push value size limit exceeded"
  | SCRIPT_ERR_OP_COUNT => "Operation limit exceeded"
  | SCRIPT_ERR_STACK_SIZE => "Stack size limit exceeded"
  | SCRIPT_ERR_SIG_COUNT => "Signature count negative or greater than pubkey count"
  | SCRIPT_ERR_PUBKEY_COUNT => "Pubkey count negative or limit exceeded"
  | SCRIPT_ERR_BAD_OPCODE => "Opcode missing or not understood"
  | SCRIPT_ERR_DISABLED_OPCODE => "Attempted to use a disabled opcode"
  | SCRIPT_ERR_INVALID_STACK_OPERATION => "Operation not valid with the current stack size"
  | SCRIPT_ERR_INVALID_ALTSTACK_OPERATION => "Operation not valid with the current altstack size"
  | SCRIPT_ERR_OP_RETURN => "OP_RETURN was encountered"
  | SCRIPT_ERR_UNBALANCED_CONDITIONAL => "Invalid OP_IF construction"
  | SCRIPT_ERR_NEGATIVE_LOCKTIME => "Negative locktime"
  | SCRIPT_ERR_UNSATISFIED_LOCKTIME => "Locktime requirement not satisfied"
  | SCRIPT_ERR_SIG_HASHTYPE => "Signature hash type missing or not understood"
  | SCRIPT_ERR_SIG_DER => "Non-canonical DER signature"
  | SCRIPT_ERR_MINIMALDATA => "Data push larger than necessary"
  | SCRIPT_ERR_SIG_PUSHONLY => "Only non-push operators allowed in signatures"
  | SCRIPT_ERR_SIG_HIGH_S => "Non-canonical signature: S value is unnecessarily high"
  | SCRIPT_ERR_SIG_NULLDUMMY => "Dummy CHECKMULTISIG argument must be zero"
  | SCRIPT_ERR_MINIMALIF => "OP_IF/NOTIF argument must be minimal"
  | SCRIPT_ERR_SIG_NULLFAIL => "Signature must be zero for failed CHECK(MULTI)SIG operation"
  | SCRIPT_ERR_DISCOURAGE_UPGRADABLE_NOPS => "NOPx reserved for soft-fork upgrades"
  | SCRIPT_ERR_DISCOURAGE_UPGRADABLE_WITNESS_PROGRAM => "Witness version reserved for soft-fork upgrades"
  | SCRIPT_ERR_PUBKEYTYPE => "Public key is neither compressed or uncompressed"
  | SCRIPT_ERR_CLEANSTACK => "Extra items left on stack after execution"
  | SCRIPT_ERR_WITNESS_PROGRAM_WRONG_LENGTH => "Witness program has incorrect length"
  | SCRIPT_ERR_WITNESS_PROGRAM_WITNESS_EMPTY => "Witness program was passed an empty witness"
  | SCRIPT_ERR_WITNESS_PROGRAM_MISMATCH => "Witness program hash mismatch"
  | SCRIPT_ERR_WITNESS_MALLEATED => "Witness requires empty scriptSig"
  | SCRIPT_ERR_WITNESS_MALLEATED_P2SH => "Witness requires only-redeemscript scriptSig"
  | SCRIPT_ERR_WITNESS_UNEXPECTED => "Witness provided for non-witness script"
  | SCRIPT_ERR_WITNESS_PUBKEYTYPE => "Using non-compressed keys in segwit"
  | SCRIPT_ERR_UNKNOWN_ERROR | SCRIPT_ERR_ERROR_COUNT => "unknown error"

/-- `CScriptCheck`: the spent output, the spending transaction, the input and the
flags; the signature cache settings are left out. -/
structure CScriptCheck where
  txout : CTxOut
  txTo : CTransaction
  nIn : ℕ
  nFlags : UInt32
  deriving DecidableEq, Repr

/-- What `VerifyScript` concludes for a check, with `SCRIPT_ERR_OK` for success.
The interpreter is not modelled here: validation takes it as a parameter. -/
abbrev ScriptVerifier := CScriptCheck → ScriptError

/-- `CScriptCheck::operator()`. -/
def CScriptCheck.run (verify : ScriptVerifier) (check : CScriptCheck) : Bool :=
  verify check == .SCRIPT_ERR_OK

end AokChain
