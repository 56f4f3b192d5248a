import AokChain.Codec.Bytes

/-!
# Amounts, transactions and blocks

`amount.h`, `primitives/transaction.h` and `primitives/block.h`.  Amounts are
the code's `int64_t`, so a sum that leaves its range wraps; byte strings
(`CScript`, `std::string`, witness items) are lists of bytes; a `uint256` is a
256-bit vector.  A block refers to its transactions directly, not through
shared pointers.
-/

namespace AokChain
open Serial

/-- `CAmount` is `int64_t`: signed 64-bit, wrapping on overflow. -/
abbrev CAmount := Int64

def COIN : CAmount := 100000000

/-- `MAX_MONEY` is `std::numeric_limits<int64_t>::max()` in this fork. -/
def MAX_MONEY : CAmount := Int64.maxValue

def MAX_MONEY_TOKENS : CAmount := 25000000000 * COIN

def moneyRange (nValue : CAmount) : Bool := 0 ≤ nValue && nValue ≤ MAX_MONEY

abbrev uint256 := BitVec 256

/-- `CScript` is a byte vector (`prevector<28, unsigned char>`). -/
abbrev CScript := Bytes

/-- An outpoint: a transaction hash and an index into its outputs. -/
structure COutPoint where
  hash : uint256
  n : UInt32
  deriving DecidableEq, Repr

/-- `COutPoint::IsNull`: the null hash with index `(uint32_t) -1`. -/
def COutPoint.isNull (o : COutPoint) : Bool := o.hash == 0 && o.n == 0xffffffff

def SEQUENCE_FINAL : UInt32 := 0xffffffff

structure CTxIn where
  prevout : COutPoint
  scriptSig : CScript
  nSequence : UInt32
  /-- `scriptWitness.stack`; serialized only through `CTransaction`. -/
  scriptWitness : List Bytes
  deriving DecidableEq, Repr

structure CTxOut where
  nValue : CAmount
  scriptPubKey : CScript
  deriving DecidableEq, Repr

namespace CTxOut

/-- The null output of `CTxOut::SetNull` marks a spent coin. -/
def null : CTxOut := ⟨-1, []⟩

def isNull (o : CTxOut) : Bool := o.nValue == -1

def isEmpty (o : CTxOut) : Bool := o.nValue == 0 && o.scriptPubKey.isEmpty

end CTxOut

def MESSAGE_VERSION : Int32 := 2

structure CTransaction where
  vin : List CTxIn
  vout : List CTxOut
  nVersion : Int32
  nLockTime : UInt32
  nTime : UInt32
  /-- Serialized only when `nVersion >= MESSAGE_VERSION`. -/
  nMessage : Bytes
  deriving DecidableEq, Repr

namespace CTransaction

def isCoinBase (tx : CTransaction) : Bool :=
  match tx.vin with
  | [txin] => txin.prevout.isNull
  | _ => false

/-- The coin stake transaction is marked with the first output empty. -/
def isCoinStake (tx : CTransaction) : Bool :=
  match tx.vin, tx.vout with
  | txin :: _, out :: _ :: _ => !txin.prevout.isNull && out.isEmpty
  | _, _ => false

def hasWitness (tx : CTransaction) : Bool := tx.vin.any (fun txin => !txin.scriptWitness.isEmpty)

/-- The loop of `CTransaction::GetValueOut`; `none` is its `runtime_error`. -/
def valueOutFrom (acc : CAmount) : List CTxOut → Option CAmount
  | [] => some acc
  | out :: outs =>
    let acc' := acc + out.nValue
    if !moneyRange out.nValue || !moneyRange acc' then none else valueOutFrom acc' outs

def getValueOut (tx : CTransaction) : Option CAmount := valueOutFrom 0 tx.vout

end CTransaction

structure CBlockHeader where
  nVersion : Int32
  hashPrevBlock : uint256
  hashMerkleRoot : uint256
  nTime : UInt32
  nBits : UInt32
  nNonce : UInt32
  deriving DecidableEq, Repr

structure CBlock extends CBlockHeader where
  vtx : List CTransaction
  vchBlockSig : Bytes
  /-- Memory only: set once `CheckBlock` has passed with full checks. -/
  fChecked : Bool
  deriving DecidableEq, Repr

namespace CBlock

def isProofOfStake (block : CBlock) : Bool :=
  match block.vtx with
  | _ :: tx :: _ => tx.isCoinStake
  | _ => false

def isProofOfWork (block : CBlock) : Bool := !block.isProofOfStake

def getBlockTime (block : CBlock) : Int := block.nTime.toNat

end CBlock

end AokChain
