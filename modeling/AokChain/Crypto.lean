import AokChain.Primitives.Serialize

/-!
# Hashes and signatures

The primitives of `crypto/`, `hash.h` and `pubkey.h` that validation calls: the
model takes them as parameters, each with the output width its source fixes.
Transaction and block hashes are then computed from the serialization.
-/

namespace AokChain
open Serial

structure Crypto where
  /-- `Hash`: double SHA-256, as `SerializeHash` and `CHashWriter::GetHash` compute it. -/
  hash256 : Bytes → uint256
  /-- `Hash160`: RIPEMD-160 of SHA-256. -/
  hash160 : Bytes → Bytes
  hash160_length : ∀ b, (hash160 b).length = 20
  sha256 : Bytes → Bytes
  sha256_length : ∀ b, (sha256 b).length = 32
  ripemd160 : Bytes → Bytes
  ripemd160_length : ∀ b, (ripemd160 b).length = 20
  sha1 : Bytes → Bytes
  sha1_length : ∀ b, (sha1 b).length = 20
  /-- `blake2b`, the block header hash of `CBlockHeader::GetBlockHash`. -/
  blake2b : Bytes → uint256
  /-- `CPubKey::Verify`: a DER signature, without hash type, on a message hash. -/
  verify : Bytes → uint256 → Bytes → Bool
  /-- `CPubKey::IsFullyValid`: the key parses as a point of the curve. -/
  isFullyValidPubKey : Bytes → Bool
  /-- `CPubKey::Decompress`: the 65-byte form of a 33-byte key, if it is a point. -/
  decompressPubKey : Bytes → Option Bytes

namespace Crypto

/-- The first `k` bytes of `b`, padded with zeros. -/
def truncate (k : ℕ) (b : Bytes) : Bytes := (b ++ List.replicate k 0).take k

theorem truncate_length (k : ℕ) (b : Bytes) : (truncate k b).length = k := by
  simp [truncate]

/-- Primitives that are cheap to evaluate, to run the model on concrete inputs:
each hash keeps the first bytes of its input, every signature verifies and no
key decompresses.  Nothing is claimed of their security. -/
def truncating : Crypto where
  hash256 b := BitVec.ofNat 256 (leValue (truncate 32 b))
  hash160 := truncate 20
  hash160_length := truncate_length 20
  sha256 := truncate 32
  sha256_length := truncate_length 32
  ripemd160 := truncate 20
  ripemd160_length := truncate_length 20
  sha1 := truncate 20
  sha1_length := truncate_length 20
  blake2b b := BitVec.ofNat 256 (leValue (truncate 32 b))
  verify _ _ _ := true
  isFullyValidPubKey _ := true
  decompressPubKey _ := none

variable (C : Crypto)

/-- `CTransaction::GetHash`: the hash of the serialization without witnesses. -/
def getHash (tx : CTransaction) : uint256 := C.hash256 (serializeTransaction false tx)

def getWitnessHash (tx : CTransaction) : uint256 :=
  if !tx.hasWitness then C.getHash tx else C.hash256 (serializeTransaction true tx)

def getBlockHash (h : CBlockHeader) : uint256 := C.blake2b (serializeHeader h)

/-- The wire format of a transaction round-trips, and its hash does not see the
witness.  Read back with witnesses, the transaction is exact; read back without
them, it is exact but for the witness stacks. -/
theorem transaction_wire_roundTrip (fAllowWitness : Bool) (tx : CTransaction) (hbounded : tx.VectorsBounded)
    (hmsg : tx.nMessage.length ≤ MAX_SIZE) (hversion : tx.nVersion < MESSAGE_VERSION → tx.nMessage = [])
    (hvin : fAllowWitness = true → tx.vin ≠ []) :
    (unserializeTransaction fAllowWitness).run (serializeTransaction fAllowWitness tx) =
        some (if fAllowWitness then tx else tx.stripWitness, []) ∧
      ∀ tx' : CTransaction, tx'.stripWitness = tx.stripWitness → C.getHash tx' = C.getHash tx := by
  refine ⟨?_, fun tx' h => ?_⟩
  · simpa using unserializeTransaction_serializeTransaction fAllowWitness hbounded hmsg hversion hvin []
  · -- the hash is of the serialization without witnesses, the stripped transaction's
    unfold getHash
    rw [← serializeTransaction_stripWitness tx', h, serializeTransaction_stripWitness]

/-- One input with a witness stack of one item, and a message. -/
def witnessTx : CTransaction :=
  ⟨[⟨⟨1, 0⟩, [], SEQUENCE_FINAL, [[0x51]]⟩], [⟨5000, [0x51]⟩], MESSAGE_VERSION, 0, 0, [0x68, 0x69]⟩

theorem witnessTx_roundTrip :
    (unserializeTransaction true).run (serializeTransaction true witnessTx) = some (witnessTx, []) ∧
      ∀ tx' : CTransaction, tx'.stripWitness = witnessTx.stripWitness →
        truncating.getHash tx' = truncating.getHash witnessTx := by
  have hbounded : witnessTx.VectorsBounded := ⟨by decide, by decide, by decide, by decide, by decide⟩
  simpa using transaction_wire_roundTrip truncating true witnessTx hbounded (by decide) (by decide) (by decide)

end Crypto

end AokChain
