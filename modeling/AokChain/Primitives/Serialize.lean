import AokChain.Primitives.Transaction
import AokChain.Codec.VarInt

/-!
# Wire serialization

`serialize.h`, `SerializeTransaction` of `primitives/transaction.h` and the
block serialization of `primitives/block.h`: integers little-endian, vectors
and strings behind a `CompactSize` length, witnesses only in the extended
format, and `nMessage` only from `MESSAGE_VERSION` on.
-/

namespace AokChain
open Serial

def MAX_SIZE : ℕ := 0x02000000

/-- `WriteCompactSize`: one byte below `253`, else a marker and 2, 4 or 8 bytes. -/
def writeCompactSize (nSize : UInt64) : Bytes :=
  let n := nSize.toNat
  if n < 253 then [UInt8.ofNat n]
  else if n ≤ 0xffff then 253 :: leBytes 2 n
  else if n ≤ 0xffffffff then 254 :: leBytes 4 n
  else 255 :: leBytes 8 n

/-- `ReadCompactSize`: it rejects a non-canonical encoding and a size above `MAX_SIZE`. -/
def readCompactSize : Reader UInt64 := do
  let chSize ← readLE 1
  let nSizeRet ←
    if chSize < 253 then pure chSize
    else if chSize = 253 then do
      let n ← readLE 2
      if n < 253 then failure else pure n
    else if chSize = 254 then do
      let n ← readLE 4
      if n < 0x10000 then failure else pure n
    else do
      let n ← readLE 8
      if n < 0x100000000 then failure else pure n
  if nSizeRet > MAX_SIZE then failure else pure nSizeRet.toUInt64

theorem readCompactSize_write (n : UInt64) (h : n.toNat ≤ MAX_SIZE) (rest : Bytes) :
    readCompactSize.run (writeCompactSize n ++ rest) = some (n, rest) := by
  have hback : n.toNat.toUInt64 = n := UInt64.ofNat_toNat
  have hmax : ¬ n.toNat > MAX_SIZE := by omega
  have hle : n.toNat ≤ 0x02000000 := h
  unfold writeCompactSize
  -- one case per width; the 8-byte one lies above `MAX_SIZE`
  by_cases h1 : n.toNat < 253
  · have hbyte : n.toNat % 256 = n.toNat := Nat.mod_eq_of_lt (by omega)
    simp [h1, readCompactSize, readLE_one_cons, hbyte, hback, hmax]
  · by_cases h2 : n.toNat ≤ 0xffff
    · have hr := readLE_leBytes 2 n.toNat rest (by omega)
      simp [h1, h2, readCompactSize, readLE_one_cons, hr, hback, hmax]
    · have h3 : n.toNat ≤ 0xffffffff := by omega
      have h4 : ¬ n.toNat < 0x10000 := by omega
      have hr := readLE_leBytes 4 n.toNat rest (by omega)
      simp [h1, h2, h3, h4, readCompactSize, readLE_one_cons, hr, hback, hmax]

/-- The size check that ends `ReadCompactSize`. -/
theorem readCompactSize_check {v : ℕ} {s rest : Bytes} {n : UInt64}
    (h : (if v > MAX_SIZE then failure else pure v.toUInt64 : Reader UInt64).run s = some (n, rest)) :
    v ≤ MAX_SIZE ∧ n.toNat = v ∧ rest = s := by
  by_cases hbig : v > MAX_SIZE
  · simp [hbig] at h
  · simp only [hbig, if_false] at h
    cases h
    have hv : v < 2 ^ 64 := by simp only [MAX_SIZE] at hbig; omega
    exact ⟨by omega, UInt64.toNat_ofNat_of_lt' hv, rfl⟩

/-- A marker's payload: `k` bytes, refused below the marker's smallest value,
then the rest of the read `jp`. -/
theorem readAtLeast_canonical {α : Type} {k lo : ℕ} {jp : ℕ → Reader α} {s : Bytes} {r : α × Bytes}
    (h : (readLE k >>= fun n => if n < lo then failure >>= jp else pure n >>= jp).run s = some r) :
    ∃ w s', s = leBytes k w ++ s' ∧ lo ≤ w ∧ w < 256 ^ k ∧ (jp w).run s' = some r := by
  obtain ⟨w, s', hread, hcheck⟩ := run_bind_eq_some h
  obtain ⟨hs, hlt⟩ := readLE_canonical hread
  by_cases hlo : w < lo
  · simp [hlo] at hcheck
  · simp only [hlo, if_false, pure_bind] at hcheck
    exact ⟨w, s', hs, by omega, hlt, hcheck⟩

/-- `ReadCompactSize` accepts only what `WriteCompactSize` writes: every
non-canonical encoding is refused. -/
theorem readCompactSize_canonical {s rest : Bytes} {n : UInt64} (h : readCompactSize.run s = some (n, rest)) :
    s = writeCompactSize n ++ rest ∧ n.toNat ≤ MAX_SIZE := by
  obtain ⟨chSize, s₁, hsize, h⟩ := run_bind_eq_some h
  obtain ⟨hs, hch⟩ := readLE_canonical hsize
  have hbyte : ∀ b : ℕ, leBytes 1 b = [UInt8.ofNat b] := fun b => by simp [leBytes]
  dsimp only at h
  unfold writeCompactSize
  -- one case per marker; the 8-byte one lies above `MAX_SIZE`
  by_cases h1 : chSize < 253
  · simp only [h1, if_true, pure_bind] at h
    obtain ⟨hle, hn, rfl⟩ := readCompactSize_check h
    subst hs
    simp [hn, h1, hbyte, hle]
  · simp only [h1, if_false] at h
    by_cases h2 : chSize = 253
    · simp only [h2, if_true] at h
      obtain ⟨w, s₂, rfl, hlo, hhi, h⟩ := readAtLeast_canonical h
      obtain ⟨hle, hn, rfl⟩ := readCompactSize_check h
      have hw : ¬ w < 253 := by omega
      have hw' : w ≤ 0xffff := by omega
      subst hs
      simp [hn, hw, hw', hbyte, h2, hle]
    · simp only [h2, if_false] at h
      by_cases h3 : chSize = 254
      · simp only [h3, if_true] at h
        obtain ⟨w, s₂, rfl, hlo, hhi, h⟩ := readAtLeast_canonical h
        obtain ⟨hle, hn, rfl⟩ := readCompactSize_check h
        have hw : ¬ w < 253 := by omega
        have hw' : ¬ w ≤ 0xffff := by omega
        have hw'' : w ≤ 0xffffffff := by omega
        subst hs
        simp [hn, hw, hw', hw'', hbyte, h3, hle]
      · simp only [h3, if_false] at h
        obtain ⟨w, s₂, -, hlo, -, h⟩ := readAtLeast_canonical h
        obtain ⟨hle, -, -⟩ := readCompactSize_check h
        simp only [MAX_SIZE] at hle
        omega

/-- `ReadCompactSize` refuses every size above `MAX_SIZE`: its `size too large`. -/
theorem readCompactSize_oversized (n : UInt64) (h : MAX_SIZE < n.toNat) (rest : Bytes) :
    readCompactSize.run (writeCompactSize n ++ rest) = none := by
  have hbig : n.toNat > MAX_SIZE := h
  have hlt : n.toNat < 2 ^ 64 := n.toNat_lt
  simp only [MAX_SIZE] at h
  unfold writeCompactSize
  have h1 : ¬ n.toNat < 253 := by omega
  have h2 : ¬ n.toNat ≤ 0xffff := by omega
  -- a size above `MAX_SIZE` takes the 4- or the 8-byte marker
  by_cases h3 : n.toNat ≤ 0xffffffff
  · have h4 : ¬ n.toNat < 0x10000 := by omega
    have hr := readLE_leBytes 4 n.toNat rest (by omega)
    simp [h1, h2, h3, h4, readCompactSize, readLE_one_cons, hr, hbig]
  · have h4 : ¬ n.toNat < 0x100000000 := by omega
    have hr := readLE_leBytes 8 n.toNat rest (by omega)
    simp [h1, h2, h3, h4, readCompactSize, readLE_one_cons, hr, hbig]

/-- The largest value of an unsigned type of `size` bytes is all ones, which is
what keeps `ReadVarInt`'s shifted value within the type. -/
theorem allOnes_shiftRight_le {size : ℕ} (hsize : 1 ≤ size) :
    ((256 ^ size - 1) >>> 7) * 128 + 127 ≤ 256 ^ size - 1 := by
  obtain ⟨k, rfl⟩ : ∃ k, size = k + 1 := ⟨size - 1, by omega⟩
  have hpos : 0 < 256 ^ k := Nat.pow_pos (by norm_num)
  rw [Nat.shiftRight_eq_div_pow, pow_succ]
  omega

/-- The integer codecs of `serialize.h` are bijective.  For an unsigned type of
any width in bytes, `ReadVarInt` reads `WriteVarInt(n)` back to `n`, consuming
the `GetSizeOfVarInt(n)` bytes written, which fit the writer's buffer; and what
it accepts is the encoding of its result.  `ReadCompactSize` reads
`WriteCompactSize(n)` back for every `n` up to `MAX_SIZE`, and accepts nothing
else. -/
theorem varInt_compactSize_bijective :
    (∀ size, 1 ≤ size → ∀ n < 256 ^ size, ∀ rest : Bytes,
      (readVarInt (256 ^ size - 1)).run (writeVarInt n ++ rest) = some (n, rest) ∧
        (writeVarInt n).length = getSizeOfVarInt n ∧ (writeVarInt n).length ≤ (size * 8 + 6) / 7) ∧
    (∀ size, 1 ≤ size → ∀ (s rest : Bytes) (n : ℕ), (readVarInt (256 ^ size - 1)).run s = some (n, rest) →
      n < 256 ^ size ∧ s = writeVarInt n ++ rest) ∧
    (∀ (n : UInt64) (rest : Bytes), n.toNat ≤ MAX_SIZE →
      readCompactSize.run (writeCompactSize n ++ rest) = some (n, rest)) ∧
    (∀ (s rest : Bytes) (n : UInt64), readCompactSize.run s = some (n, rest) → s = writeCompactSize n ++ rest) := by
  refine ⟨fun size hsize n hn rest => ⟨readVarInt_writeVarInt _ n (by omega) rest, length_writeVarInt n,
      length_writeVarInt_le hsize hn⟩, fun size hsize s rest n h => ⟨?_, ?_⟩,
    fun n rest h => readCompactSize_write n h rest, fun s rest n h => (readCompactSize_canonical h).1⟩
  · -- the value read stays within the type
    have := readVarIntFrom_le (allOnes_shiftRight_le hsize) s 0 h
    have hpos : 0 < 256 ^ size := Nat.pow_pos (by norm_num)
    omega
  · -- reading from nothing consumed, the bytes accepted are the encoding
    simpa using readVarIntFrom_canonical _ s [] 0 (.inl ⟨rfl, rfl⟩) h

def serUInt32 (x : UInt32) : Bytes := leBytes 4 x.toNat

def serInt32 (x : Int32) : Bytes := leBytes 4 x.toBitVec.toNat

def serInt64 (x : Int64) : Bytes := leBytes 8 x.toBitVec.toNat

def serUint256 (h : uint256) : Bytes := leBytes 32 h.toNat

/-- A byte vector, `CScript` or `std::string`: its size, then its bytes. -/
def serBytes (v : Bytes) : Bytes := writeCompactSize v.length.toUInt64 ++ v

def serInt8 (x : Int8) : Bytes := leBytes 1 x.toBitVec.toNat

def unserUInt32 : Reader UInt32 := Nat.toUInt32 <$> readLE 4

theorem unserUInt32_serUInt32 (x : UInt32) (rest : Bytes) :
    unserUInt32.run (serUInt32 x ++ rest) = some (x, rest) := by
  have hr := readLE_leBytes 4 x.toNat rest (by simpa using x.toNat_lt)
  simp [unserUInt32, serUInt32, hr]

def unserInt64 : Reader Int64 := Int64.ofNat <$> readLE 8

def unserInt8 : Reader Int8 := Int8.ofNat <$> readLE 1

theorem unserInt64_serInt64 (x : Int64) (rest : Bytes) : unserInt64.run (serInt64 x ++ rest) = some (x, rest) := by
  have hr := readLE_leBytes 8 x.toBitVec.toNat rest (by simpa using x.toBitVec.isLt)
  simp [unserInt64, serInt64, hr]

theorem unserInt8_serInt8 (x : Int8) (rest : Bytes) : unserInt8.run (serInt8 x ++ rest) = some (x, rest) := by
  have hr := readLE_leBytes 1 x.toBitVec.toNat rest (by simpa using x.toBitVec.isLt)
  simp [unserInt8, serInt8, hr]

/-- The `Unserialize` of a byte vector. -/
def unserBytes : Reader Bytes := do
  let nSize ← readCompactSize
  readBytes nSize.toNat

theorem unserBytes_serBytes (v : Bytes) (h : v.length ≤ MAX_SIZE) (rest : Bytes) :
    unserBytes.run (serBytes v ++ rest) = some (v, rest) := by
  have hsize : v.length.toUInt64.toNat = v.length :=
    UInt64.toNat_ofNat_of_lt' (by simp only [MAX_SIZE, UInt64.size] at h ⊢; omega)
  unfold serBytes unserBytes
  apply run_bind_append (readCompactSize_write _ (by omega) _)
  rw [hsize]
  exact readBytes_append v rest

theorem serBytes_prefixFree : PrefixFree (fun v : Bytes => v.length ≤ MAX_SIZE) serBytes :=
  prefixFree_of_read unserBytes fun v rest h => unserBytes_serBytes v h rest

/-- A `std::vector`: its size, then each element. -/
def serVector {α : Type} (f : α → Bytes) (v : List α) : Bytes :=
  writeCompactSize v.length.toUInt64 ++ v.flatMap f

def serOutPoint (o : COutPoint) : Bytes := serUint256 o.hash ++ serUInt32 o.n

def serTxIn (txin : CTxIn) : Bytes :=
  serOutPoint txin.prevout ++ serBytes txin.scriptSig ++ serUInt32 txin.nSequence

def serTxOut (out : CTxOut) : Bytes := serInt64 out.nValue ++ serBytes out.scriptPubKey

/-- `SerializeTransaction`.  With witnesses allowed and present, an empty `vin`
and the flag byte `1` come first and the witness stacks after `vout`. -/
def serializeTransaction (fAllowWitness : Bool) (tx : CTransaction) : Bytes :=
  let fWitness := fAllowWitness && tx.hasWitness
  serInt32 tx.nVersion ++ serUInt32 tx.nTime ++
    (if fWitness then serVector serTxIn [] ++ [1] else []) ++
    serVector serTxIn tx.vin ++ serVector serTxOut tx.vout ++
    (if fWitness then tx.vin.flatMap (fun txin => serVector serBytes txin.scriptWitness) else []) ++
    serUInt32 tx.nLockTime ++
    (if tx.nVersion ≥ MESSAGE_VERSION then serBytes tx.nMessage else [])

def serializeHeader (h : CBlockHeader) : Bytes :=
  serInt32 h.nVersion ++ serUint256 h.hashPrevBlock ++ serUint256 h.hashMerkleRoot ++
    serUInt32 h.nTime ++ serUInt32 h.nBits ++ serUInt32 h.nNonce

def serializeBlock (fAllowWitness : Bool) (block : CBlock) : Bytes :=
  serializeHeader block.toCBlockHeader ++ serVector (serializeTransaction fAllowWitness) block.vtx ++
    serBytes block.vchBlockSig

theorem serializeTransaction_of_not_hasWitness (fAllowWitness : Bool) {tx : CTransaction}
    (h : tx.hasWitness = false) :
    serializeTransaction fAllowWitness tx = serializeTransaction false tx := by
  simp [serializeTransaction, h]

section Unserialize

def unserInt32 : Reader Int32 := Int32.ofNat <$> readLE 4

theorem unserInt32_serInt32 (x : Int32) (rest : Bytes) : unserInt32.run (serInt32 x ++ rest) = some (x, rest) := by
  have hr := readLE_leBytes 4 x.toBitVec.toNat rest (by simpa using x.toBitVec.isLt)
  simp [unserInt32, serInt32, hr]

def unserUInt8 : Reader UInt8 := Nat.toUInt8 <$> readLE 1

def unserUint256 : Reader uint256 := BitVec.ofNat 256 <$> readLE 32

theorem unserUint256_serUint256 (h : uint256) (rest : Bytes) :
    unserUint256.run (serUint256 h ++ rest) = some (h, rest) := by
  have hr := readLE_leBytes 32 h.toNat rest (by simpa using h.isLt)
  simp [unserUint256, serUint256, hr]

def unserOutPoint : Reader COutPoint := do
  let hash ← unserUint256
  let n ← unserUInt32
  pure ⟨hash, n⟩

/-- `CTxIn::SerializationOp`: the witness is not part of it. -/
def unserTxIn : Reader CTxIn := do
  let prevout ← unserOutPoint
  let scriptSig ← unserBytes
  let nSequence ← unserUInt32
  pure ⟨prevout, scriptSig, nSequence, []⟩

def unserTxOut : Reader CTxOut := do
  let nValue ← unserInt64
  let scriptPubKey ← unserBytes
  pure ⟨nValue, scriptPubKey⟩

/-- The `Unserialize` of a `std::vector`: its size, then each element. -/
def unserVector {α : Type} (r : Reader α) : Reader (List α) := do
  let nSize ← readCompactSize
  readN r nSize.toNat

/-- The part of `UnserializeTransaction` after the first `vin`: with witnesses
allowed, an empty `vin` is the dummy, and the flags come next and then the real
vectors; otherwise `vout` follows. -/
def unserFlagsVinVout (fAllowWitness : Bool) (vin : List CTxIn) : Reader (UInt8 × List CTxIn × List CTxOut) :=
  if vin.isEmpty && fAllowWitness then do
    let flags ← unserUInt8
    if flags != 0 then do
      let vin ← unserVector unserTxIn
      let vout ← unserVector unserTxOut
      pure (flags, vin, vout)
    else pure (flags, vin, [])
  else do
    let vout ← unserVector unserTxOut
    pure (0, vin, vout)

/-- The witness loop of `UnserializeTransaction`: every input's
`scriptWitness.stack` when the flag asks for it, which it clears. -/
def unserWitnesses (fAllowWitness : Bool) (flags : UInt8) (vin : List CTxIn) : Reader (UInt8 × List CTxIn) :=
  if flags &&& 1 != 0 && fAllowWitness then do
    let vin ← vin.mapM fun txin => do
      let stack ← unserVector unserBytes
      pure { txin with scriptWitness := stack }
    pure (flags ^^^ 1, vin)
  else pure (flags, vin)

/-- `UnserializeTransaction`; a flag left over is its `Unknown transaction optional data`. -/
def unserializeTransaction (fAllowWitness : Bool) : Reader CTransaction := do
  let nVersion ← unserInt32
  let nTime ← unserUInt32
  let vin ← unserVector unserTxIn
  let r ← unserFlagsVinVout fAllowWitness vin
  let w ← unserWitnesses fAllowWitness r.1 r.2.1
  if w.1 != 0 then failure
  else do
    let nLockTime ← unserUInt32
    let nMessage ← if nVersion ≥ MESSAGE_VERSION then unserBytes else pure []
    pure ⟨w.2, r.2.2, nVersion, nLockTime, nTime, nMessage⟩

/-- The transaction as the serialization without witnesses keeps it. -/
def CTransaction.stripWitness (tx : CTransaction) : CTransaction :=
  { tx with vin := tx.vin.map fun txin => { txin with scriptWitness := [] } }

/-- Every vector of a transaction but `nMessage` is short enough for `ReadCompactSize`. -/
structure CTransaction.VectorsBounded (tx : CTransaction) : Prop where
  vin : tx.vin.length ≤ MAX_SIZE
  vout : tx.vout.length ≤ MAX_SIZE
  scriptSig : ∀ txin ∈ tx.vin, txin.scriptSig.length ≤ MAX_SIZE
  witness : ∀ txin ∈ tx.vin, txin.scriptWitness.length ≤ MAX_SIZE ∧ ∀ item ∈ txin.scriptWitness, item.length ≤ MAX_SIZE
  scriptPubKey : ∀ out ∈ tx.vout, out.scriptPubKey.length ≤ MAX_SIZE

theorem unserOutPoint_serOutPoint (o : COutPoint) (rest : Bytes) :
    unserOutPoint.run (serOutPoint o ++ rest) = some (o, rest) := by
  simp only [unserOutPoint, serOutPoint, List.append_assoc, run_bind_some (unserUint256_serUint256 _ _),
    run_bind_some (unserUInt32_serUInt32 _ _)]
  rfl

/-- An input reads back without its witness. -/
theorem unserTxIn_serTxIn (txin : CTxIn) (h : txin.scriptSig.length ≤ MAX_SIZE) (rest : Bytes) :
    unserTxIn.run (serTxIn txin ++ rest) = some ({ txin with scriptWitness := [] }, rest) := by
  simp only [unserTxIn, serTxIn, List.append_assoc, run_bind_some (unserOutPoint_serOutPoint _ _),
    run_bind_some (unserBytes_serBytes _ h _), run_bind_some (unserUInt32_serUInt32 _ _)]
  rfl

theorem unserTxOut_serTxOut (out : CTxOut) (h : out.scriptPubKey.length ≤ MAX_SIZE) (rest : Bytes) :
    unserTxOut.run (serTxOut out ++ rest) = some (out, rest) := by
  simp only [unserTxOut, serTxOut, List.append_assoc, run_bind_some (unserInt64_serInt64 _ _),
    run_bind_some (unserBytes_serBytes _ h _)]
  rfl

/-- A vector reads back element by element, where each element does. -/
theorem unserVector_serVector {α β : Type} {r : Reader β} {e : α → Bytes} {f : α → β} {p : α → Prop}
    (hr : ∀ a rest, p a → r.run (e a ++ rest) = some (f a, rest)) {l : List α} (hl : ∀ a ∈ l, p a)
    (hlen : l.length ≤ MAX_SIZE) (rest : Bytes) :
    (unserVector r).run (serVector e l ++ rest) = some (l.map f, rest) := by
  have hsize : l.length.toUInt64.toNat = l.length :=
    UInt64.toNat_ofNat_of_lt' (by simp only [MAX_SIZE, UInt64.size] at hlen ⊢; omega)
  simp only [unserVector, serVector, List.append_assoc,
    run_bind_some (readCompactSize_write _ (by rw [hsize]; exact hlen) _), hsize, List.flatMap]
  exact readN_map_flatten hr l rest hl

/-- A vector longer than `MAX_SIZE` is refused before its first element. -/
theorem unserVector_oversized {α β : Type} (r : Reader β) (e : α → Bytes) {l : List α}
    (hlen : MAX_SIZE < l.length) (hfit : l.length < UInt64.size) (rest : Bytes) :
    (unserVector r).run (serVector e l ++ rest) = none := by
  have hsize : l.length.toUInt64.toNat = l.length := UInt64.toNat_ofNat_of_lt' hfit
  simp only [unserVector, serVector, List.append_assoc]
  exact run_bind_none (readCompactSize_oversized _ (by rw [hsize]; exact hlen) _)

/-- The witness stacks read back onto the inputs read without them. -/
theorem unserWitnessStacks_run : ∀ (vin : List CTxIn),
    (∀ txin ∈ vin, txin.scriptWitness.length ≤ MAX_SIZE ∧ ∀ item ∈ txin.scriptWitness, item.length ≤ MAX_SIZE) →
    ∀ rest : Bytes,
    ((vin.map fun txin => { txin with scriptWitness := [] }).mapM fun txin => do
        let stack ← unserVector unserBytes
        pure { txin with scriptWitness := stack } : Reader (List CTxIn)).run
      (vin.flatMap (fun txin => serVector serBytes txin.scriptWitness) ++ rest) = some (vin, rest)
  | [], _, _ => rfl
  | txin :: vin, h, rest => by
    obtain ⟨hlen, hitems⟩ := h txin List.mem_cons_self
    have hstack := unserVector_serVector (fun v rest (hv : v.length ≤ MAX_SIZE) => unserBytes_serBytes v hv rest)
      hitems hlen (vin.flatMap (fun txin => serVector serBytes txin.scriptWitness) ++ rest)
    have hrest := unserWitnessStacks_run vin (fun t ht => h t (List.mem_cons_of_mem _ ht)) rest
    simp only [List.map_cons, List.mapM_cons, List.flatMap_cons, List.append_assoc, List.map_id',
      bind_assoc, pure_bind, run_bind_some hstack] at hrest ⊢
    rw [run_bind_some hrest]
    rfl

theorem stripWitness_of_not_hasWitness {tx : CTransaction} (h : tx.hasWitness = false) :
    tx.stripWitness = tx := by
  have hnil : ∀ txin ∈ tx.vin, txin.scriptWitness = [] := by
    simpa [CTransaction.hasWitness] using h
  cases tx with
  | mk vin vout nVersion nLockTime nTime nMessage =>
    simp only [CTransaction.stripWitness, CTransaction.mk.injEq, and_true]
    conv_rhs => rw [← List.map_id vin]
    exact List.map_congr_left fun txin htxin => by simp [← hnil txin htxin]

theorem unserFlagsVinVout_vout (fAllowWitness : Bool) (vin : List CTxIn)
    (hvin : (vin.isEmpty && fAllowWitness) = false) {vout : List CTxOut}
    (hout : ∀ out ∈ vout, out.scriptPubKey.length ≤ MAX_SIZE) (hlen : vout.length ≤ MAX_SIZE) (rest : Bytes) :
    (unserFlagsVinVout fAllowWitness vin).run (serVector serTxOut vout ++ rest) = some ((0, vin, vout), rest) := by
  have hread := unserVector_serVector (fun out rest h => unserTxOut_serTxOut out h rest) hout hlen rest
  simp only [unserFlagsVinVout, hvin, Bool.false_eq_true, if_false, run_bind_some hread, List.map_id']
  rfl


/-- The extended format: the empty dummy is read as an empty `vin`, then the flag
byte, then the real vectors. -/
theorem unserFlagsVinVout_extended {vin : List CTxIn} {vout : List CTxOut}
    (hin : ∀ txin ∈ vin, txin.scriptSig.length ≤ MAX_SIZE) (hinlen : vin.length ≤ MAX_SIZE)
    (hout : ∀ out ∈ vout, out.scriptPubKey.length ≤ MAX_SIZE) (houtlen : vout.length ≤ MAX_SIZE) (rest : Bytes) :
    (unserFlagsVinVout true []).run ([1] ++ (serVector serTxIn vin ++ (serVector serTxOut vout ++ rest))) =
      some ((1, vin.map fun txin => { txin with scriptWitness := [] }, vout), rest) := by
  have hflag : unserUInt8.run ([1] ++ (serVector serTxIn vin ++ (serVector serTxOut vout ++ rest))) =
      some (1, serVector serTxIn vin ++ (serVector serTxOut vout ++ rest)) := by
    simp [unserUInt8, readLE_one_cons]
  have hreadin := unserVector_serVector (fun txin rest h => unserTxIn_serTxIn txin h rest) hin hinlen
    (serVector serTxOut vout ++ rest)
  have hreadout := unserVector_serVector (fun out rest h => unserTxOut_serTxOut out h rest) hout houtlen rest
  simp only [unserFlagsVinVout, List.isEmpty_nil, Bool.true_and, if_true, run_bind_some hflag]
  have hnz : ((1 : UInt8) != 0) = true := by decide
  simp only [hnz, if_true, run_bind_some hreadin, run_bind_some hreadout, List.map_id']
  rfl

theorem unserWitnesses_noFlag (fAllowWitness : Bool) (vin : List CTxIn) (s : Bytes) :
    (unserWitnesses fAllowWitness 0 vin).run s = some ((0, vin), s) := by
  simp [unserWitnesses]

/-- With the witness flag, the loop reads every input's stack and clears the flag. -/
theorem unserWitnesses_witnessFlag {vin : List CTxIn}
    (h : ∀ txin ∈ vin, txin.scriptWitness.length ≤ MAX_SIZE ∧ ∀ item ∈ txin.scriptWitness, item.length ≤ MAX_SIZE)
    (rest : Bytes) :
    (unserWitnesses true 1 (vin.map fun txin => { txin with scriptWitness := [] })).run
      (vin.flatMap (fun txin => serVector serBytes txin.scriptWitness) ++ rest) = some ((0, vin), rest) := by
  have hflag : ((1 : UInt8) &&& 1 != 0 && true) = true := by decide
  simp only [unserWitnesses, hflag, if_true, run_bind_some (unserWitnessStacks_run vin h rest)]
  rfl


/-- The end of `UnserializeTransaction`: `nMessage` exactly from `MESSAGE_VERSION` on. -/
theorem unserMessage_serMessage {tx : CTransaction} (hmsg : tx.nMessage.length ≤ MAX_SIZE)
    (hversion : tx.nVersion < MESSAGE_VERSION → tx.nMessage = []) (vin : List CTxIn) (vout : List CTxOut)
    (rest : Bytes) :
    ((if tx.nVersion ≥ MESSAGE_VERSION then do
        let nMessage ← unserBytes
        pure ⟨vin, vout, tx.nVersion, tx.nLockTime, tx.nTime, nMessage⟩
      else do
        let nMessage ← pure []
        pure ⟨vin, vout, tx.nVersion, tx.nLockTime, tx.nTime, nMessage⟩ : Reader CTransaction)).run
      ((if tx.nVersion ≥ MESSAGE_VERSION then serBytes tx.nMessage else []) ++ rest) =
      some ({ tx with vin := vin, vout := vout }, rest) := by
  by_cases hv : tx.nVersion ≥ MESSAGE_VERSION
  · simp only [hv, if_true, run_bind_some (unserBytes_serBytes _ hmsg _)]
    rfl
  · have hempty := hversion (Int32.not_le.mp hv)
    simp only [hv, if_false, List.nil_append, pure_bind]
    rw [← hempty]
    rfl

/-- The format without witnesses, read back by a reader that does not take
`vin` for the dummy: the transaction without its witnesses. -/
theorem unserializeTransaction_noWitness (fAllowWitness : Bool) {tx : CTransaction}
    (hbounded : tx.VectorsBounded) (hmsg : tx.nMessage.length ≤ MAX_SIZE)
    (hversion : tx.nVersion < MESSAGE_VERSION → tx.nMessage = [])
    (hvin : (tx.vin.isEmpty && fAllowWitness) = false) (rest : Bytes) :
    (unserializeTransaction fAllowWitness).run (serializeTransaction false tx ++ rest) =
      some (tx.stripWitness, rest) := by
  have hreadin := unserVector_serVector (fun txin rest h => unserTxIn_serTxIn txin h rest)
    hbounded.scriptSig hbounded.vin
  -- the inputs are read without witnesses; an empty `vin` is one still
  have hflags := unserFlagsVinVout_vout fAllowWitness (tx.vin.map fun txin => { txin with scriptWitness := [] })
    (by simpa using hvin)
    hbounded.scriptPubKey hbounded.vout
  have hzero : ((0 : UInt8) != 0) = false := by decide
  simp only [serializeTransaction, unserializeTransaction, Bool.false_and, Bool.false_eq_true, if_false,
    List.append_nil, List.append_assoc, run_bind_some (unserInt32_serInt32 _ _),
    run_bind_some (unserUInt32_serUInt32 _ _), run_bind_some (hreadin _), run_bind_some (hflags _),
    run_bind_some (unserWitnesses_noFlag _ _ _), hzero]
  rw [unserMessage_serMessage hmsg hversion]
  rfl

/-- `UnserializeTransaction` reads back what `SerializeTransaction` writes: the
transaction itself with witnesses allowed, and without its witnesses otherwise.
Every vector has to fit `ReadCompactSize`, `nMessage` is empty below
`MESSAGE_VERSION`, where it is not written, and with witnesses allowed an empty
`vin` would be taken for the dummy. -/
theorem unserializeTransaction_serializeTransaction (fAllowWitness : Bool) {tx : CTransaction}
    (hbounded : tx.VectorsBounded) (hmsg : tx.nMessage.length ≤ MAX_SIZE)
    (hversion : tx.nVersion < MESSAGE_VERSION → tx.nMessage = [])
    (hvin : fAllowWitness = true → tx.vin ≠ []) (rest : Bytes) :
    (unserializeTransaction fAllowWitness).run (serializeTransaction fAllowWitness tx ++ rest) =
      some (if fAllowWitness then tx else tx.stripWitness, rest) := by
  cases fAllowWitness with
  | false => exact unserializeTransaction_noWitness false hbounded hmsg hversion (by simp) rest
  | true =>
    have hne : tx.vin.isEmpty = false := by simpa using hvin rfl
    cases hw : tx.hasWitness with
    | false =>
      -- no witness to write: the plain format, read back whole
      rw [serializeTransaction_of_not_hasWitness true hw,
        unserializeTransaction_noWitness true hbounded hmsg hversion (by simp [hne]) rest,
        stripWitness_of_not_hasWitness hw]
      rfl
    | true =>
      -- the extended format: the dummy, the flag, the vectors and then the stacks
      have hdummy := unserVector_serVector (fun txin rest h => unserTxIn_serTxIn txin h rest) (l := [])
        (by simp) (by simp [MAX_SIZE])
      have hvectors := unserFlagsVinVout_extended hbounded.scriptSig hbounded.vin hbounded.scriptPubKey
        hbounded.vout
      have hzero : ((0 : UInt8) != 0) = false := by decide
      simp only [serializeTransaction, unserializeTransaction, Bool.true_and, hw, if_true,
        List.append_assoc, run_bind_some (unserInt32_serInt32 _ _), run_bind_some (unserUInt32_serUInt32 _ _),
        run_bind_some (hdummy _), List.map_nil, run_bind_some (hvectors _),
        run_bind_some (unserWitnesses_witnessFlag (fun txin h => hbounded.witness txin h) _), hzero,
        Bool.false_eq_true, if_false]
      rw [unserMessage_serMessage hmsg hversion]

/-- A transaction of one input more than `ReadCompactSize` accepts as a size. -/
def oversizedTx : CTransaction :=
  ⟨List.replicate (MAX_SIZE + 1) ⟨⟨0, 0⟩, [], SEQUENCE_FINAL, []⟩, [], 1, 0, 0, []⟩

theorem oversizedTx_not_roundTrip :
    oversizedTx.vin ≠ [] ∧ oversizedTx.nVersion < MESSAGE_VERSION ∧ oversizedTx.nMessage = [] ∧
      ∀ fAllowWitness, (unserializeTransaction fAllowWitness).run (serializeTransaction fAllowWitness oversizedTx) =
        none := by
  have hlen : oversizedTx.vin.length = MAX_SIZE + 1 := List.length_replicate
  have hw : oversizedTx.hasWitness = false := by
    simp [CTransaction.hasWitness, oversizedTx, List.any_replicate]
  refine ⟨List.ne_nil_of_length_pos (by omega), by decide, rfl, fun fAllowWitness => ?_⟩
  rw [serializeTransaction_of_not_hasWitness fAllowWitness hw]
  have hvin := unserVector_oversized unserTxIn serTxIn (l := oversizedTx.vin) (by omega)
    (by simp only [hlen, MAX_SIZE, UInt64.size]; omega)
  simp only [serializeTransaction, unserializeTransaction, Bool.false_and, Bool.false_eq_true, if_false,
    List.append_nil, List.append_assoc, run_bind_some (unserInt32_serInt32 _ _),
    run_bind_some (unserUInt32_serUInt32 _ _), run_bind_none (hvin _)]

/-- The serialization without witnesses does not see them. -/
theorem serializeTransaction_stripWitness (tx : CTransaction) :
    serializeTransaction false tx.stripWitness = serializeTransaction false tx := by
  -- an input is written without its witness
  have hin : tx.stripWitness.vin.flatMap serTxIn = tx.vin.flatMap serTxIn := by
    simp only [CTransaction.stripWitness, List.flatMap_map]
    rfl
  have hlen : tx.stripWitness.vin.length = tx.vin.length := List.length_map _
  simp only [serializeTransaction, serVector, Bool.false_and, hin, hlen]
  rfl

end Unserialize

end AokChain
