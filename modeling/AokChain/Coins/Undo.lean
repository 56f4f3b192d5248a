import AokChain.Coins.Coins
import AokChain.Codec.VarInt
import AokChain.Governance.Governance

/-!
# Undo records and block disconnection

The compressed output format of `compressor.cpp`, the undo records of
`undo.h` as `UndoWriteToDisk` writes them and `UndoReadFromDisk` reads them back,
and `ApplyTxInUndo` and `DisconnectBlock` of `validation.cpp` over the coins view
and the governance database.  An undo record keeps a spent coin's output, height
and coin-base flag; its reader starts from `Coin()`, so the coin-stake flag and
the time of every coin read back are the defaults.
-/

namespace AokChain
open Serial

def UINT32_MAX : ℕ := 2 ^ 32 - 1
def INT32_MAX : ℕ := 2 ^ 31 - 1
def UINT64_MAX : ℕ := 2 ^ 64 - 1

section Compressor

/-- The loop of `CompressAmount` that strips up to nine factors of ten. -/
def stripTens : ℕ → UInt64 → ℕ → UInt64 × ℕ
  | 0, n, e => (n, e)
  | fuel + 1, n, e => if n % 10 == 0 && e < 9 then stripTens fuel (n / 10) (e + 1) else (n, e)

/-- `CTxOutCompressor::CompressAmount`, in `uint64_t` arithmetic. -/
def compressAmount (n : UInt64) : UInt64 :=
  if n = 0 then 0
  else
    let (n, e) := stripTens 9 n 0
    if e < 9 then
      let d := n % 10
      let n := n / 10
      1 + (n * 9 + d - 1) * 10 + e.toUInt64
    else 1 + (n - 1) * 10 + 9

/-- `n` times ten, `e` times over, each product in `uint64_t`. -/
def mulTens : ℕ → UInt64 → UInt64
  | 0, n => n
  | e + 1, n => mulTens e (n * 10)

/-- `CTxOutCompressor::DecompressAmount`. -/
def decompressAmount (x : UInt64) : UInt64 :=
  if x = 0 then 0
  else
    let x := x - 1
    let e := x % 10
    let x := x / 10
    let n := if e < 9 then (x / 9) * 10 + (x % 9 + 1) else x + 1
    mulTens e.toNat n

variable (C : Crypto)

/-- `CScriptCompressor::IsToPubKey`: the key of a pay-to-pubkey script, an
uncompressed one only when it is a point of the curve. -/
def isToPubKey (s : CScript) : Option Bytes :=
  if s.length = 35 && byteAt s 0 == 33 && byteAt s 34 == OP_CHECKSIG &&
      (byteAt s 1 == 0x02 || byteAt s 1 == 0x03) then some ((s.drop 1).take 33)
  else if s.length = 67 && byteAt s 0 == 65 && byteAt s 66 == OP_CHECKSIG && byteAt s 1 == 0x04 then
    let pubkey := (s.drop 1).take 65
    if C.isFullyValidPubKey pubkey then some pubkey else none
  else none

/-- `CScriptCompressor::Compress`: a key hash or script hash behind the tags `0`
and `1`, a public key by its x coordinate behind `2` to `5`. -/
def compressScript (s : CScript) : Option Bytes :=
  if isPayToPublicKeyHash s then some (0x00 :: (s.drop 3).take 20)
  else if isPayToScriptHash s then some (0x01 :: (s.drop 2).take 20)
  else match isToPubKey C s with
    | some pubkey =>
      if byteAt pubkey 0 == 0x02 || byteAt pubkey 0 == 0x03 then some (byteAt pubkey 0 :: (pubkey.drop 1).take 32)
      else if byteAt pubkey 0 == 0x04 then some ((0x04 ||| (byteAt pubkey 64 &&& 0x01)) :: (pubkey.drop 1).take 32)
      else none
    | none => none

/-- `CScriptCompressor::GetSpecialSize`. -/
def getSpecialSize (nSize : ℕ) : ℕ :=
  if nSize = 0 || nSize = 1 then 20 else if 2 ≤ nSize && nSize ≤ 5 then 32 else 0

/-- `CScriptCompressor::Decompress`: the script of a special form, none where the
key does not decompress. -/
def decompressScript (nSize : ℕ) (input : Bytes) : Option CScript :=
  if nSize = 0 then some ([OP_DUP, OP_HASH160, 20] ++ input ++ [OP_EQUALVERIFY, OP_CHECKSIG])
  else if nSize = 1 then some ([OP_HASH160, 20] ++ input ++ [OP_EQUAL])
  else if nSize = 2 || nSize = 3 then some ([33, nSize.toUInt8] ++ input ++ [OP_CHECKSIG])
  else if nSize = 4 || nSize = 5 then
    (C.decompressPubKey ((nSize - 2).toUInt8 :: input)).map fun pubkey => [65] ++ pubkey ++ [OP_CHECKSIG]
  else none

/-- `CScriptCompressor::Serialize`: a special form, or the length plus six and
the bytes. -/
def serScriptCompressed (s : CScript) : Bytes :=
  match compressScript C s with
  | some compr => compr
  | none => writeVarInt (s.length + 6) ++ s

/-- `CScriptCompressor::Unserialize` into the empty script of `CTxOut()`: a
special form that does not decompress leaves it empty, and an oversized script
is skipped and read as `OP_RETURN`. -/
def unserScriptCompressed : Reader CScript := do
  let nSize ← readVarInt UINT32_MAX
  if nSize < 6 then
    let vch ← readBytes (getSpecialSize nSize)
    pure ((decompressScript C nSize vch).getD [])
  else
    let nSize := nSize - 6
    if nSize > MAX_SCRIPT_SIZE then do
      let _ ← readBytes nSize
      pure [OP_RETURN]
    else readBytes nSize

/-- `CTxOutCompressor` writing: the compressed amount of the value as
`uint64_t`, then the script. -/
def serTxOutCompressed (out : CTxOut) : Bytes :=
  writeVarInt (compressAmount out.nValue.toUInt64).toNat ++ serScriptCompressed C out.scriptPubKey

def unserTxOutCompressed : Reader CTxOut := do
  let nVal ← readVarInt UINT64_MAX
  let scriptPubKey ← unserScriptCompressed C
  pure ⟨(decompressAmount nVal.toUInt64).toInt64, scriptPubKey⟩

end Compressor

section UndoFormat

variable (C : Crypto)

/-- `TxInUndoSerializer`: `VARINT(nHeight * 2 + fCoinBase)` in `int`, a zero
byte for a coin above height zero, and the compressed output.  A code past
`INT32_MAX` is negative in `int`, and `WriteVarInt` then writes its low seven
bits alone. -/
def serTxInUndo (coin : Coin) : Bytes :=
  let nCode := coin.nHeight * 2 + (if coin.fCoinBase then 1 else 0)
  (if nCode ≤ INT32_MAX then writeVarInt nCode else [UInt8.ofNat (nCode % 128)]) ++
    (if coin.nHeight > 0 then [0] else []) ++ serTxOutCompressed C coin.out

/-- `TxInUndoDeserializer` into `Coin()`: the height and the coin-base flag
from the code, the old version number skipped, the output; the coin-stake flag
and the time keep the defaults of `Coin()`. -/
def unserTxInUndo : Reader Coin := do
  let nCode ← readVarInt UINT32_MAX
  let nHeight := nCode / 2
  let _ ← (if nHeight > 0 then readVarInt INT32_MAX else pure 0)
  let out ← unserTxOutCompressed C
  pure (Coin.make out nHeight (nCode % 2 == 1) false 0)

/-- `MIN_TRANSACTION_INPUT_WEIGHT`: four times the 41 bytes of `CTxIn()`. -/
def MIN_TRANSACTION_INPUT_WEIGHT : ℕ := WITNESS_SCALE_FACTOR * 41

def serTxUndo (txundo : CTxUndo) : Bytes :=
  writeCompactSize txundo.vprevout.length.toUInt64 ++ (txundo.vprevout.map (serTxInUndo C)).flatten

/-- `CTxUndo::Unserialize`: at most as many records as inputs fit in a block. -/
def unserTxUndo : Reader CTxUndo := do
  let count ← readCompactSize
  let vprevout ← (if count.toNat > MAX_BLOCK_WEIGHT / MIN_TRANSACTION_INPUT_WEIGHT then failure
    else readN (unserTxInUndo C) count.toNat)
  pure ⟨vprevout⟩

def serBlockUndo (blockundo : CBlockUndo) : Bytes :=
  writeCompactSize blockundo.vtxundo.length.toUInt64 ++ (blockundo.vtxundo.map (serTxUndo C)).flatten

def unserBlockUndo : Reader CBlockUndo := do
  let count ← readCompactSize
  let vtxundo ← readN (unserTxUndo C) count.toNat
  pure ⟨vtxundo⟩

/-- The record `UndoWriteToDisk` stores; the checksum after it hashes these bytes
with the parent block hash. -/
def undoWriteToDisk (blockundo : CBlockUndo) : Bytes := serBlockUndo C blockundo

/-- `UndoReadFromDisk` of what `UndoWriteToDisk` stored: the checksum it
verifies is computed from the same bytes, so only the reading can fail. -/
def undoReadFromDisk (stored : Bytes) : Option CBlockUndo :=
  ((unserBlockUndo C).run stored).map Prod.fst

end UndoFormat

inductive DisconnectResult
  | DISCONNECT_OK
  | DISCONNECT_UNCLEAN
  | DISCONNECT_FAILED
  deriving DecidableEq, Repr

/-- `MAX_OUTPUTS_PER_BLOCK`: the nine bytes of `CTxOut()` into the block weight. -/
def MAX_OUTPUTS_PER_BLOCK : ℕ := MAX_BLOCK_WEIGHT / 9

/-- The loop of `AccessByTxid` from output `n`. -/
def accessByTxidFrom (view : CCoinsMap) (txid : uint256) : ℕ → ℕ → Coin
  | 0, _ => Coin.empty
  | fuel + 1, n =>
    let alternate := view.accessCoin ⟨txid, n.toUInt32⟩
    if !alternate.isSpent then alternate else accessByTxidFrom view txid fuel (n + 1)

/-- `AccessByTxid`: the first unspent output of a transaction. -/
def accessByTxid (view : CCoinsMap) (txid : uint256) : Coin :=
  accessByTxidFrom view txid MAX_OUTPUTS_PER_BLOCK 0

/-- `ApplyTxInUndo`: put a spent coin back.  A record of height zero takes its
metadata from another output of the same transaction. -/
def applyTxInUndo (undo : Coin) (view : CCoinsMap) (out : COutPoint) :
    Except String (DisconnectResult × CCoinsMap) :=
  let fClean := !view.haveCoin out
  let restored :=
    if undo.nHeight = 0 then
      let alternate := accessByTxid view out.hash
      if !alternate.isSpent then
        some { undo with nHeight := alternate.nHeight, nHeight_lt := alternate.nHeight_lt,
                         fCoinBase := alternate.fCoinBase, fCoinStake := alternate.fCoinStake,
                         nTime := alternate.nTime }
      else none
    else some undo
  match restored with
  | none => pure (.DISCONNECT_FAILED, view)
  | some undo => do
    let view ← view.addCoin out undo !fClean
    pure (if fClean then .DISCONNECT_OK else .DISCONNECT_UNCLEAN, view)

/-- What `DisconnectBlock` carries through its loops. -/
structure DisconnectState where
  view : CCoinsMap
  governance : CGovernance
  fClean : Bool

section DisconnectBlock

variable (C : Crypto) (masterKey : CScript) (nHeight : Int)

/-- The output check of `DisconnectBlock`: each spendable output of the
transaction must be in the view as the block created it, and leaves it. -/
def spendOutputsFrom (hash : uint256) (is_coinbase : Bool) :
    ℕ → List CTxOut → DisconnectState → DisconnectState
  | _, [], st => st
  | o, out :: outs, st =>
    if isUnspendable out.scriptPubKey then spendOutputsFrom hash is_coinbase (o + 1) outs st
    else
      let st := match st.view.spendCoin ⟨hash, o.toUInt32⟩ with
        | some (coin, view) =>
          { st with view,
                    fClean := st.fClean && out == coin.out && nHeight == coin.nHeight &&
                      is_coinbase == coin.fCoinBase }
        | none => { st with fClean := false }
      spendOutputsFrom hash is_coinbase (o + 1) outs st

/-- The input loop of `DisconnectBlock`, from the last input down: each spent
coin goes back, and an input that spent the master key's coin marks the
transaction as a governance one. -/
def restoreInputs : List (CTxIn × Coin) → DisconnectState × Bool →
    Except String (Option (DisconnectState × Bool))
  | [], acc => pure (some acc)
  | (txin, undo) :: rest, (st, fCheckGovernance) => do
    let (res, view) ← applyTxInUndo undo st.view txin.prevout
    if res = .DISCONNECT_FAILED then pure none
    else
      let st := { st with view, fClean := st.fClean && res != .DISCONNECT_UNCLEAN }
      let fCheckGovernance := fCheckGovernance || (view.accessCoin txin.prevout).out.scriptPubKey == masterKey
      restoreInputs rest (st, fCheckGovernance)

/-- One transaction of `DisconnectBlock`, at index `i` with its undo record
(none for the coin base).  A governance transaction has its actions reverted
whatever its kind and whether governance had been deployed. -/
def disconnectTx (tx : CTransaction) (txundo : Option CTxUndo) (st : DisconnectState) :
    Except String (Option DisconnectState) := do
  let st := spendOutputsFrom nHeight (C.getHash tx) tx.isCoinBase 0 tx.vout st
  match txundo with
  | none => pure (some st)
  | some txundo =>
    if txundo.vprevout.length != tx.vin.length then pure none
    else
      let r ← restoreInputs masterKey (tx.vin.zip txundo.vprevout).reverse (st, false)
      match r with
      | none => pure none
      | some (st, fCheckGovernance) =>
        if fCheckGovernance then
          pure (some { st with governance := st.governance.revertOutputs masterKey nHeight tx.vout })
        else pure (some st)

/-- The transaction loop of `DisconnectBlock`, last transaction first; a
failure stops it, with the governance writes made so far kept. -/
def disconnectTxs : List (CTransaction × Option CTxUndo) → DisconnectState →
    Except String (DisconnectResult × DisconnectState)
  | [], st => pure (if st.fClean then .DISCONNECT_OK else .DISCONNECT_UNCLEAN, st)
  | (tx, txundo) :: rest, st => do
    match ← disconnectTx C masterKey nHeight tx txundo st with
    | none => pure (.DISCONNECT_FAILED, st)
    | some st => disconnectTxs rest st

/-- `DisconnectBlock` of a block at height `nHeight` with its stored undo
record; the token cache and the indexes are not modelled. -/
def disconnectBlock (block : CBlock) (stored : Option Bytes) (view : CCoinsMap)
    (governance : CGovernance) : Except String (DisconnectResult × DisconnectState) :=
  let st : DisconnectState := ⟨view, governance, true⟩
  match stored.bind (undoReadFromDisk C) with
  | none => pure (.DISCONNECT_FAILED, st)
  | some blockUndo =>
    if blockUndo.vtxundo.length + 1 != block.vtx.length then pure (.DISCONNECT_FAILED, st)
    else
      let undos : List (Option CTxUndo) := none :: blockUndo.vtxundo.map some
      disconnectTxs C masterKey nHeight (block.vtx.zip undos).reverse st

end DisconnectBlock

section UndoLemmas

variable (C : Crypto)

/-- Every coin an undo record gives back has the coin-stake flag and the time
of `Coin()`. -/
theorem unserTxInUndo_defaults {s s' : Bytes} {coin : Coin} (h : (unserTxInUndo C).run s = some (coin, s')) :
    coin.fCoinStake = false ∧ coin.nTime = 0 := by
  obtain ⟨nCode, s₁, -, h⟩ := run_bind_eq_some h
  obtain ⟨_, s₂, -, h⟩ := run_bind_eq_some h
  obtain ⟨out, s₃, -, h⟩ := run_bind_eq_some h
  simp only [StateT.run_pure, Option.pure_def, Option.some.injEq, Prod.mk.injEq] at h
  obtain ⟨rfl, -⟩ := h
  exact ⟨rfl, rfl⟩

theorem unserTxUndo_defaults {s s' : Bytes} {txundo : CTxUndo}
    (h : (unserTxUndo C).run s = some (txundo, s')) :
    ∀ coin ∈ txundo.vprevout, coin.fCoinStake = false ∧ coin.nTime = 0 := by
  obtain ⟨count, s₁, -, h⟩ := run_bind_eq_some h
  obtain ⟨vprevout, s₂, hv, h⟩ := run_bind_eq_some h
  simp only [StateT.run_pure, Option.pure_def, Option.some.injEq, Prod.mk.injEq] at h
  obtain ⟨rfl, -⟩ := h
  -- the count check reads nothing: past it, the records are read one by one
  split at hv
  · simp [failure, StateT.run, StateT.failure] at hv
  · exact readN_forall (fun _ _ _ => unserTxInUndo_defaults C) _ _ _ _ hv

/-- Every coin of a block undo record read back from disk has the coin-stake
flag and the time of `Coin()`, whatever the coins written. -/
theorem undoReadFromDisk_defaults {stored : Bytes} {blockundo : CBlockUndo}
    (h : undoReadFromDisk C stored = some blockundo) :
    ∀ txundo ∈ blockundo.vtxundo, ∀ coin ∈ txundo.vprevout, coin.fCoinStake = false ∧ coin.nTime = 0 := by
  unfold undoReadFromDisk at h
  cases hr : (unserBlockUndo C).run stored with
  | none => simp [hr] at h
  | some p =>
    obtain ⟨u, s'⟩ := p
    simp only [hr, Option.map_some, Option.some.injEq] at h
    subst h
    obtain ⟨count, s₁, -, h⟩ := run_bind_eq_some hr
    obtain ⟨vtxundo, s₂, hv, h⟩ := run_bind_eq_some h
    simp only [StateT.run_pure, Option.pure_def, Option.some.injEq, Prod.mk.injEq] at h
    obtain ⟨rfl, -⟩ := h
    exact readN_forall (p := fun txundo => ∀ coin ∈ txundo.vprevout, coin.fCoinStake = false ∧ coin.nTime = 0)
      (fun _ _ _ => unserTxUndo_defaults C) _ _ _ _ hv

/-- The undo record of a block that spent a coin stake's output, or any coin
with a time, does not come back from disk as it was written. -/
theorem undo_roundtrip_loses_coin_metadata (blockundo : CBlockUndo) (txundo : CTxUndo)
    (htx : txundo ∈ blockundo.vtxundo) (coin : Coin) (hcoin : coin ∈ txundo.vprevout)
    (hmeta : coin.fCoinStake = true ∨ coin.nTime ≠ 0) :
    undoReadFromDisk C (undoWriteToDisk C blockundo) ≠ some blockundo := by
  intro h
  obtain ⟨hs, ht⟩ := undoReadFromDisk_defaults C h txundo htx coin hcoin
  rcases hmeta with hm | hm
  · rw [hs] at hm
    exact Bool.false_ne_true hm
  · exact hm ht

/-- A coin-stake output of one coin to a key hash, spent at height 200000. -/
def stakedCoin : Coin :=
  Coin.make ⟨COIN, payToPubKeyHash (List.replicate 20 1)⟩ 200000 false true 1600000000

/-- The undo record of a block whose one transaction spent `stakedCoin`. -/
def stakedUndo : CBlockUndo := ⟨[⟨[stakedCoin]⟩]⟩

theorem stakedUndo_not_restored :
    (⟨[stakedCoin]⟩ ∈ stakedUndo.vtxundo ∧ stakedCoin ∈ [stakedCoin] ∧
      (stakedCoin.fCoinStake = true ∨ stakedCoin.nTime ≠ 0)) ∧
    undoReadFromDisk Crypto.truncating (undoWriteToDisk Crypto.truncating stakedUndo) ≠ some stakedUndo :=
  have hyp : ⟨[stakedCoin]⟩ ∈ stakedUndo.vtxundo ∧ stakedCoin ∈ [stakedCoin] ∧
      (stakedCoin.fCoinStake = true ∨ stakedCoin.nTime ≠ 0) := by decide
  ⟨hyp, undo_roundtrip_loses_coin_metadata Crypto.truncating stakedUndo _ hyp.1 stakedCoin hyp.2.1 hyp.2.2⟩

/-- What comes back: the same output, height and coin-base flag, as a coin
that neither is a coin stake nor has a time. -/
example : undoReadFromDisk Crypto.truncating (undoWriteToDisk Crypto.truncating stakedUndo) =
    some ⟨[⟨[Coin.make stakedCoin.out 200000 false false 0]⟩]⟩ := by decide

end UndoLemmas

end AokChain
