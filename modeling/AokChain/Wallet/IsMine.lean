import AokChain.Consensus.ConnectProperties
import AokChain.Script.Standard
import AokChain.Script.SigHash

/-!
# Lock-time scripts and ownership

`CScriptNum`'s constructor from bytes (`script/script.h`), `IsTimeLock` and
`IsMine` (`script/ismine.cpp`) and `CTxOut::GetLockTime`
(`primitives/transaction.cpp`).

The constructor throws a `scriptnum_error` on more bytes than its limit and on
a non-minimal encoding; the model returns the error's text.  `Solver`'s
lock-time template takes any push in its `OP_BIGINTEGER` slot, while
`IsTimeLock` and the `TX_CLTV` case of `IsMine` decode that push with a limit of
five bytes and minimal encoding required, and catch nothing.
-/

namespace AokChain
open Serial

namespace CScriptNum

/-- `CScriptNum::set_vch`: the bytes little-endian, the top bit of the last one
the sign. -/
def setVch (vch : Bytes) : Int64 :=
  match vch.getLast? with
  | none => 0
  | some last =>
    let result : Int64 := vch.zipIdx.foldl (fun acc (b, i) => acc ||| (b.toUInt64.toInt64 <<< (8 * i).toInt64)) 0
    if last &&& 0x80 != 0 then -(result &&& ~~~((0x80 : Int64) <<< (8 * (vch.length - 1)).toInt64))
    else result

/-- The encoding test of the constructor: the last byte carries more than the
sign, or the byte before it has its top bit set. -/
def isMinimal (vch : Bytes) : Bool :=
  match vch.getLast? with
  | none => true
  | some last => last &&& 0x7f != 0 || (vch.length > 1 && byteAt vch (vch.length - 2) &&& 0x80 != 0)

/-- `CScriptNum(vch, fRequireMinimal, nMaxNumSize)`. -/
def ofBytes (vch : Bytes) (fRequireMinimal : Bool) (nMaxNumSize : ℕ) : Except String Int64 :=
  if vch.length > nMaxNumSize then throw "script number overflow"
  else if fRequireMinimal && !isMinimal vch then throw "non-minimally encoded script number"
  else pure (setVch vch)

example : CScriptNum.setVch [0xe8, 0x03] = 1000 ∧ CScriptNum.setVch [0x81] = -1 := by decide

end CScriptNum

/-- What `Solver` leaves in its out-parameters when it returns false. -/
def Solution.nonstandard : Solution := ⟨.TX_NONSTANDARD, .TX_NONSTANDARD, []⟩

/-- `IsTimeLock(scriptPubKey, nLockTime)`: the lock time of a `TX_CLTV` script,
`none` where it returns false. -/
def isTimeLock (scriptPubKey : CScript) : Except String (Option Int64) :=
  match solver scriptPubKey with
  | some sol =>
    if sol.typeRet = .TX_CLTV then some <$> CScriptNum.ofBytes (sol.vSolutions.headD []) true 5
    else pure none
  | none => pure none

/-- `CTxOut::GetLockTime`: the lock time, or zero, as a `uint32_t`. -/
def CTxOut.getLockTime (out : CTxOut) : Except String UInt32 := do
  match ← isTimeLock out.scriptPubKey with
  | some nLockTime => pure nLockTime.toUInt64.toUInt32
  | none => pure 0

/-- `isminetype`. -/
inductive isminetype
  | ISMINE_NO
  | ISMINE_WATCH_UNSOLVABLE
  | ISMINE_WATCH_SOLVABLE
  | ISMINE_SPENDABLE
  | ISMINE_STAKABLE
  | ISMINE_SPENDABLE_STAKABLE
  deriving DecidableEq, Repr

/-- What `IsMine` asks of a `CKeyStore`. -/
structure CKeyStore where
  haveKey : Bytes → Bool
  /-- `GetPubKey(keyID, pubkey)`: the key's bytes. -/
  getPubKey : Bytes → Option Bytes
  getCScript : Bytes → Option CScript
  haveWatchOnly : CScript → Bool
  /-- `ProduceSignature(DummySignatureCreator(&keystore), scriptPubKey, sigs)`. -/
  produceDummySignature : CScript → Bool

/-- `HaveCScript`, which finds what `GetCScript` returns. -/
def CKeyStore.haveCScript (keystore : CKeyStore) (scriptID : Bytes) : Bool := (keystore.getCScript scriptID).isSome

/-- `IsTimeLock(keystore, scriptPubKey, nLockTime)`: the script of a script hash
the keystore knows is solved in its place. -/
def isTimeLockIn (keystore : CKeyStore) (scriptPubKey : CScript) : Except String (Option Int64) :=
  match solver scriptPubKey with
  | some sol =>
    let sol := if sol.typeRet = .TX_SCRIPTHASH then
        match keystore.getCScript (sol.vSolutions.headD []) with
        | some subscript => (solver subscript).getD Solution.nonstandard
        | none => sol
      else sol
    if sol.typeRet = .TX_CLTV then some <$> CScriptNum.ofBytes (sol.vSolutions.headD []) true 5
    else pure none
  | none => pure none

/-- What `IsMine` reads of `bestBlock`. -/
structure BestBlock where
  nHeight : Int
  /-- `GetMedianTimePast()`. -/
  medianTimePast : Int

/-- `CPubKey(vch).GetID()`: the hash of the key, of no bytes for an invalid one. -/
def pubKeyGetID (C : Crypto) (vch : Bytes) : Bytes := C.hash160 (if pubKeyIsValid vch then vch else [])

/-- `HaveKeys`. -/
def haveKeys (C : Crypto) (pubkeys : List Bytes) (keystore : CKeyStore) : ℕ :=
  (pubkeys.filter fun pubkey => keystore.haveKey (pubKeyGetID C pubkey)).length

section IsMine

variable (C : Crypto) (tokensDeployed : Bool) (keystore : CKeyStore) (bestBlock : BestBlock)

/-- The result of a nested `IsMine` that its caller returns: spendable,
solvable, or invalid. -/
def passNested : isminetype × Bool → Option isminetype × Bool
  | (ret, isInvalid) =>
    if ret = .ISMINE_SPENDABLE || ret = .ISMINE_WATCH_SOLVABLE || (ret = .ISMINE_NO && isInvalid) then
      (some ret, isInvalid)
    else (none, isInvalid)

/-- The `switch` of `IsMine` on what `Solver` found: `some` for a case that
returns, `none` for one that breaks to the watch-only test, with `isInvalid`.
`recurse` is `IsMine` on a script the case derives. -/
def isMineSwitch (recurse : CScript → SigVersion → Except String (isminetype × Bool)) (sol : Solution)
    (sigversion : SigVersion) : Except String (Option isminetype × Bool) :=
  let vSolutions := sol.vSolutions
  let first := vSolutions.headD []
  -- the key a `GetPubKey` finds is uncompressed where a witness needs a compressed one
  let uncompressedIn (keyID : Bytes) : Bool :=
    decide (sigversion ≠ .SIGVERSION_BASE) && (keystore.getPubKey keyID).any fun pubkey => pubkey.length != 33
  match sol.typeRet with
  | .TX_NONSTANDARD | .TX_NULL_DATA => pure (none, false)
  | .TX_PUBKEY =>
    if decide (sigversion ≠ .SIGVERSION_BASE) && first.length != 33 then pure (some .ISMINE_NO, true)
    else pure (if keystore.haveKey (pubKeyGetID C first) then some .ISMINE_SPENDABLE else none, false)
  | .TX_WITNESS_V0_KEYHASH =>
    if !keystore.haveCScript (C.hash160 ([OP_0] ++ pushData first)) then pure (none, false)
    else passNested <$> recurse (payToPubKeyHash first) .SIGVERSION_WITNESS_V0
  | .TX_PUBKEYHASH =>
    if uncompressedIn first then pure (some .ISMINE_NO, true)
    else pure (if keystore.haveKey first then some .ISMINE_SPENDABLE else none, false)
  | .TX_OFFLINE_STAKING =>
    let fSpendable := keystore.haveKey (vSolutions.getD 1 [])
    let fStakable := keystore.haveKey first
    pure (if fSpendable && fStakable then some .ISMINE_SPENDABLE_STAKABLE
      else if fSpendable then some .ISMINE_SPENDABLE
      else if fStakable then some .ISMINE_STAKABLE
      else none, false)
  | .TX_SCRIPTHASH =>
    -- the nested call takes the default `SIGVERSION_BASE`
    match keystore.getCScript first with
    | some subscript => passNested <$> recurse subscript .SIGVERSION_BASE
    | none => pure (none, false)
  | .TX_WITNESS_V0_SCRIPTHASH =>
    if !keystore.haveCScript (C.hash160 ([OP_0] ++ pushData first)) then pure (none, false)
    else
      match keystore.getCScript (C.ripemd160 first) with
      | some subscript => passNested <$> recurse subscript .SIGVERSION_WITNESS_V0
      | none => pure (none, false)
  | .TX_MULTISIG =>
    let keys := (vSolutions.drop 1).dropLast
    if decide (sigversion ≠ .SIGVERSION_BASE) && keys.any (fun key => key.length != 33) then pure (some .ISMINE_NO, true)
    else pure (if haveKeys C keys keystore = keys.length then some .ISMINE_SPENDABLE else none, false)
  | .TX_CLTV =>
    if keystore.haveKey (vSolutions.getD 1 []) then do
      let nLockTime ← CScriptNum.ofBytes first true 5
      let lock := nLockTime.toInt
      -- a lock below the threshold is a height, above it a time
      let limit := if lock < LOCKTIME_THRESHOLD then bestBlock.nHeight else bestBlock.medianTimePast
      pure (some (if lock > limit then .ISMINE_WATCH_SOLVABLE else .ISMINE_SPENDABLE), false)
    else pure (some .ISMINE_NO, false)
  | .TX_NEW_TOKEN | .TX_TRANSFER_TOKEN | .TX_REISSUE_TOKEN =>
    if !tokensDeployed then pure (some .ISMINE_NO, false)
    else if sol.scriptTypeRet = .TX_PUBKEYHASH then
      if uncompressedIn first then pure (some .ISMINE_NO, true)
      else if keystore.haveKey first then pure (some .ISMINE_SPENDABLE, false)
      else if keystore.haveWatchOnly (payToPubKeyHash first) then pure (some .ISMINE_WATCH_SOLVABLE, false)
      else pure (none, false)
    else if sol.scriptTypeRet = .TX_SCRIPTHASH then
      match keystore.getCScript first with
      | some subscript => passNested <$> recurse subscript .SIGVERSION_BASE
      | none => pure (none, false)
    else pure (none, false)

/-- `IsMine(keystore, scriptPubKey, bestBlock, isInvalid, sigversion)`, with
`isInvalid` returned beside the verdict.  `fuel` bounds the nesting of the
keystore's scripts that the source follows, each a preimage of a hash in the
script above it. -/
def isMine : ℕ → CScript → SigVersion → Except String (isminetype × Bool)
  | 0, _, _ => pure (.ISMINE_NO, false)
  | fuel + 1, scriptPubKey, sigversion =>
    match solver scriptPubKey with
    | none => pure (if keystore.haveWatchOnly scriptPubKey then .ISMINE_WATCH_UNSOLVABLE else .ISMINE_NO, false)
    | some sol => do
      let (ret, isInvalid) ← isMineSwitch C tokensDeployed keystore bestBlock (isMine fuel) sol sigversion
      match ret with
      | some ret => pure (ret, isInvalid)
      | none =>
        let ret := if !keystore.haveWatchOnly scriptPubKey then .ISMINE_NO
          else if keystore.produceDummySignature scriptPubKey then .ISMINE_WATCH_SOLVABLE
          else .ISMINE_WATCH_UNSOLVABLE
        pure (ret, isInvalid)

end IsMine

section LockedScripts

/-- A template opcode that is no pseudo-opcode matches only itself with no data. -/
theorem matchOp_of_push {op2 op1 : opcodetype} {vch1 : Bytes} (h1 : op2 ≠ OP_PUBKEY) (h2 : op2 ≠ OP_PUBKEYHASH)
    (h3 : op2 ≠ OP_SMALLINTEGER) (h4 : op2 ≠ OP_BIGINTEGER) (hne : vch1 ≠ []) : matchOp op2 op1 vch1 = none := by
  simp [matchOp, h1, h2, h3, h4, hne]

variable {b id : Bytes}

theorem pushLength_toNat (hb : b.length < 76) : b.length.toUInt8.toNat = b.length := by
  simp; omega

/-- A push, `OP_CHECKLOCKTIMEVERIFY OP_DROP` and a key-hash template, as `Solver`
scans it: the push is the first instruction. -/
theorem getOp_locked (hb : b.length < 76) (id : Bytes) :
    getOp (pushData b ++ [OP_CHECKLOCKTIMEVERIFY, OP_DROP] ++ payToPubKeyHash id) =
      some (b.length.toUInt8, b, [OP_CHECKLOCKTIMEVERIFY, OP_DROP] ++ payToPubKeyHash id) := by
  rw [List.append_assoc]
  exact getOp_pushData hb _

theorem byteAt_locked_zero (hb : b.length < 76) (id : Bytes) :
    byteAt (pushData b ++ [OP_CHECKLOCKTIMEVERIFY, OP_DROP] ++ payToPubKeyHash id) 0 = b.length.toUInt8 := by
  simp [pushData, hb, OP_PUSHDATA1, byteAt]

theorem length_locked (hb : b.length < 76) (hid : id.length = 20) :
    (pushData b ++ [OP_CHECKLOCKTIMEVERIFY, OP_DROP] ++ payToPubKeyHash id).length = b.length + 28 := by
  simp [pushData, hb, OP_PUSHDATA1, payToPubKeyHash, hid]

/-- `Solver` classifies a push, `OP_CHECKLOCKTIMEVERIFY OP_DROP` and a key-hash
template as `TX_CLTV`, whatever the push holds, unless byte 25 makes it a token
script. -/
theorem solver_locked (hb : b ≠ []) (hb76 : b.length < 76) (hid : id.length = 20)
    (htok : byteAt (pushData b ++ [OP_CHECKLOCKTIMEVERIFY, OP_DROP] ++ payToPubKeyHash id) 25 ≠ OP_TOKEN_SCRIPT) :
    solver (pushData b ++ [OP_CHECKLOCKTIMEVERIFY, OP_DROP] ++ payToPubKeyHash id) =
      some ⟨.TX_CLTV, .TX_NONSTANDARD, [b, id]⟩ := by
  have hpos : 0 < b.length := List.length_pos_of_ne_nil hb
  have hL := pushLength_toNat hb76
  have hlen := length_locked hb76 hid
  have h0 := byteAt_locked_zero hb76 id
  have hop := getOp_locked hb76 id
  set S := pushData b ++ [OP_CHECKLOCKTIMEVERIFY, OP_DROP] ++ payToPubKeyHash id with hS
  -- the first byte is a push length, below every opcode the shortcuts look for
  have hlt : ∀ op : opcodetype, 76 ≤ op.toNat → b.length.toUInt8 ≠ op := by
    intro op hop h
    have := congrArg UInt8.toNat h
    omega
  have htype : tokenScriptType S = .TX_PUBKEYHASH := by
    simp [tokenScriptType, h0, hlt OP_HASH160 (by decide)]
  have htokInfo : tokenScriptInfo S = none := by
    simp [tokenScriptInfo, htype, htok]
  have hwit : isWitnessProgram S = none := by
    apply isWitnessProgram_of_byte
    have hne : b.length.toUInt8 ≠ OP_0 := fun h => by
      have := congrArg UInt8.toNat h
      simp [OP_0] at this
      omega
    have hlt1 : b.length.toUInt8 < OP_1 := by
      simp [UInt8.lt_iff_toNat_lt, OP_1]
      omega
    simp [h0, hne, hlt1]
  rw [solver_of_templates (by simp [isPayToScriptHash, hlen]) htokInfo
    (by simp [isOfflineStaking, h0, hlt OP_OFFLINE_STAKE (by decide)]) hwit
    (by simp [h0, hlt OP_RETURN (by decide)])]
  have hcltv : getOp ([OP_CHECKLOCKTIMEVERIFY, OP_DROP] ++ payToPubKeyHash id) =
      some (OP_CHECKLOCKTIMEVERIFY, [], OP_DROP :: payToPubKeyHash id) :=
    getOp_of_pushdata4_lt (by decide) _
  -- the push breaks the key template, or its `OP_CHECKSIG` meets `OP_CHECKLOCKTIMEVERIFY`
  have hpk : scanTemplate 3 S [OP_PUBKEY, OP_CHECKSIG] [] = none := by
    rw [scanTemplate_step hop (by decide)]
    cases matchOp OP_PUBKEY b.length.toUInt8 b with
    | none => rfl
    | some sol =>
      show scanTemplate 2 _ [OP_CHECKSIG] _ = none
      rw [scanTemplate_step hcltv (by decide)]
      rfl
  -- the key-hash and multisig templates break at the push
  have hpkh : scanTemplate 6 S [OP_DUP, OP_HASH160, OP_PUBKEYHASH, OP_EQUALVERIFY, OP_CHECKSIG] [] = none := by
    rw [scanTemplate_step hop (by decide), matchOp_of_push (by decide) (by decide) (by decide) (by decide) hb]
    rfl
  have hms : scanTemplate 5 S [OP_SMALLINTEGER, OP_PUBKEYS, OP_SMALLINTEGER, OP_CHECKMULTISIG] [] = none := by
    have hsmall : (b.length.toUInt8 == OP_0 || (OP_1 ≤ b.length.toUInt8 && b.length.toUInt8 ≤ OP_16)) = false := by
      have h1 : b.length.toUInt8 ≠ OP_0 := fun h => by
        have := congrArg UInt8.toNat h
        simp [OP_0] at this
        omega
      have h2 : ¬OP_1 ≤ b.length.toUInt8 := by
        simp only [UInt8.le_iff_toNat_le, hL]
        simp [OP_1]
        omega
      simp [h1, h2]
    have hop2 : matchOp OP_SMALLINTEGER b.length.toUInt8 b = none := by
      unfold matchOp
      rw [if_neg (by decide), if_neg (by decide), if_pos (by decide), hsmall]
      rfl
    rw [scanTemplate_step hop (by decide), hop2]
    rfl
  -- the lock-time template takes the push whole, then the key-hash template
  have hcltvT : scanTemplate 9 S [OP_BIGINTEGER, OP_CHECKLOCKTIMEVERIFY, OP_DROP, OP_DUP, OP_HASH160,
      OP_PUBKEYHASH, OP_EQUALVERIFY, OP_CHECKSIG] [] = some [b, id] := by
    have hbig : matchOp OP_BIGINTEGER b.length.toUInt8 b = some (some b) := by
      unfold matchOp
      rw [if_neg (by decide), if_neg (by decide), if_neg (by decide), if_pos (by decide)]
    rw [scanTemplate_step hop (by decide), hbig]
    simp only [Option.bind_some, Option.toList_some, List.nil_append]
    rw [scanTemplate_exact hcltv (by decide) (by decide),
      scanTemplate_exact (getOp_of_pushdata4_lt (by decide) _) (by decide) (by decide)]
    exact scanTemplate_payToPubKeyHash hid 0 [b]
  simp only [solveTemplates, templates, List.length_cons, List.length_nil, hpk, hpkh, hms, hcltvT]
  rfl

/-- `IsPayToPublicKeyHashLocked` finds the template behind a push of any length
it can read from the first byte. -/
theorem isPayToPublicKeyHashLocked_locked (hb : b ≠ []) (hb76 : b.length < 76) (hid : id.length = 20) :
    isPayToPublicKeyHashLocked (pushData b ++ [OP_CHECKLOCKTIMEVERIFY, OP_DROP] ++ payToPubKeyHash id) = true := by
  have hpos : 0 < b.length := List.length_pos_of_ne_nil hb
  have hlen := length_locked hb76 hid
  have h0 := byteAt_locked_zero hb76 id
  have hpre : (pushData b).length = b.length + 1 := by simp [pushData, hb76, OP_PUSHDATA1]
  -- past the push the bytes are those of the template
  have htail : ∀ k, byteAt (pushData b ++ [OP_CHECKLOCKTIMEVERIFY, OP_DROP] ++ payToPubKeyHash id) (b.length + 1 + k) =
      byteAt (OP_CHECKLOCKTIMEVERIFY :: OP_DROP :: OP_DUP :: OP_HASH160 :: 20 :: (id ++ [OP_EQUALVERIFY, OP_CHECKSIG])) k := by
    intro k
    rw [List.append_assoc, byteAt_append_right (by omega), hpre, Nat.add_sub_cancel_left]
    simp [payToPubKeyHash, pushData, hid, OP_PUSHDATA1]
  have hid25 : byteAt (id ++ [OP_EQUALVERIFY, OP_CHECKSIG]) 20 = OP_EQUALVERIFY := by
    rw [byteAt_append_right (by omega), hid]
    rfl
  have hid26 : byteAt (id ++ [OP_EQUALVERIFY, OP_CHECKSIG]) 21 = OP_CHECKSIG := by
    rw [byteAt_append_right (by omega), hid]
    rfl
  -- the first byte is the push length, which is the offset of the template
  have hoff : (if (pushData b ++ [OP_CHECKLOCKTIMEVERIFY, OP_DROP] ++ payToPubKeyHash id).length = 28 then 0
      else (byteAt (pushData b ++ [OP_CHECKLOCKTIMEVERIFY, OP_DROP] ++ payToPubKeyHash id) 0).toNat) = b.length := by
    rw [if_neg (by omega), h0, pushLength_toNat hb76]
  unfold isPayToPublicKeyHashLocked
  simp only [hoff]
  rw [if_pos (by omega), if_neg (by omega), htail 0, htail 1, htail 2, htail 3, htail 4, htail 25, htail 26]
  have h25 : byteAt (OP_CHECKLOCKTIMEVERIFY :: OP_DROP :: OP_DUP :: OP_HASH160 :: 20 ::
      (id ++ [OP_EQUALVERIFY, OP_CHECKSIG])) 25 = OP_EQUALVERIFY := hid25
  have h26 : byteAt (OP_CHECKLOCKTIMEVERIFY :: OP_DROP :: OP_DUP :: OP_HASH160 :: 20 ::
      (id ++ [OP_EQUALVERIFY, OP_CHECKSIG])) 26 = OP_CHECKSIG := hid26
  rw [h25, h26]
  simp [byteAt]

end LockedScripts

section Decoding

/-- `CScriptNum` of more bytes than its limit throws. -/
theorem CScriptNum.ofBytes_overflow {vch : Bytes} {fRequireMinimal : Bool} {nMaxNumSize : ℕ}
    (h : nMaxNumSize < vch.length) :
    CScriptNum.ofBytes vch fRequireMinimal nMaxNumSize = .error "script number overflow" := by
  simp [CScriptNum.ofBytes, h, throw, throwThe, MonadExceptOf.throw]

/-- `IsTimeLock` of a `TX_CLTV` script is the decoding of its first solution. -/
theorem isTimeLock_of_solver {s : CScript} {sol : Solution} (hsol : solver s = some sol)
    (htype : sol.typeRet = .TX_CLTV) :
    isTimeLock s = some <$> CScriptNum.ofBytes (sol.vSolutions.headD []) true 5 := by
  simp [isTimeLock, hsol, htype]

/-- `GetLockTime` throws what `IsTimeLock` throws. -/
theorem getLockTime_of_isTimeLock_error {out : CTxOut} {e : String} (h : isTimeLock out.scriptPubKey = .error e) :
    CTxOut.getLockTime out = .error e := by
  simp [CTxOut.getLockTime, h, bind, Except.bind]

/-- `IsMine` on a `TX_CLTV` script whose key the keystore holds decodes the lock
time, and throws what the decoding throws. -/
theorem isMine_cltv_error (C : Crypto) (tokensDeployed : Bool) (keystore : CKeyStore) (bestBlock : BestBlock)
    (fuel : ℕ) (sigversion : SigVersion) {s : CScript} {scriptType : txnouttype} {vch keyID : Bytes} {e : String}
    (hsol : solver s = some ⟨.TX_CLTV, scriptType, [vch, keyID]⟩) (hkey : keystore.haveKey keyID = true)
    (herr : CScriptNum.ofBytes vch true 5 = .error e) :
    isMine C tokensDeployed keystore bestBlock (fuel + 1) s sigversion = .error e := by
  simp [isMine, hsol, isMineSwitch, hkey, herr, bind, Except.bind]

theorem isTimeLockIn_of_solver {keystore : CKeyStore} {s : CScript} {sol : Solution} (hsol : solver s = some sol)
    (htype : sol.typeRet = .TX_CLTV) :
    isTimeLockIn keystore s = some <$> CScriptNum.ofBytes (sol.vSolutions.headD []) true 5 := by
  simp [isTimeLockIn, hsol, htype]

end Decoding

/-- A push that `CScriptNum` cannot decode, put in the lock-time slot, makes an
output that `Solver` classifies as `TX_CLTV` and `IsPayToPublicKeyHashLocked`
accepts, and on which `IsTimeLock`, `GetLockTime` and, for a keystore holding
the key, `IsMine` throw. -/
theorem lockTime_decoding_throws (C : Crypto) (tokensDeployed : Bool) (keystore : CKeyStore)
    (bestBlock : BestBlock) (fuel : ℕ) (sigversion : SigVersion) (nValue : CAmount) {b id : Bytes} {e : String}
    (hb : b ≠ []) (hb76 : b.length < 76) (hid : id.length = 20)
    (htok : byteAt (pushData b ++ [OP_CHECKLOCKTIMEVERIFY, OP_DROP] ++ payToPubKeyHash id) 25 ≠ OP_TOKEN_SCRIPT)
    (herr : CScriptNum.ofBytes b true 5 = .error e) :
    isPayToPublicKeyHashLocked (pushData b ++ [OP_CHECKLOCKTIMEVERIFY, OP_DROP] ++ payToPubKeyHash id) = true ∧
      (solver (pushData b ++ [OP_CHECKLOCKTIMEVERIFY, OP_DROP] ++ payToPubKeyHash id)).map Solution.typeRet =
        some .TX_CLTV ∧
      isTimeLock (pushData b ++ [OP_CHECKLOCKTIMEVERIFY, OP_DROP] ++ payToPubKeyHash id) = .error e ∧
      isTimeLockIn keystore (pushData b ++ [OP_CHECKLOCKTIMEVERIFY, OP_DROP] ++ payToPubKeyHash id) = .error e ∧
      CTxOut.getLockTime ⟨nValue, pushData b ++ [OP_CHECKLOCKTIMEVERIFY, OP_DROP] ++ payToPubKeyHash id⟩ =
        .error e ∧
      (keystore.haveKey id = true →
        isMine C tokensDeployed keystore bestBlock (fuel + 1)
          (pushData b ++ [OP_CHECKLOCKTIMEVERIFY, OP_DROP] ++ payToPubKeyHash id) sigversion = .error e) := by
  have hsol := solver_locked hb hb76 hid htok
  have htime : isTimeLock (pushData b ++ [OP_CHECKLOCKTIMEVERIFY, OP_DROP] ++ payToPubKeyHash id) = .error e := by
    rw [isTimeLock_of_solver hsol rfl]
    simp [herr, Functor.map, Except.map]
  refine ⟨isPayToPublicKeyHashLocked_locked hb hb76 hid, by rw [hsol]; rfl, htime, ?_,
    getLockTime_of_isTimeLock_error htime, fun hkey => isMine_cltv_error C tokensDeployed keystore bestBlock fuel
      sigversion hsol hkey herr⟩
  rw [isTimeLockIn_of_solver hsol rfl]
  simp [herr, Functor.map, Except.map]

section LockedFixtures

/-- Six bytes in the lock-time slot, one more than `CScriptNum` takes. -/
def longLock : Bytes := [0, 0, 0, 0, 0, 1]

/-- The staker's key-hash template behind `longLock`. -/
def longLockScript : CScript := pushData longLock ++ [OP_CHECKLOCKTIMEVERIFY, OP_DROP] ++ payToPubKeyHash stakerID

/-- A wallet that holds the staker's key and nothing else. -/
def stakerWallet : CKeyStore := ⟨fun keyID => keyID == stakerID, fun _ => none, fun _ => none, fun _ => false,
  fun _ => false⟩

/-- A spend of the first early coin to `longLockScript`. -/
def longLockSpend : CTransaction := spendTx [outX1] [⟨COIN, longLockScript⟩]

end LockedFixtures

set_option maxRecDepth 10000 in
/-- `longLockScript` is paid by a block `ConnectBlock` accepts, and every lock-time
reader throws on it; a wallet holding the staker's key throws in `IsMine`. -/
theorem longLock_throws :
    (longLock ≠ [] ∧ longLock.length < 76 ∧ stakerID.length = 20 ∧
        byteAt longLockScript 25 ≠ OP_TOKEN_SCRIPT ∧
        CScriptNum.ofBytes longLock true 5 = .error "script number overflow") ∧
      isPayToPublicKeyHashLocked longLockScript = true ∧
      isTimeLock longLockScript = .error "script number overflow" ∧
      CTxOut.getLockTime ⟨COIN, longLockScript⟩ = .error "script number overflow" ∧
      isMine Crypto.truncating true stakerWallet ⟨99, 1600000000⟩ 1 longLockScript .SIGVERSION_BASE =
        .error "script number overflow" ∧
      rejectReason (checkTransaction (tipNode 99).tx longLockSpend (some passIssuance) true) = none ∧
      (connectBlock (acceptingEnv acceptAll) (tipNode 99) passTokensCache (fixtureBlock [earlyCoinbase, longLockSpend] [])
        100 earlyView CGovernance.empty false false).1.toBool = true := by
  have herr : CScriptNum.ofBytes longLock true 5 = .error "script number overflow" :=
    CScriptNum.ofBytes_overflow (by decide)
  have hyp : longLock ≠ [] ∧ longLock.length < 76 ∧ stakerID.length = 20 ∧
      byteAt longLockScript 25 ≠ OP_TOKEN_SCRIPT := ⟨by decide, by decide, by decide, by decide⟩
  obtain ⟨hlocked, -, htime, -, hlock, hmine⟩ := lockTime_decoding_throws Crypto.truncating true stakerWallet
    ⟨99, 1600000000⟩ 0 .SIGVERSION_BASE COIN hyp.1 hyp.2.1 hyp.2.2.1 hyp.2.2.2 herr
  exact ⟨⟨hyp.1, hyp.2.1, hyp.2.2.1, hyp.2.2.2, herr⟩, hlocked, htime, hlock, hmine (by decide), by decide,
    by decide⟩

end AokChain
