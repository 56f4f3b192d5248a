import AokChain.Tokens.TokenScript
import AokChain.Crypto

/-!
# Standard templates and destinations

`Solver`, `ExtractDestination` and `GetScriptForDestination` of
`script/standard.cpp`: the shortcuts for script hashes, token scripts, offline
staking, witness programs and data carriers, then the scan of the templates in
the order of their type, and the destination each kind pays.  An address names
a destination; the scripts that pay it are many.
-/

namespace AokChain
open Serial

/-- The template-matching pseudo-opcodes of `script.h`. -/
def OP_BIGINTEGER : opcodetype := 0xf0
def OP_SMALLINTEGER : opcodetype := 0xfa
def OP_PUBKEYS : opcodetype := 0xfb
def OP_PUBKEYHASH : opcodetype := 0xfd
def OP_PUBKEY : opcodetype := 0xfe

/-- The templates of `Solver`'s `std::multimap`, in the order of their type.
Each is a script of one-byte opcodes, so it is kept as its opcodes. -/
def templates : List (txnouttype × List opcodetype) :=
  [(.TX_PUBKEY, [OP_PUBKEY, OP_CHECKSIG]),
    (.TX_PUBKEYHASH, [OP_DUP, OP_HASH160, OP_PUBKEYHASH, OP_EQUALVERIFY, OP_CHECKSIG]),
    (.TX_MULTISIG, [OP_SMALLINTEGER, OP_PUBKEYS, OP_SMALLINTEGER, OP_CHECKMULTISIG]),
    (.TX_CLTV, [OP_BIGINTEGER, OP_CHECKLOCKTIMEVERIFY, OP_DROP, OP_DUP, OP_HASH160, OP_PUBKEYHASH,
      OP_EQUALVERIFY, OP_CHECKSIG])]

/-- The inner loop of `OP_PUBKEYS`: the keys pushed from the current
instruction on, the instruction that ends the run (`OP_INVALIDOPCODE` with no
data where `GetOp` fails) and the script after it. -/
def collectPubKeys : ℕ → opcodetype × Bytes → CScript → List Bytes × (opcodetype × Bytes) × CScript
  | 0, cur, s => ([], cur, s)
  | fuel + 1, (op, vch), s =>
    if 33 ≤ vch.length && vch.length ≤ 65 then
      match getOp s with
      | none => ([vch], (OP_INVALIDOPCODE, []), s)
      | some (op', vch', s') =>
        let (keys, stop, rest) := collectPubKeys fuel (op', vch') s'
        (vch :: keys, stop, rest)
    else ([], (op, vch), s)

/-- One template opcode against one script instruction: the solution it adds,
`some none` for an opcode matched exactly, `none` where the scan breaks. -/
def matchOp (op2 op1 : opcodetype) (vch1 : Bytes) : Option (Option Bytes) :=
  if op2 == OP_PUBKEY then
    if vch1.length < 33 || vch1.length > 65 then none else some (some vch1)
  else if op2 == OP_PUBKEYHASH then
    if vch1.length != 20 then none else some (some vch1)
  else if op2 == OP_SMALLINTEGER then
    if op1 == OP_0 || (OP_1 ≤ op1 && op1 ≤ OP_16) then some (some [(decodeOP_N op1).toUInt8]) else none
  else if op2 == OP_BIGINTEGER then some (some vch1)
  else if op1 != op2 || !vch1.isEmpty then none
  else some none

/-- The scan of one template against the rest `s1` of the script: the
solutions when both end together.  Each round takes a template opcode, so the
template's length bounds the rounds. -/
def scanTemplate : ℕ → CScript → List opcodetype → List Bytes → Option (List Bytes)
  | 0, _, _, _ => none
  | fuel + 1, s1, t, sols =>
    if s1.isEmpty && t.isEmpty then some sols
    else
      match getOp s1, t with
      | some (op1, vch1, s1'), op2 :: t' =>
        if op2 == OP_PUBKEYS then
          let (keys, (op1', vch1'), s1'') := collectPubKeys s1.length (op1, vch1) s1'
          match t' with
          | op2' :: t'' =>
            (matchOp op2' op1' vch1').bind fun sol =>
              scanTemplate fuel s1'' t'' (sols ++ keys ++ sol.toList)
          | [] => none
        else
          (matchOp op2 op1 vch1).bind fun sol => scanTemplate fuel s1' t' (sols ++ sol.toList)
      | _, _ => none

/-- What `Solver` reports when it returns true. -/
structure Solution where
  typeRet : txnouttype
  /-- Written for token scripts only; `TX_NONSTANDARD` stands for the caller's
  uninitialised variable, which `ExtractDestination` then does not read. -/
  scriptTypeRet : txnouttype
  vSolutions : List Bytes
  deriving DecidableEq, Repr

/-- The multisig template's extra check on the key counts. -/
def multisigCountsOk (sols : List Bytes) : Bool :=
  let m := (sols.headD []).headD 0
  let n := (sols.getLastD []).headD 0
  !(m < 1 || n < 1 || m > n || sols.length - 2 != n.toNat)

/-- The template scan: the first template that matches decides. -/
def solveTemplates : List (txnouttype × List opcodetype) → CScript → Option Solution
  | [], _ => none
  | (type, template) :: rest, s =>
    match scanTemplate (template.length + 1) s template [] with
    | some sols =>
      if type = .TX_MULTISIG && !multisigCountsOk sols then none
      else some ⟨type, .TX_NONSTANDARD, sols⟩
    | none => solveTemplates rest s

/-- `Solver`, `none` where it returns false. -/
def solver (s : CScript) : Option Solution :=
  if isPayToScriptHash s then some ⟨.TX_SCRIPTHASH, .TX_NONSTANDARD, [(s.drop 2).take 20]⟩
  else
    match tokenScriptInfo s with
    | some info =>
      if info.nScriptType = .TX_SCRIPTHASH then some ⟨info.nType, info.nScriptType, [(s.drop 2).take 20]⟩
      else if info.nScriptType = .TX_PUBKEYHASH then some ⟨info.nType, info.nScriptType, [(s.drop 3).take 20]⟩
      else none
    | none =>
      if isOfflineStaking s then
        some ⟨.TX_OFFLINE_STAKING, .TX_NONSTANDARD, [(s.drop 5).take 20, (s.drop 31).take 20]⟩
      else
        match isWitnessProgram s with
        | some (version, program) =>
          if version = 0 && program.length = 20 then some ⟨.TX_WITNESS_V0_KEYHASH, .TX_NONSTANDARD, [program]⟩
          else if version = 0 && program.length = 32 then
            some ⟨.TX_WITNESS_V0_SCRIPTHASH, .TX_NONSTANDARD, [program]⟩
          else none
        | none =>
          if 1 ≤ s.length && byteAt s 0 == OP_RETURN && isPushOnly (s.drop 1) then
            some ⟨.TX_NULL_DATA, .TX_NONSTANDARD, []⟩
          else solveTemplates templates s

/-- `CTxDestination`. -/
inductive CTxDestination
  | noDestination
  | keyID (id : Bytes)
  | scriptID (id : Bytes)
  | keyPair (stakerID ownerID : Bytes)
  deriving DecidableEq, Repr

/-- The ids a destination names are `uint160`s, `CKeyID` and `CScriptID`: twenty bytes each. -/
def CTxDestination.HasUint160Ids : CTxDestination → Prop
  | .noDestination => True
  | .keyID id => id.length = 20
  | .scriptID id => id.length = 20
  | .keyPair stakerID ownerID => stakerID.length = 20 ∧ ownerID.length = 20

instance : DecidablePred CTxDestination.HasUint160Ids := fun dest => by
  cases dest <;> unfold CTxDestination.HasUint160Ids <;> infer_instance

/-- `CPubKey::GetLen` of a header byte. -/
def pubKeyLen (chHeader : UInt8) : ℕ :=
  if chHeader = 2 || chHeader = 3 then 33
  else if chHeader = 4 || chHeader = 6 || chHeader = 7 then 65
  else 0

/-- `CPubKey(vch).IsValid()`: the header byte gives the length the key has. -/
def pubKeyIsValid (vch : Bytes) : Bool :=
  match vch with
  | [] => false
  | header :: _ => pubKeyLen header != 0 && pubKeyLen header == vch.length

/-- `ExtractDestination`, `none` where it returns false. -/
def extractDestination (C : Crypto) (s : CScript) : Option CTxDestination :=
  match solver s with
  | none => none
  | some sol =>
    let first := sol.vSolutions.headD []
    match sol.typeRet with
    | .TX_PUBKEY => if pubKeyIsValid first then some (.keyID (C.hash160 first)) else none
    | .TX_PUBKEYHASH => some (.keyID first)
    | .TX_SCRIPTHASH => some (.scriptID first)
    | .TX_NEW_TOKEN | .TX_REISSUE_TOKEN | .TX_TRANSFER_TOKEN =>
      if sol.scriptTypeRet = .TX_SCRIPTHASH then some (.scriptID first) else some (.keyID first)
    | .TX_CLTV => some (.keyID (sol.vSolutions.getD 1 []))
    | .TX_OFFLINE_STAKING => some (.keyPair first (sol.vSolutions.getD 1 []))
    | _ => none

/-- `GetScriptForDestination`: no destination gives the empty script. -/
def getScriptForDestination : CTxDestination → CScript
  | .noDestination => []
  | .keyID id => payToPubKeyHash id
  | .scriptID id => payToScriptHash id
  | .keyPair stakerID ownerID => payToOfflineStaking stakerID ownerID

/-- `CScript() << pubkey << OP_CHECKSIG`, the script `CreateCoinStake` pays a
staking output to. -/
def payToPubKey (pubkey : Bytes) : CScript := pushData pubkey ++ [OP_CHECKSIG]

/-- A pay-to-key-hash script locked until `nLockTime`:
`<nLockTime> OP_CHECKLOCKTIMEVERIFY OP_DROP` before the key-hash template. -/
def payToPubKeyHashLocked (nLockTime : Int64) (keyID : Bytes) : CScript :=
  pushInt64 nLockTime ++ [OP_CHECKLOCKTIMEVERIFY, OP_DROP] ++ payToPubKeyHash keyID

section Lemmas

theorem getOp_pushData {b : Bytes} (hb : b.length < 76) (rest : CScript) :
    getOp (pushData b ++ rest) = some (b.length.toUInt8, b, rest) := by
  have h76 : b.length < OP_PUSHDATA1.toNat := hb
  have hle : b.length.toUInt8 ≤ OP_PUSHDATA4 := by
    simp [OP_PUSHDATA4, UInt8.le_iff_toNat_le]; omega
  have hlt : b.length.toUInt8 < OP_PUSHDATA1 := by
    simp [OP_PUSHDATA1, UInt8.lt_iff_toNat_lt]; omega
  have htoNat : b.length.toUInt8.toNat = b.length := by simp; omega
  simp [pushData, h76, getOp, hle, readPushSize, hlt, htoNat]

theorem getOp_of_pushdata4_lt {op : opcodetype} (hop : OP_PUSHDATA4 < op) (rest : CScript) :
    getOp (op :: rest) = some (op, [], rest) := by
  simp [getOp, UInt8.not_le.mpr hop]

/-- A round of the scan on an instruction and an opcode other than `OP_PUBKEYS`. -/
theorem scanTemplate_step {fuel : ℕ} {s1 s1' : CScript} {op1 op2 : opcodetype} {vch1 : Bytes}
    {t : List opcodetype} {sols : List Bytes} (hop : getOp s1 = some (op1, vch1, s1'))
    (hop2 : op2 ≠ OP_PUBKEYS) :
    scanTemplate (fuel + 1) s1 (op2 :: t) sols =
      (matchOp op2 op1 vch1).bind fun sol => scanTemplate fuel s1' t (sols ++ sol.toList) := by
  have hne : s1.isEmpty = false := by
    cases s1 with
    | nil => simp [getOp] at hop
    | cons => rfl
  simp [scanTemplate, hne, hop, hop2]

/-- A round on an opcode the template wants exactly. -/
theorem scanTemplate_exact {fuel : ℕ} {s1 s1' : CScript} {op : opcodetype} {t : List opcodetype}
    {sols : List Bytes} (hop : getOp s1 = some (op, [], s1')) (hexact : matchOp op op [] = some none)
    (hpubkeys : op ≠ OP_PUBKEYS) :
    scanTemplate (fuel + 1) s1 (op :: t) sols = scanTemplate fuel s1' t sols := by
  rw [scanTemplate_step hop hpubkeys, hexact]
  simp

theorem scanTemplate_done (fuel : ℕ) (sols : List Bytes) : scanTemplate (fuel + 1) [] [] sols = some sols := rfl

/-- A script whose first byte is no witness version is no witness program. -/
theorem isWitnessProgram_of_byte {s : CScript}
    (h : (byteAt s 0 != OP_0 && (byteAt s 0 < OP_1 || byteAt s 0 > OP_16)) = true) :
    isWitnessProgram s = none := by
  unfold isWitnessProgram
  by_cases hlen : (s.length < 4 || s.length > 42) = true
  · rw [if_pos hlen]
  · rw [if_neg hlen, if_pos h]

/-- Past its shortcuts `Solver` scans the templates: a script that is no script
hash, token script, offline stake, witness program or data carrier. -/
theorem solver_of_templates {s : CScript} (hsh : isPayToScriptHash s = false) (htok : tokenScriptInfo s = none)
    (hoff : isOfflineStaking s = false) (hwit : isWitnessProgram s = none)
    (hret : (byteAt s 0 == OP_RETURN) = false) :
    solver s = solveTemplates templates s := by
  simp only [solver, hsh, htok, hoff, hwit, hret, Bool.and_false, Bool.false_and, Bool.false_eq_true, if_false]

/-- The key-hash template matches a key-hash script instruction by instruction. -/
theorem scanTemplate_payToPubKeyHash {id : Bytes} (hid : id.length = 20) (fuel : ℕ) (sols : List Bytes) :
    scanTemplate (fuel + 6) (payToPubKeyHash id) [OP_DUP, OP_HASH160, OP_PUBKEYHASH, OP_EQUALVERIFY, OP_CHECKSIG]
      sols = some (sols ++ [id]) := by
  have hpush := getOp_pushData (b := id) (by omega) [OP_EQUALVERIFY, OP_CHECKSIG]
  rw [hid] at hpush
  have hdup : getOp (payToPubKeyHash id) =
      some (OP_DUP, [], OP_HASH160 :: (pushData id ++ [OP_EQUALVERIFY, OP_CHECKSIG])) :=
    getOp_of_pushdata4_lt (by decide) _
  have hhash := @getOp_of_pushdata4_lt OP_HASH160 (by decide) (pushData id ++ [OP_EQUALVERIFY, OP_CHECKSIG])
  have hkey : matchOp OP_PUBKEYHASH (20 : ℕ).toUInt8 id = some (some id) := by
    simp [matchOp, hid, OP_PUBKEYHASH, OP_PUBKEY]
  rw [scanTemplate_exact hdup (by decide) (by decide), scanTemplate_exact hhash (by decide) (by decide),
    scanTemplate_step hpush (by decide), hkey]
  simp only [Option.bind_some, Option.toList_some]
  rw [scanTemplate_exact (getOp_of_pushdata4_lt (by decide) _) (by decide) (by decide),
    scanTemplate_exact (getOp_of_pushdata4_lt (by decide) _) (by decide) (by decide), scanTemplate_done]

theorem solver_payToPubKeyHash {id : Bytes} (hid : id.length = 20) :
    solver (payToPubKeyHash id) = some ⟨.TX_PUBKEYHASH, .TX_NONSTANDARD, [id]⟩ := by
  have hlen : (payToPubKeyHash id).length = 25 := by simp [payToPubKeyHash, pushData, hid, OP_PUSHDATA1]
  have h0 : byteAt (payToPubKeyHash id) 0 = OP_DUP := rfl
  rw [solver_of_templates (by simp [isPayToScriptHash, hlen]) (by simp [tokenScriptInfo, hlen])
    (by simp [isOfflineStaking, hlen]) (isWitnessProgram_of_byte (by rw [h0]; decide)) (by rw [h0]; decide)]
  have hdup : getOp (payToPubKeyHash id) =
      some (OP_DUP, [], OP_HASH160 :: (pushData id ++ [OP_EQUALVERIFY, OP_CHECKSIG])) :=
    getOp_of_pushdata4_lt (by decide) _
  -- the key template breaks at once: `OP_DUP` pushes no key
  have hpk : scanTemplate 3 (payToPubKeyHash id) [OP_PUBKEY, OP_CHECKSIG] [] = none := by
    rw [scanTemplate_step hdup (by decide)]
    rfl
  have hpkh : scanTemplate 6 (payToPubKeyHash id)
      [OP_DUP, OP_HASH160, OP_PUBKEYHASH, OP_EQUALVERIFY, OP_CHECKSIG] [] = some [id] :=
    scanTemplate_payToPubKeyHash hid 0 []
  simp only [solveTemplates, templates, List.length_cons, List.length_nil, hpk, hpkh]
  rfl

theorem solver_payToScriptHash {id : Bytes} (hid : id.length = 20) :
    solver (payToScriptHash id) = some ⟨.TX_SCRIPTHASH, .TX_NONSTANDARD, [id]⟩ := by
  have hs : payToScriptHash id = OP_HASH160 :: 20 :: (id ++ [OP_EQUAL]) := by
    simp [payToScriptHash, pushData, hid, OP_PUSHDATA1]
  have hsh : isPayToScriptHash (payToScriptHash id) = true := by
    simp [isPayToScriptHash, hs, hid, byteAt]
  simp only [solver, hsh, if_true]
  rw [hs]
  simp [hid]

theorem solver_payToPubKey {pubkey : Bytes} (hlen : pubkey.length = 33)
    (htoken : byteAt pubkey 24 ≠ OP_TOKEN_SCRIPT) :
    solver (payToPubKey pubkey) = some ⟨.TX_PUBKEY, .TX_NONSTANDARD, [pubkey]⟩ := by
  have hs : payToPubKey pubkey = 33 :: (pubkey ++ [OP_CHECKSIG]) := by
    simp [payToPubKey, pushData, hlen, OP_PUSHDATA1]
  have hslen : (payToPubKey pubkey).length = 35 := by simp [hs, hlen]
  have h0 : byteAt (payToPubKey pubkey) 0 = 33 := by rw [hs]; rfl
  have h25 : byteAt (payToPubKey pubkey) 25 = byteAt pubkey 24 := by
    rw [hs]
    show byteAt (pubkey ++ [OP_CHECKSIG]) 24 = byteAt pubkey 24
    exact byteAt_append_left (by omega)
  -- a byte of the key stands where a token script has its marker
  have htok : tokenScriptInfo (payToPubKey pubkey) = none := by
    have htype : tokenScriptType (payToPubKey pubkey) = .TX_PUBKEYHASH := by
      simp [tokenScriptType, h0, OP_HASH160]
    simp [tokenScriptInfo, hslen, htype, h25, htoken]
  have hpush := getOp_pushData (b := pubkey) (by omega) [OP_CHECKSIG]
  rw [hlen] at hpush
  -- the key template matches: a push of 33 bytes, then `OP_CHECKSIG`
  have hpk : scanTemplate 3 (payToPubKey pubkey) [OP_PUBKEY, OP_CHECKSIG] [] = some [pubkey] := by
    have hkey : matchOp OP_PUBKEY (33 : ℕ).toUInt8 pubkey = some (some pubkey) := by
      simp [matchOp, hlen]
    rw [payToPubKey, scanTemplate_step hpush (by decide), hkey]
    simp only [Option.bind_some, Option.toList_some, List.nil_append]
    rw [scanTemplate_exact (getOp_of_pushdata4_lt (by decide) _) (by decide) (by decide), scanTemplate_done]
  rw [solver_of_templates (by simp [isPayToScriptHash, hslen]) htok (by simp [isOfflineStaking, hslen])
    (isWitnessProgram_of_byte (by rw [h0]; decide)) (by rw [h0]; decide)]
  simp only [solveTemplates, templates, List.length_cons, List.length_nil, hpk]
  rfl

/-- `Solver`'s shortcut for offline staking takes the two key ids out of their
places in the script. -/
theorem solver_payToOfflineStaking {stakerID ownerID : Bytes} (hs : stakerID.length = 20)
    (ho : ownerID.length = 20) :
    solver (payToOfflineStaking stakerID ownerID) =
      some ⟨.TX_OFFLINE_STAKING, .TX_NONSTANDARD, [stakerID, ownerID]⟩ := by
  have hscript : payToOfflineStaking stakerID ownerID =
      [OP_OFFLINE_STAKE, OP_IF, OP_DUP, OP_HASH160, 20] ++ stakerID ++
        ([OP_EQUALVERIFY, OP_CHECKSIG, OP_ELSE, OP_DUP, OP_HASH160, 20] ++ ownerID ++
          [OP_EQUALVERIFY, OP_CHECKSIG, OP_ENDIF]) := by
    simp [payToOfflineStaking, payToPubKeyHash, pushData, hs, ho, OP_PUSHDATA1]
  have hlen : (payToOfflineStaking stakerID ownerID).length = 54 := by simp [hscript, hs, ho]
  have hoff : isOfflineStaking (payToOfflineStaking stakerID ownerID) = true := by
    simp [isOfflineStaking, hscript, hs, ho, byteAt]
  -- the first byte is no `OP_HASH160`, and byte 25 no token marker
  have htok : tokenScriptInfo (payToOfflineStaking stakerID ownerID) = none := by
    have h0 : byteAt (payToOfflineStaking stakerID ownerID) 0 = OP_OFFLINE_STAKE := by rw [hscript]; rfl
    have h25 : byteAt (payToOfflineStaking stakerID ownerID) 25 = OP_EQUALVERIFY := by
      simp [hscript, hs, byteAt]
    have htype : tokenScriptType (payToOfflineStaking stakerID ownerID) = .TX_PUBKEYHASH := by
      simp [tokenScriptType, h0, OP_OFFLINE_STAKE, OP_HASH160]
    simp [tokenScriptInfo, hlen, htype, h25, OP_EQUALVERIFY, OP_TOKEN_SCRIPT]
  have hsh : isPayToScriptHash (payToOfflineStaking stakerID ownerID) = false := by
    simp [isPayToScriptHash, hlen]
  simp only [solver, hsh, htok, hoff, Bool.false_eq_true, if_false, if_true]
  rw [hscript]
  simp [hs, ho, List.drop_append, List.take_append]

/-- The address of a key-hash script, read back. -/
theorem extractDestination_keyID (C : Crypto) {id : Bytes} (hid : id.length = 20) :
    extractDestination C (getScriptForDestination (.keyID id)) = some (.keyID id) := by
  simp [extractDestination, getScriptForDestination, solver_payToPubKeyHash hid]

/-- The address of a script-hash script, read back. -/
theorem extractDestination_scriptID (C : Crypto) {id : Bytes} (hid : id.length = 20) :
    extractDestination C (getScriptForDestination (.scriptID id)) = some (.scriptID id) := by
  simp [extractDestination, getScriptForDestination, solver_payToScriptHash hid]

/-- A pay-to-key script pays the address of the key's hash, the address whose
own script is the key-hash one. -/
theorem extractDestination_payToPubKey (C : Crypto) {pubkey : Bytes} (hlen : pubkey.length = 33)
    (hvalid : pubKeyIsValid pubkey = true) (htoken : byteAt pubkey 24 ≠ OP_TOKEN_SCRIPT) :
    extractDestination C (payToPubKey pubkey) = some (.keyID (C.hash160 pubkey)) := by
  simp [extractDestination, solver_payToPubKey hlen htoken, hvalid]

/-- The address of an offline-staking script, read back. -/
theorem extractDestination_keyPair (C : Crypto) {stakerID ownerID : Bytes} (hs : stakerID.length = 20)
    (ho : ownerID.length = 20) :
    extractDestination C (getScriptForDestination (.keyPair stakerID ownerID)) =
      some (.keyPair stakerID ownerID) := by
  simp [extractDestination, getScriptForDestination, solver_payToOfflineStaking hs ho]

/-- The empty script, which no destination gives, pays no address. -/
theorem extractDestination_empty (C : Crypto) : extractDestination C [] = none := rfl

/-- `ExtractDestination` reads back every destination from the script
`GetScriptForDestination` makes of it, and no address from the script of no
destination. -/
theorem extractDestination_getScriptForDestination (C : Crypto) (dest : CTxDestination)
    (hdest : dest.HasUint160Ids) :
    extractDestination C (getScriptForDestination dest) = if dest = .noDestination then none else some dest := by
  cases dest with
  | noDestination => exact extractDestination_empty C
  | keyID id => simpa using extractDestination_keyID C hdest
  | scriptID id => simpa using extractDestination_scriptID C hdest
  | keyPair stakerID ownerID => simpa using extractDestination_keyPair C hdest.1 hdest.2

theorem offlineAddress_read_back :
    (CTxDestination.keyPair (List.replicate 20 7) (List.replicate 20 9)).HasUint160Ids ∧
      extractDestination Crypto.truncating
          (getScriptForDestination (.keyPair (List.replicate 20 7) (List.replicate 20 9))) =
        some (.keyPair (List.replicate 20 7) (List.replicate 20 9)) :=
  have hids : (CTxDestination.keyPair (List.replicate 20 7) (List.replicate 20 9)).HasUint160Ids := by decide
  ⟨hids, by simpa using extractDestination_getScriptForDestination Crypto.truncating _ hids⟩

end Lemmas

end AokChain
