import AokChain.Primitives.Transaction

/-!
# Scripts as byte strings

`script/script.h` and `script/script.cpp`: the opcodes, `CScript::GetOp`, which
reads one instruction off the front of a script, and the byte-level shape tests
(`IsPayToPublicKeyHash`, `IsOfflineStaking`, ...).  An opcode is the byte that
encodes it, as `opcodetype` is; an index past the end of a script reads `0`.
-/

namespace AokChain
open Serial

abbrev opcodetype := UInt8

def OP_0 : opcodetype := 0x00
def OP_PUSHDATA1 : opcodetype := 0x4c
def OP_PUSHDATA2 : opcodetype := 0x4d
def OP_PUSHDATA4 : opcodetype := 0x4e
def OP_1NEGATE : opcodetype := 0x4f
def OP_RESERVED : opcodetype := 0x50
def OP_1 : opcodetype := 0x51
def OP_16 : opcodetype := 0x60
def OP_NOP : opcodetype := 0x61
def OP_VER : opcodetype := 0x62
def OP_IF : opcodetype := 0x63
def OP_NOTIF : opcodetype := 0x64
def OP_VERIF : opcodetype := 0x65
def OP_VERNOTIF : opcodetype := 0x66
def OP_ELSE : opcodetype := 0x67
def OP_ENDIF : opcodetype := 0x68
def OP_VERIFY : opcodetype := 0x69
def OP_RETURN : opcodetype := 0x6a
def OP_TOALTSTACK : opcodetype := 0x6b
def OP_FROMALTSTACK : opcodetype := 0x6c
def OP_2DROP : opcodetype := 0x6d
def OP_2DUP : opcodetype := 0x6e
def OP_3DUP : opcodetype := 0x6f
def OP_2OVER : opcodetype := 0x70
def OP_2ROT : opcodetype := 0x71
def OP_2SWAP : opcodetype := 0x72
def OP_IFDUP : opcodetype := 0x73
def OP_DEPTH : opcodetype := 0x74
def OP_DROP : opcodetype := 0x75
def OP_DUP : opcodetype := 0x76
def OP_NIP : opcodetype := 0x77
def OP_OVER : opcodetype := 0x78
def OP_PICK : opcodetype := 0x79
def OP_ROLL : opcodetype := 0x7a
def OP_ROT : opcodetype := 0x7b
def OP_SWAP : opcodetype := 0x7c
def OP_TUCK : opcodetype := 0x7d
def OP_CAT : opcodetype := 0x7e
def OP_SUBSTR : opcodetype := 0x7f
def OP_LEFT : opcodetype := 0x80
def OP_RIGHT : opcodetype := 0x81
def OP_SIZE : opcodetype := 0x82
def OP_INVERT : opcodetype := 0x83
def OP_AND : opcodetype := 0x84
def OP_OR : opcodetype := 0x85
def OP_XOR : opcodetype := 0x86
def OP_EQUAL : opcodetype := 0x87
def OP_EQUALVERIFY : opcodetype := 0x88
def OP_1ADD : opcodetype := 0x8b
def OP_1SUB : opcodetype := 0x8c
def OP_2MUL : opcodetype := 0x8d
def OP_2DIV : opcodetype := 0x8e
def OP_NEGATE : opcodetype := 0x8f
def OP_ABS : opcodetype := 0x90
def OP_NOT : opcodetype := 0x91
def OP_0NOTEQUAL : opcodetype := 0x92
def OP_ADD : opcodetype := 0x93
def OP_SUB : opcodetype := 0x94
def OP_MUL : opcodetype := 0x95
def OP_DIV : opcodetype := 0x96
def OP_MOD : opcodetype := 0x97
def OP_LSHIFT : opcodetype := 0x98
def OP_RSHIFT : opcodetype := 0x99
def OP_BOOLAND : opcodetype := 0x9a
def OP_BOOLOR : opcodetype := 0x9b
def OP_NUMEQUAL : opcodetype := 0x9c
def OP_NUMEQUALVERIFY : opcodetype := 0x9d
def OP_NUMNOTEQUAL : opcodetype := 0x9e
def OP_LESSTHAN : opcodetype := 0x9f
def OP_GREATERTHAN : opcodetype := 0xa0
def OP_LESSTHANOREQUAL : opcodetype := 0xa1
def OP_GREATERTHANOREQUAL : opcodetype := 0xa2
def OP_MIN : opcodetype := 0xa3
def OP_MAX : opcodetype := 0xa4
def OP_WITHIN : opcodetype := 0xa5
def OP_RIPEMD160 : opcodetype := 0xa6
def OP_SHA1 : opcodetype := 0xa7
def OP_SHA256 : opcodetype := 0xa8
def OP_HASH160 : opcodetype := 0xa9
def OP_HASH256 : opcodetype := 0xaa
def OP_CODESEPARATOR : opcodetype := 0xab
def OP_CHECKSIG : opcodetype := 0xac
def OP_CHECKSIGVERIFY : opcodetype := 0xad
def OP_CHECKMULTISIG : opcodetype := 0xae
def OP_CHECKMULTISIGVERIFY : opcodetype := 0xaf
def OP_NOP1 : opcodetype := 0xb0
def OP_CHECKLOCKTIMEVERIFY : opcodetype := 0xb1
def OP_CHECKSEQUENCEVERIFY : opcodetype := 0xb2
def OP_NOP4 : opcodetype := 0xb3
def OP_NOP10 : opcodetype := 0xb9
def OP_TOKEN_SCRIPT : opcodetype := 0xc0
def OP_OFFLINE_STAKE : opcodetype := 0xc6
def OP_INVALIDOPCODE : opcodetype := 0xff

def MAX_SCRIPT_ELEMENT_SIZE : ℕ := 520
def MAX_OPS_PER_SCRIPT : ℕ := 201
def MAX_PUBKEYS_PER_MULTISIG : ℕ := 20
def MAX_SCRIPT_SIZE : ℕ := 10000
def MAX_STACK_SIZE : ℕ := 1000
def LOCKTIME_THRESHOLD : ℕ := 500000000

/-- `(*this)[i]`; reading past the end gives `0`. -/
def byteAt (s : CScript) (i : ℕ) : UInt8 := s.getD i 0

section ByteAt

theorem byteAt_append_left {l l' : Bytes} {i : ℕ} (h : i < l.length) : byteAt (l ++ l') i = byteAt l i := by
  simp [byteAt, List.getD_eq_getElem?_getD, List.getElem?_append_left h]

theorem byteAt_append_right {l l' : Bytes} {i : ℕ} (h : l.length ≤ i) :
    byteAt (l ++ l') i = byteAt l' (i - l.length) := by
  simp [byteAt, List.getD_eq_getElem?_getD, List.getElem?_append_right h]

theorem byteAt_drop (l : Bytes) (k i : ℕ) : byteAt (l.drop k) i = byteAt l (k + i) := by
  simp [byteAt, List.getD_eq_getElem?_getD, List.getElem?_drop]

theorem byteAt_take {l : Bytes} {n i : ℕ} (h : i < n) : byteAt (l.take n) i = byteAt l i := by
  simp [byteAt, List.getD_eq_getElem?_getD, h]

/-- Scripts of one length with the same byte at every place are equal. -/
theorem byteAt_ext {s t : Bytes} (hlen : s.length = t.length)
    (h : ∀ i < s.length, byteAt s i = byteAt t i) : s = t := by
  apply List.ext_getElem hlen
  intro i hs ht
  simpa [byteAt, List.getD_eq_getElem?_getD, List.getElem?_eq_getElem hs,
    List.getElem?_eq_getElem ht] using h i hs

/-- A script is a fixed prefix, `n` bytes of its own and a fixed suffix when it
has the prefix's and the suffix's bytes in their places: what a template with
one slot matches. -/
theorem append_slice_eq {s pre post : Bytes} {n : ℕ} (hlen : s.length = pre.length + n + post.length)
    (hpre : ∀ i < pre.length, byteAt s i = byteAt pre i)
    (hpost : ∀ i < post.length, byteAt s (pre.length + n + i) = byteAt post i) :
    pre ++ (s.drop pre.length).take n ++ post = s := by
  have hmid : ((s.drop pre.length).take n).length = n := by simp; omega
  apply byteAt_ext (by simp; omega)
  intro i hi
  simp only [List.length_append, hmid] at hi
  -- the prefix, the slot and the suffix, place by place
  by_cases h1 : i < pre.length
  · rw [byteAt_append_left (by simp [hmid]; omega), byteAt_append_left h1, hpre i h1]
  · by_cases h2 : i < pre.length + n
    · rw [byteAt_append_left (by simp [hmid]; omega), byteAt_append_right (by omega),
        byteAt_take (by omega), byteAt_drop, Nat.add_sub_cancel' (by omega)]
    · have hs := hpost (i - (pre.length + n)) (by omega)
      rw [byteAt_append_right (by simp [hmid]; omega), List.length_append, hmid, ← hs,
        Nat.add_sub_cancel' (by omega)]

end ByteAt

/-- The width of the size field of `OP_PUSHDATA1`, `2` and `4`. -/
def pushSizeWidth (opcode : opcodetype) : ℕ :=
  if opcode = OP_PUSHDATA1 then 1 else if opcode = OP_PUSHDATA2 then 2 else 4

/-- The size of a push and the bytes after its size field, for a push opcode. -/
def readPushSize (opcode : opcodetype) (pc : CScript) : Option (ℕ × CScript) :=
  if opcode < OP_PUSHDATA1 then some (opcode.toNat, pc)
  else if pc.length < pushSizeWidth opcode then none
  else some (leValue (pc.take (pushSizeWidth opcode)), pc.drop (pushSizeWidth opcode))

/-- `CScript::GetOp2`: one instruction off the front of `s`, as its opcode, the
bytes it pushes and the rest of the script.  `none` when the script is empty or
a push runs past its end. -/
def getOp (s : CScript) : Option (opcodetype × Bytes × CScript) :=
  match s with
  | [] => none
  | opcode :: pc =>
    if opcode ≤ OP_PUSHDATA4 then
      match readPushSize opcode pc with
      | none => none
      | some (nSize, pc) =>
        if pc.length < nSize then none else some (opcode, pc.take nSize, pc.drop nSize)
    else some (opcode, [], pc)

theorem readPushSize_length {opcode : opcodetype} {pc rest : CScript} {n : ℕ}
    (h : readPushSize opcode pc = some (n, rest)) : rest.length ≤ pc.length := by
  unfold readPushSize at h
  split at h
  · cases h; exact le_refl _
  · split at h
    · cases h
    · cases h; simp

/-- Every instruction consumes at least its opcode byte. -/
theorem getOp_rest_length {s : CScript} {op : opcodetype} {data rest : CScript}
    (h : getOp s = some (op, data, rest)) : rest.length < s.length := by
  match s, h with
  | opcode :: pc, h =>
    simp only [getOp] at h
    split at h
    · split at h
      · cases h
      · rename_i nSize pc' hsize
        have hle := readPushSize_length hsize
        split at h
        · cases h
        · cases h; simp; omega
    · cases h; simp

/-- `CScript::DecodeOP_N` on `OP_0` and `OP_1` .. `OP_16`. -/
def decodeOP_N (opcode : opcodetype) : ℕ := if opcode = OP_0 then 0 else opcode.toNat - (OP_1.toNat - 1)

def isPayToScriptHash (s : CScript) : Bool :=
  s.length == 23 && byteAt s 0 == OP_HASH160 && byteAt s 1 == 0x14 && byteAt s 22 == OP_EQUAL

def isPayToPublicKeyHash (s : CScript) : Bool :=
  s.length == 25 && byteAt s 0 == OP_DUP && byteAt s 1 == OP_HASH160 && byteAt s 2 == 0x14 &&
    byteAt s 23 == OP_EQUALVERIFY && byteAt s 24 == OP_CHECKSIG

/-- `CScript::IsPayToPublicKeyHashLocked`: a lock-time push, `OP_CHECKLOCKTIMEVERIFY
OP_DROP` and a pay-to-pubkey-hash template, the push length read from byte `0`. -/
def isPayToPublicKeyHashLocked (s : CScript) : Bool :=
  if s.length ≥ 28 then
    let nOffset := if s.length = 28 then 0 else (byteAt s 0).toNat
    if s.length < nOffset + 28 then false
    else byteAt s (nOffset + 1) == OP_CHECKLOCKTIMEVERIFY && byteAt s (nOffset + 2) == OP_DROP &&
      byteAt s (nOffset + 3) == OP_DUP && byteAt s (nOffset + 4) == OP_HASH160 &&
      byteAt s (nOffset + 5) == 0x14 && byteAt s (nOffset + 26) == OP_EQUALVERIFY &&
      byteAt s (nOffset + 27) == OP_CHECKSIG
  else false

def isPayToPublicKey (s : CScript) : Bool :=
  if s.length = 35 then (byteAt s 1 == 0x02 || byteAt s 1 == 0x03) && byteAt s 34 == OP_CHECKSIG
  else if s.length = 67 then byteAt s 1 == 0x04 && byteAt s 66 == OP_CHECKSIG
  else false

/-- `OP_OFFLINE_STAKE OP_IF <staker P2PKH> OP_ELSE <owner P2PKH> OP_ENDIF`. -/
def isOfflineStaking (s : CScript) : Bool :=
  s.length == 54 && byteAt s 0 == OP_OFFLINE_STAKE && byteAt s 1 == OP_IF &&
    byteAt s 2 == OP_DUP && byteAt s 3 == OP_HASH160 && byteAt s 4 == 0x14 &&
    byteAt s 25 == OP_EQUALVERIFY && byteAt s 26 == OP_CHECKSIG && byteAt s 27 == OP_ELSE &&
    byteAt s 28 == OP_DUP && byteAt s 29 == OP_HASH160 && byteAt s 30 == 0x14 &&
    byteAt s 51 == OP_EQUALVERIFY && byteAt s 52 == OP_CHECKSIG && byteAt s 53 == OP_ENDIF

/-- `CScript::IsWitnessProgram`: the version and the program. -/
def isWitnessProgram (s : CScript) : Option (ℕ × Bytes) :=
  if s.length < 4 || s.length > 42 then none
  else if byteAt s 0 != OP_0 && (byteAt s 0 < OP_1 || byteAt s 0 > OP_16) then none
  else if (byteAt s 1).toNat + 2 = s.length then some (decodeOP_N (byteAt s 0), s.drop 2)
  else none

/-- One instruction as `GetOp` returns it, with the script that follows it. -/
structure Instruction where
  opcode : opcodetype
  data : Bytes
  rest : CScript
  deriving DecidableEq, Repr

/-- `GetOp` applied until the script ends or an instruction does not parse, with
at most `fuel` instructions. -/
def parseFuel : ℕ → CScript → List Instruction × Bool
  | 0, s => ([], s.isEmpty)
  | fuel + 1, s =>
    match getOp s with
    | none => ([], s.isEmpty)
    | some (opcode, data, rest) =>
      let r := parseFuel fuel rest
      (⟨opcode, data, rest⟩ :: r.1, r.2)

/-- The instructions of a script, and whether `GetOp` reads it to its end.  Each
instruction consumes a byte, so `s.length` steps always suffice. -/
def parseScript (s : CScript) : List Instruction × Bool := parseFuel s.length s

/-- Past the length of the script, more fuel changes nothing. -/
theorem parseFuel_stable {n m : ℕ} {s : CScript} (hn : s.length ≤ n) (hm : s.length ≤ m) :
    parseFuel n s = parseFuel m s := by
  induction n generalizing s m with
  | zero =>
    obtain rfl : s = [] := List.eq_nil_of_length_eq_zero (by omega)
    cases m <;> rfl
  | succ n ih =>
    cases m with
    | zero =>
      obtain rfl : s = [] := List.eq_nil_of_length_eq_zero (by omega)
      rfl
    | succ m =>
      simp only [parseFuel]
      cases hop : getOp s with
      | none => rfl
      | some r =>
        obtain ⟨opcode, data, rest⟩ := r
        have hlt := getOp_rest_length hop
        simp only [ih (s := rest) (m := m) (by omega) (by omega)]

theorem parseScript_of_getOp_none {s : CScript} (h : getOp s = none) :
    parseScript s = ([], s.isEmpty) := by
  unfold parseScript
  cases s with
  | nil => rfl
  | cons b bs => simp only [List.length_cons, parseFuel, h]

theorem parseScript_of_getOp_some {s : CScript} {opcode : opcodetype} {data rest : CScript}
    (h : getOp s = some (opcode, data, rest)) :
    parseScript s = (⟨opcode, data, rest⟩ :: (parseScript rest).1, (parseScript rest).2) := by
  have hlt := getOp_rest_length h
  unfold parseScript
  cases s with
  | nil => simp [getOp] at h
  | cons b bs =>
    simp only [List.length_cons] at hlt
    simp only [List.length_cons, parseFuel, h, parseFuel_stable (s := rest) (n := bs.length)
      (m := rest.length) (by omega) le_rfl]

/-- `CScript::IsPushOnly`: the whole script parses, into pushes and `OP_RESERVED`. -/
def isPushOnly (s : CScript) : Bool :=
  (parseScript s).2 && (parseScript s).1.all (fun i => i.opcode ≤ OP_16)

/-- The loop of `CScript::GetSigOpCount(bool)` from the previous opcode
`lastOpcode`; `GetOp` failing ends it, so it runs over the parsed instructions. -/
def sigOpCountFrom (fAccurate : Bool) : opcodetype → List Instruction → ℕ
  | _, [] => 0
  | lastOpcode, i :: is =>
    let n :=
      if i.opcode = OP_CHECKSIG || i.opcode = OP_CHECKSIGVERIFY then 1
      else if i.opcode = OP_CHECKMULTISIG || i.opcode = OP_CHECKMULTISIGVERIFY then
        if fAccurate && OP_1 ≤ lastOpcode && lastOpcode ≤ OP_16 then decodeOP_N lastOpcode
        else MAX_PUBKEYS_PER_MULTISIG
      else 0
    n + sigOpCountFrom fAccurate i.opcode is

def getSigOpCount (s : CScript) (fAccurate : Bool) : ℕ :=
  sigOpCountFrom fAccurate OP_INVALIDOPCODE (parseScript s).1

/-- `CScript::GetSigOpCount(const CScript& scriptSig)`: for a pay-to-script-hash
script, the accurate count of the redeem script, the last push of `scriptSig`. -/
def getSigOpCountP2SH (s scriptSig : CScript) : ℕ :=
  if !isPayToScriptHash s then getSigOpCount s true
  else
    let (ops, ok) := parseScript scriptSig
    if !ok || ops.any (fun i => i.opcode > OP_16) then 0
    else getSigOpCount ((ops.getLast?.map Instruction.data).getD []) true

/-- `CScript << std::vector<unsigned char>`: the shortest push opcode, then the bytes. -/
def pushData (b : Bytes) : CScript :=
  (if b.length < OP_PUSHDATA1.toNat then [b.length.toUInt8]
   else if b.length ≤ 0xff then [OP_PUSHDATA1, b.length.toUInt8]
   else if b.length ≤ 0xffff then OP_PUSHDATA2 :: leBytes 2 b.length
   else OP_PUSHDATA4 :: leBytes 4 b.length) ++ b

/-- The base-256 digits of `n`, least significant first, without leading zero
digits; `k` bounds their number. -/
def minimalLEBytes : ℕ → ℕ → Bytes
  | 0, _ => []
  | k + 1, n => if n = 0 then [] else UInt8.ofNat n :: minimalLEBytes k (n / 256)

/-- `CScriptNum::serialize`: sign and magnitude, little-endian, with a sign
byte added when the top bit of the magnitude is taken. -/
def scriptNumSerialize (value : Int64) : Bytes :=
  if value = 0 then []
  else
    let neg := value < 0
    let result := minimalLEBytes 8 value.toInt.natAbs
    match result.getLast? with
    | some last =>
      if last &&& 0x80 ≠ 0 then result ++ [if neg then 0x80 else 0]
      else if neg then result.dropLast ++ [last ||| 0x80]
      else result
    | none => result

/-- `CScript << int64_t` (`push_int64`): small numbers as `OP_1NEGATE`, `OP_0` and
`OP_1` .. `OP_16`, others as a push of their script number. -/
def pushInt64 (n : Int64) : CScript :=
  if n = -1 || (1 ≤ n && n ≤ 16) then [UInt8.ofNat (n.toInt + OP_1.toNat - 1).toNat]
  else if n = 0 then [OP_0]
  else pushData (scriptNumSerialize n)

/-- `GetScriptForDestination` of a key id: `OP_DUP OP_HASH160 <id> OP_EQUALVERIFY OP_CHECKSIG`. -/
def payToPubKeyHash (keyID : Bytes) : CScript :=
  [OP_DUP, OP_HASH160] ++ pushData keyID ++ [OP_EQUALVERIFY, OP_CHECKSIG]

/-- `GetScriptForDestination` of a script id: `OP_HASH160 <id> OP_EQUAL`. -/
def payToScriptHash (scriptID : Bytes) : CScript := [OP_HASH160] ++ pushData scriptID ++ [OP_EQUAL]

/-- `GetScriptForDestination` of a key pair: the staker's key-hash script in the
branch a coin stake takes, the owner's in the other. -/
def payToOfflineStaking (stakerID ownerID : Bytes) : CScript :=
  [OP_OFFLINE_STAKE, OP_IF] ++ payToPubKeyHash stakerID ++ [OP_ELSE] ++ payToPubKeyHash ownerID ++ [OP_ENDIF]

/-- `CScript::Find`: how many instructions carry the opcode. -/
def findOp (s : CScript) (op : opcodetype) : ℕ := ((parseScript s).1.filter (·.opcode == op)).length

end AokChain
