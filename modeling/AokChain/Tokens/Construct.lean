import AokChain.Tokens.Verify

/-!
# Token scripts as the issuing code writes them

`ConstructTransaction` of `CNewToken`, `CTokenTransfer` and `CReissueToken`,
and `CNewToken::ConstructOwnerTransaction`, append to a destination script
`OP_TOKEN_SCRIPT`, one push of a message (the marker `a l p`, a type byte and
the serialized payload) and `OP_DROP`.  A message of 76 bytes or more is pushed
by `OP_PUSHDATA1` and a length byte, and `SearchForToken` tells the two pushes
apart by whether the byte at its start is `TOKEN_AOK`.  The length byte of a
message of exactly 97 bytes is `TOKEN_AOK`, so the search takes it for the
marker and fails on the byte after it: the script is no token script.  Every
other message shorter than 256 bytes reads back through `IsTokenScript` and the
payload readers.
-/

namespace AokChain
open Serial

section Construct

/-- `script << OP_TOKEN_SCRIPT << ToByteVector(vchMessage) << OP_DROP`, with the
message of the marker, a type byte and a payload. -/
def constructTokenScript (type : UInt8) (payload : Bytes) (script : CScript) : CScript :=
  script ++ [OP_TOKEN_SCRIPT] ++ pushData ([TOKEN_AOK, TOKEN_LOCAL, TOKEN_PAYMENT, type] ++ payload) ++ [OP_DROP]

/-- The writing half of `ReadWriteIPFSHash`: a hash of 34 bytes as the type
byte and the string of its last 32 bytes; any other hash writes nothing. -/
def writeIPFSHash (strIPFSHash : Bytes) : Bytes :=
  if strIPFSHash.length = 34 then [IPFS_SHA2_256] ++ serBytes (strIPFSHash.drop 2) else []

/-- `CNewToken::SerializationOp` writing. -/
def serNewToken (t : CNewToken) : Bytes :=
  serBytes t.strName ++ serInt64 t.nAmount ++ serInt8 t.units ++ serInt8 t.nReissuable ++ serInt8 t.nHasIPFS ++
    (if t.nHasIPFS = 1 then writeIPFSHash t.strIPFSHash else [])

/-- `CReissueToken::SerializationOp` writing. -/
def serReissueToken (t : CReissueToken) : Bytes :=
  serBytes t.strName ++ serInt64 t.nAmount ++ serInt8 t.nUnits ++ serInt8 t.nReissuable ++
    writeIPFSHash t.strIPFSHash

def CNewToken.constructTransaction (t : CNewToken) (script : CScript) : CScript :=
  constructTokenScript TOKEN_ISSUE (serNewToken t) script

/-- `CNewToken::ConstructOwnerTransaction`: the payload is the string of the
name and the owner tag. -/
def CNewToken.constructOwnerTransaction (t : CNewToken) (script : CScript) : CScript :=
  constructTokenScript TOKEN_OWNER_KEY (serBytes (t.strName ++ OWNER_TAG)) script

def CReissueToken.constructTransaction (t : CReissueToken) (script : CScript) : CScript :=
  constructTokenScript TOKEN_AOK (serReissueToken t) script

/-- `CReissueToken::IsNull`. -/
def CReissueToken.isNull (t : CReissueToken) : Bool := t.strName.isEmpty || t.nAmount < 0

theorem CTokenTransfer.constructTransaction_eq (t : CTokenTransfer) (script : CScript) :
    t.constructTransaction script = constructTokenScript TOKEN_TRANSFER (serTokenTransfer t) script := rfl

end Construct

section Layout

theorem pushData_of_lt {b : Bytes} (h : b.length < 76) : pushData b = b.length.toUInt8 :: b := by
  simp [pushData, OP_PUSHDATA1, h]

theorem pushData_of_le {b : Bytes} (h₁ : 76 ≤ b.length) (h₂ : b.length ≤ 255) :
    pushData b = OP_PUSHDATA1 :: b.length.toUInt8 :: b := by
  have hnot : ¬ b.length < OP_PUSHDATA1.toNat := by simp [OP_PUSHDATA1]; omega
  simp [pushData, hnot, h₂]

theorem byteAt_append_length_add (pre l : Bytes) (k : ℕ) : byteAt (pre ++ l) (pre.length + k) = byteAt l k := by
  rw [byteAt_append_right (by omega), Nat.add_sub_cancel_left]

theorem byteAt_append_length (pre l : Bytes) : byteAt (pre ++ l) pre.length = byteAt l 0 :=
  byteAt_append_length_add pre l 0

/-- The bytes a push leaves in front of the marker when `SearchForToken` starts
on the byte after the push opcode: none for a direct push, the length byte
for `OP_PUSHDATA1`. -/
def markerPad (msg : Bytes) : Bytes := if msg.length < 76 then [] else [msg.length.toUInt8]

/-- A constructed script is the destination, `OP_TOKEN_SCRIPT`, the push opcode,
the pad and the message. -/
theorem constructTokenScript_eq (type : UInt8) {payload : Bytes} (script : CScript)
    (hlen : payload.length + 4 ≤ 255) :
    constructTokenScript type payload script =
      (script ++ [OP_TOKEN_SCRIPT, (pushData ([TOKEN_AOK, TOKEN_LOCAL, TOKEN_PAYMENT, type] ++ payload)).head!]) ++
        (markerPad ([TOKEN_AOK, TOKEN_LOCAL, TOKEN_PAYMENT, type] ++ payload) ++
          (TOKEN_AOK :: TOKEN_LOCAL :: TOKEN_PAYMENT :: type :: (payload ++ [OP_DROP]))) := by
  unfold constructTokenScript markerPad
  by_cases hshort : ([TOKEN_AOK, TOKEN_LOCAL, TOKEN_PAYMENT, type] ++ payload).length < 76
  · rw [pushData_of_lt hshort, if_pos hshort]
    simp
  · rw [pushData_of_le (by omega) (by simp; omega), if_neg hshort]
    simp

theorem markerPad_length_le (msg : Bytes) : (markerPad msg).length ≤ 1 := by
  unfold markerPad
  split <;> simp

section Search

variable (pre rest : Bytes)

/-- A direct push: the marker starts where the search does. -/
theorem searchForToken_direct :
    searchForToken (pre ++ TOKEN_AOK :: TOKEN_LOCAL :: TOKEN_PAYMENT :: rest) pre.length =
      some (pre.length + 3) := by
  simp only [searchForToken, byteAt_append_length, byteAt_append_length_add]
  simp [byteAt]

/-- A push by `OP_PUSHDATA1` whose length byte is not `TOKEN_AOK`: the marker
starts one byte later. -/
theorem searchForToken_shifted {b : UInt8} (hb : b ≠ TOKEN_AOK) :
    searchForToken (pre ++ b :: TOKEN_AOK :: TOKEN_LOCAL :: TOKEN_PAYMENT :: rest) pre.length =
      some (pre.length + 4) := by
  simp only [searchForToken, byteAt_append_length, byteAt_append_length_add]
  simp [byteAt, hb]

/-- A length byte equal to `TOKEN_AOK` is taken for the marker, and the marker
behind it is not `TOKEN_LOCAL` at the next byte. -/
theorem searchForToken_collision :
    searchForToken (pre ++ TOKEN_AOK :: TOKEN_AOK :: rest) pre.length = none := by
  simp only [searchForToken, byteAt_append_length, byteAt_append_length_add]
  simp [byteAt, TOKEN_AOK, TOKEN_LOCAL]

/-- Where the search for the marker ends on a constructed message: past the
pad and the marker, unless the pad is a length byte equal to `TOKEN_AOK`. -/
theorem searchForToken_markerPad (pre : Bytes) (type : UInt8) {payload : Bytes} (hlen : payload.length + 4 ≤ 255) :
    searchForToken (pre ++ (markerPad ([TOKEN_AOK, TOKEN_LOCAL, TOKEN_PAYMENT, type] ++ payload) ++
        (TOKEN_AOK :: TOKEN_LOCAL :: TOKEN_PAYMENT :: type :: (payload ++ [OP_DROP])))) pre.length =
      if payload.length + 4 = 97 then none
      else some (pre.length + (markerPad ([TOKEN_AOK, TOKEN_LOCAL, TOKEN_PAYMENT, type] ++ payload)).length + 3) := by
  unfold markerPad
  split
  · next hshort =>
    rw [if_neg (by simp at hshort; omega)]
    simpa using searchForToken_direct pre (type :: (payload ++ [OP_DROP]))
  · next hlong =>
    simp only [List.length_append, List.length_cons, List.length_nil, List.singleton_append]
    by_cases h97 : payload.length + 4 = 97
    · -- the length byte is `TOKEN_AOK` itself
      have hbyte : (payload.length + 4).toUInt8 = TOKEN_AOK := by rw [h97]; rfl
      rw [if_pos h97, Nat.add_comm 4, hbyte]
      exact searchForToken_collision pre _
    · have hbyte : (4 + payload.length).toUInt8 ≠ TOKEN_AOK := by
        intro h
        have h' := congrArg UInt8.toNat h
        rw [Nat.toUInt8, UInt8.toNat_ofNat_of_lt' (by unfold UInt8.size; omega)] at h'
        exact h97 (by rw [show TOKEN_AOK.toNat = 97 from rfl] at h'; omega)
      rw [if_neg h97, searchForToken_shifted pre _ hbyte]

end Search

end Layout

section Classify

/-- The kind `IsTokenScript` gives the type byte it finds, in the order of its
tests; `fLong` is its size test for an issue. -/
def tokenKind (type : UInt8) (fLong : Bool) : Option (txnouttype × Bool) :=
  if type == TOKEN_TRANSFER then some (.TX_TRANSFER_TOKEN, false)
  else if type == TOKEN_ISSUE && fLong then some (.TX_NEW_TOKEN, false)
  else if type == TOKEN_OWNER_KEY then some (.TX_NEW_TOKEN, true)
  else if type == TOKEN_AOK then some (.TX_REISSUE_TOKEN, false)
  else none

/-- The template test reads the first 23 bytes only. -/
theorem tokenScriptType_append {D : CScript} (hD : 23 ≤ D.length) (rest : Bytes) :
    tokenScriptType (D ++ rest) = tokenScriptType D := by
  simp only [tokenScriptType, byteAt_append_left (show 0 < D.length by omega),
    byteAt_append_left (show 1 < D.length by omega), byteAt_append_left (show 22 < D.length by omega)]

theorem tokenScriptType_of_keyHash {D : CScript} (hD : isPayToPublicKeyHash D = true) :
    tokenScriptType D = .TX_PUBKEYHASH := by
  simp only [isPayToPublicKeyHash, Bool.and_eq_true, beq_iff_eq] at hD
  simp [tokenScriptType, hD.1.1.1.1.2, OP_DUP, OP_HASH160]

theorem tokenScriptType_of_scriptHash {D : CScript} (hD : isPayToScriptHash D = true) :
    tokenScriptType D = .TX_SCRIPTHASH := by
  simp only [isPayToScriptHash, Bool.and_eq_true, beq_iff_eq] at hD
  simp [tokenScriptType, hD.1.1.2, hD.1.2, hD.2]

theorem tokenScriptType_of_tokenDestination {D : CScript}
    (hD : isPayToPublicKeyHash D = true ∨ isPayToScriptHash D = true) :
    tokenScriptType D = if isPayToScriptHash D then .TX_SCRIPTHASH else .TX_PUBKEYHASH := by
  rcases hD with hD | hD
  · -- a key-hash script has 25 bytes, a script-hash script 23
    have hlen : D.length ≠ 23 := by
      simp only [isPayToPublicKeyHash, Bool.and_eq_true, beq_iff_eq] at hD
      omega
    rw [tokenScriptType_of_keyHash hD, if_neg (by simp [isPayToScriptHash, hlen])]
  · rw [tokenScriptType_of_scriptHash hD, if_pos hD]

theorem length_of_tokenDestination {D : CScript}
    (hD : isPayToPublicKeyHash D = true ∨ isPayToScriptHash D = true) : D.length = 23 ∨ D.length = 25 := by
  rcases hD with hD | hD
  · simp only [isPayToPublicKeyHash, Bool.and_eq_true, beq_iff_eq] at hD
    exact .inr hD.1.1.1.1.1
  · simp only [isPayToScriptHash, Bool.and_eq_true, beq_iff_eq] at hD
    exact .inl hD.1.1.1

/-- Behind either template, `IsTokenScript` searches for the marker two bytes
past `OP_TOKEN_SCRIPT`. -/
theorem tokenIndex_eq {D : CScript} (hD : isPayToPublicKeyHash D = true ∨ isPayToScriptHash D = true)
    (op : UInt8) (rest : Bytes) :
    (if tokenScriptType (D ++ [OP_TOKEN_SCRIPT, op] ++ rest) = .TX_SCRIPTHASH &&
          byteAt (D ++ [OP_TOKEN_SCRIPT, op] ++ rest) 23 == OP_TOKEN_SCRIPT then
        searchForToken (D ++ [OP_TOKEN_SCRIPT, op] ++ rest) 25
      else if byteAt (D ++ [OP_TOKEN_SCRIPT, op] ++ rest) 25 == OP_TOKEN_SCRIPT then
        searchForToken (D ++ [OP_TOKEN_SCRIPT, op] ++ rest) 27
      else none) =
      searchForToken (D ++ [OP_TOKEN_SCRIPT, op] ++ rest) (D.length + 2) := by
  have hlen := length_of_tokenDestination hD
  have htype : tokenScriptType (D ++ [OP_TOKEN_SCRIPT, op] ++ rest) = tokenScriptType D := by
    rw [List.append_assoc]
    exact tokenScriptType_append (by omega) _
  have hmarker : byteAt (D ++ [OP_TOKEN_SCRIPT, op] ++ rest) D.length = OP_TOKEN_SCRIPT := by
    rw [List.append_assoc, byteAt_append_length]
    rfl
  rcases hD with hD | hD
  · -- the key-hash template: the marker at 25, the search from 27
    have h25 : D.length = 25 := by
      simp only [isPayToPublicKeyHash, Bool.and_eq_true, beq_iff_eq] at hD
      exact hD.1.1.1.1.1
    rw [htype, tokenScriptType_of_keyHash hD, ← h25, hmarker, h25]
    simp
  · -- the script-hash template: the marker at 23, the search from 25
    have h23 : D.length = 23 := by
      simp only [isPayToScriptHash, Bool.and_eq_true, beq_iff_eq] at hD
      exact hD.1.1.1
    rw [htype, tokenScriptType_of_scriptHash hD, ← h23, hmarker, h23]
    simp

/-- `IsTokenScript` on a constructed script: for a message of any length below
256 but 97, the kind of its type byte, the destination's template and the
index past the type byte; for a message of 97 bytes, no token script. -/
theorem tokenScriptInfo_constructTokenScript {D : CScript}
    (hD : isPayToPublicKeyHash D = true ∨ isPayToScriptHash D = true) (type : UInt8) {payload : Bytes}
    (h2 : 2 ≤ payload.length) (hlen : payload.length + 4 ≤ 255) :
    tokenScriptInfo (constructTokenScript type payload D) =
      if payload.length + 4 = 97 then none
      else (tokenKind type (39 < (constructTokenScript type payload D).length)).map fun k =>
        ⟨k.1, tokenScriptType D, k.2,
          D.length + 2 + (markerPad ([TOKEN_AOK, TOKEN_LOCAL, TOKEN_PAYMENT, type] ++ payload)).length + 4⟩ := by
  have hDlen := length_of_tokenDestination hD
  have hpad := markerPad_length_le ([TOKEN_AOK, TOKEN_LOCAL, TOKEN_PAYMENT, type] ++ payload)
  have hS := constructTokenScript_eq type D hlen
  have hlong : 31 < (constructTokenScript type payload D).length := by
    rw [hS]
    simp only [List.length_append, List.length_cons, List.length_nil]
    omega
  have htype : tokenScriptType (constructTokenScript type payload D) = tokenScriptType D := by
    rw [hS, List.append_assoc]
    exact tokenScriptType_append (by omega) _
  generalize hpre : D ++ [OP_TOKEN_SCRIPT, (pushData ([TOKEN_AOK, TOKEN_LOCAL, TOKEN_PAYMENT, type] ++ payload)).head!] =
    pre at hS
  have hprelen : pre.length = D.length + 2 := by rw [← hpre]; simp
  -- the search for the marker, read off the constructed bytes
  have hsearch := searchForToken_markerPad pre type hlen
  have hindex := tokenIndex_eq hD (pushData ([TOKEN_AOK, TOKEN_LOCAL, TOKEN_PAYMENT, type] ++ payload)).head!
    (markerPad ([TOKEN_AOK, TOKEN_LOCAL, TOKEN_PAYMENT, type] ++ payload) ++
      (TOKEN_AOK :: TOKEN_LOCAL :: TOKEN_PAYMENT :: type :: (payload ++ [OP_DROP])))
  rw [hpre, ← hprelen, hsearch, ← hS] at hindex
  unfold tokenScriptInfo
  rw [if_pos hlong, htype]
  dsimp only
  rw [← htype, hindex]
  by_cases h97 : payload.length + 4 = 97
  · simp only [if_pos h97]
  · -- the type byte sits past the pad and the marker
    have hbyte : byteAt (constructTokenScript type payload D)
        (pre.length + (markerPad ([TOKEN_AOK, TOKEN_LOCAL, TOKEN_PAYMENT, type] ++ payload)).length + 3) = type := by
      rw [hS, Nat.add_assoc, byteAt_append_length_add, byteAt_append_length_add]
      rfl
    rw [hprelen] at hbyte
    simp only [if_neg h97, hbyte, hprelen, tokenKind, gt_iff_lt]
    simp only [apply_ite (Option.map _), Option.map_some, Option.map_none]

/-- Past the type byte a constructed script holds the payload and `OP_DROP`. -/
theorem constructTokenScript_drop (D : CScript) (type : UInt8) (payload : Bytes) (hlen : payload.length + 4 ≤ 255) :
    (constructTokenScript type payload D).drop
        (D.length + 2 + (markerPad ([TOKEN_AOK, TOKEN_LOCAL, TOKEN_PAYMENT, type] ++ payload)).length + 4) =
      payload ++ [OP_DROP] := by
  rw [constructTokenScript_eq _ D hlen]
  have hpre : D.length + 2 = (D ++ [OP_TOKEN_SCRIPT,
      (pushData ([TOKEN_AOK, TOKEN_LOCAL, TOKEN_PAYMENT, type] ++ payload)).head!]).length := by simp
  rw [hpre, Nat.add_assoc, List.drop_length_add_append, List.drop_length_add_append]
  rfl

end Classify

section Payloads

theorem length_serBytes (v : Bytes) : v.length + 1 ≤ (serBytes v).length := by
  unfold serBytes writeCompactSize
  dsimp only
  split_ifs <;> simp

/-- The IPFS hash in the one form both halves of `ReadWriteIPFSHash` keep: 34
bytes behind the multihash prefix `0x12 0x20`. -/
def IPFSForm (hash : Bytes) : Prop := hash.length = 34 ∧ hash.take 2 = [IPFS_SHA2_256, IPFS_SHA2_256_LEN]

theorem readIPFSHash_writeIPFSHash {hash : Bytes} (h : IPFSForm hash) (rest : Bytes) :
    readIPFSHash.run (writeIPFSHash hash ++ rest) = some (hash, rest) := by
  obtain ⟨hlen, hprefix⟩ := h
  have hbytes := unserBytes_serBytes (hash.drop 2) (by simp [hlen, MAX_SIZE]) rest
  have htail : (hash.drop 2).take 32 = hash.drop 2 := List.take_of_length_le (by simp [hlen])
  have hsplit : [IPFS_SHA2_256, IPFS_SHA2_256_LEN] ++ hash.drop 2 = hash := by
    rw [← hprefix, List.take_append_drop]
  have hwrite : writeIPFSHash hash = IPFS_SHA2_256 :: serBytes (hash.drop 2) := by
    simp [writeIPFSHash, hlen]
  have hlong : 34 ≤ (writeIPFSHash hash ++ rest).length := by
    rw [hwrite]
    have := length_serBytes (hash.drop 2)
    simp only [List.cons_append, List.length_cons, List.length_append, List.length_drop, hlen] at this ⊢
    omega
  rw [hwrite, List.cons_append] at hlong ⊢
  show readIPFSHash _ = _
  unfold readIPFSHash
  rw [if_pos (by simp only [List.isEmpty_cons, Bool.not_false, Bool.true_and, decide_eq_true hlong])]
  simp only [StateT.run_bind, readLE_one_cons, Option.bind_eq_bind, Option.bind_some, hbytes,
    StateT.run_pure, Option.pure_def, htail, hsplit]

/-- With fewer than 34 bytes left the reader keeps the hash empty. -/
theorem readIPFSHash_short {rest : Bytes} (h : rest.length < 34) : readIPFSHash.run rest = some ([], rest) := by
  have hshort : ¬ (!rest.isEmpty && decide (rest.length ≥ 34)) = true := by simp; omega
  show readIPFSHash rest = _
  unfold readIPFSHash
  rw [if_neg hshort]

theorem unserTokenTransfer_serTokenTransfer (t : CTokenTransfer) (hname : t.strName.length ≤ MAX_SIZE) (rest : Bytes) :
    unserTokenTransfer.run (serTokenTransfer t ++ rest) = some (t, rest) := by
  simp only [serTokenTransfer, unserTokenTransfer, List.append_assoc, StateT.run_bind, unserBytes_serBytes _ hname,
    Option.bind_eq_bind, Option.bind_some, unserInt64_serInt64, unserUInt32_serUInt32, StateT.run_pure,
    Option.pure_def]

/-- A new token reads back when its IPFS field is in the form its flag says. -/
theorem unserNewToken_serNewToken (t : CNewToken) (hname : t.strName.length ≤ MAX_SIZE)
    (hipfs : (t.nHasIPFS = 1 ∧ IPFSForm t.strIPFSHash) ∨ (t.nHasIPFS ≠ 1 ∧ t.strIPFSHash = [])) (rest : Bytes) :
    unserNewToken.run (serNewToken t ++ rest) = some (t, rest) := by
  rcases hipfs with ⟨hflag, hform⟩ | ⟨hflag, hempty⟩
  · simp only [serNewToken, unserNewToken, if_pos hflag, List.append_assoc, StateT.run_bind,
      unserBytes_serBytes _ hname, Option.bind_eq_bind, Option.bind_some, unserInt64_serInt64,
      unserInt8_serInt8, readIPFSHash_writeIPFSHash hform, StateT.run_pure, Option.pure_def]
  · obtain ⟨strName, nAmount, units, nReissuable, nHasIPFS, strIPFSHash⟩ := t
    dsimp only at hflag hempty hname
    subst hempty
    simp only [serNewToken, unserNewToken, if_neg hflag, List.append_assoc, List.append_nil, StateT.run_bind,
      unserBytes_serBytes _ hname, Option.bind_eq_bind, Option.bind_some, unserInt64_serInt64,
      unserInt8_serInt8, StateT.run_pure, Option.pure_def]

/-- A reissue reads back when its IPFS field is in form, or empty with fewer
than 34 bytes behind it. -/
theorem unserReissueToken_serReissueToken (t : CReissueToken) (hname : t.strName.length ≤ MAX_SIZE) (rest : Bytes)
    (hipfs : IPFSForm t.strIPFSHash ∨ (t.strIPFSHash = [] ∧ rest.length < 34)) :
    unserReissueToken.run (serReissueToken t ++ rest) = some (t, rest) := by
  rcases hipfs with hform | ⟨hempty, hrest⟩
  · simp only [serReissueToken, unserReissueToken, List.append_assoc, StateT.run_bind,
      unserBytes_serBytes _ hname, Option.bind_eq_bind, Option.bind_some, unserInt64_serInt64,
      unserInt8_serInt8, readIPFSHash_writeIPFSHash hform, StateT.run_pure, Option.pure_def]
  · obtain ⟨strName, nAmount, nUnits, nReissuable, strIPFSHash⟩ := t
    dsimp only at hempty hname
    subst hempty
    have hwrite : writeIPFSHash [] = [] := rfl
    simp only [serReissueToken, unserReissueToken, hwrite, List.append_assoc, List.append_nil, StateT.run_bind,
      unserBytes_serBytes _ hname, Option.bind_eq_bind, Option.bind_some, unserInt64_serInt64,
      unserInt8_serInt8, readIPFSHash_short hrest, StateT.run_pure, Option.pure_def]

theorem payloadFromScript_of_info {α : Type} {select : TokenScriptInfo → Bool} (r : Reader α) {script : CScript}
    {info : TokenScriptInfo} (h : tokenScriptInfo script = some info) (hselect : select info = true) :
    payloadFromScript select r script = (r.run (script.drop info.nStartingIndex)).map Prod.fst := by
  simp [payloadFromScript, h, hselect]

theorem payloadFromScript_of_none {α : Type} (select : TokenScriptInfo → Bool) (r : Reader α) {script : CScript}
    (h : tokenScriptInfo script = none) : payloadFromScript select r script = none := by
  simp [payloadFromScript, h]

end Payloads

section Messages

/-- The four token messages the issuing code writes, each with what it is
built from. -/
inductive TokenMessage
  | issue (token : CNewToken)
  | owner (token : CNewToken)
  | transfer (transfer : CTokenTransfer)
  | reissue (reissue : CReissueToken)
  deriving DecidableEq, Repr

namespace TokenMessage

def typeByte : TokenMessage → UInt8
  | issue _ => TOKEN_ISSUE
  | owner _ => TOKEN_OWNER_KEY
  | transfer _ => TOKEN_TRANSFER
  | reissue _ => TOKEN_AOK

def payload : TokenMessage → Bytes
  | issue t => serNewToken t
  | owner t => serBytes (t.strName ++ OWNER_TAG)
  | transfer t => serTokenTransfer t
  | reissue t => serReissueToken t

/-- The script the issuing code builds for the message behind a destination. -/
def construct : TokenMessage → CScript → CScript
  | issue t => t.constructTransaction
  | owner t => t.constructOwnerTransaction
  | transfer t => t.constructTransaction
  | reissue t => t.constructTransaction

/-- The kind and the owner flag a message stands for. -/
def kind : TokenMessage → txnouttype × Bool
  | issue _ => (.TX_NEW_TOKEN, false)
  | owner _ => (.TX_NEW_TOKEN, true)
  | transfer _ => (.TX_TRANSFER_TOKEN, false)
  | reissue _ => (.TX_REISSUE_TOKEN, false)

/-- The reader of the message's kind gives back what the message was built from. -/
def ReadsBack : TokenMessage → CScript → Prop
  | issue t, script => tokenFromScript script = some t
  | owner t, script => ownerTokenFromScript script = some (t.strName ++ OWNER_TAG)
  | transfer t, script => transferTokenFromScript script = some t
  | reissue t, script => reissueTokenFromScript script = some t

/-- The IPFS fields in the forms the writer and the reader of
`ReadWriteIPFSHash` agree on. -/
def IPFSWellFormed : TokenMessage → Prop
  | issue t => (t.nHasIPFS = 1 ∧ IPFSForm t.strIPFSHash) ∨ (t.nHasIPFS = 0 ∧ t.strIPFSHash = [])
  | owner _ => True
  | transfer _ => True
  | reissue t => IPFSForm t.strIPFSHash ∨ t.strIPFSHash = []

theorem construct_eq (m : TokenMessage) (D : CScript) :
    m.construct D = constructTokenScript m.typeByte m.payload D := by
  cases m <;> rfl

/-- The string each payload opens with. -/
def name : TokenMessage → Bytes
  | issue t => t.strName
  | owner t => t.strName ++ OWNER_TAG
  | transfer t => t.strName
  | reissue t => t.strName

-- Each payload is the string of its name, then fixed-width fields.
theorem name_length_lt_payload (m : TokenMessage) : m.name.length < m.payload.length := by
  have := length_serBytes m.name
  cases m <;> simp only [name, payload, serNewToken, serTokenTransfer, serReissueToken, List.length_append]
    at this ⊢ <;> omega

theorem two_le_payload_length (m : TokenMessage) : 2 ≤ m.payload.length := by
  have := m.name_length_lt_payload
  cases m with
  | owner t => simp only [name, List.length_append, OWNER_TAG, List.length_singleton] at this; omega
  | issue t | transfer t | reissue t =>
    have := length_serBytes t.strName
    simp only [payload, serNewToken, serTokenTransfer, serReissueToken, List.length_append, serInt64, serInt8,
      serUInt32, length_leBytes] at this ⊢
    omega

theorem twelve_le_payload_of_issue (t : CNewToken) : 12 ≤ (issue t).payload.length := by
  have := length_serBytes t.strName
  simp only [payload, serNewToken, List.length_append, serInt64, serInt8, length_leBytes]
  omega

theorem tokenKind_typeByte (m : TokenMessage) {fLong : Bool} (hlong : m.typeByte = TOKEN_ISSUE → fLong = true) :
    tokenKind m.typeByte fLong = some m.kind := by
  cases m with
  | issue t => simp [tokenKind, typeByte, kind, hlong rfl, TOKEN_ISSUE, TOKEN_TRANSFER]
  | owner t => rfl
  | transfer t => rfl
  | reissue t => rfl

/-- `IsTokenScript` on the script of a message whose length is not 97. -/
theorem tokenScriptInfo_construct {D : CScript} (hD : isPayToPublicKeyHash D = true ∨ isPayToScriptHash D = true)
    (m : TokenMessage) (hlen : m.payload.length + 4 ≤ 255) (h97 : m.payload.length + 4 ≠ 97) :
    tokenScriptInfo (m.construct D) =
      some ⟨m.kind.1, tokenScriptType D, m.kind.2,
        D.length + 2 + (markerPad ([TOKEN_AOK, TOKEN_LOCAL, TOKEN_PAYMENT, m.typeByte] ++ m.payload)).length + 4⟩ := by
  have h2 := m.two_le_payload_length
  have hDlen := length_of_tokenDestination hD
  -- an issue is long enough for the size test of its branch
  have hlong : m.typeByte = TOKEN_ISSUE → decide (39 < (constructTokenScript m.typeByte m.payload D).length) = true := by
    intro h
    have : 12 ≤ m.payload.length := by
      cases m with
      | issue t => exact twelve_le_payload_of_issue t
      | _ => exact absurd h (by simp only [typeByte]; decide)
    rw [constructTokenScript_eq _ D hlen]
    simp only [List.length_append, List.length_cons, List.length_nil, decide_eq_true_eq]
    omega
  rw [construct_eq, tokenScriptInfo_constructTokenScript hD _ h2 hlen, if_neg h97, m.tokenKind_typeByte hlong]
  rfl

end TokenMessage

end Messages

section RoundTrip

open TokenMessage

/-- Behind either template, a token message of any length below 256 but 97 is
classified as its kind and template, and the reader of its kind gives back what
it was built from. -/
theorem tokenMessage_reads_back {D : CScript} (hD : isPayToPublicKeyHash D = true ∨ isPayToScriptHash D = true)
    (m : TokenMessage) (hwf : m.IPFSWellFormed) (hlen : m.payload.length + 4 < 256)
    (h97 : m.payload.length + 4 ≠ 97) :
    (tokenScriptInfo (m.construct D)).map (fun info => (info.nType, info.nScriptType, info.fIsOwner)) =
        some (m.kind.1, if isPayToScriptHash D then .TX_SCRIPTHASH else .TX_PUBKEYHASH, m.kind.2) ∧
      m.ReadsBack (m.construct D) := by
  have hinfo := m.tokenScriptInfo_construct hD (by omega) h97
  have hdrop := constructTokenScript_drop D m.typeByte m.payload (by omega)
  rw [← m.construct_eq] at hdrop
  have hname : m.name.length ≤ MAX_SIZE := by
    have := m.name_length_lt_payload
    unfold MAX_SIZE
    omega
  refine ⟨by rw [hinfo, tokenScriptType_of_tokenDestination hD]; rfl, ?_⟩
  -- each kind's reader runs on the payload and the closing `OP_DROP`
  cases m with
  | issue t =>
    have hread := unserNewToken_serNewToken t hname
      (by rcases hwf with h | ⟨h0, he⟩; exact .inl h; exact .inr ⟨by rw [h0]; decide, he⟩) [OP_DROP]
    show tokenFromScript _ = _
    rw [tokenFromScript, payloadFromScript_of_info _ hinfo rfl, hdrop]
    simp only [payload, hread, Option.map_some]
  | owner t =>
    have hread := unserBytes_serBytes (t.strName ++ OWNER_TAG) hname [OP_DROP]
    show ownerTokenFromScript _ = _
    rw [ownerTokenFromScript, payloadFromScript_of_info _ hinfo rfl, hdrop]
    simp only [payload, hread, Option.map_some]
  | transfer t =>
    have hread := unserTokenTransfer_serTokenTransfer t hname [OP_DROP]
    show transferTokenFromScript _ = _
    rw [transferTokenFromScript, payloadFromScript_of_info _ hinfo rfl, hdrop]
    simp only [payload, hread, Option.map_some]
  | reissue t =>
    have hread := unserReissueToken_serReissueToken t hname [OP_DROP]
      (by rcases hwf with h | h; exact .inl h; exact .inr ⟨h, by simp⟩)
    show reissueTokenFromScript _ = _
    rw [reissueTokenFromScript, payloadFromScript_of_info _ hinfo rfl, hdrop]
    simp only [payload, hread, Option.map_some]

section MessageFixtures

def keyHashDestination : CScript := payToPubKeyHash (List.replicate 20 7)

def scriptHashDestination : CScript := payToScriptHash (List.replicate 20 9)

/-- A transfer of a 79-byte name: a message of 96 bytes, pushed by `OP_PUSHDATA1`. -/
def longTransfer : TokenMessage := .transfer ⟨List.replicate 79 65, COIN, 0⟩

/-- A transfer of an 80-byte name: a message of 97 bytes. -/
def collidingTransfer : TokenMessage := .transfer ⟨List.replicate 80 65, COIN, 0⟩

end MessageFixtures

theorem longTransfer_reads_back :
    (isPayToPublicKeyHash scriptHashDestination = true ∨ isPayToScriptHash scriptHashDestination = true) ∧
      longTransfer.IPFSWellFormed ∧ longTransfer.payload.length + 4 < 256 ∧ longTransfer.payload.length + 4 ≠ 97 ∧
      (tokenScriptInfo (longTransfer.construct scriptHashDestination)).map
          (fun info => (info.nType, info.nScriptType, info.fIsOwner)) =
        some (longTransfer.kind.1,
          if isPayToScriptHash scriptHashDestination then .TX_SCRIPTHASH else .TX_PUBKEYHASH, longTransfer.kind.2) ∧
      longTransfer.ReadsBack (longTransfer.construct scriptHashDestination) :=
  have hD : isPayToPublicKeyHash scriptHashDestination = true ∨ isPayToScriptHash scriptHashDestination = true :=
    .inr (by decide)
  have hwf : longTransfer.IPFSWellFormed := trivial
  have hlen : longTransfer.payload.length + 4 < 256 := by decide
  have h97 : longTransfer.payload.length + 4 ≠ 97 := by decide
  ⟨hD, hwf, hlen, h97, tokenMessage_reads_back hD longTransfer hwf hlen h97⟩

end RoundTrip

section Collision

open TokenMessage

/-- Behind either template, the script of every token message of 97 bytes is
no token script, and no reader gives its payload back. -/
theorem tokenMessage_97_not_token_script {D : CScript}
    (hD : isPayToPublicKeyHash D = true ∨ isPayToScriptHash D = true) (m : TokenMessage)
    (h97 : m.payload.length + 4 = 97) :
    isTokenScript (m.construct D) = false ∧ ¬ m.ReadsBack (m.construct D) := by
  have hnone : tokenScriptInfo (m.construct D) = none := by
    rw [m.construct_eq, tokenScriptInfo_constructTokenScript hD _ m.two_le_payload_length (by omega), if_pos h97]
  refine ⟨by simp [isTokenScript, hnone], ?_⟩
  -- every reader goes through `IsTokenScript` first
  cases m <;>
    simp [ReadsBack, tokenFromScript, ownerTokenFromScript, transferTokenFromScript, reissueTokenFromScript,
      payloadFromScript_of_none _ _ hnone]

theorem collidingTransfer_unreadable :
    (isPayToPublicKeyHash keyHashDestination = true ∨ isPayToScriptHash keyHashDestination = true) ∧
      collidingTransfer.payload.length + 4 = 97 ∧
      isTokenScript (collidingTransfer.construct keyHashDestination) = false ∧
      ¬ collidingTransfer.ReadsBack (collidingTransfer.construct keyHashDestination) :=
  have hD : isPayToPublicKeyHash keyHashDestination = true ∨ isPayToScriptHash keyHashDestination = true :=
    .inl (by decide)
  have h97 : collidingTransfer.payload.length + 4 = 97 := by decide
  ⟨hD, h97, tokenMessage_97_not_token_script hD collidingTransfer h97⟩

set_option maxRecDepth 10000 in
example : isTokenScript (collidingTransfer.construct keyHashDestination) = false := by decide

set_option maxRecDepth 10000 in
example : isTokenScript (longTransfer.construct keyHashDestination) = true := by decide

end Collision

end AokChain
