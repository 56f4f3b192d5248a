import AokChain.Script.Standard
import AokChain.Consensus.ConnectProperties

/-!
# How token scripts and token transactions are classified

`CScript::IsTokenScript` decides the template in front of the token part by
the pay-to-script-hash test alone, and otherwise reads nothing of the first 25
bytes: whatever they hold, the script is classified, and `Solver` reports its
destination, as if they were the key-hash template of bytes 3 to 22.

`CTransaction::IsNewToken` reads the last output and then, without a size
test, the one before it: `vout[vout.size() - 2]`, whose `size_t` index wraps
for a transaction of one output.  `voutFromEnd` reads the null output there;
`isNewTokenTxChecked` reads as the source indexes, failing outside `vout`.
-/

namespace AokChain
open Serial

section TokenScriptPrefix

/-- `SearchForToken` reads the bytes from its start on. -/
theorem searchForToken_congr {s t : CScript} {k : ℕ} (h : ∀ i, k ≤ i → byteAt s i = byteAt t i) :
    searchForToken s k = searchForToken t k := by
  simp only [searchForToken, h k le_rfl, h (k + 1) (by omega), h (k + 2) (by omega), h (k + 3) (by omega)]

theorem le_of_searchForToken {s : CScript} {k i : ℕ} (h : searchForToken s k = some i) : k + 3 ≤ i := by
  unfold searchForToken at h
  split_ifs at h <;> cases h <;> omega

/-- Past the key-hash test, `IsTokenScript` reads the length and the bytes from
25 on. -/
theorem tokenScriptInfo_congr {s t : CScript} (hlen : s.length = t.length)
    (hs : tokenScriptType s = .TX_PUBKEYHASH) (ht : tokenScriptType t = .TX_PUBKEYHASH)
    (hbytes : ∀ i, 25 ≤ i → byteAt s i = byteAt t i) :
    tokenScriptInfo s = tokenScriptInfo t := by
  have hsearch : searchForToken s 27 = searchForToken t 27 := searchForToken_congr fun i hi => hbytes i (by omega)
  unfold tokenScriptInfo
  simp only [hlen, hs, ht, reduceCtorEq, decide_false, Bool.false_and, Bool.false_eq_true, if_false,
    hbytes 25 le_rfl, hsearch]
  by_cases h25 : (byteAt t 25 == OP_TOKEN_SCRIPT) = true
  · simp only [h25, if_true]
    -- the type byte the marker search finds lies past 25
    cases hidx : searchForToken t 27 with
    | none => rfl
    | some index => simp only [hbytes index (by have := le_of_searchForToken hidx; omega)]
  · simp only [h25, Bool.false_eq_true, if_false]

theorem isPayToScriptHash_of_length {s : CScript} (h : s.length ≠ 23) : isPayToScriptHash s = false := by
  simp [isPayToScriptHash, h]

theorem tokenScriptType_payToPubKeyHash (id rest : Bytes) :
    tokenScriptType (payToPubKeyHash id ++ rest) = .TX_PUBKEYHASH := by
  simp [tokenScriptType, payToPubKeyHash, byteAt, OP_DUP, OP_HASH160]

theorem tokenScriptInfo_nScriptType {s : CScript} {info : TokenScriptInfo} (h : tokenScriptInfo s = some info) :
    info.nScriptType = tokenScriptType s := by
  unfold tokenScriptInfo at h
  dsimp only at h
  split at h
  · split at h
    · cases h
    · split_ifs at h <;> cases h <;> rfl
  · cases h

/-- A token script behind the key-hash test: `Solver` takes its destination
from bytes 3 to 22. -/
theorem solver_of_tokenScript_keyHash {s : CScript} {info : TokenScriptInfo} (hinfo : tokenScriptInfo s = some info)
    (htype : tokenScriptType s = .TX_PUBKEYHASH) (hsh : isPayToScriptHash s = false) :
    solver s = some ⟨info.nType, .TX_PUBKEYHASH, [(s.drop 3).take 20]⟩ := by
  have hkind : info.nScriptType = .TX_PUBKEYHASH := (tokenScriptInfo_nScriptType hinfo).trans htype
  simp only [solver, hsh, hinfo, hkind, Bool.false_eq_true, if_false, reduceCtorEq, if_true]

end TokenScriptPrefix

section ScriptFixtures

/-- Twenty-five bytes that push true and do nothing more: no key is asked for. -/
def anyonePrefix : Bytes := OP_1 :: List.replicate 24 OP_NOP

/-- The token part of a transfer of one unit of the token ABC. -/
def transferPart : Bytes :=
  [OP_TOKEN_SCRIPT] ++ pushData ([TOKEN_AOK, TOKEN_LOCAL, TOKEN_PAYMENT, TOKEN_TRANSFER] ++
    serTokenTransfer ⟨[65, 66, 67], COIN, 0⟩) ++ [OP_DROP]

/-- The token part of the issue of ten ABC, of units `0`, reissuable, without an
IPFS hash. -/
def issuePart : Bytes :=
  [OP_TOKEN_SCRIPT] ++ pushData ([TOKEN_AOK, TOKEN_LOCAL, TOKEN_PAYMENT, TOKEN_ISSUE] ++
    serBytes [65, 66, 67] ++ serInt64 (10 * COIN) ++ [0, 1, 0]) ++ [OP_DROP]

/-- A transaction whose only output is the issue data, without the owner token
before it. -/
def loneIssue : CTransaction := spendTx [outX1] [⟨0, stakerScript ++ issuePart⟩]

end ScriptFixtures

/-- Any 25 bytes that fail the script-hash test, followed by a token part, are
classified by `IsTokenScript` as the key-hash template of their bytes 3 to 22
followed by that part, and `ExtractDestination` reports that key hash: nothing
else of the 25 bytes is read. -/
theorem tokenScript_prefix_unchecked (C : Crypto) {pre rest : Bytes} (hpre : pre.length = 25)
    (hsh : tokenScriptType (pre ++ rest) = .TX_PUBKEYHASH) :
    tokenScriptInfo (pre ++ rest) = tokenScriptInfo (payToPubKeyHash ((pre.drop 3).take 20) ++ rest) ∧
      (isTokenScript (pre ++ rest) = true →
        extractDestination C (pre ++ rest) =
          extractDestination C (payToPubKeyHash ((pre.drop 3).take 20) ++ rest)) := by
  have hid : ((pre.drop 3).take 20).length = 20 := by simp [hpre]
  have htemplate : (payToPubKeyHash ((pre.drop 3).take 20)).length = 25 := by
    simp [payToPubKeyHash, pushData, hid, OP_PUSHDATA1]
  -- the two scripts have the same length and agree from byte 25 on
  have hbytes : ∀ i, 25 ≤ i → byteAt (pre ++ rest) i =
      byteAt (payToPubKeyHash ((pre.drop 3).take 20) ++ rest) i := by
    intro i hi
    rw [byteAt_append_right (by omega), byteAt_append_right (by omega), hpre, htemplate]
  have hinfo := tokenScriptInfo_congr (by simp [hpre, htemplate]) hsh (tokenScriptType_payToPubKeyHash _ rest)
    hbytes
  refine ⟨hinfo, fun htok => ?_⟩
  obtain ⟨info, hs⟩ := Option.isSome_iff_exists.mp htok
  have hlen : (pre ++ rest).length = 25 + rest.length := by simp [hpre]
  have hdrop : ((pre ++ rest).drop 3).take 20 =
      ((payToPubKeyHash ((pre.drop 3).take 20) ++ rest).drop 3).take 20 := by
    rw [List.drop_append_of_le_length (by omega), List.take_append_of_le_length (by simp [hpre]),
      List.drop_append_of_le_length (by omega), List.take_append_of_le_length (by simp [htemplate])]
    simp [payToPubKeyHash, pushData, hid, OP_PUSHDATA1]
  have hsh₁ : isPayToScriptHash (pre ++ rest) = false := isPayToScriptHash_of_length (by omega)
  have hsh₂ : isPayToScriptHash (payToPubKeyHash ((pre.drop 3).take 20) ++ rest) = false :=
    isPayToScriptHash_of_length (by simp [htemplate]; omega)
  simp only [extractDestination, solver_of_tokenScript_keyHash hs hsh hsh₁,
    solver_of_tokenScript_keyHash (hinfo ▸ hs) (tokenScriptType_payToPubKeyHash _ rest) hsh₂, hdrop]

/-- A transfer behind 25 bytes that ask for no key is a token script to the key
hash of bytes 3 to 22, though no instruction of it checks a signature. -/
theorem anyonePrefix_transfer_classified :
    (anyonePrefix.length = 25 ∧ tokenScriptType (anyonePrefix ++ transferPart) = .TX_PUBKEYHASH) ∧
      (tokenScriptInfo (anyonePrefix ++ transferPart) =
          tokenScriptInfo (payToPubKeyHash ((anyonePrefix.drop 3).take 20) ++ transferPart) ∧
        extractDestination Crypto.truncating (anyonePrefix ++ transferPart) =
          extractDestination Crypto.truncating (payToPubKeyHash ((anyonePrefix.drop 3).take 20) ++ transferPart)) ∧
      isTransferToken (anyonePrefix ++ transferPart) = true ∧
      extractDestination Crypto.truncating (anyonePrefix ++ transferPart) =
        some (.keyID (List.replicate 20 OP_NOP)) ∧
      isPayToPublicKeyHash anyonePrefix = false ∧
      [OP_CHECKSIG, OP_CHECKSIGVERIFY, OP_CHECKMULTISIG, OP_CHECKMULTISIGVERIFY].all
        (fun op => findOp (anyonePrefix ++ transferPart) op == 0) = true := by
  have hyp : anyonePrefix.length = 25 ∧ tokenScriptType (anyonePrefix ++ transferPart) = .TX_PUBKEYHASH :=
    ⟨rfl, by decide⟩
  have htok : isTokenScript (anyonePrefix ++ transferPart) = true := by decide
  obtain ⟨hinfo, hdest⟩ := tokenScript_prefix_unchecked Crypto.truncating hyp.1 hyp.2
  exact ⟨hyp, ⟨hinfo, hdest htok⟩, by decide, by decide, by decide, by decide⟩

section VoutIndexing

/-- `vout[vout.size() - k]` as the source indexes: the index is a `size_t`, so
below zero it wraps to `2 ^ 64 - k`; `none` where it is not below `vout.size()`. -/
def voutFromEndChecked (vout : List CTxOut) (k : ℕ) : Option CTxOut := vout[(vout.length + 2 ^ 64 - k) % 2 ^ 64]?

/-- Within the vector, the checked read is the model's. -/
theorem voutFromEndChecked_of_le {vout : List CTxOut} {k : ℕ} (hk : 1 ≤ k) (hle : k ≤ vout.length)
    (hsize : vout.length < 2 ^ 64) : voutFromEndChecked vout k = some (voutFromEnd vout k) := by
  have hidx : (vout.length + 2 ^ 64 - k) % 2 ^ 64 = vout.length - k := by omega
  have hlt : vout.length - k < vout.length := by omega
  simp only [voutFromEndChecked, hidx]
  simp [voutFromEnd, hle, List.getD_eq_getElem?_getD, List.getElem?_eq_getElem hlt]

/-- Past the front of the vector, the wrapped index lies beyond its end. -/
theorem voutFromEndChecked_of_lt {vout : List CTxOut} {k : ℕ} (hlt : vout.length < k) (hk : k ≤ 2 ^ 64) :
    voutFromEndChecked vout k = none := by
  have hidx : (vout.length + 2 ^ 64 - k) % 2 ^ 64 = vout.length + 2 ^ 64 - k := Nat.mod_eq_of_lt (by omega)
  simp only [voutFromEndChecked, hidx]
  exact List.getElem?_eq_none (by omega)

end VoutIndexing

namespace CTransaction

/-- `CTransaction::IsNewToken` with each read of `vout` as the source makes it:
`none` where a read falls outside `vout`. -/
def isNewTokenTxChecked (tx : CTransaction) : Option Bool := do
  let last ← voutFromEndChecked tx.vout 1
  if isNewToken last.scriptPubKey then
    let owner ← voutFromEndChecked tx.vout 2
    if isOwnerToken owner.scriptPubKey then
      let last ← voutFromEndChecked tx.vout 1
      pure !isScriptNewUniqueToken last.scriptPubKey
    else pure false
  else pure false

end CTransaction

/-- On a transaction with outputs, `IsNewToken` reads outside `vout` exactly
when the one output is issue data, and otherwise computes what the model's
`isNewTokenTx` does. -/
theorem isNewToken_reads_outside_vout (tx : CTransaction) (hne : tx.vout ≠ []) (hsize : tx.vout.length < 2 ^ 64) :
    tx.isNewTokenTxChecked =
      if tx.vout.length = 1 ∧ isNewToken (voutFromEnd tx.vout 1).scriptPubKey = true then none
      else some tx.isNewTokenTx := by
  have hpos : 0 < tx.vout.length := List.length_pos_of_ne_nil hne
  unfold CTransaction.isNewTokenTxChecked CTransaction.isNewTokenTx
  rw [voutFromEndChecked_of_le le_rfl hpos hsize]
  simp only [bind, Option.bind, pure]
  by_cases hnew : isNewToken (voutFromEnd tx.vout 1).scriptPubKey = true
  · by_cases hone : tx.vout.length = 1
    · -- the owner read wraps past the end
      rw [voutFromEndChecked_of_lt (by omega) (by omega)]
      simp [hnew, hone]
    · rw [voutFromEndChecked_of_le (by omega) (by omega) hsize]
      cases howner : isOwnerToken (voutFromEnd tx.vout 2).scriptPubKey <;> simp [hnew, hone, howner]
  · simp [hnew]

set_option maxRecDepth 10000 in
/-- `CheckTransaction` lets the lone issue through to its token section, whose
first test, `IsNewToken`, reads `vout[2 ^ 64 - 1]`; the model, reading the null
output there, classifies it as no issue and rejects it further on. -/
theorem loneIssue_reads_outside_vout :
    (loneIssue.vout ≠ [] ∧ loneIssue.vout.length < 2 ^ 64) ∧
      loneIssue.isNewTokenTxChecked =
        (if loneIssue.vout.length = 1 ∧ isNewToken (voutFromEnd loneIssue.vout 1).scriptPubKey = true then none
        else some loneIssue.isNewTokenTx) ∧
      isNewToken (voutFromEnd loneIssue.vout 1).scriptPubKey = true ∧
      loneIssue.isNewTokenTxChecked = none ∧
      rejectReason (checkTransaction (tipNode 871499).tx loneIssue (some passIssuance) true) =
        some "bad-txns-bad-token-transaction" := by
  have hyp : loneIssue.vout ≠ [] ∧ loneIssue.vout.length < 2 ^ 64 := ⟨by simp [loneIssue, spendTx], by decide⟩
  exact ⟨hyp, isNewToken_reads_outside_vout loneIssue hyp.1 hyp.2, by decide, by decide,
    by decide⟩

end AokChain
