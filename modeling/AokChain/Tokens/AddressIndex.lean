import AokChain.Lib.ReadThrough
import AokChain.Tokens.Validity
import AokChain.Tokens.Verify
import AokChain.Coins.Undo

/-!
# The address balances of `-tokenindex`

`mapTokensAddressAmount` of `CTokensCache` (`tokens/tokens.cpp`), with
`fTokenIndex` on: the amount of each token at each address, in the cache of a
`ConnectBlock` or `DisconnectBlock`, in `ptokens` and in the database, read
through `GetBestTokenAddressAmount`.  The balances sit beside the token layers
of `Tokens/Cache`, in `IndexedLayers`, and each operation of the cache changes
them only once its token operation succeeded.  An address is the destination
its string encodes, `""` being `noDestination`.

`AddCoins` sets the balance of an issue to the amount issued and of an owner
token to `OWNER_TOKEN_AMOUNT`, adds reissues and transfers, and `SpendCoin`
takes spent coins off with `TrySpendCoin`, which stops at 0.  `DisconnectBlock`
spends each transaction's outputs into `tempCache`, a copy of the cache that it
drops, so they leave the balances as they are; it sets the balances of undone
issues and owners to 0, takes reissues and transfers back, and adds the
restored inputs back with `UndoTokenCoin`.  Nothing there undoes a username.

`DumpCacheToDatabase` writes balances from the logs of spends, transfers and
owners, which are left out: the database is only read here.
-/

namespace AokChain
open Serial ReadThrough

/-- A key of `mapTokensAddressAmount`: a token name and an address. -/
abbrev TokenAddress := Bytes × CTxDestination

/-- The map's order, by name; the order of the address strings only places entries. -/
def tokenAddressLt (a b : TokenAddress) : Bool := bytesLt a.1 b.1

/-- `mapTokensAddressAmount` of a block's cache, of `ptokens`, and the address
quantities of the database. -/
abbrev AddressLayers := Layers TokenAddress CAmount

section Balances

variable (C : Crypto) (A : AddressLayers)

/-- `GetBestTokenAddressAmount(cache, tokenName, address)`. -/
def getBestTokenAddressAmount (tokenName : Bytes) (address : CTxDestination) : Bool × AddressLayers :=
  A.fetch tokenAddressLt (tokenName, address)

/-- The balance a caller of `GetBestTokenAddressAmount` then reads from the cache. -/
def tokenAddressAmount (tokenName : Bytes) (address : CTxDestination) : Option CAmount :=
  let r := getBestTokenAddressAmount A tokenName address
  if r.1 then OrderedMap.find? (tokenName, address) r.2.top else none

/-- `mapTokensAddressAmount[pair] = nAmount`. -/
def setTokenAddressAmount (tokenName : Bytes) (address : CTxDestination) (nAmount : CAmount) : AddressLayers :=
  A.write tokenAddressLt (tokenName, address) fun _ => nAmount

/-- `AddToTokenBalance(strName, address, nAmount)`, which `AddTransferToken`
calls: an owner token's balance is set, any other's grows. -/
def addToTokenBalance (strName : Bytes) (address : CTxDestination) (nAmount : CAmount) : AddressLayers :=
  -- where no layer has the pair the source inserts 0, which the write reads as `none`
  (getBestTokenAddressAmount A strName address).2.write tokenAddressLt (strName, address) fun v =>
    if isTokenNameAnOwner strName then OWNER_TOKEN_AMOUNT else v.getD 0 + nAmount

/-- The name and amount `TrySpendCoin` and `UndoTokenCoin` read from a token
script, by its kind, an owner token counting `OWNER_TOKEN_AMOUNT`: `none` where
the payload does not deserialize. -/
def tokenCoinData (script : CScript) (info : TokenScriptInfo) : Option (Bytes × CAmount) :=
  if info.isNew then (tokenFromScript script).map fun token => (token.strName, token.nAmount)
  else if info.isTransfer then (transferTokenFromScript script).map fun transfer => (transfer.strName, transfer.nAmount)
  else if info.isOwner then (ownerTokenFromScript script).map fun tokenName => (tokenName, OWNER_TOKEN_AMOUNT)
  else if info.isReissue then (reissueTokenFromScript script).map fun reissue => (reissue.strName, reissue.nAmount)
  else none

/-- `TrySpendCoin(out, txOut)`, `none` for its `false`: a coin that is no token
is skipped, and a token's balance, where some layer holds it, drops by the
amount to no less than 0. -/
def trySpendCoin (txOut : CTxOut) : Option AddressLayers :=
  match tokenScriptInfo txOut.scriptPubKey with
  | none => some A
  | some info =>
    match tokenCoinData txOut.scriptPubKey info with
    | some (tokenName, nAmount) =>
      let address := scriptAddress C txOut.scriptPubKey
      if address != .noDestination && tokenName != [] && nAmount > 0 then
        let r := getBestTokenAddressAmount A tokenName address
        if r.1 then
          some (r.2.write tokenAddressLt (tokenName, address) fun v =>
            if v.getD 0 - nAmount < 0 then 0 else v.getD 0 - nAmount)
        else some A
      else none
    | none => none

/-- `AddBackSpentToken(coin, tokenName, address, nAmount, out)`. -/
def addBackSpentToken (tokenName : Bytes) (address : CTxDestination) (nAmount : CAmount) : AddressLayers :=
  (getBestTokenAddressAmount A tokenName address).2.write tokenAddressLt (tokenName, address) fun v =>
    v.getD 0 + nAmount

/-- `UndoTokenCoin(coin, out)`, `none` for its `false`. -/
def undoTokenCoin (coin : Coin) : Option AddressLayers :=
  match tokenScriptInfo coin.out.scriptPubKey with
  | none => none
  | some info =>
    match tokenCoinData coin.out.scriptPubKey info with
    | some (tokenName, nAmount) =>
      let strAddress := scriptAddress C coin.out.scriptPubKey
      if tokenName == [] || strAddress == .noDestination || nAmount == 0 then none
      else some (addBackSpentToken A tokenName strAddress nAmount)
    | none => none

/-- `UndoTransfer(transfer, address, outToRemove)`: the balance must be found
and cover the amount taken back. -/
def undoTransfer (transfer : CTokenTransfer) (address : CTxDestination) : Option AddressLayers :=
  let r := getBestTokenAddressAmount A transfer.strName address
  if !r.1 then none
  else
    match OrderedMap.find? (transfer.strName, address) r.2.top with
    | none => none
    | some v =>
      if v < transfer.nAmount then none
      else some (r.2.write tokenAddressLt (transfer.strName, address) fun _ => v - transfer.nAmount)

end Balances

/-- The token layers with the address balances beside them, as one
`CTokensCache` holds both. -/
structure IndexedLayers where
  tokens : TokenLayers
  amounts : AddressLayers
  deriving DecidableEq, Repr

namespace IndexedLayers

variable (L : IndexedLayers)

/-- `AddNewToken(token, address, nHeight, blockHash)`: the balance is the amount issued. -/
def addNewToken (token : CNewToken) (address : CTxDestination) (nHeight : Int) (blockHash : uint256) :
    Bool × IndexedLayers :=
  let r := L.tokens.addNewToken token nHeight blockHash
  (r.1, ⟨r.2, if r.1 then setTokenAddressAmount L.amounts token.strName address token.nAmount else L.amounts⟩)

/-- `RemoveNewToken(token, address)`: the balance is set to 0. -/
def removeNewToken (token : CNewToken) (address : CTxDestination) : Bool × IndexedLayers :=
  let r := L.tokens.removeNewToken token
  (r.1, ⟨r.2, if r.1 then setTokenAddressAmount L.amounts token.strName address 0 else L.amounts⟩)

/-- `AddOwnerToken(tokensName, address)`. -/
def addOwnerToken (tokensName : Bytes) (address : CTxDestination) : IndexedLayers :=
  { L with amounts := setTokenAddressAmount L.amounts tokensName address OWNER_TOKEN_AMOUNT }

/-- `RemoveOwnerToken(tokensName, address)`. -/
def removeOwnerToken (tokensName : Bytes) (address : CTxDestination) : IndexedLayers :=
  { L with amounts := setTokenAddressAmount L.amounts tokensName address 0 }

/-- `AddReissueToken(reissue, address, out)`: the reissued amount is added. -/
def addReissueToken (reissue : CReissueToken) (address : CTxDestination) (out : COutPoint) : Bool × IndexedLayers :=
  let r := L.tokens.addReissueToken reissue out
  (r.1, ⟨r.2, if r.1 then
      (getBestTokenAddressAmount L.amounts reissue.strName address).2.write tokenAddressLt (reissue.strName, address)
        fun v => v.getD 0 + reissue.nAmount
    else L.amounts⟩)

/-- `RemoveReissueToken(reissue, address, out, vUndoToken)`: the reissued amount
is taken back, and a balance that went negative fails once written. -/
def removeReissueToken (reissue : CReissueToken) (address : CTxDestination) (out : COutPoint)
    (vUndoToken : List (Bytes × CBlockTokenUndo)) : Bool × IndexedLayers :=
  let r := L.tokens.removeReissueToken reissue out vUndoToken
  let b := getBestTokenAddressAmount L.amounts reissue.strName address
  if !r.1 || !b.1 then (false, ⟨r.2, L.amounts⟩)
  else
    let v := (OrderedMap.find? (reissue.strName, address) b.2.top).getD 0 - reissue.nAmount
    (!decide (v < 0), ⟨r.2, b.2.write tokenAddressLt (reissue.strName, address) fun _ => v⟩)

/-- `Flush`: the token cache and the balances into `ptokens`. -/
def flush : IndexedLayers := ⟨L.tokens.flush, L.amounts.flush tokenAddressLt⟩

@[simp] theorem addNewToken_tokens (token : CNewToken) (address : CTxDestination) (nHeight : Int)
    (blockHash : uint256) : (L.addNewToken token address nHeight blockHash).2.tokens =
      (L.tokens.addNewToken token nHeight blockHash).2 := rfl

@[simp] theorem addNewToken_fst (token : CNewToken) (address : CTxDestination) (nHeight : Int)
    (blockHash : uint256) : (L.addNewToken token address nHeight blockHash).1 =
      (L.tokens.addNewToken token nHeight blockHash).1 := rfl

@[simp] theorem addOwnerToken_tokens (tokensName : Bytes) (address : CTxDestination) :
    (L.addOwnerToken tokensName address).tokens = L.tokens := rfl

@[simp] theorem addReissueToken_tokens (reissue : CReissueToken) (address : CTxDestination) (out : COutPoint) :
    (L.addReissueToken reissue address out).2.tokens = (L.tokens.addReissueToken reissue out).2 := rfl

end IndexedLayers

section Connect

variable (C : Crypto) (fTokensDeployed : Bool) (nHeight : Int) (blockHash : uint256)

/-- The unique-token loop of `AddCoins`. -/
def addUniqueTokensIndexed (L : IndexedLayers) (vout : List CTxOut) : IndexedLayers :=
  vout.foldl (fun L out =>
    if isScriptNewUniqueToken out.scriptPubKey then
      (L.addNewToken ((tokenFromScript out.scriptPubKey).getD CNewToken.null) (scriptAddress C out.scriptPubKey)
        nHeight blockHash).2
    else L) L

/-- The token section of `AddCoins` on the layers and the balances, with the
undo record it writes.  Every payload reader writes the address of its script,
which the kind the transaction was tested for makes the destination. -/
def addCoinsIndexed (L : IndexedLayers) (tx : CTransaction) (txid : uint256) :
    IndexedLayers × Option (Bytes × CBlockTokenUndo) :=
  if !fTokensDeployed then (L, none)
  else
    let last := (voutFromEnd tx.vout 1).scriptPubKey
    let L := if tx.isNewTokenTx then
        let owner := (voutFromEnd tx.vout 2).scriptPubKey
        (L.addNewToken (tx.tokenFromTx.getD CNewToken.null) (scriptAddress C last) nHeight blockHash).2.addOwnerToken
          ((ownerTokenFromScript owner).getD []) (scriptAddress C owner)
      else L
    if tx.isNewUsernameTx then
      ((L.addNewToken (tx.tokenFromTx.getD CNewToken.null) (scriptAddress C last) nHeight blockHash).2, none)
    else if tx.isReissueTokenTx then
      let reissue := tx.reissueFromTx.getD CReissueToken.null
      let r := L.tokens.getTokenMetaDataIfExists reissue.strName
      let token := (r.1.map Prod.fst).getD CNewToken.null
      let L := ({ L with tokens := r.2 }.addReissueToken reissue (scriptAddress C last) (tx.lastOut txid)).2
      let fIPFSChanged := reissue.strIPFSHash != []
      let fUnitsChanged := reissue.nUnits != -1
      (L, if fIPFSChanged || fUnitsChanged then
          some (reissue.strName, ⟨fIPFSChanged, fUnitsChanged, token.strIPFSHash, token.units⟩)
        else none)
    else if tx.isNewUniqueTokenTx then (addUniqueTokensIndexed C nHeight blockHash L tx.vout, none)
    else (L, none)

/-- The outputs loop of `AddCoins`: `AddTransferToken` of every transfer of a
positive amount. -/
def addTransferTokens (A : AddressLayers) (vout : List CTxOut) : AddressLayers :=
  vout.foldl (fun A out =>
    match getTokenData out.scriptPubKey with
    | some tokenData =>
      if tokenData.type = .TX_TRANSFER_TOKEN && tokenData.nAmount > 0 then
        addToTokenBalance A tokenData.tokenName (scriptAddress C out.scriptPubKey) tokenData.nAmount
      else A
    | none => A) A

/-- The token side of `UpdateCoins`: `TrySpendCoin` of every coin the inputs
spent, `none` where one fails the source's `assert(is_spent)`, then `AddCoins`. -/
def updateCoinsIndexed (L : IndexedLayers) (tx : CTransaction) (txid : uint256) (vprevout : List Coin) :
    Option (IndexedLayers × Option (Bytes × CBlockTokenUndo)) := do
  let amounts ← if fTokensDeployed then vprevout.foldlM (fun A coin => trySpendCoin C A coin.out) L.amounts
    else pure L.amounts
  let r := addCoinsIndexed C fTokensDeployed nHeight blockHash { L with amounts } tx txid
  pure ({ r.1 with amounts := if fTokensDeployed then addTransferTokens C r.1.amounts tx.vout else r.1.amounts },
    r.2)

/-- The token part of `ConnectBlock`'s loop, each transaction with the coins its
inputs spent: the layers and the block's `vUndoTokenData`. -/
def connectBlockIndexed (L : IndexedLayers) (txs : List (CTransaction × List Coin)) :
    Option (IndexedLayers × List (Bytes × CBlockTokenUndo)) :=
  txs.foldlM (fun acc entry => do
    let r ← updateCoinsIndexed C fTokensDeployed nHeight blockHash acc.1 entry.1 (C.getHash entry.1) entry.2
    pure (r.1, match r.2 with
      | some undo => if undo.1.isEmpty then acc.2 else acc.2 ++ [undo]
      | none => acc.2)) (L, [])

end Connect

section Disconnect

variable (C : Crypto) (fTokensDeployed : Bool)

/-- `if (tokensCache->ContainsToken(name)) { if (!remove) return DISCONNECT_FAILED; }`. -/
def removeIfContainedIndexed (L : IndexedLayers) (name : Bytes) (remove : IndexedLayers → Bool × IndexedLayers) :
    Option IndexedLayers :=
  let r := L.tokens.checkIfTokenExists name true
  if r.1 then
    let r' := remove { L with tokens := r.2 }
    if r'.1 then some r'.2 else none
  else some { L with tokens := r.2 }

/-- The unique-token loop of `DisconnectBlock`. -/
def removeUniqueTokensIndexed (L : IndexedLayers) (vout : List CTxOut) : Option IndexedLayers :=
  vout.foldlM (fun L out =>
    if isScriptNewUniqueToken out.scriptPubKey then
      match tokenFromScript out.scriptPubKey with
      | some token => removeIfContainedIndexed L token.strName fun L =>
          L.removeNewToken token (scriptAddress C out.scriptPubKey)
      | none => none
    else some L) L

/-- `RemoveTransfer` of every spendable transfer output, in order. -/
def removeTransfers (A : AddressLayers) (vout : List CTxOut) : Option AddressLayers :=
  (vout.filter fun out => !isUnspendable out.scriptPubKey && isTransferToken out.scriptPubKey).foldlM
    (fun A out =>
      match transferTokenFromScript out.scriptPubKey with
      | some transfer => undoTransfer A transfer (scriptAddress C out.scriptPubKey)
      | none => none) A

/-- `UndoTokenCoin` of every token coin restored, last first, by
`ApplyTxInUndo`, where a failure only makes the disconnect unclean. -/
def undoTokenCoins (A : AddressLayers) (vprevout : List Coin) : AddressLayers :=
  vprevout.reverse.foldl (fun A coin => if coin.isToken then (undoTokenCoin C A coin).getD A else A) A

/-- The token side of `DisconnectBlock` for one transaction with the coins its
undo record gives back, `none` for `DISCONNECT_FAILED`.  The outputs are spent
into `tempCache`, which is dropped. -/
def disconnectTxIndexed (L : IndexedLayers) (tx : CTransaction) (vUndoData : List (Bytes × CBlockTokenUndo))
    (vprevout : List Coin) : Option IndexedLayers :=
  if !fTokensDeployed then some L
  else do
    let last := (voutFromEnd tx.vout 1).scriptPubKey
    let L ← if tx.isNewTokenTx then
        match tx.tokenFromTx with
        | some token => do
          let L ← removeIfContainedIndexed L token.strName fun L => L.removeNewToken token (scriptAddress C last)
          let owner := (voutFromEnd tx.vout 2).scriptPubKey
          match ownerTokenFromScript owner with
          | some ownerName => some (L.removeOwnerToken ownerName (scriptAddress C owner))
          | none => none
        | none => none
      else if tx.isReissueTokenTx then
        match tx.reissueFromTx with
        | some reissue => removeIfContainedIndexed L reissue.strName fun L =>
            L.removeReissueToken reissue (scriptAddress C last) (tx.lastOut (C.getHash tx)) vUndoData
        | none => none
      else if tx.isNewUniqueTokenTx then removeUniqueTokensIndexed C L tx.vout
      else some L
    let amounts ← removeTransfers C L.amounts tx.vout
    some ⟨L.tokens, undoTokenCoins C amounts vprevout⟩

/-- The token part of `DisconnectBlock`'s loop, from the last transaction. -/
def disconnectBlockIndexed (L : IndexedLayers) (txs : List (CTransaction × List Coin))
    (vUndoData : List (Bytes × CBlockTokenUndo)) : Option IndexedLayers :=
  txs.reverse.foldlM (fun L entry => disconnectTxIndexed C fTokensDeployed L entry.1 vUndoData entry.2) L

end Disconnect

section Exact

/-- The amount an output carries for a pair: the token amount of an issue,
transfer, owner or reissue output of the name paying the address. -/
def outAddressAmount (C : Crypto) (out : CTxOut) (key : TokenAddress) : Int :=
  match getTokenData out.scriptPubKey with
  | some tokenData => if (tokenData.tokenName, scriptAddress C out.scriptPubKey) = key then tokenData.nAmount.toInt
    else 0
  | none => 0

/-- The balance the index stands for: the amounts of the unspent coins of a view. -/
def exactAddressAmount (C : Crypto) (view : CCoinsMap) (key : TokenAddress) : Int :=
  (view.entries.map fun entry => outAddressAmount C entry.2.out key).sum

end Exact

section Reads

variable (A : AddressLayers)

/-- What a caller of `GetBestTokenAddressAmount` reads is the merged view of the layers. -/
theorem tokenAddressAmount_eq_view (tokenName : Bytes) (address : CTxDestination) :
    tokenAddressAmount A tokenName address = A.view (tokenName, address) := by
  unfold tokenAddressAmount getBestTokenAddressAmount
  dsimp only
  rw [Layers.fetch_fst, Layers.find?_top_fetch]
  cases A.view (tokenName, address) <;> rfl

end Reads

section Plain

/-- A transaction, with the coins it spent, that touches no token: neither its
outputs nor those coins have token scripts. -/
def PlainTx (entry : CTransaction × List Coin) : Prop :=
  (∀ out ∈ entry.1.vout, isTokenScript out.scriptPubKey = false) ∧
    ∀ coin ∈ entry.2, isTokenScript coin.out.scriptPubKey = false

instance : DecidablePred PlainTx := fun _ => inferInstanceAs (Decidable (_ ∧ _))

variable {C : Crypto} {A : AddressLayers} {L : IndexedLayers} {tx : CTransaction} {spent : List Coin}

theorem tokenScriptInfo_eq_none {script : CScript} (h : isTokenScript script = false) :
    tokenScriptInfo script = none := Option.not_isSome_iff_eq_none.mp (by simpa [isTokenScript] using h)

theorem isTokenScript_voutFromEnd {vout : List CTxOut} (h : ∀ out ∈ vout, isTokenScript out.scriptPubKey = false)
    (k : ℕ) : isTokenScript (voutFromEnd vout k).scriptPubKey = false := by
  unfold voutFromEnd
  split
  · rw [List.getD_eq_getElem?_getD]
    cases hget : vout[vout.length - k]? with
    | none => rfl
    | some out => exact h out (List.mem_of_getElem? hget)
  · rfl

/-- A transaction without token outputs is of none of the token kinds. -/
theorem kinds_of_no_token_outputs (h : ∀ out ∈ tx.vout, isTokenScript out.scriptPubKey = false) :
    tx.isNewTokenTx = false ∧ tx.isNewUsernameTx = false ∧ tx.isReissueTokenTx = false ∧
      tx.isNewUniqueTokenTx = false := by
  have hlast := tokenScriptInfo_eq_none (isTokenScript_voutFromEnd h 1)
  simp [CTransaction.isNewTokenTx, CTransaction.isNewUsernameTx, CTransaction.isReissueTokenTx,
    CTransaction.isNewUniqueTokenTx, isNewToken, isReissueToken, hlast]

/-- The data `GetTokenData` reads as a transfer comes from a transfer script. -/
theorem isTransferToken_of_getTokenData {script : CScript} {tokenData : CTokenOutputEntry}
    (h : getTokenData script = some tokenData) (htype : tokenData.type = .TX_TRANSFER_TOKEN) :
    isTransferToken script = true := by
  unfold getTokenData at h
  cases hinfo : tokenScriptInfo script with
  | none => simp [hinfo] at h
  | some info =>
    simp only [hinfo] at h
    by_cases hnew : info.isNew
    · simp only [hnew, if_true, Option.map_eq_some_iff] at h
      obtain ⟨_, -, rfl⟩ := h
      cases htype
    · by_cases htransfer : info.isTransfer
      · simp [isTransferToken, hinfo, htransfer]
      · by_cases howner : info.isOwner
        · simp only [hnew, htransfer, howner, Bool.false_eq_true, if_false, if_true, Option.map_eq_some_iff] at h
          obtain ⟨_, -, rfl⟩ := h
          cases htype
        · by_cases hreissue : info.isReissue
          · simp only [hnew, htransfer, howner, hreissue, Bool.false_eq_true, if_false, if_true,
              Option.map_eq_some_iff] at h
            obtain ⟨_, -, rfl⟩ := h
            cases htype
          · simp [hnew, htransfer, howner, hreissue] at h

/-- A fold that leaves its state alone at every element. -/
theorem foldl_eq_of_fixed {α β : Type} {f : β → α → β} : ∀ {l : List α} (b : β),
    (∀ a ∈ l, f b a = b) → l.foldl f b = b
  | [], _, _ => rfl
  | a :: l, b, h => by
    rw [List.foldl_cons, h a List.mem_cons_self]
    exact foldl_eq_of_fixed b fun a' ha' => h a' (List.mem_cons_of_mem _ ha')

/-- Outputs that carry no transfer add to no balance. -/
theorem addTransferTokens_of_no_transfer {vout : List CTxOut} (A : AddressLayers)
    (h : ∀ out ∈ vout, isTransferToken out.scriptPubKey = false) : addTransferTokens C A vout = A := by
  refine foldl_eq_of_fixed A fun out hout => ?_
  cases hdata : getTokenData out.scriptPubKey with
  | none => rfl
  | some tokenData =>
    have htype : tokenData.type ≠ .TX_TRANSFER_TOKEN := fun htype => by
      simpa [h out hout] using isTransferToken_of_getTokenData hdata htype
    simp [htype]

theorem isTransferToken_of_not_tokenScript {script : CScript} (h : isTokenScript script = false) :
    isTransferToken script = false := by
  simp [isTransferToken, tokenScriptInfo_eq_none h]

/-- A fold that leaves its state alone at every element. -/
theorem foldlM_eq_some_of_fixed {α β : Type} {f : β → α → Option β} : ∀ {l : List α} (b : β),
    (∀ a ∈ l, f b a = some b) → l.foldlM f b = some b
  | [], _, _ => rfl
  | a :: l, b, h => by
    rw [List.foldlM_cons, h a List.mem_cons_self]
    exact foldlM_eq_some_of_fixed b fun a' ha' => h a' (List.mem_cons_of_mem _ ha')

theorem trySpendCoins_of_no_token (hspent : ∀ coin ∈ spent, isTokenScript coin.out.scriptPubKey = false) :
    spent.foldlM (fun A coin => trySpendCoin C A coin.out) A = some A :=
  foldlM_eq_some_of_fixed A fun coin hcoin => by
    simp [trySpendCoin, tokenScriptInfo_eq_none (hspent coin hcoin)]

theorem undoTokenCoins_of_no_token (hspent : ∀ coin ∈ spent, isTokenScript coin.out.scriptPubKey = false) :
    undoTokenCoins C A spent = A :=
  -- each coin restored is no token, so `UndoTokenCoin` is not called
  foldl_eq_of_fixed A fun coin hcoin => by simp [Coin.isToken, hspent coin (List.mem_reverse.mp hcoin)]

theorem removeTransfers_of_no_transfer {vout : List CTxOut}
    (h : ∀ out ∈ vout, isTransferToken out.scriptPubKey = false) : removeTransfers C A vout = some A := by
  have hnil : (vout.filter fun out => !isUnspendable out.scriptPubKey && isTransferToken out.scriptPubKey) = [] := by
    rw [List.filter_eq_nil_iff]
    intro out hout
    simp [h out hout]
  simp [removeTransfers, hnil]

/-- `UpdateCoins` of a transaction that touches no token leaves the layers and
the balances as they are. -/
theorem updateCoinsIndexed_plain (nHeight : Int) (blockHash : uint256) (txid : uint256)
    (h : PlainTx (tx, spent)) : updateCoinsIndexed C true nHeight blockHash L tx txid spent = some (L, none) := by
  obtain ⟨hnew, husername, hreissue, hunique⟩ := kinds_of_no_token_outputs h.1
  have htransfers := fun out hout => isTransferToken_of_not_tokenScript (h.1 out hout)
  simp [updateCoinsIndexed, trySpendCoins_of_no_token h.2, addCoinsIndexed, hnew, husername, hreissue, hunique,
    addTransferTokens_of_no_transfer _ htransfers]

/-- `DisconnectBlock` of a transaction that touches no token leaves the layers
and the balances as they are. -/
theorem disconnectTxIndexed_plain (vUndoData : List (Bytes × CBlockTokenUndo)) (h : PlainTx (tx, spent)) :
    disconnectTxIndexed C true L tx vUndoData spent = some L := by
  obtain ⟨hnew, -, hreissue, hunique⟩ := kinds_of_no_token_outputs h.1
  have htransfers := fun out hout => isTransferToken_of_not_tokenScript (h.1 out hout)
  simp [disconnectTxIndexed, hnew, hreissue, hunique, removeTransfers_of_no_transfer htransfers,
    undoTokenCoins_of_no_token h.2]

end Plain

section Username

variable {C : Crypto} {L : IndexedLayers} {tx : CTransaction} {spent : List Coin} {token : CNewToken}

/-- `UpdateCoins` of a username issue, spending no token and paying no
transfer, whose name does not exist: the username is added and its balance set
to the amount issued, at the address of the issue output. -/
theorem updateCoinsIndexed_username (nHeight : Int) (blockHash : uint256) (txid : uint256)
    (hnew : tx.isNewTokenTx = false) (husername : tx.isNewUsernameTx = true) (htoken : tx.tokenFromTx = some token)
    (hfresh : (L.tokens.checkIfTokenExists token.strName true).1 = false)
    (hspent : ∀ coin ∈ spent, isTokenScript coin.out.scriptPubKey = false)
    (htransfers : ∀ out ∈ tx.vout, isTransferToken out.scriptPubKey = false) :
    updateCoinsIndexed C true nHeight blockHash L tx txid spent =
      some (⟨(L.tokens.addNewToken token nHeight blockHash).2, setTokenAddressAmount L.amounts token.strName
        (scriptAddress C (voutFromEnd tx.vout 1).scriptPubKey) token.nAmount⟩, none) := by
  have hadd : (L.tokens.addNewToken token nHeight blockHash).1 = true := by
    rw [TokenLayers.addNewToken_fst, hfresh]; rfl
  simp [updateCoinsIndexed, trySpendCoins_of_no_token hspent, addCoinsIndexed, hnew, husername, htoken,
    IndexedLayers.addNewToken, hadd, addTransferTokens_of_no_transfer _ htransfers]

/-- `DisconnectBlock` of such a username issue changes nothing: none of its
kinds is undone, it has no transfer, and it restores no token. -/
theorem disconnectTxIndexed_username (vUndoData : List (Bytes × CBlockTokenUndo))
    (hnew : tx.isNewTokenTx = false) (husername : tx.isNewUsernameTx = true)
    (hspent : ∀ coin ∈ spent, isTokenScript coin.out.scriptPubKey = false)
    (htransfers : ∀ out ∈ tx.vout, isTransferToken out.scriptPubKey = false) :
    disconnectTxIndexed C true L tx vUndoData spent = some L := by
  obtain ⟨hreissue, hunique⟩ := CTransaction.kinds_of_isNewUsernameTx husername
  simp [disconnectTxIndexed, hnew, hreissue, hunique, removeTransfers_of_no_transfer htransfers,
    undoTokenCoins_of_no_token hspent]

end Username

section Fixtures

/-- The layers and balances of a node with an empty database. -/
def emptyIndexedLayers : IndexedLayers := ⟨emptyLayers, ⟨[], [], []⟩⟩

/-- The address the `@ALICE` output pays. -/
def aliceAddress : CTxDestination := scriptAddress Crypto.truncating (stakerScript ++ usernamePart)

/-- The transactions of `aliceBlock`, each with the coins of `aliceView` it spends. -/
def aliceTxs : List (CTransaction × List Coin) :=
  [(posCoinbase, []), (stakeOf 0, [Coin.make ⟨1000 * COIN, stakerScript⟩ 871000 false false 0]),
    (aliceIssue aliceFunds₁, [Coin.make ⟨2 * COIN, stakerScript⟩ 871000 false false 0])]

end Fixtures

section RoundTrip

/-- Connecting a block whose one token transaction issues a username that does
not exist, spending no token and paying no transfer, between transactions that
touch no token, and then disconnecting it with the undo data the connect wrote,
each from a fresh cache flushed after: the username's balance at the address of
its issue is the amount issued, and every other balance is what it was. -/
theorem username_balance_survives_disconnect (C : Crypto) (S : IndexedLayers) (nHeight : Int) (blockHash : uint256)
    {pre post : List (CTransaction × List Coin)} {tx : CTransaction} {spent : List Coin} {token : CNewToken}
    (hS : S.amounts.top = []) (hpre : ∀ entry ∈ pre, PlainTx entry) (hpost : ∀ entry ∈ post, PlainTx entry)
    (hnew : tx.isNewTokenTx = false) (husername : tx.isNewUsernameTx = true) (htoken : tx.tokenFromTx = some token)
    (hfresh : (S.tokens.checkIfTokenExists token.strName true).1 = false)
    (hspent : ∀ coin ∈ spent, isTokenScript coin.out.scriptPubKey = false)
    (htransfers : ∀ out ∈ tx.vout, isTransferToken out.scriptPubKey = false) :
    ∃ L, ((connectBlockIndexed C true nHeight blockHash S (pre ++ (tx, spent) :: post)).bind fun r =>
        (disconnectBlockIndexed C true r.1.flush (pre ++ (tx, spent) :: post) r.2).map IndexedLayers.flush) =
          some L ∧
      tokenAddressAmount L.amounts token.strName (scriptAddress C (voutFromEnd tx.vout 1).scriptPubKey) =
        some token.nAmount ∧
      ∀ name address, (name, address) ≠ (token.strName, scriptAddress C (voutFromEnd tx.vout 1).scriptPubKey) →
        tokenAddressAmount L.amounts name address = tokenAddressAmount S.amounts name address := by
  set address := scriptAddress C (voutFromEnd tx.vout 1).scriptPubKey
  set L₁ : IndexedLayers := ⟨(S.tokens.addNewToken token nHeight blockHash).2,
    setTokenAddressAmount S.amounts token.strName address token.nAmount⟩
  -- the transactions that touch no token change nothing, the username sets its balance
  have hconnect : connectBlockIndexed C true nHeight blockHash S (pre ++ (tx, spent) :: post) = some (L₁, []) := by
    unfold connectBlockIndexed
    rw [List.foldlM_append, foldlM_eq_some_of_fixed (S, [])]
    · simp only [Option.bind_eq_bind, Option.bind_some, List.foldlM_cons]
      rw [updateCoinsIndexed_username nHeight blockHash _ hnew husername htoken hfresh hspent htransfers]
      simp only [Option.bind_some, Option.pure_def]
      refine foldlM_eq_some_of_fixed (L₁, []) fun entry hentry => ?_
      simp [updateCoinsIndexed_plain nHeight blockHash _ (hpost entry hentry)]
    · intro entry hentry
      simp [updateCoinsIndexed_plain nHeight blockHash _ (hpre entry hentry)]
  -- and the disconnect changes nothing at all: the username is not undone
  have hdisconnect : disconnectBlockIndexed C true L₁.flush (pre ++ (tx, spent) :: post) [] = some L₁.flush := by
    refine foldlM_eq_some_of_fixed L₁.flush fun entry hentry => ?_
    rcases List.mem_append.mp (List.mem_reverse.mp hentry) with hentry | hentry
    · exact disconnectTxIndexed_plain [] (hpre entry hentry)
    · rcases List.mem_cons.mp hentry with rfl | hentry
      · exact disconnectTxIndexed_username [] hnew husername hspent htransfers
      · exact disconnectTxIndexed_plain [] (hpost entry hentry)
  -- the two flushes keep every balance a reader sees
  have hkeyed : L₁.amounts.Keyed :=
    Layers.keyed_write _ _ _ (by simp [Layers.Keyed, hS, OrderedMap.keys])
  have hview : ∀ key, (L₁.flush.flush.amounts).view key = L₁.amounts.view key := fun key => by
    show ((L₁.amounts.flush tokenAddressLt).flush tokenAddressLt).view key = _
    rw [Layers.view_flush _ (Layers.keyed_flush _), Layers.view_flush _ hkeyed]
  refine ⟨L₁.flush.flush, by simp [hconnect, hdisconnect], ?_, fun name address hne => ?_⟩
  · rw [tokenAddressAmount_eq_view, hview]
    exact Layers.view_write_self _ _ _
  · rw [tokenAddressAmount_eq_view, tokenAddressAmount_eq_view, hview]
    exact Layers.view_write_ne _ _ hne

set_option maxRecDepth 10000 in
/-- `ConnectBlock` accepts the block issuing `@ALICE` on `aliceView`, where no
coin carries the name, on a node whose issuance checks and token cache are
those of the empty layers, spending the coins `aliceTxs` gives.  Disconnecting
it gives the coins back cleanly and again no coin carries `@ALICE`, while the
index, from an empty database, reports one `@ALICE` at the address it paid. -/
theorem aliceBalance_survives_disconnect :
    aliceTxs.map Prod.fst = aliceBlock.vtx ∧
    (connectBlock (acceptingEnv acceptAll) (tokenNode 871499 emptyLayers) (revalidationAgainst emptyLayers)
      aliceBlock 871500 aliceView initGovernance false false).1.toOption.map
        (fun r => r.2.vtxundo.map CTxUndo.vprevout) = some (aliceTxs.tail.map Prod.snd) ∧
    exactAddressAmount Crypto.truncating aliceView (aliceName, aliceAddress) = 0 ∧
    (let c := connectBlock (acceptingEnv acceptAll) (tokenNode 871499 emptyLayers) (revalidationAgainst emptyLayers)
      aliceBlock 871500 aliceView initGovernance false false
    c.1.toOption.bind fun r =>
      (disconnectBlock Crypto.truncating (tokenNode 871499 emptyLayers).tx.params.governanceMasterScript 871500
        aliceBlock (some (undoWriteToDisk Crypto.truncating r.2)) r.1 c.2).toOption.map fun d =>
          (d.1, exactAddressAmount Crypto.truncating d.2.view (aliceName, aliceAddress))) =
      some (.DISCONNECT_OK, 0) ∧
    ∃ L, ((connectBlockIndexed Crypto.truncating true 871500 aliceBlockHash emptyIndexedLayers aliceTxs).bind
        fun r => (disconnectBlockIndexed Crypto.truncating true r.1.flush aliceTxs r.2).map IndexedLayers.flush) =
          some L ∧
      tokenAddressAmount L.amounts aliceName aliceAddress = some COIN := by
  have hpre : ∀ entry ∈ aliceTxs.take 2, PlainTx entry := by decide
  have hpost : ∀ entry ∈ ([] : List (CTransaction × List Coin)), PlainTx entry := by simp
  have hspent : ∀ coin ∈ [Coin.make ⟨2 * COIN, stakerScript⟩ 871000 false false 0],
      isTokenScript coin.out.scriptPubKey = false := by decide
  have htransfers : ∀ out ∈ (aliceIssue aliceFunds₁).vout, isTransferToken out.scriptPubKey = false := by decide
  obtain ⟨L, hL, hkey, -⟩ := username_balance_survives_disconnect Crypto.truncating emptyIndexedLayers 871500
    aliceBlockHash rfl hpre hpost (aliceIssue_isNewTokenTx _) (aliceIssue_isNewUsernameTx _)
    (aliceIssue_tokenFromTx _) aliceToken_fresh hspent htransfers
  exact ⟨rfl, by decide, by decide, by decide, L, hL, hkey⟩

end RoundTrip

end AokChain
