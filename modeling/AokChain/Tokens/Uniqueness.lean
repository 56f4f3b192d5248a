import AokChain.Tokens.Validity

/-!
# The names a block creates

`ConnectBlock` validates each new-token and unique-token issue again against the
cache the block is connected into, and `AddCoins` then adds its names there.
Every write of this token work goes to the block's own cache or to the LRU, and
none of them makes a name stop existing.  So when no name the block issues is
marked removed in `ptokens`, and the block issues no username, the names it
creates are distinct and none existed before it.
-/

namespace AokChain
open Serial

namespace TokenLayers

/-- The later layers keep `ptokens` and every name that exists. -/
structure Grows (L L' : TokenLayers) : Prop where
  ptokens : L'.ptokens = L.ptokens
  exists_of_exists : ∀ name, (L.checkIfTokenExists name true).1 = true → (L'.checkIfTokenExists name true).1 = true

theorem Grows.refl (L : TokenLayers) : Grows L L := ⟨rfl, fun _ h => h⟩

theorem Grows.trans {L₁ L₂ L₃ : TokenLayers} (h₁ : Grows L₁ L₂) (h₂ : Grows L₂ L₃) : Grows L₁ L₃ :=
  ⟨h₂.ptokens.trans h₁.ptokens, fun name h => h₂.exists_of_exists name (h₁.exists_of_exists name h)⟩

theorem Grows.not_exists {L L' : TokenLayers} (hgrows : Grows L L') {name : Bytes}
    (h : (L'.checkIfTokenExists name true).1 = false) : (L.checkIfTokenExists name true).1 = false := by
  cases hL : (L.checkIfTokenExists name true).1 with
  | false => rfl
  | true => simp [hgrows.exists_of_exists name hL] at h

/-- Layers grow when `ptokens` and the database stay, the cache's removals only
shrink, and the cache's additions and the LRU only grow. -/
theorem Grows.of_layers {L L' : TokenLayers} (hptokens : L'.ptokens = L.ptokens) (hdb : L'.ptokensdb = L.ptokensdb)
    (hremove : ∀ name, KeyedSet.contains CTokenCacheNewToken.name name L'.cache.setNewTokensToRemove = true →
      KeyedSet.contains CTokenCacheNewToken.name name L.cache.setNewTokensToRemove = true)
    (hadd : ∀ name, KeyedSet.contains CTokenCacheNewToken.name name L.cache.setNewTokensToAdd = true →
      KeyedSet.contains CTokenCacheNewToken.name name L'.cache.setNewTokensToAdd = true)
    (hlru : ∀ name, (OrderedMap.find? name L.ptokensCache).isSome = true →
      (OrderedMap.find? name L'.ptokensCache).isSome = true) :
    Grows L L' := by
  refine ⟨hptokens, fun name h => ?_⟩
  rw [checkIfTokenExists_fst] at h ⊢
  rw [hptokens, hdb]
  simp only [Bool.and_eq_true, Bool.not_eq_true', Bool.or_eq_true] at h ⊢
  obtain ⟨⟨⟨hrem, hrem'⟩, hforce⟩, hsome⟩ := h
  -- a removal of the later cache was one of the earlier cache
  have hrem₁ : KeyedSet.contains CTokenCacheNewToken.name name L'.cache.setNewTokensToRemove = false := by
    cases h' : KeyedSet.contains CTokenCacheNewToken.name name L'.cache.setNewTokensToRemove with
    | false => rfl
    | true => simp [hremove name h'] at hrem
  refine ⟨⟨⟨hrem₁, hrem'⟩, hforce⟩, ?_⟩
  rcases hsome with ((hc | hp) | hl) | hd
  · exact .inl (.inl (.inl (hadd name hc)))
  · exact .inl (.inl (.inr hp))
  · exact .inl (.inr (hlru name hl))
  · exact .inr hd

/-- An entry the LRU takes from the database. -/
theorem grows_lru (L : TokenLayers) (k : Bytes) (data : CDatabasedTokenData) :
    Grows L { L with ptokensCache := OrderedMap.alter bytesLt k (fun _ => data) L.ptokensCache } := by
  refine Grows.of_layers rfl rfl (fun _ h => h) (fun _ h => h) fun name h => ?_
  by_cases hk : name = k
  · subst hk
    simp
  · simpa [OrderedMap.find?_alter_ne bytesLt (fun _ => data) hk] using h

theorem checkIfTokenExists_grows (L : TokenLayers) (name : Bytes) (fForceDuplicateCheck : Bool) :
    Grows L (L.checkIfTokenExists name fForceDuplicateCheck).2 := by
  unfold checkIfTokenExists
  split_ifs
  all_goals try exact Grows.refl L
  split
  · exact grows_lru L _ _
  · exact Grows.refl L

theorem getTokenMetaDataIfExists_grows (L : TokenLayers) (name : Bytes) :
    Grows L (L.getTokenMetaDataIfExists name).2 := by
  unfold getTokenMetaDataIfExists
  repeat' split
  all_goals first | exact Grows.refl L | exact grows_lru L _ _

/-- An issue recorded in the cache. -/
theorem grows_addNew (L : TokenLayers) (e : CTokenCacheNewToken) :
    Grows L { L with cache := L.cache.addNew e } := by
  refine Grows.of_layers rfl rfl (fun name h => ?_) (fun name h => ?_) fun _ h => h
  · by_cases hk : name = e.name
    · subst hk
      simp [CTokensCache.addNew] at h
    · simpa [CTokensCache.addNew, KeyedSet.contains_erase_ne hk] using h
  · simp [CTokensCache.addNew, KeyedSet.contains_insert, h]

/-- A cache whose issues and removals are those of the layers' own cache. -/
theorem grows_cache (L : TokenLayers) {cache : CTokensCache}
    (hadd : cache.setNewTokensToAdd = L.cache.setNewTokensToAdd)
    (hremove : cache.setNewTokensToRemove = L.cache.setNewTokensToRemove) :
    Grows L { L with cache := cache } :=
  Grows.of_layers rfl rfl (fun _ h => by simpa [hremove] using h) (fun _ h => by simpa [hadd] using h) fun _ h => h

/-- An issue recorded in the cache leaves the answer for every other name. -/
theorem checkIfTokenExists_addNew_ne (L : TokenLayers) (e : CTokenCacheNewToken) {name : Bytes} (hne : name ≠ e.name)
    (fForceDuplicateCheck : Bool) :
    ({ L with cache := L.cache.addNew e }.checkIfTokenExists name fForceDuplicateCheck).1 =
      (L.checkIfTokenExists name fForceDuplicateCheck).1 := by
  have hne' : e.name ≠ name := Ne.symm hne
  rw [checkIfTokenExists_fst, checkIfTokenExists_fst]
  simp [CTokensCache.addNew, KeyedSet.contains_erase_ne hne, KeyedSet.contains_insert, hne']

theorem addNewToken_grows (L : TokenLayers) (token : CNewToken) (nHeight : Int) (blockHash : uint256) :
    Grows L (L.addNewToken token nHeight blockHash).2 := by
  have hcheck := L.checkIfTokenExists_grows token.strName true
  simp only [addNewToken]
  split
  · exact hcheck
  · exact hcheck.trans (grows_addNew _ _)

theorem addReissueToken_grows (L : TokenLayers) (reissue : CReissueToken) (out : COutPoint) :
    Grows L (L.addReissueToken reissue out).2 := by
  have hget := L.getTokenMetaDataIfExists_grows reissue.strName
  simp only [addReissueToken]
  split
  · exact hget
  · -- the reissued metadata and the reissue go to the cache, beside its issues
    refine hget.trans (grows_cache _ ?_ ?_)
    all_goals split <;> rfl

end TokenLayers

section Growth

open TokenLayers

variable {C : Crypto} {g : CGovernance}

theorem CNewToken.isValid_grows (token : CNewToken) (L : TokenLayers) (mapTokenToHash : Bytes → Bool)
    (fCheckMempool fCheckDuplicateInputs fForceDuplicateCheck : Bool) :
    L.Grows (token.isValid L mapTokenToHash fCheckMempool fCheckDuplicateInputs fForceDuplicateCheck).2 := by
  simp only [CNewToken.isValid]
  split_ifs
  all_goals first | exact L.checkIfTokenExists_grows _ _ | exact Grows.refl L

theorem CReissueToken.isValid_grows (reissue : CReissueToken) (L : TokenLayers)
    (fForceCheckPrimaryTokenExists : Bool) : L.Grows (reissue.isValid L fForceCheckPrimaryTokenExists).2 := by
  simp only [CReissueToken.isValid]
  split
  · split <;> exact L.getTokenMetaDataIfExists_grows _
  · exact Grows.refl L

theorem revalidateUniqueTokens_grows (L : TokenLayers) (vout : List CTxOut) :
    L.Grows (revalidateUniqueTokens L vout).2 := by
  induction vout generalizing L with
  | nil => exact Grows.refl L
  | cons out vout ih =>
    simp only [revalidateUniqueTokens]
    split_ifs
    · split
      · exact Grows.refl L
      · split
        · exact CNewToken.isValid_grows _ _ _ _ _ _
        · exact (CNewToken.isValid_grows _ _ _ _ _ _).trans (ih _)
    · exact ih L

theorem connectTokenRevalidation_grows (fTokensDeployed : Bool) (L : TokenLayers) (tx : CTransaction) :
    L.Grows (connectTokenRevalidation C g fTokensDeployed L tx).2 := by
  unfold connectTokenRevalidation
  repeat' split
  all_goals first
    | exact Grows.refl L
    | exact CNewToken.isValid_grows _ _ _ _ _ _
    | exact CReissueToken.isValid_grows _ _ _
    | exact revalidateUniqueTokens_grows _ _

theorem addUniqueTokens_grows (nHeight : Int) (blockHash : uint256) (L : TokenLayers) (vout : List CTxOut) :
    L.Grows (addUniqueTokens nHeight blockHash L vout) := by
  induction vout generalizing L with
  | nil => exact Grows.refl L
  | cons out vout ih =>
    simp only [addUniqueTokens, List.foldl_cons] at ih ⊢
    split_ifs
    · exact (L.addNewToken_grows _ _ _).trans (ih _)
    · exact ih L

theorem addCoinsTokens_grows (fTokensDeployed : Bool) (nHeight : Int) (blockHash : uint256) (L : TokenLayers)
    (tx : CTransaction) (txid : uint256) : L.Grows (addCoinsTokens fTokensDeployed nHeight blockHash L tx txid).1 := by
  -- the new token is added first, whatever the branch after it
  have hnew : L.Grows (if tx.isNewTokenTx then (L.addNewToken (tx.tokenFromTx.getD CNewToken.null) nHeight
      blockHash).2 else L) := by
    split
    · exact L.addNewToken_grows _ _ _
    · exact Grows.refl L
  unfold addCoinsTokens
  split
  · exact Grows.refl L
  dsimp only
  generalize (if tx.isNewTokenTx then (L.addNewToken (tx.tokenFromTx.getD CNewToken.null) nHeight
      blockHash).2 else L) = L₀ at hnew ⊢
  split
  · exact hnew.trans (addNewToken_grows _ _ _ _)
  split
  · exact hnew.trans ((getTokenMetaDataIfExists_grows _ _).trans (addReissueToken_grows _ _ _))
  split
  · exact hnew.trans (addUniqueTokens_grows _ _ _ _)
  · exact hnew

theorem connectBlockTokenChecks_cons_eq_ok {fTokensDeployed : Bool} {nHeight : Int} {blockHash : uint256}
    {L L' : TokenLayers} {tx : CTransaction} {vtx : List CTransaction} :
    connectBlockTokenChecks C g fTokensDeployed nHeight blockHash L (tx :: vtx) = .ok L' ↔
      ∃ L₁, connectTokenRevalidation C g fTokensDeployed L tx = (.ok (), L₁) ∧
        connectBlockTokenChecks C g fTokensDeployed nHeight blockHash
          (addCoinsTokens fTokensDeployed nHeight blockHash L₁ tx (C.getHash tx)).1 vtx = .ok L' := by
  simp only [connectBlockTokenChecks]
  rcases connectTokenRevalidation C g fTokensDeployed L tx with ⟨_ | ⟨⟩, L₁⟩
  · simp
  · simp

/-- The token work of a block that passes grows the layers it starts from. -/
theorem connectBlockTokenChecks_grows {fTokensDeployed : Bool} {nHeight : Int} {blockHash : uint256}
    (L : TokenLayers) (vtx : List CTransaction) {L' : TokenLayers}
    (h : connectBlockTokenChecks C g fTokensDeployed nHeight blockHash L vtx = .ok L') : L.Grows L' := by
  induction vtx generalizing L with
  | nil =>
    cases h
    exact Grows.refl _
  | cons tx vtx ih =>
    obtain ⟨L₁, hrev, hrest⟩ := connectBlockTokenChecks_cons_eq_ok.mp h
    have hL₁ : L.Grows L₁ := by simpa [hrev] using @connectTokenRevalidation_grows C g fTokensDeployed L tx
    exact (hL₁.trans (addCoinsTokens_grows _ _ _ _ _ _)).trans (ih _ hrest)

end Growth

section Revalidation

variable {C : Crypto} {g : CGovernance}

theorem Except.eq_ok_of_isOk {r : Except String Unit} (h : r.isOk = true) : r = .ok () := by
  cases r
  · simp [Except.isOk, Except.toBool] at h
  · rfl

/-- `CNewToken::IsValid` with the duplicate test passes only on a name that does
not exist, and then writes nothing. -/
theorem CNewToken.isValid_fresh {token : CNewToken} {L : TokenLayers} {mapTokenToHash : Bytes → Bool}
    {fCheckMempool : Bool} (h : (token.isValid L mapTokenToHash fCheckMempool true true).1 = .ok ()) :
    (L.checkIfTokenExists token.strName true).1 = false ∧ (token.isValid L mapTokenToHash fCheckMempool true true).2 = L := by
  simp only [CNewToken.isValid, if_true] at h ⊢
  cases hc : (L.checkIfTokenExists token.strName true).1 with
  | true => simp [hc] at h
  | false =>
    refine ⟨rfl, ?_⟩
    simp only [Bool.false_eq_true, if_false]
    split_ifs <;> exact TokenLayers.checkIfTokenExists_false hc

/-- What `ConnectBlock`'s re-validation of a new-token issue establishes. -/
theorem connectTokenRevalidation_newToken {L L₁ : TokenLayers} {tx : CTransaction} (hnew : tx.isNewTokenTx = true)
    (h : connectTokenRevalidation C g true L tx = (.ok (), L₁)) :
    ∃ token, tx.tokenFromTx = some token ∧ (L.checkIfTokenExists token.strName true).1 = false ∧ L₁ = L := by
  unfold connectTokenRevalidation at h
  rw [if_pos hnew] at h
  split_ifs at h with hdeployed
  · simp at hdeployed
  · simp [reject] at h
  split at h
  · simp [reject] at h
  rename_i token htoken
  split at h
  · simp [reject] at h
  simp only [Prod.mk.injEq, requireValid_eq_ok] at h
  obtain ⟨hfresh, hlayers⟩ := CNewToken.isValid_fresh h.1
  exact ⟨token, htoken, hfresh, h.2.symm.trans hlayers⟩

/-- `ConnectBlock`'s loop over the unique-token outputs passes only when each
parses to a token whose name does not exist, and then writes nothing. -/
theorem revalidateUniqueTokens_fresh {L L₁ : TokenLayers} {vout : List CTxOut}
    (h : revalidateUniqueTokens L vout = (.ok (), L₁)) :
    L₁ = L ∧ ∀ out ∈ vout, isScriptNewUniqueToken out.scriptPubKey = true →
      ∃ token, tokenFromScript out.scriptPubKey = some token ∧ (L.checkIfTokenExists token.strName true).1 = false := by
  induction vout generalizing L with
  | nil =>
    cases h
    simp
  | cons out vout ih =>
    simp only [revalidateUniqueTokens] at h
    split_ifs at h with hunique
    · split at h
      · simp [reject] at h
      rename_i token htoken
      split at h
      · simp [reject] at h
      rename_i hvalid
      obtain ⟨hfresh, hlayers⟩ := CNewToken.isValid_fresh hvalid
      rw [hlayers] at h
      obtain ⟨hL₁, hrest⟩ := ih h
      refine ⟨hL₁, fun out' hmem hunique' => ?_⟩
      rcases List.mem_cons.mp hmem with rfl | hmem
      · exact ⟨token, htoken, hfresh⟩
      · exact hrest out' hmem hunique'
    · obtain ⟨hL₁, hrest⟩ := ih h
      refine ⟨hL₁, fun out' hmem hunique' => ?_⟩
      rcases List.mem_cons.mp hmem with rfl | hmem
      · simp [hunique'] at hunique
      · exact hrest out' hmem hunique'

/-- What `ConnectBlock`'s re-validation of a unique-token issue establishes. -/
theorem connectTokenRevalidation_uniqueToken {L L₁ : TokenLayers} {tx : CTransaction} (hnew : tx.isNewTokenTx = false)
    (hreissue : tx.isReissueTokenTx = false) (hunique : tx.isNewUniqueTokenTx = true)
    (h : connectTokenRevalidation C g true L tx = (.ok (), L₁)) :
    tx.verifyNewUniqueToken C g = .ok () ∧ L₁ = L ∧ ∀ out ∈ tx.vout, isScriptNewUniqueToken out.scriptPubKey = true →
      ∃ token, tokenFromScript out.scriptPubKey = some token ∧ (L.checkIfTokenExists token.strName true).1 = false := by
  simp only [connectTokenRevalidation, hnew, hreissue, hunique, Bool.false_eq_true, if_false, if_true,
    Bool.not_true] at h
  split_ifs at h with hverify
  · simp [reject] at h
  have hverify : tx.verifyNewUniqueToken C g = .ok () := Except.eq_ok_of_isOk (by simpa using hverify)
  exact ⟨hverify, revalidateUniqueTokens_fresh h⟩

end Revalidation

section Names

variable {C : Crypto} {g : CGovernance} {nHeight : Int} {blockHash : uint256}

/-- The names `AddCoins` issues for a transaction: that of a new token, then
that of a username, or those of the unique tokens. -/
def CTransaction.createdNames (tx : CTransaction) : List Bytes :=
  let issued := (tx.tokenFromTx.getD CNewToken.null).strName
  (if tx.isNewTokenTx then [issued] else []) ++
    if tx.isNewUsernameTx then [issued]
    else if tx.isReissueTokenTx then []
    else if tx.isNewUniqueTokenTx then uniqueTokenNames tx.vout
    else []

theorem CTransaction.kinds_of_isNewTokenTx {tx : CTransaction} (h : tx.isNewTokenTx = true) :
    tx.isReissueTokenTx = false ∧ tx.isNewUniqueTokenTx = false := by
  simp only [CTransaction.isNewTokenTx, Bool.and_eq_true, Bool.not_eq_true'] at h
  refine ⟨isReissueToken_of_isNewToken h.1.1, ?_⟩
  simp [CTransaction.isNewUniqueTokenTx, h.2]

theorem mem_uniqueTokenNames {vout : List CTxOut} {out : CTxOut} {token : CNewToken} (hmem : out ∈ vout)
    (hunique : isScriptNewUniqueToken out.scriptPubKey = true) (htoken : tokenFromScript out.scriptPubKey = some token) :
    token.strName ∈ uniqueTokenNames vout := by
  simp only [uniqueTokenNames, List.mem_map, List.mem_filter]
  exact ⟨out, ⟨hmem, hunique⟩, by simp [htoken]⟩

/-- `AddCoins`'s loop over the unique-token outputs creates each name, when the
outputs parse to tokens of distinct names none of which exists or is hidden by
`ptokens`. -/
theorem addUniqueTokens_creates {L : TokenLayers} {vout : List CTxOut}
    (hfresh : ∀ out ∈ vout, isScriptNewUniqueToken out.scriptPubKey = true →
      ∃ token, tokenFromScript out.scriptPubKey = some token ∧ (L.checkIfTokenExists token.strName true).1 = false)
    (hnodup : (uniqueTokenNames vout).Nodup)
    (hshown : ∀ name ∈ uniqueTokenNames vout,
      KeyedSet.contains CTokenCacheNewToken.name name L.ptokens.setNewTokensToRemove = false) :
    ∀ name ∈ uniqueTokenNames vout, ((addUniqueTokens nHeight blockHash L vout).checkIfTokenExists name true).1 = true := by
  induction vout generalizing L with
  | nil => simp [uniqueTokenNames]
  | cons out vout ih =>
    by_cases hunique : isScriptNewUniqueToken out.scriptPubKey = true
    · obtain ⟨token, htoken, hfresh₀⟩ := hfresh out List.mem_cons_self hunique
      have hnames : uniqueTokenNames (out :: vout) = token.strName :: uniqueTokenNames vout := by
        simp [uniqueTokenNames, hunique, htoken]
      -- the first output's issue goes to the cache, and the loop goes on from there
      set L₁ := { L with cache := L.cache.addNew ⟨token, nHeight, blockHash⟩ } with hL₁
      have hstep : addUniqueTokens nHeight blockHash L (out :: vout) = addUniqueTokens nHeight blockHash L₁ vout := by
        simp [addUniqueTokens, hunique, htoken, L.addNewToken_of_fresh nHeight blockHash hfresh₀, hL₁]
      rw [hnames] at hnodup hshown
      obtain ⟨hnotin, hnodup'⟩ := List.nodup_cons.mp hnodup
      have hfresh₁ : ∀ out' ∈ vout, isScriptNewUniqueToken out'.scriptPubKey = true →
          ∃ token', tokenFromScript out'.scriptPubKey = some token' ∧
            (L₁.checkIfTokenExists token'.strName true).1 = false := by
        intro out' hmem hunique'
        obtain ⟨token', htoken', hfresh'⟩ := hfresh out' (List.mem_cons_of_mem _ hmem) hunique'
        have hne : token'.strName ≠ token.strName := fun heq =>
          hnotin (heq ▸ mem_uniqueTokenNames hmem hunique' htoken')
        exact ⟨token', htoken', by rw [TokenLayers.checkIfTokenExists_addNew_ne L _ hne, hfresh']⟩
      have hcreated := ih hfresh₁ hnodup' fun name hmem => hshown name (List.mem_cons_of_mem _ hmem)
      intro name hmem
      rw [hnames] at hmem
      rw [hstep]
      rcases List.mem_cons.mp hmem with rfl | hmem
      · -- the first name exists once added, and the rest of the loop keeps it
        have hadded : (L₁.checkIfTokenExists token.strName true).1 = true := by
          have := L.checkIfTokenExists_addNewToken nHeight blockHash hfresh₀ (hshown _ List.mem_cons_self)
          rwa [L.addNewToken_of_fresh nHeight blockHash hfresh₀] at this
        exact (addUniqueTokens_grows nHeight blockHash L₁ vout).exists_of_exists _ hadded
      · exact hcreated name hmem
    · have hnames : uniqueTokenNames (out :: vout) = uniqueTokenNames vout := by
        simp [uniqueTokenNames, hunique]
      have hstep : addUniqueTokens nHeight blockHash L (out :: vout) = addUniqueTokens nHeight blockHash L vout := by
        simp [addUniqueTokens, hunique]
      rw [hnames] at hnodup hshown ⊢
      rw [hstep]
      exact ih (fun out' hmem => hfresh out' (List.mem_cons_of_mem _ hmem)) hnodup hshown

/-- One transaction of `ConnectBlock`'s loop, no username issue: once its
re-validation passes, the names `AddCoins` then issues are distinct, none exists
before, and each exists after. -/
theorem connectTx_createdNames {L L₁ : TokenLayers} {tx : CTransaction} (txid : uint256)
    (husername : tx.isNewUsernameTx = false)
    (hshown : ∀ name ∈ tx.createdNames,
      KeyedSet.contains CTokenCacheNewToken.name name L.ptokens.setNewTokensToRemove = false)
    (h : connectTokenRevalidation C g true L tx = (.ok (), L₁)) :
    tx.createdNames.Nodup ∧ ∀ name ∈ tx.createdNames, (L.checkIfTokenExists name true).1 = false ∧
      ((addCoinsTokens true nHeight blockHash L₁ tx txid).1.checkIfTokenExists name true).1 = true := by
  cases hnew : tx.isNewTokenTx with
  | true =>
    obtain ⟨token, htoken, hfresh, hL₁⟩ := connectTokenRevalidation_newToken hnew h
    rw [hL₁]
    obtain ⟨hreissue, hunique⟩ := CTransaction.kinds_of_isNewTokenTx hnew
    have hnames : tx.createdNames = [token.strName] := by
      simp [CTransaction.createdNames, hnew, husername, hreissue, hunique, htoken]
    have hadd : (addCoinsTokens true nHeight blockHash L tx txid).1 = (L.addNewToken token nHeight blockHash).2 := by
      simp [addCoinsTokens, hnew, husername, hreissue, hunique, htoken]
    rw [hnames] at hshown ⊢
    refine ⟨List.nodup_singleton _, fun name hmem => ?_⟩
    rw [List.mem_singleton.mp hmem, hadd]
    exact ⟨hfresh, L.checkIfTokenExists_addNewToken nHeight blockHash hfresh (hshown _ List.mem_cons_self)⟩
  | false =>
    cases hreissue : tx.isReissueTokenTx with
    | true => simp [CTransaction.createdNames, hnew, husername, hreissue]
    | false =>
      cases hunique : tx.isNewUniqueTokenTx with
      | false => simp [CTransaction.createdNames, hnew, husername, hreissue, hunique]
      | true =>
        obtain ⟨hverify, hL₁, hfresh⟩ := connectTokenRevalidation_uniqueToken hnew hreissue hunique h
        rw [hL₁]
        have hnames : tx.createdNames = uniqueTokenNames tx.vout := by
          simp [CTransaction.createdNames, hnew, husername, hreissue, hunique]
        have hadd : (addCoinsTokens true nHeight blockHash L tx txid).1 = addUniqueTokens nHeight blockHash L tx.vout := by
          simp [addCoinsTokens, hnew, husername, hreissue, hunique]
        rw [hnames] at hshown ⊢
        have hnodup := verifyNewUniqueToken_names_nodup hverify
        refine ⟨hnodup, fun name hmem => ⟨?_, ?_⟩⟩
        · -- a unique name is that of an output, which the re-validation found new
          simp only [uniqueTokenNames, List.mem_map, List.mem_filter] at hmem
          obtain ⟨out, ⟨hout, hunique'⟩, rfl⟩ := hmem
          obtain ⟨token, htoken, hfresh'⟩ := hfresh out hout hunique'
          simpa [htoken] using hfresh'
        · rw [hadd]
          exact addUniqueTokens_creates hfresh hnodup hshown name hmem

/-- The token work of a block with no username issue, over layers where
`ptokens` hides none of the names the block issues: when it passes, those names
are distinct, none exists before the block, and each exists after it. -/
theorem connectBlockTokenChecks_createdNames (L : TokenLayers) (vtx : List CTransaction) {L' : TokenLayers}
    (husernames : ∀ tx ∈ vtx, tx.isNewUsernameTx = false)
    (hshown : ∀ name ∈ vtx.flatMap CTransaction.createdNames,
      KeyedSet.contains CTokenCacheNewToken.name name L.ptokens.setNewTokensToRemove = false)
    (h : connectBlockTokenChecks C g true nHeight blockHash L vtx = .ok L') :
    (vtx.flatMap CTransaction.createdNames).Nodup ∧ ∀ name ∈ vtx.flatMap CTransaction.createdNames,
      (L.checkIfTokenExists name true).1 = false ∧ (L'.checkIfTokenExists name true).1 = true := by
  induction vtx generalizing L with
  | nil => simp
  | cons tx vtx ih =>
    obtain ⟨L₁, hrev, hrest⟩ := connectBlockTokenChecks_cons_eq_ok.mp h
    set L₂ := (addCoinsTokens true nHeight blockHash L₁ tx (C.getHash tx)).1
    -- the transaction's step, and the growth of the layers before and after it
    obtain ⟨hnodup, hstep⟩ := connectTx_createdNames (C.getHash tx) (husernames tx List.mem_cons_self)
      (fun name hmem => hshown name (List.mem_append_left _ hmem)) hrev
    have hgrows₁ : L.Grows L₂ := by
      have hL₁ : L.Grows L₁ := by
        simpa [hrev] using @connectTokenRevalidation_grows C g true L tx
      exact hL₁.trans (addCoinsTokens_grows _ _ _ _ _ _)
    have hgrows₂ : L₂.Grows L' := connectBlockTokenChecks_grows L₂ vtx hrest
    obtain ⟨hnodup', hrest'⟩ := ih L₂ (fun tx' hmem => husernames tx' (List.mem_cons_of_mem _ hmem))
      (fun name hmem => by rw [hgrows₁.ptokens]; exact hshown name (List.mem_append_right _ hmem)) hrest
    simp only [List.flatMap_cons, List.mem_append]
    refine ⟨List.nodup_append.mpr ⟨hnodup, hnodup', ?_⟩, ?_⟩
    · -- a name of the transaction exists before the rest of the block, whose names do not
      intro name hmem name' hmem' heq
      subst heq
      have := (hrest' name hmem').1
      rw [(hstep name hmem).2] at this
      cases this
    · rintro name (hmem | hmem)
      · exact ⟨(hstep name hmem).1, hgrows₂.exists_of_exists name (hstep name hmem).2⟩
      · exact ⟨hgrows₁.not_exists (hrest' name hmem).1, (hrest' name hmem).2⟩

end Names

section Fixtures

def abcUniqueA : Bytes := nameABC ++ [chr '#', 65]

def abcUniqueB : Bytes := nameABC ++ [chr '#', 66]

def uniqueIssuePart (name : Bytes) : Bytes := tokenPart TOKEN_ISSUE (serBytes name ++ serInt64 COIN ++ [0, 0, 0])

/-- The issue of `ABC#A` and `ABC#B`: the burn of two unique-token costs, the owner
token of `ABC` sent back, then the two unique tokens. -/
def uniqueIssueTx : CTransaction :=
  spendTx [reissueFunds, abcOwnerOut] [⟨200 * COIN, mainParams.tokenFeeScript⟩,
    ⟨0, CTokenTransfer.constructTransaction ⟨nameABC ++ OWNER_TAG, OWNER_TOKEN_AMOUNT, 0⟩ stakerScript⟩,
    ⟨0, stakerScript ++ uniqueIssuePart abcUniqueA⟩, ⟨0, stakerScript ++ uniqueIssuePart abcUniqueB⟩]

def uniqueBlock : CBlock :=
  fixtureBlock [coinbaseTx 871501 [emptyOut], spendTx [reissueKernel] [emptyOut, ⟨1000 * COIN, stakerScript⟩],
    uniqueIssueTx] [1]

def uniqueBlockHash : uint256 := Crypto.truncating.getBlockHash uniqueBlock.toCBlockHeader

/-- The cache once `AddCoins` has added both unique tokens. -/
def uniqueLayers : TokenLayers := addUniqueTokens 871501 uniqueBlockHash issuedLayers uniqueIssueTx.vout

end Fixtures

set_option maxRecDepth 10000 in
/-- `ConnectBlock` accepts the block issuing `ABC#A` and `ABC#B` over the cache
that holds `ABC`; its token work creates both names, neither of which existed. -/
theorem abcUniques_created :
    (connectBlock (acceptingEnv acceptAll) (tokenNode 871500 issuedLayers) (revalidationAgainst issuedLayers)
        uniqueBlock 871501 reissueView initGovernance false false).1.toBool = true ∧
      uniqueBlock.vtx.flatMap CTransaction.createdNames = [abcUniqueA, abcUniqueB] ∧
      (∀ tx ∈ uniqueBlock.vtx, tx.isNewUsernameTx = false) ∧
      (∀ name ∈ uniqueBlock.vtx.flatMap CTransaction.createdNames,
        KeyedSet.contains CTokenCacheNewToken.name name issuedLayers.ptokens.setNewTokensToRemove = false) ∧
      connectBlockTokenChecks Crypto.truncating initGovernance true 871501 uniqueBlockHash issuedLayers
        uniqueBlock.vtx = .ok uniqueLayers ∧
      ((uniqueBlock.vtx.flatMap CTransaction.createdNames).Nodup ∧
        ∀ name ∈ uniqueBlock.vtx.flatMap CTransaction.createdNames,
          (issuedLayers.checkIfTokenExists name true).1 = false ∧ (uniqueLayers.checkIfTokenExists name true).1 = true) := by
  have husernames : ∀ tx ∈ uniqueBlock.vtx, tx.isNewUsernameTx = false := by decide
  have hshown : ∀ name ∈ uniqueBlock.vtx.flatMap CTransaction.createdNames,
      KeyedSet.contains CTokenCacheNewToken.name name issuedLayers.ptokens.setNewTokensToRemove = false := by
    decide
  have h : connectBlockTokenChecks Crypto.truncating initGovernance true 871501 uniqueBlockHash issuedLayers
      uniqueBlock.vtx = .ok uniqueLayers := by decide
  exact ⟨by decide, by decide, husernames, hshown, h,
    connectBlockTokenChecks_createdNames issuedLayers uniqueBlock.vtx husernames hshown h⟩

section Undo

variable {nHeight : Int} {blockHash : uint256} {tx : CTransaction} {token : CNewToken}

/-- `AddCoins` of a new-token issue that is not also a username issue adds the
token once and writes no undo record. -/
theorem addCoinsTokens_newToken (L : TokenLayers) (txid : uint256) (hnew : tx.isNewTokenTx = true)
    (husername : tx.isNewUsernameTx = false) (htoken : tx.tokenFromTx = some token) :
    addCoinsTokens true nHeight blockHash L tx txid = ((L.addNewToken token nHeight blockHash).2, none) := by
  obtain ⟨hreissue, hunique⟩ := CTransaction.kinds_of_isNewTokenTx hnew
  simp [addCoinsTokens, hnew, husername, hreissue, hunique, htoken]

end Undo

end AokChain
