import AokChain.Consensus.ConnectProperties
import AokChain.Coins.UndoFormat

/-!
# Disconnecting a connected block

`DisconnectBlock` is meant to undo `ConnectBlock`: from the view a connected
block left and the undo record it wrote, it takes the block's outputs off the
view, last transaction first, and puts back the coins the block spent from
their undo records.  The record goes through the disk format, which keeps a
coin's output, height and coin-base flag but not its coin-stake flag or time,
so the spent coins come back as `Coin.undoImage` gives them.

`connectTxs_disconnectTxs` follows the loop of `ConnectBlock` past the coin
base, one transaction a step; `disconnectBlock_connectBlock` adds the coin base
and the disk format.  What the code does not check stands as a hypothesis:
`ConnectBlock` has no BIP30 check, so the coin base must not land on an
outpoint the view holds, and the amounts must fit `CompressAmount`.
-/

namespace AokChain
open Serial

/-- The spendable outputs of a transaction from output `o` on, with the
outpoints `AddCoins` gives them: the coins a transaction creates. -/
def createdOutputs (hash : uint256) : ℕ → List CTxOut → List (COutPoint × CTxOut)
  | _, [] => []
  | o, out :: outs =>
    if isUnspendable out.scriptPubKey then createdOutputs hash (o + 1) outs
    else (⟨hash, o.toUInt32⟩, out) :: createdOutputs hash (o + 1) outs

/-- The coin `AddCoins` makes of an output of `tx` at height `nHeight`. -/
def txCoin (tx : CTransaction) (nHeight : Int) (out : CTxOut) : Coin :=
  Coin.make out nHeight tx.isCoinBase tx.isCoinStake tx.nTime

section Created

variable {hash : uint256}

theorem mem_createdOutputs : ∀ {o : ℕ} {outs : List CTxOut} {p : COutPoint × CTxOut},
    p ∈ createdOutputs hash o outs →
      p.2 ∈ outs ∧ isUnspendable p.2.scriptPubKey = false ∧
        ∃ j, o ≤ j ∧ j < o + outs.length ∧ p.1 = ⟨hash, j.toUInt32⟩
  | _, [], _, h => by simp [createdOutputs] at h
  | o, out :: outs, p, h => by
    unfold createdOutputs at h
    split at h
    · obtain ⟨hmem, hsp, j, hj, hj', hpj⟩ := mem_createdOutputs h
      exact ⟨List.mem_cons_of_mem out hmem, hsp, j, by omega, by simp; omega, hpj⟩
    · rename_i hspendable
      rcases List.mem_cons.mp h with rfl | h
      · exact ⟨List.mem_cons_self, by simpa using hspendable, o, le_refl o, by simp, rfl⟩
      · obtain ⟨hmem, hsp, j, hj, hj', hpj⟩ := mem_createdOutputs h
        exact ⟨List.mem_cons_of_mem out hmem, hsp, j, by omega, by simp; omega, hpj⟩

/-- Below `2 ^ 32` outputs, the outpoints of the created coins are distinct. -/
theorem createdOutputs_nodup : ∀ {o : ℕ} {outs : List CTxOut}, o + outs.length ≤ 2 ^ 32 →
    ((createdOutputs hash o outs).map Prod.fst).Nodup
  | _, [], _ => by simp [createdOutputs]
  | o, out :: outs, h => by
    have hrest := @createdOutputs_nodup (o + 1) outs (by simp at h; omega)
    unfold createdOutputs
    split
    · exact hrest
    · refine List.nodup_cons.mpr ⟨?_, hrest⟩
      intro hmem
      obtain ⟨p, hp, hpo⟩ := List.mem_map.mp hmem
      obtain ⟨-, -, j, hj, hj', hpj⟩ := mem_createdOutputs hp
      rw [hpj] at hpo
      have hidx : j.toUInt32 = o.toUInt32 := (COutPoint.mk.injEq _ _ _ _ ▸ hpo).2
      have := congrArg UInt32.toNat hidx
      simp only [Nat.toUInt32_eq, UInt32.toNat_ofNat'] at this
      simp at h
      omega

theorem createdOutputs_cons_of_unspendable {o : ℕ} {out : CTxOut} {outs : List CTxOut}
    (hsp : isUnspendable out.scriptPubKey = true) :
    createdOutputs hash o (out :: outs) = createdOutputs hash (o + 1) outs := by
  simp [createdOutputs, hsp]

theorem createdOutputs_cons_of_spendable {o : ℕ} {out : CTxOut} {outs : List CTxOut}
    (hsp : isUnspendable out.scriptPubKey = false) :
    createdOutputs hash o (out :: outs) = (⟨hash, o.toUInt32⟩, out) :: createdOutputs hash (o + 1) outs := by
  simp [createdOutputs, hsp]

end Created

section AddCoins

variable {view view' : CCoinsMap}

/-- `AddCoin` drops an unspendable coin, and otherwise inserts it, where it
does not refuse to replace an unspent one. -/
theorem CCoinsMap.addCoin_eq_ok {o : COutPoint} {coin : Coin} {possible_overwrite : Bool}
    (h : view.addCoin o coin possible_overwrite = .ok view') :
    (isUnspendable coin.out.scriptPubKey = true ∧ view' = view) ∨
      (isUnspendable coin.out.scriptPubKey = false ∧ (possible_overwrite = false → view.haveCoin o = false) ∧
        view' = view.insert o coin) := by
  unfold CCoinsMap.addCoin at h
  split_ifs at h with hsp hover
  · exact .inl ⟨hsp, (Except.ok.inj h).symm⟩
  · refine .inr ⟨by simpa using hsp, fun hb => ?_, (Except.ok.inj h).symm⟩
    simpa [hb] using hover

variable (C : Crypto) {tx : CTransaction} {nHeight : Int}

/-- Where the outpoints are distinct, `AddCoins` leaves each created coin in
its place and every other outpoint as it was. -/
theorem addCoinsFrom_spec : ∀ {o : ℕ} {outs : List CTxOut} {view view' : CCoinsMap},
    addCoinsFrom C tx nHeight o outs view = .ok view' →
    ((createdOutputs (C.getHash tx) o outs).map Prod.fst).Nodup →
      (∀ p ∈ createdOutputs (C.getHash tx) o outs, view'.lookup p.1 = some (txCoin tx nHeight p.2)) ∧
        ∀ q ∉ (createdOutputs (C.getHash tx) o outs).map Prod.fst, view'.lookup q = view.lookup q
  | _, [], _, _, h, _ => by
    cases h
    exact ⟨by simp [createdOutputs], fun _ _ => rfl⟩
  | o, out :: outs, view, view', h, hnodup => by
    obtain ⟨view₁, hadd, hrest⟩ := Except.bind_eq_ok.mp h
    rcases CCoinsMap.addCoin_eq_ok hadd with ⟨hsp, rfl⟩ | ⟨hsp, -, rfl⟩ <;> rw [Coin.make_out] at hsp
    · -- an unspendable output creates nothing
      rw [createdOutputs_cons_of_unspendable hsp] at hnodup ⊢
      exact addCoinsFrom_spec hrest hnodup
    · rw [createdOutputs_cons_of_spendable hsp] at hnodup ⊢
      obtain ⟨hhead, hnodup'⟩ := List.nodup_cons.mp hnodup
      obtain ⟨hin, hout⟩ := addCoinsFrom_spec hrest hnodup'
      refine ⟨fun p hp => ?_, fun q hq => ?_⟩
      · rcases List.mem_cons.mp hp with rfl | hp
        · rw [hout _ hhead, Finmap.lookup_insert]
          rfl
        · exact hin p hp
      · simp only [List.map_cons, List.mem_cons, not_or] at hq
        rw [hout q hq.2, Finmap.lookup_insert_of_ne _ hq.1]

/-- The coins `AddCoins` puts in the view are those of spendable outputs. -/
theorem addCoinsFrom_lookup_eq_some : ∀ {o : ℕ} {outs : List CTxOut} {view view' : CCoinsMap},
    addCoinsFrom C tx nHeight o outs view = .ok view' → ∀ q c, view'.lookup q = some c →
      view.lookup q = some c ∨ ∃ out ∈ outs, isUnspendable out.scriptPubKey = false ∧ c = txCoin tx nHeight out
  | _, [], _, _, h, q, c, hq => by
    cases h
    exact .inl hq
  | o, out :: outs, view, view', h, q, c, hq => by
    obtain ⟨view₁, hadd, hrest⟩ := Except.bind_eq_ok.mp h
    rcases addCoinsFrom_lookup_eq_some hrest q c hq with h₁ | ⟨out', hmem, hsp, rfl⟩
    · rcases CCoinsMap.addCoin_eq_ok hadd with ⟨-, rfl⟩ | ⟨hsp, -, rfl⟩
      · exact .inl h₁
      · rw [Coin.make_out] at hsp
        by_cases hqo : q = ⟨C.getHash tx, o.toUInt32⟩
        · subst hqo
          rw [Finmap.lookup_insert] at h₁
          exact .inr ⟨out, List.mem_cons_self, hsp, (Option.some.inj h₁).symm⟩
        · exact .inl (by rwa [Finmap.lookup_insert_of_ne _ hqo] at h₁)
    · exact .inr ⟨out', List.mem_cons_of_mem out hmem, hsp, rfl⟩

/-- Outside a coin base, `AddCoins` refuses to replace an unspent coin: in a
view without spent coins, the coins it creates are at distinct outpoints that
the view did not hold. -/
theorem addCoinsFrom_fresh (hcb : tx.isCoinBase = false) :
    ∀ {o : ℕ} {outs : List CTxOut} {view view' : CCoinsMap},
    addCoinsFrom C tx nHeight o outs view = .ok view' →
    (∀ q c, view.lookup q = some c → c.isSpent = false) → (∀ out ∈ outs, out.isNull = false) →
      ((createdOutputs (C.getHash tx) o outs).map Prod.fst).Nodup ∧
        ∀ p ∈ createdOutputs (C.getHash tx) o outs, view.lookup p.1 = none
  | _, [], _, _, _, _, _ => by simp [createdOutputs]
  | o, out :: outs, view, view', h, hunspent, hnull => by
    obtain ⟨view₁, hadd, hrest⟩ := Except.bind_eq_ok.mp h
    have hnull' : ∀ out ∈ outs, out.isNull = false := fun out' h' => hnull out' (List.mem_cons_of_mem out h')
    rcases CCoinsMap.addCoin_eq_ok hadd with ⟨hsp, rfl⟩ | ⟨hsp, hhave, rfl⟩ <;> rw [Coin.make_out] at hsp
    · rw [createdOutputs_cons_of_unspendable hsp]
      exact addCoinsFrom_fresh hcb hrest hunspent hnull'
    · rw [createdOutputs_cons_of_spendable hsp]
      -- the outpoint was free: a coin there would be unspent, and `AddCoin` would have refused
      have hfree : view.lookup ⟨C.getHash tx, o.toUInt32⟩ = none := by
        have hno := hhave hcb
        cases hl : view.lookup ⟨C.getHash tx, o.toUInt32⟩ with
        | none => rfl
        | some c => simp [CCoinsMap.haveCoin, hl, hunspent _ c hl] at hno
      have hunspent₁ : ∀ q c, (view.insert ⟨C.getHash tx, o.toUInt32⟩ (txCoin tx nHeight out)).lookup q = some c →
          c.isSpent = false := by
        intro q c hq
        by_cases hqo : q = ⟨C.getHash tx, o.toUInt32⟩
        · subst hqo
          rw [Finmap.lookup_insert] at hq
          cases hq
          exact hnull out List.mem_cons_self
        · rw [Finmap.lookup_insert_of_ne _ hqo] at hq
          exact hunspent q c hq
      obtain ⟨hnodup, hfresh⟩ := addCoinsFrom_fresh hcb hrest hunspent₁ hnull'
      -- the later outpoints are free in the view with this coin, so they are not this one
      have hne : ∀ p ∈ createdOutputs (C.getHash tx) (o + 1) outs, p.1 ≠ ⟨C.getHash tx, o.toUInt32⟩ := by
        intro p hp heq
        have := hfresh p hp
        rw [heq, Finmap.lookup_insert] at this
        cases this
      refine ⟨List.nodup_cons.mpr ⟨fun hmem => ?_, hnodup⟩, fun p hp => ?_⟩
      · obtain ⟨p, hp, heq⟩ := List.mem_map.mp hmem
        exact hne p hp heq
      · rcases List.mem_cons.mp hp with rfl | hp
        · exact hfree
        · have := hfresh p hp
          rwa [Finmap.lookup_insert_of_ne _ (hne p hp)] at this

end AddCoins

section SpendOutputs

variable {nHeight : Int} {hash : uint256} {is_coinbase : Bool}

/-- The output check of `DisconnectBlock` over created coins the view holds as
the block made them: each leaves the view, and the check stays clean. -/
theorem spendOutputsFrom_spec : ∀ {o : ℕ} {outs : List CTxOut} {st : DisconnectState},
    ((createdOutputs hash o outs).map Prod.fst).Nodup →
    (∀ p ∈ createdOutputs hash o outs, ∃ c, st.view.lookup p.1 = some c ∧ c.out = p.2 ∧
      nHeight = c.nHeight ∧ is_coinbase = c.fCoinBase) →
      (spendOutputsFrom nHeight hash is_coinbase o outs st).fClean = st.fClean ∧
        ∀ q, (spendOutputsFrom nHeight hash is_coinbase o outs st).view.lookup q =
          if q ∈ (createdOutputs hash o outs).map Prod.fst then none else st.view.lookup q
  | _, [], st, _, _ => ⟨rfl, fun q => by simp [createdOutputs, spendOutputsFrom]⟩
  | o, out :: outs, st, hnodup, hfound => by
    cases hsp : isUnspendable out.scriptPubKey with
    | true =>
      rw [createdOutputs_cons_of_unspendable hsp] at hnodup hfound ⊢
      simp only [spendOutputsFrom, hsp, if_true]
      exact spendOutputsFrom_spec hnodup hfound
    | false =>
      rw [createdOutputs_cons_of_spendable hsp] at hnodup hfound ⊢
      obtain ⟨hhead, hnodup'⟩ := List.nodup_cons.mp hnodup
      -- this output's coin is found as the block made it, and leaves the view
      obtain ⟨c, hc, hout, hheight, hcb⟩ := hfound _ List.mem_cons_self
      have hspend : st.view.spendCoin ⟨hash, o.toUInt32⟩ = some (c, st.view.erase ⟨hash, o.toUInt32⟩) := by
        simp [CCoinsMap.spendCoin, hc]
      have hne : ∀ p ∈ createdOutputs hash (o + 1) outs, p.1 ≠ ⟨hash, o.toUInt32⟩ :=
        fun p hp heq => hhead (List.mem_map.mpr ⟨p, hp, heq⟩)
      let st₁ : DisconnectState := { st with
        view := st.view.erase ⟨hash, o.toUInt32⟩
        fClean := st.fClean && out == c.out && nHeight == c.nHeight && is_coinbase == c.fCoinBase }
      have hfound' : ∀ p ∈ createdOutputs hash (o + 1) outs, ∃ c, st₁.view.lookup p.1 = some c ∧
          c.out = p.2 ∧ nHeight = c.nHeight ∧ is_coinbase = c.fCoinBase := by
        intro p hp
        show ∃ c, (st.view.erase ⟨hash, o.toUInt32⟩).lookup p.1 = some c ∧ _
        rw [Finmap.lookup_erase_ne (hne p hp)]
        exact hfound p (List.mem_cons_of_mem _ hp)
      have hstep : spendOutputsFrom nHeight hash is_coinbase o (out :: outs) st =
          spendOutputsFrom nHeight hash is_coinbase (o + 1) outs st₁ := by
        simp only [spendOutputsFrom, hsp, Bool.false_eq_true, if_false, hspend]
        rfl
      obtain ⟨hclean, hlookup⟩ := spendOutputsFrom_spec hnodup' hfound'
      rw [hstep]
      refine ⟨?_, fun q => ?_⟩
      · rw [hclean]
        simp [st₁, hout, ← hheight, ← hcb]
      · rw [hlookup q]
        by_cases hq : q = ⟨hash, o.toUInt32⟩
        · subst hq
          simp [st₁, Finmap.lookup_erase]
        · simp only [st₁, Finmap.lookup_erase_ne hq, List.map_cons, List.mem_cons, hq, false_or]

end SpendOutputs

section Inputs

/-- The inputs loop of `UpdateCoins` spends distinct outpoints and leaves the
view without them. -/
theorem spendInputs_spec : ∀ {txins : List CTxIn} {view view' : CCoinsMap} {coins : List Coin},
    spendInputs txins view = .ok (coins, view') →
      (txins.map (·.prevout)).Nodup ∧
        ∀ q, view'.lookup q = if q ∈ txins.map (·.prevout) then none else view.lookup q
  | [], _, _, _, h => by
    simp only [spendInputs, Except.ok.injEq, Prod.mk.injEq] at h
    obtain ⟨-, rfl⟩ := h
    simp
  | txin :: txins, view, view', coins, h => by
    unfold spendInputs at h
    cases hs : view.spendCoin txin.prevout with
    | none => simp [hs] at h
    | some r =>
      obtain ⟨c, v⟩ := r
      obtain ⟨-, rfl⟩ := CCoinsMap.spendCoin_eq_some hs
      simp only [hs] at h
      obtain ⟨⟨cs, v'⟩, hrest, h⟩ := Except.bind_eq_ok.mp h
      cases h
      obtain ⟨hnodup, hlookup⟩ := spendInputs_spec hrest
      -- the later inputs do not spend this outpoint again: it is gone from their view
      obtain ⟨hmem, -⟩ := spendInputs_ok hrest
      have hne : txin.prevout ∉ txins.map (·.prevout) := by
        intro hin
        obtain ⟨t, ht, heq⟩ := List.mem_map.mp hin
        have := hmem t ht
        rw [heq, Finmap.mem_erase] at this
        exact this.1 rfl
      refine ⟨List.nodup_cons.mpr ⟨hne, hnodup⟩, fun q => ?_⟩
      rw [hlookup q]
      by_cases hq : q = txin.prevout
      · subst hq
        simp [hne, Finmap.lookup_erase]
      · simp only [Finmap.lookup_erase_ne hq, List.map_cons, List.mem_cons, hq, false_or]

end Inputs

section Restore

variable (masterKey : CScript)

/-- `ApplyTxInUndo` on an outpoint the view does not hold, with a record of its
own height: the coin goes back, and the undo is clean. -/
theorem applyTxInUndo_fresh {undo : Coin} {view : CCoinsMap} {out : COutPoint} (hfree : view.lookup out = none)
    (hheight : 0 < undo.nHeight) (hsp : isUnspendable undo.out.scriptPubKey = false) :
    applyTxInUndo undo view out = .ok (.DISCONNECT_OK, view.insert out undo) := by
  have hhave : view.haveCoin out = false := by simp [CCoinsMap.haveCoin, hfree]
  simp [applyTxInUndo, hhave, Nat.pos_iff_ne_zero.mp hheight, CCoinsMap.addCoin, hsp, bind, Except.bind, pure,
    Except.pure]

/-- The input loop of `DisconnectBlock` puts back coins of their own height at
distinct outpoints the view does not hold, and stays clean. -/
theorem restoreInputs_spec : ∀ (L : List (CTxIn × Coin)) (st : DisconnectState) (b : Bool),
    (L.map (·.1.prevout)).Nodup →
    (∀ p ∈ L, st.view.lookup p.1.prevout = none ∧ 0 < p.2.nHeight ∧ isUnspendable p.2.out.scriptPubKey = false) →
      ∃ st' b', restoreInputs masterKey L (st, b) = .ok (some (st', b')) ∧ st'.fClean = st.fClean ∧
        (∀ p ∈ L, st'.view.lookup p.1.prevout = some p.2) ∧
        ∀ q ∉ L.map (·.1.prevout), st'.view.lookup q = st.view.lookup q
  | [], st, b, _, _ => ⟨st, b, rfl, rfl, by simp, fun _ _ => rfl⟩
  | (txin, undo) :: L, st, b, hnodup, hgood => by
    obtain ⟨hhead, hnodup'⟩ := List.nodup_cons.mp hnodup
    obtain ⟨hfree, hheight, hsp⟩ := hgood _ List.mem_cons_self
    have hne : ∀ p ∈ L, p.1.prevout ≠ txin.prevout := fun p hp heq => hhead (List.mem_map.mpr ⟨p, hp, heq⟩)
    let st₁ : DisconnectState := { st with view := st.view.insert txin.prevout undo }
    have hgood' : ∀ p ∈ L, st₁.view.lookup p.1.prevout = none ∧ 0 < p.2.nHeight ∧
        isUnspendable p.2.out.scriptPubKey = false := by
      intro p hp
      obtain ⟨hf, hh, hs⟩ := hgood p (List.mem_cons_of_mem _ hp)
      exact ⟨by rw [Finmap.lookup_insert_of_ne _ (hne p hp)]; exact hf, hh, hs⟩
    obtain ⟨st', b', hrun, hclean, hin, hout⟩ := restoreInputs_spec L st₁
      (b || (st₁.view.accessCoin txin.prevout).out.scriptPubKey == masterKey) hnodup' hgood'
    have hok : (DisconnectResult.DISCONNECT_OK != .DISCONNECT_UNCLEAN) = true := rfl
    refine ⟨st', b', ?_, hclean, fun p hp => ?_, fun q hq => ?_⟩
    · simp only [restoreInputs, applyTxInUndo_fresh hfree hheight hsp, bind, Except.bind, reduceCtorEq,
        if_false, hok, Bool.and_true]
      exact hrun
    · rcases List.mem_cons.mp hp with rfl | hp
      · rw [hout _ hhead]
        exact Finmap.lookup_insert _
      · exact hin p hp
    · simp only [List.map_cons, List.mem_cons, not_or] at hq
      rw [hout q hq.2]
      exact Finmap.lookup_insert_of_ne _ hq.1

end Restore

section Restored

/-- What a coin needs for its undo record to put it back: a record the format
gives back, a height above zero, so that `ApplyTxInUndo` keeps the record's own
metadata, and a script that `AddCoin` keeps. -/
structure RestorableCoin (coin : Coin) : Prop where
  encodable : UndoEncodable coin
  height_pos : 0 < coin.nHeight
  spendable : isUnspendable coin.out.scriptPubKey = false

/-- A view whose coins are all restorable. -/
def CCoinsMap.Restorable (view : CCoinsMap) : Prop := ∀ o c, view.lookup o = some c → RestorableCoin c

/-- The view `w` holds the coins of `v`, those at the outpoints `P` as their
undo records give them back. -/
def RestoredOn (P : List COutPoint) (w v : CCoinsMap) : Prop :=
  ∀ o, w.lookup o = if o ∈ P then (v.lookup o).map Coin.undoImage else v.lookup o

@[simp] theorem Coin.undoImage_out (coin : Coin) : coin.undoImage.out = coin.out := rfl
@[simp] theorem Coin.undoImage_nHeight (coin : Coin) : coin.undoImage.nHeight = coin.nHeight := rfl
@[simp] theorem Coin.undoImage_fCoinBase (coin : Coin) : coin.undoImage.fCoinBase = coin.fCoinBase := rfl

theorem RestoredOn.refl (v : CCoinsMap) : RestoredOn [] v v := fun o => by simp

/-- Only which outpoints `P` holds matters. -/
theorem RestoredOn.congr {P P' : List COutPoint} (hP : ∀ o, o ∈ P ↔ o ∈ P') {w v : CCoinsMap}
    (h : RestoredOn P w v) : RestoredOn P' w v := fun o => by
  rw [h o]
  exact if_congr (hP o) rfl rfl

/-- An amount whose compressed code fits is not the null output's `-1`. -/
theorem isNull_eq_false_of_lt {out : CTxOut} (h : 9 * out.nValue.toUInt64.toNat < 2 ^ 64) :
    out.isNull = false := by
  unfold CTxOut.isNull
  cases hv : out.nValue == -1 with
  | false => rfl
  | true =>
    rw [beq_iff_eq.mp hv] at h
    exact absurd h (by decide)

theorem RestorableCoin.isSpent {coin : Coin} (h : RestorableCoin coin) : coin.isSpent = false :=
  isNull_eq_false_of_lt h.encodable.amount_lt

/-- The fields the output check of `DisconnectBlock` compares, of a coin
`AddCoins` made at a height in range. -/
theorem txCoin_fields (tx : CTransaction) {nHeight : Int} (hheight : 0 ≤ nHeight ∧ nHeight < 2 ^ 31)
    (out : CTxOut) :
    (txCoin tx nHeight out).out = out ∧ nHeight = ((txCoin tx nHeight out).nHeight : Int) ∧
      tx.isCoinBase = (txCoin tx nHeight out).fCoinBase := by
  refine ⟨rfl, ?_, rfl⟩
  simp only [txCoin, Coin.make]
  omega

/-- Every element on the right of a pointwise relation is related to one on the left. -/
theorem forall₂_exists_left {α β : Type} {R : α → β → Prop} :
    ∀ {l₁ : List α} {l₂ : List β}, List.Forall₂ R l₁ l₂ → ∀ b ∈ l₂, ∃ a ∈ l₁, R a b
  | _, _, .nil, _, hb => absurd hb List.not_mem_nil
  | a :: _, _, .cons hab h, b, hb => by
    rcases List.mem_cons.mp hb with rfl | hb
    · exact ⟨a, List.mem_cons_self, hab⟩
    · obtain ⟨a', ha', hr⟩ := forall₂_exists_left h b hb
      exact ⟨a', List.mem_cons_of_mem a ha', hr⟩

theorem zip_map_self {α β : Type} (f : α → β) : ∀ l : List α, l.zip (l.map f) = l.map fun a => (a, f a)
  | [] => rfl
  | a :: l => by simp [zip_map_self f l]

end Restored

section UpdateCoins

variable (C : Crypto) {tx : CTransaction} {nHeight : Int} {v v₂ : CCoinsMap} {txundo : CTxUndo}

/-- `UpdateCoins`: a coin base adds its outputs to the view; another
transaction spends its inputs into the undo record, then adds its outputs. -/
theorem updateCoins_eq_ok (h : updateCoins C tx v nHeight = .ok (v₂, txundo)) :
    (tx.isCoinBase = true ∧ txundo.vprevout = [] ∧ addCoins C v tx nHeight = .ok v₂) ∨
      (tx.isCoinBase = false ∧ ∃ v₁, spendInputs tx.vin v = .ok (txundo.vprevout, v₁) ∧
        addCoins C v₁ tx nHeight = .ok v₂) := by
  unfold updateCoins at h
  cases hcb : tx.isCoinBase with
  | true =>
    simp only [hcb, if_true, pure_bind] at h
    obtain ⟨v₂', hadd, h⟩ := Except.bind_eq_ok.mp h
    cases h
    exact .inl ⟨rfl, rfl, hadd⟩
  | false =>
    simp only [hcb, Bool.false_eq_true, if_false] at h
    obtain ⟨⟨vprevout, v₁⟩, hspend, h⟩ := Except.bind_eq_ok.mp h
    obtain ⟨v₂', hadd, h⟩ := Except.bind_eq_ok.mp h
    cases h
    exact .inr ⟨rfl, v₁, hspend, hadd⟩

/-- The output check of `DisconnectBlock` undoes `AddCoins` where the created
coins were at distinct outpoints the view did not hold. -/
theorem spendOutputs_of_addCoins {v₁ : CCoinsMap} (hadd : addCoins C v₁ tx nHeight = .ok v₂)
    (hnodup : ((createdOutputs (C.getHash tx) 0 tx.vout).map Prod.fst).Nodup)
    (hfresh : ∀ p ∈ createdOutputs (C.getHash tx) 0 tx.vout, v₁.lookup p.1 = none)
    (hheight : 0 ≤ nHeight ∧ nHeight < 2 ^ 31) {Q : List COutPoint} {st : DisconnectState}
    (hR : RestoredOn Q st.view v₂) :
    (spendOutputsFrom nHeight (C.getHash tx) tx.isCoinBase 0 tx.vout st).fClean = st.fClean ∧
      RestoredOn Q (spendOutputsFrom nHeight (C.getHash tx) tx.isCoinBase 0 tx.vout st).view v₁ := by
  obtain ⟨hin, hout⟩ := addCoinsFrom_spec C hadd hnodup
  -- each created coin is found as `AddCoins` made it, or as its undo record gives it back
  have hfound : ∀ p ∈ createdOutputs (C.getHash tx) 0 tx.vout, ∃ c, st.view.lookup p.1 = some c ∧
      c.out = p.2 ∧ nHeight = c.nHeight ∧ tx.isCoinBase = c.fCoinBase := by
    intro p hp
    obtain ⟨hfout, hfheight, hfcb⟩ := txCoin_fields tx hheight p.2
    rw [hR p.1, hin p hp]
    split
    · exact ⟨_, rfl, hfout, hfheight, hfcb⟩
    · exact ⟨_, rfl, hfout, hfheight, hfcb⟩
  obtain ⟨hclean, hlookup⟩ := spendOutputsFrom_spec hnodup hfound
  refine ⟨hclean, fun q => ?_⟩
  rw [hlookup q]
  by_cases hq : q ∈ (createdOutputs (C.getHash tx) 0 tx.vout).map Prod.fst
  · obtain ⟨p, hp, rfl⟩ := List.mem_map.mp hq
    simp [hq, hfresh p hp]
  · rw [if_neg hq, hR q, hout q hq]

/-- `UpdateCoins` keeps a view restorable where the outputs' amounts fit the
undo format and the height is in range, and the coins it moves into the undo
record are restorable. -/
theorem updateCoins_restorable (h : updateCoins C tx v nHeight = .ok (v₂, txundo)) (hv : v.Restorable)
    (houts : ∀ out ∈ tx.vout, 9 * out.nValue.toUInt64.toNat < 2 ^ 64) (hheight : 0 < nHeight ∧ nHeight < 2 ^ 30) :
    v₂.Restorable ∧ ∀ c ∈ txundo.vprevout, RestorableCoin c := by
  -- a created coin is restorable: its output is spendable, its height in range
  have hnew : ∀ out ∈ tx.vout, isUnspendable out.scriptPubKey = false → RestorableCoin (txCoin tx nHeight out) := by
    intro out hout hsp
    have hlen : out.scriptPubKey.length ≤ MAX_SCRIPT_SIZE := by
      simp only [isUnspendable, Bool.or_eq_false_iff, decide_eq_false_iff_not, not_lt] at hsp
      exact hsp.1.2
    have hmake : (txCoin tx nHeight out).nHeight = nHeight.toNat := by simp only [txCoin, Coin.make]; omega
    exact ⟨⟨by rw [hmake]; omega, houts out hout, hlen⟩, by rw [hmake]; omega, hsp⟩
  have hadded : ∀ {v₁ : CCoinsMap}, v₁.Restorable → addCoins C v₁ tx nHeight = .ok v₂ → v₂.Restorable := by
    intro v₁ hv₁ hadd q c hq
    rcases addCoinsFrom_lookup_eq_some C hadd q c hq with h₁ | ⟨out, hmem, hsp, rfl⟩
    · exact hv₁ q c h₁
    · exact hnew out hmem hsp
  rcases updateCoins_eq_ok C h with ⟨-, hnone, hadd⟩ | ⟨-, v₁, hspend, hadd⟩
  · exact ⟨hadded hv hadd, by simp [hnone]⟩
  · obtain ⟨hmem, hcoins⟩ := spendInputs_ok hspend
    obtain ⟨-, hlookup⟩ := spendInputs_spec hspend
    have hv₁ : v₁.Restorable := by
      intro q c hq
      rw [hlookup q] at hq
      split at hq
      · cases hq
      · exact hv q c hq
    refine ⟨hadded hv₁ hadd, fun c hc => ?_⟩
    rw [hcoins] at hc
    obtain ⟨txin, htxin, rfl⟩ := List.mem_map.mp hc
    obtain ⟨c, hc⟩ := Finmap.mem_iff.mp (hmem txin htxin)
    simpa [CCoinsMap.accessCoin, hc] using hv _ c hc

variable (masterKey : CScript)

/-- Disconnecting a transaction other than a coin base, with the undo record
`UpdateCoins` made as the format gives it back: from a view that holds what
`UpdateCoins` left, up to the undo records of coins spent later, it reaches the
view before the transaction, up to the undo records of these coins and of the
transaction's own inputs. -/
theorem disconnectTx_updateCoins (hupdate : updateCoins C tx v nHeight = .ok (v₂, txundo))
    (hcb : tx.isCoinBase = false) (hv : v.Restorable) (houts : ∀ out ∈ tx.vout, out.isNull = false)
    (hheight : 0 ≤ nHeight ∧ nHeight < 2 ^ 31) {Q : List COutPoint} {st : DisconnectState}
    (hR : RestoredOn Q st.view v₂) (hclean : st.fClean = true) :
    ∃ st', disconnectTx C masterKey nHeight tx (some txundo.undoImage) st = .ok (some st') ∧
      RestoredOn (Q ++ tx.vin.map (·.prevout)) st'.view v ∧ st'.fClean = true := by
  rcases updateCoins_eq_ok C hupdate with ⟨hcb', -, -⟩ | ⟨-, v₁, hspend, hadd⟩
  · rw [hcb] at hcb'
    cases hcb'
  obtain ⟨hmem, hcoins⟩ := spendInputs_ok hspend
  obtain ⟨hnodupIn, hlookupIn⟩ := spendInputs_spec hspend
  have hunspent₁ : ∀ q c, v₁.lookup q = some c → c.isSpent = false := by
    intro q c hq
    rw [hlookupIn q] at hq
    split at hq
    · cases hq
    · exact (hv q c hq).isSpent
  -- the outputs come off first
  obtain ⟨hnodupOut, hfreshOut⟩ := addCoinsFrom_fresh C hcb hadd hunspent₁ houts
  obtain ⟨hclean₁, hR₁⟩ := spendOutputs_of_addCoins C hadd hnodupOut hfreshOut hheight hR
  set st₁ := spendOutputsFrom nHeight (C.getHash tx) tx.isCoinBase 0 tx.vout st
  -- then the spent coins go back, last input first
  have hzip : tx.vin.zip txundo.undoImage.vprevout =
      tx.vin.map fun txin => (txin, (v.accessCoin txin.prevout).undoImage) := by
    simp only [CTxUndo.undoImage, hcoins, List.map_map]
    exact zip_map_self _ tx.vin
  have hkeys : ((tx.vin.zip txundo.undoImage.vprevout).reverse.map (·.1.prevout)) = (tx.vin.map (·.prevout)).reverse := by
    rw [hzip, List.map_reverse, List.map_map]
    rfl
  have hspent : ∀ txin ∈ tx.vin, ∃ c, v.lookup txin.prevout = some c ∧ v.accessCoin txin.prevout = c := by
    intro txin htxin
    obtain ⟨c, hc⟩ := Finmap.mem_iff.mp (hmem txin htxin)
    exact ⟨c, hc, by simp [CCoinsMap.accessCoin, hc]⟩
  have hgood : ∀ p ∈ (tx.vin.zip txundo.undoImage.vprevout).reverse, st₁.view.lookup p.1.prevout = none ∧
      0 < p.2.nHeight ∧ isUnspendable p.2.out.scriptPubKey = false := by
    intro p hp
    rw [List.mem_reverse, hzip] at hp
    obtain ⟨txin, htxin, rfl⟩ := List.mem_map.mp hp
    obtain ⟨c, hc, hacc⟩ := hspent txin htxin
    have hin : txin.prevout ∈ tx.vin.map (·.prevout) := List.mem_map.mpr ⟨txin, htxin, rfl⟩
    have hfree : v₁.lookup txin.prevout = none := by rw [hlookupIn, if_pos hin]
    refine ⟨by rw [hR₁, hfree]; split <;> rfl, ?_, ?_⟩
    · rw [hacc]
      exact (hv _ c hc).height_pos
    · rw [hacc]
      exact (hv _ c hc).spendable
  obtain ⟨st₂, b₂, hrun, hclean₂, hin₂, hout₂⟩ := restoreInputs_spec masterKey _ st₁ false
    (by rw [hkeys]; exact List.nodup_reverse.mpr hnodupIn) hgood
  have hlen : (txundo.undoImage.vprevout.length != tx.vin.length) = false := by
    simp [CTxUndo.undoImage, hcoins]
  let st' := if b₂ then { st₂ with governance := st₂.governance.revertOutputs masterKey nHeight tx.vout } else st₂
  have hview : st'.view = st₂.view := by
    show (if b₂ then _ else st₂).view = st₂.view
    split <;> rfl
  refine ⟨st', ?_, fun q => ?_, ?_⟩
  · simp only [disconnectTx, hlen, Bool.false_eq_true, if_false, bind, Except.bind, pure, Except.pure]
    rw [show spendOutputsFrom nHeight (C.getHash tx) tx.isCoinBase 0 tx.vout st = st₁ from rfl, hrun]
    cases b₂ <;> rfl
  · rw [hview]
    by_cases hq : q ∈ tx.vin.map (·.prevout)
    · -- a spent coin, put back from its undo record
      obtain ⟨txin, htxin, rfl⟩ := List.mem_map.mp hq
      obtain ⟨c, hc, hacc⟩ := hspent txin htxin
      have hp : (txin, (v.accessCoin txin.prevout).undoImage) ∈ (tx.vin.zip txundo.undoImage.vprevout).reverse := by
        rw [List.mem_reverse, hzip]
        exact List.mem_map.mpr ⟨txin, htxin, rfl⟩
      rw [hin₂ _ hp, if_pos (List.mem_append_right Q hq), hc, hacc]
      rfl
    · -- any other outpoint is as the output check left it
      rw [hout₂ q (by rw [hkeys, List.mem_reverse]; exact hq), hR₁ q, hlookupIn q, if_neg hq]
      exact if_congr (by simp [hq]) rfl rfl
  · show (if b₂ then _ else st₂).fClean = true
    split <;> exact hclean₂.trans (hclean₁.trans hclean)

/-- Disconnecting a coin base, which has no undo record: its outputs come off. -/
theorem disconnectTx_coinBase (hupdate : updateCoins C tx v nHeight = .ok (v₂, txundo))
    (hcb : tx.isCoinBase = true) (hnodup : ((createdOutputs (C.getHash tx) 0 tx.vout).map Prod.fst).Nodup)
    (hfresh : ∀ p ∈ createdOutputs (C.getHash tx) 0 tx.vout, v.lookup p.1 = none)
    (hheight : 0 ≤ nHeight ∧ nHeight < 2 ^ 31) {Q : List COutPoint} {st : DisconnectState}
    (hR : RestoredOn Q st.view v₂) (hclean : st.fClean = true) :
    ∃ st', disconnectTx C masterKey nHeight tx none st = .ok (some st') ∧
      RestoredOn Q st'.view v ∧ st'.fClean = true := by
  rcases updateCoins_eq_ok C hupdate with ⟨-, -, hadd⟩ | ⟨hcb', -⟩
  · obtain ⟨hclean₁, hR₁⟩ := spendOutputs_of_addCoins C hadd hnodup hfresh hheight hR
    exact ⟨_, rfl, hR₁, hclean₁.trans hclean⟩
  · rw [hcb] at hcb'
    cases hcb'

end UpdateCoins

section Blocks

variable (env : ConnectEnv) (node : NodeContext) (tokensCache : Option (CTransaction → Check))
  (block : CBlock) (nHeight : Int)
  (checkInputsOf : CTransaction → CCoinsMap → Except Failure (List CScriptCheck))

/-- A transaction the loop of `ConnectBlock` accepts went through `UpdateCoins`,
whose undo record is kept past the coin base. -/
theorem connectTx_eq_ok {governance g₁ : CGovernance} {i : ℕ} {tx : CTransaction} {acc acc₁ : ConnectAcc}
    (h : connectTx env node tokensCache block nHeight checkInputsOf governance i tx acc = (.ok acc₁, g₁)) :
    ∃ txundo, updateCoins env.block.C tx acc.view nHeight = .ok (acc₁.view, txundo) ∧
      acc₁.vtxundo = if i > 0 then acc.vtxundo ++ [txundo] else acc.vtxundo := by
  unfold connectTx at h
  cases hchecks : connectTxChecks env node tokensCache block nHeight checkInputsOf governance tx acc with
  | error e => simp [hchecks] at h
  | ok acc' =>
    cases hupdate : updateCoins env.block.C tx acc.view nHeight with
    | error what => simp [hchecks, hupdate] at h
    | ok r =>
      obtain ⟨view, txundo⟩ := r
      simp only [hchecks, hupdate, Prod.mk.injEq, Except.ok.injEq] at h
      obtain ⟨rfl, -⟩ := h
      exact ⟨txundo, rfl, rfl⟩

/-- One step of the transaction loop of `DisconnectBlock` that goes through. -/
theorem disconnectTxs_cons_of_ok (C : Crypto) (masterKey : CScript) {tx : CTransaction} {txundo : Option CTxUndo}
    {st st' : DisconnectState} (h : disconnectTx C masterKey nHeight tx txundo st = .ok (some st'))
    (L : List (CTransaction × Option CTxUndo)) :
    disconnectTxs C masterKey nHeight ((tx, txundo) :: L) st = disconnectTxs C masterKey nHeight L st' := by
  simp only [disconnectTxs, h, bind, Except.bind]

/-- The transactions of the loop of `ConnectBlock` past the coin base, and the
undo records it keeps for them, disconnected last first: from a view that holds
what the loop left, they bring the disconnection to the view before them, with
the coins they spent as their undo records give them back. -/
theorem connectTxs_disconnectTxs (masterKey : CScript) (hheight : 0 < nHeight ∧ nHeight < 2 ^ 30) :
    ∀ (txs : List CTransaction) (i : ℕ) (acc acc' : ConnectAcc) (g g' : CGovernance),
    connectTxs env node tokensCache block nHeight checkInputsOf i txs acc g = (.ok acc', g') → 0 < i →
    (∀ tx ∈ txs, tx.isCoinBase = false ∧ ∀ out ∈ tx.vout, 9 * out.nValue.toUInt64.toNat < 2 ^ 64) →
    acc.view.Restorable →
      ∃ undos : List CTxUndo, acc'.vtxundo = acc.vtxundo ++ undos ∧
        List.Forall₂ (fun tx txundo => txundo.vprevout.length = tx.vin.length ∧
          ∀ c ∈ txundo.vprevout, RestorableCoin c) txs undos ∧
        ∀ (Q : List COutPoint) (st : DisconnectState), RestoredOn Q st.view acc'.view → st.fClean = true →
          ∃ st₀, (∀ L, disconnectTxs env.block.C masterKey nHeight
              ((txs.zip (undos.map fun txundo => some txundo.undoImage)).reverse ++ L) st =
              disconnectTxs env.block.C masterKey nHeight L st₀) ∧
            RestoredOn (Q ++ txs.flatMap fun tx => tx.vin.map (·.prevout)) st₀.view acc.view ∧ st₀.fClean = true
  | [], i, acc, acc', g, g', h, _, _, _ => by
    simp only [connectTxs, Prod.mk.injEq, Except.ok.injEq] at h
    obtain ⟨rfl, -⟩ := h
    refine ⟨[], by simp, .nil, fun Q st hR hclean => ⟨st, fun L => rfl, ?_, hclean⟩⟩
    simpa using hR
  | tx :: txs, i, acc, acc', g, g', h, hi, htxs, hv => by
    unfold connectTxs at h
    cases hc : connectTx env node tokensCache block nHeight checkInputsOf g i tx acc with
    | mk r g₁ =>
      cases r with
      | error e => simp [hc] at h
      | ok acc₁ =>
        simp only [hc] at h
        obtain ⟨txundo, hupdate, hundo⟩ := connectTx_eq_ok env node tokensCache block nHeight checkInputsOf hc
        rw [if_pos hi] at hundo
        obtain ⟨hcb, houts⟩ := htxs tx List.mem_cons_self
        obtain ⟨hv₁, hcoins⟩ := updateCoins_restorable env.block.C hupdate hv houts hheight
        obtain ⟨undos, hacc', hforall, hdis⟩ := connectTxs_disconnectTxs masterKey hheight txs (i + 1) acc₁ acc'
          g₁ g' h (by omega) (fun t ht => htxs t (List.mem_cons_of_mem tx ht)) hv₁
        -- the undo record of a transaction other than a coin base has one coin for each input
        have hlen : txundo.vprevout.length = tx.vin.length := by
          rcases updateCoins_eq_ok env.block.C hupdate with ⟨hcb', -⟩ | ⟨-, v₁, hspend, -⟩
          · rw [hcb] at hcb'
            cases hcb'
          · rw [(spendInputs_ok hspend).2, List.length_map]
        refine ⟨txundo :: undos, by rw [hacc', hundo, List.append_assoc]; rfl, .cons ⟨hlen, hcoins⟩ hforall, ?_⟩
        intro Q st hR hclean
        obtain ⟨st₁, hrun₁, hR₁, hclean₁⟩ := hdis Q st hR hclean
        obtain ⟨st₀, hstep, hR₀, hclean₀⟩ := disconnectTx_updateCoins env.block.C masterKey hupdate hcb hv
          (fun out hout => isNull_eq_false_of_lt (houts out hout)) ⟨by omega, by omega⟩ hR₁ hclean₁
        refine ⟨st₀, fun L => ?_, hR₀.congr fun o => ?_, hclean₀⟩
        · simp only [List.map_cons, List.zip_cons_cons, List.reverse_cons, List.append_assoc, List.singleton_append]
          rw [hrun₁, disconnectTxs_cons_of_ok nHeight env.block.C masterKey hstep]
        · simp only [List.flatMap_cons, List.mem_append]
          tauto

/-- The checks before the loop return `false` only for the genesis block. -/
theorem connectBlockPrechecks_eq_ok_false {hash : uint256} {view : CCoinsMap} {fJustCheck ignoreTokenDuplicate : Bool}
    (h : connectBlockPrechecks env node block hash nHeight view fJustCheck ignoreTokenDuplicate = .ok false) :
    hash = node.tx.params.consensus.hashGenesisBlock := by
  unfold connectBlockPrechecks at h
  obtain ⟨_, -, h⟩ := Except.bind_eq_ok.mp h
  obtain ⟨_, -, h⟩ := Except.bind_eq_ok.mp h
  by_contra hne
  rw [if_neg hne] at h
  obtain ⟨_, -, h⟩ := Except.bind_eq_ok.mp h
  obtain ⟨_, -, h⟩ := Except.bind_eq_ok.mp h
  cases h

/-- A block other than the genesis block that `ConnectBlock` accepts went
through the transaction loop from the caller's view and an empty undo record,
and the view and the record returned are the loop's. -/
theorem connectBlock_eq_ok {view view' : CCoinsMap} {blockundo : CBlockUndo} {governance governance' : CGovernance}
    {fJustCheck ignoreTokenDuplicate : Bool}
    (hgenesis : env.block.C.getBlockHash block.toCBlockHeader ≠ node.tx.params.consensus.hashGenesisBlock)
    (h : connectBlock env node tokensCache block nHeight view governance fJustCheck ignoreTokenDuplicate =
      (.ok (view', blockundo), governance')) :
    ∃ (checkInputsOf : CTransaction → CCoinsMap → Except Failure (List CScriptCheck)) (acc₀ acc : ConnectAcc)
      (g : CGovernance), acc₀.view = view ∧ acc₀.vtxundo = [] ∧
      connectTxs env node tokensCache block nHeight checkInputsOf 0 block.vtx acc₀ governance = (.ok acc, g) ∧
      view' = acc.view ∧ blockundo = ⟨acc.vtxundo⟩ := by
  unfold connectBlock at h
  cases hpre : connectBlockPrechecks env node block (env.block.C.getBlockHash block.toCBlockHeader) nHeight view
      fJustCheck ignoreTokenDuplicate with
  | error e => simp [hpre] at h
  | ok b =>
    cases b with
    | false => exact absurd (connectBlockPrechecks_eq_ok_false env node block nHeight hpre) hgenesis
    | true =>
      simp only [hpre] at h
      split at h
      · simp at h
      · rename_i acc g hrun
        split at h
        · simp at h
        · simp only [Prod.mk.injEq, Except.ok.injEq] at h
          obtain ⟨⟨rfl, rfl⟩, -⟩ := h
          exact ⟨_, _, acc, g, rfl, rfl, hrun, rfl, rfl⟩

end Blocks

section Fixtures

/-- Every coin of a view built from a list is one of the list's. -/
theorem lookup_viewOf_eq_some {o : COutPoint} {c : Coin} :
    ∀ (l : List (COutPoint × Coin)) (init : CCoinsMap),
      (l.foldl (fun view entry => view.insert entry.1 entry.2) init).lookup o = some c →
        init.lookup o = some c ∨ (o, c) ∈ l
  | [], _, h => .inl h
  | (o', c') :: l, init, h => by
    rcases lookup_viewOf_eq_some l _ h with h | h
    · by_cases ho : o = o'
      · subst ho
        rw [Finmap.lookup_insert] at h
        cases h
        exact .inr List.mem_cons_self
      · rw [Finmap.lookup_insert_of_ne _ ho] at h
        exact .inl h
    · exact .inr (List.mem_cons_of_mem _ h)

/-- The environment of `acceptingEnv` over the toy curve. -/
def mirrorEnv : ConnectEnv :=
  { acceptingEnv acceptAll with block := { (acceptingEnv acceptAll).block with C := mirrorCurve } }

end Fixtures

/-- The outpoints a block's transactions past the coin base spend. -/
def spentOutpoints (txs : List CTransaction) : List COutPoint := txs.flatMap fun tx => tx.vin.map (·.prevout)

/-- `DisconnectBlock` undoes `ConnectBlock` on the coins view.  Take a block
other than the genesis block with a coin base first and none after it, at a
height in range, whose outputs have amounts the undo format keeps, on a view of
restorable coins that holds no outpoint of the coin base, and accepted by
`ConnectBlock`.  Then `DisconnectBlock`, on the view and the undo record
`ConnectBlock` returned, succeeds cleanly, and gives back the view the block was
connected to, with the coins the block spent as their undo records give them
back: their coin-stake flags and times are those of `Coin()`. -/
theorem disconnectBlock_connectBlock (env : ConnectEnv) (hC : DecompressRecovers env.block.C) (node : NodeContext)
    (tokensCache : Option (CTransaction → Check)) (block : CBlock) (nHeight : Int) (view view' : CCoinsMap)
    (blockundo : CBlockUndo) (governance governance' : CGovernance) (fJustCheck ignoreTokenDuplicate : Bool)
    (hconnect : connectBlock env node tokensCache block nHeight view governance fJustCheck ignoreTokenDuplicate =
      (.ok (view', blockundo), governance'))
    (hgenesis : env.block.C.getBlockHash block.toCBlockHeader ≠ node.tx.params.consensus.hashGenesisBlock)
    (coinbase : CTransaction) (rest : List CTransaction) (hvtx : block.vtx = coinbase :: rest)
    (hcb : coinbase.isCoinBase = true) (hrest : ∀ tx ∈ rest, tx.isCoinBase = false)
    (hheight : 0 < nHeight ∧ nHeight < 2 ^ 30) (hview : view.Restorable)
    (houts : ∀ tx ∈ block.vtx, ∀ out ∈ tx.vout, 9 * out.nValue.toUInt64.toNat < 2 ^ 64)
    (hfresh : coinbase.vout.length ≤ 2 ^ 32 ∧ ∀ o ∈ view, o.hash ≠ env.block.C.getHash coinbase)
    (hcount : rest.length ≤ MAX_SIZE)
    (hinputs : ∀ tx ∈ rest, tx.vin.length ≤ MAX_BLOCK_WEIGHT / MIN_TRANSACTION_INPUT_WEIGHT)
    (masterKey : CScript) (governance'' : CGovernance) :
    ∃ st, disconnectBlock env.block.C masterKey nHeight block (some (undoWriteToDisk env.block.C blockundo)) view'
        governance'' = .ok (.DISCONNECT_OK, st) ∧
      RestoredOn (spentOutpoints rest) st.view view := by
  obtain ⟨checkInputsOf, acc₀, acc, g, hview₀, hundo₀, hrun, rfl, rfl⟩ :=
    connectBlock_eq_ok env node tokensCache block nHeight hgenesis hconnect
  rw [hvtx] at hrun houts
  -- the coin base is connected first, and keeps no undo record
  unfold connectTxs at hrun
  cases hc : connectTx env node tokensCache block nHeight checkInputsOf governance 0 coinbase acc₀ with
  | mk r g₁ =>
    cases r with
    | error e => simp [hc] at hrun
    | ok acc₁ =>
      simp only [hc] at hrun
      obtain ⟨txundo₀, hupdate₀, hundo₁⟩ := connectTx_eq_ok env node tokensCache block nHeight checkInputsOf hc
      rw [if_neg (lt_irrefl 0), hundo₀] at hundo₁
      rw [hview₀] at hupdate₀
      obtain ⟨hv₁, -⟩ := updateCoins_restorable env.block.C hupdate₀ hview (houts coinbase List.mem_cons_self)
        hheight
      obtain ⟨undos, hundos, hforall, hdis⟩ := connectTxs_disconnectTxs env node tokensCache block nHeight
        checkInputsOf masterKey hheight rest 1 acc₁ acc g₁ g hrun one_pos
        (fun tx htx => ⟨hrest tx htx, houts tx (List.mem_cons_of_mem _ htx)⟩) hv₁
      rw [hundo₁, List.nil_append] at hundos
      -- the record reads back from disk, without coin-stake flags and times
      have henc : CBlockUndo.Encodable ⟨acc.vtxundo⟩ := by
        rw [hundos]
        refine ⟨by rw [← hforall.length_eq]; exact hcount, fun txundo htx => ?_, fun txundo htx c hc => ?_⟩
        · obtain ⟨tx, htx', hlen, -⟩ := forall₂_exists_left hforall txundo htx
          rw [hlen]
          exact hinputs tx htx'
        · obtain ⟨tx, -, -, hcoins⟩ := forall₂_exists_left hforall txundo htx
          exact (hcoins c hc).encodable
      have hread := undoReadFromDisk_undoWriteToDisk env.block.C hC henc
      -- the transactions past the coin base are disconnected, last first
      obtain ⟨st₁, hrun₁, hR₁, hclean₁⟩ := hdis [] ⟨acc.view, governance'', true⟩ (fun o => by simp) rfl
      -- then the coin base, whose outputs were at outpoints the view did not hold
      have hnodup := @createdOutputs_nodup (env.block.C.getHash coinbase) 0 coinbase.vout (by omega)
      have hnew : ∀ p ∈ createdOutputs (env.block.C.getHash coinbase) 0 coinbase.vout, view.lookup p.1 = none := by
        intro p hp
        obtain ⟨-, -, j, -, -, hpj⟩ := mem_createdOutputs hp
        apply Finmap.lookup_eq_none.mpr
        intro hmem
        exact hfresh.2 _ hmem (by rw [hpj])
      obtain ⟨st₂, hstep, hR₂, hclean₂⟩ := disconnectTx_coinBase env.block.C masterKey hupdate₀ hcb hnodup hnew
        ⟨by omega, by omega⟩ hR₁ hclean₁
      refine ⟨st₂, ?_, hR₂.congr fun o => by simp [spentOutpoints]⟩
      have hlen : ((CBlockUndo.undoImage ⟨acc.vtxundo⟩).vtxundo.length + 1 != block.vtx.length) = false := by
        simp [CBlockUndo.undoImage, hvtx, hundos, hforall.length_eq]
      have hundoList : (none :: (CBlockUndo.undoImage ⟨acc.vtxundo⟩).vtxundo.map some) =
          none :: undos.map fun txundo => some txundo.undoImage := by
        simp [CBlockUndo.undoImage, hundos]
      have hsplit : (block.vtx.zip (none :: undos.map fun txundo => some txundo.undoImage)).reverse =
          (rest.zip (undos.map fun txundo => some txundo.undoImage)).reverse ++ [(coinbase, none)] := by
        simp [hvtx]
      simp only [disconnectBlock, Option.bind, hread, hlen, Bool.false_eq_true, if_false, hundoList, hsplit, hrun₁,
        disconnectTxs_cons_of_ok nHeight env.block.C masterKey hstep]
      simp [disconnectTxs, hclean₂, pure, Except.pure]

set_option maxRecDepth 10000 in
/-- A block spending one of two mature coins, connected and then disconnected. -/
theorem plainSpend_disconnects :
    ∃ view' blockundo governance',
      connectBlock mirrorEnv (tipNode 99) passTokensCache (fixtureBlock [earlyCoinbase, plainSpend] []) 100
          earlyView CGovernance.empty false false = (.ok (view', blockundo), governance') ∧
      ∃ st, disconnectBlock mirrorCurve (tipNode 99).tx.params.governanceMasterScript 100
          (fixtureBlock [earlyCoinbase, plainSpend] []) (some (undoWriteToDisk mirrorCurve blockundo)) view'
          governance' = .ok (.DISCONNECT_OK, st) ∧
        RestoredOn (spentOutpoints [plainSpend]) st.view earlyView := by
  have hok : (connectBlock mirrorEnv (tipNode 99) passTokensCache (fixtureBlock [earlyCoinbase, plainSpend] []) 100
      earlyView CGovernance.empty false false).1.toBool = true := by decide
  have hview : earlyView.Restorable := by
    intro o c hc
    rcases lookup_viewOf_eq_some _ ∅ hc with h | h
    · simp at h
    · simp only [List.mem_cons, Prod.mk.injEq, List.not_mem_nil, or_false] at h
      rcases h with ⟨-, rfl⟩ | ⟨-, rfl⟩ <;> exact ⟨⟨by decide, by decide, by decide⟩, by decide, by decide⟩
  have hfresh : ∀ o ∈ earlyView, o.hash ≠ mirrorEnv.block.C.getHash earlyCoinbase := by
    intro o ho
    obtain ⟨c, hc⟩ := Finmap.mem_iff.mp ho
    rcases lookup_viewOf_eq_some _ ∅ hc with h | h
    · simp at h
    · simp only [List.mem_cons, Prod.mk.injEq, List.not_mem_nil, or_false] at h
      rcases h with ⟨rfl, -⟩ | ⟨rfl, -⟩ <;> decide
  rcases hr : connectBlock mirrorEnv (tipNode 99) passTokensCache (fixtureBlock [earlyCoinbase, plainSpend] []) 100
      earlyView CGovernance.empty false false with ⟨_ | ⟨view', blockundo⟩, governance'⟩
  · rw [hr] at hok
    cases hok
  · exact ⟨view', blockundo, governance', rfl,
      disconnectBlock_connectBlock mirrorEnv mirrorCurve_decompressRecovers (tipNode 99) passTokensCache
        (fixtureBlock [earlyCoinbase, plainSpend] []) 100 earlyView view' blockundo CGovernance.empty governance'
        false false hr (by decide) earlyCoinbase [plainSpend] rfl (by decide) (by decide) (by decide) hview
        (by decide) ⟨by decide, hfresh⟩ (by decide) (by decide) _ governance'⟩

end AokChain
