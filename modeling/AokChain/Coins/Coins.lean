import Mathlib.Data.Finmap
import AokChain.Tokens.TokenScript
import AokChain.Crypto

/-!
# Coins and the coins view

`Coin`, `CCoinsViewCache` and `UpdateCoins` of `coins.h`, `coins.cpp` and
`validation.cpp`, over the flat map of unspent coins that a cache presents to
its users.  A cache entry that is spent but still cached reads as the empty
coin, which is what `AccessCoin` returns for a missing outpoint, so the flat
map gives every read the value the cache gives.  The token cache that
`SpendCoin` and `AddCoins` also update is not modelled here.
-/

namespace AokChain
open Serial

/-- A UTXO entry.  `nHeight` is the source's 31-bit bit-field, so it carries its
bound. -/
structure Coin where
  out : CTxOut
  fCoinBase : Bool
  fCoinStake : Bool
  nTime : UInt32
  nHeight : ℕ
  nHeight_lt : nHeight < 2 ^ 31
  deriving DecidableEq

namespace Coin

/-- `Coin(out, nHeightIn, fCoinBase, fCoinStake, nTime)`: the `int` height is
truncated to the 31 bits of the field. -/
def make (out : CTxOut) (nHeightIn : Int) (fCoinBase fCoinStake : Bool) (nTime : UInt32) : Coin :=
  ⟨out, fCoinBase, fCoinStake, nTime, (nHeightIn % 2 ^ 31).toNat, by omega⟩

/-- `Coin()` and a cleared coin: the null output, no flags, height and time zero. -/
def empty : Coin := ⟨CTxOut.null, false, false, 0, 0, by norm_num⟩

def isSpent (c : Coin) : Bool := c.out.isNull

def isToken (c : Coin) : Bool := isTokenScript c.out.scriptPubKey

@[simp] theorem make_out (out : CTxOut) (h : Int) (b s : Bool) (t : UInt32) :
    (make out h b s t).out = out := rfl

@[simp] theorem make_fCoinStake (out : CTxOut) (h : Int) (b s : Bool) (t : UInt32) :
    (make out h b s t).fCoinStake = s := rfl

@[simp] theorem make_nTime (out : CTxOut) (h : Int) (b s : Bool) (t : UInt32) :
    (make out h b s t).nTime = t := rfl

end Coin

/-- The unspent coins a view holds, by outpoint. -/
abbrev CCoinsMap := Finmap fun _ : COutPoint => Coin

namespace CCoinsMap

variable (view : CCoinsMap)

/-- `AccessCoin`: the coin at an outpoint, the empty coin when there is none. -/
def accessCoin (o : COutPoint) : Coin := (view.lookup o).getD Coin.empty

/-- `HaveCoin`. -/
def haveCoin (o : COutPoint) : Bool :=
  match view.lookup o with
  | some c => !c.isSpent
  | none => false

/-- `HaveInputs`: a coin base has no inputs to look up. -/
def haveInputs (tx : CTransaction) : Bool :=
  tx.isCoinBase || tx.vin.all (fun txin => view.haveCoin txin.prevout)

/-- `GetValueIn`: the values of the coins spent, summed in `int64_t` without a
range check. -/
def getValueIn (tx : CTransaction) : CAmount :=
  if tx.isCoinBase then 0
  else (tx.vin.map (fun txin => (view.accessCoin txin.prevout).out.nValue)).foldl (· + ·) 0

/-- `AddCoin`.  An unspendable script is dropped; without `possible_overwrite`,
replacing an unspent coin is the source's `logic_error`. -/
def addCoin (o : COutPoint) (coin : Coin) (possible_overwrite : Bool) : Except String CCoinsMap :=
  if isUnspendable coin.out.scriptPubKey then .ok view
  else if !possible_overwrite && view.haveCoin o then
    .error "Adding new coin that replaces non-pruned entry"
  else .ok (view.insert o coin)

/-- `SpendCoin`: the coin it moves out, and the view without it. -/
def spendCoin (o : COutPoint) : Option (Coin × CCoinsMap) :=
  (view.lookup o).map fun c => (c, view.erase o)

end CCoinsMap

/-- `CTxUndo`: the coins a transaction spent, in input order. -/
structure CTxUndo where
  vprevout : List Coin
  deriving DecidableEq

/-- `CBlockUndo`: one record for every transaction but the coin base. -/
structure CBlockUndo where
  vtxundo : List CTxUndo
  deriving DecidableEq

section UpdateCoins

variable (C : Crypto)

/-- The outputs loop of `AddCoins` with `check = false`: output `i` of the
transaction becomes a coin, and only a coin base may overwrite. -/
def addCoinsFrom (tx : CTransaction) (nHeight : Int) :
    ℕ → List CTxOut → CCoinsMap → Except String CCoinsMap
  | _, [], view => .ok view
  | i, out :: outs, view => do
    let view ← view.addCoin ⟨C.getHash tx, i.toUInt32⟩
      (Coin.make out nHeight tx.isCoinBase tx.isCoinStake tx.nTime) tx.isCoinBase
    addCoinsFrom tx nHeight (i + 1) outs view

/-- `AddCoins`. -/
def addCoins (view : CCoinsMap) (tx : CTransaction) (nHeight : Int) : Except String CCoinsMap :=
  addCoinsFrom C tx nHeight 0 tx.vout view

/-- The inputs loop of `UpdateCoins`: each spent coin is moved into the undo
record; a missing one fails the source's `assert(is_spent)`. -/
def spendInputs : List CTxIn → CCoinsMap → Except String (List Coin × CCoinsMap)
  | [], view => .ok ([], view)
  | txin :: txins, view =>
    match view.spendCoin txin.prevout with
    | none => .error "assert(is_spent)"
    | some (coin, view) => do
      let (coins, view) ← spendInputs txins view
      pure (coin :: coins, view)

/-- `UpdateCoins`: spend the inputs into a `CTxUndo`, then add the outputs. -/
def updateCoins (tx : CTransaction) (view : CCoinsMap) (nHeight : Int) :
    Except String (CCoinsMap × CTxUndo) := do
  let (vprevout, view) ← if tx.isCoinBase then pure ([], view) else spendInputs tx.vin view
  let view ← addCoins C view tx nHeight
  pure (view, ⟨vprevout⟩)

end UpdateCoins

section Lemmas

variable {view : CCoinsMap}

theorem CCoinsMap.spendCoin_eq_some {o : COutPoint} {c : Coin} {view' : CCoinsMap}
    (h : view.spendCoin o = some (c, view')) : view.lookup o = some c ∧ view' = view.erase o := by
  unfold CCoinsMap.spendCoin at h
  cases hl : view.lookup o with
  | none => simp [hl] at h
  | some c' =>
    simp only [hl, Option.map_some, Option.some.injEq, Prod.mk.injEq] at h
    obtain ⟨rfl, rfl⟩ := h
    exact ⟨rfl, rfl⟩

theorem CCoinsMap.accessCoin_erase_ne {o p : COutPoint} (h : p ≠ o) :
    CCoinsMap.accessCoin (view.erase o) p = view.accessCoin p := by
  simp [CCoinsMap.accessCoin, Finmap.lookup_erase_ne h]

/-- The inputs loop succeeds only on outpoints the view holds, and its undo
record holds each spent coin as the view held it. -/
theorem spendInputs_ok : ∀ {txins : List CTxIn} {view view' : CCoinsMap} {coins : List Coin},
    spendInputs txins view = .ok (coins, view') →
      (∀ txin ∈ txins, txin.prevout ∈ view) ∧
        coins = txins.map (fun txin => view.accessCoin txin.prevout)
  | [], _, _, coins, h => by
    simp only [spendInputs, Except.ok.injEq, Prod.mk.injEq] at h
    obtain ⟨rfl, -⟩ := h
    simp
  | txin :: txins, view, view', coins, h => by
    unfold spendInputs at h
    cases hs : view.spendCoin txin.prevout with
    | none => simp [hs] at h
    | some r =>
      obtain ⟨c, v⟩ := r
      obtain ⟨hc, rfl⟩ := CCoinsMap.spendCoin_eq_some hs
      simp only [hs] at h
      cases hr : spendInputs txins (view.erase txin.prevout) with
      | error e => simp [hr, bind, Except.bind] at h
      | ok r' =>
        obtain ⟨cs, v'⟩ := r'
        simp only [hr, bind, Except.bind, pure, Except.pure, Except.ok.injEq, Prod.mk.injEq] at h
        obtain ⟨rfl, rfl⟩ := h
        obtain ⟨hmem, hcs⟩ := spendInputs_ok hr
        -- the later inputs spend other outpoints: the first one is gone from their view
        have hne : ∀ t ∈ txins, t.prevout ≠ txin.prevout := fun t ht heq => by
          have := hmem t ht
          rw [heq, Finmap.mem_erase] at this
          exact this.1 rfl
        refine ⟨?_, ?_⟩
        · intro t ht
          rcases List.mem_cons.mp ht with rfl | ht
          · exact Finmap.mem_of_lookup_eq_some hc
          · exact (Finmap.mem_erase.mp (hmem t ht)).2
        · simp only [List.map_cons, CCoinsMap.accessCoin, hc, Option.getD_some, hcs,
            List.cons.injEq, true_and]
          apply List.map_congr_left
          intro t ht
          exact CCoinsMap.accessCoin_erase_ne (hne t ht)

end Lemmas

end AokChain
