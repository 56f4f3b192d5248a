import AokChain.Consensus.TxVerify
import AokChain.Lib.Int64Sum
import AokChain.Lib.Mask

/-!
# Token coin selection

`CWallet::SelectTokensMinConf` and `CWallet::SelectTokens` of `wallet/wallet.cpp`,
with `ApproximateBestTokenSubset`.  The selector scans the shuffled outputs that
pass its filters: an output of exactly the target is taken at once, those below
the target plus `MIN_CHANGE` are gathered, and of the larger ones the least is
kept.  When the gathered ones overshoot, the stochastic subset search runs once
or twice and its subset competes with the larger output.

What the code leaves to chance or to the library (the shuffle, the order
`std::sort` gives equal amounts, the draws of `randbool`) is one argument,
`Choices`, so each result holds for every outcome.  Amounts are `int64_t` and
no sum of the selector is checked: its postcondition holds where the target plus
`MIN_CHANGE` and the sum of the candidates stay below `2 ^ 63`
(`selectTokensMinConf_some`, `selectTokensMinConf_none`), and fails above.
-/

namespace AokChain
namespace Wallet
open Serial

def CENT : CAmount := 1000000
def MIN_CHANGE : CAmount := CENT

/-- `CInputCoin`: an outpoint and the output there.  `std::set<CInputCoin>`
compares the outpoint alone. -/
structure CInputCoin where
  outpoint : COutPoint
  txout : CTxOut
  deriving DecidableEq, Repr

/-- `COutput`, with what the selector reads of its wallet transaction: the hash,
`IsFromMe(ISMINE_ALL)`, and the output `tx->vout[i]`. -/
structure COutput where
  txid : uint256
  fromMe : Bool
  i : UInt32
  txout : CTxOut
  nDepth : Int
  fSpendable : Bool
  deriving DecidableEq, Repr

/-- `CInputCoin(pcoin, i)`. -/
def COutput.coin (output : COutput) : CInputCoin := ⟨⟨output.txid, output.i⟩, output.txout⟩

/-- `CTxMemPool::TransactionWithinChainLimit`, over the ancestor and descendant
counts of the pool's entries; a transaction outside the pool passes. -/
def transactionWithinChainLimit (mapTx : uint256 → Option (UInt64 × UInt64)) (txid : uint256)
    (chainLimit : UInt64) : Bool :=
  match mapTx txid with
  | none => true
  | some (nCountWithAncestors, nCountWithDescendants) =>
    nCountWithAncestors < chainLimit && nCountWithDescendants < chainLimit

/-- The amount the scan reads from a token script by its kind, `none` where it
`continue`s; an owner output counts `OWNER_TOKEN_AMOUNT` once its name reads. -/
def tokenAmount (script : CScript) : Option CAmount :=
  match tokenScriptInfo script with
  | none => none
  | some info =>
    if info.isNew then (tokenFromScript script).map CNewToken.nAmount
    else if info.isTransfer then (transferTokenFromScript script).map CTokenTransfer.nAmount
    else if info.isOwner then (ownerTokenFromScript script).map fun _ => OWNER_TOKEN_AMOUNT
    else if info.isReissue then (reissueTokenFromScript script).map CReissueToken.nAmount
    else none

section Scan

variable (mapTx : uint256 → Option (UInt64 × UInt64)) (nConfMine nConfTheirs : Int) (nMaxAncestors : UInt64)

/-- The filters at the head of the scan and the amount it reads; `none` where it
`continue`s. -/
def candidateAmount (output : COutput) : Option CAmount :=
  if !output.fSpendable then none
  else if output.nDepth < (if output.fromMe then nConfMine else nConfTheirs) then none
  else if !transactionWithinChainLimit mapTx output.txid nMaxAncestors then none
  else tokenAmount output.txout.scriptPubKey

/-- The outputs that pass the filters, as coins with their amounts, in order. -/
def candidates (vCoins : List COutput) : List (CInputCoin × CAmount) :=
  vCoins.filterMap fun output =>
    (candidateAmount mapTx nConfMine nConfTheirs nMaxAncestors output).map (output.coin, ·)

end Scan

/-- The locals the scan builds: `vValue`, `nTotalLower`, and `coinLowestLarger`
with `coinLowestLargerAmount`, which are always set together. -/
structure ScanState where
  vValue : List (CInputCoin × CAmount)
  nTotalLower : CAmount
  coinLowestLarger : Option (CInputCoin × CAmount)
  deriving DecidableEq, Repr

/-- Where the scan ends: at a coin of exactly the target, which the selector
returns at once, or after the last candidate. -/
inductive ScanResult
  | exact (coin : CInputCoin) (nTempAmount : CAmount)
  | scanned (st : ScanState)
  deriving DecidableEq, Repr

/-- The body of the scan for one candidate. -/
def scanStep (nTargetValue : CAmount) (st : ScanState) (coin : CInputCoin) (nTempAmount : CAmount) :
    ScanResult :=
  if nTempAmount = nTargetValue then .exact coin nTempAmount
  else if nTempAmount < nTargetValue + MIN_CHANGE then
    .scanned { st with vValue := st.vValue ++ [(coin, nTempAmount)], nTotalLower := st.nTotalLower + nTempAmount }
  else if st.coinLowestLarger.all fun l => nTempAmount < l.2 then
    .scanned { st with coinLowestLarger := some (coin, nTempAmount) }
  else .scanned st

def scan (nTargetValue : CAmount) : List (CInputCoin × CAmount) → ScanState → ScanResult
  | [], st => .scanned st
  | (coin, nTempAmount) :: cs, st =>
    match scanStep nTargetValue st coin nTempAmount with
    | .exact coin nTempAmount => .exact coin nTempAmount
    | .scanned st => scan nTargetValue cs st

section Subset

/-- The locals of `ApproximateBestTokenSubset` within one repetition, with the
best subset so far. -/
structure SubsetState where
  vfIncluded : List Bool
  nTotal : CAmount
  fReachedTarget : Bool
  vfBest : List Bool
  nBest : CAmount
  deriving DecidableEq, Repr

variable (nTargetValue : CAmount)

/-- The body of a pass at an index it picks: the value is included; at or above
the target the subset is recorded if it beats the best, and the value is left
out again. -/
def includeValue (i : ℕ) (v : CAmount) (st : SubsetState) : SubsetState :=
  let nTotal := st.nTotal + v
  let vfIncluded := st.vfIncluded.set i true
  if nTotal ≥ nTargetValue then
    let best := if nTotal < st.nBest then (vfIncluded, nTotal) else (st.vfBest, st.nBest)
    ⟨vfIncluded.set i false, nTotal - v, true, best.1, best.2⟩
  else { st with vfIncluded := vfIncluded, nTotal := nTotal }

/-- One pass over the values; `pick i st` is the pass's test at index `i`. -/
def subsetPass (pick : ℕ → SubsetState → Bool) : List CAmount → ℕ → SubsetState → SubsetState
  | [], _, st => st
  | v :: vs, i, st => subsetPass pick vs (i + 1) (if pick i st then includeValue nTargetValue i v st else st)

/-- One repetition from a cleared inclusion: the random pass, then, unless it
reached the target, the pass over every value it left out. -/
def subsetRep (randbool : ℕ → Bool) (vValue : List CAmount) (best : List Bool × CAmount) :
    List Bool × CAmount :=
  let st := subsetPass nTargetValue (fun i _ => randbool i) vValue 0
    ⟨List.replicate vValue.length false, 0, false, best.1, best.2⟩
  let st := if st.fReachedTarget then st
    else subsetPass nTargetValue (fun i st => !st.vfIncluded.getD i false) vValue 0 st
  (st.vfBest, st.nBest)

/-- The repetitions from `nRep` on, `left` of them at most, while the best is
not the target. -/
def subsetReps (randbool : ℕ → ℕ → Bool) (vValue : List CAmount) :
    ℕ → ℕ → List Bool × CAmount → List Bool × CAmount
  | 0, _, best => best
  | left + 1, nRep, best =>
    if best.2 ≠ nTargetValue then
      subsetReps randbool vValue left (nRep + 1) (subsetRep nTargetValue (randbool nRep) vValue best)
    else best

/-- `ApproximateBestTokenSubset`, returning `(vfBest, nBest)`.  Each repetition
draws `randbool()` once per index in its first pass and nowhere else, so
`randbool nRep i` is the draw of repetition `nRep` at index `i`. -/
def approximateBestTokenSubset (randbool : ℕ → ℕ → Bool) (vValue : List CAmount) (nTotalLower : CAmount)
    (iterations : ℕ) : List Bool × CAmount :=
  subsetReps nTargetValue randbool vValue iterations 0 (List.replicate vValue.length true, nTotalLower)

end Subset

/-- `std::set<CInputCoin>::insert`: a coin whose outpoint the set holds is not
added again. -/
def insertCoin (coin : CInputCoin) (setCoins : List CInputCoin) : List CInputCoin :=
  if setCoins.any (·.outpoint == coin.outpoint) then setCoins else setCoins ++ [coin]

/-- An exit of `SelectTokensMinConf`: each coin inserted into the cleared
`setCoinsRet` and its amount added to `nValueRet`. -/
def collect (pairs : List (CInputCoin × CAmount)) : List CInputCoin × CAmount :=
  pairs.foldl (fun acc p => (insertCoin p.1 acc.1, acc.2 + p.2)) ([], 0)

/-- The outcomes of one `SelectTokensMinConf` call that its code does not fix:
the order `random_shuffle` gives `vCoins`, the order `std::sort` by amount and
`std::reverse` give `vValue` (`CompareTokenValueOnly` leaves equal amounts in
any order), and the draws of the two `ApproximateBestTokenSubset` calls. -/
structure Choices where
  shuffle : List COutput → List COutput
  perm_shuffle : ∀ vCoins, (shuffle vCoins).Perm vCoins
  sortDesc : List (CInputCoin × CAmount) → List (CInputCoin × CAmount)
  perm_sortDesc : ∀ vValue, (sortDesc vValue).Perm vValue
  sorted_sortDesc : ∀ vValue, (sortDesc vValue).Pairwise fun a b => b.2 ≤ a.2
  randbool : ℕ → ℕ → ℕ → Bool

/-- The subset search of `SelectTokensMinConf` over the sorted amounts: for the
target, and again for the target plus `MIN_CHANGE` unless the first hit the
target or the coins below fall short of that. -/
def searchSubset (choices : Choices) (nTargetValue : CAmount) (values : List CAmount) (nTotalLower : CAmount) :
    List Bool × CAmount :=
  let best := approximateBestTokenSubset nTargetValue (choices.randbool 0) values nTotalLower 1000
  if best.2 ≠ nTargetValue ∧ nTotalLower ≥ nTargetValue + MIN_CHANGE then
    approximateBestTokenSubset (nTargetValue + MIN_CHANGE) (choices.randbool 1) values nTotalLower 1000
  else best

/-- The stochastic exit of `SelectTokensMinConf`, once the coins below the
target plus `MIN_CHANGE` overshoot the target: the subset found against the
least larger coin. -/
def solveSubset (choices : Choices) (nTargetValue : CAmount) (st : ScanState) : List CInputCoin × CAmount :=
  let vValue := choices.sortDesc st.vValue
  let best := searchSubset choices nTargetValue (vValue.map Prod.snd) st.nTotalLower
  match st.coinLowestLarger with
  | some l =>
    if (best.2 ≠ nTargetValue ∧ best.2 < nTargetValue + MIN_CHANGE) ∨ l.2 ≤ best.2 then collect [l]
    else collect (Mask.select best.1 vValue)
  | none => collect (Mask.select best.1 vValue)

/-- `CWallet::SelectTokensMinConf`: `some (setCoinsRet, nValueRet)` where it
returns `true`. -/
def selectTokensMinConf (choices : Choices) (mapTx : uint256 → Option (UInt64 × UInt64)) (nTargetValue : CAmount)
    (nConfMine nConfTheirs : Int) (nMaxAncestors : UInt64) (vCoins : List COutput) :
    Option (List CInputCoin × CAmount) :=
  match scan nTargetValue (candidates mapTx nConfMine nConfTheirs nMaxAncestors (choices.shuffle vCoins))
      ⟨[], 0, none⟩ with
  | .exact coin nTempAmount => some (collect [(coin, nTempAmount)])
  | .scanned st =>
    if st.nTotalLower = nTargetValue then some (collect st.vValue)
    else if st.nTotalLower < nTargetValue then st.coinLowestLarger.map fun l => collect [l]
    else some (solveSubset choices nTargetValue st)

section SelectTokens

/-- The settings `SelectTokens` reads: `AreTokensDeployed()`,
`bSpendZeroConfChange`, `-walletrejectlongchains`, and the least of
`-limitancestorcount` and `-limitdescendantcount`. -/
structure SelectTokensConfig where
  areTokensDeployed : Bool
  bSpendZeroConfChange : Bool
  fRejectLongChains : Bool
  nMaxChainLength : UInt64
  deriving DecidableEq, Repr

/-- The `(nConfMine, nConfTheirs, nMaxAncestors)` of the calls `SelectTokens`
chains with `||` for one name, in order. -/
def selectAttempts (cfg : SelectTokensConfig) : List (Int × Int × UInt64) :=
  [(1, 6, 0), (1, 1, 0)] ++
    if cfg.bSpendZeroConfChange then
      [(0, 1, 2), (0, 1, min 4 (cfg.nMaxChainLength / 3)), (0, 1, cfg.nMaxChainLength / 2),
          (0, 1, cfg.nMaxChainLength)] ++
        if cfg.fRejectLongChains then [] else [(0, 1, 18446744073709551615)]
    else []

variable (mapTx : uint256 → Option (UInt64 × UInt64))

/-- The first call of the chain that selects; call `k` has the outcomes
`choices k`. -/
def firstSelection (choices : ℕ → Choices) (nTargetValue : CAmount) (vCoins : List COutput) :
    List (Int × Int × UInt64) → ℕ → Option (List CInputCoin × CAmount)
  | [], _ => none
  | (nConfMine, nConfTheirs, nMaxAncestors) :: attempts, k =>
    match selectTokensMinConf (choices k) mapTx nTargetValue nConfMine nConfTheirs nMaxAncestors vCoins with
    | some r => some r
    | none => firstSelection choices nTargetValue vCoins attempts (k + 1)

variable (cfg : SelectTokensConfig) (choices : Bytes → ℕ → Choices) (mapTokenTargetValue : List (Bytes × CAmount))

/-- The loop of `SelectTokens` over `mapAvailableTokens` in key order.  A name
without a positive target is skipped; for the others the chain of calls runs
with no preset inputs, so its first arm, `nTempTargetValue <= 0`, is never taken
after the check. -/
def selectTokensLoop : List (Bytes × List COutput) → List CInputCoin → List (Bytes × CAmount) →
    Option (List CInputCoin × List (Bytes × CAmount))
  | [], setCoinsRet, mapValueRet => some (setCoinsRet, mapValueRet)
  | (strTokenName, vTokens) :: rest, setCoinsRet, mapValueRet =>
    match OrderedMap.find? strTokenName mapTokenTargetValue with
    | none => selectTokensLoop rest setCoinsRet mapValueRet
    | some nTempTargetValue =>
      if nTempTargetValue ≤ 0 then selectTokensLoop rest setCoinsRet mapValueRet
      else
        -- the entry starts at zero where it is missing
        let mapValueRet := OrderedMap.alter bytesLt strTokenName (fun v => v.getD 0) mapValueRet
        match firstSelection mapTx (choices strTokenName) nTempTargetValue vTokens (selectAttempts cfg) 0 with
        | some (tempCoinsRet, nTempAmountRet) =>
          selectTokensLoop rest (tempCoinsRet.foldl (fun s c => insertCoin c s) setCoinsRet)
            (OrderedMap.alter bytesLt strTokenName (fun _ => nTempAmountRet) mapValueRet)
        | none => none

/-- `CWallet::SelectTokens`: `some (setCoinsRet, mapValueRet)` where it returns
`true`. -/
def selectTokens (mapAvailableTokens : List (Bytes × List COutput)) (setCoinsRet : List CInputCoin)
    (mapValueRet : List (Bytes × CAmount)) : Option (List CInputCoin × List (Bytes × CAmount)) :=
  if !cfg.areTokensDeployed then none
  else selectTokensLoop mapTx cfg choices mapTokenTargetValue mapAvailableTokens setCoinsRet mapValueRet

end SelectTokens

section Amounts

/-- The scan reads the amount `GetTokenData` gives, kind by kind. -/
theorem tokenAmount_eq_getTokenData (script : CScript) :
    tokenAmount script = (getTokenData script).map CTokenOutputEntry.nAmount := by
  unfold tokenAmount getTokenData
  cases tokenScriptInfo script with
  | none => rfl
  | some info =>
    dsimp only
    split_ifs <;> simp [Option.map_map, Function.comp_def]

theorem toInt_MIN_CHANGE : MIN_CHANGE.toInt = 1000000 := rfl

/-- The bounds under which no sum of the selector leaves `int64_t`: a positive
target that stays below `2 ^ 63` with `MIN_CHANGE` added, candidates of
non-negative amounts whose sum stays below `2 ^ 63`, and distinct outpoints. -/
structure Bounded (nTargetValue : CAmount) (cands : List (CInputCoin × CAmount)) : Prop where
  target_pos : 0 < nTargetValue.toInt
  target_lt : nTargetValue.toInt + MIN_CHANGE.toInt < 2 ^ 63
  amount_nonneg : ∀ p ∈ cands, 0 ≤ p.2.toInt
  sum_lt : (cands.map fun p => p.2.toInt).sum < 2 ^ 63
  nodup : (cands.map fun p => p.1.outpoint).Nodup

variable {nTargetValue : CAmount} {cands sel : List (CInputCoin × CAmount)}

theorem Bounded.subperm (h : Bounded nTargetValue cands) (hs : sel.Subperm cands) : Bounded nTargetValue sel :=
  ⟨h.target_pos, h.target_lt, fun p hp => h.amount_nonneg p (hs.subset hp),
    lt_of_le_of_lt (Mask.sum_le_of_subperm _ hs h.amount_nonneg) h.sum_lt, Mask.nodup_map_of_subperm _ hs h.nodup⟩

theorem sum_amounts_nonneg (h : ∀ p ∈ cands, 0 ≤ p.2.toInt) : 0 ≤ (cands.map fun p => p.2.toInt).sum :=
  List.sum_nonneg fun x hx => by
    obtain ⟨p, hp, rfl⟩ := List.mem_map.mp hx
    exact h p hp

/-- The target plus `MIN_CHANGE` does not overflow. -/
theorem Bounded.toInt_target_add (h : Bounded nTargetValue cands) :
    (nTargetValue + MIN_CHANGE).toInt = nTargetValue.toInt + 1000000 := by
  rw [Int64Sum.toInt_add_of_lt (le_of_lt h.target_pos) (by rw [toInt_MIN_CHANGE]; norm_num) h.target_lt,
    toInt_MIN_CHANGE]

end Amounts

section Collect

theorem insertCoin_of_fresh {coin : CInputCoin} {setCoins : List CInputCoin}
    (h : coin.outpoint ∉ setCoins.map CInputCoin.outpoint) : insertCoin coin setCoins = setCoins ++ [coin] := by
  unfold insertCoin
  rw [if_neg]
  simpa using h

/-- Inserting coins of fresh outpoints appends them, and the running sum stays exact. -/
theorem foldl_collect : ∀ (pairs : List (CInputCoin × CAmount)) (setCoins : List CInputCoin) (n : CAmount),
    (setCoins.map CInputCoin.outpoint ++ pairs.map fun p => p.1.outpoint).Nodup → 0 ≤ n.toInt →
      (∀ p ∈ pairs, 0 ≤ p.2.toInt) → n.toInt + (pairs.map fun p => p.2.toInt).sum < 2 ^ 63 →
      (pairs.foldl (fun acc p => (insertCoin p.1 acc.1, acc.2 + p.2)) (setCoins, n)).1 =
          setCoins ++ pairs.map Prod.fst ∧
        (pairs.foldl (fun acc p => (insertCoin p.1 acc.1, acc.2 + p.2)) (setCoins, n)).2.toInt =
          n.toInt + (pairs.map fun p => p.2.toInt).sum
  | [], _, _, _, _, _, _ => by simp
  | p :: pairs, setCoins, n, hnodup, hn, hnonneg, hsum => by
    have hp := hnonneg p List.mem_cons_self
    have hrest : ∀ q ∈ pairs, 0 ≤ q.2.toInt := fun q hq => hnonneg q (List.mem_cons_of_mem p hq)
    have hrest_sum := sum_amounts_nonneg hrest
    rw [List.map_cons, List.sum_cons] at hsum
    have hfresh : p.1.outpoint ∉ setCoins.map CInputCoin.outpoint := fun hmem =>
      (List.nodup_append.mp hnodup).2.2 _ hmem _ List.mem_cons_self rfl
    have hadd : (n + p.2).toInt = n.toInt + p.2.toInt := Int64Sum.toInt_add_of_lt hn hp (by omega)
    have hnodup' : ((setCoins ++ [p.1]).map CInputCoin.outpoint ++ pairs.map fun p => p.1.outpoint).Nodup := by
      simpa using hnodup
    obtain ⟨hcoins, hvalue⟩ := foldl_collect pairs (setCoins ++ [p.1]) (n + p.2) hnodup' (by omega) hrest
      (by rw [hadd]; omega)
    rw [List.foldl_cons, insertCoin_of_fresh hfresh]
    refine ⟨by rw [hcoins]; simp, ?_⟩
    rw [hvalue, hadd, List.map_cons, List.sum_cons]
    ring

/-- `res` holds the coins of `sel`, drawn from `cands` without repetition, and
their exact sum. -/
structure Selects (cands sel : List (CInputCoin × CAmount)) (res : List CInputCoin × CAmount) : Prop where
  subperm : sel.Subperm cands
  coins_eq : res.1 = sel.map Prod.fst
  value_eq : res.2.toInt = (sel.map fun p => p.2.toInt).sum

variable {nTargetValue : CAmount} {cands sel : List (CInputCoin × CAmount)}

/-- Within the bounds, an exit collects exactly the coins it is given and their sum. -/
theorem Bounded.selects_collect (h : Bounded nTargetValue cands) (hs : sel.Subperm cands) :
    Selects cands sel (collect sel) := by
  have hsel := h.subperm hs
  obtain ⟨hcoins, hvalue⟩ := foldl_collect sel [] 0 (by simpa using hsel.nodup) le_rfl hsel.amount_nonneg
    (by simpa using hsel.sum_lt)
  exact ⟨hs, by simpa [collect] using hcoins, by simpa [collect] using hvalue⟩

end Collect

section Candidates

variable (mapTx : uint256 → Option (UInt64 × UInt64)) (nConfMine nConfTheirs : Int) (nMaxAncestors : UInt64)

/-- The outputs whose token script reads, with their amounts; every call's
candidates are among them. -/
def tokenOutputs (vCoins : List COutput) : List (CInputCoin × CAmount) :=
  vCoins.filterMap fun output => (tokenAmount output.txout.scriptPubKey).map (output.coin, ·)

theorem tokenAmount_of_candidateAmount {output : COutput} {a : CAmount}
    (h : candidateAmount mapTx nConfMine nConfTheirs nMaxAncestors output = some a) :
    tokenAmount output.txout.scriptPubKey = some a := by
  unfold candidateAmount at h
  split_ifs at h <;> exact h

theorem candidates_sublist_tokenOutputs (vCoins : List COutput) :
    (candidates mapTx nConfMine nConfTheirs nMaxAncestors vCoins).Sublist (tokenOutputs vCoins) := by
  induction vCoins with
  | nil => exact List.Sublist.slnil
  | cons output vCoins ih =>
    simp only [candidates, tokenOutputs, List.filterMap_cons] at ih ⊢
    cases hc : candidateAmount mapTx nConfMine nConfTheirs nMaxAncestors output with
    | none =>
      -- a filtered output is dropped from the candidates only
      cases tokenAmount output.txout.scriptPubKey <;> simp [ih, ih.cons]
    | some a =>
      rw [tokenAmount_of_candidateAmount mapTx nConfMine nConfTheirs nMaxAncestors hc]
      simpa using ih

theorem candidates_perm {vCoins vCoins' : List COutput} (h : vCoins'.Perm vCoins) :
    (candidates mapTx nConfMine nConfTheirs nMaxAncestors vCoins').Perm
      (candidates mapTx nConfMine nConfTheirs nMaxAncestors vCoins) :=
  h.filterMap _

end Candidates

section ScanRun

/-- What the scan has built from the candidates it has passed, `done`: the ones
below the target plus `MIN_CHANGE`, in order and with their exact sum, and the
least larger one where one was larger. -/
structure Scanning (nTargetValue : CAmount) (done : List (CInputCoin × CAmount)) (st : ScanState) : Prop where
  vValue_eq : st.vValue = done.filter fun p => p.2 < nTargetValue + MIN_CHANGE
  total_eq : st.nTotalLower.toInt = (st.vValue.map fun p => p.2.toInt).sum
  larger_mem : ∀ l, st.coinLowestLarger = some l → l ∈ done ∧ nTargetValue + MIN_CHANGE ≤ l.2
  larger_none : st.coinLowestLarger = none → ∀ p ∈ done, p.2 < nTargetValue + MIN_CHANGE

/-- Where the scan ends: at a candidate of exactly the target, or with what it
built from all of them. -/
def ScanSpec (nTargetValue : CAmount) (cands : List (CInputCoin × CAmount)) : ScanResult → Prop
  | .exact coin nTempAmount => (coin, nTempAmount) ∈ cands ∧ nTempAmount = nTargetValue
  | .scanned st => Scanning nTargetValue cands st

variable {nTargetValue : CAmount} {done : List (CInputCoin × CAmount)} {st : ScanState}

theorem scanning_nil : Scanning nTargetValue [] ⟨[], 0, none⟩ :=
  ⟨rfl, by simp, by simp, by simp⟩

/-- One candidate of the scan, with the amounts so far not negative and their
sum below `2 ^ 63`. -/
theorem Scanning.step (h : Scanning nTargetValue done st) {coin : CInputCoin} {a : CAmount}
    (hnonneg : ∀ q ∈ done ++ [(coin, a)], 0 ≤ q.2.toInt)
    (hsum : ((done ++ [(coin, a)]).map fun q => q.2.toInt).sum < 2 ^ 63) :
    ScanSpec nTargetValue (done ++ [(coin, a)]) (scanStep nTargetValue st coin a) := by
  have hvalue_done : st.vValue.Sublist done := by
    rw [h.vValue_eq]
    exact List.filter_sublist
  have hdone_nonneg : ∀ q ∈ done, 0 ≤ q.2.toInt := fun q hq => hnonneg q (List.mem_append_left _ hq)
  have hlarger_mem : ∀ l, st.coinLowestLarger = some l → l ∈ done ++ [(coin, a)] ∧ nTargetValue + MIN_CHANGE ≤ l.2 :=
    fun l hl => ⟨List.mem_append_left _ (h.larger_mem l hl).1, (h.larger_mem l hl).2⟩
  by_cases hexact : a = nTargetValue
  · rw [scanStep, if_pos hexact]
    exact ⟨by simp, hexact⟩
  by_cases hlow : a < nTargetValue + MIN_CHANGE
  · -- below the target plus `MIN_CHANGE`: gathered, and the sum stays exact
    rw [scanStep, if_neg hexact, if_pos hlow]
    have hv_nonneg := sum_amounts_nonneg fun q hq => hdone_nonneg q (hvalue_done.subset hq)
    have hv_le := Mask.sum_le_of_subperm (fun q => q.2.toInt) hvalue_done.subperm hdone_nonneg
    have ha : 0 ≤ a.toInt := hnonneg (coin, a) (by simp)
    simp only [List.map_append, List.sum_append, List.map_cons, List.map_nil, List.sum_cons, List.sum_nil] at hsum
    refine ⟨by simp [h.vValue_eq, List.filter_append, hlow], ?_, hlarger_mem, ?_⟩
    · dsimp only
      rw [Int64Sum.toInt_add_of_lt (h.total_eq ▸ hv_nonneg) ha (by rw [h.total_eq]; omega), h.total_eq]
      simp
    · intro hn p hp
      rcases List.mem_append.mp hp with hp | hp
      · exact h.larger_none hn p hp
      · rw [List.mem_singleton.mp hp]
        exact hlow
  by_cases hless : st.coinLowestLarger.all fun l => a < l.2
  · -- the least larger candidate so far
    rw [scanStep, if_neg hexact, if_neg hlow, if_pos hless]
    refine ⟨by simp [h.vValue_eq, List.filter_append, hlow], h.total_eq, ?_, by simp⟩
    intro l hl
    cases hl
    exact ⟨by simp, Int64.not_lt.mp hlow⟩
  · -- a larger candidate, but not the least
    rw [scanStep, if_neg hexact, if_neg hlow, if_neg hless]
    refine ⟨by simp [h.vValue_eq, List.filter_append, hlow], h.total_eq, hlarger_mem, ?_⟩
    intro hn
    rw [hn] at hless
    exact absurd rfl hless

/-- The scan over the candidates after `done`. -/
theorem scan_spec : ∀ (rest done : List (CInputCoin × CAmount)) (st : ScanState),
    Scanning nTargetValue done st → (∀ q ∈ done ++ rest, 0 ≤ q.2.toInt) →
      ((done ++ rest).map fun q => q.2.toInt).sum < 2 ^ 63 →
      ScanSpec nTargetValue (done ++ rest) (scan nTargetValue rest st)
  | [], done, st, h, _, _ => by simpa [scan, ScanSpec] using h
  | (coin, a) :: rest, done, st, h, hnonneg, hsum => by
    have hsplit : done ++ (coin, a) :: rest = (done ++ [(coin, a)]) ++ rest := by simp
    rw [hsplit] at hnonneg hsum ⊢
    have hsub : (done ++ [(coin, a)]).Sublist ((done ++ [(coin, a)]) ++ rest) := List.sublist_append_left _ _
    have hstep := h.step (fun q hq => hnonneg q (hsub.subset hq))
      (lt_of_le_of_lt (Mask.sum_le_of_subperm (fun q => q.2.toInt) hsub.subperm hnonneg) hsum)
    cases hs : scanStep nTargetValue st coin a with
    | exact c a' =>
      rw [hs] at hstep
      simp only [scan, hs, ScanSpec]
      exact ⟨hsub.subset hstep.1, hstep.2⟩
    | scanned st' =>
      rw [hs] at hstep
      simp only [scan, hs]
      exact scan_spec rest _ st' hstep hnonneg hsum

end ScanRun

section SubsetRun

/-- Values the subset search adds up without overflow: none negative, and their
sum below `2 ^ 63`. -/
structure AddsUp (vals : List CAmount) : Prop where
  nonneg : ∀ v ∈ vals, 0 ≤ v.toInt
  sum_lt : (vals.map Int64.toInt).sum < 2 ^ 63

/-- The best subset so far: one flag per value, and `nBest` the exact sum of the
flagged values, at least `bound`. -/
structure BestSubset (vals : List CAmount) (bound : ℤ) (best : List Bool × CAmount) : Prop where
  length_eq : best.1.length = vals.length
  sum_eq : best.2.toInt = ((Mask.select best.1 vals).map Int64.toInt).sum
  bound_le : bound ≤ best.2.toInt

/-- A repetition's state: one inclusion flag per value with `nTotal` the exact
sum of the included ones, and the best subset so far. -/
structure Including (vals : List CAmount) (bound : ℤ) (st : SubsetState) : Prop where
  length_eq : st.vfIncluded.length = vals.length
  total_eq : st.nTotal.toInt = ((Mask.select st.vfIncluded vals).map Int64.toInt).sum
  best : BestSubset vals bound (st.vfBest, st.nBest)

variable {nTargetValue : CAmount} {vals : List CAmount} {bound : ℤ} {st : SubsetState}

theorem AddsUp.sum_select_nonneg (hv : AddsUp vals) (mask : List Bool) :
    0 ≤ ((Mask.select mask vals).map Int64.toInt).sum :=
  List.sum_nonneg fun x hx => by
    obtain ⟨v, hv', rfl⟩ := List.mem_map.mp hx
    exact hv.nonneg v ((Mask.select_sublist mask vals).subset hv')

theorem AddsUp.sum_select_lt (hv : AddsUp vals) (mask : List Bool) :
    ((Mask.select mask vals).map Int64.toInt).sum < 2 ^ 63 :=
  lt_of_le_of_lt (Mask.sum_le_of_subperm Int64.toInt (Mask.select_sublist mask vals).subperm hv.nonneg) hv.sum_lt

/-- Including a value the repetition has not included: the total stays exact, a
subset at or above the target beats the best only by its exact sum, and no
other flag moves. -/
theorem Including.includeValue_step (hv : AddsUp vals) (h : Including vals bound st) {i : ℕ} (hi : i < vals.length)
    (hfree : st.vfIncluded.getD i false = false) (ht : bound ≤ nTargetValue.toInt) :
    Including vals bound (includeValue nTargetValue i vals[i] st) ∧
      ∀ j, j ≠ i → (includeValue nTargetValue i vals[i] st).vfIncluded.getD j false = st.vfIncluded.getD j false := by
  have hset := Mask.sum_select_set_true Int64.toInt st.vfIncluded vals i hi (by rw [h.length_eq]; exact hi) hfree
  have hle := hv.sum_select_lt (st.vfIncluded.set i true)
  have hadd : (st.nTotal + vals[i]).toInt = st.nTotal.toInt + vals[i].toInt := by
    have hnonneg := hv.sum_select_nonneg st.vfIncluded
    rw [← h.total_eq] at hnonneg
    exact Int64Sum.toInt_add_of_lt hnonneg (hv.nonneg _ (List.getElem_mem hi)) (by rw [h.total_eq, ← hset]; exact hle)
  have htotal' : (st.nTotal + vals[i]).toInt = ((Mask.select (st.vfIncluded.set i true) vals).map Int64.toInt).sum := by
    rw [hadd, hset, h.total_eq]
  unfold includeValue
  by_cases hreach : st.nTotal + vals[i] ≥ nTargetValue
  · -- at or above the target: the value is left out again, so the inclusion is as before
    rw [if_pos hreach]
    have hback : (st.vfIncluded.set i true).set i false = st.vfIncluded := by
      rw [List.set_set, Mask.set_false_of_getD hfree]
    refine ⟨⟨by rw [hback]; exact h.length_eq, by rw [hback, Int64.add_sub_cancel]; exact h.total_eq, ?_⟩,
      fun j _ => by rw [hback]⟩
    dsimp only
    split
    · exact ⟨by simp [h.length_eq], htotal', le_trans ht (Int64.le_iff_toInt_le.mp hreach)⟩
    · exact h.best
  · rw [if_neg hreach]
    exact ⟨⟨by simp [h.length_eq], htotal', h.best⟩, fun j hj => Mask.getD_set_of_ne true hj⟩

/-- A pass from index `i` on keeps the state's invariant, as long as it picks
only indices not included yet.  The flags it has not reached are still those it
started from, `start`. -/
theorem subsetPass_including (hv : AddsUp vals) (ht : bound ≤ nTargetValue.toInt) (pick : ℕ → SubsetState → Bool)
    (start : List Bool)
    (hpick : ∀ i st, st.vfIncluded.getD i false = start.getD i false → pick i st = true →
      st.vfIncluded.getD i false = false) :
    ∀ (vs : List CAmount) (i : ℕ) (st : SubsetState), vs = vals.drop i → Including vals bound st →
      (∀ j, i ≤ j → st.vfIncluded.getD j false = start.getD j false) →
      Including vals bound (subsetPass nTargetValue pick vs i st)
  | [], _, _, _, h, _ => h
  | v :: vs, i, st, hvs, h, hahead => by
    have hi : i < vals.length := by
      by_contra hge
      rw [List.drop_eq_nil_of_le (by omega)] at hvs
      cases hvs
    rw [List.drop_eq_getElem_cons hi] at hvs
    obtain ⟨rfl, rfl⟩ := List.cons.inj hvs
    rw [subsetPass]
    by_cases hp : pick i st
    · rw [if_pos hp]
      obtain ⟨h', hframe⟩ := h.includeValue_step hv hi (hpick i st (hahead i le_rfl) hp) ht
      exact subsetPass_including hv ht pick start hpick _ (i + 1) _ rfl h'
        fun j hj => by rw [hframe j (by omega)]; exact hahead j (by omega)
    · rw [if_neg hp]
      exact subsetPass_including hv ht pick start hpick _ (i + 1) st rfl h fun j hj => hahead j (by omega)

/-- A repetition keeps the best subset: its first pass picks from a cleared
inclusion, its second only what is left out. -/
theorem subsetRep_best (hv : AddsUp vals) (ht : bound ≤ nTargetValue.toInt) (randbool : ℕ → Bool)
    {best : List Bool × CAmount} (hb : BestSubset vals bound best) :
    BestSubset vals bound (subsetRep nTargetValue randbool vals best) := by
  have h0 : Including vals bound ⟨List.replicate vals.length false, 0, false, best.1, best.2⟩ :=
    ⟨by simp, by simp, hb⟩
  have h1 := subsetPass_including hv ht (fun i _ => randbool i) (List.replicate vals.length false)
    (fun i st heq _ => by rw [heq]; simp) vals 0 _ (List.drop_zero).symm h0 fun _ _ => rfl
  unfold subsetRep
  dsimp only
  split
  · exact h1.best
  · exact (subsetPass_including hv ht (fun i st => !st.vfIncluded.getD i false) _ (fun i st _ hp => by simpa using hp)
      vals 0 _ (List.drop_zero).symm h1
      fun _ _ => rfl).best

theorem subsetReps_best (hv : AddsUp vals) (ht : bound ≤ nTargetValue.toInt) (randbool : ℕ → ℕ → Bool) :
    ∀ (left nRep : ℕ) (best : List Bool × CAmount), BestSubset vals bound best →
      BestSubset vals bound (subsetReps nTargetValue randbool vals left nRep best)
  | 0, _, _, hb => hb
  | left + 1, nRep, best, hb => by
    rw [subsetReps]
    split
    · exact subsetReps_best hv ht randbool left _ _ (subsetRep_best hv ht _ hb)
    · exact hb

/-- `ApproximateBestTokenSubset` returns flags of a subset whose exact sum is
`nBest`, at least any bound below the target and the sum of all values. -/
theorem approximateBestTokenSubset_best (hv : AddsUp vals) (ht : bound ≤ nTargetValue.toInt)
    (randbool : ℕ → ℕ → Bool) (iterations : ℕ) {nTotalLower : CAmount}
    (htotal : nTotalLower.toInt = (vals.map Int64.toInt).sum) (hlow : bound ≤ nTotalLower.toInt) :
    BestSubset vals bound (approximateBestTokenSubset nTargetValue randbool vals nTotalLower iterations) :=
  subsetReps_best hv ht randbool iterations 0 _ ⟨by simp, by simpa using htotal, hlow⟩

end SubsetRun

section Postcondition

variable {nTargetValue : CAmount} {cands : List (CInputCoin × CAmount)} {st : ScanState}

/-- Both searches keep the target as the bound of their best subset. -/
theorem searchSubset_best (choices : Choices) (hB : Bounded nTargetValue cands) {values : List CAmount}
    (hv : AddsUp values) {nTotalLower : CAmount} (htotal : nTotalLower.toInt = (values.map Int64.toInt).sum)
    (hlow : nTargetValue.toInt ≤ nTotalLower.toInt) :
    BestSubset values nTargetValue.toInt (searchSubset choices nTargetValue values nTotalLower) := by
  unfold searchSubset
  dsimp only
  split
  · exact approximateBestTokenSubset_best hv (by rw [hB.toInt_target_add]; omega) _ _ htotal hlow
  · exact approximateBestTokenSubset_best hv le_rfl _ _ htotal hlow

/-- The stochastic exit takes the least larger coin or the subset found, from the
coins sorted out of `vValue`; either reaches the target. -/
theorem solveSubset_spec (choices : Choices) (hB : Bounded nTargetValue cands)
    (hscan : Scanning nTargetValue cands st) (hge : ¬st.nTotalLower < nTargetValue) :
    ∃ sel, sel.Subperm cands ∧ nTargetValue.toInt ≤ (sel.map fun p => p.2.toInt).sum ∧
      solveSubset choices nTargetValue st = collect sel := by
  have hvsub : st.vValue.Sublist cands := by
    rw [hscan.vValue_eq]
    exact List.filter_sublist
  have hperm := choices.perm_sortDesc st.vValue
  have hsorted : (choices.sortDesc st.vValue).Subperm cands := hperm.subperm.trans hvsub.subperm
  have hsum_sorted : (((choices.sortDesc st.vValue).map Prod.snd).map Int64.toInt).sum = st.nTotalLower.toInt := by
    rw [List.map_map, hscan.total_eq]
    exact (hperm.map _).sum_eq
  have hv : AddsUp ((choices.sortDesc st.vValue).map Prod.snd) := by
    refine ⟨fun v hv => ?_, ?_⟩
    · obtain ⟨p, hp, rfl⟩ := List.mem_map.mp hv
      exact hB.amount_nonneg p (hsorted.subset hp)
    · rw [hsum_sorted, hscan.total_eq]
      exact lt_of_le_of_lt (Mask.sum_le_of_subperm _ hvsub.subperm hB.amount_nonneg) hB.sum_lt
  have hlow : nTargetValue.toInt ≤ st.nTotalLower.toInt := Int64.le_iff_toInt_le.mp (Int64.not_lt.mp hge)
  have hbest := searchSubset_best choices hB hv hsum_sorted.symm hlow
  -- the subset found is drawn from the sorted coins, with the sum `nBest`
  have hsubset : ∀ best, BestSubset ((choices.sortDesc st.vValue).map Prod.snd) nTargetValue.toInt best →
      ∃ sel, sel.Subperm cands ∧ nTargetValue.toInt ≤ (sel.map fun p => p.2.toInt).sum ∧
        collect (Mask.select best.1 (choices.sortDesc st.vValue)) = collect sel := by
    intro best hb
    have hsel_sum : ((Mask.select best.1 (choices.sortDesc st.vValue)).map fun p => p.2.toInt).sum = best.2.toInt := by
      rw [hb.sum_eq, Mask.select_map, List.map_map]
      rfl
    exact ⟨_, (Mask.select_subperm best.1 hperm).trans hvsub.subperm, hsel_sum ▸ hb.bound_le, rfl⟩
  unfold solveSubset
  dsimp only
  generalize searchSubset choices nTargetValue ((choices.sortDesc st.vValue).map Prod.snd) st.nTotalLower = best
    at hbest
  cases hl : st.coinLowestLarger with
  | none => exact hsubset best hbest
  | some l =>
    dsimp only
    split
    · -- the least larger coin, above the target plus `MIN_CHANGE`
      obtain ⟨hmem, hlarge⟩ := hscan.larger_mem l hl
      have hl_ge := Int64.le_iff_toInt_le.mp hlarge
      rw [hB.toInt_target_add] at hl_ge
      exact ⟨[l], List.singleton_subperm_iff.mpr hmem, by simp; omega, rfl⟩
    · exact hsubset best hbest

variable (choices : Choices) (mapTx : uint256 → Option (UInt64 × UInt64)) (nConfMine nConfTheirs : Int)
  (nMaxAncestors : UInt64) (vCoins : List COutput)

/-- The scan of the shuffled candidates ends as `ScanSpec` says, within the bounds. -/
theorem scan_candidates (hB : Bounded nTargetValue (candidates mapTx nConfMine nConfTheirs nMaxAncestors vCoins)) :
    ScanSpec nTargetValue (candidates mapTx nConfMine nConfTheirs nMaxAncestors (choices.shuffle vCoins))
      (scan nTargetValue (candidates mapTx nConfMine nConfTheirs nMaxAncestors (choices.shuffle vCoins))
        ⟨[], 0, none⟩) := by
  have hB' := hB.subperm (candidates_perm mapTx nConfMine nConfTheirs nMaxAncestors
    (choices.perm_shuffle vCoins)).subperm
  simpa using scan_spec _ [] _ scanning_nil (by simpa using hB'.amount_nonneg) (by simpa using hB'.sum_lt)

/-- Where `SelectTokensMinConf` returns `true`, within the bounds: its coins are
candidates that passed the filters and whose script reads, `nValueRet` is their
exact sum, and it reaches the target. -/
theorem selectTokensMinConf_some (hB : Bounded nTargetValue (candidates mapTx nConfMine nConfTheirs nMaxAncestors vCoins))
    {res : List CInputCoin × CAmount}
    (h : selectTokensMinConf choices mapTx nTargetValue nConfMine nConfTheirs nMaxAncestors vCoins = some res) :
    ∃ sel, Selects (candidates mapTx nConfMine nConfTheirs nMaxAncestors vCoins) sel res ∧
      nTargetValue.toInt ≤ res.2.toInt := by
  -- every exit collects a sub-multiset of the candidates that reaches the target
  suffices hsel : ∃ sel, sel.Subperm (candidates mapTx nConfMine nConfTheirs nMaxAncestors vCoins) ∧
      nTargetValue.toInt ≤ (sel.map fun p => p.2.toInt).sum ∧ res = collect sel by
    obtain ⟨sel, hsub, hle, rfl⟩ := hsel
    have hs := hB.selects_collect hsub
    exact ⟨sel, hs, hs.value_eq ▸ hle⟩
  have hperm := candidates_perm mapTx nConfMine nConfTheirs nMaxAncestors (choices.perm_shuffle vCoins)
  have hspec := scan_candidates choices mapTx nConfMine nConfTheirs nMaxAncestors vCoins hB
  unfold selectTokensMinConf at h
  cases hs : scan nTargetValue (candidates mapTx nConfMine nConfTheirs nMaxAncestors (choices.shuffle vCoins))
    ⟨[], 0, none⟩ with
  | exact coin a =>
    rw [hs] at h hspec
    obtain ⟨hmem, rfl⟩ := hspec
    cases h
    exact ⟨[(coin, a)], List.singleton_subperm_iff.mpr (hperm.subset hmem), by simp, rfl⟩
  | scanned st =>
    rw [hs] at h hspec
    have hvsub : st.vValue.Subperm (candidates mapTx nConfMine nConfTheirs nMaxAncestors vCoins) := by
      rw [hspec.vValue_eq]
      exact List.filter_sublist.subperm.trans hperm.subperm
    dsimp only at h
    by_cases heq : st.nTotalLower = nTargetValue
    · -- the coins below the target plus `MIN_CHANGE` add up to the target
      rw [if_pos heq] at h
      cases h
      exact ⟨st.vValue, hvsub, by rw [← hspec.total_eq, heq], rfl⟩
    by_cases hlt : st.nTotalLower < nTargetValue
    · -- too little below: the least larger coin
      rw [if_neg heq, if_pos hlt] at h
      obtain ⟨l, hl, rfl⟩ := Option.map_eq_some_iff.mp h
      obtain ⟨hmem, hlarge⟩ := hspec.larger_mem l hl
      have hl_ge := Int64.le_iff_toInt_le.mp hlarge
      rw [hB.toInt_target_add] at hl_ge
      exact ⟨[l], List.singleton_subperm_iff.mpr (hperm.subset hmem), by simp; omega, rfl⟩
    · rw [if_neg heq, if_neg hlt] at h
      cases h
      have hB' := hB.subperm hperm.subperm
      obtain ⟨sel, hsub, hle, heq'⟩ := solveSubset_spec choices hB' hspec hlt
      exact ⟨sel, hsub.trans hperm.subperm, hle, heq'⟩

/-- Where `SelectTokensMinConf` returns `false`, within the bounds, no
sub-multiset of the candidates reaches the target. -/
theorem selectTokensMinConf_none (hB : Bounded nTargetValue (candidates mapTx nConfMine nConfTheirs nMaxAncestors vCoins))
    (h : selectTokensMinConf choices mapTx nTargetValue nConfMine nConfTheirs nMaxAncestors vCoins = none) :
    ∀ sel : List (CInputCoin × CAmount), sel.Subperm (candidates mapTx nConfMine nConfTheirs nMaxAncestors vCoins) →
      (sel.map fun p => p.2.toInt).sum < nTargetValue.toInt := by
  have hperm := candidates_perm mapTx nConfMine nConfTheirs nMaxAncestors (choices.perm_shuffle vCoins)
  have hspec := scan_candidates choices mapTx nConfMine nConfTheirs nMaxAncestors vCoins hB
  unfold selectTokensMinConf at h
  cases hs : scan nTargetValue (candidates mapTx nConfMine nConfTheirs nMaxAncestors (choices.shuffle vCoins))
    ⟨[], 0, none⟩ with
  | exact coin a =>
    rw [hs] at h
    cases h
  | scanned st =>
    rw [hs] at h hspec
    dsimp only at h
    by_cases heq : st.nTotalLower = nTargetValue
    · rw [if_pos heq] at h
      cases h
    by_cases hlt : st.nTotalLower < nTargetValue
    · rw [if_neg heq, if_pos hlt] at h
      -- no larger coin, so every candidate was gathered below the target
      have hall : st.vValue = candidates mapTx nConfMine nConfTheirs nMaxAncestors (choices.shuffle vCoins) := by
        rw [hspec.vValue_eq]
        exact List.filter_eq_self.mpr fun p hp => by
          simpa using hspec.larger_none (Option.map_eq_none_iff.mp h) p hp
      intro sel hsel
      calc (sel.map fun p => p.2.toInt).sum
          ≤ ((candidates mapTx nConfMine nConfTheirs nMaxAncestors vCoins).map fun p => p.2.toInt).sum :=
            Mask.sum_le_of_subperm _ hsel hB.amount_nonneg
        _ = st.nTotalLower.toInt := by rw [hspec.total_eq, hall]; exact ((hperm.map _).sum_eq).symm
        _ < nTargetValue.toInt := Int64.lt_iff_toInt_lt.mp hlt
    · rw [if_neg heq, if_neg hlt] at h
      cases h

end Postcondition

section Lift

/-- The outpoints of a set after an insertion: the new coin's and those before. -/
theorem mem_outpoints_insertCoin (coin : CInputCoin) (setCoins : List CInputCoin) (o : COutPoint) :
    o ∈ (insertCoin coin setCoins).map CInputCoin.outpoint ↔ o = coin.outpoint ∨ o ∈ setCoins.map CInputCoin.outpoint := by
  unfold insertCoin
  split
  case isTrue hany =>
    -- the outpoint is in the set already
    obtain ⟨d, hd, hdo⟩ := List.any_eq_true.mp hany
    have hdo : d.outpoint = coin.outpoint := by simpa using hdo
    constructor
    · exact Or.inr
    · rintro (rfl | ho)
      · exact List.mem_map.mpr ⟨d, hd, hdo⟩
      · exact ho
  case isFalse => simp [or_comm]

theorem mem_outpoints_foldl_insertCoin (coins : List CInputCoin) :
    ∀ (setCoins : List CInputCoin) (o : COutPoint),
      o ∈ (coins.foldl (fun s c => insertCoin c s) setCoins).map CInputCoin.outpoint ↔
        o ∈ coins.map CInputCoin.outpoint ∨ o ∈ setCoins.map CInputCoin.outpoint := by
  induction coins with
  | nil => simp
  | cons coin coins ih =>
    intro setCoins o
    rw [List.foldl_cons, ih, mem_outpoints_insertCoin, List.map_cons, List.mem_cons]
    tauto

variable (mapTx : uint256 → Option (UInt64 × UInt64))

/-- The call of the chain that selected: one of the attempts, with its outcomes. -/
theorem firstSelection_eq_some (choices : ℕ → Choices) (nTargetValue : CAmount) (vCoins : List COutput)
    {res : List CInputCoin × CAmount} :
    ∀ (attempts : List (Int × Int × UInt64)) (k : ℕ), firstSelection mapTx choices nTargetValue vCoins attempts k = some res →
      ∃ attempt ∈ attempts, ∃ k',
        selectTokensMinConf (choices k') mapTx nTargetValue attempt.1 attempt.2.1 attempt.2.2 vCoins = some res
  | [], _, h => by cases h
  | (nConfMine, nConfTheirs, nMaxAncestors) :: attempts, k, h => by
    rw [firstSelection] at h
    split at h
    case h_1 r hr =>
      cases h
      exact ⟨_, List.mem_cons_self, k, hr⟩
    case h_2 =>
      obtain ⟨attempt, hmem, k', hk'⟩ := firstSelection_eq_some choices nTargetValue vCoins attempts (k + 1) h
      exact ⟨attempt, List.mem_cons_of_mem _ hmem, k', hk'⟩

variable (cfg : SelectTokensConfig) (choices : Bytes → ℕ → Choices) (mapTokenTargetValue : List (Bytes × CAmount))

/-- What `SelectTokens` leaves for one name of a positive target: an entry of
`mapValueRet` that is the exact sum of the coins one of its calls selected from
that name's candidates, at least the target, with their outpoints in
`setCoinsRet`. -/
def SelectedFor (strTokenName : Bytes) (vTokens : List COutput) (nTarget : CAmount) (setCoinsRet : List CInputCoin)
    (mapValueRet : List (Bytes × CAmount)) : Prop :=
  ∃ nValueRet, OrderedMap.find? strTokenName mapValueRet = some nValueRet ∧ nTarget.toInt ≤ nValueRet.toInt ∧
    ∃ attempt ∈ selectAttempts cfg, ∃ sel coins,
      Selects (candidates mapTx attempt.1 attempt.2.1 attempt.2.2 vTokens) sel (coins, nValueRet) ∧
        ∀ c ∈ coins, c.outpoint ∈ setCoinsRet.map CInputCoin.outpoint

/-- The bounds of each name of a positive target, over all its token outputs. -/
def NamesBounded (mapAvailableTokens : List (Bytes × List COutput)) : Prop :=
  ∀ strTokenName vTokens nTarget, (strTokenName, vTokens) ∈ mapAvailableTokens →
    OrderedMap.find? strTokenName mapTokenTargetValue = some nTarget → 0 < nTarget.toInt →
      Bounded nTarget (tokenOutputs vTokens)

theorem SelectedFor.mono {strTokenName : Bytes} {vTokens : List COutput} {nTarget : CAmount}
    {setCoins setCoins' : List CInputCoin} {mapValue mapValue' : List (Bytes × CAmount)}
    (h : SelectedFor mapTx cfg strTokenName vTokens nTarget setCoins mapValue)
    (hcoins : ∀ o, o ∈ setCoins.map CInputCoin.outpoint → o ∈ setCoins'.map CInputCoin.outpoint)
    (hvalue : OrderedMap.find? strTokenName mapValue' = OrderedMap.find? strTokenName mapValue) :
    SelectedFor mapTx cfg strTokenName vTokens nTarget setCoins' mapValue' := by
  obtain ⟨nValueRet, hfind, hle, attempt, hmem, sel, coins, hsel, hin⟩ := h
  exact ⟨nValueRet, hvalue.trans hfind, hle, attempt, hmem, sel, coins, hsel, fun c hc => hcoins _ (hin c hc)⟩

/-- What a completed run of the loop over `rest` guarantees: the set only grew,
names it did not visit keep their entries, and each visited name of a positive
target is `SelectedFor`. -/
structure LoopDone (rest : List (Bytes × List COutput)) (setCoins : List CInputCoin) (mapValue : List (Bytes × CAmount))
    (setCoins' : List CInputCoin) (mapValue' : List (Bytes × CAmount)) : Prop where
  grows : ∀ o, o ∈ setCoins.map CInputCoin.outpoint → o ∈ setCoins'.map CInputCoin.outpoint
  unvisited : ∀ name, name ∉ OrderedMap.keys rest → OrderedMap.find? name mapValue' = OrderedMap.find? name mapValue
  selected : ∀ strTokenName vTokens nTarget, (strTokenName, vTokens) ∈ rest →
    OrderedMap.find? strTokenName mapTokenTargetValue = some nTarget → 0 < nTarget.toInt →
      SelectedFor mapTx cfg strTokenName vTokens nTarget setCoins' mapValue'

/-- A name the loop skips: what the rest of the loop does is all. -/
theorem LoopDone.skip {strTokenName : Bytes} {vTokens : List COutput} {rest : List (Bytes × List COutput)}
    {setCoins setCoins' : List CInputCoin} {mapValue mapValue' : List (Bytes × CAmount)}
    (h : LoopDone mapTx cfg mapTokenTargetValue rest setCoins mapValue setCoins' mapValue')
    (hnot : ∀ t, OrderedMap.find? strTokenName mapTokenTargetValue = some t → ¬0 < t.toInt) :
    LoopDone mapTx cfg mapTokenTargetValue ((strTokenName, vTokens) :: rest) setCoins mapValue setCoins' mapValue' := by
  refine ⟨h.grows, fun name hname => h.unvisited name fun hr => hname (List.mem_cons_of_mem _ hr), ?_⟩
  intro n v t hm ht hpos
  rcases List.mem_cons.mp hm with heq | hm
  · cases heq
    exact absurd hpos (hnot t ht)
  · exact h.selected n v t hm ht hpos

/-- The loop of `SelectTokens`, by induction on the names it has left. -/
theorem selectTokensLoop_spec :
    ∀ (rest : List (Bytes × List COutput)) (setCoins : List CInputCoin) (mapValue : List (Bytes × CAmount))
      {setCoins' : List CInputCoin} {mapValue' : List (Bytes × CAmount)},
      (OrderedMap.keys rest).Nodup → NamesBounded mapTokenTargetValue rest →
      selectTokensLoop mapTx cfg choices mapTokenTargetValue rest setCoins mapValue = some (setCoins', mapValue') →
      LoopDone mapTx cfg mapTokenTargetValue rest setCoins mapValue setCoins' mapValue'
  | [], setCoins, mapValue, _, _, _, _, h => by
    rw [selectTokensLoop] at h
    cases h
    exact ⟨fun _ ho => ho, fun _ _ => rfl, by simp⟩
  | (strTokenName, vTokens) :: rest, setCoins, mapValue, setCoins', mapValue', hkeys, hB, h => by
    have hkeys' : (OrderedMap.keys rest).Nodup := (List.nodup_cons.mp hkeys).2
    have hfresh : strTokenName ∉ OrderedMap.keys rest := (List.nodup_cons.mp hkeys).1
    have hB' : NamesBounded mapTokenTargetValue rest :=
      fun n v t hm => hB n v t (List.mem_cons_of_mem _ hm)
    rw [selectTokensLoop] at h
    split at h
    case h_1 hnone =>
      -- no target for this name
      exact (selectTokensLoop_spec rest setCoins mapValue hkeys' hB' h).skip mapTx cfg mapTokenTargetValue
        fun t ht => by rw [hnone] at ht; cases ht
    case h_2 nTempTargetValue hsome =>
      by_cases hle : nTempTargetValue ≤ 0
      · -- a target that is not positive
        rw [if_pos hle] at h
        refine (selectTokensLoop_spec rest setCoins mapValue hkeys' hB' h).skip mapTx cfg mapTokenTargetValue
          fun t ht => ?_
        rw [hsome] at ht
        cases ht
        exact not_lt.mpr (Int64.le_iff_toInt_le.mp hle)
      rw [if_neg hle] at h
      dsimp only at h
      split at h
      case h_2 => cases h
      case h_1 tempCoinsRet nTempAmountRet hsel =>
        have hrest := selectTokensLoop_spec rest _ _ hkeys' hB' h
        have hpos : 0 < nTempTargetValue.toInt := lt_of_not_ge fun h' => hle (Int64.le_iff_toInt_le.mpr h')
        -- the entry of this name, set last for it and untouched by the rest
        have hentry : OrderedMap.find? strTokenName mapValue' = some nTempAmountRet := by
          rw [hrest.unvisited strTokenName hfresh, OrderedMap.find?_alter_self]
        refine ⟨fun o ho => hrest.grows o ((mem_outpoints_foldl_insertCoin _ _ o).mpr (Or.inr ho)),
          fun name hname => ?_, ?_⟩
        · have hne : name ≠ strTokenName := fun heq => hname (heq ▸ List.mem_cons_self)
          rw [hrest.unvisited name fun hr => hname (List.mem_cons_of_mem _ hr), OrderedMap.find?_alter_ne _ _ hne,
            OrderedMap.find?_alter_ne _ _ hne]
        intro n v t hm ht htpos
        rcases List.mem_cons.mp hm with heq | hm
        · -- this name: the call that selected, within its bounds
          cases heq
          rw [hsome] at ht
          cases ht
          obtain ⟨attempt, hattempt, k, hk⟩ := firstSelection_eq_some mapTx _ _ _ _ _ hsel
          have hBc := (hB strTokenName vTokens nTempTargetValue List.mem_cons_self hsome hpos).subperm
            (candidates_sublist_tokenOutputs mapTx attempt.1 attempt.2.1 attempt.2.2 vTokens).subperm
          obtain ⟨sel, hselects, hge⟩ := selectTokensMinConf_some _ mapTx _ _ _ vTokens hBc hk
          refine ⟨nTempAmountRet, hentry, hge, attempt, hattempt, sel, tempCoinsRet, hselects, fun c hc' => ?_⟩
          exact hrest.grows _ ((mem_outpoints_foldl_insertCoin _ _ _).mpr (Or.inl (List.mem_map_of_mem hc')))
        · exact hrest.selected n v t hm ht htpos

/-- `SelectTokens` lifts the postcondition name by name: where it returns `true`,
each name of `mapAvailableTokens` with a positive target has an entry in
`mapValueRet` that some call selected for it, and names outside the map keep
their entries. -/
theorem selectTokens_some (mapAvailableTokens : List (Bytes × List COutput)) (setCoinsRet : List CInputCoin)
    (mapValueRet : List (Bytes × CAmount)) {setCoinsRet' : List CInputCoin} {mapValueRet' : List (Bytes × CAmount)}
    (hkeys : (OrderedMap.keys mapAvailableTokens).Nodup) (hB : NamesBounded mapTokenTargetValue mapAvailableTokens)
    (h : selectTokens mapTx cfg choices mapTokenTargetValue mapAvailableTokens setCoinsRet mapValueRet =
      some (setCoinsRet', mapValueRet')) :
    LoopDone mapTx cfg mapTokenTargetValue mapAvailableTokens setCoinsRet mapValueRet setCoinsRet' mapValueRet' := by
  unfold selectTokens at h
  split at h
  · cases h
  · exact selectTokensLoop_spec mapTx cfg choices mapTokenTargetValue _ _ _ hkeys hB h

end Lift

section Fixtures

/-- Outcomes where the shuffle keeps the order, `std::sort` orders as a merge
sort, and every draw is `false`. -/
def keepOrder : Choices where
  shuffle := id
  perm_shuffle := fun _ => List.Perm.refl _
  sortDesc := fun vValue => (vValue.mergeSort fun a b => decide (a.2 ≤ b.2)).reverse
  perm_sortDesc := fun vValue => (List.reverse_perm _).trans (List.mergeSort_perm _ _)
  sorted_sortDesc := fun vValue => by
    rw [List.pairwise_reverse]
    refine (List.pairwise_mergeSort (fun a b c hab hbc => ?_) (fun a b => ?_) vValue).imp fun h => ?_
    · simp only [decide_eq_true_eq] at *
      exact Int64.le_trans hab hbc
    · simpa using Int64.le_total a.2 b.2
    · simpa using h
  randbool := fun _ _ _ => false

/-- A spendable output of six confirmations that transfers one unit of `AOK`. -/
def unitTransfer : COutput :=
  ⟨0, true, 0, ⟨0, CTokenTransfer.constructTransaction ⟨[65, 79, 75], 1, 0⟩ (payToPubKeyHash (List.replicate 20 7))⟩,
    6, true⟩

/-- Outcomes where the shuffle keeps the order, `std::sort` orders as an
insertion sort, and every draw is `false`. -/
def insertionOrder : Choices where
  shuffle := id
  perm_shuffle := fun _ => List.Perm.refl _
  sortDesc := fun vValue => vValue.insertionSort fun a b => b.2 ≤ a.2
  perm_sortDesc := fun vValue => List.perm_insertionSort _ vValue
  sorted_sortDesc := fun vValue => by
    have : Std.Total fun a b : CInputCoin × CAmount => b.2 ≤ a.2 := ⟨fun a b => Int64.le_total b.2 a.2⟩
    have : IsTrans (CInputCoin × CAmount) fun a b => b.2 ≤ a.2 := ⟨fun _ _ _ hab hbc => Int64.le_trans hbc hab⟩
    exact List.pairwise_insertionSort _ vValue
  randbool := fun _ _ _ => false

/-- A spendable output of six confirmations at index `i` that transfers
`nAmount` of `AOK`. -/
def aokTransfer (i : UInt32) (nAmount : CAmount) : COutput :=
  ⟨0, true, i, ⟨0, CTokenTransfer.constructTransaction ⟨[65, 79, 75], nAmount, 0⟩
    (payToPubKeyHash (List.replicate 20 7))⟩, 6, true⟩

/-- Two, two and one `AOK`: no coin makes three, and together they overshoot it. -/
def changeCoins : List COutput := [aokTransfer 1 2, aokTransfer 2 2, aokTransfer 3 1]

end Fixtures

/-- Token coin selection, within the bounds of `Bounded`: for every outcome of
the shuffle, the sort and the draws, and every filter, what `SelectTokensMinConf`
returns is a selection of its candidates with its exact sum, at least the target,
and it fails only where no selection reaches the target; `SelectTokens` lifts
this to each name of `mapAvailableTokens` with a positive target. -/
theorem selectTokens_postcondition :
    (∀ (choices : Choices) (mapTx : uint256 → Option (UInt64 × UInt64)) (nTargetValue : CAmount)
        (nConfMine nConfTheirs : Int) (nMaxAncestors : UInt64) (vCoins : List COutput),
      Bounded nTargetValue (candidates mapTx nConfMine nConfTheirs nMaxAncestors vCoins) →
        (∀ res, selectTokensMinConf choices mapTx nTargetValue nConfMine nConfTheirs nMaxAncestors vCoins = some res →
          ∃ sel, Selects (candidates mapTx nConfMine nConfTheirs nMaxAncestors vCoins) sel res ∧
            nTargetValue.toInt ≤ res.2.toInt) ∧
        (selectTokensMinConf choices mapTx nTargetValue nConfMine nConfTheirs nMaxAncestors vCoins = none →
          ∀ sel : List (CInputCoin × CAmount), sel.Subperm (candidates mapTx nConfMine nConfTheirs nMaxAncestors vCoins) →
            (sel.map fun p => p.2.toInt).sum < nTargetValue.toInt)) ∧
    ∀ (mapTx : uint256 → Option (UInt64 × UInt64)) (cfg : SelectTokensConfig) (choices : Bytes → ℕ → Choices)
        (mapTokenTargetValue : List (Bytes × CAmount)) (mapAvailableTokens : List (Bytes × List COutput))
        (setCoinsRet setCoinsRet' : List CInputCoin) (mapValueRet mapValueRet' : List (Bytes × CAmount)),
      (OrderedMap.keys mapAvailableTokens).Nodup → NamesBounded mapTokenTargetValue mapAvailableTokens →
        selectTokens mapTx cfg choices mapTokenTargetValue mapAvailableTokens setCoinsRet mapValueRet =
          some (setCoinsRet', mapValueRet') →
        LoopDone mapTx cfg mapTokenTargetValue mapAvailableTokens setCoinsRet mapValueRet setCoinsRet' mapValueRet' :=
  ⟨fun choices mapTx _ nConfMine nConfTheirs nMaxAncestors vCoins hB =>
      ⟨fun _ h => selectTokensMinConf_some choices mapTx nConfMine nConfTheirs nMaxAncestors vCoins hB h,
        selectTokensMinConf_none choices mapTx nConfMine nConfTheirs nMaxAncestors vCoins hB⟩,
    fun mapTx cfg choices mapTokenTargetValue mapAvailableTokens setCoinsRet _ mapValueRet _ hkeys hB h =>
      selectTokens_some mapTx cfg choices mapTokenTargetValue mapAvailableTokens setCoinsRet mapValueRet hkeys hB h⟩

/-- The postcondition at two exits: a target of one from one unit, the exact
match; and a target of three from `changeCoins`, where no coin matches and the
coins below the target plus `MIN_CHANGE` overshoot it, so that `solveSubset`
picks a two and the one. -/
theorem selectTokens_postcondition_unit :
    (Bounded 1 (candidates (fun _ => none) 0 0 0 [unitTransfer]) ∧
      ∃ sel, Selects (candidates (fun _ => none) 0 0 0 [unitTransfer]) sel ([unitTransfer.coin], 1) ∧
        (1 : CAmount).toInt ≤ (1 : CAmount).toInt) ∧
    (Bounded 3 (candidates (fun _ => none) 0 0 0 changeCoins) ∧
      selectTokensMinConf insertionOrder (fun _ => none) 3 0 0 0 changeCoins =
        some (solveSubset insertionOrder 3 ⟨candidates (fun _ => none) 0 0 0 changeCoins, 5, none⟩) ∧
      ∃ sel, Selects (candidates (fun _ => none) 0 0 0 changeCoins) sel
        ([(aokTransfer 1 2).coin, (aokTransfer 3 1).coin], 3) ∧ (3 : CAmount).toInt ≤ (3 : CAmount).toInt) := by
  have hB : Bounded 1 (candidates (fun _ => none) 0 0 0 [unitTransfer]) :=
    ⟨by decide, by decide, by decide, by decide, by decide⟩
  have hB₃ : Bounded 3 (candidates (fun _ => none) 0 0 0 changeCoins) :=
    ⟨by decide, by decide, by decide, by decide, by decide⟩
  have hsolve : selectTokensMinConf insertionOrder (fun _ => none) 3 0 0 0 changeCoins =
      some (solveSubset insertionOrder 3 ⟨candidates (fun _ => none) 0 0 0 changeCoins, 5, none⟩) := by decide
  have hres : selectTokensMinConf insertionOrder (fun _ => none) 3 0 0 0 changeCoins =
      some ([(aokTransfer 1 2).coin, (aokTransfer 3 1).coin], 3) := by decide
  exact ⟨⟨hB, (selectTokens_postcondition.1 keepOrder _ 1 0 0 0 [unitTransfer] hB).1 _ (by decide)⟩,
    ⟨hB₃, hsolve, (selectTokens_postcondition.1 insertionOrder _ 3 0 0 0 changeCoins hB₃).1 _ hres⟩⟩

/-- Past the bounds: with the target at `INT64_MAX` the target plus `MIN_CHANGE`
wraps negative, so no amount counts as below it, and the selector returns one
unit for the target, as the least larger coin. -/
theorem selectTokensMinConf_target_overflow :
    selectTokensMinConf keepOrder (fun _ => none) Int64.maxValue 0 0 0 [unitTransfer] = some ([unitTransfer.coin], 1) ∧
      (1 : CAmount).toInt < Int64.maxValue.toInt :=
  ⟨by decide, by decide⟩

end Wallet
end AokChain
