import AokChain.Primitives.ArithUint256

/-!
# Retargeting

`pow.cpp`.  The target of the next block (`GetNextTargetRequired`) is an
exponential moving average over the blocks of its kind: the target of the last
one times `(N - 1) * spacing + 2 * actual`, over `(N + 1) * spacing`, clamped to
the limit of the kind (`CalculateNextTargetRequired`).  The product is taken in
`arith_uint256`, modulo `2^256`.  Where it fits, the code computes that average
(`calculateNextTargetRequired_eq_exactNextTarget`).  On the main network's
proof-of-work limit it does not fit: after a block slower than the spacing, the
next target is smaller than the last one, not the limit
(`calculateNextTargetRequired_wraps_at_powLimit`).

A chain of block indices is a list from a block back to the genesis block: the
tail of a block is its `pprev` chain, and `[]` is a null pointer.
-/

namespace AokChain
open ArithUint256

/-- The retargeting fields of `Consensus::Params`.  The spacing is positive (the
code divides by it), and both times are below `2^31`, where the `int64_t`
arithmetic of `CalculateNextTargetRequired` on block times is exact. -/
structure PowParams where
  powLimit : uint256
  posLimit : uint256
  nTargetSpacing : ℤ
  nTargetTimespan : ℤ
  fPowNoRetargeting : Bool
  fPosNoRetargeting : Bool
  nTargetSpacing_pos : 0 < nTargetSpacing
  nTargetSpacing_lt : nTargetSpacing < 2 ^ 31
  nTargetTimespan_nonneg : 0 ≤ nTargetTimespan
  nTargetTimespan_lt : nTargetTimespan < 2 ^ 31

/-- The main network's values (`CMainParams`). -/
def mainPowParams : PowParams where
  powLimit := 0x003fffffffffffffffffffffffffffffffffffffffffffffffffffffffffffff
  posLimit := 0x000000000000ffffffffffffffffffffffffffffffffffffffffffffffffffff
  nTargetSpacing := 64
  nTargetTimespan := 16 * 60
  fPowNoRetargeting := false
  fPosNoRetargeting := false
  nTargetSpacing_pos := by decide
  nTargetSpacing_lt := by decide
  nTargetTimespan_nonneg := by decide
  nTargetTimespan_lt := by decide

/-- The fields of `CBlockIndex` that retargeting reads; `fProofOfStake` is the
`BLOCK_PROOF_OF_STAKE` bit of `nStatus` that `IsProofOfStake()` tests. -/
structure CBlockIndex where
  nTime : UInt32
  nBits : UInt32
  fProofOfStake : Bool
  deriving DecidableEq, Repr

/-- `CBlockIndex::GetBlockTime`. -/
def CBlockIndex.getBlockTime (b : CBlockIndex) : ℤ := b.nTime.toNat

/-- `GetLastBlockIndex`: back from the head of the chain to the first block of
the wanted kind, stopping at the genesis block. -/
def getLastBlockIndex : List CBlockIndex → Bool → List CBlockIndex
  | pindex :: pprev :: rest, fProofOfStake =>
    if pindex.fProofOfStake != fProofOfStake then getLastBlockIndex (pprev :: rest) fProofOfStake
    else pindex :: pprev :: rest
  | chain, _ => chain

/-- `GetTargetLimit`; the time it takes is unused. -/
def getTargetLimit (params : PowParams) (fProofOfStake : Bool) : uint256 :=
  if fProofOfStake then params.posLimit else params.powLimit

/-- The "limit adjustment step" of `CalculateNextTargetRequired`. -/
def limitSpacing (nTargetSpacing nActualSpacing : ℤ) : ℤ :=
  let nActualSpacing := if nActualSpacing < 0 then nTargetSpacing else nActualSpacing
  if nActualSpacing > nTargetSpacing * 10 then nTargetSpacing * 10 else nActualSpacing

/-- `CalculateNextTargetRequired`.  The `int64_t` factor goes through
`operator*=(uint32_t)`, whose product drops the carry out of 256 bits; the
divisor becomes a `base_uint` through its `uint64_t` constructor. -/
def calculateNextTargetRequired (params : PowParams) (pindexLast : CBlockIndex) (nFirstBlockTime : ℤ) :
    UInt32 :=
  let fProofOfStake := pindexLast.fProofOfStake
  if !fProofOfStake && params.fPowNoRetargeting then pindexLast.nBits
  else if fProofOfStake && params.fPosNoRetargeting then pindexLast.nBits
  else
    let nTargetSpacing := params.nTargetSpacing
    let nActualSpacing := limitSpacing nTargetSpacing (pindexLast.getBlockTime - nFirstBlockTime)
    let bnTargetLimit := getTargetLimit params fProofOfStake
    let nInterval := params.nTargetTimespan / nTargetSpacing
    let bnNew := setCompact pindexLast.nBits *
      BitVec.ofNat 256 (UInt32.ofInt ((nInterval - 1) * nTargetSpacing + nActualSpacing + nActualSpacing)).toNat
    let bnNew := bnNew / BitVec.ofNat 256 (UInt64.ofInt ((nInterval + 1) * nTargetSpacing)).toNat
    let bnNew := if bnNew ≤ 0 || bnNew > bnTargetLimit then bnTargetLimit else bnNew
    getCompact bnNew

/-- `GetNextTargetRequired` for a block of the given kind on top of `chain`; the
header it also takes is unused. -/
def getNextTargetRequired (params : PowParams) (chain : List CBlockIndex) (fProofOfStake : Bool) : UInt32 :=
  let nTargetLimit := getCompact (getTargetLimit params fProofOfStake)
  match getLastBlockIndex chain fProofOfStake with
  | pindexPrev :: pprev@(_ :: _) =>
    match getLastBlockIndex pprev fProofOfStake with
    | pindexPrevPrev :: _ :: _ => calculateNextTargetRequired params pindexPrev pindexPrevPrev.getBlockTime
    -- second block
    | _ => nTargetLimit
  -- genesis block, first block
  | _ => nTargetLimit

/-- `CheckProofOfWork`. -/
def checkProofOfWork (params : PowParams) (hash : uint256) (nBits : UInt32) : Bool :=
  let bnTarget := setCompact nBits
  if compactNegative nBits || bnTarget == 0 || compactOverflow nBits || bnTarget > params.powLimit then false
  else if hash > bnTarget then false
  else true

/-- Whether blocks of the kind retarget (`fPowNoRetargeting`, `fPosNoRetargeting`). -/
def PowParams.retargets (params : PowParams) (fProofOfStake : Bool) : Bool :=
  if fProofOfStake then !params.fPosNoRetargeting else !params.fPowNoRetargeting

/-- The factor `(N - 1) * spacing + 2 * s` of the average, for a clamped spacing `s`. -/
def PowParams.retargetFactor (params : PowParams) (s : ℤ) : ℤ :=
  (params.nTargetTimespan / params.nTargetSpacing - 1) * params.nTargetSpacing + 2 * s

/-- The divisor `(N + 1) * spacing` of the average. -/
def PowParams.retargetDivisor (params : PowParams) : ℤ :=
  (params.nTargetTimespan / params.nTargetSpacing + 1) * params.nTargetSpacing

/-- The clamp of a new target to the limit, in natural numbers. -/
def clampTarget (limit v : ℕ) : ℕ := if v = 0 then limit else min limit v

/-- The exponential moving average that retargeting stands for, in exact
arithmetic: `⌊T * ((N - 1) * spacing + 2 * s) / ((N + 1) * spacing)⌋` clamped
to the limit, and the limit where it is zero, in compact form. -/
def exactNextTarget (params : PowParams) (pindexLast : CBlockIndex) (nFirstBlockTime : ℤ) : UInt32 :=
  let s := limitSpacing params.nTargetSpacing (pindexLast.getBlockTime - nFirstBlockTime)
  let v := (setCompact pindexLast.nBits).toNat * (params.retargetFactor s).toNat / params.retargetDivisor.toNat
  getCompact (BitVec.ofNat 256 (clampTarget (getTargetLimit params pindexLast.fProofOfStake).toNat v))

section Steps

variable {nTargetSpacing nActualSpacing : ℤ}

theorem limitSpacing_nonneg (hs : 0 < nTargetSpacing) : 0 ≤ limitSpacing nTargetSpacing nActualSpacing := by
  simp only [limitSpacing]
  split_ifs <;> omega

theorem limitSpacing_le (hs : 0 < nTargetSpacing) :
    limitSpacing nTargetSpacing nActualSpacing ≤ nTargetSpacing * 10 := by
  simp only [limitSpacing]
  split_ifs <;> omega

theorem limitSpacing_of_nonneg (ha : 0 ≤ nActualSpacing) :
    limitSpacing nTargetSpacing nActualSpacing = min nActualSpacing (nTargetSpacing * 10) := by
  simp only [limitSpacing]
  split_ifs <;> omega

-- The two conversions of the factor and the divisor are exact in range, and
-- the `uint32_t` product is the natural-number product modulo `2^256`.
theorem retarget_toNat (T : uint256) {m d : ℤ} (hm : 0 ≤ m) (hm' : m < 2 ^ 32) (hd : 0 < d) (hd' : d < 2 ^ 64) :
    ((T * BitVec.ofNat 256 (UInt32.ofInt m).toNat) / BitVec.ofNat 256 (UInt64.ofInt d).toNat).toNat =
      T.toNat * m.toNat % 2 ^ 256 / d.toNat := by
  have hm32 : (UInt32.ofInt m).toNat = m.toNat := by
    rw [UInt32.ofInt, Int.emod_eq_of_lt hm hm', UInt32.toNat_ofNat_of_lt' (by unfold UInt32.size; omega)]
  have hd64 : (UInt64.ofInt d).toNat = d.toNat := by
    rw [UInt64.ofInt, Int.emod_eq_of_lt hd.le hd', UInt64.toNat_ofNat_of_lt' (by unfold UInt64.size; omega)]
  rw [BitVec.toNat_udiv, BitVec.toNat_mul, BitVec.toNat_ofNat, BitVec.toNat_ofNat, hm32, hd64,
    Nat.mod_eq_of_lt (by omega : m.toNat < 2 ^ 256), Nat.mod_eq_of_lt (by omega : d.toNat < 2 ^ 256)]

-- The clamp of `CalculateNextTargetRequired` in natural numbers.
theorem clampTarget_eq (bnNew bnTargetLimit : uint256) :
    (if bnNew ≤ 0 || bnNew > bnTargetLimit then bnTargetLimit else bnNew) =
      BitVec.ofNat 256 (clampTarget bnTargetLimit.toNat bnNew.toNat) := by
  have hzero : (bnNew ≤ 0) ↔ bnNew.toNat = 0 := by rw [BitVec.le_def]; exact Nat.le_zero
  have hlimit : (bnNew > bnTargetLimit) ↔ bnTargetLimit.toNat < bnNew.toNat := BitVec.lt_def
  apply BitVec.eq_of_toNat_eq
  rw [BitVec.toNat_ofNat, clampTarget]
  by_cases h0 : bnNew.toNat = 0
  · have hcond : (decide (bnNew ≤ 0) || decide (bnNew > bnTargetLimit)) = true := by
      rw [Bool.or_eq_true]; exact Or.inl (decide_eq_true (hzero.2 h0))
    rw [if_pos hcond, if_pos h0, Nat.mod_eq_of_lt bnTargetLimit.isLt]
  · by_cases hl : bnTargetLimit.toNat < bnNew.toNat
    · have hcond : (decide (bnNew ≤ 0) || decide (bnNew > bnTargetLimit)) = true := by
        rw [Bool.or_eq_true]; exact Or.inr (decide_eq_true (hlimit.2 hl))
      rw [if_pos hcond, if_neg h0, Nat.min_eq_left hl.le, Nat.mod_eq_of_lt bnTargetLimit.isLt]
    · have hcond : ¬ (decide (bnNew ≤ 0) || decide (bnNew > bnTargetLimit)) = true := by
        rw [Bool.or_eq_true, decide_eq_true_iff, decide_eq_true_iff, hzero, hlimit]; omega
      rw [if_neg hcond, if_neg h0, Nat.min_eq_right (Nat.le_of_not_lt hl), Nat.mod_eq_of_lt bnNew.isLt]

theorem clampTarget_le (limit v : ℕ) : clampTarget limit v ≤ limit := by
  unfold clampTarget
  split <;> omega

theorem PowParams.retargetDivisor_pos (params : PowParams) : 0 < params.retargetDivisor :=
  Int.mul_pos (by have := Int.ediv_nonneg params.nTargetTimespan_nonneg params.nTargetSpacing_pos.le; omega)
    params.nTargetSpacing_pos

theorem PowParams.retargetDivisor_lt (params : PowParams) : params.retargetDivisor < 2 ^ 32 := by
  have hq := Int.ediv_mul_le params.nTargetTimespan params.nTargetSpacing_pos.ne'
  have := params.nTargetTimespan_lt
  have := params.nTargetSpacing_lt
  unfold PowParams.retargetDivisor
  rw [Int.add_mul, Int.one_mul]
  omega

end Steps

section Spec

variable (params : PowParams) (pindexLast : CBlockIndex) (nFirstBlockTime : ℤ)

-- Where the kind retargets, `CalculateNextTargetRequired` is the compact of the
-- clamped quotient, with the product taken modulo `2^256`.
theorem calculateNextTargetRequired_eq {s : ℤ} (hret : params.retargets pindexLast.fProofOfStake = true)
    (hs : limitSpacing params.nTargetSpacing (pindexLast.getBlockTime - nFirstBlockTime) = s)
    (hm : 0 ≤ params.retargetFactor s) (hm' : params.retargetFactor s < 2 ^ 32) :
    calculateNextTargetRequired params pindexLast nFirstBlockTime =
      getCompact (BitVec.ofNat 256 (clampTarget (getTargetLimit params pindexLast.fProofOfStake).toNat
        ((setCompact pindexLast.nBits).toNat * (params.retargetFactor s).toNat % 2 ^ 256 /
          params.retargetDivisor.toNat))) := by
  have hpow : (!pindexLast.fProofOfStake && params.fPowNoRetargeting) = false := by
    cases h : pindexLast.fProofOfStake <;> simp_all [PowParams.retargets]
  have hpos : (pindexLast.fProofOfStake && params.fPosNoRetargeting) = false := by
    cases h : pindexLast.fProofOfStake <;> simp_all [PowParams.retargets]
  have hfactor : (params.nTargetTimespan / params.nTargetSpacing - 1) * params.nTargetSpacing + s + s =
      params.retargetFactor s := by
    unfold PowParams.retargetFactor; ring
  have hdivisor : (params.nTargetTimespan / params.nTargetSpacing + 1) * params.nTargetSpacing =
      params.retargetDivisor := rfl
  have hpre := retarget_toNat (setCompact pindexLast.nBits) hm hm' params.retargetDivisor_pos
    (lt_trans params.retargetDivisor_lt (by norm_num))
  unfold calculateNextTargetRequired
  simp only [hpow, hpos, Bool.false_eq_true, if_false, hs, hfactor, hdivisor]
  rw [clampTarget_eq, hpre]

theorem calculateNextTargetRequired_le_limit (hret : params.retargets pindexLast.fProofOfStake = true) :
    setCompact (calculateNextTargetRequired params pindexLast nFirstBlockTime) ≤
      getTargetLimit params pindexLast.fProofOfStake := by
  have hpow : (!pindexLast.fProofOfStake && params.fPowNoRetargeting) = false := by
    cases h : pindexLast.fProofOfStake <;> simp_all [PowParams.retargets]
  have hpos : (pindexLast.fProofOfStake && params.fPosNoRetargeting) = false := by
    cases h : pindexLast.fProofOfStake <;> simp_all [PowParams.retargets]
  unfold calculateNextTargetRequired
  simp only [hpow, hpos, Bool.false_eq_true, if_false, clampTarget_eq]
  refine BitVec.le_trans (setCompact_getCompact_le _) ?_
  rw [BitVec.le_def, BitVec.toNat_ofNat]
  exact le_trans (Nat.mod_le _ _) (clampTarget_le _ _)

-- The average itself, wherever the largest factor times the limit fits in 256 bits.
theorem calculateNextTargetRequired_eq_exactNextTarget (hret : params.retargets pindexLast.fProofOfStake = true)
    (hN : params.nTargetSpacing ≤ params.nTargetTimespan)
    (hT : setCompact pindexLast.nBits ≤ getTargetLimit params pindexLast.fProofOfStake)
    (hfit : (getTargetLimit params pindexLast.fProofOfStake).toNat *
      (params.retargetFactor (params.nTargetSpacing * 10)).toNat < 2 ^ 256)
    (hfactor : params.retargetFactor (params.nTargetSpacing * 10) < 2 ^ 32) :
    calculateNextTargetRequired params pindexLast nFirstBlockTime =
      exactNextTarget params pindexLast nFirstBlockTime := by
  obtain ⟨s, hs⟩ : ∃ s, limitSpacing params.nTargetSpacing (pindexLast.getBlockTime - nFirstBlockTime) = s :=
    ⟨_, rfl⟩
  have hs0 : 0 ≤ s := hs ▸ limitSpacing_nonneg params.nTargetSpacing_pos
  have hs10 : s ≤ params.nTargetSpacing * 10 := hs ▸ limitSpacing_le params.nTargetSpacing_pos
  have hN1 : 1 ≤ params.nTargetTimespan / params.nTargetSpacing :=
    Int.le_ediv_of_mul_le params.nTargetSpacing_pos (by omega)
  have hm : 0 ≤ params.retargetFactor s := by
    unfold PowParams.retargetFactor
    have := Int.mul_nonneg (by omega : 0 ≤ params.nTargetTimespan / params.nTargetSpacing - 1)
      params.nTargetSpacing_pos.le
    omega
  have hmax : params.retargetFactor s ≤ params.retargetFactor (params.nTargetSpacing * 10) := by
    unfold PowParams.retargetFactor; omega
  have hprod : (setCompact pindexLast.nBits).toNat * (params.retargetFactor s).toNat < 2 ^ 256 :=
    lt_of_le_of_lt (Nat.mul_le_mul (BitVec.le_def.1 hT) (by omega)) hfit
  rw [calculateNextTargetRequired_eq params pindexLast nFirstBlockTime hret hs hm (by omega),
    Nat.mod_eq_of_lt hprod]
  simp only [exactNextTarget, hs]

end Spec

section Chain

theorem getLastBlockIndex_kind {chain rest : List CBlockIndex} {fProofOfStake : Bool} {p q : CBlockIndex}
    (h : getLastBlockIndex chain fProofOfStake = p :: q :: rest) : p.fProofOfStake = fProofOfStake := by
  fun_induction getLastBlockIndex chain fProofOfStake with
  | case1 pindex pprev rest' f hne ih => exact ih h
  | case2 pindex pprev rest' f hne =>
    simp only [List.cons.injEq] at h
    obtain ⟨rfl, -⟩ := h
    simpa using hne
  | case3 chain f hshape =>
    subst h
    exact absurd rfl (hshape p q rest)

/-- The next target of a kind that retargets never decodes above the limit of
that kind, on every chain. -/
theorem getNextTargetRequired_le_limit (params : PowParams) (chain : List CBlockIndex) (fProofOfStake : Bool)
    (hret : params.retargets fProofOfStake = true) :
    setCompact (getNextTargetRequired params chain fProofOfStake) ≤ getTargetLimit params fProofOfStake := by
  unfold getNextTargetRequired
  dsimp only
  split
  · rename_i pindexPrev _ _ hprev
    have hkind : pindexPrev.fProofOfStake = fProofOfStake := getLastBlockIndex_kind hprev
    split
    · rw [← hkind] at hret ⊢
      exact calculateNextTargetRequired_le_limit params pindexPrev _ hret
    · exact setCompact_getCompact_le _
  · exact setCompact_getCompact_le _

/-- Three proof-of-work blocks at the limit, 65 seconds apart, newest first. -/
def powChain : List CBlockIndex :=
  [⟨1700000130, 0x1f3fffff, false⟩, ⟨1700000065, 0x1f3fffff, false⟩, ⟨1700000000, 0x1f3fffff, false⟩]

theorem powChain_next_le_limit :
    mainPowParams.retargets false = true ∧
      setCompact (getNextTargetRequired mainPowParams powChain false) ≤ getTargetLimit mainPowParams false :=
  ⟨rfl, getNextTargetRequired_le_limit mainPowParams powChain false rfl⟩

end Chain

section MainNet

-- On the main network's proof-of-work limit, `T = 2^246 - 2^224`, every factor
-- of a slow block (`1026` to `2176`) wraps the product once or twice, and what
-- is left, over `1024`, lies strictly between `0` and `T`.
theorem powLimit_product_wraps {m : ℕ} (h1 : 1026 ≤ m) (h2 : m ≤ 2176) :
    0 < (2 ^ 246 - 2 ^ 224) * m % 2 ^ 256 / 1024 ∧ (2 ^ 246 - 2 ^ 224) * m % 2 ^ 256 / 1024 < 2 ^ 246 - 2 ^ 224 := by
  have hsplit := Nat.div_add_mod ((2 ^ 246 - 2 ^ 224) * m) (2 ^ 256)
  rcases le_or_gt m 2048 with hm | hm
  · have hq : (2 ^ 246 - 2 ^ 224) * m / 2 ^ 256 = 1 := Nat.div_eq_of_lt_le (by omega) (by omega)
    rw [hq] at hsplit
    omega
  · have hq : (2 ^ 246 - 2 ^ 224) * m / 2 ^ 256 = 2 := Nat.div_eq_of_lt_le (by omega) (by omega)
    rw [hq] at hsplit
    omega

theorem mainPowParams_retargetFactor (s : ℤ) : mainPowParams.retargetFactor s = 896 + 2 * s := by
  simp only [PowParams.retargetFactor, mainPowParams]
  omega

theorem calculateNextTargetRequired_wraps_at_powLimit (pindexLast : CBlockIndex) (nFirstBlockTime : ℤ)
    (hpow : pindexLast.fProofOfStake = false) (hbits : pindexLast.nBits = getCompact mainPowParams.powLimit)
    (hslow : mainPowParams.nTargetSpacing < pindexLast.getBlockTime - nFirstBlockTime) :
    setCompact (calculateNextTargetRequired mainPowParams pindexLast nFirstBlockTime) < setCompact pindexLast.nBits ∧
      exactNextTarget mainPowParams pindexLast nFirstBlockTime = pindexLast.nBits := by
  have hT : (setCompact pindexLast.nBits).toNat = 2 ^ 246 - 2 ^ 224 := by rw [hbits]; decide
  have hlimit : (getTargetLimit mainPowParams pindexLast.fProofOfStake).toNat = 2 ^ 246 - 1 := by
    rw [hpow]; rfl
  have hdivisor : mainPowParams.retargetDivisor.toNat = 1024 := rfl
  obtain ⟨s, hs⟩ : ∃ s, limitSpacing mainPowParams.nTargetSpacing (pindexLast.getBlockTime - nFirstBlockTime) = s :=
    ⟨_, rfl⟩
  -- A block slower than the spacing has its spacing clamped into `65 .. 640`.
  have hs' : 65 ≤ s ∧ s ≤ 640 := by
    have h64 : mainPowParams.nTargetSpacing = 64 := rfl
    rw [limitSpacing_of_nonneg (by omega), h64] at hs
    omega
  have hm := mainPowParams_retargetFactor s
  obtain ⟨hpos, hlt⟩ := powLimit_product_wraps (m := (mainPowParams.retargetFactor s).toNat) (by omega) (by omega)
  constructor
  · rw [calculateNextTargetRequired_eq mainPowParams pindexLast nFirstBlockTime (by rw [hpow]; rfl) hs
      (by omega) (by omega), BitVec.lt_def]
    refine lt_of_le_of_lt (BitVec.le_def.1 (setCompact_getCompact_le _)) ?_
    rw [BitVec.toNat_ofNat, hT, hlimit, hdivisor, clampTarget, if_neg (by omega), Nat.min_eq_right (by omega),
      Nat.mod_eq_of_lt (lt_trans hlt (by norm_num))]
    exact hlt
  · -- Without the wrap the quotient is above the limit, which the clamp returns.
    have hclamp : clampTarget (getTargetLimit mainPowParams pindexLast.fProofOfStake).toNat
        ((setCompact pindexLast.nBits).toNat * (mainPowParams.retargetFactor s).toNat /
          mainPowParams.retargetDivisor.toNat) = mainPowParams.powLimit.toNat := by
      rw [hT, hlimit, hdivisor, clampTarget, if_neg (by omega), Nat.min_eq_left (by omega)]
      rfl
    simp only [exactNextTarget, hs]
    rw [hclamp, BitVec.ofNat_toNat, BitVec.setWidth_eq, hbits]

/-- A block at the proof-of-work limit, 65 seconds after the one before it. -/
def slowPowBlock : CBlockIndex := ⟨1700000065, 0x1f3fffff, false⟩

theorem slowPowBlock_retargets_down :
    (slowPowBlock.fProofOfStake = false ∧ slowPowBlock.nBits = getCompact mainPowParams.powLimit ∧
      mainPowParams.nTargetSpacing < slowPowBlock.getBlockTime - 1700000000) ∧
    (setCompact (calculateNextTargetRequired mainPowParams slowPowBlock 1700000000) < setCompact slowPowBlock.nBits ∧
      exactNextTarget mainPowParams slowPowBlock 1700000000 = slowPowBlock.nBits) ∧
    calculateNextTargetRequired mainPowParams slowPowBlock 1700000000 = 0x1e1ffeff ∧
    (setCompact 0x1e1ffeff).toNat < (setCompact slowPowBlock.nBits).toNat * 14 / 16 :=
  have hpow : slowPowBlock.fProofOfStake = false := rfl
  have hbits : slowPowBlock.nBits = getCompact mainPowParams.powLimit := by decide
  have hslow : mainPowParams.nTargetSpacing < slowPowBlock.getBlockTime - 1700000000 := by decide
  ⟨⟨hpow, hbits, hslow⟩, calculateNextTargetRequired_wraps_at_powLimit slowPowBlock 1700000000 hpow hbits hslow,
    by decide, by decide⟩

/-- On the main network the proof-of-stake limit leaves room for the largest
factor, so a stake block at or below it retargets to the exact average. -/
theorem posTarget_exact_on_main (pindexLast : CBlockIndex) (nFirstBlockTime : ℤ)
    (hpos : pindexLast.fProofOfStake = true) (hT : setCompact pindexLast.nBits ≤ mainPowParams.posLimit) :
    calculateNextTargetRequired mainPowParams pindexLast nFirstBlockTime =
      exactNextTarget mainPowParams pindexLast nFirstBlockTime := by
  have hlimit : getTargetLimit mainPowParams pindexLast.fProofOfStake = mainPowParams.posLimit := by
    rw [hpos]; rfl
  apply calculateNextTargetRequired_eq_exactNextTarget
  · rw [hpos]; rfl
  · decide
  · rwa [hlimit]
  · rw [hlimit, mainPowParams_retargetFactor]; decide
  · rw [mainPowParams_retargetFactor]; decide

/-- A stake block at the proof-of-stake limit, 100 seconds after the one before it. -/
def limitStakeBlock : CBlockIndex := ⟨1700000100, 0x1b00ffff, true⟩

theorem limitStakeBlock_exact :
    (limitStakeBlock.fProofOfStake = true ∧ setCompact limitStakeBlock.nBits ≤ mainPowParams.posLimit) ∧
      calculateNextTargetRequired mainPowParams limitStakeBlock 1700000000 =
        exactNextTarget mainPowParams limitStakeBlock 1700000000 :=
  have hpos : limitStakeBlock.fProofOfStake = true := rfl
  have hT : setCompact limitStakeBlock.nBits ≤ mainPowParams.posLimit := by decide
  ⟨⟨hpos, hT⟩, posTarget_exact_on_main limitStakeBlock 1700000000 hpos hT⟩

end MainNet

end AokChain
