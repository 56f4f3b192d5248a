import Mathlib.Data.List.GetD
import Mathlib.Tactic.Ring

/-!
# The skip list of the block index

`chain.cpp`.  Every `CBlockIndex` has a `pprev` pointer to its parent and a
`pskip` pointer, which `BuildSkip` sets when the block enters the index
(`AddToBlockIndex`) to its ancestor at `GetSkipHeight`.  `GetAncestor` walks
back along both.  The index is modelled as `mapBlockIndex`'s blocks in the
order they were added, a pointer being a position in it.

On every index built by `AddToBlockIndex`, `GetAncestor` is the walk along
`pprev` and never meets a null `pprev` (`getAncestor_eq_nthPrev`), and
`LastCommonAncestor` returns the last common ancestor of its two blocks
(`lastCommonAncestor_spec`).  Both rest on `Linked`, the invariant of the
pointers that `AddToBlockIndex` keeps.
-/

namespace AokChain.Chain

/-- The fields of `CBlockIndex` the skip list reads and writes.  `pprev` and
`pskip` are pointers: positions in the block index. -/
structure CBlockIndex where
  nHeight : ℕ
  pprev : Option ℕ
  pskip : Option ℕ
  deriving DecidableEq, Repr, Inhabited

/-- The block a pointer points at.  A pointer outside the index reads as a block
with no parent; in a built index none is followed. -/
def deref (t : List CBlockIndex) (p : ℕ) : CBlockIndex := t.getD p default

/-- `InvertLowestOne`. -/
def invertLowestOne (n : ℕ) : ℕ := n &&& (n - 1)

/-- `GetSkipHeight`. -/
def getSkipHeight (height : ℕ) : ℕ :=
  if height < 2 then 0
  else if height &&& 1 ≠ 0 then invertLowestOne (invertLowestOne (height - 1)) + 1
  else invertLowestOne height

example : getSkipHeight 5 = 1 ∧ getSkipHeight 6 = 4 ∧ getSkipHeight 7 = 1 ∧ getSkipHeight 8 = 0 := by decide

/-- The guard of `GetAncestor` on the skip pointer, past its null test.  The
source's `heightSkipPrev < heightSkip - 2` is on `int`. -/
def followSkip (height heightWalk : ℕ) : Bool :=
  let heightSkip := getSkipHeight heightWalk
  let heightSkipPrev := getSkipHeight (heightWalk - 1)
  heightSkip == height || (heightSkip > height && !(heightSkipPrev + 2 < heightSkip && heightSkipPrev ≥ height))

/-- The loop of `GetAncestor`.  The fuel is the starting `heightWalk`: every pass
lowers `heightWalk`, so the loop has ended when the fuel runs out. -/
def getAncestorLoop (t : List CBlockIndex) (height : ℕ) : ℕ → ℕ → ℕ → Except String ℕ
  | 0, pindexWalk, _ => .ok pindexWalk
  | fuel + 1, pindexWalk, heightWalk =>
    if heightWalk > height then
      let walk := deref t pindexWalk
      -- `pindexWalk->pskip != nullptr && (...)`
      match walk.pskip.filter (fun _ => followSkip height heightWalk), walk.pprev with
      | some pskip, _ => getAncestorLoop t height fuel pskip (getSkipHeight heightWalk)
      | none, some pprev => getAncestorLoop t height fuel pprev (heightWalk - 1)
      | none, none => .error "Assertion pindexWalk->pprev failed."
    else .ok pindexWalk

/-- `CBlockIndex::GetAncestor`; `nullptr` is `none`. -/
def getAncestor (t : List CBlockIndex) (b : ℕ) (height : ℤ) : Except String (Option ℕ) :=
  let nHeight := (deref t b).nHeight
  if height > nHeight ∨ height < 0 then .ok none
  else some <$> getAncestorLoop t height.toNat nHeight b nHeight

/-- `CBlockIndex::BuildSkip` on a block about to enter the index `t`. -/
def buildSkip (t : List CBlockIndex) (b : CBlockIndex) : Except String CBlockIndex :=
  match b.pprev with
  | some pprev => do
    let pskip ← getAncestor t pprev (getSkipHeight b.nHeight)
    pure { b with pskip }
  | none => pure b

/-- The skip-list part of `AddToBlockIndex`: the new block's `pprev` is the block
of `hashPrevBlock` where the index has it, with the height one more, and
`BuildSkip` sets its `pskip`; the block goes at the end of the index.  The new
block is out of reach of its parent's walks, so `BuildSkip` runs on the index
before it. -/
def addToBlockIndex (t : List CBlockIndex) (miPrev : Option ℕ) : Except String (List CBlockIndex) :=
  match miPrev with
  | some pprev => do
    let pindexNew ← buildSkip t ⟨(deref t pprev).nHeight + 1, some pprev, none⟩
    pure (t ++ [pindexNew])
  | none => pure (t ++ [⟨0, none, none⟩])

/-- The loop of `LastCommonAncestor`: both pointers step back together until
they meet or one is null.  The fuel is one more than the common height: by then
both are null, and the loop has ended. -/
def lastCommonAncestorLoop (t : List CBlockIndex) : ℕ → Option ℕ → Option ℕ → Option ℕ × Option ℕ
  | fuel + 1, some pa, some pb =>
    if pa ≠ pb then lastCommonAncestorLoop t fuel (deref t pa).pprev (deref t pb).pprev
    else (some pa, some pb)
  | _, pa, pb => (pa, pb)

/-- `LastCommonAncestor`: the higher block is brought down to the other's
height with `GetAncestor`, then both walk back until they meet. -/
def lastCommonAncestor (t : List CBlockIndex) (pa pb : ℕ) : Except String (Option ℕ) := do
  let nHeightA := (deref t pa).nHeight
  let nHeightB := (deref t pb).nHeight
  let (pa, pb) ←
    if nHeightA > nHeightB then (·, some pb) <$> getAncestor t pa nHeightB
    else if nHeightB > nHeightA then (some pa, ·) <$> getAncestor t pb nHeightA
    else pure (some pa, some pb)
  let (pa, pb) := lastCommonAncestorLoop t (min nHeightA nHeightB + 1) pa pb
  if pa = pb then pure pa else .error "Assertion pa == pb failed."

/-- The block `n` `pprev` steps back from `p`, `none` past the genesis block. -/
def nthPrev (t : List CBlockIndex) (p : ℕ) : ℕ → Option ℕ
  | 0 => some p
  | n + 1 => (deref t p).pprev.bind (nthPrev t · n)

/-- Block indices built by `AddToBlockIndex`, parents before children. -/
inductive Built : List CBlockIndex → Prop
  | nil : Built []
  | add {t t' : List CBlockIndex} (miPrev : Option ℕ) : Built t → (∀ p ∈ miPrev, p < t.length) →
      addToBlockIndex t miPrev = .ok t' → Built t'

/-- `c` is reached from `p` along `pprev`, `p` itself included. -/
def IsAncestor (t : List CBlockIndex) (c p : ℕ) : Prop := ∃ n, nthPrev t p n = some c

/-- What `LastCommonAncestor` is for: an ancestor of both blocks, below which
every common ancestor lies; `nullptr` when there is none. -/
structure IsLastCommonAncestor (t : List CBlockIndex) (pa pb : ℕ) (r : Option ℕ) : Prop where
  meets : ∀ c, r = some c → IsAncestor t c pa ∧ IsAncestor t c pb
  below : ∀ c, IsAncestor t c pa → IsAncestor t c pb → ∃ r', r = some r' ∧ IsAncestor t c r'


/-- A chain of nine blocks and a fork off its block at height 5. -/
def sampleIndex : List CBlockIndex :=
  [⟨0, none, none⟩, ⟨1, some 0, some 0⟩, ⟨2, some 1, some 0⟩, ⟨3, some 2, some 1⟩, ⟨4, some 3, some 0⟩,
    ⟨5, some 4, some 1⟩, ⟨6, some 5, some 4⟩, ⟨7, some 6, some 1⟩, ⟨8, some 7, some 0⟩,
    ⟨6, some 5, some 4⟩, ⟨7, some 9, some 1⟩]

theorem sampleIndex_built : Built sampleIndex := by
  have h1 : Built (sampleIndex.take 1) := .add none .nil (by simp) rfl
  have h2 : Built (sampleIndex.take 2) := .add (some 0) h1 (by simp [sampleIndex]) rfl
  have h3 : Built (sampleIndex.take 3) := .add (some 1) h2 (by simp [sampleIndex]) rfl
  have h4 : Built (sampleIndex.take 4) := .add (some 2) h3 (by simp [sampleIndex]) rfl
  have h5 : Built (sampleIndex.take 5) := .add (some 3) h4 (by simp [sampleIndex]) rfl
  have h6 : Built (sampleIndex.take 6) := .add (some 4) h5 (by simp [sampleIndex]) rfl
  have h7 : Built (sampleIndex.take 7) := .add (some 5) h6 (by simp [sampleIndex]) rfl
  have h8 : Built (sampleIndex.take 8) := .add (some 6) h7 (by simp [sampleIndex]) rfl
  have h9 : Built (sampleIndex.take 9) := .add (some 7) h8 (by simp [sampleIndex]) rfl
  have h10 : Built (sampleIndex.take 10) := .add (some 5) h9 (by simp [sampleIndex]) rfl
  exact .add (some 9) h10 (by simp [sampleIndex]) rfl

example : lastCommonAncestor sampleIndex 8 10 = .ok (some 5) := rfl

section SkipHeight

theorem invertLowestOne_le (n : ℕ) : invertLowestOne n ≤ n - 1 := Nat.and_le_right

/-- Every skip lands strictly below its block. -/
theorem getSkipHeight_lt {height : ℕ} (h : 0 < height) : getSkipHeight height < height := by
  unfold getSkipHeight
  split
  · exact h
  · have h1 := invertLowestOne_le (height - 1)
    have h2 := invertLowestOne_le (invertLowestOne (height - 1))
    have h3 := invertLowestOne_le height
    split <;> omega

end SkipHeight

section Deref

variable {t : List CBlockIndex} {x : CBlockIndex} {i : ℕ}

theorem deref_append_of_lt (x : CBlockIndex) (hi : i < t.length) : deref (t ++ [x]) i = deref t i := by
  simp [deref, List.getElem?_append_left hi]

theorem deref_append_length : deref (t ++ [x]) t.length = x := by
  simp [deref]

end Deref

section NthPrev

variable {t : List CBlockIndex}

@[simp] theorem nthPrev_zero (p : ℕ) : nthPrev t p 0 = some p := rfl

theorem nthPrev_succ (p n : ℕ) : nthPrev t p (n + 1) = (deref t p).pprev.bind (nthPrev t · n) := rfl

theorem nthPrev_of_pprev {p q : ℕ} (h : (deref t p).pprev = some q) (n : ℕ) :
    nthPrev t p (n + 1) = nthPrev t q n := by
  rw [nthPrev_succ, h, Option.bind_some]

/-- Walking `m + n` steps is walking `m`, then `n` from there. -/
theorem nthPrev_add (m n : ℕ) : ∀ p, nthPrev t p (m + n) = (nthPrev t p m).bind (nthPrev t · n) := by
  induction m with
  | zero => intro p; simp
  | succ m ih =>
    intro p
    rw [Nat.add_right_comm, nthPrev_succ, nthPrev_succ]
    cases (deref t p).pprev with
    | none => rfl
    | some q => exact ih q

end NthPrev

/-- What `AddToBlockIndex` keeps of every block of the index: its parent comes
before it and is one lower, a block without a parent is at height 0, and
`pskip` points at the ancestor at `GetSkipHeight`. -/
structure Linked (t : List CBlockIndex) : Prop where
  pprev_lt : ∀ i < t.length, ∀ p, (deref t i).pprev = some p → p < i
  nHeight_pprev : ∀ i < t.length, ∀ p, (deref t i).pprev = some p →
    (deref t i).nHeight = (deref t p).nHeight + 1
  nHeight_genesis : ∀ i < t.length, (deref t i).pprev = none → (deref t i).nHeight = 0
  pskip_eq : ∀ i < t.length, ∀ p, (deref t i).pprev = some p →
    (deref t i).pskip = nthPrev t i ((deref t i).nHeight - getSkipHeight (deref t i).nHeight)

namespace Linked

variable {t : List CBlockIndex} (hl : Linked t)
include hl

/-- A block above the genesis height has a parent, one lower. -/
theorem pprev_of_pos {i : ℕ} (hi : i < t.length) (h : 0 < (deref t i).nHeight) :
    ∃ p, (deref t i).pprev = some p ∧ p < i ∧ (deref t i).nHeight = (deref t p).nHeight + 1 := by
  cases hp : (deref t i).pprev with
  | none => exact absurd (hl.nHeight_genesis i hi hp) (Nat.pos_iff_ne_zero.mp h)
  | some p => exact ⟨p, rfl, hl.pprev_lt i hi p hp, hl.nHeight_pprev i hi p hp⟩

/-- An ancestor `n` steps back is in the index, `n` lower. -/
theorem nthPrev_eq_some : ∀ (n : ℕ) {i q : ℕ}, i < t.length → nthPrev t i n = some q →
    q < t.length ∧ (deref t q).nHeight + n = (deref t i).nHeight
  | 0, i, q, hi, h => by
    cases h
    exact ⟨hi, rfl⟩
  | n + 1, i, q, hi, h => by
    cases hp : (deref t i).pprev with
    | none => simp [nthPrev_succ, hp] at h
    | some p =>
      rw [nthPrev_of_pprev hp] at h
      have hpi := hl.pprev_lt i hi p hp
      obtain ⟨hq, hheight⟩ := nthPrev_eq_some n (by omega) h
      have := hl.nHeight_pprev i hi p hp
      exact ⟨hq, by omega⟩

/-- Within its height a block has an ancestor at every depth. -/
theorem nthPrev_isSome : ∀ (n : ℕ) {i : ℕ}, i < t.length → n ≤ (deref t i).nHeight →
    ∃ q, nthPrev t i n = some q
  | 0, i, _, _ => ⟨i, rfl⟩
  | n + 1, i, hi, hn => by
    obtain ⟨p, hp, hpi, hheight⟩ := hl.pprev_of_pos hi (by omega)
    rw [nthPrev_of_pprev hp]
    exact nthPrev_isSome n (by omega) (by omega)

/-- The loop of `GetAncestor` from a block at its own height reaches the ancestor
at the target height, and never meets a null `pprev`.  The induction is on the
fuel; a jump lands on the ancestor at the skip height, which is no lower than
the target, so both branches continue from an ancestor of the start. -/
theorem getAncestorLoop_eq {height : ℕ} : ∀ (fuel : ℕ) {i heightWalk q : ℕ}, i < t.length →
    (deref t i).nHeight = heightWalk → height ≤ heightWalk → heightWalk ≤ fuel →
      nthPrev t i (heightWalk - height) = some q → getAncestorLoop t height fuel i heightWalk = .ok q
  | 0, i, heightWalk, q, _, _, hle, hfuel, hq => by
    have : heightWalk - height = 0 := by omega
    rw [this, nthPrev_zero, Option.some.injEq] at hq
    rw [getAncestorLoop, hq]
  | fuel + 1, i, heightWalk, q, hi, hwalk, hle, hfuel, hq => by
    rw [getAncestorLoop]
    by_cases hgt : heightWalk > height
    · rw [if_pos hgt]
      obtain ⟨p, hp, hpi, hheight⟩ := hl.pprev_of_pos hi (by omega)
      have hskip_lt := getSkipHeight_lt (show 0 < heightWalk by omega)
      -- the skip pointer is the ancestor at the skip height
      obtain ⟨s, hs⟩ := hl.nthPrev_isSome (heightWalk - getSkipHeight heightWalk) hi (by omega)
      have hpskip : (deref t i).pskip = some s := by
        rw [hl.pskip_eq i hi p hp, hwalk, hs]
      obtain ⟨hst, hsheight⟩ := hl.nthPrev_eq_some _ hi hs
      simp only [hpskip, hp]
      cases hf : followSkip height heightWalk
      · -- the `pprev` branch
        simp only [Option.filter, Bool.false_eq_true, if_false]
        refine getAncestorLoop_eq fuel (by omega) (by omega) (by omega) (by omega) ?_
        rwa [← nthPrev_of_pprev hp, show heightWalk - 1 - height + 1 = heightWalk - height by omega]
      · -- the `pskip` branch
        simp only [Option.filter, if_true]
        have hge : height ≤ getSkipHeight heightWalk := by
          simp only [followSkip, Bool.or_eq_true, beq_iff_eq, Bool.and_eq_true, decide_eq_true_eq] at hf
          omega
        refine getAncestorLoop_eq fuel hst (by omega) hge (by omega) ?_
        rwa [show heightWalk - height = (heightWalk - getSkipHeight heightWalk) + (getSkipHeight heightWalk - height)
          by omega, nthPrev_add, hs, Option.bind_some] at hq
    · rw [if_neg hgt]
      have : heightWalk - height = 0 := by omega
      rw [this, nthPrev_zero, Option.some.injEq] at hq
      rw [hq]

/-- `GetAncestor` at a height within the block's own. -/
theorem getAncestor_of_le {b height : ℕ} (hb : b < t.length) (h : height ≤ (deref t b).nHeight) :
    ∃ q, nthPrev t b ((deref t b).nHeight - height) = some q ∧ (deref t q).nHeight = height ∧
      getAncestor t b height = .ok (some q) := by
  obtain ⟨q, hq⟩ := hl.nthPrev_isSome ((deref t b).nHeight - height) hb (by omega)
  obtain ⟨-, hqheight⟩ := hl.nthPrev_eq_some _ hb hq
  refine ⟨q, hq, by omega, ?_⟩
  have hloop := hl.getAncestorLoop_eq (deref t b).nHeight hb rfl h le_rfl hq
  simp only [getAncestor]
  rw [if_neg (by omega), Int.toNat_natCast, hloop]
  rfl

end Linked

section Append

variable {t : List CBlockIndex} {x : CBlockIndex}

/-- Walks from the old blocks do not see a block added at the end. -/
theorem nthPrev_append (hl : Linked t) (x : CBlockIndex) :
    ∀ (n : ℕ) {i : ℕ}, i < t.length → nthPrev (t ++ [x]) i n = nthPrev t i n
  | 0, _, _ => rfl
  | n + 1, i, hi => by
    rw [nthPrev_succ, nthPrev_succ, deref_append_of_lt x hi]
    cases hp : (deref t i).pprev with
    | none => rfl
    | some p =>
      have := hl.pprev_lt i hi p hp
      exact nthPrev_append hl x n (by omega)

/-- A block added at the end after a parent in the index, one higher, whose
`pskip` is its parent's ancestor at the skip height, keeps the index linked. -/
theorem Linked.append (hl : Linked t) (hgenesis : x.pprev = none → x.nHeight = 0)
    (hchild : ∀ p, x.pprev = some p → p < t.length ∧ x.nHeight = (deref t p).nHeight + 1 ∧
      x.pskip = nthPrev t p ((deref t p).nHeight - getSkipHeight x.nHeight)) :
    Linked (t ++ [x]) := by
  have hlen : (t ++ [x]).length = t.length + 1 := by simp
  -- the old blocks read as before; the new one is `x`
  have hold : ∀ i < t.length, deref (t ++ [x]) i = deref t i := fun i hi => deref_append_of_lt x hi
  have hnew : ∀ i < (t ++ [x]).length, ¬ i < t.length → deref (t ++ [x]) i = x := by
    intro i hi hnot
    rw [show i = t.length by omega]
    exact deref_append_length
  constructor
  case pprev_lt =>
    intro i hi p hp
    by_cases hit : i < t.length
    · rw [hold i hit] at hp
      exact hl.pprev_lt i hit p hp
    · rw [hnew i hi hit] at hp
      have := (hchild p hp).1
      omega
  case nHeight_pprev =>
    intro i hi p hp
    by_cases hit : i < t.length
    · rw [hold i hit] at hp ⊢
      rw [hold p (by have := hl.pprev_lt i hit p hp; omega)]
      exact hl.nHeight_pprev i hit p hp
    · rw [hnew i hi hit] at hp ⊢
      rw [hold p (hchild p hp).1]
      exact (hchild p hp).2.1
  case nHeight_genesis =>
    intro i hi hp
    by_cases hit : i < t.length
    · rw [hold i hit] at hp ⊢
      exact hl.nHeight_genesis i hit hp
    · rw [hnew i hi hit] at hp ⊢
      exact hgenesis hp
  case pskip_eq =>
    intro i hi p hp
    by_cases hit : i < t.length
    · rw [hold i hit] at hp ⊢
      rw [nthPrev_append hl x _ hit]
      exact hl.pskip_eq i hit p hp
    · rw [hnew i hi hit] at hp ⊢
      obtain ⟨hpt, hheight, hskip⟩ := hchild p hp
      have hskip_lt := getSkipHeight_lt (show 0 < x.nHeight by omega)
      -- one step to the parent, then the parent's walk
      rw [show i = t.length by omega, hskip,
        show x.nHeight - getSkipHeight x.nHeight = ((deref t p).nHeight - getSkipHeight x.nHeight) + 1 by omega,
        nthPrev_of_pprev (by rw [deref_append_length]; exact hp), nthPrev_append hl x _ hpt]

end Append

/-- What `AddToBlockIndex` does, when it does not stop on an assertion. -/
theorem addToBlockIndex_eq_ok {t t' : List CBlockIndex} {miPrev : Option ℕ}
    (h : addToBlockIndex t miPrev = .ok t') :
    ∃ x, t' = t ++ [x] ∧ (miPrev = none → x = ⟨0, none, none⟩) ∧
      ∀ p, miPrev = some p → x.pprev = some p ∧ x.nHeight = (deref t p).nHeight + 1 ∧
        getAncestor t p (getSkipHeight x.nHeight) = .ok x.pskip := by
  cases miPrev with
  | none =>
    cases h
    exact ⟨_, rfl, fun _ => rfl, fun _ hp => by cases hp⟩
  | some p =>
    simp only [addToBlockIndex, buildSkip, bind, Except.bind] at h
    cases hanc : getAncestor t p (getSkipHeight ((deref t p).nHeight + 1)) with
    | error e => simp [hanc] at h
    | ok pskip =>
      simp only [hanc, pure, Except.pure, Except.ok.injEq] at h
      refine ⟨_, h.symm, (fun hp => by cases hp), fun q hq => ?_⟩
      cases hq
      exact ⟨rfl, rfl, hanc⟩

/-- Every block index `AddToBlockIndex` builds is linked. -/
theorem Built.linked {t : List CBlockIndex} (ht : Built t) : Linked t := by
  induction ht with
  | nil => exact ⟨nofun, nofun, nofun, nofun⟩
  | @add t t' miPrev _ hp hadd ih =>
    obtain ⟨x, rfl, hnone, hsome⟩ := addToBlockIndex_eq_ok hadd
    refine ih.append (fun hx => ?_) (fun p hx => ?_)
    · cases miPrev with
      | none => rw [hnone rfl]
      | some q => simp [(hsome q rfl).1] at hx
    · cases miPrev with
      | none => simp [hnone rfl] at hx
      | some q =>
        obtain ⟨hxprev, hheight, hanc⟩ := hsome q rfl
        rw [hxprev, Option.some.injEq] at hx
        subst hx
        have hqt := hp q rfl
        have hle : getSkipHeight x.nHeight ≤ (deref t q).nHeight := by
          have := getSkipHeight_lt (show 0 < x.nHeight by omega)
          omega
        obtain ⟨s, hs, -, hanc'⟩ := ih.getAncestor_of_le hqt hle
        rw [hanc', Except.ok.injEq] at hanc
        exact ⟨hqt, hheight, by rw [← hanc, hs]⟩

/-- A built index takes every new block: `BuildSkip` never stops on an assertion. -/
theorem Built.addToBlockIndex_ok {t : List CBlockIndex} (ht : Built t) {miPrev : Option ℕ}
    (hp : ∀ p ∈ miPrev, p < t.length) : ∃ t', Built t' ∧ addToBlockIndex t miPrev = .ok t' := by
  cases miPrev with
  | none => exact ⟨_, .add none ht hp rfl, rfl⟩
  | some p =>
    have hpt := hp p rfl
    have hle : getSkipHeight ((deref t p).nHeight + 1) ≤ (deref t p).nHeight := by
      have := getSkipHeight_lt (show 0 < (deref t p).nHeight + 1 by omega)
      omega
    obtain ⟨s, -, -, hanc⟩ := ht.linked.getAncestor_of_le hpt hle
    have hadd : addToBlockIndex t (some p) = .ok (t ++ [⟨(deref t p).nHeight + 1, some p, some s⟩]) := by
      simp only [addToBlockIndex, buildSkip, hanc]
      rfl
    exact ⟨_, .add (some p) ht hp hadd, hadd⟩

/-- `GetAncestor` on a block index built by `AddToBlockIndex` is the walk along
`pprev`.  Out of range it is `nullptr`; within it, it is the block
`nHeight - height` steps back, which is at that height, and no other ancestor
is; and it never stops on `assert(pindexWalk->pprev)`. -/
theorem getAncestor_eq_nthPrev {t : List CBlockIndex} (ht : Built t) {b : ℕ} (hb : b < t.length)
    (height : ℤ) :
    getAncestor t b height =
        .ok (if height > (deref t b).nHeight ∨ height < 0 then none
          else nthPrev t b ((deref t b).nHeight - height).toNat) ∧
      (0 ≤ height → height ≤ (deref t b).nHeight → ∃ a,
        nthPrev t b ((deref t b).nHeight - height).toNat = some a ∧ ((deref t a).nHeight : ℤ) = height) ∧
      ∀ n a, nthPrev t b n = some a → ((deref t a).nHeight : ℤ) = height →
        n = ((deref t b).nHeight - height).toNat := by
  have hl := ht.linked
  -- the height of an ancestor fixes its depth
  have hdepth : ∀ n a, nthPrev t b n = some a → ((deref t a).nHeight : ℤ) = height →
      n = ((deref t b).nHeight - height).toNat := by
    intro n a hn ha
    obtain ⟨-, hsum⟩ := hl.nthPrev_eq_some n hb hn
    omega
  by_cases hrange : height > (deref t b).nHeight ∨ height < 0
  · refine ⟨by simp only [getAncestor, if_pos hrange], fun h0 hle => by omega, hdepth⟩
  · obtain ⟨q, hq, hqh, hanc⟩ := hl.getAncestor_of_le hb (show height.toNat ≤ (deref t b).nHeight by omega)
    have hcast : ((height.toNat : ℕ) : ℤ) = height := Int.toNat_of_nonneg (by omega)
    have hdist : ((deref t b).nHeight - height).toNat = (deref t b).nHeight - height.toNat := by omega
    rw [hcast] at hanc
    rw [if_neg hrange]
    refine ⟨by rw [hdist, hq]; exact hanc, fun _ _ => ⟨q, by rw [hdist]; exact hq, by omega⟩, hdepth⟩
theorem sampleIndex_getAncestor :
    Built sampleIndex ∧ 10 < sampleIndex.length ∧ getAncestor sampleIndex 10 2 = .ok (some 2) := by
  have hlen : 10 < sampleIndex.length := by decide
  refine ⟨sampleIndex_built, hlen, ?_⟩
  rw [(getAncestor_eq_nthPrev sampleIndex_built hlen 2).1]
  rfl

section Ancestor

variable {t : List CBlockIndex}

theorem IsLastCommonAncestor.symm {pa pb : ℕ} {r : Option ℕ} (h : IsLastCommonAncestor t pa pb r) :
    IsLastCommonAncestor t pb pa r :=
  ⟨fun c hc => (h.meets c hc).symm, fun c hca hcb => h.below c hcb hca⟩

theorem IsAncestor.refl (p : ℕ) : IsAncestor t p p := ⟨0, rfl⟩

theorem IsAncestor.trans {a b c : ℕ} (hab : IsAncestor t a b) (hbc : IsAncestor t b c) : IsAncestor t a c := by
  obtain ⟨m, hm⟩ := hab
  obtain ⟨n, hn⟩ := hbc
  exact ⟨n + m, by rw [nthPrev_add, hn, Option.bind_some, hm]⟩

theorem IsAncestor.of_pprev {p q c : ℕ} (hp : (deref t p).pprev = some q) (h : IsAncestor t c q) :
    IsAncestor t c p := by
  obtain ⟨n, hn⟩ := h
  exact ⟨n + 1, by rw [nthPrev_of_pprev hp, hn]⟩

/-- An ancestor of a block other than itself is an ancestor of its parent. -/
theorem IsAncestor.pprev_of_ne {p c : ℕ} (h : IsAncestor t c p) (hne : c ≠ p) :
    ∃ q, (deref t p).pprev = some q ∧ IsAncestor t c q := by
  obtain ⟨n, hn⟩ := h
  cases n with
  | zero => exact absurd (Option.some.inj hn).symm hne
  | succ n =>
    cases hp : (deref t p).pprev with
    | none => simp [nthPrev_succ, hp] at hn
    | some q => exact ⟨q, rfl, n, by rwa [nthPrev_of_pprev hp] at hn⟩

end Ancestor

namespace Linked

variable {t : List CBlockIndex} (hl : Linked t)
include hl

/-- Below the block at height `h` on the way back from `p`, the ancestors of `p`
are its ancestors. -/
theorem isAncestor_of_nthPrev {p a c n : ℕ} (hp : p < t.length) (ha : nthPrev t p n = some a)
    (hc : IsAncestor t c p) (hle : (deref t c).nHeight ≤ (deref t a).nHeight) : IsAncestor t c a := by
  obtain ⟨m, hm⟩ := hc
  obtain ⟨-, hah⟩ := hl.nthPrev_eq_some n hp ha
  obtain ⟨-, hch⟩ := hl.nthPrev_eq_some m hp hm
  refine ⟨m - n, ?_⟩
  rw [show m = n + (m - n) by omega, nthPrev_add, ha, Option.bind_some] at hm
  exact hm

/-- The loop of `LastCommonAncestor` from two blocks at one height finds their
last common ancestor.  The induction is on the fuel: two different blocks have
the same common ancestors as their parents. -/
theorem lastCommonAncestorLoop_spec : ∀ (fuel : ℕ) {a b : ℕ}, a < t.length → b < t.length →
    (deref t a).nHeight = (deref t b).nHeight → (deref t a).nHeight < fuel →
      ∃ r, lastCommonAncestorLoop t fuel (some a) (some b) = (r, r) ∧ IsLastCommonAncestor t a b r
  | 0, _, _, _, _, _, hfuel => absurd hfuel (Nat.not_lt_zero _)
  | fuel + 1, a, b, ha, hb, hab, hfuel => by
    rw [lastCommonAncestorLoop]
    by_cases hne : a ≠ b
    · rw [if_pos hne]
      -- a common ancestor is neither block itself, so it is one of both parents
      have hcommon : ∀ c, IsAncestor t c a → IsAncestor t c b →
          ∃ a' b', (deref t a).pprev = some a' ∧ (deref t b).pprev = some b' ∧
            IsAncestor t c a' ∧ IsAncestor t c b' := by
        intro c hca hcb
        obtain ⟨m, hm⟩ := hca
        obtain ⟨n, hn⟩ := hcb
        obtain ⟨-, hmh⟩ := hl.nthPrev_eq_some m ha hm
        obtain ⟨-, hnh⟩ := hl.nthPrev_eq_some n hb hn
        have hca' : c ≠ a := fun h => by
          subst h
          have : n = 0 := by omega
          subst this
          exact hne (Option.some.inj hn).symm
        have hcb' : c ≠ b := fun h => by
          subst h
          have : m = 0 := by omega
          subst this
          exact hne (Option.some.inj hm)
        obtain ⟨a', hpa, hca⟩ := IsAncestor.pprev_of_ne ⟨m, hm⟩ hca'
        obtain ⟨b', hpb, hcb⟩ := IsAncestor.pprev_of_ne ⟨n, hn⟩ hcb'
        exact ⟨a', b', hpa, hpb, hca, hcb⟩
      by_cases hpos : 0 < (deref t a).nHeight
      · obtain ⟨a', hpa, hpai, hah⟩ := hl.pprev_of_pos ha hpos
        obtain ⟨b', hpb, hpbi, hbh⟩ := hl.pprev_of_pos hb (by omega)
        rw [hpa, hpb]
        obtain ⟨r, hloop, hmeets, hbelow⟩ :=
          lastCommonAncestorLoop_spec fuel (a := a') (b := b') (by omega) (by omega) (by omega) (by omega)
        refine ⟨r, hloop, fun c hc => ?_, fun c hca hcb => ?_⟩
        · obtain ⟨hca, hcb⟩ := hmeets c hc
          exact ⟨hca.of_pprev hpa, hcb.of_pprev hpb⟩
        · obtain ⟨a'', b'', hpa', hpb', hca, hcb⟩ := hcommon c hca hcb
          rw [hpa, Option.some.injEq] at hpa'
          rw [hpb, Option.some.injEq] at hpb'
          subst hpa' hpb'
          exact hbelow c hca hcb
      · -- two genesis blocks: both parents are null, and there is no common ancestor
        have hpa : (deref t a).pprev = none := by
          cases h : (deref t a).pprev with
          | none => rfl
          | some p => have := hl.nHeight_pprev a ha p h; omega
        have hpb : (deref t b).pprev = none := by
          cases h : (deref t b).pprev with
          | none => rfl
          | some p => have := hl.nHeight_pprev b hb p h; omega
        rw [hpa, hpb]
        refine ⟨none, by cases fuel <;> rfl, ⟨(fun c hc => by cases hc), fun c hca hcb => ?_⟩⟩
        obtain ⟨a', -, hpa', -⟩ := hcommon c hca hcb
        simp [hpa] at hpa'
    · rw [if_neg hne]
      rw [not_not] at hne
      subst hne
      refine ⟨some a, rfl, fun c hc => ?_, fun c hca _ => ⟨a, rfl, hca⟩⟩
      cases hc
      exact ⟨IsAncestor.refl _, IsAncestor.refl _⟩

/-- Bringing the higher block down to the other's height keeps the common
ancestors. -/
theorem isLastCommonAncestor_of_nthPrev {pa a n pb : ℕ} {r : Option ℕ} (hpa : pa < t.length)
    (hpb : pb < t.length) (ha : nthPrev t pa n = some a) (hheight : (deref t a).nHeight = (deref t pb).nHeight)
    (hr : IsLastCommonAncestor t a pb r) : IsLastCommonAncestor t pa pb r := by
  obtain ⟨hmeets, hbelow⟩ := hr
  refine ⟨fun c hc => ?_, fun c hca hcb => ?_⟩
  · obtain ⟨hca, hcb⟩ := hmeets c hc
    exact ⟨hca.trans ⟨n, ha⟩, hcb⟩
  · obtain ⟨m, hm⟩ := hcb
    have hcpb := (hl.nthPrev_eq_some m hpb hm).2
    exact hbelow c (hl.isAncestor_of_nthPrev hpa ha hca (by omega)) ⟨m, hm⟩

end Linked

/-- `LastCommonAncestor` of two blocks of a built index is their last common
ancestor, `nullptr` for blocks under different genesis blocks, and it never
stops on an assertion. -/
theorem lastCommonAncestor_spec {t : List CBlockIndex} (ht : Built t) {pa pb : ℕ} (hpa : pa < t.length)
    (hpb : pb < t.length) : ∃ r, lastCommonAncestor t pa pb = .ok r ∧ IsLastCommonAncestor t pa pb r := by
  have hl := ht.linked
  rcases Nat.lt_trichotomy (deref t pb).nHeight (deref t pa).nHeight with hlt | heq | hgt
  · -- `pa` is brought down to the height of `pb`
    obtain ⟨a, ha, hah, hanc⟩ := hl.getAncestor_of_le hpa hlt.le
    obtain ⟨r, hloop, hr⟩ := hl.lastCommonAncestorLoop_spec ((deref t pb).nHeight + 1)
      (hl.nthPrev_eq_some _ hpa ha).1 hpb hah (by omega)
    refine ⟨r, ?_, hl.isLastCommonAncestor_of_nthPrev hpa hpb ha hah hr⟩
    simp [lastCommonAncestor, hlt, hanc, Nat.min_eq_right hlt.le, bind, Except.bind, hloop]
    rfl
  · obtain ⟨r, hloop, hr⟩ := hl.lastCommonAncestorLoop_spec ((deref t pa).nHeight + 1) hpa hpb heq.symm (by omega)
    refine ⟨r, ?_, hr⟩
    simp [lastCommonAncestor, heq, hloop]
    rfl
  · -- `pb` is brought down to the height of `pa`
    obtain ⟨b, hb, hbh, hanc⟩ := hl.getAncestor_of_le hpb hgt.le
    obtain ⟨r, hloop, hr⟩ := hl.lastCommonAncestorLoop_spec ((deref t pa).nHeight + 1)
      hpa (hl.nthPrev_eq_some _ hpb hb).1 hbh.symm (by omega)
    refine ⟨r, ?_, (hl.isLastCommonAncestor_of_nthPrev hpb hpa hb hbh hr.symm).symm⟩
    simp [lastCommonAncestor, hgt, Nat.not_lt.mpr hgt.le, hanc, Nat.min_eq_left hgt.le, bind, Except.bind, hloop]
    rfl

theorem sampleIndex_lastCommonAncestor :
    Built sampleIndex ∧ 8 < sampleIndex.length ∧ 10 < sampleIndex.length ∧
      ∃ r, lastCommonAncestor sampleIndex 8 10 = .ok r ∧ IsLastCommonAncestor sampleIndex 8 10 r :=
  ⟨sampleIndex_built, by decide, by decide, lastCommonAncestor_spec sampleIndex_built (by decide) (by decide)⟩

end AokChain.Chain
