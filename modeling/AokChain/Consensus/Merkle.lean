import AokChain.Lib.MerkleTree
import Mathlib.Data.Nat.Bitwise

/-!
# The streaming Merkle computation

`MerkleComputation` of `consensus/merkle.cpp`, under `ComputeMerkleRoot`,
`ComputeMerkleBranch` and `ComputeMerkleRootFromBranch`, with the hash of two
nodes an arbitrary function.  The first phase reads the leaves one at a time:
after `count` leaves, `inner[level]` holds the root of the block of `2 ^ level`
leaves of each set bit of `count`, and a new leaf is hashed onto those of the
clear low bits of `count + 1`.  The final sweep pairs the node at the end of an
odd level with itself, rounding `count` up, and hashes the stored blocks onto it
level by level.  Both loops record the branch of the leaf at `branchpos`: the
level `matchlevel` whose block holds it, and its siblings on the way.

The `uint32_t` counter and the thirty-two `inner` entries are taken unbounded,
which is the code for fewer than `2 ^ 31` leaves, below which `count` does not
overflow in the sweep.  The invariant of the first phase is `Streamed`, that of
the sweep `Sweeping`; the loops climbing the levels keep `Climbing`.  The root
is that of the tree of `MerkleTree` (`merkleComputation_root`), the branch its
branch (`merkleComputation_branch`), and `mutated` records exactly the equal
pairs of complete siblings (`merkleComputation_mutated`): the sweep does not
look at the pairs it forms, of which the right node is partial.
-/

namespace AokChain.Merkle

open MerkleTree

variable {α : Type} [DecidableEq α] [Inhabited α] (hash : α → α → α)

/-- The variables the loops climbing the levels update. -/
structure Climb (α : Type) where
  level : ℕ
  h : α
  matchh : Bool
  branch : List α
  mutated : Bool

/-- The branch at `level`, in both phases: the left sibling `inner[level]` of a
node that holds the leaf, or `h` as the right sibling of `inner[level]` when
that holds it. -/
def recordBranch (inner : ℕ → α) (matchlevel : Option ℕ) (c : Climb α) : List α × Bool :=
  if c.matchh then (c.branch ++ [inner c.level], true)
  else if matchlevel = some c.level then (c.branch ++ [c.h], true)
  else (c.branch, false)

/-- The loop of the first phase: for each clear bit `level` of `count` from the
bottom, `h` is hashed onto `inner[level]`, `mutated` recording two equal
hashes.  The loop stops at the lowest set bit of `count`, below `count`. -/
def combineLoop (count : ℕ) (inner : ℕ → α) (matchlevel : Option ℕ) : ℕ → Climb α → Climb α
  | 0, c => c
  | fuel + 1, c =>
    if count &&& (1 <<< c.level) = 0 then
      let r := recordBranch inner matchlevel c
      combineLoop count inner matchlevel fuel
        ⟨c.level + 1, hash (inner c.level) c.h, r.2, r.1, c.mutated || decide (inner c.level = c.h)⟩
    else c

/-- The same loop in the final sweep, which does not look at `mutated`. -/
def propagateLoop (count : ℕ) (inner : ℕ → α) (matchlevel : Option ℕ) : ℕ → Climb α → Climb α
  | 0, c => c
  | fuel + 1, c =>
    if count &&& (1 <<< c.level) = 0 then
      let r := recordBranch inner matchlevel c
      propagateLoop count inner matchlevel fuel ⟨c.level + 1, hash (inner c.level) c.h, r.2, r.1, c.mutated⟩
    else c

/-- MerkleComputation's variables between two leaves of the first phase. -/
structure MerkleState (α : Type) where
  count : ℕ
  inner : ℕ → α
  matchlevel : Option ℕ
  mutated : Bool
  branch : List α

/-- One leaf of the first phase. -/
def processLeaf (branchpos : ℕ) (s : MerkleState α) (leaf : α) : MerkleState α :=
  let count := s.count + 1
  let c := combineLoop hash count s.inner s.matchlevel count ⟨0, leaf, s.count == branchpos, s.branch, s.mutated⟩
  { count := count
    inner := Function.update s.inner c.level c.h
    matchlevel := if c.matchh then some c.level else s.matchlevel
    mutated := c.mutated
    branch := c.branch }

/-- `while (!(count & (1 << level))) level++`. -/
def skipClear (count : ℕ) : ℕ → ℕ → ℕ
  | 0, level => level
  | fuel + 1, level => if count &&& (1 <<< level) = 0 then skipClear count fuel (level + 1) else level

/-- The final sweep: while `count` is not `1 << level`, the node `h` at the end
of an odd level is hashed with itself, `count` is rounded up to the level above,
and the stored blocks are hashed onto it over the clear bits there.  Each round
climbs a level, of which there are fewer than `count`. -/
def sweepLoop (inner : ℕ → α) (matchlevel : Option ℕ) : ℕ → ℕ → Climb α → Climb α
  | 0, _, c => c
  | fuel + 1, count, c =>
    if count = 1 <<< c.level then c
    else
      let branch := if c.matchh then c.branch ++ [c.h] else c.branch
      let count := count + (1 <<< c.level)
      sweepLoop inner matchlevel fuel count
        (propagateLoop hash count inner matchlevel count ⟨c.level + 1, hash c.h c.h, c.matchh, branch, c.mutated⟩)

/-- The state before the first leaf. -/
def MerkleState.init : MerkleState α := ⟨0, fun _ => default, none, false, []⟩

/-- `MerkleComputation(leaves, proot, pmutated, branchpos, pbranch)`: the root,
`mutated` and the branch.  The branch is recorded whether `pbranch` is given or
not; only `ComputeMerkleBranch` reads it. -/
def merkleComputation (leaves : List α) (branchpos : ℕ) : α × Bool × List α :=
  if leaves.length = 0 then (default, false, [])
  else
    let s := leaves.foldl (processLeaf hash branchpos) MerkleState.init
    let level := skipClear s.count s.count 0
    let c := sweepLoop hash s.inner s.matchlevel s.count s.count
      ⟨level, s.inner level, decide (s.matchlevel = some level), s.branch, s.mutated⟩
    (c.h, s.mutated, c.branch)

/-- `ComputeMerkleRoot(leaves, mutated)`, with `branchpos` the `uint32_t` of `-1`. -/
def computeMerkleRoot (leaves : List α) : α × Bool :=
  let r := merkleComputation hash leaves 4294967295
  (r.1, r.2.1)

/-- `ComputeMerkleBranch(leaves, position)`. -/
def computeMerkleBranch (leaves : List α) (position : ℕ) : List α := (merkleComputation hash leaves position).2.2

/-- One round of ComputeMerkleRootFromBranch's loop on `(hash, nIndex)`: the
sibling `it` goes left when bit `0` of `nIndex` is set. -/
def branchStep (acc : α × ℕ) (it : α) : α × ℕ :=
  (if acc.2 &&& 1 ≠ 0 then hash it acc.1 else hash acc.1 it, acc.2 >>> 1)

/-- `ComputeMerkleRootFromBranch(leaf, vMerkleBranch, nIndex)`. -/
def computeMerkleRootFromBranch (leaf : α) (vMerkleBranch : List α) (nIndex : ℕ) : α :=
  (vMerkleBranch.foldl (branchStep hash) (leaf, nIndex)).1

example : computeMerkleRoot (fun a b : ℕ => 2 * a + b) [1, 2, 3] = (17, false) := by decide

example : computeMerkleBranch (fun a b : ℕ => 2 * a + b) [1, 2, 3] 2 = [3, 4] := by decide

section Bits

/-- The bit test of the loops. -/
theorem and_one_shiftLeft_eq_zero (count level : ℕ) :
    count &&& (1 <<< level) = 0 ↔ count / 2 ^ level % 2 = 0 := by
  have hbit : count &&& 2 ^ level = 0 ↔ count.testBit level = false := by
    constructor
    · intro h
      have := congrArg (fun x => Nat.testBit x level) h
      simpa [Nat.testBit_and, Nat.testBit_two_pow] using this
    · intro h
      apply Nat.eq_of_testBit_eq
      intro i
      simp only [Nat.testBit_and, Nat.testBit_two_pow, Nat.zero_testBit]
      by_cases hi : level = i
      · subst hi
        simp [h]
      · simp [hi]
  rw [Nat.one_shiftLeft, hbit, Nat.testBit_eq_decide_div_mod_eq]
  simp

theorem dvd_succ_of_even {c j : ℕ} (h : 2 ^ j ∣ c) (he : c / 2 ^ j % 2 = 0) : 2 ^ (j + 1) ∣ c := by
  obtain ⟨q, rfl⟩ := h
  rw [Nat.mul_div_cancel_left q (Nat.two_pow_pos j)] at he
  rw [pow_succ]
  exact Nat.mul_dvd_mul_left (2 ^ j) (Nat.dvd_of_mod_eq_zero he)

/-- A multiple of `2 ^ (j + 1)` has bit `j` clear. -/
theorem div_even_of_dvd {c j : ℕ} (h : 2 ^ (j + 1) ∣ c) : c / 2 ^ j % 2 = 0 := by
  obtain ⟨q, rfl⟩ := h
  rw [pow_succ, mul_assoc, Nat.mul_div_cancel_left _ (Nat.two_pow_pos j)]
  omega

theorem dvd_of_le {c i j : ℕ} (h : 2 ^ j ∣ c) (hij : i ≤ j) : 2 ^ i ∣ c :=
  (Nat.pow_dvd_pow 2 hij).trans h

/-- A positive multiple of `2 ^ j` is at least `2 ^ j`. -/
theorem two_pow_le_of_dvd {c j : ℕ} (h : 2 ^ j ∣ c) (hc : 0 < c) : 2 ^ j ≤ c := Nat.le_of_dvd hc h

theorem mul_div_of_dvd {c j : ℕ} (h : 2 ^ j ∣ c) : c / 2 ^ j * 2 ^ j = c := Nat.div_mul_cancel h

/-- The quotient of a positive multiple of `2 ^ j` at a clear bit is even and at least two. -/
theorem two_le_div_of_dvd {c j : ℕ} (h : 2 ^ j ∣ c) (hc : 0 < c) (hclear : c / 2 ^ j % 2 = 0) : 2 ≤ c / 2 ^ j := by
  have hmul := mul_div_of_dvd h
  rcases Nat.eq_zero_or_pos (c / 2 ^ j) with h0 | h0
  · rw [h0, zero_mul] at hmul
    omega
  · omega

/-- One below a multiple of `2 ^ j` the quotient is one less. -/
theorem div_of_dvd_succ {k j : ℕ} (h : 2 ^ j ∣ k + 1) : k / 2 ^ j = (k + 1) / 2 ^ j - 1 := by
  rw [Nat.succ_div_of_dvd h, Nat.add_sub_cancel]

/-- No power of two above a set bit `e` of `x` divides it. -/
theorem not_dvd_of_set {x e L : ℕ} (hset : x / 2 ^ e % 2 = 1) (hL : e < L) : ¬2 ^ L ∣ x :=
  fun h => by
    have := div_even_of_dvd (dvd_of_le h (show e + 1 ≤ L from hL))
    omega

/-- Above a set bit of `k + 1` the quotients of `k` and `k + 1` agree. -/
theorem div_succ_of_set {k e L : ℕ} (hset : (k + 1) / 2 ^ e % 2 = 1) (hL : e < L) :
    (k + 1) / 2 ^ L = k / 2 ^ L :=
  Nat.succ_div_of_not_dvd (not_dvd_of_set hset hL)

/-- The pairs of blocks of `2 ^ j` that end at `x` are those of the levels below
its lowest set bit `e`. -/
theorem pair_end_iff {x e j i : ℕ} (hd : 2 ^ e ∣ x) (hset : x / 2 ^ e % 2 = 1) :
    (2 * i + 2) * 2 ^ j = x ↔ j < e ∧ x / 2 ^ j = 2 * i + 2 := by
  constructor
  · intro h
    have hj : j < e := by
      by_contra hje
      have hdj : 2 ^ (j + 1) ∣ x := ⟨i + 1, by rw [← h, pow_succ]; ring⟩
      have := div_even_of_dvd (dvd_of_le hdj (show e + 1 ≤ j + 1 by omega))
      omega
    exact ⟨hj, by rw [← h, Nat.mul_div_cancel _ (Nat.two_pow_pos j)]⟩
  · rintro ⟨hj, hq⟩
    rw [← hq]
    exact mul_div_of_dvd (dvd_of_le hd hj.le)

end Bits

section Climbing

omit [DecidableEq α]

variable (l : List α) (p : ℕ)

/-- At `level`, `h` is the last node of the blocks below `count`, one that has a
right end in the tree, and the node to its left is in `inner` at every level the
loop can reach. -/
structure Climbing (count : ℕ) (inner : ℕ → α) (level : ℕ) (h : α) : Prop where
  dvd : 2 ^ level ∣ count
  pos : 0 < count
  lt_width : count / 2 ^ level - 1 < width l.length level
  h_eq : h = node hash l level (count / 2 ^ level - 1)
  inner_eq : ∀ j, level ≤ j → 2 ^ j ∣ count → count / 2 ^ j % 2 = 0 → inner j = node hash l j (count / 2 ^ j - 2)

/-- Where the loop stands with leaf `p` at `level`: the node `h` holds it, with
its branch so far, or the node `inner` holds at the level `matchlevel` names,
which the loop has not passed, with the branch up to there. -/
def Tracking (count : ℕ) (matchlevel : Option ℕ) (level : ℕ) (matchh : Bool) (br : List α) : Prop :=
  p < l.length →
    (matchh = true ∧ p / 2 ^ level = count / 2 ^ level - 1 ∧ br = branch hash l p level) ∨
    (matchh = false ∧ ∀ L, matchlevel = some L → level ≤ L ∧
      (2 ^ L ∣ count → count / 2 ^ L % 2 = 0 → p / 2 ^ L = count / 2 ^ L - 2 ∧ br = branch hash l p L))

/-- What a climbing loop leaves from `c`: it stopped at the first set bit of
`count` from `c.level` on, with its invariants kept. -/
structure Climbed (count : ℕ) (inner : ℕ → α) (ml : Option ℕ) (c c' : Climb α) : Prop where
  le_level : c.level ≤ c'.level
  set_bit : count / 2 ^ c'.level % 2 = 1
  clear_below : ∀ j, c.level ≤ j → j < c'.level → count / 2 ^ j % 2 = 0
  climbing : Climbing hash l count inner c'.level c'.h
  tracking : Tracking hash l p count ml c'.level c'.matchh c'.branch
  unmatched : c'.matchh = false → c.matchh = false ∧ c'.branch = c.branch

variable {l} {count : ℕ} {inner : ℕ → α} {level : ℕ} {h : α}

/-- The quotient at a clear bit of the loop is even and at least two. -/
theorem Climbing.two_le_div (hc : Climbing hash l count inner level h) (hclear : count / 2 ^ level % 2 = 0) :
    2 ≤ count / 2 ^ level :=
  two_le_div_of_dvd hc.dvd hc.pos hclear

/-- Over a clear bit, `h` hashed onto `inner[level]` is the last node one level up. -/
theorem Climbing.step (hc : Climbing hash l count inner level h) (hclear : count / 2 ^ level % 2 = 0) :
    Climbing hash l count inner (level + 1) (hash (inner level) h) := by
  have hm2 := hc.two_le_div hash hclear
  obtain ⟨m, hm⟩ : ∃ m, count / 2 ^ level = m := ⟨_, rfl⟩
  have hlt := hc.lt_width
  rw [hm] at hm2 hclear hlt
  have hup : count / 2 ^ (level + 1) = m / 2 := by rw [div_two_pow_succ, hm]
  refine ⟨dvd_succ_of_even hc.dvd (hm ▸ hclear), hc.pos, ?_, ?_, fun j hj => hc.inner_eq j (by omega)⟩
  · rw [hup, width_succ]
    omega
  · rw [hup, node_succ, show 2 * (m / 2 - 1) + 1 = m - 1 by omega, show 2 * (m / 2 - 1) = m - 2 by omega,
      if_pos hlt, hc.inner_eq level le_rfl hc.dvd (hm ▸ hclear), hc.h_eq, hm]

omit [Inhabited α] in
/-- A node that is not yet matched and not at the recorded level leaves the branch alone. -/
theorem recordBranch_false {ml : Option ℕ} {c : Climb α} (hr : (recordBranch inner ml c).2 = false) :
    c.matchh = false ∧ ml ≠ some c.level ∧ (recordBranch inner ml c).1 = c.branch := by
  unfold recordBranch at hr ⊢
  split_ifs at hr ⊢ with h1 h2
  exact ⟨by simpa using h1, h2, rfl⟩

/-- Over a clear bit, the branch grows by the sibling of the leaf's node. -/
theorem Tracking.step {ml : Option ℕ} {c : Climb α} (hc : Climbing hash l count inner c.level c.h)
    (hclear : count / 2 ^ c.level % 2 = 0) (ht : Tracking hash l p count ml c.level c.matchh c.branch) :
    Tracking hash l p count ml (c.level + 1) (recordBranch inner ml c).2 (recordBranch inner ml c).1 := by
  intro hp
  have hm2 := hc.two_le_div hash hclear
  obtain ⟨m, hm⟩ : ∃ m, count / 2 ^ c.level = m := ⟨_, rfl⟩
  have hlt := hc.lt_width
  rw [hm] at hm2 hclear hlt
  have hup : count / 2 ^ (c.level + 1) = m / 2 := by rw [div_two_pow_succ, hm]
  have hpup : p / 2 ^ (c.level + 1) = p / 2 ^ c.level / 2 := div_two_pow_succ p c.level
  rcases ht hp with ⟨hmatch, hpos, hbr⟩ | ⟨hmatch, hml⟩
  · -- the leaf is under `h`, a right child: its sibling is `inner[level]`
    rw [hm] at hpos
    left
    unfold recordBranch
    rw [if_pos hmatch]
    refine ⟨rfl, by rw [hup, hpup, hpos]; omega, ?_⟩
    rw [hbr, branch_succ, hpos, sibling, if_neg (show ¬(m - 1) % 2 = 0 by omega), show m - 1 - 1 = m - 2 by omega,
      hc.inner_eq c.level le_rfl hc.dvd (hm ▸ hclear), hm]
  · by_cases hL : ml = some c.level
    · -- the leaf is under `inner[level]`, a left child: its sibling is `h`
      obtain ⟨hpos, hbr⟩ := (hml c.level hL).2 hc.dvd (hm ▸ hclear)
      rw [hm] at hpos
      left
      unfold recordBranch
      rw [if_neg (by simp [hmatch]), if_pos hL]
      refine ⟨rfl, by rw [hup, hpup, hpos]; omega, ?_⟩
      rw [hbr, branch_succ, hpos, sibling, if_pos (show (m - 2) % 2 = 0 by omega),
        if_pos (show m - 2 + 1 < width l.length c.level by omega), show m - 2 + 1 = m - 1 by omega, hc.h_eq, hm]
    · right
      unfold recordBranch
      rw [if_neg (by simp [hmatch]), if_neg hL]
      refine ⟨rfl, fun L hL' => ⟨?_, (hml L hL').2⟩⟩
      have := (hml L hL').1
      have hne : L ≠ c.level := fun h => hL (h ▸ hL')
      omega

/-- `Climbed` does not read `mutated`. -/
theorem Climbed.of_mutated {ml : Option ℕ} {c c' : Climb α} {m : Bool}
    (h : Climbed hash l p count inner ml c { c' with mutated := m }) : Climbed hash l p count inner ml c c' :=
  ⟨h.le_level, h.set_bit, h.clear_below, h.climbing, h.tracking, h.unmatched⟩

/-- The sweep's loop climbs to the first set bit of `count`, within the fuel
`count < 2 ^ (level + fuel)` leaves it. -/
theorem propagateLoop_spec {ml : Option ℕ} :
    ∀ (fuel : ℕ) (c : Climb α), count < 2 ^ (c.level + fuel) → Climbing hash l count inner c.level c.h →
      Tracking hash l p count ml c.level c.matchh c.branch →
      Climbed hash l p count inner ml c (propagateLoop hash count inner ml fuel c) ∧
        (propagateLoop hash count inner ml fuel c).mutated = c.mutated
  | 0, c, hfuel, hc, _ => by
    -- the fuel cannot run out below the first set bit
    have := two_pow_le_of_dvd hc.dvd hc.pos
    rw [Nat.add_zero] at hfuel
    omega
  | fuel + 1, c, hfuel, hc, ht => by
    rw [propagateLoop]
    by_cases hclear : count / 2 ^ c.level % 2 = 0
    · rw [if_pos ((and_one_shiftLeft_eq_zero count c.level).mpr hclear)]
      obtain ⟨hcl, hmut⟩ := propagateLoop_spec fuel
        ⟨c.level + 1, hash (inner c.level) c.h, (recordBranch inner ml c).2, (recordBranch inner ml c).1, c.mutated⟩
        (show count < 2 ^ (c.level + 1 + fuel) by rwa [Nat.add_right_comm, Nat.add_assoc])
        (hc.step hash hclear) (ht.step hash p hc hclear)
      refine ⟨⟨Nat.le_of_succ_le hcl.le_level, hcl.set_bit, fun j hj hj' => ?_, hcl.climbing, hcl.tracking,
        fun hm => ?_⟩, hmut⟩
      · rcases Nat.eq_or_lt_of_le hj with rfl | hj
        · exact hclear
        · exact hcl.clear_below j hj hj'
      · obtain ⟨hm1, hbr⟩ := hcl.unmatched hm
        obtain ⟨h1, -, h3⟩ := recordBranch_false hm1
        exact ⟨h1, hbr.trans h3⟩
    · rw [if_neg (fun h => hclear ((and_one_shiftLeft_eq_zero count c.level).mp h))]
      exact ⟨⟨le_rfl, by omega, fun j hj hj' => absurd hj' (by omega), hc, ht, fun h => ⟨h, rfl⟩⟩, rfl⟩

end Climbing

section Combine

variable {l : List α} (p : ℕ) {count : ℕ} {inner : ℕ → α} {ml : Option ℕ}

omit [Inhabited α] in
/-- The two loops differ only in `mutated`. -/
theorem combineLoop_eq_propagateLoop : ∀ (fuel : ℕ) (c : Climb α) (m : Bool),
    { combineLoop hash count inner ml fuel c with mutated := m } =
      propagateLoop hash count inner ml fuel { c with mutated := m }
  | 0, _, _ => rfl
  | fuel + 1, c, m => by
    rw [combineLoop, propagateLoop]
    by_cases hb : count &&& (1 <<< c.level) = 0
    · rw [if_pos hb, if_pos hb]
      exact combineLoop_eq_propagateLoop fuel _ m
    · rw [if_neg hb, if_neg hb]

theorem combineLoop_spec {fuel : ℕ} {c : Climb α} (hfuel : count < 2 ^ (c.level + fuel))
    (hc : Climbing hash l count inner c.level c.h) (ht : Tracking hash l p count ml c.level c.matchh c.branch) :
    Climbed hash l p count inner ml c (combineLoop hash count inner ml fuel c) := by
  have h := (propagateLoop_spec hash p fuel c hfuel hc ht).1
  have heq : propagateLoop hash count inner ml fuel c =
      { combineLoop hash count inner ml fuel c with mutated := c.mutated } :=
    (combineLoop_eq_propagateLoop hash fuel c c.mutated).symm
  rw [heq] at h
  exact h.of_mutated

omit [Inhabited α] in
theorem combineLoop_level_le (count : ℕ) (inner : ℕ → α) (ml : Option ℕ) :
    ∀ (fuel : ℕ) (c : Climb α), c.level ≤ (combineLoop hash count inner ml fuel c).level
  | 0, _ => le_rfl
  | fuel + 1, c => by
    rw [combineLoop]
    split_ifs
    · dsimp only
      exact Nat.le_of_succ_le (combineLoop_level_le count inner ml fuel ⟨c.level + 1, _, _, _, _⟩)
    · exact le_rfl

/-- `mutated` records the equal pairs the loop hashes, each a node to the left of the last. -/
theorem combineLoop_mutated : ∀ (fuel : ℕ) (c : Climb α), count < 2 ^ (c.level + fuel) →
    Climbing hash l count inner c.level c.h →
    ((combineLoop hash count inner ml fuel c).mutated = true ↔ c.mutated = true ∨
      ∃ j, c.level ≤ j ∧ j < (combineLoop hash count inner ml fuel c).level ∧
        node hash l j (count / 2 ^ j - 2) = node hash l j (count / 2 ^ j - 1))
  | 0, c, hfuel, hc => by
    have := two_pow_le_of_dvd hc.dvd hc.pos
    rw [Nat.add_zero] at hfuel
    omega
  | fuel + 1, c, hfuel, hc => by
    rw [combineLoop]
    by_cases hclear : count / 2 ^ c.level % 2 = 0
    · rw [if_pos ((and_one_shiftLeft_eq_zero count c.level).mpr hclear)]
      have ih := combineLoop_mutated fuel
        ⟨c.level + 1, hash (inner c.level) c.h, (recordBranch inner ml c).2, (recordBranch inner ml c).1,
          c.mutated || decide (inner c.level = c.h)⟩
        (show count < 2 ^ (c.level + 1 + fuel) by rwa [Nat.add_right_comm, Nat.add_assoc]) (hc.step hash hclear)
      -- the pair hashed at this level is that of the nodes left of the last and the last
      have hpair : inner c.level = c.h ↔
          node hash l c.level (count / 2 ^ c.level - 2) = node hash l c.level (count / 2 ^ c.level - 1) := by
        rw [hc.inner_eq c.level le_rfl hc.dvd hclear, ← hc.h_eq]
      have hle : c.level < _ := combineLoop_level_le hash count inner ml fuel
        ⟨c.level + 1, hash (inner c.level) c.h, (recordBranch inner ml c).2, (recordBranch inner ml c).1,
          c.mutated || decide (inner c.level = c.h)⟩
      rw [ih, Bool.or_eq_true, decide_eq_true_eq]
      constructor
      · rintro ((h | h) | ⟨j, hj, hj', hnode⟩)
        · exact Or.inl h
        · exact Or.inr ⟨c.level, le_rfl, hle, hpair.mp h⟩
        · exact Or.inr ⟨j, Nat.le_of_succ_le hj, hj', hnode⟩
      · rintro (h | ⟨j, hj, hj', hnode⟩)
        · exact Or.inl (Or.inl h)
        · rcases Nat.eq_or_lt_of_le hj with rfl | hj
          · exact Or.inl (Or.inr (hpair.mpr hnode))
          · exact Or.inr ⟨j, hj, hj', hnode⟩
    · rw [if_neg (fun h => hclear ((and_one_shiftLeft_eq_zero count c.level).mp h))]
      constructor
      · exact Or.inl
      · rintro (h | ⟨j, hj, hj', -⟩)
        · exact h
        · omega

end Combine

section Streaming

omit [DecidableEq α]

variable (l : List α) (p : ℕ)

/-- The first phase after `k` leaves of `l`: `inner` holds the block of each set
bit of `k`, `mutated` records the equal pairs of complete siblings among the
first `k` leaves, and the leaf `p`, once read, is in the block `matchlevel`
names, with its branch up to there. -/
structure Streamed (k : ℕ) (s : MerkleState α) : Prop where
  count_eq : s.count = k
  inner_eq : ∀ L, k / 2 ^ L % 2 = 1 → s.inner L = node hash l L (k / 2 ^ L - 1)
  mutated_iff : s.mutated = true ↔
    ∃ j i, (2 * i + 2) * 2 ^ j ≤ k ∧ node hash l j (2 * i) = node hash l j (2 * i + 1)
  matched : p < l.length → p < k → ∃ L, k / 2 ^ L % 2 = 1 ∧ p / 2 ^ L = k / 2 ^ L - 1 ∧
    s.matchlevel = some L ∧ s.branch = branch hash l p L
  unmatched : p < l.length → k ≤ p → s.matchlevel = none ∧ s.branch = []

theorem Streamed.init : Streamed hash l p 0 MerkleState.init where
  count_eq := rfl
  inner_eq L h := by
    rw [Nat.zero_div] at h
    cases h
  mutated_iff := by
    constructor
    · intro h
      cases h
    · rintro ⟨j, i, hle, -⟩
      exact absurd hle (Nat.not_le.mpr (Nat.mul_pos (Nat.succ_pos _) (Nat.two_pow_pos j)))
  matched _ h := absurd h (Nat.not_lt_zero p)
  unmatched _ _ := ⟨rfl, rfl⟩

variable {l p} {k : ℕ} {s : MerkleState α}

/-- Leaf `k` starts its climb at level `0`, as the last node below `k + 1`. -/
theorem Streamed.climbing (hs : Streamed hash l p k s) (hk : k < l.length) :
    Climbing hash l (k + 1) s.inner 0 l[k] where
  dvd := by
    rw [pow_zero]
    exact one_dvd _
  pos := Nat.succ_pos k
  lt_width := by
    rw [pow_zero, Nat.div_one, width_zero]
    omega
  h_eq := by rw [pow_zero, Nat.div_one, Nat.add_sub_cancel, node_zero, List.getD_eq_getElem _ _ hk]
  inner_eq j _ hd hclear := by
    -- a clear bit `j` of `k + 1` above its lowest set bit is a set bit of `k`
    have h2 := two_le_div_of_dvd hd (Nat.succ_pos k) hclear
    have hk' := div_of_dvd_succ hd
    rw [hs.inner_eq j (by omega), hk']
    rfl

/-- Leaf `k` starts matched if it is the leaf `p`; otherwise `p` was read before,
in the block `matchlevel` names, or is not yet read. -/
theorem Streamed.tracking (hs : Streamed hash l p k s) :
    Tracking hash l p (k + 1) s.matchlevel 0 (k == p) s.branch := by
  intro hp
  by_cases hkp : k = p
  · subst hkp
    left
    refine ⟨beq_self_eq_true k, ?_, (hs.unmatched hp le_rfl).2⟩
    rw [pow_zero, Nat.div_one, Nat.div_one, Nat.add_sub_cancel]
  · right
    refine ⟨beq_false_of_ne hkp, fun L hL => ⟨Nat.zero_le L, fun hd _ => ?_⟩⟩
    rcases Nat.lt_or_gt_of_ne hkp with hlt | hgt
    · rw [(hs.unmatched hp hlt.le).1] at hL
      cases hL
    · obtain ⟨L', -, hpos, hml, hbr⟩ := hs.matched hp hgt
      rw [hml, Option.some.injEq] at hL
      subst hL
      rw [div_of_dvd_succ hd] at hpos
      exact ⟨by omega, hbr⟩

variable {a : α} {c' : Climb α}

/-- The climb's node is stored at its exit level, the lowest set bit of `k + 1`;
above it the blocks of `k` stay. -/
theorem Streamed.inner_step (hs : Streamed hash l p k s)
    (hcl : Climbed hash l p (k + 1) s.inner s.matchlevel ⟨0, a, k == p, s.branch, s.mutated⟩ c') (L : ℕ)
    (hL : (k + 1) / 2 ^ L % 2 = 1) :
    Function.update s.inner c'.level c'.h L = node hash l L ((k + 1) / 2 ^ L - 1) := by
  by_cases hLe : L = c'.level
  · subst hLe
    rw [Function.update_self]
    exact hcl.climbing.h_eq
  · rw [Function.update_of_ne hLe]
    have hgt : c'.level < L := by
      rcases Nat.lt_or_gt_of_ne hLe with h | h
      · have := hcl.clear_below L (Nat.zero_le L) h
        omega
      · exact h
    rw [div_succ_of_set hcl.set_bit hgt] at hL ⊢
    exact hs.inner_eq L hL

/-- The pairs of complete siblings among `k + 1` leaves are those among `k` and
those the climb hashes, which end at `k + 1`. -/
theorem Streamed.mutated_step (hs : Streamed hash l p k s)
    (hcl : Climbed hash l p (k + 1) s.inner s.matchlevel ⟨0, a, k == p, s.branch, s.mutated⟩ c')
    (hmut : c'.mutated = true ↔ s.mutated = true ∨ ∃ j, 0 ≤ j ∧ j < c'.level ∧
      node hash l j ((k + 1) / 2 ^ j - 2) = node hash l j ((k + 1) / 2 ^ j - 1)) :
    c'.mutated = true ↔
      ∃ j i, (2 * i + 2) * 2 ^ j ≤ k + 1 ∧ node hash l j (2 * i) = node hash l j (2 * i + 1) := by
  rw [hmut, hs.mutated_iff]
  constructor
  · rintro (⟨j, i, hle, heq⟩ | ⟨j, -, hj, heq⟩)
    · exact ⟨j, i, Nat.le_succ_of_le hle, heq⟩
    · have h2 := two_le_div_of_dvd (dvd_of_le hcl.climbing.dvd hj.le) (Nat.succ_pos k)
        (hcl.clear_below j (Nat.zero_le j) hj)
      have hclear := hcl.clear_below j (Nat.zero_le j) hj
      refine ⟨j, (k + 1) / 2 ^ j / 2 - 1,
        le_of_eq ((pair_end_iff hcl.climbing.dvd hcl.set_bit).mpr ⟨hj, by omega⟩), ?_⟩
      rwa [show 2 * ((k + 1) / 2 ^ j / 2 - 1) + 1 = (k + 1) / 2 ^ j - 1 by omega,
        show 2 * ((k + 1) / 2 ^ j / 2 - 1) = (k + 1) / 2 ^ j - 2 by omega]
  · rintro ⟨j, i, hle, heq⟩
    rcases Nat.lt_or_eq_of_le hle with hlt | hend
    · exact Or.inl ⟨j, i, Nat.le_of_lt_succ hlt, heq⟩
    · obtain ⟨hj, hq⟩ := (pair_end_iff hcl.climbing.dvd hcl.set_bit).mp hend
      refine Or.inr ⟨j, Nat.zero_le j, hj, ?_⟩
      rwa [hq, Nat.add_sub_cancel, show 2 * i + 2 - 1 = 2 * i + 1 by omega]

/-- Once read, leaf `p` stays in the block `matchlevel` names: the climb carries
it up when it hashes that block, and passes below it otherwise. -/
theorem Streamed.matched_step (hs : Streamed hash l p k s)
    (hcl : Climbed hash l p (k + 1) s.inner s.matchlevel ⟨0, a, k == p, s.branch, s.mutated⟩ c')
    (hp : p < l.length) (hpk : p < k + 1) :
    ∃ L, (k + 1) / 2 ^ L % 2 = 1 ∧ p / 2 ^ L = (k + 1) / 2 ^ L - 1 ∧
      (if c'.matchh then some c'.level else s.matchlevel) = some L ∧ c'.branch = branch hash l p L := by
  rcases hcl.tracking hp with ⟨hm, hpos, hbr⟩ | ⟨hm, hml⟩
  · exact ⟨c'.level, hcl.set_bit, hpos, by rw [if_pos hm], hbr⟩
  · obtain ⟨hkp, hbr⟩ := hcl.unmatched hm
    have hlt : p < k := lt_of_le_of_ne (Nat.le_of_lt_succ hpk) (fun h => by simp [h] at hkp)
    obtain ⟨L, hset, hpos, hL, hbrL⟩ := hs.matched hp hlt
    have hne : c'.level ≠ L := by
      rintro rfl
      -- at the lowest set bit of `k + 1` the bit of `k` is clear
      have := div_of_dvd_succ hcl.climbing.dvd
      have := hcl.set_bit
      omega
    have hgt : c'.level < L := lt_of_le_of_ne (hml L hL).1 hne
    have hdiv := div_succ_of_set hcl.set_bit hgt
    exact ⟨L, hdiv ▸ hset, hdiv ▸ hpos, by rw [if_neg (Bool.eq_false_iff.mp hm), hL], hbr.trans hbrL⟩

/-- Before leaf `p` is read nothing is matched. -/
theorem Streamed.unmatched_step (hs : Streamed hash l p k s)
    (hcl : Climbed hash l p (k + 1) s.inner s.matchlevel ⟨0, a, k == p, s.branch, s.mutated⟩ c')
    (hp : p < l.length) (hpk : k + 1 ≤ p) :
    (if c'.matchh then some c'.level else s.matchlevel) = none ∧ c'.branch = [] := by
  rcases hcl.tracking hp with ⟨-, hpos, -⟩ | ⟨hm, -⟩
  · -- the climb's node ends below `p`
    have h1 : 1 ≤ (k + 1) / 2 ^ c'.level :=
      Nat.div_pos (two_pow_le_of_dvd hcl.climbing.dvd (Nat.succ_pos k)) (Nat.two_pow_pos _)
    have h2 : (k + 1) / 2 ^ c'.level ≤ p / 2 ^ c'.level := Nat.div_le_div_right hpk
    omega
  · obtain ⟨-, hbr⟩ := hcl.unmatched hm
    obtain ⟨hml, hbr'⟩ := hs.unmatched hp (Nat.le_of_succ_le hpk)
    exact ⟨by rw [if_neg (Bool.eq_false_iff.mp hm), hml], hbr.trans hbr'⟩

end Streaming

section FirstPhase

variable {l : List α} {p k : ℕ} {s : MerkleState α}

/-- One leaf keeps the first phase's invariant. -/
theorem Streamed.step (hs : Streamed hash l p k s) (hk : k < l.length) :
    Streamed hash l p (k + 1) (processLeaf hash p s l[k]) := by
  have hfuel : k + 1 < 2 ^ (0 + (k + 1)) := by
    rw [Nat.zero_add]
    exact Nat.lt_two_pow_self
  obtain ⟨c', hc'⟩ : ∃ c', combineLoop hash (k + 1) s.inner s.matchlevel (k + 1)
      ⟨0, l[k], k == p, s.branch, s.mutated⟩ = c' := ⟨_, rfl⟩
  have hcl : Climbed hash l p (k + 1) s.inner s.matchlevel ⟨0, l[k], k == p, s.branch, s.mutated⟩ c' := by
    rw [← hc']
    exact combineLoop_spec hash p hfuel (hs.climbing hash hk) (hs.tracking hash)
  have hmut : c'.mutated = true ↔ s.mutated = true ∨ ∃ j, 0 ≤ j ∧ j < c'.level ∧
      node hash l j ((k + 1) / 2 ^ j - 2) = node hash l j ((k + 1) / 2 ^ j - 1) := by
    rw [← hc']
    exact combineLoop_mutated hash _ _ hfuel (hs.climbing hash hk)
  have hpl : processLeaf hash p s l[k] = ⟨k + 1, Function.update s.inner c'.level c'.h,
      if c'.matchh then some c'.level else s.matchlevel, c'.mutated, c'.branch⟩ := by
    rw [processLeaf, hs.count_eq, hc']
  rw [hpl]
  exact ⟨rfl, hs.inner_step hash hcl, hs.mutated_step hash hcl hmut, hs.matched_step hash hcl,
    hs.unmatched_step hash hcl⟩

variable (l p)

/-- The first phase's invariant after each prefix of the leaves. -/
theorem streamed_take : ∀ k, k ≤ l.length →
    Streamed hash l p k ((l.take k).foldl (processLeaf hash p) MerkleState.init)
  | 0, _ => Streamed.init hash l p
  | k + 1, hk => by
    rw [List.take_succ_eq_append_getElem (by omega), List.foldl_append, List.foldl_cons, List.foldl_nil]
    exact (streamed_take k (by omega)).step hash (by omega)

theorem streamed : Streamed hash l p l.length (l.foldl (processLeaf hash p) MerkleState.init) := by
  have h := streamed_take hash l p l.length le_rfl
  rwa [List.take_length] at h

end FirstPhase

section Sweep

omit [DecidableEq α]

/-- `skipClear` stops at the lowest set bit of a positive `count` from `level`
on, within the fuel `count < 2 ^ (level + fuel)` leaves it. -/
theorem skipClear_spec {count : ℕ} (hc : 0 < count) : ∀ fuel level, 2 ^ level ∣ count →
    count < 2 ^ (level + fuel) →
      2 ^ skipClear count fuel level ∣ count ∧ count / 2 ^ skipClear count fuel level % 2 = 1
  | 0, _, hd, hf => absurd hf (not_lt.mpr (two_pow_le_of_dvd hd hc))
  | fuel + 1, level, hd, hf => by
    rw [skipClear]
    by_cases hclear : count / 2 ^ level % 2 = 0
    · rw [if_pos ((and_one_shiftLeft_eq_zero count level).mpr hclear)]
      exact skipClear_spec hc fuel (level + 1) (dvd_succ_of_even hd hclear)
        (by rwa [Nat.add_right_comm, Nat.add_assoc])
    · rw [if_neg (fun h => hclear ((and_one_shiftLeft_eq_zero count level).mp h))]
      exact ⟨hd, by omega⟩

/-- Above a level `j` whose next power does not divide `n`, the nodes of a level
round `n` up. -/
theorem width_of_above {n j L : ℕ} (hnd : ¬2 ^ (j + 1) ∣ n) (hL : j + 1 ≤ L) : width n L = n / 2 ^ L + 1 :=
  width_of_not_dvd fun h => hnd (dvd_of_le h hL)

/-- A count made of whole blocks of `2 ^ j`, one per node of level `j`, is made of
one block per node at each level above whose power divides it. -/
theorem div_eq_width {n count j L : ℕ} (h : count = width n j * 2 ^ j) (hjL : j ≤ L) (hd : 2 ^ L ∣ count) :
    count / 2 ^ L = width n L := by
  obtain ⟨d, rfl⟩ := Nat.exists_eq_add_of_le hjL
  have hW : 2 ^ d ∣ width n j := by
    rw [h, pow_add, mul_comm (2 ^ j)] at hd
    exact Nat.dvd_of_mul_dvd_mul_right (Nat.two_pow_pos j) hd
  rw [h, ← width_width, width_of_dvd hW, pow_add, mul_comm (2 ^ j) (2 ^ d),
    Nat.mul_div_mul_right _ _ (Nat.two_pow_pos j)]

variable (l : List α) (p : ℕ) (s : MerkleState α)

/-- The sweep at the top of its loop: `count` is the leaves rounded up to the
blocks of `2 ^ level`, an odd number of them, of which `h` is the last; the leaf
`p` is under `h`, with its branch, or still in the block `matchlevel` names,
further up, with the branch of the first phase. -/
structure Sweeping (count : ℕ) (c : Climb α) : Prop where
  not_dvd : ¬2 ^ (c.level + 1) ∣ l.length
  le_clog : c.level ≤ Nat.clog 2 l.length
  count_eq : count = width l.length c.level * 2 ^ c.level
  odd : width l.length c.level % 2 = 1
  h_eq : c.h = node hash l c.level (width l.length c.level - 1)
  matched : p < l.length → c.matchh = true →
    p / 2 ^ c.level = width l.length c.level - 1 ∧ c.branch = branch hash l p c.level
  unmatched : p < l.length → c.matchh = false →
    c.branch = s.branch ∧ ∀ L, s.matchlevel = some L → c.level < L

variable {l p s}

/-- The sweep starts at the lowest set bit `b` of the number of leaves. -/
theorem Sweeping.init (hs : Streamed hash l p l.length s) (hn : 0 < l.length) {b : ℕ} (hd : 2 ^ b ∣ l.length)
    (hset : l.length / 2 ^ b % 2 = 1) :
    Sweeping hash l p s l.length ⟨b, s.inner b, decide (s.matchlevel = some b), s.branch, s.mutated⟩ where
  not_dvd h := by
    have := div_even_of_dvd (show 2 ^ (b + 1) ∣ l.length from h)
    omega
  le_clog := (Nat.pow_le_pow_iff_right (by norm_num)).mp
    ((two_pow_le_of_dvd hd hn).trans (Nat.le_pow_clog (by norm_num) l.length))
  count_eq := by rw [width_of_dvd hd, mul_div_of_dvd hd]
  odd := by rw [width_of_dvd hd]; exact hset
  h_eq := by rw [width_of_dvd hd]; exact hs.inner_eq b hset
  matched hp hm := by
    obtain ⟨L, -, hpos, hL, hbr⟩ := hs.matched hp hp
    rw [of_decide_eq_true hm, Option.some.injEq] at hL
    subst hL
    exact ⟨by rw [width_of_dvd hd]; exact hpos, hbr⟩
  unmatched hp hm := by
    refine ⟨rfl, fun L hL => ?_⟩
    obtain ⟨L', hset', -, hL', -⟩ := hs.matched hp hp
    rw [hL, Option.some.injEq] at hL'
    subst hL'
    have hne : L ≠ b := fun h => by
      subst h
      simp [hL] at hm
    -- a set bit of the leaves' number is not below its lowest
    rcases Nat.lt_or_gt_of_ne hne with hlt | hgt
    · have := div_even_of_dvd (dvd_of_le hd (show L + 1 ≤ b from hlt))
      omega
    · exact hgt

variable {count : ℕ} {c : Climb α}

/-- Pairing the last node with itself rounds `count` up to the level above. -/
theorem Sweeping.round_up (hw : Sweeping hash l p s count c) :
    count + 2 ^ c.level = width l.length (c.level + 1) * 2 ^ (c.level + 1) := by
  have hodd := hw.odd
  rw [hw.count_eq, width_succ, pow_succ', ← mul_assoc,
    Nat.div_mul_cancel (Nat.dvd_of_mod_eq_zero (show (width l.length c.level + 1) % 2 = 0 by omega)), add_mul,
    one_mul]

/-- After the last node is hashed with itself, the climb from the level above
finds the blocks of the leaves at every level it can reach. -/
theorem Sweeping.climbing (hs : Streamed hash l p l.length s) (hw : Sweeping hash l p s count c) :
    Climbing hash l (count + 2 ^ c.level) s.inner (c.level + 1) (hash c.h c.h) where
  dvd := ⟨width l.length (c.level + 1), by rw [hw.round_up, mul_comm]⟩
  pos := Nat.add_pos_right _ (Nat.two_pow_pos _)
  lt_width := by
    have hodd := hw.odd
    rw [hw.round_up, Nat.mul_div_cancel _ (Nat.two_pow_pos _), width_succ]
    omega
  h_eq := by
    -- the last node of an odd level is its own right sibling
    have hodd := hw.odd
    rw [hw.round_up, Nat.mul_div_cancel _ (Nat.two_pow_pos _), node_succ, width_succ,
      show 2 * ((width l.length c.level + 1) / 2 - 1) = width l.length c.level - 1 by omega,
      if_neg (show ¬(width l.length c.level - 1 + 1 < width l.length c.level) by omega), ← hw.h_eq]
  inner_eq L hL hd hclear := by
    rw [div_eq_width hw.round_up hL hd, width_of_above hw.not_dvd hL] at hclear ⊢
    rw [hs.inner_eq L (by omega)]
    rfl

/-- The branch of the self-paired node is the node itself. -/
theorem Sweeping.tracking (hs : Streamed hash l p l.length s) (hw : Sweeping hash l p s count c) :
    Tracking hash l p (count + 2 ^ c.level) s.matchlevel (c.level + 1) c.matchh
      (if c.matchh then c.branch ++ [c.h] else c.branch) := by
  intro hp
  have hodd := hw.odd
  have hup : (count + 2 ^ c.level) / 2 ^ (c.level + 1) = (width l.length c.level + 1) / 2 := by
    rw [hw.round_up, Nat.mul_div_cancel _ (Nat.two_pow_pos _), width_succ]
  cases hm : c.matchh with
  | true =>
    obtain ⟨hpos, hbr⟩ := hw.matched hp hm
    left
    refine ⟨rfl, by rw [div_two_pow_succ, hpos, hup]; omega, ?_⟩
    rw [if_pos rfl, hbr, branch_succ, hpos, sibling,
      if_pos (show (width l.length c.level - 1) % 2 = 0 by omega),
      if_neg (show ¬(width l.length c.level - 1 + 1 < width l.length c.level) by omega), ← hw.h_eq]
  | false =>
    obtain ⟨hbr, hlt⟩ := hw.unmatched hp hm
    right
    refine ⟨rfl, fun L hL => ⟨hlt L hL, fun hd _ => ?_⟩⟩
    obtain ⟨L', -, hpos, hL', hbrL⟩ := hs.matched hp hp
    rw [hL, Option.some.injEq] at hL'
    subst hL'
    rw [div_eq_width hw.round_up (hlt L hL) hd, width_of_above hw.not_dvd (hlt L hL)]
    exact ⟨by omega, by rw [if_neg Bool.false_ne_true, hbr, hbrL]⟩

/-- One round of the sweep keeps its invariant and climbs at least a level. -/
theorem Sweeping.step (hs : Streamed hash l p l.length s) (hn : 0 < l.length) (hw : Sweeping hash l p s count c)
    (hone : width l.length c.level ≠ 1) :
    Sweeping hash l p s (count + 2 ^ c.level)
        (propagateLoop hash (count + 2 ^ c.level) s.inner s.matchlevel (count + 2 ^ c.level)
          ⟨c.level + 1, hash c.h c.h, c.matchh, if c.matchh then c.branch ++ [c.h] else c.branch, c.mutated⟩) ∧
      c.level < (propagateLoop hash (count + 2 ^ c.level) s.inner s.matchlevel (count + 2 ^ c.level)
          ⟨c.level + 1, hash c.h c.h, c.matchh, if c.matchh then c.branch ++ [c.h] else c.branch, c.mutated⟩).level := by
  obtain ⟨c', hc'⟩ : ∃ c', propagateLoop hash (count + 2 ^ c.level) s.inner s.matchlevel (count + 2 ^ c.level)
      ⟨c.level + 1, hash c.h c.h, c.matchh, if c.matchh then c.branch ++ [c.h] else c.branch, c.mutated⟩ = c' :=
    ⟨_, rfl⟩
  have hfuel : count + 2 ^ c.level < 2 ^ (c.level + 1 + (count + 2 ^ c.level)) :=
    Nat.lt_of_lt_of_le Nat.lt_two_pow_self (Nat.pow_le_pow_right (by norm_num) (Nat.le_add_left _ _))
  have hcl : Climbed hash l p (count + 2 ^ c.level) s.inner s.matchlevel
      ⟨c.level + 1, hash c.h c.h, c.matchh, if c.matchh then c.branch ++ [c.h] else c.branch, c.mutated⟩ c' := by
    rw [← hc']
    exact (propagateLoop_spec hash p _ _ hfuel (hw.climbing hash hs) (hw.tracking hash hs)).1
  rw [hc']
  have hle : c.level + 1 ≤ c'.level := hcl.le_level
  have hwidth := div_eq_width hw.round_up hle hcl.climbing.dvd
  -- the climb stops at or below the level of the root, where one node is left
  have hclog : c'.level ≤ Nat.clog 2 l.length := by
    by_contra hgt
    have hlt : c.level < Nat.clog 2 l.length := lt_of_not_ge fun h => hone ((width_eq_one_iff hn).mpr h)
    have hclear := hcl.clear_below _ hlt (lt_of_not_ge hgt)
    rw [div_eq_width hw.round_up hlt (dvd_of_le hcl.climbing.dvd (le_of_not_ge hgt)),
      (width_eq_one_iff hn).mpr le_rfl] at hclear
    cases hclear
  refine ⟨⟨fun h => hw.not_dvd (dvd_of_le h (by omega)), hclog, ?_, hwidth ▸ hcl.set_bit,
    hwidth ▸ hcl.climbing.h_eq, fun hp hm => ?_, fun hp hm => ?_⟩, by omega⟩
  · rw [← hwidth, mul_div_of_dvd hcl.climbing.dvd]
  · rcases hcl.tracking hp with ⟨-, hpos, hbr⟩ | ⟨hm', -⟩
    · exact ⟨hwidth ▸ hpos, hbr⟩
    · rw [hm] at hm'
      cases hm'
  · obtain ⟨hm0, hbr⟩ := hcl.unmatched hm
    obtain ⟨hbr0, hlt⟩ := hw.unmatched hp hm0
    refine ⟨by rw [hbr, hm0, if_neg Bool.false_ne_true, hbr0], fun L hL => ?_⟩
    rcases hcl.tracking hp with ⟨hm', -, -⟩ | ⟨-, hml⟩
    · rw [hm] at hm'
      cases hm'
    · -- the block that holds the leaf is at a set bit of the leaves' number, where the
      -- rounded count has a clear bit
      have hne : c'.level ≠ L := by
        rintro rfl
        obtain ⟨L', hset, -, hL', -⟩ := hs.matched hp hp
        rw [hL, Option.some.injEq] at hL'
        subst hL'
        have := hcl.set_bit
        rw [hwidth, width_of_above hw.not_dvd (hlt _ hL)] at this
        omega
      exact lt_of_le_of_ne (hml L hL).1 hne

/-- The sweep ends at the level of the root, within the fuel
`clog 2 n ≤ level + fuel` leaves it. -/
theorem sweepLoop_spec (hs : Streamed hash l p l.length s) (hn : 0 < l.length) :
    ∀ fuel count (c : Climb α), Nat.clog 2 l.length ≤ c.level + fuel → Sweeping hash l p s count c →
      ∃ count', Sweeping hash l p s count' (sweepLoop hash s.inner s.matchlevel fuel count c) ∧
        (sweepLoop hash s.inner s.matchlevel fuel count c).level = Nat.clog 2 l.length
  | 0, count, _, hf, hw => ⟨count, hw, le_antisymm hw.le_clog hf⟩
  | fuel + 1, count, c, hf, hw => by
    rw [sweepLoop]
    by_cases hone : width l.length c.level = 1
    · -- `count` is `1 << level`: one node is left
      rw [if_pos (by rw [hw.count_eq, hone, one_mul, Nat.one_shiftLeft])]
      exact ⟨count, hw, le_antisymm hw.le_clog ((width_eq_one_iff hn).mp hone)⟩
    · have htop : count ≠ 1 <<< c.level := by
        rw [hw.count_eq, Nat.one_shiftLeft]
        intro h
        exact hone (Nat.eq_of_mul_eq_mul_right (Nat.two_pow_pos _) (h.trans (one_mul _).symm))
      rw [if_neg htop]
      dsimp only
      rw [Nat.one_shiftLeft]
      obtain ⟨hw', hlt⟩ := hw.step hash hs hn hone
      exact sweepLoop_spec hs hn fuel _ _ (by omega) hw'

end Sweep

section Result

variable (l : List α) (p : ℕ)

/-- For a nonempty list, MerkleComputation returns `mutated` of the first phase
and the node and branch of a sweep that ends at the level of the root. -/
theorem merkleComputation_sweep (hl : l ≠ []) :
    ∃ c : Climb α, merkleComputation hash l p =
        (c.h, (l.foldl (processLeaf hash p) MerkleState.init).mutated, c.branch) ∧
      ∃ count, Sweeping hash l p (l.foldl (processLeaf hash p) MerkleState.init) count c ∧
        c.level = Nat.clog 2 l.length := by
  have hn : 0 < l.length := List.length_pos_iff.mpr hl
  have hs := streamed hash l p
  obtain ⟨s, hsdef⟩ : ∃ s, l.foldl (processLeaf hash p) MerkleState.init = s := ⟨_, rfl⟩
  rw [hsdef] at hs ⊢
  obtain ⟨hd, hset⟩ := skipClear_spec hn l.length 0 (by rw [pow_zero]; exact one_dvd _)
    (by rw [Nat.zero_add]; exact Nat.lt_two_pow_self)
  have hfuel : Nat.clog 2 l.length ≤ skipClear l.length l.length 0 + l.length :=
    Nat.le_add_left_of_le ((Nat.clog_le_iff_le_pow (by norm_num)).mpr Nat.lt_two_pow_self.le)
  obtain ⟨count, hw, hlevel⟩ := sweepLoop_spec hash hs hn l.length l.length _ hfuel (Sweeping.init hash hs hn hd hset)
  refine ⟨_, ?_, count, hw, hlevel⟩
  rw [merkleComputation, if_neg (Nat.pos_iff_ne_zero.mp hn)]
  dsimp only
  rw [hsdef, hs.count_eq]

/-- MerkleComputation returns the root of the tree. -/
theorem merkleComputation_root : (merkleComputation hash l p).1 = root hash l := by
  by_cases hl : l = []
  · subst hl
    simp [merkleComputation, root]
  · obtain ⟨c, hc, count, hw, hlevel⟩ := merkleComputation_sweep hash l p hl
    rw [hc, root_eq_node hash l hl, hw.h_eq, hlevel,
      (width_eq_one_iff (List.length_pos_iff.mpr hl)).mpr le_rfl]

/-- MerkleComputation's `mutated` records exactly an equal pair of complete siblings. -/
theorem merkleComputation_mutated : (merkleComputation hash l p).2.1 = true ↔ EqualCompleteSiblings hash l := by
  by_cases hl : l = []
  · subst hl
    exact (Streamed.init hash [] p).mutated_iff
  · rw [merkleComputation, if_neg (Nat.pos_iff_ne_zero.mp (List.length_pos_iff.mpr hl))]
    exact (streamed hash l p).mutated_iff

variable {l p}

/-- MerkleComputation's branch of a leaf is its branch in the tree. -/
theorem merkleComputation_branch (hp : p < l.length) :
    (merkleComputation hash l p).2.2 = branch hash l p (Nat.clog 2 l.length) := by
  have hl : l ≠ [] := List.ne_nil_of_length_pos (Nat.lt_of_le_of_lt (Nat.zero_le p) hp)
  obtain ⟨c, hc, count, hw, hlevel⟩ := merkleComputation_sweep hash l p hl
  rw [hc]
  cases hm : c.matchh with
  | true => rw [(hw.matched hp hm).2, hlevel]
  | false =>
    -- the block that holds the leaf is no higher than the root
    obtain ⟨-, hlt⟩ := hw.unmatched hp hm
    obtain ⟨L, hset, -, hL, -⟩ := (streamed hash l p).matched hp hp
    have hle : 2 ^ L ≤ l.length := by
      have hpos : 0 < l.length / 2 ^ L := Nat.pos_of_ne_zero fun h => by
        rw [h] at hset
        cases hset
      exact (Nat.one_le_div_iff (Nat.two_pow_pos L)).mp hpos
    have := (Nat.pow_le_pow_iff_right (by norm_num)).mp (hle.trans (Nat.le_pow_clog (by norm_num) l.length))
    have := hlt L hL
    omega

omit [DecidableEq α] in
/-- Folding the branch of leaf `p` climbs its nodes. -/
theorem foldl_branchStep (hp : p < l.length) : ∀ d,
    (branch hash l p d).foldl (branchStep hash) (l[p], p) = (node hash l d (p / 2 ^ d), p / 2 ^ d)
  | 0 => by rw [branch_zero, List.foldl_nil, pow_zero, Nat.div_one, node_zero, List.getD_eq_getElem _ _ hp]
  | d + 1 => by
    rw [branch_succ, List.foldl_append, foldl_branchStep hp d, List.foldl_cons, List.foldl_nil, branchStep,
      node_succ_sibling hash l hp d, div_two_pow_succ]
    simp only [Nat.and_one_is_mod, Nat.shiftRight_one, ne_eq, Nat.mod_two_ne_zero]

omit [DecidableEq α] in
/-- ComputeMerkleRootFromBranch over the branch of a leaf is the root. -/
theorem computeMerkleRootFromBranch_branch (hp : p < l.length) :
    computeMerkleRootFromBranch hash l[p] (branch hash l p (Nat.clog 2 l.length)) p = root hash l := by
  have hl : l ≠ [] := List.ne_nil_of_length_pos (Nat.lt_of_le_of_lt (Nat.zero_le p) hp)
  have hdiv : p / 2 ^ Nat.clog 2 l.length = 0 :=
    Nat.div_eq_of_lt (Nat.lt_of_lt_of_le hp (Nat.le_pow_clog (by norm_num) l.length))
  rw [computeMerkleRootFromBranch, foldl_branchStep hash hp, hdiv, root_eq_node hash l hl]

end Result

/-- ComputeMerkleRoot returns the root of the tree that pairs the last node of an
odd level with itself, with `mutated` set exactly when two complete sibling
nodes are equal, and ComputeMerkleRootFromBranch over the ComputeMerkleBranch of
each leaf gives that root back. -/
theorem computeMerkleRoot_tree (leaves : List α) :
    (computeMerkleRoot hash leaves).1 = root hash leaves ∧
      ((computeMerkleRoot hash leaves).2 = true ↔ EqualCompleteSiblings hash leaves) ∧
      ∀ p (hp : p < leaves.length),
        computeMerkleRootFromBranch hash leaves[p] (computeMerkleBranch hash leaves p) p = root hash leaves := by
  refine ⟨merkleComputation_root hash leaves _, merkleComputation_mutated hash leaves _, fun p hp => ?_⟩
  rw [computeMerkleBranch, merkleComputation_branch hash hp, computeMerkleRootFromBranch_branch hash hp]

theorem computeMerkleRoot_tree_sample :
    2 < [1, 2, 3].length ∧
      computeMerkleRootFromBranch (fun a b : ℕ => 2 * a + b) [1, 2, 3][2]
          (computeMerkleBranch (fun a b : ℕ => 2 * a + b) [1, 2, 3] 2) 2 =
        root (fun a b : ℕ => 2 * a + b) [1, 2, 3] :=
  ⟨by decide, (computeMerkleRoot_tree (fun a b : ℕ => 2 * a + b) [1, 2, 3]).2.2 2 (by decide)⟩

/-- With the hash the sum of two 32-byte words, the leaves `1, 3, 2` make the
level `4, 4` of the tree, an equal pair, but its right node pairs the last leaf
with itself, and `mutated` stays clear. -/
theorem computeMerkleRoot_mutated_partial :
    (levels (fun a b : BitVec 256 => a + b) [1, 3, 2]).any pairsEqual = true ∧
      (computeMerkleRoot (fun a b : BitVec 256 => a + b) [1, 3, 2]).2 = false :=
  ⟨by simp [levels, levelUp, pairsEqual], by decide⟩

end AokChain.Merkle
