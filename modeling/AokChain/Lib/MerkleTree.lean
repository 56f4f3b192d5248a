import Mathlib.Data.Nat.Log
import Mathlib.Tactic.Ring

/-!
# Hash trees that pair the last node of an odd level with itself

Leaves are hashed pairwise, level by level; a level of odd length pairs its
last node with itself.  `levelUp` is one level of this breadth-first
construction, and `root` applies it while a level has more than one node.

`treeRoot d l` reads the same tree depth first: the root of depth `d` over `l`,
a missing right subtree replaced by a copy of the left one.  `node l j i` is the
`i`-th node of level `j`, the root of depth `j` over its block of `2 ^ j`
leaves; `getElem?_iterate_levelUp` says the levels are made of these nodes, and
`root_eq_node` that the root is the one node of level `Nat.clog 2 l.length`.
`node_succ` is the recursion of the nodes through the levels, and
`node_succ_sibling` its reading along the path of one leaf: the parent of a node
is its hash with its `sibling`, in the order the index's low bit gives.
-/

namespace MerkleTree

variable {α : Type*} (hash : α → α → α)

/-- One level up: adjacent nodes hashed in pairs, the last node of an odd level
with itself. -/
def levelUp : List α → List α
  | [] => []
  | [a] => [hash a a]
  | a :: b :: rest => hash a b :: levelUp rest

/-- The number of nodes at level `j` over `n` leaves: `n / 2 ^ j` rounded up. -/
def width (n j : ℕ) : ℕ := (n + 2 ^ j - 1) / 2 ^ j

theorem length_levelUp : ∀ l : List α, (levelUp hash l).length = (l.length + 1) / 2
  | [] => by simp [levelUp]
  | [_] => by simp [levelUp]
  | _ :: _ :: rest => by
    simp only [levelUp, List.length_cons, length_levelUp rest]
    omega

/-- The `i`-th node one level up hashes nodes `2 * i` and `2 * i + 1`, or node
`2 * i` with itself if it is the last. -/
theorem getElem?_levelUp : ∀ (l : List α) (i : ℕ),
    (levelUp hash l)[i]? = l[2 * i]?.map fun a => hash a (l[2 * i + 1]?.getD a)
  | [], _ => rfl
  | [_], 0 => rfl
  | [_], i + 1 => by simp [levelUp]
  | _ :: _ :: _, 0 => rfl
  | a :: b :: rest, i + 1 => by
    rw [levelUp, List.getElem?_cons_succ, getElem?_levelUp rest i,
      show 2 * (i + 1) = 2 * i + 1 + 1 by ring, List.getElem?_cons_succ, List.getElem?_cons_succ,
      List.getElem?_cons_succ, List.getElem?_cons_succ]

section Width

theorem width_zero (n : ℕ) : width n 0 = n := by
  simp [width]

theorem width_succ (n j : ℕ) : width n (j + 1) = (width n j + 1) / 2 := by
  have hpos : 0 < 2 ^ j := Nat.two_pow_pos j
  have hpow : 2 ^ (j + 1) = 2 ^ j * 2 := pow_succ 2 j
  unfold width
  rw [← Nat.add_div_right _ hpos, Nat.div_div_eq_div_mul, ← hpow]
  congr 1
  omega

theorem width_width (n a : ℕ) : ∀ b, width (width n a) b = width n (a + b)
  | 0 => width_zero _
  | b + 1 => by rw [width_succ, width_width n a b, ← Nat.add_assoc, width_succ]

/-- A node `i` of level `j` exists iff its block starts before the last leaf. -/
theorem lt_width_iff {n j i : ℕ} : i < width n j ↔ i * 2 ^ j < n := by
  have hpos : 0 < 2 ^ j := Nat.two_pow_pos j
  unfold width
  rw [Nat.lt_div_iff_mul_lt hpos]
  omega

theorem width_pos {n : ℕ} (hn : 0 < n) (j : ℕ) : 0 < width n j :=
  lt_width_iff.mpr (by rw [zero_mul]; exact hn)

/-- Over a multiple of `2 ^ j`, the level has exactly `n / 2 ^ j` nodes. -/
theorem width_of_dvd {n j : ℕ} (h : 2 ^ j ∣ n) : width n j = n / 2 ^ j := by
  obtain ⟨q, rfl⟩ := h
  have hpos : 0 < 2 ^ j := Nat.two_pow_pos j
  unfold width
  rw [Nat.mul_div_cancel_left q hpos]
  apply Nat.div_eq_of_lt_le
  · rw [mul_comm]
    omega
  · rw [add_one_mul, mul_comm]
    omega

/-- Otherwise the last node is partial. -/
theorem width_of_not_dvd {n j : ℕ} (h : ¬2 ^ j ∣ n) : width n j = n / 2 ^ j + 1 := by
  have hpos : 0 < 2 ^ j := Nat.two_pow_pos j
  have hmod : 0 < n % 2 ^ j := Nat.pos_of_ne_zero fun h0 => h (Nat.dvd_of_mod_eq_zero h0)
  have hlt := Nat.mod_lt n hpos
  have hdiv := Nat.div_add_mod n (2 ^ j)
  unfold width
  apply Nat.div_eq_of_lt_le
  · rw [add_mul, one_mul, mul_comm]
    omega
  · rw [add_mul, add_mul, one_mul, mul_comm]
    omega

/-- A single node is left exactly from level `Nat.clog 2 n` on. -/
theorem width_eq_one_iff {n j : ℕ} (hn : 0 < n) : width n j = 1 ↔ Nat.clog 2 n ≤ j := by
  rw [Nat.clog_le_iff_le_pow (by norm_num)]
  have hpos : 0 < 2 ^ j := Nat.two_pow_pos j
  constructor
  · intro h
    have := lt_width_iff.not.mp (by rw [h]; omega : ¬1 < width n j)
    omega
  · intro h
    have h1 := width_pos hn j
    have h2 : ¬1 < width n j := lt_width_iff.not.mpr (by omega)
    omega

end Width

variable [Inhabited α]

/-- The root of the tree of depth `d` over `l`: the left subtree over the first
`2 ^ (d - 1)` leaves and the right one over the rest, or the left one twice if
there is no rest. -/
def treeRoot : ℕ → List α → α
  | 0, l => l.headD default
  | d + 1, l =>
    if l.length ≤ 2 ^ d then hash (treeRoot d l) (treeRoot d l)
    else hash (treeRoot d (l.take (2 ^ d))) (treeRoot d (l.drop (2 ^ d)))

/-- Node `i` of level `j`: the root of depth `j` over its block of `2 ^ j` leaves. -/
def node (l : List α) (j i : ℕ) : α := treeRoot hash j ((l.drop (i * 2 ^ j)).take (2 ^ j))

/-- The root of the tree, built level by level while a level has more than one
node; `default` over no leaves. -/
def root (l : List α) : α := if 1 < l.length then root (levelUp hash l) else l.headD default
termination_by l.length
decreasing_by rw [length_levelUp]; omega

/-- The levels of the tree, from the leaves up to the level of the root. -/
def levels (l : List α) : List (List α) := if 1 < l.length then l :: levels (levelUp hash l) else [l]
termination_by l.length
decreasing_by rw [length_levelUp]; omega

section Nodes

theorem node_zero (l : List α) (i : ℕ) : node hash l 0 i = l.getD i default := by
  rw [node, treeRoot, pow_zero, mul_one, List.getD_eq_getElem?_getD, List.headD_eq_head?_getD,
    List.head?_take, List.head?_drop]
  simp

/-- A node is the hash of its two children, or of its left child with itself
when the level below ends there. -/
theorem node_succ (l : List α) (j i : ℕ) :
    node hash l (j + 1) i = hash (node hash l j (2 * i))
      (if 2 * i + 1 < width l.length j then node hash l j (2 * i + 1) else node hash l j (2 * i)) := by
  -- the blocks in terms of the start `Q` of the left child's and the width `P` of a child's
  obtain ⟨P, hP⟩ : ∃ P, 2 ^ j = P := ⟨_, rfl⟩
  obtain ⟨Q, hQ⟩ : ∃ Q, i * P = Q := ⟨_, rfl⟩
  have hpow : 2 ^ (j + 1) = P + P := by rw [pow_succ, hP]; ring
  have hparent : i * (P + P) = Q + Q := by rw [← hQ]; ring
  have hleft : 2 * i * P = Q + Q := by rw [← hQ]; ring
  have hright : (2 * i + 1) * P = Q + Q + P := by rw [← hQ]; ring
  simp only [lt_width_iff, node, treeRoot, hpow, hP]
  simp only [hparent, hleft, hright]
  rw [List.take_take, List.drop_take, List.drop_drop, Nat.min_eq_left (by omega), Nat.add_sub_cancel,
    List.length_take, List.length_drop]
  have hPpos : 0 < P := hP ▸ Nat.two_pow_pos j
  by_cases h : Q + Q + P < l.length
  · rw [if_neg (show ¬min (P + P) (l.length - (Q + Q)) ≤ P by omega), if_pos h]
  · -- no right child: the parent's block is the left child's
    have hblock : (l.drop (Q + Q)).take (P + P) = (l.drop (Q + Q)).take P := by
      rw [List.take_eq_take_iff, List.length_drop]
      omega
    rw [if_pos (show min (P + P) (l.length - (Q + Q)) ≤ P by omega), if_neg h, hblock]

/-- The levels of the tree are made of its nodes. -/
theorem getElem?_iterate_levelUp (l : List α) :
    ∀ (j i : ℕ), ((levelUp hash)^[j] l)[i]? = if i < width l.length j then some (node hash l j i) else none
  | 0, i => by
    rw [Function.iterate_zero_apply, width_zero, node_zero, List.getD_eq_getElem?_getD]
    split_ifs with h
    · rw [List.getElem?_eq_getElem h, Option.getD_some]
    · rw [List.getElem?_eq_none (by omega)]
  | j + 1, i => by
    rw [Function.iterate_succ_apply', getElem?_levelUp, getElem?_iterate_levelUp l j (2 * i),
      getElem?_iterate_levelUp l j (2 * i + 1), width_succ]
    by_cases h : 2 * i < width l.length j
    · have hi : i < (width l.length j + 1) / 2 := by omega
      rw [if_pos h, if_pos hi, Option.map_some, node_succ]
      by_cases h1 : 2 * i + 1 < width l.length j
      · rw [if_pos h1, if_pos h1, Option.getD_some]
      · rw [if_neg h1, if_neg h1, Option.getD_none]
    · rw [if_neg h, if_neg (show ¬i < (width l.length j + 1) / 2 by omega), Option.map_none]

omit [Inhabited α] in
theorem length_iterate_levelUp (l : List α) (j : ℕ) : ((levelUp hash)^[j] l).length = width l.length j := by
  induction j with
  | zero => rw [Function.iterate_zero_apply, width_zero]
  | succ j ih => rw [Function.iterate_succ_apply', length_levelUp, ih, width_succ]

/-- One level up, the nodes are those one level higher over the leaves. -/
theorem node_levelUp (l : List α) (j i : ℕ) (hi : i < width l.length (j + 1)) :
    node hash (levelUp hash l) j i = node hash l (j + 1) i := by
  have h := getElem?_iterate_levelUp hash l (j + 1) i
  rw [Function.iterate_succ_apply, getElem?_iterate_levelUp, if_pos hi, length_levelUp,
    show (l.length + 1) / 2 = width l.length 1 by rw [width_succ, width_zero], width_width, Nat.add_comm,
    if_pos hi] at h
  exact Option.some.inj h

/-- The root is the one node of the level where a single node is left. -/
theorem root_eq_node (l : List α) (hl : l ≠ []) : root hash l = node hash l (Nat.clog 2 l.length) 0 := by
  have hpos : 0 < l.length := List.length_pos_iff.mpr hl
  rw [root]
  split_ifs with h
  · -- at least two leaves: the root of the level above
    have hup : levelUp hash l ≠ [] := by
      rw [← List.length_pos_iff, length_levelUp]
      omega
    rw [root_eq_node (levelUp hash l) hup, length_levelUp, Nat.clog_of_two_le (by norm_num) h,
      show l.length + 2 - 1 = l.length + 1 by omega, node_levelUp]
    exact width_pos hpos _
  · -- a single leaf
    have h1 : l.length = 1 := by omega
    rw [h1, Nat.clog_one_right, node_zero, List.getD_eq_getElem?_getD, List.headD_eq_head?_getD,
      List.head?_eq_getElem?]
termination_by l.length
decreasing_by rw [length_levelUp]; omega

/-- The sibling of node `i` of level `j`: its right neighbour, itself at the end
of an odd level, or its left neighbour. -/
def sibling (l : List α) (j i : ℕ) : α :=
  if i % 2 = 0 then (if i + 1 < width l.length j then node hash l j (i + 1) else node hash l j i)
  else node hash l j (i - 1)

/-- The branch of leaf `p` up to level `d`: the siblings of its nodes below. -/
def branch (l : List α) (p d : ℕ) : List α := (List.range d).map fun j => sibling hash l j (p / 2 ^ j)

theorem branch_zero (l : List α) (p : ℕ) : branch hash l p 0 = [] := rfl

theorem branch_succ (l : List α) (p d : ℕ) :
    branch hash l p (d + 1) = branch hash l p d ++ [sibling hash l d (p / 2 ^ d)] := by
  rw [branch, branch, List.range_succ, List.map_append, List.map_singleton]

theorem div_two_pow_succ (x j : ℕ) : x / 2 ^ (j + 1) = x / 2 ^ j / 2 := by
  rw [pow_succ, Nat.div_div_eq_div_mul]

/-- Along the path of leaf `p`, a node is the hash of the one below with its
sibling, on the side the low bit of the index gives. -/
theorem node_succ_sibling (l : List α) {p : ℕ} (hp : p < l.length) (j : ℕ) :
    node hash l (j + 1) (p / 2 ^ (j + 1)) =
      if p / 2 ^ j % 2 = 1 then hash (sibling hash l j (p / 2 ^ j)) (node hash l j (p / 2 ^ j))
      else hash (node hash l j (p / 2 ^ j)) (sibling hash l j (p / 2 ^ j)) := by
  obtain ⟨i, hi⟩ : ∃ i, p / 2 ^ j = i := ⟨_, rfl⟩
  have hlt : i < width l.length j := lt_width_iff.mpr (lt_of_le_of_lt (hi ▸ Nat.div_mul_le_self p (2 ^ j)) hp)
  rw [div_two_pow_succ, hi, node_succ, sibling]
  by_cases hodd : i % 2 = 1
  · -- a right child: its left neighbour is the sibling
    rw [show 2 * (i / 2) + 1 = i by omega, show 2 * (i / 2) = i - 1 by omega, if_pos hlt, if_pos hodd,
      if_neg (show ¬i % 2 = 0 by omega)]
  · rw [show 2 * (i / 2) = i by omega, if_neg hodd, if_pos (show i % 2 = 0 by omega)]

/-- Whether a level pairs two equal nodes at an even position. -/
def pairsEqual [DecidableEq α] : List α → Bool
  | a :: b :: rest => decide (a = b) || pairsEqual rest
  | _ => false

/-- Two sibling nodes, both roots of complete subtrees of `2 ^ j` leaves, are equal. -/
def EqualCompleteSiblings (l : List α) : Prop :=
  ∃ j i, (2 * i + 2) * 2 ^ j ≤ l.length ∧ node hash l j (2 * i) = node hash l j (2 * i + 1)

end Nodes

end MerkleTree
