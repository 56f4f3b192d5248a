import Mathlib.Data.Nat.Bitwise
import Mathlib.Data.Nat.Size
import Mathlib.Tactic.Ring

/-!
# Little-endian 32-bit limbs

Lists of `UInt32` limbs read least significant first, as the word arrays of
schoolbook big-integer code keep them, with a 64-bit accumulator for its carry
loops.  `carryLoop` keeps the low half of each column sum as the limb and
carries the high half into the next column; `val_carryLoop` reads it as the sum
of its columns modulo the width.  A value is determined by its bits
(`testBit_val`, `val_eq_of_testBit`), so loops that OR words into limbs are read
bit by bit (`testBit_val_modify_or`); the limbs from the top decide comparisons
(`val_lt_of_top_lt`) and the bit length (`size_val_append`).
-/

namespace Limbs

/-- The value of limbs, least significant first. -/
def val : List UInt32 → ℕ
  | [] => 0
  | w :: ws => w.toNat + 2 ^ 32 * val ws

/-- The value of column sums of any size at the positions of limbs. -/
def columns : List ℕ → ℕ
  | [] => 0
  | x :: xs => x + 2 ^ 32 * columns xs

/-- The carry loop: column `x` makes the accumulator `step carry x`, of which
the low 32 bits are the limb and the high 32 bits the next carry. -/
def carryLoop {β : Type} (step : UInt64 → β → UInt64) : List β → UInt64 → List UInt32
  | [], _ => []
  | x :: xs, carry =>
    let n := step carry x
    (n &&& 0xffffffff).toUInt32 :: carryLoop step xs (n >>> 32)

@[simp] theorem val_nil : val [] = 0 := rfl

@[simp] theorem val_cons (w : UInt32) (ws : List UInt32) : val (w :: ws) = w.toNat + 2 ^ 32 * val ws := rfl

@[simp] theorem columns_nil : columns [] = 0 := rfl

@[simp] theorem columns_cons (x : ℕ) (xs : List ℕ) : columns (x :: xs) = x + 2 ^ 32 * columns xs := rfl

theorem val_lt : ∀ l : List UInt32, val l < 2 ^ (32 * l.length)
  | [] => by simp
  | w :: ws => by
    have hw := w.toNat_lt
    have ih := val_lt ws
    rw [val_cons, List.length_cons, Nat.mul_succ, pow_add, mul_comm (2 ^ (32 * ws.length))]
    calc w.toNat + 2 ^ 32 * val ws < 2 ^ 32 + 2 ^ 32 * val ws := by omega
      _ = 2 ^ 32 * (val ws + 1) := by ring
      _ ≤ 2 ^ 32 * 2 ^ (32 * ws.length) := Nat.mul_le_mul_left _ ih

theorem val_append : ∀ l r : List UInt32, val (l ++ r) = val l + 2 ^ (32 * l.length) * val r
  | [], r => by simp
  | w :: ws, r => by
    rw [List.cons_append, val_cons, val_append ws r, val_cons, List.length_cons, Nat.mul_succ, pow_add]
    ring

theorem val_take_drop (l : List UInt32) {j : ℕ} (hj : j ≤ l.length) :
    val l = val (l.take j) + 2 ^ (32 * j) * val (l.drop j) := by
  conv_lhs => rw [← List.take_append_drop j l]
  rw [val_append, List.length_take_of_le hj]

theorem val_replicate_zero : ∀ n, val (List.replicate n 0) = 0
  | 0 => rfl
  | n + 1 => by rw [List.replicate_succ, val_cons, val_replicate_zero n]; rfl

theorem val_map_complement (l : List UInt32) : val (l.map (~~~ ·)) = 2 ^ (32 * l.length) - 1 - val l := by
  induction l with
  | nil => rfl
  | cons w ws ih =>
    have hw := w.toNat_lt
    have hws := val_lt ws
    rw [List.map_cons, val_cons, val_cons, ih, UInt32.toNat_not, List.length_cons, Nat.mul_succ, pow_add,
      mul_comm (2 ^ (32 * ws.length))]
    obtain ⟨P, hP⟩ : ∃ P, 2 ^ (32 * ws.length) = P := ⟨_, rfl⟩
    rw [hP] at hws ⊢
    unfold UInt32.size
    omega

theorem length_carryLoop {β : Type} (step : UInt64 → β → UInt64) :
    ∀ (xs : List β) (c : UInt64), (carryLoop step xs c).length = xs.length
  | [], _ => rfl
  | _ :: xs, _ => by rw [carryLoop, List.length_cons, length_carryLoop step xs, List.length_cons]

theorem low_half (n : UInt64) : (n &&& 0xffffffff).toUInt32.toNat = n.toNat % 2 ^ 32 := by
  rw [UInt64.toNat_toUInt32, UInt64.toNat_and, show (0xffffffff : UInt64).toNat = 2 ^ 32 - 1 from rfl,
    Nat.and_two_pow_sub_one_eq_mod, Nat.mod_mod]

theorem high_half (n : UInt64) : (n >>> 32).toNat = n.toNat / 2 ^ 32 := by
  rw [UInt64.toNat_shiftRight, show (32 : UInt64).toNat % 64 = 32 from rfl, Nat.shiftRight_eq_div_pow]

/-- A number below `2 ^ k` under `2 ^ k` times another, modulo a higher power. -/
theorem add_mul_mod_pow {L k : ℕ} (Y m : ℕ) (hL : L < 2 ^ k) : (L + 2 ^ k * Y) % 2 ^ (k + m) = L + 2 ^ k * (Y % 2 ^ m) := by
  rw [pow_add, Nat.mod_mul, Nat.add_mul_mod_self_left, Nat.mod_eq_of_lt hL, Nat.add_mul_div_left _ _ (Nat.two_pow_pos k),
    Nat.div_eq_of_lt hL, Nat.zero_add]

/-- The bits of a limb shifted up by `s < 32`, within the limb. -/
theorem testBit_shiftLeft (x : UInt32) {s : ℕ} (hs : s < 32) (b : ℕ) :
    (x <<< s.toUInt32).toNat.testBit b = (decide (b < 32) && decide (s ≤ b) && x.toNat.testBit (b - s)) := by
  rw [UInt32.toNat_shiftLeft, Nat.toUInt32, UInt32.toNat_ofNat_of_lt' (by unfold UInt32.size; omega), Nat.mod_eq_of_lt hs,
    Nat.testBit_mod_two_pow, Nat.testBit_shiftLeft, Bool.and_assoc]

/-- The bits of a limb shifted down by `t < 32`. -/
theorem testBit_shiftRight (x : UInt32) {t : ℕ} (ht : t < 32) (b : ℕ) :
    (x >>> t.toUInt32).toNat.testBit b = x.toNat.testBit (t + b) := by
  rw [UInt32.toNat_shiftRight, Nat.toUInt32, UInt32.toNat_ofNat_of_lt' (by unfold UInt32.size; omega), Nat.mod_eq_of_lt ht,
    Nat.testBit_shiftRight]

/-- The digit of a column sum and what it carries. -/
theorem mod_carry (n R k : ℕ) : (n + 2 ^ 32 * R) % 2 ^ (32 * (k + 1)) = n % 2 ^ 32 +
    2 ^ 32 * ((R + n / 2 ^ 32) % 2 ^ (32 * k)) := by
  rw [Nat.mul_succ, pow_add, mul_comm (2 ^ (32 * k)), Nat.mod_mul, Nat.add_mul_mod_self_left,
    Nat.add_mul_div_left _ _ (Nat.two_pow_pos 32), add_comm (n / 2 ^ 32)]

section Carry

variable {β : Type} {step : UInt64 → β → UInt64} {g : β → ℕ}

/-- A carry loop whose columns, each at most `2 ^ 64 - 2 ^ 32`, never overflow
the accumulator adds them modulo the width; the final carry is dropped. -/
theorem val_carryLoop : ∀ (xs : List β) (c : UInt64),
    (∀ c : UInt64, c.toNat < 2 ^ 32 → ∀ x ∈ xs, (step c x).toNat = c.toNat + g x) →
    (∀ x ∈ xs, g x ≤ 2 ^ 64 - 2 ^ 32) → c.toNat < 2 ^ 32 →
    val (carryLoop step xs c) = (columns (xs.map g) + c.toNat) % 2 ^ (32 * xs.length)
  | [], _, _, _, _ => by rw [carryLoop, val_nil, List.length_nil, Nat.mul_zero, pow_zero, Nat.mod_one]
  | x :: xs, c, hstep, hg, hc => by
    have hn := hstep c hc x List.mem_cons_self
    have hgx := hg x List.mem_cons_self
    -- the carry out of a column stays below a limb
    have hcarry : (step c x >>> 32).toNat < 2 ^ 32 := by
      rw [high_half, hn]
      omega
    rw [carryLoop, val_cons, low_half,
      val_carryLoop xs _ (fun c hc y hy => hstep c hc y (List.mem_cons_of_mem x hy))
        (fun y hy => hg y (List.mem_cons_of_mem x hy)) hcarry,
      high_half, hn, List.map_cons, columns_cons, List.length_cons,
      show g x + 2 ^ 32 * columns (xs.map g) + c.toNat = (c.toNat + g x) + 2 ^ 32 * columns (xs.map g) by ring,
      mod_carry]

end Carry

theorem columns_map_mul (f : ℕ) : ∀ l : List UInt32, columns (l.map fun p => f * p.toNat) = f * val l
  | [] => by simp
  | p :: ps => by
    rw [List.map_cons, columns_cons, columns_map_mul f ps, val_cons]
    ring

/-- Columns that add a limb of `l` and `f` times a limb of `r`, over the length of `l`. -/
theorem columns_zip_add_mul (f : ℕ) : ∀ l r : List UInt32,
    columns ((l.zip r).map fun pq => pq.1.toNat + f * pq.2.toNat) = val (l.take r.length) +
      f * val (r.take l.length)
  | [], _ => by simp
  | _ :: _, [] => by simp
  | p :: ps, q :: qs => by
    rw [List.zip_cons_cons, List.map_cons, columns_cons, columns_zip_add_mul f ps qs, List.length_cons,
      List.length_cons, List.take_succ_cons, List.take_succ_cons, val_cons, val_cons]
    ring

theorem testBit_val : ∀ (l : List UInt32) (m : ℕ), (val l).testBit m = (l.getD (m / 32) 0).toNat.testBit (m % 32)
  | [], m => by simp
  | w :: ws, m => by
    rw [val_cons]
    by_cases hm : m < 32
    · -- a bit of the lowest limb
      have hlow : (w.toNat + 2 ^ 32 * val ws) % 2 ^ 32 = w.toNat := by
        rw [Nat.add_mul_mod_self_left, Nat.mod_eq_of_lt w.toNat_lt]
      have h := Nat.testBit_mod_two_pow (w.toNat + 2 ^ 32 * val ws) 32 m
      rw [hlow, decide_eq_true hm, Bool.true_and] at h
      rw [← h, Nat.div_eq_of_lt hm, Nat.mod_eq_of_lt hm, List.getD_cons_zero]
    · obtain ⟨m', rfl⟩ : ∃ m', m = m' + 32 := ⟨m - 32, by omega⟩
      rw [Nat.testBit_add, Nat.add_mul_div_left _ _ (Nat.two_pow_pos 32), Nat.div_eq_of_lt w.toNat_lt,
        Nat.zero_add, testBit_val ws m', Nat.add_div_right _ (by norm_num), List.getD_cons_succ, Nat.add_mod_right]

/-- The bits of limb `i` are those of the value from bit `32 * i` on. -/
theorem testBit_getD (l : List UInt32) (i j : ℕ) :
    (l.getD i 0).toNat.testBit j = (decide (j < 32) && (val l).testBit (32 * i + j)) := by
  by_cases hj : j < 32
  · rw [testBit_val, show (32 * i + j) / 32 = i by omega, show (32 * i + j) % 32 = j by omega, decide_eq_true hj,
      Bool.true_and]
  · rw [decide_eq_false hj, Bool.false_and]
    exact Nat.testBit_lt_two_pow (lt_of_lt_of_le (l.getD i 0).toNat_lt (Nat.pow_le_pow_right (by norm_num) (by omega)))

/-- Limbs whose bits below their width are those of `N` hold `N` modulo the width. -/
theorem val_eq_of_testBit {l : List UInt32} {N : ℕ} (h : ∀ m < 32 * l.length, (val l).testBit m = N.testBit m) :
    val l = N % 2 ^ (32 * l.length) := by
  apply Nat.eq_of_testBit_eq
  intro m
  rw [Nat.testBit_mod_two_pow]
  by_cases hm : m < 32 * l.length
  · rw [decide_eq_true hm, Bool.true_and, h m hm]
  · rw [decide_eq_false hm, Bool.false_and]
    exact Nat.testBit_lt_two_pow (lt_of_lt_of_le (val_lt l) (Nat.pow_le_pow_right (by norm_num) (by omega)))

/-- OR-ing a word into limb `t` sets its bits at the positions of that limb. -/
theorem testBit_val_modify_or (l : List UInt32) (t : ℕ) (v : UInt32) (m : ℕ) :
    (val (l.modify t (· ||| v))).testBit m =
      ((val l).testBit m || decide (m / 32 = t ∧ t < l.length) && v.toNat.testBit (m % 32)) := by
  rw [testBit_val, testBit_val, List.getD_eq_getElem?_getD, List.getD_eq_getElem?_getD, List.getElem?_modify]
  by_cases ht : m / 32 = t ∧ t < l.length
  · obtain ⟨rfl, hlt⟩ := ht
    rw [List.getElem?_eq_getElem hlt, decide_eq_true ⟨rfl, hlt⟩, Bool.true_and]
    simp only [Option.map_eq_map, Option.map_some, if_pos, Option.getD_some, UInt32.toNat_or, Nat.testBit_or]
  · rw [decide_eq_false ht, Bool.false_and, Bool.or_false]
    by_cases hmt : m / 32 = t
    · have hge : l.length ≤ m / 32 := by omega
      rw [List.getElem?_eq_none hge]
      rfl
    · rcases l[m / 32]? with _ | a
      · rfl
      · simp only [Option.map_eq_map, Option.map_some, if_neg (Ne.symm hmt), Option.getD_some]

/-- A guarded OR into limb `t` sets its bits where the guard holds. -/
theorem testBit_val_ite_modify_or (c : Prop) [Decidable c] (l : List UInt32) (t : ℕ) (v : UInt32) (m : ℕ) :
    (val (if c then l.modify t (· ||| v) else l)).testBit m =
      ((val l).testBit m || decide (c ∧ m / 32 = t ∧ t < l.length) && v.toNat.testBit (m % 32)) := by
  by_cases hc : c
  · rw [if_pos hc, testBit_val_modify_or]
    simp only [hc, true_and]
  · rw [if_neg hc]
    simp only [hc, false_and, decide_false, Bool.false_and, Bool.or_false]

theorem length_ite_modify (c : Prop) [Decidable c] (l : List UInt32) (t : ℕ) (f : UInt32 → UInt32) :
    (if c then l.modify t f else l).length = l.length := by
  split_ifs
  · exact List.length_modify f l t
  · rfl

/-- The top limbs decide the order of limbs of equal length. -/
theorem val_lt_of_top_lt {l r : List UInt32} (hlen : l.length = r.length) {a b : UInt32}
    (hab : a.toNat < b.toNat) : val (l ++ [a]) < val (r ++ [b]) := by
  have hl := val_lt l
  rw [val_append, val_append, val_cons, val_cons, val_nil, ← hlen]
  calc val l + 2 ^ (32 * l.length) * (a.toNat + 2 ^ 32 * 0)
      < 2 ^ (32 * l.length) * (a.toNat + 1) := by rw [mul_zero, add_zero, mul_add, mul_one]; omega
    _ ≤ 2 ^ (32 * l.length) * b.toNat := Nat.mul_le_mul_left _ hab
    _ ≤ val r + 2 ^ (32 * l.length) * (b.toNat + 2 ^ 32 * 0) := by rw [mul_zero, add_zero]; omega

/-- The bit length of `x + 2 ^ k * w` for `x` below `2 ^ k` and `w` positive. -/
theorem size_add_two_pow_mul {x k w : ℕ} (hx : x < 2 ^ k) (hw : 0 < w) : Nat.size (x + 2 ^ k * w) = k + Nat.size w := by
  have hws := Nat.lt_size_self w
  have hpos : 0 < Nat.size w := Nat.size_pos.mpr hw
  apply le_antisymm
  · rw [Nat.size_le, pow_add]
    calc x + 2 ^ k * w < 2 ^ k * (w + 1) := by rw [mul_add, mul_one]; omega
      _ ≤ 2 ^ k * 2 ^ Nat.size w := Nat.mul_le_mul_left _ hws
  · have hlow : 2 ^ (Nat.size w - 1) ≤ w := Nat.lt_size.mp (by omega)
    have h := Nat.lt_size.mpr (show 2 ^ (k + (Nat.size w - 1)) ≤ x + 2 ^ k * w by
      rw [pow_add]
      exact le_trans (Nat.mul_le_mul_left _ hlow) (Nat.le_add_left _ _))
    omega

/-- The bit length of limbs with a nonzero top limb. -/
theorem size_val_append (l : List UInt32) {w : UInt32} (hw : w ≠ 0) :
    Nat.size (val (l ++ [w])) = 32 * l.length + Nat.size w.toNat := by
  have hpos : 0 < w.toNat := Nat.pos_of_ne_zero fun h => hw (UInt32.toNat_inj.mp h)
  rw [val_append, val_cons, val_nil, mul_zero, add_zero]
  exact size_add_two_pow_mul (val_lt l) hpos

end Limbs
