import Mathlib.Data.Nat.Digits.Defs
import Mathlib.Data.List.DropRight

/-!
# Digit buffers

A number held in a fixed-size buffer of digits in some radix, least significant
first, of which only the first `length` are in use: from there on every digit
is zero.  `mulAddLoop` is the in-place `buffer = buffer * mul + carry` of base
conversion loops over such a buffer: it walks the digits while there is a carry
or a digit in use, and the count of digits it passed is the new `length`.

When the product fits the buffer, the loop ends with no carry, and the buffer
holds the product with the same zero tail (`mulAddLoop_step`).  The digits in
use, most significant first and past their leading zeros, are the digits of the
number (`dropWhile_reverse_take`).  `pow_le_pow_of_period` turns the bound of one
period into a bound of every length, the form in which a buffer's size is given
as a rational multiple of the input's.
-/

namespace DigitBuffer

/-- `carry += mul * d; d = carry % radix; carry /= radix` over the digits from
the least significant, while the carry is not zero or the digit is one of the
first `length`; the digits, the carry left and the number of digits passed. -/
def mulAddLoop (mul radix length : ℕ) : ℕ → ℕ → List ℕ → List ℕ × ℕ × ℕ
  | carry, i, [] => ([], carry, i)
  | carry, i, d :: ds =>
    if carry ≠ 0 ∨ i < length then
      let carry := carry + mul * d
      let r := mulAddLoop mul radix length (carry / radix) (i + 1) ds
      (carry % radix :: r.1, r.2)
    else (d :: ds, carry, i)

/-- Every digit from position `n` on is zero. -/
def ZeroFrom (n : ℕ) (ds : List ℕ) : Prop := ∀ x ∈ ds.drop n, x = 0

/-- A buffer of `size` digits below `radix`, of which the first `length` are in use. -/
structure Valid (radix size length : ℕ) (ds : List ℕ) : Prop where
  length_eq : ds.length = size
  lt_radix : ∀ x ∈ ds, x < radix
  zeroFrom : ZeroFrom length ds

/-- The buffer can take `n` more digits below `mul` without passing `radix ^ size`. -/
def Fits (mul radix size value n : ℕ) : Prop := (value + 1) * mul ^ n ≤ radix ^ size

section ZeroFrom

variable {n : ℕ} {d : ℕ} {ds : List ℕ}

theorem ZeroFrom.tail (h : ZeroFrom (n + 1) (d :: ds)) : ZeroFrom n ds := h

theorem ZeroFrom.cons (hd : n = 0 → d = 0) (h : ZeroFrom (n - 1) ds) : ZeroFrom n (d :: ds) := by
  cases n with
  | zero =>
    intro x hx
    rcases List.mem_cons.mp hx with rfl | hx
    · exact hd rfl
    · exact h x hx
  | succ n => exact h

theorem ZeroFrom.mono {m : ℕ} (h : ZeroFrom n ds) (hnm : n ≤ m) : ZeroFrom m ds := by
  intro x hx
  rw [show m = n + (m - n) by omega, ← List.drop_drop] at hx
  exact h x (List.mem_of_mem_drop hx)

/-- The digits past `n` add nothing. -/
theorem ofDigits_take (b : ℕ) (h : ZeroFrom n ds) : Nat.ofDigits b (ds.take n) = Nat.ofDigits b ds := by
  have hdrop : ds.drop n = List.replicate (ds.drop n).length 0 := List.eq_replicate_iff.mpr ⟨rfl, h⟩
  conv_rhs => rw [← List.take_append_drop n ds, hdrop, Nat.ofDigits_append_replicate_zero]

theorem ZeroFrom.tail' (h : ZeroFrom n (d :: ds)) : ZeroFrom (n - 1) ds := by
  cases n with
  | zero => exact fun x hx => h x (List.mem_cons_of_mem d hx)
  | succ n => exact h

theorem ofDigits_eq_zero (b : ℕ) (h : ZeroFrom 0 ds) : Nat.ofDigits b ds = 0 := by
  rw [← ofDigits_take b h, List.take_zero, Nat.ofDigits_nil]

/-- A fresh buffer: all zeros, none in use. -/
theorem valid_replicate {radix : ℕ} (hradix : 0 < radix) (size : ℕ) :
    Valid radix size 0 (List.replicate size 0) :=
  ⟨List.length_replicate, fun _ hx => (List.eq_of_mem_replicate hx).symm ▸ hradix,
    fun _ hx => List.eq_of_mem_replicate (List.mem_of_mem_drop hx)⟩

@[simp] theorem ofDigits_replicate_zero' (b size : ℕ) : Nat.ofDigits b (List.replicate size 0) = 0 :=
  Nat.ofDigits_replicate_zero

end ZeroFrom

section Loop

variable {mul radix length : ℕ}

/-- The loop computes `buffer * mul + carry`, the carry left standing for the
digits past the buffer's end.  The induction follows the loop down the buffer;
where it stops early, the digits left are past `length` and zero. -/
theorem mulAddLoop_spec (hradix : 0 < radix) : ∀ (ds : List ℕ) {carry i carry' i' : ℕ} {ds' : List ℕ},
    ZeroFrom (length - i) ds → mulAddLoop mul radix length carry i ds = (ds', carry', i') →
      Nat.ofDigits radix ds' + radix ^ ds.length * carry' = Nat.ofDigits radix ds * mul + carry ∧
        ds'.length = ds.length ∧ (∀ x ∈ ds', x < radix) ∧ i ≤ i' ∧ ZeroFrom (i' - i) ds'
  | [], carry, i, carry', i', ds', _, h => by
    simp only [mulAddLoop, Prod.mk.injEq] at h
    obtain ⟨rfl, rfl, rfl⟩ := h
    simp [ZeroFrom]
  | d :: ds, carry, i, carry', i', ds', hzero, h => by
    rw [mulAddLoop] at h
    split_ifs at h with hgo
    · -- the digit is rewritten, and the loop goes on with the carry out of it
      rcases hr : mulAddLoop mul radix length ((carry + mul * d) / radix) (i + 1) ds with ⟨ds₁, carry₁, i₁⟩
      simp only [hr, Prod.mk.injEq] at h
      obtain ⟨rfl, rfl, rfl⟩ := h
      obtain ⟨hval, hlen, hdigits, hi, hzero₁⟩ :=
        mulAddLoop_spec hradix ds (by simpa [Nat.sub_sub] using hzero.tail') hr
      refine ⟨?_, by simp [hlen], ?_, by omega, ?_⟩
      · -- the digit written and the carry out of it make up `carry + mul * d`
        have hdiv := Nat.mod_add_div (carry + mul * d) radix
        rw [Nat.ofDigits_cons, Nat.ofDigits_cons, List.length_cons, pow_succ]
        calc (carry + mul * d) % radix + radix * Nat.ofDigits radix ds₁ + radix ^ ds.length * radix * carry₁
            = (carry + mul * d) % radix + radix * (Nat.ofDigits radix ds₁ + radix ^ ds.length * carry₁) := by ring
          _ = (carry + mul * d) % radix + radix * ((carry + mul * d) / radix) + radix * (Nat.ofDigits radix ds * mul) := by
              rw [hval]; ring
          _ = (d + radix * Nat.ofDigits radix ds) * mul + carry := by rw [hdiv]; ring
      · intro x hx
        rcases List.mem_cons.mp hx with rfl | hx
        · exact Nat.mod_lt _ hradix
        · exact hdigits x hx
      · exact ZeroFrom.cons (fun h => by omega) (by rwa [show i₁ - i - 1 = i₁ - (i + 1) by omega])
    · -- no carry and no digit in use: the digits left are zero
      simp only [Prod.mk.injEq] at h
      obtain ⟨rfl, rfl, rfl⟩ := h
      obtain ⟨hcarry, hi⟩ : carry = 0 ∧ length ≤ i := by omega
      subst hcarry
      have hz : ZeroFrom 0 (d :: ds) := by
        rwa [show length - i = 0 by omega] at hzero
      have hval := ofDigits_eq_zero radix hz
      refine ⟨by rw [hval]; simp, rfl, fun x hx => ?_, le_rfl, by rwa [Nat.sub_self]⟩
      rw [hz x (by simpa using hx)]
      exact hradix

/-- When `buffer * mul + x` fits, the loop from `x` leaves no carry, and the
buffer then takes one digit fewer. -/
theorem mulAddLoop_step (hradix : 0 < radix) {size n x : ℕ} {ds : List ℕ} (hv : Valid radix size length ds)
    (hfits : Fits mul radix size (Nat.ofDigits radix ds) (n + 1)) (hx : x < mul) :
    ∃ ds' i', mulAddLoop mul radix length x 0 ds = (ds', 0, i') ∧ Valid radix size i' ds' ∧
      Nat.ofDigits radix ds' = Nat.ofDigits radix ds * mul + x ∧
        Fits mul radix size (Nat.ofDigits radix ds * mul + x) n := by
  rcases hr : mulAddLoop mul radix length x 0 ds with ⟨ds', carry', i'⟩
  obtain ⟨hval, hlen', hdigits, -, hzero'⟩ := mulAddLoop_spec hradix ds (by simpa using hv.zeroFrom) hr
  rw [hv.length_eq] at hval hlen'
  set value := Nat.ofDigits radix ds
  have hpow : 1 ≤ mul ^ n := Nat.one_le_pow _ _ (by omega)
  -- the new value stays below the old bound
  have hnext : (value * mul + x + 1) * mul ^ n ≤ radix ^ size :=
    calc (value * mul + x + 1) * mul ^ n ≤ (value + 1) * mul * mul ^ n :=
          Nat.mul_le_mul_right _ (by nlinarith)
      _ = (value + 1) * mul ^ (n + 1) := by ring
      _ ≤ radix ^ size := hfits
  have hlt : value * mul + x < radix ^ size := by
    have : value * mul + x + 1 ≤ (value * mul + x + 1) * mul ^ n := Nat.le_mul_of_pos_right _ hpow
    omega
  have hcarry : carry' = 0 := by
    by_contra hne
    have : radix ^ size ≤ radix ^ size * carry' := Nat.le_mul_of_pos_right _ (Nat.pos_of_ne_zero hne)
    omega
  subst hcarry
  exact ⟨ds', i', rfl, ⟨hlen', hdigits, by simpa using hzero'⟩, by omega, hnext⟩

end Loop

section Digits

variable {b : ℕ}

/-- A list of digits past its trailing zeros is the digits of its value. -/
theorem digits_ofDigits_eq_rdropWhile (hb : 1 < b) {L : List ℕ} (hL : ∀ x ∈ L, x < b) :
    Nat.digits b (Nat.ofDigits b L) = L.rdropWhile (· == 0) := by
  have hzeros : L.rtakeWhile (· == 0) = List.replicate (L.rtakeWhile (· == 0)).length 0 :=
    List.eq_replicate_iff.mpr ⟨rfl, fun x hx => by simpa using List.mem_rtakeWhile_imp hx⟩
  have hsplit : Nat.ofDigits b L = Nat.ofDigits b (L.rdropWhile (· == 0)) := by
    conv_lhs => rw [← List.rdropWhile_append_rtakeWhile (p := (· == 0)) (l := L), hzeros, Nat.ofDigits_append_replicate_zero]
  rw [hsplit]
  refine Nat.digits_ofDigits b hb _ (fun x hx => hL x ((List.rdropWhile_prefix _ _).subset hx)) fun hne => ?_
  simpa using List.rdropWhile_last_not (· == 0) L hne

/-- The digits in use of a buffer zero past `n`, most significant first and past
their leading zeros, are the digits of its value, most significant first. -/
theorem dropWhile_reverse_take (hb : 1 < b) {size n : ℕ} {ds : List ℕ} (hv : Valid b size n ds) :
    (ds.take n).reverse.dropWhile (· == 0) = (Nat.digits b (Nat.ofDigits b ds)).reverse := by
  rw [← ofDigits_take b hv.zeroFrom,
    digits_ofDigits_eq_rdropWhile hb (fun x hx => hv.lt_radix x (List.mem_of_mem_take hx)),
    List.rdropWhile, List.reverse_reverse]

/-- A valid buffer's value is below `b ^ size`. -/
theorem ofDigits_lt (hb : 1 < b) {size n : ℕ} {ds : List ℕ} (hv : Valid b size n ds) :
    Nat.ofDigits b ds < b ^ size :=
  hv.length_eq ▸ Nat.ofDigits_lt_base_pow_length hb hv.lt_radix

/-- Digits read most significant first, `acc * b + d` at each. -/
theorem foldl_mulAdd (L : List ℕ) (acc : ℕ) :
    L.foldl (fun acc d => acc * b + d) acc = acc * b ^ L.length + Nat.ofDigits b L.reverse := by
  induction L generalizing acc with
  | nil => simp
  | cons d L ih =>
    rw [List.foldl_cons, ih, List.reverse_cons, Nat.ofDigits_append, List.length_reverse,
      Nat.ofDigits_singleton, List.length_cons, pow_succ]
    ring

end Digits

/-- A bound `a ^ n ≤ c ^ (n * q / p + 1)` for every `n`, from the bound of one
period `p` and the bounds below it. -/
theorem pow_le_pow_of_period {a c p q : ℕ} (hp : 0 < p) (hperiod : a ^ p ≤ c ^ q)
    (hres : ∀ r < p, a ^ r ≤ c ^ (r * q / p + 1)) (n : ℕ) : a ^ n ≤ c ^ (n * q / p + 1) := by
  have hn : n = p * (n / p) + n % p := (Nat.div_add_mod n p).symm
  have hdiv : n * q / p = n / p * q + n % p * q / p := by
    conv_lhs => rw [hn]
    rw [Nat.add_mul, Nat.mul_assoc, Nat.mul_add_div hp]
  calc a ^ n = (a ^ p) ^ (n / p) * a ^ (n % p) := by rw [← pow_mul, ← pow_add, ← hn]
    _ ≤ (c ^ q) ^ (n / p) * c ^ (n % p * q / p + 1) :=
        Nat.mul_le_mul (Nat.pow_le_pow_left hperiod _) (hres _ (Nat.mod_lt n hp))
    _ = c ^ (n * q / p + 1) := by rw [hdiv, ← pow_mul, ← pow_add]; ring_nf

end DigitBuffer
