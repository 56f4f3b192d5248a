import Mathlib.Data.Nat.Digits.Lemmas
import Mathlib.Data.List.DropRight
import Mathlib.Algebra.Field.Rat
import Mathlib.Algebra.GroupWithZero.Basic
import Mathlib.Tactic.Ring

/-!
# Fixed-point amounts

`ParseFixedPoint` of `utilstrencodings.cpp`, through which `AmountFromValue`
reads every amount an RPC call passes (with `decimals = 8`).  The digits of the
mantissa accumulate in `mantissa`, with its trailing zeros held back in
`mantissa_tzeros` (`ProcessMantissaDigit`); the fraction's length and the
exponent fold into one power of ten, and a last loop scales the mantissa by it.
Every `int64_t` operation is guarded by the overflow test before it, so the
model computes in `ℤ`; the `int` counters are taken unbounded.

Over the grammar of decimals (`Decimal`), what the parser accepts it reads
exactly (`parseFixedPoint_render`), and every amount below `10 ^ 18` base units
is accepted in its canonical form (`parseFixedPoint_canonicalAmount`).  The
accepted canonical amounts are not closed downwards: `21000000000` is accepted,
but `10000000000`, whose mantissa `1` carries 18 trailing zeros, is not.
-/

namespace AokChain

/-- `UPPER_BOUND`. -/
def UPPER_BOUND : ℤ := 1000000000000000000 - 1

/-- `val[ptr] >= '0' && val[ptr] <= '9'`. -/
def isDigitChar (c : Char) : Bool := '0' ≤ c && c ≤ '9'

/-- `ptr < end && val[ptr] >= '0' && val[ptr] <= '9'`. -/
def startsWithDigit : List Char → Bool
  | c :: _ => isDigitChar c
  | [] => false

/-- `ch - '0'`. -/
def digitValue (c : Char) : ℤ := (c.toNat : ℤ) - ('0'.toNat : ℤ)

/-- The loops that scale the mantissa: `n` times `mantissa *= 10`, each after
the overflow test. -/
def scaleMantissa (overflows : ℤ → Bool) : ℕ → ℤ → Option ℤ
  | 0, mantissa => some mantissa
  | n + 1, mantissa => if overflows mantissa then none else scaleMantissa overflows n (mantissa * 10)

/-- `ProcessMantissaDigit`; `none` is its overflow. -/
def processMantissaDigit (ch : Char) (mantissa : ℤ) (mantissa_tzeros : ℕ) : Option (ℤ × ℕ) :=
  if ch = '0' then some (mantissa, mantissa_tzeros + 1)
  else do
    let mantissa ← scaleMantissa (fun m => m > UPPER_BOUND / 10) (mantissa_tzeros + 1) mantissa
    pure (mantissa + digitValue ch, 0)

/-- A loop of `ParseFixedPoint` over the digits of the mantissa: the mantissa,
its trailing zeros, the number of digits read and the rest of the string. -/
def mantissaDigits : List Char → ℤ → ℕ → Option (ℤ × ℕ × ℕ × List Char)
  | [], mantissa, mantissa_tzeros => some (mantissa, mantissa_tzeros, 0, [])
  | c :: val, mantissa, mantissa_tzeros =>
    if isDigitChar c then do
      let (mantissa, mantissa_tzeros) ← processMantissaDigit c mantissa mantissa_tzeros
      let (mantissa, mantissa_tzeros, n, val) ← mantissaDigits val mantissa mantissa_tzeros
      pure (mantissa, mantissa_tzeros, n + 1, val)
    else some (mantissa, mantissa_tzeros, 0, c :: val)

/-- The loop over the digits of the exponent. -/
def exponentDigits : List Char → ℤ → Option (ℤ × List Char)
  | [], exponent => some (exponent, [])
  | c :: val, exponent =>
    if isDigitChar c then
      if exponent > UPPER_BOUND / 10 then none else exponentDigits val (exponent * 10 + digitValue c)
    else some (exponent, c :: val)

/-- The optional `-`. -/
def parseSign : List Char → Bool × List Char
  | '-' :: val => (true, val)
  | val => (false, val)

/-- The integer part: a single `0`, or digits from one of `1` to `9`. -/
def parseIntPart : List Char → Option (ℤ × ℕ × List Char)
  | [] => none
  | c :: val =>
    if c = '0' then some (0, 0, val)
    else if '1' ≤ c ∧ c ≤ '9' then (mantissaDigits (c :: val) 0 0).map fun r => (r.1, r.2.1, r.2.2.2)
    else none

/-- The optional fraction, at least one digit after the point; `point_ofs` is
the number of its digits. -/
def parseFraction (mantissa : ℤ) (mantissa_tzeros : ℕ) : List Char → Option (ℤ × ℕ × ℕ × List Char)
  | '.' :: val => if startsWithDigit val then mantissaDigits val mantissa mantissa_tzeros else none
  | val => some (mantissa, mantissa_tzeros, 0, val)

/-- The optional sign of the exponent; `true` for `-`. -/
def parseExponentSign : List Char → Bool × List Char
  | '+' :: val => (false, val)
  | '-' :: val => (true, val)
  | val => (false, val)

/-- The optional exponent: `e` or `E`, an optional sign, at least one digit. -/
def parseExponent : List Char → Option (Bool × ℤ × List Char)
  | c :: val =>
    if c = 'e' ∨ c = 'E' then
      let (exponent_sign, val) := parseExponentSign val
      if startsWithDigit val then (exponentDigits val 0).map fun r => (exponent_sign, r) else none
    else some (false, 0, c :: val)
  | [] => some (false, 0, [])

/-- The conversion to one 64-bit fixed-point value: `mantissa * 10 ^ exponent`
after `decimals` is added to the exponent, within `-UPPER_BOUND` and
`4200000000000000000`. -/
def toFixedPoint (mantissa exponent decimals : ℤ) : Option ℤ :=
  let exponent := exponent + decimals
  if exponent < 0 then none
  else if exponent ≥ 18 then none
  else do
    let mantissa ← scaleMantissa (fun m => m > 420000000000000000 || m < -(UPPER_BOUND / 10)) exponent.toNat
      mantissa
    if mantissa > 4200000000000000000 || mantissa < -UPPER_BOUND then none else some mantissa

/-- `ParseFixedPoint(val, decimals, amount_out)`; `none` is `return false`. -/
def parseFixedPoint (val : List Char) (decimals : ℤ) : Option ℤ := do
  let (mantissa_sign, val) := parseSign val
  let (mantissa, mantissa_tzeros, val) ← parseIntPart val
  let (mantissa, mantissa_tzeros, point_ofs, val) ← parseFraction mantissa mantissa_tzeros val
  let (exponent_sign, exponent, val) ← parseExponent val
  -- trailing garbage
  if val ≠ [] then none
  else
    let exponent := if exponent_sign then -exponent else exponent
    let exponent := exponent - point_ofs + mantissa_tzeros
    let mantissa := if mantissa_sign then -mantissa else mantissa
    toFixedPoint mantissa exponent decimals

example : parseFixedPoint "1.1e-1".toList 8 = some 11000000 := by decide
example : parseFixedPoint "10000000000.00000000".toList 8 = none := by decide
example : parseFixedPoint "42000000000".toList 8 = some 4200000000000000000 := by decide

section Grammar

/-- The sign written before the digits of an exponent. -/
inductive ExponentSign
  | none
  | plus
  | minus
  deriving DecidableEq, Repr

/-- A number in the grammar `ParseFixedPoint` reads: an optional `-`, an integer
part without leading zeros, an optional fraction of at least one digit, and an
optional exponent: `e` or `E` (`true`), an optional sign, at least one digit. -/
structure Decimal where
  negative : Bool
  intDigits : List (Fin 10)
  fracDigits : Option (List (Fin 10))
  exponent : Option (Bool × ExponentSign × List (Fin 10))
  intDigits_ne_nil : intDigits ≠ []
  no_leading_zero : intDigits.head? = some 0 → intDigits = [0]
  fracDigits_ne_nil : ∀ f ∈ fracDigits, f ≠ []
  exponent_ne_nil : ∀ e ∈ exponent, e.2.2 ≠ []

/-- The character of a decimal digit. -/
def digitChar (d : Fin 10) : Char := Char.ofNat ('0'.toNat + d)

def ExponentSign.chars : ExponentSign → List Char
  | .none => []
  | .plus => ['+']
  | .minus => ['-']

/-- The characters after the integer part: the fraction, then the exponent. -/
def Decimal.fracChars (x : Decimal) : List Char :=
  match x.fracDigits with
  | some f => '.' :: f.map digitChar
  | none => []

def Decimal.expChars (x : Decimal) : List Char :=
  match x.exponent with
  | some (upper, sign, e) => (if upper then 'E' else 'e') :: sign.chars ++ e.map digitChar
  | none => []

/-- The string of a decimal. -/
def Decimal.render (x : Decimal) : List Char :=
  (if x.negative then ['-'] else []) ++ (x.intDigits.map digitChar ++ (x.fracChars ++ x.expChars))

/-- The value of decimal digits, most significant first. -/
def decimalValue (ds : List (Fin 10)) : ℕ := ds.foldl (fun acc d => acc * 10 + d.val) 0

def Decimal.exponentValue (x : Decimal) : ℤ :=
  match x.exponent with
  | some (_, .minus, e) => -(decimalValue e : ℤ)
  | some (_, _, e) => decimalValue e
  | none => 0

/-- The rational number a decimal denotes. -/
def Decimal.value (x : Decimal) : ℚ :=
  (if x.negative then -1 else 1) * ((decimalValue (x.intDigits ++ x.fracDigits.getD []) : ℚ) /
    10 ^ (x.fracDigits.getD []).length) * 10 ^ x.exponentValue

end Grammar

section Chars

theorem isDigitChar_digitChar : ∀ d, isDigitChar (digitChar d) = true := by decide

theorem digitValue_digitChar : ∀ d : Fin 10, digitValue (digitChar d) = d.val := by decide

theorem digitChar_eq_zero_iff : ∀ d : Fin 10, digitChar d = '0' ↔ d = 0 := by decide

theorem digitChar_ne_minus : ∀ d : Fin 10, digitChar d ≠ '-' := by decide

theorem digitChar_ne_plus : ∀ d : Fin 10, digitChar d ≠ '+' := by decide

theorem digitChar_nonzero : ∀ d : Fin 10, d ≠ 0 → '1' ≤ digitChar d ∧ digitChar d ≤ '9' := by decide

end Chars

section DecimalValue

theorem foldl_decimal (ds : List (Fin 10)) (acc : ℕ) :
    ds.foldl (fun acc d => acc * 10 + d.val) acc = acc * 10 ^ ds.length + decimalValue ds := by
  induction ds generalizing acc with
  | nil => simp [decimalValue]
  | cons d ds ih =>
    have h0 : decimalValue (d :: ds) = (0 * 10 + d.val) * 10 ^ ds.length + decimalValue ds := by
      rw [decimalValue, List.foldl_cons, ih]
    rw [List.foldl_cons, ih, h0, List.length_cons]
    ring

theorem decimalValue_cons (d : Fin 10) (ds : List (Fin 10)) :
    decimalValue (d :: ds) = d.val * 10 ^ ds.length + decimalValue ds := by
  rw [decimalValue, List.foldl_cons, foldl_decimal, Nat.zero_mul, Nat.zero_add]

theorem decimalValue_append (ds es : List (Fin 10)) :
    decimalValue (ds ++ es) = decimalValue ds * 10 ^ es.length + decimalValue es := by
  rw [decimalValue, List.foldl_append, foldl_decimal]
  rfl

/-- The digit loops compute in `ℤ` from any accumulator. -/
theorem foldl_decimal_int (ds : List (Fin 10)) (acc : ℤ) :
    ds.foldl (fun acc d => acc * 10 + (d.val : ℤ)) acc = acc * 10 ^ ds.length + decimalValue ds := by
  induction ds generalizing acc with
  | nil => simp [decimalValue]
  | cons d ds ih =>
    rw [List.foldl_cons, ih, decimalValue_cons, List.length_cons]
    push_cast
    ring

end DecimalValue

section Loops

theorem scaleMantissa_eq_some {overflows : ℤ → Bool} :
    ∀ {n : ℕ} {m m' : ℤ}, scaleMantissa overflows n m = some m' → m' = m * 10 ^ n
  | 0, m, m', h => by
    simp only [scaleMantissa, Option.some.injEq] at h
    simp [h]
  | n + 1, m, m', h => by
    rw [scaleMantissa] at h
    split_ifs at h
    rw [scaleMantissa_eq_some h]
    ring

theorem scaleMantissa_of_forall {overflows : ℤ → Bool} :
    ∀ (n : ℕ) (m : ℤ), (∀ j < n, overflows (m * 10 ^ j) = false) → scaleMantissa overflows n m = some (m * 10 ^ n)
  | 0, m, _ => by simp [scaleMantissa]
  | n + 1, m, h => by
    have h0 := h 0 (Nat.succ_pos n)
    rw [pow_zero, mul_one] at h0
    rw [scaleMantissa, if_neg (by simp [h0]),
      scaleMantissa_of_forall n (m * 10) fun j hj => by rw [mul_assoc, ← pow_succ']; exact h (j + 1) (by omega)]
    ring_nf

/-- A digit goes into the mantissa with the trailing zeros held back before it. -/
theorem processMantissaDigit_eq_some {d : Fin 10} {m : ℤ} {tz : ℕ} {r : ℤ × ℕ}
    (h : processMantissaDigit (digitChar d) m tz = some r) : r.1 * 10 ^ r.2 = (m * 10 ^ tz) * 10 + d.val := by
  unfold processMantissaDigit at h
  split_ifs at h with h0
  · simp only [Option.some.injEq] at h
    subst h
    rw [(digitChar_eq_zero_iff d).mp h0]
    simp only [pow_succ, Fin.val_zero]
    ring
  · cases hs : scaleMantissa (fun m => m > UPPER_BOUND / 10) (tz + 1) m with
    | none => simp [hs] at h
    | some m' =>
      simp only [hs, bind, Option.bind, pure, Option.some.injEq] at h
      subst h
      rw [scaleMantissa_eq_some hs, digitValue_digitChar]
      simp only [pow_zero, mul_one, pow_succ]
      ring

/-- The digit loop over written digits reads all of them and stops at the rest:
the mantissa and its trailing zeros then make the number they spell. -/
theorem mantissaDigits_digits {rest : List Char} (hrest : startsWithDigit rest = false) :
    ∀ (ds : List (Fin 10)) {m : ℤ} {tz : ℕ} {r : ℤ × ℕ × ℕ × List Char},
      mantissaDigits (ds.map digitChar ++ rest) m tz = some r →
        r.2.2 = (ds.length, rest) ∧ r.1 * 10 ^ r.2.1 = m * 10 ^ tz * 10 ^ ds.length + decimalValue ds
  | [], m, tz, r, h => by
    cases rest with
    | nil =>
      simp only [List.map_nil, List.nil_append, mantissaDigits, Option.some.injEq] at h
      subst h
      simp [decimalValue]
    | cons c rest =>
      simp only [startsWithDigit] at hrest
      simp only [List.map_nil, List.nil_append, mantissaDigits, hrest, Bool.false_eq_true, if_false,
        Option.some.injEq] at h
      subst h
      simp [decimalValue]
  | d :: ds, m, tz, r, h => by
    simp only [List.map_cons, List.cons_append, mantissaDigits, isDigitChar_digitChar, if_true] at h
    cases hp : processMantissaDigit (digitChar d) m tz with
    | none => simp [hp, bind, Option.bind] at h
    | some p =>
      rw [hp] at h
      cases hr : mantissaDigits (ds.map digitChar ++ rest) p.1 p.2 with
      | none => simp [hr, bind, Option.bind] at h
      | some q =>
        simp only [bind, Option.bind, hr, pure, Option.some.injEq] at h
        subst h
        obtain ⟨hq, hval⟩ := mantissaDigits_digits hrest ds hr
        have hp' := processMantissaDigit_eq_some hp
        obtain ⟨q1, q2, q3, q4⟩ := q
        simp only [Prod.mk.injEq] at hq
        refine ⟨by simp [hq.1, hq.2], ?_⟩
        simp only at hval ⊢
        rw [hval, hp', decimalValue_cons, List.length_cons]
        push_cast
        ring

theorem upperBound_div : UPPER_BOUND / 10 = 99999999999999999 := by decide

/-- A digit whose mantissa stays below `10 ^ 18` goes in without overflow. -/
theorem processMantissaDigit_of_lt {d : Fin 10} {m : ℤ} {tz : ℕ} (hm : 0 ≤ m)
    (hlt : m * 10 ^ tz * 10 + d.val < 10 ^ 18) : ∃ r, processMantissaDigit (digitChar d) m tz = some r ∧ 0 ≤ r.1 := by
  unfold processMantissaDigit
  split_ifs with h0
  · exact ⟨_, rfl, hm⟩
  · -- every power scaled stays at most that of the trailing zeros
    have hscale : ∀ j < tz + 1, (fun m => decide (m > UPPER_BOUND / 10)) (m * 10 ^ j) = false := by
      intro j hj
      have hpow : m * 10 ^ j ≤ m * 10 ^ tz :=
        mul_le_mul_of_nonneg_left (pow_le_pow_right₀ (by norm_num) (by omega)) hm
      simp only [upperBound_div, decide_eq_false_iff_not, not_lt]
      omega
    rw [scaleMantissa_of_forall (tz + 1) m hscale]
    refine ⟨_, rfl, ?_⟩
    have hpos : 0 ≤ m * 10 ^ (tz + 1) := mul_nonneg hm (by positivity)
    rw [digitValue_digitChar]
    simp only
    omega

/-- Digits spelling a number below `10 ^ 18` go in without overflow. -/
theorem mantissaDigits_of_lt {rest : List Char} (hrest : startsWithDigit rest = false) :
    ∀ (ds : List (Fin 10)) {m : ℤ} {tz : ℕ}, 0 ≤ m → m * 10 ^ tz * 10 ^ ds.length + decimalValue ds < 10 ^ 18 →
      ∃ r, mantissaDigits (ds.map digitChar ++ rest) m tz = some r ∧ 0 ≤ r.1
  | [], m, tz, hm, _ => by
    cases rest with
    | nil => exact ⟨_, rfl, hm⟩
    | cons c rest =>
      simp only [startsWithDigit] at hrest
      exact ⟨(m, tz, 0, c :: rest), by
        simp only [List.map_nil, List.nil_append, mantissaDigits, hrest, Bool.false_eq_true, if_false], hm⟩
  | d :: ds, m, tz, hm, hlt => by
    -- the number spelled so far is below the whole
    have hpow : (1 : ℤ) ≤ 10 ^ ds.length := one_le_pow₀ (by norm_num)
    have hx : 0 ≤ m * 10 ^ tz * 10 + d.val := by positivity
    have htotal : m * 10 ^ tz * 10 ^ (d :: ds).length + decimalValue (d :: ds) =
        (m * 10 ^ tz * 10 + d.val) * 10 ^ ds.length + decimalValue ds := by
      rw [decimalValue_cons, List.length_cons]
      push_cast
      ring
    rw [htotal] at hlt
    have hle : m * 10 ^ tz * 10 + d.val ≤ (m * 10 ^ tz * 10 + d.val) * 10 ^ ds.length := le_mul_of_one_le_right hx hpow
    obtain ⟨p, hp, hp0⟩ := @processMantissaDigit_of_lt d m tz hm (by omega)
    have hp' := processMantissaDigit_eq_some hp
    obtain ⟨q, hq, hq0⟩ := mantissaDigits_of_lt hrest ds hp0 (by rw [hp']; exact hlt)
    refine ⟨(q.1, q.2.1, q.2.2.1 + 1, q.2.2.2), ?_, hq0⟩
    simp only [List.map_cons, List.cons_append, mantissaDigits, isDigitChar_digitChar, if_true, hp, hq, bind,
      Option.bind, pure]

/-- The exponent's digit loop over written digits reads the number they spell. -/
theorem exponentDigits_digits {rest : List Char} (hrest : startsWithDigit rest = false) :
    ∀ (ds : List (Fin 10)) {e : ℤ} {r : ℤ × List Char}, exponentDigits (ds.map digitChar ++ rest) e = some r →
      r = (e * 10 ^ ds.length + decimalValue ds, rest)
  | [], e, r, h => by
    cases rest with
    | nil =>
      simp only [List.map_nil, List.nil_append, exponentDigits, Option.some.injEq] at h
      simp [← h, decimalValue]
    | cons c rest =>
      simp only [startsWithDigit] at hrest
      simp only [List.map_nil, List.nil_append, exponentDigits, hrest, Bool.false_eq_true, if_false,
        Option.some.injEq] at h
      simp [← h, decimalValue]
  | d :: ds, e, r, h => by
    simp only [List.map_cons, List.cons_append, exponentDigits, isDigitChar_digitChar, if_true] at h
    split_ifs at h
    rw [exponentDigits_digits hrest ds h, digitValue_digitChar, decimalValue_cons, List.length_cons]
    push_cast
    ring_nf

end Loops

section Stages

variable (x : Decimal)

/-- After the integer part come a point, an `e` or `E`, or the end. -/
theorem startsWithDigit_tail : startsWithDigit (x.fracChars ++ x.expChars) = false := by
  unfold Decimal.fracChars Decimal.expChars
  rcases x.fracDigits with _ | f
  · rcases x.exponent with _ | ⟨upper, sign, e⟩
    · rfl
    · cases upper <;> rfl
  · rfl

theorem startsWithDigit_expChars : startsWithDigit x.expChars = false := by
  unfold Decimal.expChars
  rcases x.exponent with _ | ⟨upper, sign, e⟩
  · rfl
  · cases upper <;> rfl

theorem parseSign_render : parseSign x.render = (x.negative, x.intDigits.map digitChar ++ (x.fracChars ++ x.expChars)) := by
  unfold Decimal.render
  cases x.negative with
  | true => rfl
  | false =>
    obtain ⟨d, ds, hds⟩ := List.exists_cons_of_ne_nil x.intDigits_ne_nil
    rw [hds, if_neg Bool.false_ne_true, List.nil_append, List.map_cons, List.cons_append]
    unfold parseSign
    split
    · rename_i h
      exact absurd (List.cons.inj h).1 (digitChar_ne_minus d)
    · rfl

/-- The integer part reads as the number its digits spell. -/
theorem parseIntPart_render {tail : List Char} (htail : startsWithDigit tail = false) {r : ℤ × ℕ × List Char}
    (h : parseIntPart (x.intDigits.map digitChar ++ tail) = some r) :
    r.2.2 = tail ∧ r.1 * 10 ^ r.2.1 = decimalValue x.intDigits := by
  obtain ⟨d, ds, hds⟩ := List.exists_cons_of_ne_nil x.intDigits_ne_nil
  rw [hds, List.map_cons, List.cons_append, parseIntPart] at h
  by_cases hd : d = 0
  · -- a single `0`
    have hzero : x.intDigits = [0] := x.no_leading_zero (by rw [hds, hd]; rfl)
    rw [hds] at hzero
    obtain ⟨rfl, rfl⟩ := List.cons.inj hzero
    rw [if_pos ((digitChar_eq_zero_iff 0).mpr rfl), Option.some.injEq] at h
    subst h
    rw [hds]
    simp [decimalValue]
  · rw [if_neg (fun h0 => hd ((digitChar_eq_zero_iff d).mp h0)), if_pos (digitChar_nonzero d hd)] at h
    cases hm : mantissaDigits (digitChar d :: (ds.map digitChar ++ tail)) 0 0 with
    | none => simp [hm] at h
    | some q =>
      rw [hm, Option.map_some, Option.some.injEq] at h
      subst h
      obtain ⟨hq, hval⟩ := mantissaDigits_digits htail (d :: ds) (by rw [List.map_cons, List.cons_append]; exact hm)
      obtain ⟨q1, q2, q3, q4⟩ := q
      simp only [Prod.mk.injEq] at hq
      refine ⟨hq.2, ?_⟩
      rw [hds]
      simpa using hval

/-- Without a point the fraction is empty and the string is left as it is. -/
theorem parseFraction_expChars (m : ℤ) (tz : ℕ) : parseFraction m tz x.expChars = some (m, tz, 0, x.expChars) := by
  unfold Decimal.expChars
  rcases x.exponent with _ | ⟨upper, sign, e⟩
  · rfl
  · cases upper <;> rfl

/-- The fraction reads its digits into the mantissa and stops at the exponent. -/
theorem parseFraction_render {m : ℤ} {tz : ℕ} {r : ℤ × ℕ × ℕ × List Char}
    (h : parseFraction m tz (x.fracChars ++ x.expChars) = some r) :
    r.2.2 = ((x.fracDigits.getD []).length, x.expChars) ∧
      r.1 * 10 ^ r.2.1 = m * 10 ^ tz * 10 ^ (x.fracDigits.getD []).length + decimalValue (x.fracDigits.getD []) := by
  have hne := x.fracDigits_ne_nil
  unfold Decimal.fracChars at h
  cases hf : x.fracDigits with
  | none =>
    rw [hf, List.nil_append, parseFraction_expChars, Option.some.injEq] at h
    subst h
    simp [decimalValue]
  | some f =>
    obtain ⟨d, ds, rfl⟩ := List.exists_cons_of_ne_nil (hne f hf)
    rw [hf, List.cons_append, parseFraction, List.map_cons, List.cons_append, startsWithDigit,
      isDigitChar_digitChar, if_pos rfl] at h
    rw [Option.getD_some]
    exact mantissaDigits_digits (startsWithDigit_expChars x) (d :: ds) (by rwa [List.map_cons, List.cons_append])

theorem parseExponentSign_chars (sign : ExponentSign) (d : Fin 10) (ds : List (Fin 10)) :
    parseExponentSign (sign.chars ++ (d :: ds).map digitChar) = (decide (sign = .minus), (d :: ds).map digitChar) := by
  cases sign with
  | none =>
    simp only [ExponentSign.chars, List.nil_append, List.map_cons]
    unfold parseExponentSign
    split
    · rename_i h
      exact absurd (List.cons.inj h).1 (digitChar_ne_plus d)
    · rename_i h
      exact absurd (List.cons.inj h).1 (digitChar_ne_minus d)
    · rfl
  | plus => rfl
  | minus => rfl

/-- The exponent reads its digits and its sign, and ends the string. -/
theorem parseExponent_render {r : Bool × ℤ × List Char} (h : parseExponent x.expChars = some r) :
    r.2.2 = [] ∧ (if r.1 then -r.2.1 else r.2.1) = x.exponentValue := by
  have hne := x.exponent_ne_nil
  unfold Decimal.expChars at h
  unfold Decimal.exponentValue
  cases hx : x.exponent with
  | none =>
    rw [hx, parseExponent, Option.some.injEq] at h
    subst h
    simp
  | some ex =>
    obtain ⟨upper, sign, e⟩ := ex
    obtain ⟨d, ds, rfl⟩ := List.exists_cons_of_ne_nil (hne _ hx)
    have hc : (if upper then 'E' else 'e') = 'e' ∨ (if upper then 'E' else 'e') = 'E' := by
      cases upper <;> simp
    rw [hx] at h
    dsimp only at h
    rw [List.cons_append, parseExponent, if_pos hc, parseExponentSign_chars] at h
    simp only [List.map_cons, startsWithDigit, isDigitChar_digitChar, if_true] at h
    cases he : exponentDigits (digitChar d :: List.map digitChar ds) 0 with
    | none => simp [he] at h
    | some q =>
      rw [he, Option.map_some, Option.some.injEq] at h
      subst h
      have hq := @exponentDigits_digits [] rfl (d :: ds) 0 _ (by rw [List.append_nil]; exact he)
      subst hq
      cases sign <;> simp

end Stages

section Exact

/-- What the conversion returns is the mantissa scaled by the final exponent. -/
theorem toFixedPoint_eq_some {m e dec a : ℤ} (h : toFixedPoint m e dec = some a) :
    0 ≤ e + dec ∧ a = m * 10 ^ (e + dec).toNat := by
  unfold toFixedPoint at h
  dsimp only at h
  split_ifs at h with h1 h2
  cases hs : scaleMantissa (fun m => m > 420000000000000000 || m < -(UPPER_BOUND / 10)) (e + dec).toNat m with
  | none => simp [hs, bind, Option.bind] at h
  | some m' =>
    simp only [hs, bind, Option.bind] at h
    split_ifs at h
    rw [Option.some.injEq] at h
    exact ⟨by omega, h ▸ scaleMantissa_eq_some hs⟩

/-- A successful parse passes through every stage, the exponent's ending the string. -/
theorem parseFixedPoint_eq_some {val : List Char} {decimals a : ℤ} (h : parseFixedPoint val decimals = some a) :
    ∃ m1 tz1 rest1 m2 tz2 pofs rest2 esign e,
      parseIntPart (parseSign val).2 = some (m1, tz1, rest1) ∧
      parseFraction m1 tz1 rest1 = some (m2, tz2, pofs, rest2) ∧
      parseExponent rest2 = some (esign, e, []) ∧
      toFixedPoint (if (parseSign val).1 then -m2 else m2) ((if esign then -e else e) - pofs + tz2) decimals =
        some a := by
  unfold parseFixedPoint at h
  rcases hs : parseSign val with ⟨sign, val'⟩
  rw [hs] at h
  simp only [bind, Option.bind_eq_some_iff] at h
  obtain ⟨⟨m1, tz1, rest1⟩, h1, h⟩ := h
  obtain ⟨⟨m2, tz2, pofs, rest2⟩, h2, h⟩ := h
  obtain ⟨⟨esign, e, rest3⟩, h3, h⟩ := h
  dsimp only at h
  -- trailing garbage is refused
  by_cases hrest : rest3 = []
  · subst hrest
    rw [if_neg (fun h => h rfl)] at h
    exact ⟨m1, tz1, rest1, m2, tz2, pofs, rest2, esign, e, h1, h2, h3, h⟩
  · rw [if_pos hrest] at h
    cases h

/-- The power of ten the parser ends with, against the value's: `10 ^ tz` moves
from the exponent into the mantissa. -/
theorem scaled_eq {m : ℤ} {n tz len : ℕ} (ev dec : ℤ) (hm : m * 10 ^ tz = n) (h : 0 ≤ ev - len + tz + dec) :
    ((m * 10 ^ (ev - len + tz + dec).toNat : ℤ) : ℚ) = (n : ℚ) / 10 ^ len * 10 ^ ev * 10 ^ dec := by
  have h10 : (10 : ℚ) ≠ 0 := by norm_num
  have hpow : (10 : ℚ) ^ (ev - len + tz + dec).toNat = 10 ^ (ev - len + tz + dec) := by
    rw [← zpow_natCast, Int.toNat_of_nonneg h]
  have hn : (n : ℚ) = (m : ℚ) * 10 ^ tz := by exact_mod_cast hm.symm
  push_cast
  rw [hpow, hn, zpow_add₀ h10, zpow_add₀ h10, zpow_sub₀ h10, zpow_natCast, zpow_natCast]
  ring

/-- What `ParseFixedPoint` accepts of a decimal it reads exactly: the amount is
the decimal's value scaled by `10 ^ decimals`. -/
theorem parseFixedPoint_render (x : Decimal) (decimals : ℤ) {a : ℤ} (h : parseFixedPoint x.render decimals = some a) :
    (a : ℚ) = x.value * 10 ^ decimals := by
  obtain ⟨m1, tz1, rest1, m2, tz2, pofs, rest2, esign, e, h1, h2, h3, h4⟩ := parseFixedPoint_eq_some h
  rw [parseSign_render] at h1 h4
  obtain ⟨hrest1, hv1⟩ := parseIntPart_render x (startsWithDigit_tail x) h1
  dsimp only at hrest1 hv1
  subst hrest1
  obtain ⟨hrest2, hv2⟩ := parseFraction_render x h2
  dsimp only at hrest2 hv2
  obtain ⟨rfl, rfl⟩ := Prod.mk.inj hrest2
  obtain ⟨-, he⟩ := parseExponent_render x h3
  dsimp only at he h4
  rw [he] at h4
  obtain ⟨hnn, rfl⟩ := toFixedPoint_eq_some h4
  -- the mantissa with its trailing zeros spells the integer part and the fraction
  have hm : m2 * 10 ^ tz2 = (decimalValue (x.intDigits ++ x.fracDigits.getD []) : ℤ) := by
    rw [hv2, hv1, decimalValue_append]
    push_cast
    ring
  have hneg : ((if x.negative then -m2 else m2) : ℤ) = (if x.negative then -1 else 1) * m2 := by
    split_ifs <;> ring
  rw [hneg, mul_assoc, Int.cast_mul, scaled_eq x.exponentValue decimals hm hnn, Decimal.value]
  split_ifs <;> push_cast <;> ring

end Exact

section Accept

/-- A successful parse of each stage makes the parse that of the conversion. -/
theorem parseFixedPoint_of_stages {val : List Char} {decimals m1 m2 e : ℤ} {tz1 tz2 pofs : ℕ} {esign : Bool}
    {rest1 rest2 : List Char} (h1 : parseIntPart (parseSign val).2 = some (m1, tz1, rest1))
    (h2 : parseFraction m1 tz1 rest1 = some (m2, tz2, pofs, rest2)) (h3 : parseExponent rest2 = some (esign, e, [])) :
    parseFixedPoint val decimals =
      toFixedPoint (if (parseSign val).1 then -m2 else m2) ((if esign then -e else e) - pofs + tz2) decimals := by
  unfold parseFixedPoint
  rcases hs : parseSign val with ⟨sign, val'⟩
  rw [hs] at h1
  simp only [h1, h2, h3, bind, Option.bind, ne_eq, not_true_eq_false, if_false]

/-- A non-negative mantissa that stays below `10 ^ 18` once scaled is converted. -/
theorem toFixedPoint_of_lt {m e dec : ℤ} (hm : 0 ≤ m) (h0 : 0 ≤ e + dec) (h18 : e + dec < 18)
    (hlt : m * 10 ^ (e + dec).toNat < 10 ^ 18) : toFixedPoint m e dec = some (m * 10 ^ (e + dec).toNat) := by
  -- every mantissa scaled on the way is at most a tenth of the last
  have hs : scaleMantissa (fun m => m > 420000000000000000 || m < -(UPPER_BOUND / 10)) (e + dec).toNat m =
      some (m * 10 ^ (e + dec).toNat) := by
    refine scaleMantissa_of_forall _ m fun j hj => ?_
    have hpow : m * 10 ^ j * 10 ≤ m * 10 ^ (e + dec).toNat := by
      rw [mul_assoc, ← pow_succ]
      exact mul_le_mul_of_nonneg_left (pow_le_pow_right₀ (by norm_num) hj) hm
    have hpos : 0 ≤ m * 10 ^ j := mul_nonneg hm (by positivity)
    simp only [upperBound_div, Bool.or_eq_false_iff, decide_eq_false_iff_not, not_lt]
    omega
  have hpos : 0 ≤ m * 10 ^ (e + dec).toNat := mul_nonneg hm (by positivity)
  unfold toFixedPoint
  simp only [if_neg (not_lt.mpr h0), if_neg (not_le.mpr h18), hs, bind, Option.bind]
  rw [if_neg (by simp only [Bool.or_eq_true, decide_eq_true_eq, not_or]; unfold UPPER_BOUND; omega)]

variable (x : Decimal)

/-- An integer part below `10 ^ 18` is read without overflow. -/
theorem parseIntPart_of_lt {tail : List Char} (htail : startsWithDigit tail = false)
    (hlt : decimalValue x.intDigits < 10 ^ 18) :
    ∃ r, parseIntPart (x.intDigits.map digitChar ++ tail) = some r ∧ 0 ≤ r.1 := by
  obtain ⟨d, ds, hds⟩ := List.exists_cons_of_ne_nil x.intDigits_ne_nil
  rw [hds, List.map_cons, List.cons_append, parseIntPart]
  by_cases hd : d = 0
  · -- a single `0`
    rw [if_pos ((digitChar_eq_zero_iff d).mpr hd)]
    exact ⟨_, rfl, le_rfl⟩
  · rw [if_neg (fun h0 => hd ((digitChar_eq_zero_iff d).mp h0)), if_pos (digitChar_nonzero d hd)]
    rw [hds] at hlt
    obtain ⟨q, hq, hq0⟩ := mantissaDigits_of_lt htail (d :: ds) le_rfl (by push_cast; omega)
    rw [List.map_cons, List.cons_append] at hq
    exact ⟨_, by rw [hq, Option.map_some], hq0⟩

/-- A fraction that keeps the mantissa below `10 ^ 18` is read without overflow. -/
theorem parseFraction_of_lt {m : ℤ} {tz : ℕ} (hm : 0 ≤ m)
    (hlt : m * 10 ^ tz * 10 ^ (x.fracDigits.getD []).length + decimalValue (x.fracDigits.getD []) < 10 ^ 18) :
    ∃ r, parseFraction m tz (x.fracChars ++ x.expChars) = some r ∧ 0 ≤ r.1 := by
  have hne := x.fracDigits_ne_nil
  unfold Decimal.fracChars
  cases hf : x.fracDigits with
  | none => exact ⟨_, parseFraction_expChars x m tz, hm⟩
  | some f =>
    obtain ⟨d, ds, rfl⟩ := List.exists_cons_of_ne_nil (hne f hf)
    rw [hf, Option.getD_some] at hlt
    obtain ⟨q, hq, hq0⟩ := mantissaDigits_of_lt (startsWithDigit_expChars x) (d :: ds) hm hlt
    rw [List.map_cons, List.cons_append] at hq
    refine ⟨q, ?_, hq0⟩
    rw [List.cons_append, parseFraction, List.map_cons, List.cons_append, startsWithDigit, isDigitChar_digitChar,
      if_pos rfl, hq]

/-- Without an exponent the string ends after the fraction. -/
theorem expChars_of_none (hexp : x.exponent = none) : x.expChars = [] := by
  unfold Decimal.expChars
  rw [hexp]

/-- A positive decimal without sign or exponent, of at most `8` decimals and
below `10 ^ 18` base units, is accepted as its digits scaled to `8` decimals. -/
theorem parseFixedPoint_render_of_lt (hneg : x.negative = false) (hexp : x.exponent = none)
    (hlen : (x.fracDigits.getD []).length ≤ 8) (hpos : 0 < decimalValue (x.intDigits ++ x.fracDigits.getD []))
    (hlt : decimalValue (x.intDigits ++ x.fracDigits.getD []) * 10 ^ (8 - (x.fracDigits.getD []).length) <
      10 ^ 18) :
    parseFixedPoint x.render 8 =
      some ((decimalValue (x.intDigits ++ x.fracDigits.getD []) * 10 ^ (8 - (x.fracDigits.getD []).length) : ℕ) :
        ℤ) := by
  have hsplit := decimalValue_append x.intDigits (x.fracDigits.getD [])
  obtain ⟨n, hn⟩ : ∃ n, decimalValue (x.intDigits ++ x.fracDigits.getD []) = n := ⟨_, rfl⟩
  obtain ⟨len, hl⟩ : ∃ len, (x.fracDigits.getD []).length = len := ⟨_, rfl⟩
  rw [hn] at hsplit hlt hpos ⊢
  rw [hl] at hsplit hlt hlen ⊢
  have hnlt : n < 10 ^ 18 := lt_of_le_of_lt (Nat.le_mul_of_pos_right n (Nat.one_le_pow _ _ (by norm_num))) hlt
  -- the integer part, then the fraction, each read without overflow
  have hint : decimalValue x.intDigits < 10 ^ 18 := by
    have : decimalValue x.intDigits ≤ decimalValue x.intDigits * 10 ^ len :=
      Nat.le_mul_of_pos_right _ (Nat.one_le_pow _ _ (by norm_num))
    omega
  obtain ⟨⟨m1, tz1, rest1⟩, h1, h1pos⟩ := parseIntPart_of_lt x (startsWithDigit_tail x) hint
  obtain ⟨hr1, hv1⟩ := parseIntPart_render x (startsWithDigit_tail x) h1
  dsimp only at hr1 hv1 h1pos
  subst hr1
  obtain ⟨⟨m2, tz2, pofs, rest2⟩, h2, h2pos⟩ := parseFraction_of_lt x h1pos (by
    rw [hv1, hl]
    exact_mod_cast hsplit ▸ hnlt)
  obtain ⟨hr2, hv2⟩ := parseFraction_render x h2
  dsimp only at hr2 hv2 h2pos
  obtain ⟨rfl, rfl⟩ := Prod.mk.inj hr2
  have hm2 : m2 * 10 ^ tz2 = (n : ℤ) := by
    rw [hv2, hv1, hl, hsplit]
    push_cast
    ring
  -- the mantissa is not zero, so its final exponent is below `18`
  have hm1 : 1 ≤ m2 := by
    rcases lt_or_eq_of_le h2pos with h | h
    · omega
    · rw [← h, zero_mul] at hm2
      omega
  have hk : ((if false = true then -0 else 0) - ((x.fracDigits.getD []).length : ℤ) + tz2 + 8).toNat =
      tz2 + (8 - len) := by
    rw [hl]
    simp only [Bool.false_eq_true, if_false]
    omega
  have hscaled : m2 * 10 ^ (tz2 + (8 - len)) = ((n * 10 ^ (8 - len) : ℕ) : ℤ) := by
    rw [pow_add, ← mul_assoc, hm2]
    push_cast
    ring
  have h18 : tz2 + (8 - len) < 18 := by
    have : (10 : ℤ) ^ (tz2 + (8 - len)) < 10 ^ 18 :=
      calc (10 : ℤ) ^ (tz2 + (8 - len))
          ≤ m2 * 10 ^ (tz2 + (8 - len)) := le_mul_of_one_le_left (by positivity) hm1
        _ = ((n * 10 ^ (8 - len) : ℕ) : ℤ) := hscaled
        _ < 10 ^ 18 := by exact_mod_cast hlt
    exact (pow_lt_pow_iff_right₀ (by norm_num)).mp this
  rw [parseFixedPoint_of_stages (by rw [parseSign_render]; exact h1) h2
      (by rw [expChars_of_none x hexp]; rfl : parseExponent x.expChars = some (false, 0, [])),
    parseSign_render, hneg]
  dsimp only
  rw [if_neg Bool.false_ne_true, toFixedPoint_of_lt h2pos (by rw [hl]; simp only [Bool.false_eq_true, if_false]; omega)
    (by rw [hl]; simp only [Bool.false_eq_true, if_false]; omega) (by rw [hk, hscaled]; exact_mod_cast hlt), hk, hscaled]

end Accept

section Canonical

/-- The digits of `n`, most significant first, without leading zeros. -/
def toDigits (n : ℕ) : List (Fin 10) := ((Nat.digits 10 n).map (Fin.ofNat 10)).reverse

/-- The `8` decimals of a remainder below `10 ^ 8`, without trailing zeros. -/
def fracPart (r : ℕ) : List (Fin 10) :=
  (List.replicate (8 - (Nat.digits 10 r).length) 0 ++ toDigits r).rdropWhile (· == 0)

/-- Digits least significant first, read most significant first. -/
theorem decimalValue_reverse (L : List ℕ) (hL : ∀ d ∈ L, d < 10) :
    decimalValue ((L.map (Fin.ofNat 10)).reverse) = Nat.ofDigits 10 L := by
  induction L with
  | nil => rfl
  | cons d L ih =>
    rw [List.map_cons, List.reverse_cons, decimalValue_append, ih fun e he => hL e (List.mem_cons_of_mem d he),
      Nat.ofDigits_cons]
    simp only [decimalValue, List.foldl_cons, List.foldl_nil, List.length_singleton, Fin.val_ofNat,
      Nat.mod_eq_of_lt (hL d List.mem_cons_self)]
    ring

theorem decimalValue_toDigits (n : ℕ) : decimalValue (toDigits n) = n := by
  rw [toDigits, decimalValue_reverse _ fun d hd => Nat.digits_lt_base (by norm_num) hd, Nat.ofDigits_digits]

theorem decimalValue_eq_zero {ds : List (Fin 10)} (h : ∀ d ∈ ds, d = 0) : decimalValue ds = 0 := by
  induction ds with
  | nil => rfl
  | cons d ds ih =>
    rw [decimalValue_cons, h d List.mem_cons_self, ih fun e he => h e (List.mem_cons_of_mem d he)]
    simp

/-- The leading digit of a positive number is not zero. -/
theorem toDigits_head? {n : ℕ} (hn : n ≠ 0) :
    ∃ d ds, toDigits n = d :: ds ∧ d ≠ 0 := by
  have hne : Nat.digits 10 n ≠ [] := Nat.digits_ne_nil_iff_ne_zero.mpr hn
  have hlast := Nat.getLast_digit_ne_zero 10 hn
  have hlt := Nat.digits_lt_base (b := 10) (by norm_num) (List.getLast_mem hne)
  obtain ⟨d, ds, hds⟩ := List.exists_cons_of_ne_nil (l := toDigits n) (by simp [toDigits, hne])
  refine ⟨d, ds, hds, fun hd => hlast ?_⟩
  have hhead : (toDigits n).head? = some (Fin.ofNat 10 ((Nat.digits 10 n).getLast hne)) := by
    rw [toDigits, List.head?_reverse, List.getLast?_map, List.getLast?_eq_some_getLast hne, Option.map_some]
  rw [hds, hd, List.head?_cons, Option.some.injEq, Fin.ext_iff, Fin.val_ofNat, Fin.val_zero,
    Nat.mod_eq_of_lt hlt] at hhead
  exact hhead.symm

theorem fracPart_ne_nil {r : ℕ} (hr : r ≠ 0) : fracPart r ≠ [] := by
  obtain ⟨d, ds, hds, hd⟩ := toDigits_head? hr
  rw [fracPart, Ne, List.rdropWhile_eq_nil_iff]
  intro hall
  exact hd (by simpa using hall d (by simp [hds]))

/-- The decimals kept, followed by the zeros dropped, spell the remainder. -/
theorem fracPart_spec {r : ℕ} (hr : r < 10 ^ 8) :
    (fracPart r).length ≤ 8 ∧ decimalValue (fracPart r) * 10 ^ (8 - (fracPart r).length) = r := by
  have hlen : (Nat.digits 10 r).length ≤ 8 := (Nat.digits_length_le_iff (by norm_num) r).mpr hr
  obtain ⟨P, hP⟩ : ∃ P, List.replicate (8 - (Nat.digits 10 r).length) 0 ++ toDigits r = P := ⟨_, rfl⟩
  have hPlen : P.length = 8 := by
    rw [← hP, List.length_append, List.length_replicate, toDigits, List.length_reverse, List.length_map]
    omega
  have hPval : decimalValue P = r := by
    rw [← hP, decimalValue_append, decimalValue_eq_zero fun d hd => List.eq_of_mem_replicate hd, zero_mul,
      zero_add, decimalValue_toDigits]
  -- the padded decimals split into those kept and the zeros dropped
  have hsplit : fracPart r ++ P.rtakeWhile (· == 0) = P := by
    rw [fracPart, hP]
    exact List.rdropWhile_append_rtakeWhile
  have hzero : ∀ d ∈ P.rtakeWhile (· == 0), d = 0 := fun d hd => by simpa using List.mem_rtakeWhile_imp hd
  have hlens := congrArg List.length hsplit
  rw [List.length_append, hPlen] at hlens
  refine ⟨by omega, ?_⟩
  have hval := congrArg decimalValue hsplit
  rw [decimalValue_append, decimalValue_eq_zero hzero, add_zero, hPval] at hval
  rw [show 8 - (fracPart r).length = (P.rtakeWhile (· == 0)).length by omega]
  exact hval

theorem canonicalInt_ne_nil (q : ℕ) : (if q = 0 then [0] else toDigits q) ≠ [] := by
  split_ifs with hq
  · exact List.cons_ne_nil 0 []
  · obtain ⟨d, ds, hds, -⟩ := toDigits_head? hq
    rw [hds]
    exact List.cons_ne_nil d ds

theorem canonicalInt_no_leading_zero (q : ℕ) :
    (if q = 0 then [0] else toDigits q).head? = some 0 → (if q = 0 then [0] else toDigits q) = [0] := by
  split_ifs with hq
  · exact fun _ => rfl
  · obtain ⟨d, ds, hds, hd⟩ := toDigits_head? hq
    rw [hds, List.head?_cons, Option.some.injEq]
    exact fun h => absurd h hd

/-- The canonical string of a non-negative amount in base units: the integer
part without leading zeros, then, unless the amount is whole, a point and its
`8` decimals without trailing zeros. -/
def canonicalAmount (b : ℕ) : Decimal where
  negative := false
  intDigits := if b / 10 ^ 8 = 0 then [0] else toDigits (b / 10 ^ 8)
  fracDigits := if b % 10 ^ 8 = 0 then none else some (fracPart (b % 10 ^ 8))
  exponent := none
  intDigits_ne_nil := canonicalInt_ne_nil _
  no_leading_zero := canonicalInt_no_leading_zero _
  fracDigits_ne_nil := by
    split_ifs with hr
    · exact fun f hf => absurd hf (by simp)
    · exact fun f hf => Option.some.inj hf ▸ fracPart_ne_nil hr
  exponent_ne_nil := fun e he => absurd he (by simp)

/-- The digits of the canonical string, scaled to `8` decimals, make the amount. -/
theorem canonicalAmount_digits (b : ℕ) :
    ((canonicalAmount b).fracDigits.getD []).length ≤ 8 ∧
      decimalValue ((canonicalAmount b).intDigits ++ (canonicalAmount b).fracDigits.getD []) *
        10 ^ (8 - ((canonicalAmount b).fracDigits.getD []).length) = b := by
  have hq : decimalValue (if b / 10 ^ 8 = 0 then [0] else toDigits (b / 10 ^ 8)) = b / 10 ^ 8 := by
    split_ifs with h
    · rw [h]
      rfl
    · exact decimalValue_toDigits _
  unfold canonicalAmount
  dsimp only
  by_cases hr : b % 10 ^ 8 = 0
  · -- a whole amount
    rw [if_pos hr, Option.getD_none, List.append_nil, hq]
    exact ⟨Nat.zero_le 8, Nat.div_mul_cancel (Nat.dvd_of_mod_eq_zero hr)⟩
  · obtain ⟨hlen, hval⟩ := fracPart_spec (Nat.mod_lt b (by positivity : 0 < 10 ^ 8))
    rw [if_neg hr, Option.getD_some, decimalValue_append, hq]
    refine ⟨hlen, ?_⟩
    calc (b / 10 ^ 8 * 10 ^ (fracPart (b % 10 ^ 8)).length + decimalValue (fracPart (b % 10 ^ 8))) *
          10 ^ (8 - (fracPart (b % 10 ^ 8)).length)
        = b / 10 ^ 8 * (10 ^ (fracPart (b % 10 ^ 8)).length * 10 ^ (8 - (fracPart (b % 10 ^ 8)).length)) +
          decimalValue (fracPart (b % 10 ^ 8)) * 10 ^ (8 - (fracPart (b % 10 ^ 8)).length) := by ring
      _ = b / 10 ^ 8 * 10 ^ 8 + b % 10 ^ 8 := by rw [← pow_add, Nat.add_sub_cancel' hlen, hval]
      _ = b := Nat.div_add_mod' b (10 ^ 8)

theorem parseFixedPoint_canonicalAmount {b : ℕ} (hb : b < 10 ^ 18) :
    parseFixedPoint (canonicalAmount b).render 8 = some (b : ℤ) := by
  rcases Nat.eq_zero_or_pos b with rfl | hpos
  · decide
  · obtain ⟨hlen, hval⟩ := canonicalAmount_digits b
    have hn : 0 < decimalValue ((canonicalAmount b).intDigits ++ (canonicalAmount b).fracDigits.getD []) := by
      rcases Nat.eq_zero_or_pos (decimalValue ((canonicalAmount b).intDigits ++ (canonicalAmount b).fracDigits.getD []))
        with h | h
      · rw [h, zero_mul] at hval
        omega
      · exact h
    rw [parseFixedPoint_render_of_lt (canonicalAmount b) rfl rfl hlen hn (by rw [hval]; exact hb), hval]

/-- What `ParseFixedPoint` accepts of a decimal with `8` decimals it reads
exactly, and it accepts the canonical string of every amount below `10 ^ 18`
base units. -/
theorem parseFixedPoint_exact_canonical :
    (∀ (x : Decimal) (a : ℤ), parseFixedPoint x.render 8 = some a → (a : ℚ) = x.value * 10 ^ 8) ∧
      ∀ b : ℕ, b < 10 ^ 18 → parseFixedPoint (canonicalAmount b).render 8 = some (b : ℤ) := by
  refine ⟨fun x a h => ?_, fun _ hb => parseFixedPoint_canonicalAmount hb⟩
  rw [parseFixedPoint_render x 8 h, zpow_ofNat]

theorem parseFixedPoint_exact_canonical_sample :
    (2100000000 : ℕ) < 10 ^ 18 ∧ parseFixedPoint (canonicalAmount 2100000000).render 8 = some 2100000000 :=
  ⟨by norm_num, parseFixedPoint_exact_canonical.2 2100000000 (by norm_num)⟩

/-- The accepted canonical amounts are not closed downwards: `21000000000` is
accepted, `10000000000` below it is not, its mantissa `1` carrying `18`
trailing zeros once scaled. -/
theorem canonicalAmount_accepted_not_below :
    parseFixedPoint (canonicalAmount 2100000000000000000).render 8 = some 2100000000000000000 ∧
      parseFixedPoint (canonicalAmount 1000000000000000000).render 8 = none := by
  decide

end Canonical

end AokChain
