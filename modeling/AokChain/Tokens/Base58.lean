import AokChain.Tokens.Validity
import AokChain.Lib.DigitBuffer
import Mathlib.Data.Nat.Digits.Lemmas

/-!
# Base 58

`base58.cpp`, as `EncodeIPFS` and `DecodeIPFS` of `tokens/tokens.cpp` use it.
`EncodeBase58` reads the bytes past the leading zeros as one big-endian number
and converts it to base 58 in a buffer `b58` of `size * 138 / 100 + 1` digits,
one byte at a time; `DecodeBase58` converts back in a buffer `b256` of
`size * 733 / 1000 + 1` bytes.  Each conversion step is the digit loop of
`Lib/DigitBuffer`, followed by `assert(carry == 0)`.  The buffers are
`unsigned char`s, kept here least significant digit first, the order their
reverse iterators walk; every digit written is below the radix, so `ℕ` holds it
exactly.  The `int` counters are taken unbounded, which is exact for inputs
shorter than `2 ^ 31 * 100 / 138` bytes.

The buffers are large enough for every input, so neither assertion fires; the
encoding is the closed form `encodeBase58` of `Tokens/Validity`
(`encodeBase58_eq_ok`), and decoding it gives the bytes back.
-/

namespace AokChain.Base58
open Serial DigitBuffer

/-- `isspace` in the C locale. -/
def isspace (c : Char) : Bool :=
  c == ' ' || c == '\t' || c == '\n' || c == '\x0b' || c == '\x0c' || c == '\r'

/-- The digit loop of both functions, `buffer = buffer * mul + carry`, and the
`assert(carry == 0)` after it; the buffer and the new `length`. -/
def mulAdd (mul radix length carry : ℕ) (buffer : List ℕ) : Except String (List ℕ × ℕ) :=
  match mulAddLoop mul radix length carry 0 buffer with
  | (buffer, carry, i) => if carry = 0 then .ok (buffer, i) else .error "Assertion carry == 0 failed."

/-- The byte loop of `EncodeBase58`: `b58 = b58 * 256 + ch` for each byte. -/
def encodeBytes : Bytes → List ℕ → ℕ → Except String (List ℕ × ℕ)
  | [], b58, length => .ok (b58, length)
  | ch :: pbegin, b58, length => do
    let (b58, length) ← mulAdd 256 58 length ch.toNat b58
    encodeBytes pbegin b58 length

/-- `EncodeBase58(pbegin, pend)`: a `1` for each leading zero byte, then the
digits in use of `b58`, past their leading zeros. -/
def encodeBase58 (vch : Bytes) : Except String (List Char) := do
  let zeroes := (vch.takeWhile (· == 0)).length
  let pbegin := vch.drop zeroes
  let size := pbegin.length * 138 / 100 + 1
  let (b58, length) ← encodeBytes pbegin (List.replicate size 0) 0
  -- `b58.begin() + (size - length)`, then past the zero digits
  let digits := (b58.take length).reverse.dropWhile (· == 0)
  pure (List.replicate zeroes '1' ++ digits.map fun d => pszBase58.getD d '1')

/-- The character loop of `DecodeBase58`, up to the first space or the end:
`b256 = b256 * 58 + ch` for each character, `none` for one outside the
alphabet (`return false`), and otherwise the buffer, `length` and the rest. -/
def decodeChars : List Char → List ℕ → ℕ → Except String (Option (List ℕ × ℕ × List Char))
  | [], b256, length => .ok (some (b256, length, []))
  | c :: psz, b256, length =>
    if isspace c then .ok (some (b256, length, c :: psz))
    else
      match pszBase58.idxOf? c with
      | none => .ok none
      | some ch => do
        let (b256, length) ← mulAdd 58 256 length ch b256
        decodeChars psz b256 length

/-- `DecodeBase58(const char* psz, vch)` on the characters before the
terminating NUL; `none` is `return false`, which leaves `vch` as it was. -/
def decodeBase58 (psz : List Char) : Except String (Option Bytes) := do
  let psz := psz.dropWhile isspace
  let zeroes := (psz.takeWhile (· == '1')).length
  let psz := psz.drop zeroes
  let size := psz.length * 733 / 1000 + 1
  match ← decodeChars psz (List.replicate size 0) 0 with
  | none => pure none
  | some (b256, length, psz) =>
    -- trailing spaces, then the end
    if (psz.dropWhile isspace).isEmpty then
      let digits := (b256.take length).reverse.dropWhile (· == 0)
      pure (some (List.replicate zeroes 0 ++ digits.map UInt8.ofNat))
    else pure none

/-- `DecodeBase58(const std::string& str, vchRet)`, through `str.c_str()`. -/
def decodeBase58Str (str : List Char) : Except String (Option Bytes) :=
  decodeBase58 (str.takeWhile (· != '\x00'))

/-- `DecodeIPFS`: the bytes `DecodeBase58` leaves in `b`, empty when it returns
false. -/
def decodeIPFS (encoded : String) : Except String Bytes := do
  match ← decodeBase58Str encoded.toList with
  | some b => pure b
  | none => pure []

section Alphabet

/-- `strchr` finds each character of the alphabet at its digit. -/
theorem idxOf?_getD : ∀ d < 58, pszBase58.idxOf? (pszBase58.getD d '1') = some d := by decide

theorem pszBase58_getD_mem {d : ℕ} (hd : d < 58) : pszBase58.getD d '1' ∈ pszBase58 :=
  List.isSome_idxOf?.mp (by rw [idxOf?_getD d hd]; rfl)

theorem isspace_getD {d : ℕ} (hd : d < 58) : isspace (pszBase58.getD d '1') = false := by
  have h := idxOf?_getD d hd
  -- no space is in the alphabet
  cases hc : isspace (pszBase58.getD d '1') with
  | false => rfl
  | true =>
    simp only [isspace, Bool.or_eq_true, beq_iff_eq] at hc
    rcases hc with ((((hc | hc) | hc) | hc) | hc) | hc <;> rw [hc] at h <;> cases h

theorem getD_ne_nul {d : ℕ} (hd : d < 58) : pszBase58.getD d '1' ≠ '\x00' := by
  intro hc
  have h := idxOf?_getD d hd
  rw [hc] at h
  cases h

theorem getD_eq_one_iff {d : ℕ} (hd : d < 58) : pszBase58.getD d '1' = '1' ↔ d = 0 := by
  constructor
  · intro hc
    have h := idxOf?_getD d hd
    rw [hc] at h
    exact (Option.some.inj h).symm
  · rintro rfl
    rfl

theorem idxOf?_lt {c : Char} {ch : ℕ} (h : pszBase58.idxOf? c = some ch) : ch < 58 := by
  obtain ⟨hlt, -⟩ := List.idxOf?_eq_some_iff.mp h
  have hlen : pszBase58.length = 58 := by decide
  omega

end Alphabet

section Size

/-- `b58` holds every number of the bytes it is sized for: `log 256 / log 58`
is below `138 / 100`. -/
theorem encode_size_fits (n : ℕ) : 256 ^ n ≤ 58 ^ (n * 138 / 100 + 1) :=
  pow_le_pow_of_period (by decide) (by decide) (by decide) n

/-- `b256` holds every number of the characters it is sized for: `log 58 / log 256`
is below `733 / 1000`. -/
theorem decode_size_fits (n : ℕ) : 58 ^ n ≤ 256 ^ (n * 733 / 1000 + 1) := by
  -- `52 / 71` lies between `log 58 / log 256` and `733 / 1000`, with a period small enough to evaluate
  have hfine : 58 ^ n ≤ 256 ^ (n * 52 / 71 + 1) := pow_le_pow_of_period (by decide) (by decide) (by decide) n
  exact hfine.trans (Nat.pow_le_pow_right (by decide) (by omega))

end Size

/-- The digit loop on a number that fits its buffer passes its assertion. -/
theorem mulAdd_fits {mul radix length size n x : ℕ} {buf : List ℕ} (hradix : 0 < radix)
    (hv : Valid radix size length buf) (hfits : Fits mul radix size (Nat.ofDigits radix buf) (n + 1))
    (hx : x < mul) :
    ∃ buf' length', mulAdd mul radix length x buf = .ok (buf', length') ∧ Valid radix size length' buf' ∧
      Nat.ofDigits radix buf' = Nat.ofDigits radix buf * mul + x ∧
        Fits mul radix size (Nat.ofDigits radix buf * mul + x) n := by
  obtain ⟨buf', i', hloop, h⟩ := mulAddLoop_step hradix hv hfits hx
  exact ⟨buf', i', by simp [mulAdd, hloop], h⟩

section Encode

/-- The byte loop of `EncodeBase58` on bytes that fit `b58` reads them into it,
most significant first. -/
theorem encodeBytes_spec {size : ℕ} : ∀ (pbegin : Bytes) {b58 : List ℕ} {length : ℕ},
    Valid 58 size length b58 → Fits 256 58 size (Nat.ofDigits 58 b58) pbegin.length →
      ∃ b58' length', encodeBytes pbegin b58 length = .ok (b58', length') ∧ Valid 58 size length' b58' ∧
        Nat.ofDigits 58 b58' = (pbegin.map UInt8.toNat).foldl (fun acc d => acc * 256 + d) (Nat.ofDigits 58 b58)
  | [], b58, length, hv, _ => ⟨b58, length, rfl, hv, rfl⟩
  | ch :: pbegin, b58, length, hv, hfits => by
    obtain ⟨b58₁, length₁, hstep, hv₁, hval₁, hfits₁⟩ := mulAdd_fits (by decide) hv hfits ch.toNat_lt
    rw [← hval₁] at hfits₁
    obtain ⟨b58', length', hrest, hv', hval'⟩ := encodeBytes_spec pbegin hv₁ hfits₁
    refine ⟨b58', length', ?_, hv', ?_⟩
    · simp only [encodeBytes, hstep, bind, Except.bind, hrest]
    · rw [hval', hval₁]
      rfl

/-- `base58Digits` gives the digits of a number within its fuel. -/
theorem base58Digits_eq : ∀ (fuel n : ℕ), n < 58 ^ fuel → base58Digits fuel n = (Nat.digits 58 n).reverse
  | 0, n, h => by
    obtain rfl : n = 0 := by simpa using h
    rfl
  | fuel + 1, n, h => by
    rw [base58Digits]
    split_ifs with hn
    · simp [hn]
    · rw [pow_succ] at h
      rw [base58Digits_eq fuel (n / 58) (by omega), Nat.digits_def' (by decide) (Nat.pos_of_ne_zero hn),
        List.reverse_cons]

/-- `EncodeBase58` passes its assertions, and writes the closed form of
`Tokens/Validity`: the digits of the bytes past the leading zeros. -/
theorem encodeBase58_eq_ok (vch : Bytes) : encodeBase58 vch = .ok (AokChain.encodeBase58 vch).toList := by
  simp only [encodeBase58, AokChain.encodeBase58, String.toList_ofList]
  set pbegin := vch.drop (vch.takeWhile (· == 0)).length
  set size := pbegin.length * 138 / 100 + 1
  have hfits : Fits 256 58 size (Nat.ofDigits 58 (List.replicate size 0)) pbegin.length := by
    simpa [Fits] using encode_size_fits pbegin.length
  obtain ⟨b58, length, hloop, hv, hval⟩ := encodeBytes_spec pbegin (valid_replicate (by decide) size) hfits
  rw [ofDigits_replicate_zero', List.foldl_map] at hval
  -- the digits in use are those of the number, which fits the fuel of `base58Digits`
  have hdigits := dropWhile_reverse_take (by decide) hv
  have hlt := ofDigits_lt (by decide) hv
  rw [hval] at hdigits hlt
  rw [hloop, base58Digits_eq size _ hlt]
  simp only [bind, Except.bind, pure, Except.pure, hdigits]

example : encodeBase58 [0, 1, 2] = .ok ['1', '5', 'T'] := rfl

end Encode

section Decode

/-- The character loop of `DecodeBase58` on characters that fit `b256` never
stops on its assertion. -/
theorem decodeChars_ok {size : ℕ} : ∀ (psz : List Char) {b256 : List ℕ} {length : ℕ},
    Valid 256 size length b256 → Fits 58 256 size (Nat.ofDigits 256 b256) psz.length →
      ∃ r, decodeChars psz b256 length = .ok r
  | [], _, _, _, _ => ⟨_, rfl⟩
  | c :: psz, b256, length, hv, hfits => by
    rw [decodeChars]
    split_ifs with hspace
    · exact ⟨_, rfl⟩
    · cases hch : pszBase58.idxOf? c with
      | none => exact ⟨none, rfl⟩
      | some ch =>
        obtain ⟨b256₁, length₁, hstep, hv₁, hval₁, hfits₁⟩ := mulAdd_fits (by decide) hv hfits (idxOf?_lt hch)
        rw [← hval₁] at hfits₁
        obtain ⟨r, hr⟩ := decodeChars_ok psz hv₁ hfits₁
        exact ⟨r, by simp only [hstep, bind, Except.bind, hr]⟩

/-- On characters of the alphabet the loop reads all of their digits into
`b256`, most significant first. -/
theorem decodeChars_digits {size : ℕ} : ∀ (ds : List ℕ) {b256 : List ℕ} {length : ℕ}, (∀ d ∈ ds, d < 58) →
    Valid 256 size length b256 → Fits 58 256 size (Nat.ofDigits 256 b256) ds.length →
      ∃ b256' length', decodeChars (ds.map fun d => pszBase58.getD d '1') b256 length =
          .ok (some (b256', length', [])) ∧ Valid 256 size length' b256' ∧
        Nat.ofDigits 256 b256' = ds.foldl (fun acc d => acc * 58 + d) (Nat.ofDigits 256 b256)
  | [], b256, length, _, hv, _ => ⟨b256, length, rfl, hv, rfl⟩
  | d :: ds, b256, length, hds, hv, hfits => by
    have hd := hds d List.mem_cons_self
    obtain ⟨b256₁, length₁, hstep, hv₁, hval₁, hfits₁⟩ := mulAdd_fits (by decide) hv hfits hd
    rw [← hval₁] at hfits₁
    obtain ⟨b256', length', hrest, hv', hval'⟩ :=
      decodeChars_digits ds (fun x hx => hds x (List.mem_cons_of_mem d hx)) hv₁ hfits₁
    refine ⟨b256', length', ?_, hv', by rw [hval', hval₁]; rfl⟩
    simp only [List.map_cons, decodeChars, isspace_getD hd, idxOf?_getD d hd, Bool.false_eq_true, if_false,
      hstep, bind, Except.bind, hrest]

/-- `DecodeBase58` never stops on its assertion, whatever it is given. -/
theorem decodeBase58_ok (psz : List Char) : ∃ r, decodeBase58 psz = .ok r := by
  simp only [decodeBase58]
  set rest := (psz.dropWhile isspace).drop ((psz.dropWhile isspace).takeWhile (· == '1')).length
  set size := rest.length * 733 / 1000 + 1
  have hfits : Fits 58 256 size (Nat.ofDigits 256 (List.replicate size 0)) rest.length := by
    simpa [Fits] using decode_size_fits rest.length
  obtain ⟨r, hr⟩ := decodeChars_ok rest (valid_replicate (by decide) size) hfits
  rw [hr]
  rcases r with _ | ⟨b256, length, tail⟩
  · exact ⟨none, rfl⟩
  · by_cases htail : (tail.dropWhile isspace).isEmpty
    · exact ⟨_, by simp only [bind, Except.bind, htail, if_true, pure, Except.pure]; rfl⟩
    · exact ⟨none, by simp only [bind, Except.bind, htail, Bool.false_eq_true, if_false]; rfl⟩

/-- The closed form of `EncodeBase58` in the digits of its number. -/
theorem encodeBase58_toList (vch : Bytes) :
    (AokChain.encodeBase58 vch).toList = List.replicate (vch.takeWhile (· == 0)).length '1' ++
      ((Nat.digits 58 ((vch.drop (vch.takeWhile (· == 0)).length).foldl (fun acc b => acc * 256 + b.toNat) 0)).reverse.map
        fun d => pszBase58.getD d '1') := by
  simp only [AokChain.encodeBase58, String.toList_ofList]
  set pbegin := vch.drop (vch.takeWhile (· == 0)).length
  have hval : pbegin.foldl (fun acc b => acc * 256 + b.toNat) 0 = Nat.ofDigits 256 (pbegin.map UInt8.toNat).reverse := by
    rw [← List.foldl_map, foldl_mulAdd]
    simp
  have hlt : pbegin.foldl (fun acc b => acc * 256 + b.toNat) 0 < 58 ^ (pbegin.length * 138 / 100 + 1) := by
    have := Nat.ofDigits_lt_base_pow_length (b := 256) (l := (pbegin.map UInt8.toNat).reverse) (by decide)
      (fun x hx => by
        obtain ⟨a, -, rfl⟩ := List.mem_map.mp (List.mem_reverse.mp hx)
        exact a.toNat_lt)
    rw [List.length_reverse, List.length_map] at this
    exact hval ▸ this.trans_le (encode_size_fits pbegin.length)
  rw [base58Digits_eq _ _ hlt]

/-- Every character of the encoding is the character of a digit. -/
theorem mem_encodeBase58 {vch : Bytes} {c : Char} (hc : c ∈ (AokChain.encodeBase58 vch).toList) :
    ∃ d < 58, c = pszBase58.getD d '1' := by
  rw [encodeBase58_toList] at hc
  rcases List.mem_append.mp hc with hc | hc
  · exact ⟨0, by decide, List.eq_of_mem_replicate hc⟩
  · obtain ⟨d, hd, rfl⟩ := List.mem_map.mp hc
    exact ⟨d, Nat.digits_lt_base (by decide) (List.mem_reverse.mp hd), rfl⟩

/-- `DecodeBase58` of a run of `1`s and base-58 digits without a leading zero:
a zero byte for each `1`, then the bytes of the number the digits make. -/
theorem decodeBase58_ones_digits (zeroes : ℕ) {ds : List ℕ} (hds : ∀ d ∈ ds, d < 58) (hhead : ds.head? ≠ some 0) :
    decodeBase58 (List.replicate zeroes '1' ++ ds.map fun d => pszBase58.getD d '1') =
      .ok (some (List.replicate zeroes 0 ++ (Nat.digits 256 (Nat.ofDigits 58 ds.reverse)).reverse.map UInt8.ofNat)) := by
  set chars := ds.map fun d => pszBase58.getD d '1'
  have hchar : ∀ c ∈ List.replicate zeroes '1' ++ chars, isspace c = false := by
    intro c hc
    rcases List.mem_append.mp hc with hc | hc
    · rw [List.eq_of_mem_replicate hc]
      decide
    · obtain ⟨d, hd, rfl⟩ := List.mem_map.mp hc
      exact isspace_getD (hds d hd)
  -- no character is a space, and the digits do not start with a `1`
  have hspace : (List.replicate zeroes '1' ++ chars).dropWhile isspace = List.replicate zeroes '1' ++ chars :=
    List.dropWhile_eq_self_iff.mpr fun hl => by simp [hchar _ (List.getElem_mem hl)]
  have hones : (List.replicate zeroes '1' ++ chars).takeWhile (· == '1') = List.replicate zeroes '1' := by
    rw [List.takeWhile_append_of_pos (fun a ha => by simp [List.eq_of_mem_replicate ha])]
    cases ds with
    | nil => simp [chars]
    | cons d ds =>
      have hd : d ≠ 0 := fun h => hhead (by simp [h])
      have hne : pszBase58.getD d '1' ≠ '1' := fun h => hd ((getD_eq_one_iff (hds d List.mem_cons_self)).mp h)
      rw [show chars = pszBase58.getD d '1' :: ds.map (fun d => pszBase58.getD d '1') from rfl,
        List.takeWhile_cons_of_neg (by simpa using hne), List.append_nil]
  simp only [decodeBase58, hspace, hones, List.length_replicate]
  rw [List.drop_left' List.length_replicate]
  set size := chars.length * 733 / 1000 + 1
  have hfits : Fits 58 256 size (Nat.ofDigits 256 (List.replicate size 0)) ds.length := by
    have hlen : chars.length = ds.length := List.length_map _
    rw [Fits, ofDigits_replicate_zero', zero_add, one_mul, ← hlen]
    exact decode_size_fits chars.length
  obtain ⟨b256, length, hloop, hv, hval⟩ := decodeChars_digits ds hds (valid_replicate (by decide) size) hfits
  rw [ofDigits_replicate_zero', foldl_mulAdd, zero_mul, zero_add] at hval
  rw [hloop]
  simp only [bind, Except.bind, List.dropWhile_nil, List.isEmpty_nil, if_true, pure, Except.pure,
    dropWhile_reverse_take (by decide) hv, hval]

theorem drop_length_takeWhile {α : Type} (p : α → Bool) (l : List α) :
    l.drop (l.takeWhile p).length = l.dropWhile p :=
  calc l.drop (l.takeWhile p).length = (l.takeWhile p ++ l.dropWhile p).drop (l.takeWhile p).length := by
        rw [List.takeWhile_append_dropWhile]
    _ = l.dropWhile p := List.drop_left

/-- Bytes without a leading zero are the base-256 digits of their number. -/
theorem bytes_of_digits (L : Bytes) (hL : ∀ h : L ≠ [], L.head h ≠ 0) :
    (Nat.digits 256 (L.foldl (fun acc b => acc * 256 + b.toNat) 0)).reverse.map UInt8.ofNat = L := by
  have hn : L.foldl (fun acc b => acc * 256 + b.toNat) 0 = Nat.ofDigits 256 (L.map UInt8.toNat).reverse := by
    rw [← List.foldl_map, foldl_mulAdd]
    simp
  have hlt : ∀ x ∈ (L.map UInt8.toNat).reverse, x < 256 := fun x hx => by
    obtain ⟨a, -, rfl⟩ := List.mem_map.mp (List.mem_reverse.mp hx)
    exact a.toNat_lt
  have hlast : ∀ h : (L.map UInt8.toNat).reverse ≠ [], (L.map UInt8.toNat).reverse.getLast h ≠ 0 := by
    intro h
    rw [List.getLast_reverse, List.head_map]
    intro h0
    exact hL _ (UInt8.toNat_inj.mp h0)
  rw [hn, Nat.digits_ofDigits 256 (by decide) _ hlt hlast, List.reverse_reverse, List.map_map]
  simp [Function.comp_def]

/-- `DecodeBase58` gives back what `EncodeBase58` encodes. -/
theorem decodeBase58Str_encodeBase58 (vch : Bytes) :
    decodeBase58Str (AokChain.encodeBase58 vch).toList = .ok (some vch) := by
  have hpbegin : vch.drop (vch.takeWhile (· == 0)).length = vch.dropWhile (· == 0) := drop_length_takeWhile _ vch
  obtain ⟨n, hn⟩ : ∃ n, (vch.dropWhile (· == 0)).foldl (fun acc b => acc * 256 + b.toNat) 0 = n := ⟨_, rfl⟩
  have hencoded := encodeBase58_toList vch
  rw [hpbegin, hn] at hencoded
  have hdigits : ∀ d ∈ (Nat.digits 58 n).reverse, d < 58 :=
    fun d hd => Nat.digits_lt_base (by decide) (List.mem_reverse.mp hd)
  -- the most significant digit of a number is not zero
  have hhead : (Nat.digits 58 n).reverse.head? ≠ some 0 := by
    rw [List.head?_reverse]
    intro h
    have hne : Nat.digits 58 n ≠ [] := fun h' => by simp [h'] at h
    rw [List.getLast?_eq_some_getLast hne, Option.some.injEq] at h
    exact Nat.getLast_digit_ne_zero 58 (Nat.digits_ne_nil_iff_ne_zero.mp hne) h
  -- no NUL in the string
  have hnul : (AokChain.encodeBase58 vch).toList.takeWhile (· != '\x00') = (AokChain.encodeBase58 vch).toList := by
    rw [List.takeWhile_eq_self_iff]
    intro c hc
    obtain ⟨d, hd, rfl⟩ := mem_encodeBase58 hc
    simpa using getD_ne_nul hd
  rw [decodeBase58Str, hnul, hencoded, decodeBase58_ones_digits _ hdigits hhead, List.reverse_reverse,
    Nat.ofDigits_digits, ← hn, bytes_of_digits _ fun h => by simpa using List.head_dropWhile_not (· == 0) h]
  have hzeros : vch.takeWhile (· == 0) = List.replicate (vch.takeWhile (· == 0)).length 0 :=
    List.eq_replicate_iff.mpr ⟨rfl, fun x hx => by simpa using List.mem_takeWhile_imp hx⟩
  rw [← hzeros, List.takeWhile_append_dropWhile]

end Decode

/-- Base 58 and the IPFS codec on it round-trip.  `EncodeBase58` of any bytes
passes its assertion and writes only characters of the alphabet, which
`DecodeBase58` reads back to the bytes; `DecodeBase58` passes its assertion on
every input; and `DecodeIPFS` undoes `EncodeIPFS` on every byte string. -/
theorem base58_roundTrip :
    (∀ vch : Bytes, ∃ str, encodeBase58 vch = .ok str ∧ (∀ c ∈ str, c ∈ pszBase58) ∧
        decodeBase58Str str = .ok (some vch)) ∧
      (∀ psz : List Char, ∃ r, decodeBase58 psz = .ok r) ∧
      ∀ s : Bytes, decodeIPFS (encodeIPFS s) = .ok s := by
  refine ⟨fun vch => ⟨_, encodeBase58_eq_ok vch, fun c hc => ?_, decodeBase58Str_encodeBase58 vch⟩,
    decodeBase58_ok, fun s => ?_⟩
  · obtain ⟨d, hd, rfl⟩ := mem_encodeBase58 hc
    exact pszBase58_getD_mem hd
  · simp only [decodeIPFS, encodeIPFS, decodeBase58Str_encodeBase58, bind, Except.bind, pure, Except.pure]

end AokChain.Base58
