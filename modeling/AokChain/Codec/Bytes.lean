import Mathlib.Data.List.Basic
import Mathlib.Tactic.Ring

/-!
# Byte strings, little-endian numbers and stream readers

A byte string is a list of bytes.  Fixed-width integers are written least
significant byte first; a reader consumes a prefix of its input and fails when
the input runs out, the way a C++ input stream throws.  A `Codec` pairs an
encoder with a reader that recovers every value from the front of any stream,
which is what makes its encodings prefix-free and injective.
-/

namespace Serial

abbrev Bytes := List UInt8

/-- The `k` least significant base-256 digits of `n`, least significant first. -/
def leBytes : ℕ → ℕ → Bytes
  | 0, _ => []
  | k + 1, n => UInt8.ofNat n :: leBytes k (n / 256)

/-- The number whose base-256 digits, least significant first, are the bytes. -/
def leValue : Bytes → ℕ
  | [] => 0
  | b :: bs => b.toNat + 256 * leValue bs

@[simp] theorem length_leBytes (k n : ℕ) : (leBytes k n).length = k := by
  induction k generalizing n with
  | zero => rfl
  | succ k ih => simp [leBytes, ih]

theorem leValue_leBytes (k n : ℕ) : leValue (leBytes k n) = n % 256 ^ k := by
  induction k generalizing n with
  | zero => simp [leBytes, leValue, Nat.mod_one]
  | succ k ih =>
    have h8 : (2 : ℕ) ^ 8 = 256 := by norm_num
    simp only [leBytes, leValue, ih, UInt8.toNat_ofNat', h8, pow_succ', Nat.mod_mul]

theorem leValue_lt (bs : Bytes) : leValue bs < 256 ^ bs.length := by
  induction bs with
  | nil => simp [leValue]
  | cons b bs ih =>
    have hb := UInt8.toNat_lt b
    simp only [leValue, List.length_cons, pow_succ]
    omega

theorem leBytes_leValue (bs : Bytes) : leBytes bs.length (leValue bs) = bs := by
  induction bs with
  | nil => rfl
  | cons b bs ih =>
    have hb := UInt8.toNat_lt b
    have hdiv : (b.toNat + 256 * leValue bs) / 256 = leValue bs := by omega
    have hbyte : UInt8.ofNat (b.toNat + 256 * leValue bs) = b := by
      apply UInt8.toNat_inj.mp
      simp only [UInt8.toNat_ofNat']
      omega
    simp only [List.length_cons, leBytes, leValue, hdiv, ih, hbyte]

/-- Below `256 ^ k` the `k`-byte little-endian encoding loses nothing. -/
theorem leBytes_inj {k m n : ℕ} (hm : m < 256 ^ k) (hn : n < 256 ^ k)
    (h : leBytes k m = leBytes k n) : m = n := by
  have := congrArg leValue h
  rwa [leValue_leBytes, leValue_leBytes, Nat.mod_eq_of_lt hm, Nat.mod_eq_of_lt hn] at this

/-- The last byte is the most significant digit. -/
theorem leValue_append_singleton (w : Bytes) (t : UInt8) :
    leValue (w ++ [t]) = leValue w + 256 ^ w.length * t.toNat := by
  induction w with
  | nil => simp [leValue]
  | cons b w ih =>
    simp only [List.cons_append, leValue, ih, List.length_cons, pow_succ]
    ring

theorem leValue_ne_zero {w : Bytes} {t : UInt8} (ht : t ≠ 0) : leValue (w ++ [t]) ≠ 0 := by
  have hpos : 0 < 256 ^ w.length * t.toNat :=
    Nat.mul_pos (Nat.pow_pos (by norm_num)) (Nat.pos_of_ne_zero (by simpa [← UInt8.toNat_inj] using ht))
  rw [leValue_append_singleton]
  omega

/-- A fact of every byte, from its 256 values. -/
theorem UInt8.forall_of_lt {P : UInt8 → Prop} (h : ∀ n, n < 256 → P (UInt8.ofNat n)) (c : UInt8) : P c := by
  simpa using h c.toNat c.toNat_lt

/-- A stream reader: it consumes a prefix of its input and fails when the input
runs out or is malformed. -/
abbrev Reader := StateT Bytes Option

/-- A byte string as text, one character a byte, as a formatted message prints it. -/
def asciiString (bs : Bytes) : String := String.ofList (bs.map fun b => Char.ofNat b.toNat)

/-- Read exactly `n` bytes. -/
def readBytes (n : ℕ) : Reader Bytes := fun bs =>
  if n ≤ bs.length then some (bs.take n, bs.drop n) else none

/-- Read a `k`-byte little-endian number. -/
def readLE (k : ℕ) : Reader ℕ := leValue <$> readBytes k

theorem readBytes_append (xs rest : Bytes) :
    (readBytes xs.length).run (xs ++ rest) = some (xs, rest) := by
  simp [readBytes, StateT.run]

theorem readLE_leBytes (k n : ℕ) (rest : Bytes) (h : n < 256 ^ k) :
    (readLE k).run (leBytes k n ++ rest) = some (n, rest) := by
  have hr := readBytes_append (leBytes k n) rest
  rw [length_leBytes] at hr
  simp [readLE, hr, leValue_leBytes, Nat.mod_eq_of_lt h]

theorem readBytes_run (k : ℕ) (s : Bytes) :
    (readBytes k).run s = if k ≤ s.length then some (s.take k, s.drop k) else none := rfl

/-- An accepted fixed-width read consumes exactly the encoding of its value. -/
theorem readLE_canonical {k n : ℕ} {s rest : Bytes} (h : (readLE k).run s = some (n, rest)) :
    s = leBytes k n ++ rest ∧ n < 256 ^ k := by
  have hrun : (readLE k).run s = ((readBytes k).run s).map fun p => (leValue p.1, p.2) := by
    simp only [readLE, StateT.run_map]
    rfl
  rw [hrun, readBytes_run] at h
  by_cases hk : k ≤ s.length
  · simp only [hk, if_true, Option.map_some, Option.some.injEq, Prod.mk.injEq] at h
    obtain ⟨rfl, rfl⟩ := h
    have hlen : (s.take k).length = k := List.length_take_of_le hk
    have hlt := leValue_lt (s.take k)
    rw [hlen] at hlt
    refine ⟨?_, hlt⟩
    conv_lhs => rw [← List.take_append_drop k s, ← leBytes_leValue (s.take k)]
    rw [hlen]
  · simp [hk] at h

theorem readLE_one_cons (b : UInt8) (rest : Bytes) :
    (readLE 1).run (b :: rest) = some (b.toNat, rest) := by
  have hb : leBytes 1 b.toNat = [b] := by simp [leBytes]
  have hr := readLE_leBytes 1 b.toNat rest (by simpa using b.toNat_lt)
  rwa [hb] at hr

/-- Sequencing: if `r` reads `xs` back to `a` and `f a` reads `ys` back to `b`
in front of any rest, then `r >>= f` reads `xs ++ ys` back to `b`. -/
theorem run_bind_append {α β : Type} {r : Reader α} {f : α → Reader β} {a : α} {b : β}
    {xs ys rest : Bytes} (hr : r.run (xs ++ (ys ++ rest)) = some (a, ys ++ rest))
    (hf : (f a).run (ys ++ rest) = some (b, rest)) :
    (r >>= f).run (xs ++ ys ++ rest) = some (b, rest) := by
  rw [List.append_assoc]
  simp only [StateT.run_bind, hr, Option.bind_eq_bind, Option.bind_some, hf]

/-- A read in sequence, once its first read is known. -/
theorem run_bind_some {α β : Type} {r : Reader α} {f : α → Reader β} {s s' : Bytes} {a : α}
    (h : r.run s = some (a, s')) : (r >>= f).run s = (f a).run s' := by
  simp only [StateT.run_bind, h, Option.bind_eq_bind, Option.bind_some]

theorem run_bind_none {α β : Type} {r : Reader α} {f : α → Reader β} {s : Bytes}
    (h : r.run s = none) : (r >>= f).run s = none := by
  simp only [StateT.run_bind, h, Option.bind_eq_bind, Option.bind_none]

/-- A read in sequence succeeds only when its first read does and the rest
succeeds after it. -/
theorem run_bind_eq_some {α β : Type} {r : Reader α} {f : α → Reader β} {s s' : Bytes} {b : β}
    (h : (r >>= f).run s = some (b, s')) :
    ∃ a s₁, r.run s = some (a, s₁) ∧ (f a).run s₁ = some (b, s') := by
  simp only [StateT.run_bind, Option.bind_eq_bind] at h
  cases hr : r.run s with
  | none => simp [hr] at h
  | some p =>
    obtain ⟨a, s₁⟩ := p
    simp only [hr, Option.bind_some] at h
    exact ⟨a, s₁, rfl, h⟩

/-- `n` values read one after the other. -/
def readN {α : Type} (r : Reader α) : ℕ → Reader (List α)
  | 0 => pure []
  | n + 1 => do
    let a ← r
    let as ← readN r n
    pure (a :: as)

/-- What every value a reader returns satisfies, every value of a sequence of
its reads satisfies. -/
theorem readN_forall {α : Type} {r : Reader α} {p : α → Prop}
    (hr : ∀ s a s', r.run s = some (a, s') → p a) :
    ∀ (n : ℕ) (s : Bytes) (as : List α) (s' : Bytes), (readN r n).run s = some (as, s') → ∀ a ∈ as, p a
  | 0, s, as, s', h => by
    simp only [readN, StateT.run_pure, Option.pure_def, Option.some.injEq, Prod.mk.injEq] at h
    obtain ⟨rfl, -⟩ := h
    simp
  | n + 1, s, as, s', h => by
    simp only [readN, StateT.run_bind, StateT.run_pure, Option.bind_eq_bind] at h
    cases hs : r.run s with
    | none => simp [hs] at h
    | some p1 =>
      obtain ⟨a, s1⟩ := p1
      cases hn : (readN r n).run s1 with
      | none => simp [hs, hn] at h
      | some p2 =>
        obtain ⟨as', s2⟩ := p2
        simp only [hs, hn, Option.bind_some, Option.pure_def, Option.some.injEq, Prod.mk.injEq] at h
        obtain ⟨rfl, -⟩ := h
        intro b hb
        rcases List.mem_cons.mp hb with rfl | hb
        · exact hr s b s1 hs
        · exact readN_forall hr n s1 as' s2 hn b hb

/-- A sequence of reads recovers a sequence of encodings: where `r` reads the
encoding of each value back as `f` of it, `n` reads read the encodings of `n`
values back as the list of their images. -/
theorem readN_map_flatten {α β : Type} {r : Reader β} {e : α → Bytes} {f : α → β} {p : α → Prop}
    (hr : ∀ a rest, p a → r.run (e a ++ rest) = some (f a, rest)) :
    ∀ (l : List α) (rest : Bytes), (∀ a ∈ l, p a) →
      (readN r l.length).run ((l.map e).flatten ++ rest) = some (l.map f, rest)
  | [], _, _ => rfl
  | a :: l, rest, hl => by
    have ha := hr a ((l.map e).flatten ++ rest) (hl a List.mem_cons_self)
    have hl' := readN_map_flatten hr l rest fun b hb => hl b (List.mem_cons_of_mem a hb)
    simp only [List.length_cons, readN, List.map_cons, List.flatten_cons, List.append_assoc,
      StateT.run_bind, ha, Option.bind_eq_bind, Option.bind_some, hl', StateT.run_pure, Option.pure_def]

/-- An encoder with a reader that recovers every value from the front of any stream. -/
structure Codec (α : Type) where
  encode : α → Bytes
  read : Reader α
  read_encode : ∀ a rest, read.run (encode a ++ rest) = some (a, rest)

namespace Codec

variable {α β : Type}

/-- Encodings are prefix-free: equal streams starting with two encodings start
with the same value, followed by the same rest. -/
theorem encode_append_inj (c : Codec α) {a b : α} {r r' : Bytes}
    (h : c.encode a ++ r = c.encode b ++ r') : a = b ∧ r = r' := by
  have ha := c.read_encode a r
  rw [h, c.read_encode b r'] at ha
  simp only [Option.some.injEq, Prod.mk.injEq] at ha
  exact ⟨ha.1.symm, ha.2.symm⟩

theorem encode_injective (c : Codec α) : Function.Injective c.encode := by
  intro a b h
  exact (c.encode_append_inj (show c.encode a ++ [] = c.encode b ++ [] by simp [h])).1

/-- Two codecs in sequence. -/
def prod (c : Codec α) (d : Codec β) : Codec (α × β) where
  encode p := c.encode p.1 ++ d.encode p.2
  read := do let a ← c.read; let b ← d.read; pure (a, b)
  read_encode p rest := by
    apply run_bind_append (c.read_encode p.1 _)
    simp [d.read_encode]

end Codec

/-- An encoding is prefix-free on the values satisfying `p` when a stream can
start with the encodings of two such values only if they are equal. -/
def PrefixFree {α : Type} (p : α → Prop) (e : α → Bytes) : Prop :=
  ∀ a b r r', p a → p b → e a ++ r = e b ++ r' → a = b ∧ r = r'

variable {α β : Type}

/-- An encoding that a reader recovers from the front of any stream is prefix-free. -/
theorem prefixFree_of_read {p : α → Prop} {e : α → Bytes} (r : Reader α)
    (hr : ∀ a rest, p a → r.run (e a ++ rest) = some (a, rest)) : PrefixFree p e := by
  intro a b s s' ha hb h
  have hra := hr a s ha
  rw [h, hr b s' hb] at hra
  simp only [Option.some.injEq, Prod.mk.injEq] at hra
  exact ⟨hra.1.symm, hra.2.symm⟩

theorem Codec.prefixFree (c : Codec α) : PrefixFree (fun _ => True) c.encode :=
  fun _ _ _ _ _ _ h => c.encode_append_inj h

/-- Injective encodings of one fixed width are prefix-free. -/
theorem prefixFree_of_length {e : α → Bytes} {k : ℕ} (hlen : ∀ a, (e a).length = k)
    (hinj : Function.Injective e) : PrefixFree (fun _ => True) e := by
  intro a b r r' _ _ h
  obtain ⟨hab, hr⟩ := List.append_inj h (by rw [hlen, hlen])
  exact ⟨hinj hab, hr⟩

theorem PrefixFree.mono {p q : α → Prop} {e : α → Bytes} (h : PrefixFree p e)
    (hqp : ∀ a, q a → p a) : PrefixFree q e :=
  fun a b r r' ha hb he => h a b r r' (hqp a ha) (hqp b hb) he

/-- Two prefix-free encodings in sequence. -/
theorem PrefixFree.append {p : α → Prop} {q : β → Prop} {e : α → Bytes} {f : β → Bytes}
    (he : PrefixFree p e) (hf : PrefixFree q f) :
    PrefixFree (fun x : α × β => p x.1 ∧ q x.2) (fun x => e x.1 ++ f x.2) := by
  rintro ⟨a, b⟩ ⟨a', b'⟩ r r' ⟨ha, hb⟩ ⟨ha', hb'⟩ h
  simp only [List.append_assoc] at h
  obtain ⟨rfl, h'⟩ := he a a' _ _ ha ha' h
  obtain ⟨rfl, rfl⟩ := hf b b' r r' hb hb' h'
  exact ⟨rfl, rfl⟩

/-- Lists of one length of prefix-free encodings are prefix-free. -/
theorem PrefixFree.flatMap {p : α → Prop} {e : α → Bytes} (h : PrefixFree p e) :
    ∀ {l l' : List α} {r r' : Bytes}, l.length = l'.length → (∀ a ∈ l, p a) → (∀ a ∈ l', p a) →
      l.flatMap e ++ r = l'.flatMap e ++ r' → l = l' ∧ r = r'
  | [], [], _, _, _, _, _, hr => ⟨rfl, by simpa using hr⟩
  | a :: l, a' :: l', r, r', hlen, hl, hl', he => by
    simp only [List.flatMap_cons, List.append_assoc] at he
    obtain ⟨rfl, he'⟩ := h a a' _ _ (hl a (by simp)) (hl' a' (by simp)) he
    obtain ⟨rfl, rfl⟩ := h.flatMap (by simpa using hlen) (fun b hb => hl b (by simp [hb]))
      (fun b hb => hl' b (by simp [hb])) he'
    exact ⟨rfl, rfl⟩

/-- Chunks of equal lengths, in sequence, can be told apart chunk by chunk. -/
theorem flatMap_range_inj {f g : ℕ → Bytes} {r r' : Bytes} :
    ∀ n, (∀ k < n, (f k).length = (g k).length) →
      (List.range n).flatMap f ++ r = (List.range n).flatMap g ++ r' →
      (∀ k < n, f k = g k) ∧ r = r'
  | 0, _, h => ⟨fun _ hk => absurd hk (Nat.not_lt_zero _), by simpa using h⟩
  | n + 1, hlen, h => by
    simp only [List.range_succ, List.flatMap_append, List.flatMap_cons, List.flatMap_nil,
      List.append_nil, List.append_assoc] at h
    have hprefix : ((List.range n).flatMap f).length = ((List.range n).flatMap g).length := by
      simp only [List.length_flatMap]
      congr 1
      apply List.map_congr_left
      intro k hk
      exact hlen k (by simp at hk; omega)
    obtain ⟨hpre, hlast⟩ := List.append_inj h hprefix
    obtain ⟨hn, hr⟩ := List.append_inj hlast (hlen n (by omega))
    obtain ⟨hks, -⟩ := @flatMap_range_inj f g [] [] n (fun k hk => hlen k (by omega))
      (by simpa using hpre)
    refine ⟨fun k hk => ?_, hr⟩
    rcases Nat.lt_succ_iff_lt_or_eq.mp hk with hk | rfl
    · exact hks k hk
    · exact hn

end Serial
