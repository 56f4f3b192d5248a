import Mathlib.Logic.Relation

/-!
# Closures found by a worklist

A search that keeps a list of elements done and a list of work: each round
takes an element of the work, counts it done, and puts its successors that are
not done yet to work.  `Search` is what such a loop keeps from round to round;
when the work runs out, the elements done are exactly those the relation
reaches from the start.
-/

namespace Closure

open Relation

variable {α : Type} {r : α → α → Prop} {start : α → Prop}

/-- What a worklist search keeps between rounds: everything found is reachable
from the start, the start is found, and each element done has its successors
found. -/
structure Search (r : α → α → Prop) (start : α → Prop) (done work : List α) : Prop where
  sound : ∀ y, y ∈ done ∨ y ∈ work → ∃ x, start x ∧ ReflTransGen r x y
  start_found : ∀ x, start x → x ∈ done ∨ x ∈ work
  closed : ∀ x ∈ done, ∀ y, r x y → y ∈ done ∨ y ∈ work

/-- Before the first round: the work is the start, and what is done already is
closed and reached from the start. -/
theorem Search.init {done work : List α} (hdone : ∀ x ∈ done, start x) (hwork : ∀ x ∈ work, start x)
    (hstart : ∀ x, start x → x ∈ done ∨ x ∈ work) (hclosed : ∀ x ∈ done, ∀ y, r x y → y ∈ done) :
    Search r start done work where
  sound y hy := ⟨y, hy.elim (hdone y) (hwork y), ReflTransGen.refl⟩
  start_found := hstart
  closed x hx y hxy := .inl (hclosed x hx y hxy)

/-- One round: `x` of the work is done, and the work keeps the rest with the
successors of `x`. -/
theorem Search.step {done work done' work' : List α} {x : α} (hs : Search r start done work) (hx : x ∈ work)
    (hdone : ∀ y, y ∈ done' ↔ y = x ∨ y ∈ done) (hwork : ∀ y ∈ work', y ∈ work ∨ r x y)
    (hcover : ∀ y, y ∈ work ∨ r x y → y ∈ done' ∨ y ∈ work') : Search r start done' work' where
  sound y hy := by
    have hfound : ∀ z, z ∈ done ∨ z ∈ work → ∃ x₀, start x₀ ∧ ReflTransGen r x₀ z := hs.sound
    rcases hy with hy | hy
    · rcases (hdone y).mp hy with rfl | hy
      · exact hfound y (.inr hx)
      · exact hfound y (.inl hy)
    · rcases hwork y hy with hy | hxy
      · exact hfound y (.inr hy)
      · obtain ⟨x₀, hx₀, hreach⟩ := hfound x (.inr hx)
        exact ⟨x₀, hx₀, hreach.tail hxy⟩
  start_found x₀ hx₀ := by
    rcases hs.start_found x₀ hx₀ with h | h
    · exact .inl ((hdone x₀).mpr (.inr h))
    · exact hcover x₀ (.inl h)
  closed z hz y hzy := by
    rcases (hdone z).mp hz with rfl | hz
    · exact hcover y (.inr hzy)
    · rcases hs.closed z hz y hzy with h | h
      · exact .inl ((hdone y).mpr (.inr h))
      · exact hcover y (.inl h)

/-- When the work runs out, the elements done are those reachable from the start. -/
theorem Search.mem_done_iff {done : List α} (hs : Search r start done []) (y : α) :
    y ∈ done ↔ ∃ x, start x ∧ ReflTransGen r x y := by
  constructor
  · intro hy
    exact hs.sound y (.inl hy)
  · rintro ⟨x, hx, hreach⟩
    -- along the path every element is done, since nothing is left to work on
    induction hreach with
    | refl => simpa using hs.start_found x hx
    | tail _ hbc ih => simpa using hs.closed _ ih _ hbc

end Closure
