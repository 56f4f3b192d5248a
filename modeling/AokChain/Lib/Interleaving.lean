import Mathlib.Algebra.BigOperators.Group.Finset.Piecewise
import Mathlib.Data.Fintype.Basic

/-!
# Interleaved threads over shared state

Threads indexed by a finite type step one at a time, each over its own local
state and the shared one.  What every thread contributes to a shared counter is
a sum over all threads; `sum_apply_update_add` says how such a sum moves when
one thread steps, so a counter's invariant is kept without opening the other
threads.  A ranking that every step keeps or lowers bounds every run of steps
that change the state, which is how a system whose threads may block and wake
at any time is shown to finish.
-/

namespace Interleaving

open Finset

section Contributions

variable {ι α M : Type} [Fintype ι] [DecidableEq ι] [AddCommMonoid M]

/-- When thread `i` moves to `x`, the summed contributions gain what `x`
contributes and lose what thread `i` contributed before. -/
theorem sum_apply_update_add (f : α → M) (g : ι → α) (i : ι) (x : α) :
    ∑ j, f (Function.update g i x j) + f (g i) = ∑ j, f (g j) + f x := by
  have hnew := add_sum_erase univ (fun j => f (Function.update g i x j)) (mem_univ i)
  have hold := add_sum_erase univ (fun j => f (g j)) (mem_univ i)
  -- the other threads contribute what they did
  have hrest : ∑ j ∈ univ.erase i, f (Function.update g i x j) = ∑ j ∈ univ.erase i, f (g j) :=
    sum_congr rfl fun j hj => by rw [Function.update_of_ne (ne_of_mem_erase hj)]
  simp only [Function.update_self] at hnew
  rw [← hnew, ← hold, hrest]
  ac_rfl

/-- A step that keeps thread `i`'s contribution keeps the sum. -/
theorem sum_apply_update_of_eq (f : α → M) (g : ι → α) (i : ι) {x : α} (hx : f x = f (g i)) :
    ∑ j, f (Function.update g i x j) = ∑ j, f (g j) := by
  refine sum_congr rfl fun j _ => ?_
  by_cases hj : j = i
  · subst hj
    rw [Function.update_self, hx]
  · rw [Function.update_of_ne hj]

end Contributions

section Ranking

variable {σ : Type} (R : σ → σ → Prop)

/-- A run of steps of `R` from a state, each of which changes the state. -/
inductive Changing : σ → List σ → Prop
  | nil (s : σ) : Changing s []
  | cons {s t : σ} {l : List σ} : R s t → t ≠ s → Changing t l → Changing s (t :: l)

variable {R} {I : σ → Prop}

/-- A ranking: from a state of the invariant, every step keeps the state or
lowers `μ`.  Then no run of changing steps is longer than `μ` of its start. -/
theorem Changing.length_le (μ : σ → ℕ) (hinv : ∀ s t, I s → R s t → I t)
    (hμ : ∀ s t, I s → R s t → t = s ∨ μ t < μ s) {s : σ} {l : List σ}
    (h : Changing R s l) (hs : I s) : l.length ≤ μ s := by
  induction h with
  | nil => exact Nat.zero_le _
  | cons hst hne _ ih =>
    have hlt : μ _ < μ _ := (hμ _ _ hs hst).resolve_left hne
    have hrest := ih (hinv _ _ hs hst)
    rw [List.length_cons]
    omega

end Ranking

end Interleaving
