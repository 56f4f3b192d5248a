import Mathlib.Order.Basic

/-!
# Loops run with fuel

A `while` loop, run for at most `fuel` rounds.  Two rules say what it leaves:
an invariant that every round keeps holds after the loop, and a ranking that
every round lowers bounds the rounds, so that fuel at least the ranking of the
start lets the loop stop on its own condition, as the loop of the code does.
-/

namespace FuelLoop

variable {σ : Type} (cond : σ → Bool) (body : σ → σ)

/-- `while (cond(s)) s = body(s);`, for at most `fuel` rounds. -/
def whileFuel : ℕ → σ → σ
  | 0, s => s
  | fuel + 1, s => if cond s then whileFuel fuel (body s) else s

variable {I : σ → Prop}

/-- An invariant that each round keeps holds after the loop. -/
theorem whileFuel_inv (hbody : ∀ s, I s → cond s = true → I (body s)) :
    ∀ (fuel : ℕ) {s : σ}, I s → I (whileFuel cond body fuel s)
  | 0, _, hs => hs
  | fuel + 1, s, hs => by
    rw [whileFuel]
    split
    · exact whileFuel_inv hbody fuel (hbody s hs ‹_›)
    · exact hs

/-- With a ranking that each round of the invariant lowers, fuel at least the
ranking of the start ends the loop on its condition. -/
theorem whileFuel_exits (μ : σ → ℕ) (hbody : ∀ s, I s → cond s = true → I (body s) ∧ μ (body s) < μ s) :
    ∀ (fuel : ℕ) {s : σ}, I s → μ s ≤ fuel → cond (whileFuel cond body fuel s) = false
  | 0, s, hs, hμ => by
    rw [whileFuel]
    cases hc : cond s
    · rfl
    · -- a round from ranking zero would lower it below zero
      have := (hbody s hs hc).2
      omega
  | fuel + 1, s, hs, hμ => by
    rw [whileFuel]
    split
    · obtain ⟨hI, hlt⟩ := hbody s hs ‹_›
      exact whileFuel_exits μ hbody fuel hI (by omega)
    · simpa using ‹¬cond s = true›

end FuelLoop
