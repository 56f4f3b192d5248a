import Mathlib

/-!
# Masks over lists

A list of flags beside a list of entries, as a `std::vector<char>` of inclusion
flags stands beside a vector of values.  `select` keeps the flagged entries in
order.  What it keeps is a sublist, and setting one clear flag adds one entry to
the selection, so the sum over the selection moves by that entry alone.  A
selection taken from a reordering of a list is a sub-multiset of it, and the
last section gives what a sub-multiset keeps: distinct keys and, for entries
that are not negative, a sum no larger.
-/

namespace Mask

variable {α β : Type}

/-- The entries of `xs` whose flag in `mask` is set, in order. -/
def select : List Bool → List α → List α
  | b :: bs, x :: xs => if b then x :: select bs xs else select bs xs
  | _, _ => []

@[simp] theorem select_nil_left (xs : List α) : select [] xs = [] := rfl

@[simp] theorem select_nil_right (mask : List Bool) : select mask ([] : List α) = [] := by
  cases mask <;> rfl

@[simp] theorem select_cons (b : Bool) (bs : List Bool) (x : α) (xs : List α) :
    select (b :: bs) (x :: xs) = if b then x :: select bs xs else select bs xs := rfl

theorem select_sublist : ∀ (mask : List Bool) (xs : List α), (select mask xs).Sublist xs
  | [], _ => List.nil_sublist _
  | _ :: _, [] => List.Sublist.slnil
  | b :: bs, x :: xs => by
    cases b
    · exact (select_sublist bs xs).cons x
    · exact (select_sublist bs xs).cons_cons x

theorem select_map (f : α → β) : ∀ (mask : List Bool) (xs : List α),
    select mask (xs.map f) = (select mask xs).map f
  | [], _ => rfl
  | _ :: _, [] => by simp
  | b :: bs, x :: xs => by cases b <;> simp [select_map f bs xs]

/-- All flags set: the whole list. -/
@[simp] theorem select_replicate_true : ∀ xs : List α, select (List.replicate xs.length true) xs = xs
  | [] => rfl
  | x :: xs => by simp [List.replicate_succ, select_replicate_true xs]

/-- No flag set: nothing. -/
@[simp] theorem select_replicate_false : ∀ (n : ℕ) (xs : List α), select (List.replicate n false) xs = []
  | 0, _ => rfl
  | _ + 1, [] => rfl
  | n + 1, _ :: xs => by simp [List.replicate_succ, select_replicate_false n xs]

/-- Clearing a flag that is clear changes nothing. -/
theorem set_false_of_getD {mask : List Bool} {i : ℕ} (h : mask.getD i false = false) :
    mask.set i false = mask := by
  by_cases hi : i < mask.length
  · have hget : mask[i] = false := by rwa [← List.getElem_eq_getD false] at h
    conv_rhs => rw [← List.set_getElem_self hi]
    rw [hget]
  · exact List.set_eq_of_length_le (by omega)

/-- Setting one flag leaves the others. -/
theorem getD_set_of_ne {mask : List Bool} {i j : ℕ} (b : Bool) (h : j ≠ i) :
    (mask.set i b).getD j false = mask.getD j false := by
  rw [List.getD_eq_getElem?_getD, List.getD_eq_getElem?_getD, List.getElem?_set_ne (Ne.symm h)]

section Sum

variable [AddCommMonoid β] (f : α → β)

/-- Setting the clear flag of entry `i` adds that entry to the sum over the selection. -/
theorem sum_select_set_true : ∀ (mask : List Bool) (xs : List α) (i : ℕ) (hi : i < xs.length),
    i < mask.length → mask.getD i false = false →
      ((select (mask.set i true) xs).map f).sum = ((select mask xs).map f).sum + f xs[i]
  | [], _, _, _, hm, _ => absurd hm (Nat.not_lt_zero _)
  | _ :: _, [], _, hi, _, _ => absurd hi (Nat.not_lt_zero _)
  | b :: bs, x :: xs, 0, _, _, h => by
    -- the flag at the head is the clear one
    simp only [List.getD_cons_zero] at h
    subst h
    simp [add_comm]
  | b :: bs, x :: xs, i + 1, hi, hm, h => by
    simp only [List.getD_cons_succ] at h
    have ih := sum_select_set_true bs xs i (by simpa using hi) (by simpa using hm) h
    cases b <;> simp [ih, add_assoc]

end Sum

section Subperm

variable {l m : List α}

theorem select_subperm (mask : List Bool) (hm : l.Perm m) : (select mask l).Subperm m :=
  (select_sublist mask l).subperm.trans hm.subperm

theorem nodup_map_of_subperm (g : α → β) (h : l.Subperm m) (hm : (m.map g).Nodup) : (l.map g).Nodup := by
  obtain ⟨l', hperm, hsub⟩ := h
  exact (hperm.map g).nodup_iff.mp ((hsub.map g).nodup hm)

theorem sum_le_of_subperm (g : α → ℤ) (h : l.Subperm m) (h0 : ∀ x ∈ m, 0 ≤ g x) :
    (l.map g).sum ≤ (m.map g).sum := by
  obtain ⟨l', hperm, hsub⟩ := h
  rw [← (hperm.map g).sum_eq]
  exact (hsub.map g).sum_le_sum (by simpa using h0)

end Subperm

end Mask
