import Mathlib.Algebra.Order.BigOperators.Group.Finset
import AokChain.Consensus.CheckQueue

/-!
# The check queue is sound and complete for every schedule

The invariant `Books` of the check queue and what it gives.  `nTodo` counts the
queued checks and those in the threads' batches; every added check is queued,
held by a thread or folded; `fAllOk` records whether every folded check ran and
passed; a skipped check always comes after one that ran and failed.  Each kind
of step keeps it, so every reachable state has it, and when `Wait()` returns,
the queue is empty, `nTodo` is `0`, `fAllOk` is `true` again and the result is
whether every check of the round passes.
-/

namespace AokChain

open Interleaving

namespace CheckQueue

variable {C : Type}

/-- Every event is a check that ran and passed. -/
def AllPassed (l : List (CheckEvent C)) : Prop := ∀ e ∈ l, ∃ check, e = .ran check true

/-- Some check ran and failed. -/
def HasFailure (l : List (CheckEvent C)) : Prop := ∃ check, CheckEvent.ran check false ∈ l

/-- A result `ok` that says whether every event passed. -/
def Tally (ok : Bool) (l : List (CheckEvent C)) : Prop :=
  (ok = true → AllPassed l) ∧ (ok = false → HasFailure l)

/-- Every skipped check comes after a check that ran and failed. -/
def Justified (l : List (CheckEvent C)) : Prop :=
  ∀ xs check ys, l = xs ++ .skipped check :: ys → HasFailure xs

/-- What a finished round satisfies: its result says whether all its checks
pass, and each of its checks ran or was skipped after a failure. -/
def Settled (eval : C → Bool) (R : CheckRound C) : Prop :=
  R.result = R.added.all eval ∧ (R.events.map CheckEvent.check).Perm R.added ∧
    Justified R.events ∧ ∀ e ∈ R.events, e.Faithful eval

theorem HasFailure.mono {l l' : List (CheckEvent C)} (h : HasFailure l) (hsub : l ⊆ l') : HasFailure l' := by
  obtain ⟨check, hmem⟩ := h
  exact ⟨check, hsub hmem⟩

theorem allPassed_append {l l' : List (CheckEvent C)} : AllPassed (l ++ l') ↔ AllPassed l ∧ AllPassed l' := by
  simp only [AllPassed, List.mem_append]
  constructor
  · intro h
    exact ⟨fun e he => h e (.inl he), fun e he => h e (.inr he)⟩
  · rintro ⟨h, h'⟩ e (he | he)
    · exact h e he
    · exact h' e he

/-- A skip in a list split in two is justified by what comes before it. -/
theorem justified_append {a b : List (CheckEvent C)} :
    Justified (a ++ b) ↔ Justified a ∧ ∀ xs check ys, b = xs ++ .skipped check :: ys → HasFailure (a ++ xs) := by
  constructor
  · intro h
    refine ⟨fun xs check ys hl => h xs check (ys ++ b) (by rw [hl]; simp), fun xs check ys hb => ?_⟩
    exact h (a ++ xs) check ys (by rw [hb]; simp)
  · rintro ⟨ha, hb⟩ xs check ys hl
    rcases List.append_eq_append_iff.mp hl with ⟨as, hxs, hb'⟩ | ⟨bs, ha', hys⟩
    · -- the skip is in `b`
      rw [hxs]
      exact hb as check ys hb'
    · rcases List.cons_eq_append_iff.mp hys with ⟨rfl, hb'⟩ | ⟨as', rfl, -⟩
      · -- the skip is the first of `b`
        have hf := hb [] check ys (by simpa using hb')
        simpa [ha'] using hf
      · exact ha xs check as' ha'

theorem justified_nil : Justified ([] : List (CheckEvent C)) := by
  intro xs check ys h
  simp at h

/-- A new event keeps the record justified if, when it is a skip, a failure
came before it. -/
theorem Justified.concat {l : List (CheckEvent C)} {e : CheckEvent C} (h : Justified l)
    (he : ∀ check, e = .skipped check → HasFailure l) : Justified (l ++ [e]) := by
  refine justified_append.mpr ⟨h, fun xs check ys hb => ?_⟩
  rcases List.cons_eq_append_iff.mp hb with ⟨rfl, hb'⟩ | ⟨as', -, hnil⟩
  · simp only [List.cons.injEq] at hb'
    simpa using he check hb'.1.symm
  · simp at hnil

/-- A batch folded in between keeps another thread's record justified. -/
theorem Justified.insert {a b c : List (CheckEvent C)} (hb : Justified (a ++ b)) (hc : Justified (a ++ c)) :
    Justified (a ++ b ++ c) := by
  refine justified_append.mpr ⟨hb, fun xs check ys hcs => ?_⟩
  have hf := (justified_append.mp hc).2 xs check ys hcs
  exact hf.mono (by intro e; simp only [List.mem_append]; tauto)

/-- The batch's `fOk`: `true` only if every check of it so far ran and passed,
`false` only after a failure, of this batch or folded before. -/
def BatchTally (fOk : Bool) (done folded : List (CheckEvent C)) : Prop :=
  (fOk = true → AllPassed done) ∧ (fOk = false → HasFailure (folded ++ done))

/-- A thread's locals agree with the ghost record of its batch. -/
def Sound (t : CheckThread C) (folded : List (CheckEvent C)) : Prop :=
  match t.phase with
  | .top nNow fOk => t.done.length = nNow ∧ (nNow = 0 → fOk = true) ∧ BatchTally fOk t.done folded
  | .running nNow vChecks i fOk => vChecks.length = nNow ∧ 0 < nNow ∧ i ≤ nNow ∧
      t.done.map CheckEvent.check = vChecks.take i ∧ BatchTally fOk t.done folded
  | _ => t.done = []

theorem BatchTally.mono {fOk : Bool} {done folded folded' : List (CheckEvent C)} (h : BatchTally fOk done folded)
    (hsub : folded ⊆ folded') : BatchTally fOk done folded' :=
  ⟨h.1, fun hf => (h.2 hf).mono fun e he => by
    simp only [List.mem_append] at he ⊢
    exact he.imp_left (hsub ·)⟩

theorem Sound.mono {t : CheckThread C} {folded folded' : List (CheckEvent C)} (h : Sound t folded)
    (hsub : folded ⊆ folded') : Sound t folded' := by
  unfold Sound at h ⊢
  cases hp : t.phase with
  | top nNow fOk =>
    rw [hp] at h
    exact ⟨h.1, h.2.1, h.2.2.mono hsub⟩
  | running nNow vChecks i fOk =>
    rw [hp] at h
    exact ⟨h.1, h.2.1, h.2.2.1, h.2.2.2.1, h.2.2.2.2.mono hsub⟩
  | outside | waiting | returned _ =>
    rw [hp] at h
    exact h

/-- The bookkeeping invariant of the queue and its ghost record. -/
structure Books (eval : C → Bool) {W : ℕ} (s : CheckSystem C W) : Prop where
  fQuit : s.queue.fQuit = false
  idle : s.queue.nIdle = ∑ i, (s.threads i).phase.idle
  todo : s.queue.nTodo = s.queue.queue.length + ∑ i, (s.threads i).phase.pending
  sound : ∀ i, Sound (s.threads i) s.folded
  held : (↑s.added : Multiset C) = ↑s.queue.queue + ↑(s.folded.map CheckEvent.check) + ∑ i, (s.threads i).held
  faithful : ∀ e ∈ s.folded, e.Faithful eval
  faithfulDone : ∀ i, ∀ e ∈ (s.threads i).done, e.Faithful eval
  justified : ∀ i, Justified (s.folded ++ (s.threads i).done)
  tally : (∀ fRet, (s.threads 0).phase ≠ .returned fRet) → Tally s.queue.fAllOk s.folded
  outcome : ∀ fRet, (s.threads 0).phase = .returned fRet →
    s.queue.queue = [] ∧ s.queue.nTodo = 0 ∧ s.queue.fAllOk = true ∧ Tally fRet s.folded

section Frame

variable {eval : C → Bool} {W : ℕ} {s : CheckSystem C W}

/-- The frame of a thread's step: thread `i` moves to `t`, the queue to `q`,
and `extra` is folded (nothing, or thread `i`'s batch).  The invariant holds
after the step as soon as thread `i`'s own part of it does. -/
theorem Books.update (hb : Books eval s) {i : Fin (W + 1)} {q : CCheckQueue C} {t : CheckThread C}
    {extra : List (CheckEvent C)} (hquit : q.fQuit = false)
    (hidle : q.nIdle + (s.threads i).phase.idle = s.queue.nIdle + t.phase.idle)
    (htodo : q.nTodo + (s.threads i).phase.pending + s.queue.queue.length =
      s.queue.nTodo + t.phase.pending + q.queue.length)
    (hheld : (↑q.queue : Multiset C) + ↑(extra.map CheckEvent.check) + t.held =
      ↑s.queue.queue + (s.threads i).held)
    (hextra : extra = [] ∨ extra = (s.threads i).done) (hsound : Sound t (s.folded ++ extra))
    (hfaith : ∀ e ∈ t.done, e.Faithful eval) (hjust : Justified (s.folded ++ extra ++ t.done))
    (htally : (∀ fRet, (Function.update s.threads i t 0).phase ≠ .returned fRet) →
      Tally q.fAllOk (s.folded ++ extra))
    (houtcome : ∀ fRet, (Function.update s.threads i t 0).phase = .returned fRet →
      q.queue = [] ∧ q.nTodo = 0 ∧ q.fAllOk = true ∧ Tally fRet (s.folded ++ extra)) :
    Books eval { s with queue := q, threads := Function.update s.threads i t, folded := s.folded ++ extra } where
  fQuit := hquit
  idle := by
    have hsum := sum_apply_update_add (fun t : CheckThread C => t.phase.idle) s.threads i t
    have hold := hb.idle
    dsimp only at hsum ⊢
    omega
  todo := by
    have hsum := sum_apply_update_add (fun t : CheckThread C => t.phase.pending) s.threads i t
    have hold := hb.todo
    dsimp only at hsum ⊢
    omega
  sound j := by
    dsimp only
    by_cases hj : j = i
    · subst hj
      simpa using hsound
    · rw [Function.update_of_ne hj]
      exact (hb.sound j).mono (List.subset_append_left _ _)
  held := by
    have hsum := sum_apply_update_add CheckThread.held s.threads i t
    dsimp only
    -- cancel thread `i`'s part before the step on both sides
    apply add_right_cancel (b := (s.threads i).held)
    calc (↑s.added : Multiset C) + (s.threads i).held
        = (↑s.queue.queue + (s.threads i).held) + ↑(s.folded.map CheckEvent.check) +
            ∑ j, (s.threads j).held := by rw [hb.held]; ac_rfl
      _ = (↑q.queue + ↑(extra.map CheckEvent.check) + t.held) + ↑(s.folded.map CheckEvent.check) +
            ∑ j, (s.threads j).held := by rw [hheld]
      _ = ↑q.queue + ↑((s.folded ++ extra).map CheckEvent.check) +
            (∑ j, (s.threads j).held + t.held) := by rw [List.map_append, ← Multiset.coe_add]; ac_rfl
      _ = ↑q.queue + ↑((s.folded ++ extra).map CheckEvent.check) +
            ∑ j, (Function.update s.threads i t j).held + (s.threads i).held := by rw [← hsum]; ac_rfl
  faithful e he := by
    rcases List.mem_append.mp he with he | he
    · exact hb.faithful e he
    · rcases hextra with rfl | rfl
      · simp at he
      · exact hb.faithfulDone i e he
  faithfulDone j := by
    dsimp only
    by_cases hj : j = i
    · subst hj
      simpa using hfaith
    · rw [Function.update_of_ne hj]
      exact hb.faithfulDone j
  justified j := by
    dsimp only
    by_cases hj : j = i
    · subst hj
      simpa using hjust
    · rw [Function.update_of_ne hj]
      rcases hextra with rfl | rfl
      · simpa using hb.justified j
      · exact (hb.justified i).insert (hb.justified j)
  tally := htally
  outcome := houtcome

/-- The master after thread `i` moves to `t`. -/
theorem phase_update_zero (g : Fin (W + 1) → CheckThread C) (i : Fin (W + 1)) (t : CheckThread C) :
    (Function.update g i t 0).phase = if i = 0 then t.phase else (g 0).phase := by
  by_cases hi : i = 0
  · subst hi
    simp
  · rw [Function.update_of_ne (Ne.symm hi), if_neg hi]

/-- Folding a batch into `fAllOk` keeps it a tally of the folded events. -/
theorem Tally.fold {ok fOk : Bool} {folded done : List (CheckEvent C)} (h : Tally ok folded)
    (hb : BatchTally fOk done folded) : Tally (ok && fOk) (folded ++ done) := by
  constructor
  · intro hok
    rw [Bool.and_eq_true] at hok
    exact allPassed_append.mpr ⟨h.1 hok.1, hb.1 hok.2⟩
  · intro hok
    cases ok with
    | false => exact (h.2 rfl).mono (List.subset_append_left _ _)
    | true => exact hb.2 (by simpa using hok)

/-- While the queue is not empty the master has not returned, so `fAllOk` is a
tally of the folded events. -/
theorem Books.tally_of_ne_nil (hb : Books eval s) (hq : s.queue.queue ≠ []) : Tally s.queue.fAllOk s.folded :=
  hb.tally fun fRet hr => hq (hb.outcome fRet hr).1

theorem Books.pending_le (hb : Books eval s) (i : Fin (W + 1)) : (s.threads i).phase.pending ≤ s.queue.nTodo := by
  have hle := Finset.single_le_sum (f := fun j => (s.threads j).phase.pending) (fun j _ => Nat.zero_le _)
    (Finset.mem_univ i)
  rw [hb.todo]
  omega

/-- At the head of the loop: the clean-up folds the thread's batch, and the
thread holds nothing until the `while` loop. -/
theorem Books.cleanup (hb : Books eval s) {i : Fin (W + 1)} {nNow : ℕ} {fOk : Bool}
    (hp : (s.threads i).phase = .top nNow fOk) :
    Books eval
      { s with
        queue := CCheckQueue.cleanup nNow fOk s.queue
        threads := Function.update s.threads i ⟨.outside, []⟩
        folded := s.folded ++ (s.threads i).done } := by
  have hsound := hb.sound i
  unfold Sound at hsound
  rw [hp] at hsound
  obtain ⟨hlen, hzero, hbatch⟩ := hsound
  have hle : nNow ≤ s.queue.nTodo := by simpa [hp, CheckPhase.pending] using hb.pending_le i
  -- what the clean-up does to the counters and to `fAllOk`
  have hq : (CCheckQueue.cleanup nNow fOk s.queue).queue = s.queue.queue ∧
      (CCheckQueue.cleanup nNow fOk s.queue).fQuit = s.queue.fQuit ∧
      (CCheckQueue.cleanup nNow fOk s.queue).nIdle = s.queue.nIdle ∧
      (CCheckQueue.cleanup nNow fOk s.queue).nTodo = s.queue.nTodo - nNow ∧
      (CCheckQueue.cleanup nNow fOk s.queue).fAllOk = (s.queue.fAllOk && fOk) := by
    unfold CCheckQueue.cleanup
    by_cases h0 : nNow = 0
    · simp [h0, hzero h0]
    · simp [h0]
  -- the batch's tally, folded into `fAllOk`, whenever the master has not returned
  have hfold : (∀ fRet, (s.threads 0).phase ≠ .returned fRet) →
      Tally (CCheckQueue.cleanup nNow fOk s.queue).fAllOk (s.folded ++ (s.threads i).done) := fun hnot => by
    rw [hq.2.2.2.2]
    exact (hb.tally hnot).fold hbatch
  apply hb.update
  · exact hq.2.1.trans hb.fQuit
  · simp [hq.2.2.1, hp, CheckPhase.idle]
  · simp only [hq.1, hq.2.2.2.1, hp, CheckPhase.pending]
    omega
  · simp [CheckThread.held, hp, CheckPhase.remaining]
  · exact .inr rfl
  · simp [Sound]
  · simp
  · simpa using hb.justified i
  · intro hnot
    apply hfold
    intro fRet hr
    by_cases hi : i = 0
    · subst hi
      rw [hp] at hr
      cases hr
    · exact hnot fRet (by rw [phase_update_zero, if_neg hi, hr])
  · intro fRet hr
    rw [phase_update_zero] at hr
    by_cases hi : i = 0
    · rw [if_pos hi] at hr
      cases hr
    · rw [if_neg hi] at hr
      obtain ⟨hq0, ht0, hok, htal⟩ := hb.outcome fRet hr
      -- `nTodo = 0`, so the thread had no batch to fold
      have h0 : nNow = 0 := by omega
      have hd : (s.threads i).done = [] := List.length_eq_zero_iff.mp (hlen.trans h0)
      refine ⟨hq.1.trans hq0, by rw [hq.2.2.2.1]; omega, ?_, by simpa [hd] using htal⟩
      rw [hq.2.2.2.2, hok, hzero h0]
      rfl

/-- Waking from `cond.wait`: the thread holds nothing until the `while` loop. -/
theorem Books.wake (hb : Books eval s) {i : Fin (W + 1)} (hp : (s.threads i).phase = .waiting) :
    Books eval
      { s with
        queue := { s.queue with nIdle := s.queue.nIdle - 1 }
        threads := Function.update s.threads i ⟨.outside, []⟩
        folded := s.folded ++ [] } := by
  have hd : (s.threads i).done = [] := by
    have hsound := hb.sound i
    unfold Sound at hsound
    rwa [hp] at hsound
  have hle : 1 ≤ s.queue.nIdle := by
    have hle := Finset.single_le_sum (f := fun j => (s.threads j).phase.idle) (fun j _ => Nat.zero_le _)
      (Finset.mem_univ i)
    simp only [hp, CheckPhase.idle] at hle
    rw [hb.idle]
    exact hle
  -- the master, if it moved, was waiting and had not returned
  have hmaster : ∀ fRet, (Function.update s.threads i ⟨.outside, []⟩ 0).phase = .returned fRet →
      (s.threads 0).phase = .returned fRet := fun fRet hr => by
    rw [phase_update_zero] at hr
    by_cases hi : i = 0
    · rw [if_pos hi] at hr
      cases hr
    · rwa [if_neg hi] at hr
  apply hb.update
  · exact hb.fQuit
  · simp only [hp, CheckPhase.idle]
    omega
  · simp [hp, CheckPhase.pending]
  · simp [CheckThread.held, hp, CheckPhase.remaining, hd]
  · exact .inl rfl
  · simp [Sound]
  · simp
  · simpa [hd] using hb.justified i
  · intro hnot
    simpa using hb.tally fun fRet hr => by
      by_cases hi : i = 0
      · subst hi
        rw [hp] at hr
        cases hr
      · exact hnot fRet (by rw [phase_update_zero, if_neg hi, hr])
  · intro fRet hr
    simpa using hb.outcome fRet (hmaster fRet hr)

/-- The `while` loop of a thread that holds nothing: it returns (the master
only), blocks, or takes a batch. -/
theorem Books.awaitWork (hb : Books eval s) {i : Fin (W + 1)} (hi : s.threads i = ⟨.outside, []⟩) :
    Books eval
      { s with
        queue := (CCheckQueue.awaitWork (decide (i = 0)) s.queue).1
        threads := Function.update s.threads i ⟨(CCheckQueue.awaitWork (decide (i = 0)) s.queue).2, []⟩
        folded := s.folded ++ [] } := by
  have hjust : Justified (s.folded ++ [] ++ []) := by simpa [hi] using hb.justified i
  rcases CCheckQueue.awaitWork_cases (decide (i = 0)) s.queue with
    ⟨hq, hm, h0, hr⟩ | ⟨hq, hm, hr⟩ | ⟨nNow, hpos, hle, hr⟩
  · -- `Loop` returns; only the master does, since `fQuit` is never set
    have hi0 : i = 0 := by simpa [hb.fQuit] using hm
    subst hi0
    rw [hr]
    apply hb.update
    · exact hb.fQuit
    · simp [hi, CheckPhase.idle]
    · simp [hi, CheckPhase.pending]
    · simp [CheckThread.held, hi, CheckPhase.remaining]
    · exact .inl rfl
    · simp [Sound]
    · simp
    · simpa using hjust
    · intro hnot
      exact absurd (by simp) (hnot s.queue.fAllOk)
    · intro fRet hr'
      simp only [Function.update_self, CheckPhase.returned.injEq] at hr'
      subst hr'
      refine ⟨hq, h0, by simp, ?_⟩
      simpa using hb.tally fun fRet hr => by rw [hi] at hr; cases hr
  · -- `cond.wait`
    rw [hr]
    apply hb.update
    · exact hb.fQuit
    · simp [hi, CheckPhase.idle]
    · simp [hi, CheckPhase.pending]
    · simp [CheckThread.held, hi, CheckPhase.remaining]
    · exact .inl rfl
    · simp [Sound]
    · simp
    · simpa using hjust
    · intro hnot
      simpa using hb.tally fun fRet hret => by
        by_cases hi0 : i = 0
        · subst hi0
          rw [hi] at hret
          cases hret
        · exact hnot fRet (by rw [phase_update_zero, if_neg hi0, hret])
    · intro fRet hr'
      rw [phase_update_zero] at hr'
      by_cases hi0 : i = 0
      · rw [if_pos hi0] at hr'
        cases hr'
      · rw [if_neg hi0] at hr'
        simpa using hb.outcome fRet hr'
  · -- a batch of `nNow` checks off the back of the queue
    have hne : s.queue.queue ≠ [] := List.ne_nil_of_length_pos (by omega)
    have htal := hb.tally_of_ne_nil hne
    rw [hr]
    apply hb.update
    · exact hb.fQuit
    · simp [hi, CheckPhase.idle]
    · simp only [hi, CheckPhase.pending, List.length_take]
      omega
    · simp only [CheckThread.held, hi, CheckPhase.remaining, List.drop_zero, List.map_nil]
      simp only [Multiset.coe_reverse, Multiset.coe_nil, add_zero]
      rw [Multiset.coe_add, List.take_append_drop]
    · exact .inl rfl
    · simp only [Sound]
      refine ⟨by simp only [List.length_reverse, List.length_drop]; omega, hpos, Nat.zero_le _, by simp,
        fun _ => by simp [AllPassed], fun hf => by simpa using htal.2 hf⟩
    · simp
    · simpa using hjust
    · intro _
      simpa using htal
    · intro fRet hr'
      rw [phase_update_zero] at hr'
      by_cases hi0 : i = 0
      · rw [if_pos hi0] at hr'
        cases hr'
      · rw [if_neg hi0] at hr'
        exact absurd (hb.outcome fRet hr').1 hne

/-- A step of a thread that neither had nor has returned leaves the master's
return as it was. -/
theorem returned_update_iff {g : Fin (W + 1) → CheckThread C} {i : Fin (W + 1)} {t : CheckThread C}
    (hold : ∀ r, (g i).phase ≠ .returned r) (hnew : ∀ r, t.phase ≠ .returned r) (fRet : Bool) :
    (Function.update g i t 0).phase = .returned fRet ↔ (g 0).phase = .returned fRet := by
  rw [phase_update_zero]
  by_cases hi : i = 0
  · subst hi
    rw [if_pos rfl]
    exact ⟨fun h => absurd h (hnew fRet), fun h => absurd h (hold fRet)⟩
  · rw [if_neg hi]

/-- One check of the batch, run when `fOk` holds and skipped otherwise. -/
theorem Books.runCheck (hb : Books eval s) {i : Fin (W + 1)} {nNow k : ℕ} {vChecks : List C} {fOk : Bool}
    {check : C} (hp : (s.threads i).phase = .running nNow vChecks k fOk) (hc : vChecks[k]? = some check) :
    Books eval
      { s with
        threads := Function.update s.threads i
          ⟨.running nNow vChecks (k + 1) (if fOk then eval check else fOk),
            (s.threads i).done ++ [if fOk then .ran check (eval check) else .skipped check]⟩
        folded := s.folded ++ [] } := by
  have hsound := hb.sound i
  unfold Sound at hsound
  rw [hp] at hsound
  obtain ⟨hlen, hpos, hk, hdone, hbatch⟩ := hsound
  obtain ⟨hklt, hget⟩ := List.getElem?_eq_some_iff.mp hc
  have hdrop : vChecks.drop k = check :: vChecks.drop (k + 1) := by
    rw [List.drop_eq_getElem_cons hklt, hget]
  have hevent : (if fOk then CheckEvent.ran check (eval check) else .skipped check).check = check := by
    cases fOk <;> rfl
  have hnot : ∀ r, (s.threads i).phase ≠ .returned r := fun r h => by rw [hp] at h; cases h
  have hret := returned_update_iff (i := i) hnot (t := ⟨.running nNow vChecks (k + 1)
    (if fOk then eval check else fOk), (s.threads i).done ++ [if fOk then .ran check (eval check) else .skipped check]⟩)
    (fun r h => by cases h)
  apply hb.update
  · exact hb.fQuit
  · simp [hp, CheckPhase.idle]
  · simp [hp, CheckPhase.pending]
  · -- the check moves from the rest of the batch to the events
    simp only [CheckThread.held, hp, CheckPhase.remaining, hdrop, List.map_nil, List.map_append, List.map_cons,
      hevent, Multiset.coe_nil, add_zero, Multiset.coe_add, Multiset.coe_eq_coe]
    refine List.Perm.append_left _ ?_
    rw [List.cons_append, ← List.append_assoc]
    exact List.perm_append_singleton _ _
  · exact .inl rfl
  · simp only [Sound, List.append_nil]
    refine ⟨hlen, hpos, by omega, ?_, ?_, ?_⟩
    · rw [List.map_append, hdone, List.take_add_one, hc]
      simp only [List.map_cons, List.map_nil, hevent, Option.toList_some]
    · intro hok
      cases fOk with
      | false => cases hok
      | true =>
        refine allPassed_append.mpr ⟨hbatch.1 rfl, ?_⟩
        simp only [if_true] at hok ⊢
        simp [AllPassed, hok]
    · intro hok
      cases fOk with
      | false => exact (hbatch.2 rfl).mono fun e he => by simp only [List.mem_append] at he ⊢; tauto
      | true =>
        simp only [if_true] at hok ⊢
        exact ⟨check, by simp [← hok]⟩
  · intro e he
    rcases List.mem_append.mp he with he | he
    · exact hb.faithfulDone i e he
    · rw [List.mem_singleton] at he
      subst he
      cases fOk <;> simp [CheckEvent.Faithful]
  · rw [List.append_nil, ← List.append_assoc]
    refine (hb.justified i).concat fun c hskip => ?_
    cases fOk with
    | false => exact hbatch.2 rfl
    | true => cases hskip
  · intro hnew
    simpa using hb.tally fun r hr => hnew r ((hret r).mpr hr)
  · intro r hr
    simpa using hb.outcome r ((hret r).mp hr)

/-- The end of the batch: `vChecks.clear()`, and back to the head of the loop. -/
theorem Books.endBatch (hb : Books eval s) {i : Fin (W + 1)} {nNow k : ℕ} {vChecks : List C} {fOk : Bool}
    (hp : (s.threads i).phase = .running nNow vChecks k fOk) (hc : vChecks[k]? = none) :
    Books eval
      { s with
        threads := Function.update s.threads i ⟨.top nNow fOk, (s.threads i).done⟩
        folded := s.folded ++ [] } := by
  have hsound := hb.sound i
  unfold Sound at hsound
  rw [hp] at hsound
  obtain ⟨hlen, hpos, hk, hdone, hbatch⟩ := hsound
  have hkeq : k = nNow := by
    have := List.getElem?_eq_none_iff.mp hc
    omega
  have hnot : ∀ r, (s.threads i).phase ≠ .returned r := fun r h => by rw [hp] at h; cases h
  have hret := returned_update_iff (i := i) hnot (t := ⟨.top nNow fOk, (s.threads i).done⟩)
    (fun r h => by cases h)
  apply hb.update
  · exact hb.fQuit
  · simp [hp, CheckPhase.idle]
  · simp [hp, CheckPhase.pending]
  · simp [CheckThread.held, hp, CheckPhase.remaining, hkeq, ← hlen]
  · exact .inl rfl
  · simp only [Sound, List.append_nil]
    refine ⟨?_, fun h0 => absurd h0 (by omega), hbatch⟩
    rw [← List.length_map (f := CheckEvent.check), hdone, List.length_take, hkeq, hlen, Nat.min_self]
  · exact hb.faithfulDone i
  · simpa using hb.justified i
  · intro hnew
    simpa using hb.tally fun r hr => hnew r ((hret r).mpr hr)
  · intro r hr
    simpa using hb.outcome r ((hret r).mp hr)

/-- The head of the loop, from the clean-up to what the `while` loop does. -/
theorem Books.top (hb : Books eval s) {i : Fin (W + 1)} {nNow : ℕ} {fOk : Bool}
    (hp : (s.threads i).phase = .top nNow fOk) :
    Books eval
      { s with
        queue := (CCheckQueue.awaitWork (decide (i = 0)) (CCheckQueue.cleanup nNow fOk s.queue)).1
        threads := Function.update s.threads i
          ⟨(CCheckQueue.awaitWork (decide (i = 0)) (CCheckQueue.cleanup nNow fOk s.queue)).2, []⟩
        folded := s.folded ++ (s.threads i).done } := by
  have hpark := (hb.cleanup hp).awaitWork (i := i) (by simp)
  simpa only [Function.update_idem, List.append_nil] using hpark

/-- Waking from `cond.wait`, to what the `while` loop does. -/
theorem Books.waiting (hb : Books eval s) {i : Fin (W + 1)} (hp : (s.threads i).phase = .waiting) :
    Books eval
      { s with
        queue := (CCheckQueue.awaitWork (decide (i = 0)) { s.queue with nIdle := s.queue.nIdle - 1 }).1
        threads := Function.update s.threads i
          ⟨(CCheckQueue.awaitWork (decide (i = 0)) { s.queue with nIdle := s.queue.nIdle - 1 }).2, []⟩
        folded := s.folded ++ [] } := by
  have hpark := (hb.wake hp).awaitWork (i := i) (by simp)
  simpa only [Function.update_idem, List.append_nil] using hpark

theorem Sound.done_eq_nil {t : CheckThread C} {folded : List (CheckEvent C)} (h : Sound t folded)
    (hp : t.phase.pending = 0) : t.done = [] := by
  unfold Sound at h
  cases hq : t.phase with
  | top nNow fOk =>
    rw [hq] at h hp
    exact List.length_eq_zero_iff.mp (h.1.trans hp)
  | running nNow vChecks i fOk =>
    rw [hq] at h hp
    exact absurd hp (by simp [CheckPhase.pending]; omega)
  | outside | waiting | returned _ =>
    rw [hq] at h
    exact h

/-- Every step of a thread keeps the invariant. -/
theorem Books.step_thread (hb : Books eval s) {i : Fin (W + 1)} {s' : CheckSystem C W}
    (h : s.step eval (.thread i) = some s') : Books eval s' := by
  simp only [CheckSystem.step] at h
  split at h
  · next hin =>
    cases h
    cases hp : (s.threads i).phase with
    | top nNow fOk =>
      by_cases h0 : nNow = 0
      · -- the first pass through the loop: no batch to fold
        have hd : (s.threads i).done = [] := (hb.sound i).done_eq_nil (by simp [hp, CheckPhase.pending, h0])
        have htop := hb.top hp
        simp only [hd, List.append_nil] at htop
        simpa [CheckThread.step, hp, CCheckQueue.loopStep, h0, hd] using htop
      · simpa [CheckThread.step, hp, CCheckQueue.loopStep, h0] using hb.top hp
    | waiting =>
      have hd : (s.threads i).done = [] := (hb.sound i).done_eq_nil (by simp [hp, CheckPhase.pending])
      simpa [CheckThread.step, hp, CCheckQueue.loopStep, hd] using hb.waiting hp
    | running nNow vChecks k fOk =>
      cases hc : vChecks[k]? with
      | some check => simpa [CheckThread.step, hp, CCheckQueue.loopStep, hc] using hb.runCheck hp hc
      | none => simpa [CheckThread.step, hp, CCheckQueue.loopStep, hc] using hb.endBatch hp hc
    | outside | returned _ => simp [hp, CheckPhase.inLoop] at hin
  · cases h

/-- A thread with nothing pending is in no batch: it holds no check of the
round and is sound whatever has been folded. -/
theorem Sound.reset {t : CheckThread C} {folded : List (CheckEvent C)} (h : Sound t folded)
    (hp : t.phase.pending = 0) (folded' : List (CheckEvent C)) : Sound t folded' ∧ t.held = 0 := by
  have hd := h.done_eq_nil hp
  unfold Sound at h ⊢
  cases hq : t.phase with
  | top nNow fOk =>
    rw [hq] at h hp
    have hok : fOk = true := h.2.1 hp
    refine ⟨⟨h.1, h.2.1, fun _ => by simp [hd, AllPassed], fun hf => absurd (hok.symm.trans hf) (by simp)⟩, ?_⟩
    simp [CheckThread.held, hq, CheckPhase.remaining, hd]
  | running nNow vChecks i fOk =>
    rw [hq] at h hp
    exact absurd hp (by simp [CheckPhase.pending]; omega)
  | outside | waiting | returned _ =>
    exact ⟨hd, by simp [CheckThread.held, hq, CheckPhase.remaining, hd]⟩

/-- A tally of events that are the round's checks, each faithful, is whether
every check of the round passes. -/
theorem Tally.result {ok : Bool} {l : List (CheckEvent C)} {added : List C} (h : Tally ok l)
    (hf : ∀ e ∈ l, e.Faithful eval) (hp : (l.map CheckEvent.check).Perm added) : ok = added.all eval := by
  cases ok with
  | false =>
    obtain ⟨check, hc⟩ := h.2 rfl
    have heval : false = eval check := hf _ hc
    have hmem : check ∈ added := hp.subset (List.mem_map_of_mem hc)
    exact (List.all_eq_false.mpr ⟨check, hmem, by rw [← heval]; simp⟩).symm
  | true =>
    refine (List.all_eq_true.mpr fun check hmem => ?_).symm
    obtain ⟨e, he, rfl⟩ := List.mem_map.mp (hp.symm.subset hmem)
    obtain ⟨c, rfl⟩ := h.1 rfl e he
    exact (hf _ he).symm

/-- The invariant speaks only of the queue, the threads and the ghost record of
the round. -/
theorem Books.of_eq {s' : CheckSystem C W} (hb : Books eval s) (hq : s'.queue = s.queue)
    (ht : s'.threads = s.threads) (ha : s'.added = s.added) (hf : s'.folded = s.folded) : Books eval s' := by
  obtain ⟨q, t, c, l, a, f, fin⟩ := s'
  simp only at hq ht ha hf
  subst hq ht ha hf
  exact ⟨hb.fQuit, hb.idle, hb.todo, hb.sound, hb.held, hb.faithful, hb.faithfulDone, hb.justified, hb.tally,
    hb.outcome⟩

/-- Once `nTodo` is `0` no thread has a batch. -/
theorem Books.pending_eq_zero (hb : Books eval s) (h0 : s.queue.nTodo = 0) (j : Fin (W + 1)) :
    (s.threads j).phase.pending = 0 := by
  have hle := hb.pending_le j
  omega

/-- When `Wait()` has returned, the round is settled: its result says whether
every check of the round passes, and each check ran or was skipped after a failure. -/
theorem Books.settled (hb : Books eval s) {fRet : Bool} (hr : (s.threads 0).phase = .returned fRet) :
    Settled eval ⟨s.added, fRet, s.folded⟩ := by
  obtain ⟨hq, h0, -, htal⟩ := hb.outcome fRet hr
  have hheld : ∑ j, (s.threads j).held = 0 :=
    Finset.sum_eq_zero fun j _ => ((hb.sound j).reset (hb.pending_eq_zero h0 j) []).2
  have hperm : (s.folded.map CheckEvent.check).Perm s.added := by
    have h := hb.held
    rw [hq, hheld, Multiset.coe_nil, zero_add, add_zero] at h
    exact (Multiset.coe_eq_coe.mp h).symm
  have hd : (s.threads 0).done = [] := (hb.sound 0).done_eq_nil (by simp [hr, CheckPhase.pending])
  exact ⟨htal.result hb.faithful hperm, hperm, by simpa [hd] using hb.justified 0, hb.faithful⟩

/-- `CCheckQueueControl::Add`, while the master is outside `Wait()`. -/
theorem Books.add (hb : Books eval s) (hm : (s.threads 0).phase = .outside) (batch : List C)
    (c : Controller C) : Books eval { s with queue := s.queue.add batch, ctrl := c, added := s.added ++ batch } where
  fQuit := hb.fQuit
  idle := hb.idle
  todo := by
    simp only [CCheckQueue.add, List.length_append]
    rw [hb.todo]
    omega
  sound := hb.sound
  held := by
    simp only [CCheckQueue.add]
    rw [← Multiset.coe_add, ← Multiset.coe_add, hb.held]
    ac_rfl
  faithful := hb.faithful
  faithfulDone := hb.faithfulDone
  justified := hb.justified
  tally := hb.tally
  outcome fRet hr := by
    rw [hm] at hr
    cases hr

/-- `CCheckQueueControl::Wait`: the master enters `Loop(true)`. -/
theorem Books.enterWait (hb : Books eval s) (hm : (s.threads 0).phase = .outside) :
    Books eval { s with threads := Function.update s.threads 0 ⟨.top 0 true, []⟩, ctrl := .waiting } := by
  have hd : (s.threads 0).done = [] := (hb.sound 0).done_eq_nil (by simp [hm, CheckPhase.pending])
  have hnew : Books eval
      { s with
        queue := s.queue
        threads := Function.update s.threads 0 ⟨.top 0 true, []⟩
        folded := s.folded ++ [] } := by
    apply hb.update
    · exact hb.fQuit
    · simp [hm, CheckPhase.idle]
    · simp [hm, CheckPhase.pending]
    · simp [CheckThread.held, hm, CheckPhase.remaining, hd]
    · exact .inl rfl
    · simp [Sound, BatchTally, AllPassed]
    · simp
    · simpa [hd] using hb.justified 0
    · intro _
      simpa using hb.tally fun fRet hr => by rw [hm] at hr; cases hr
    · intro fRet hr
      simp at hr
  exact hnew.of_eq rfl rfl rfl (List.append_nil _).symm

/-- The controller leaves `Wait()` and starts the next round. -/
theorem Books.nextRound (hb : Books eval s) {fRet : Bool} (hr : (s.threads 0).phase = .returned fRet) :
    Books eval (s.nextRound fRet) := by
  obtain ⟨hq, h0, hok, -⟩ := hb.outcome fRet hr
  have hz := hb.pending_eq_zero h0
  have hmaster : (⟨.outside, []⟩ : CheckThread C).phase.pending = (s.threads 0).phase.pending := by
    simp [hr, CheckPhase.pending]
  refine ⟨hb.fQuit, ?_, ?_, fun j => ?_, ?_, by simp [CheckSystem.nextRound], fun j => ?_, fun j => ?_, ?_, ?_⟩
  · have hidle : (⟨.outside, []⟩ : CheckThread C).phase.idle = (s.threads 0).phase.idle := by
      simp [hr, CheckPhase.idle]
    simp only [CheckSystem.nextRound]
    rw [sum_apply_update_of_eq (fun t : CheckThread C => t.phase.idle) _ _ hidle, hb.idle]
  · simp only [CheckSystem.nextRound]
    rw [sum_apply_update_of_eq (fun t : CheckThread C => t.phase.pending) _ _ hmaster, h0, hq]
    simp [hz]
  · by_cases hj : j = 0
    · subst hj
      simp [CheckSystem.nextRound, Sound]
    · simp only [CheckSystem.nextRound]
      rw [Function.update_of_ne hj]
      exact ((hb.sound j).reset (hz j) []).1
  · simp only [CheckSystem.nextRound, hq, Multiset.coe_nil, List.map_nil, add_zero, zero_add]
    refine (Finset.sum_eq_zero fun j _ => ?_).symm
    by_cases hj : j = 0
    · subst hj
      simp [CheckThread.held, CheckPhase.remaining]
    · rw [Function.update_of_ne hj]
      exact ((hb.sound j).reset (hz j) []).2
  · by_cases hj : j = 0
    · subst hj
      simp [CheckSystem.nextRound]
    · simp only [CheckSystem.nextRound]
      rw [Function.update_of_ne hj]
      exact hb.faithfulDone j
  · by_cases hj : j = 0
    · subst hj
      simpa [CheckSystem.nextRound] using justified_nil
    · simp only [CheckSystem.nextRound]
      rw [Function.update_of_ne hj, (hb.sound j).done_eq_nil (hz j)]
      exact justified_nil
  · intro _
    simp [CheckSystem.nextRound, Tally, hok, AllPassed]
  · intro fRet' hr'
    simp [CheckSystem.nextRound] at hr'

end Frame

section System

variable {eval : C → Bool} {W : ℕ} {s : CheckSystem C W}

/-- Every step of the controller keeps the invariant. -/
theorem Books.step_control (hb : Books eval s) (hm : (s.threads 0).phase = .outside ↔ s.ctrl ≠ .waiting)
    {s' : CheckSystem C W} (h : s.step eval .control = some s') : Books eval s' := by
  cases hc : s.ctrl with
  | adding batches =>
    have hout : (s.threads 0).phase = .outside := hm.mpr (by simp [hc])
    cases batches with
    | cons batch batches =>
      simp only [CheckSystem.step, hc] at h
      cases h
      exact hb.add hout batch _
    | nil =>
      simp only [CheckSystem.step, hc] at h
      cases h
      exact hb.enterWait hout
  | waiting =>
    cases hp : (s.threads 0).phase with
    | returned fRet =>
      simp only [CheckSystem.step, hc, hp] at h
      cases h
      exact hb.nextRound hp
    | outside | top _ _ | waiting | running _ _ _ _ => simp [CheckSystem.step, hc, hp] at h
  | done => simp [CheckSystem.step, hc] at h

/-- The invariant of the whole system: the bookkeeping, the master outside
`Wait()` exactly when the controller is not in it, workers that never leave
`Loop`, the controller's plan, and the settled rounds. -/
structure Inv (eval : C → Bool) (script : List (List (List C))) {W : ℕ} (s : CheckSystem C W) : Prop
    extends Books eval s where
  master : (s.threads 0).phase = .outside ↔ s.ctrl ≠ .waiting
  workers : ∀ i, i ≠ 0 → (s.threads i).phase.inLoop = true
  plan : s.plan = script.map List.flatten
  later : s.ctrl = .done → s.later = []
  rounds : ∀ R ∈ s.finished, Settled eval R

variable {script : List (List (List C))}

/-- Every step of a thread keeps the invariant. -/
theorem Inv.step_thread (hi : Inv eval script s) {i : Fin (W + 1)} {s' : CheckSystem C W}
    (h : s.step eval (.thread i) = some s') : Inv eval script s' := by
  have hb := hi.toBooks.step_thread h
  simp only [CheckSystem.step] at h
  split at h
  · next hin =>
    cases h
    have hloop := CCheckQueue.loopStep_inLoop eval (decide (i = 0)) s.queue hin
    refine ⟨hb, ?_, fun j hj => ?_, hi.plan, hi.later, hi.rounds⟩
    · -- the master stays in `Loop` if it steps, so the controller stays in `Wait()`
      dsimp only
      rw [phase_update_zero]
      by_cases hi0 : i = 0
      · subst hi0
        have hwait : s.ctrl = .waiting := by
          by_contra hc
          have hout := hi.master.mpr hc
          rw [hout] at hin
          cases hin
        simp only [if_true, CheckThread.step_phase, hwait]
        exact ⟨fun h => absurd h hloop.1, fun h => absurd rfl h⟩
      · rw [if_neg hi0]
        exact hi.master
    · dsimp only
      by_cases hji : j = i
      · subst hji
        rw [Function.update_self, CheckThread.step_phase]
        exact hloop.2 (by simp [hj]) hi.fQuit
      · rw [Function.update_of_ne hji]
        exact hi.workers j hj
  · cases h

/-- Every step of the controller keeps the invariant. -/
theorem Inv.step_control (hi : Inv eval script s) {s' : CheckSystem C W}
    (h : s.step eval .control = some s') : Inv eval script s' := by
  have hb := hi.toBooks.step_control hi.master h
  cases hc : s.ctrl with
  | adding batches =>
    cases batches with
    | cons batch batches =>
      simp only [CheckSystem.step, hc] at h
      cases h
      refine ⟨hb, by simpa [hc] using hi.master, hi.workers, ?_, nofun, hi.rounds⟩
      rw [← hi.plan]
      simp [CheckSystem.plan, hc]
    | nil =>
      simp only [CheckSystem.step, hc] at h
      cases h
      refine ⟨hb, by simp, fun j hj => ?_, ?_, nofun, hi.rounds⟩
      · dsimp only
        rw [Function.update_of_ne hj]
        exact hi.workers j hj
      · rw [← hi.plan]
        simp [CheckSystem.plan, hc]
  | waiting =>
    cases hp : (s.threads 0).phase with
    | returned fRet =>
      simp only [CheckSystem.step, hc, hp] at h
      cases h
      have hsettled := hi.toBooks.settled hp
      refine ⟨hb, ?_, fun j hj => ?_, ?_, ?_, ?_⟩
      · cases hl : s.later <;> simp [CheckSystem.nextRound, hl]
      · simp only [CheckSystem.nextRound]
        rw [Function.update_of_ne hj]
        exact hi.workers j hj
      · rw [← hi.plan]
        cases hl : s.later <;> simp [CheckSystem.plan, CheckSystem.nextRound, hc, hl]
      · cases hl : s.later <;> simp [CheckSystem.nextRound, hl]
      · intro R hR
        simp only [CheckSystem.nextRound, List.mem_append, List.mem_singleton] at hR
        rcases hR with hR | rfl
        · exact hi.rounds R hR
        · exact hsettled
    | outside | top _ _ | waiting | running _ _ _ _ => simp [CheckSystem.step, hc, hp] at h
  | done => simp [CheckSystem.step, hc] at h

theorem Inv.step (hi : Inv eval script s) {a : CheckActor W} {s' : CheckSystem C W}
    (h : s.step eval a = some s') : Inv eval script s' := by
  cases a with
  | thread i => exact hi.step_thread h
  | control => exact hi.step_control h

/-- The invariant holds after every schedule. -/
theorem Inv.run (hi : Inv eval script s) (schedule : List (CheckActor W)) :
    Inv eval script (s.run eval schedule) := by
  induction schedule generalizing s with
  | nil => exact hi
  | cons a schedule ih =>
    simp only [CheckSystem.run, List.foldl_cons]
    cases h : s.step eval a with
    | none => exact ih hi
    | some s' => exact ih (hi.step h)

/-- The invariant holds at the start. -/
theorem inv_init (W nBatchSize : ℕ) : Inv eval script (CheckSystem.init W nBatchSize script) := by
  have hzero : ∀ (f : CheckPhase C → ℕ), f .outside = 0 → f (.top 0 true) = 0 →
      ∑ i, f ((CheckSystem.init (C := C) W nBatchSize script).threads i).phase = 0 := fun f ho ht =>
    Finset.sum_eq_zero fun i _ => by
      simp only [CheckSystem.init]
      split <;> assumption
  refine ⟨⟨rfl, ?_, ?_, fun i => ?_, ?_, by simp [CheckSystem.init], fun i => ?_, fun i => ?_, ?_, ?_⟩,
    ?_, fun i hi => ?_, ?_, ?_, by simp [CheckSystem.init]⟩
  · exact (hzero CheckPhase.idle rfl rfl).symm
  · rw [hzero CheckPhase.pending rfl rfl]
    rfl
  · simp only [CheckSystem.init]
    split <;> simp [Sound, BatchTally, AllPassed]
  · simp only [CheckSystem.init, CCheckQueue.make, Multiset.coe_nil, List.map_nil, add_zero, zero_add]
    refine (Finset.sum_eq_zero fun i _ => ?_).symm
    split <;> simp [CheckThread.held, CheckPhase.remaining]
  · simp only [CheckSystem.init]
    split <;> simp
  · simp only [CheckSystem.init]
    split <;> simpa using justified_nil
  · intro _
    simp [CheckSystem.init, CCheckQueue.make, Tally, AllPassed]
  · intro fRet hr
    simp [CheckSystem.init] at hr
  · cases script <;> simp [CheckSystem.init]
  · simp [CheckSystem.init, hi, CheckPhase.inLoop]
  · cases script <;> simp [CheckSystem.plan, CheckSystem.init]
  · cases script <;> simp [CheckSystem.init]

/-- How the ranking moves when thread `i` steps to `t` and the queue to `q`. -/
theorem measure_update (s : CheckSystem C W) (i : Fin (W + 1)) (q : CCheckQueue C) (t : CheckThread C)
    (f : List (CheckEvent C)) :
    ({ s with queue := q, threads := Function.update s.threads i t, folded := f } : CheckSystem C W).measure +
        (s.threads i).phase.weight + 5 * s.queue.queue.length =
      s.measure + t.phase.weight + 5 * q.queue.length := by
  have hsum := sum_apply_update_add (fun t : CheckThread C => t.phase.weight) s.threads i t
  simp only [CheckSystem.measure] at hsum ⊢
  omega

/-- `awaitWork` lowers the thread's weight with the queue's, unless the thread blocks. -/
theorem awaitWork_weight (fMaster : Bool) (q : CCheckQueue C) :
    (CCheckQueue.awaitWork fMaster q).2.weight + 5 * (CCheckQueue.awaitWork fMaster q).1.queue.length <
        5 * q.queue.length + 1 ∨
      (q.queue = [] ∧ ((fMaster || q.fQuit) = true → q.nTodo ≠ 0) ∧
        CCheckQueue.awaitWork fMaster q = ({ q with nIdle := q.nIdle + 1 }, .waiting)) := by
  rcases CCheckQueue.awaitWork_cases fMaster q with ⟨-, -, -, hr⟩ | hwait | ⟨nNow, hpos, hle, hr⟩
  · left
    simp [hr, CheckPhase.weight]
  · exact .inr hwait
  · -- a batch of `nNow` checks weighs `nNow + 3`, and the queue loses `5 * nNow`
    left
    simp only [hr, CheckPhase.weight, List.length_reverse, List.length_drop, List.length_take]
    omega

/-- A thread's step lowers the ranking, unless a waiting thread wakes, finds no
work and waits again, which leaves the state as it was. -/
theorem Books.measure_thread (hb : Books eval s) {i : Fin (W + 1)} {s' : CheckSystem C W}
    (h : s.step eval (.thread i) = some s') :
    s'.measure < s.measure ∨
      ((s.threads i).phase = .waiting ∧ s.queue.queue = [] ∧ (i = 0 → s.queue.nTodo ≠ 0) ∧ s' = s) := by
  simp only [CheckSystem.step] at h
  split at h
  · next hin =>
    have hs' := Option.some.inj h
    have hmu := measure_update s i ((s.threads i).step eval (decide (i = 0)) s.queue).1
      ((s.threads i).step eval (decide (i = 0)) s.queue).2.1
      (s.folded ++ ((s.threads i).step eval (decide (i = 0)) s.queue).2.2)
    rw [hs', CheckThread.step_phase, CheckThread.step_queue] at hmu
    cases hp : (s.threads i).phase with
    | top nNow fOk =>
      left
      rw [hp, show (CheckPhase.top nNow fOk : CheckPhase C).weight = 2 from rfl] at hmu
      simp only [CCheckQueue.loopStep] at hmu
      rcases awaitWork_weight (decide (i = 0)) (CCheckQueue.cleanup nNow fOk s.queue) with hlt | ⟨-, -, hr⟩
      · rw [CCheckQueue.cleanup_queue] at hlt
        omega
      · rw [hr] at hmu
        simp only [CheckPhase.weight, CCheckQueue.cleanup_queue] at hmu
        omega
    | waiting =>
      rw [hp, show (CheckPhase.waiting : CheckPhase C).weight = 1 from rfl] at hmu
      simp only [CCheckQueue.loopStep] at hmu
      rcases awaitWork_weight (decide (i = 0)) { s.queue with nIdle := s.queue.nIdle - 1 } with hlt | ⟨hq, hm, hr⟩
      · left
        simp only at hlt
        omega
      · -- woken for nothing: `nIdle` is back where it was and so is everything else
        right
        simp only at hq hm hr
        refine ⟨rfl, hq, fun hi0 => hm (by simp [hi0]), ?_⟩
        have hle : 1 ≤ s.queue.nIdle := by
          have hle := Finset.single_le_sum (f := fun j => (s.threads j).phase.idle) (fun j _ => Nat.zero_le _)
            (Finset.mem_univ i)
          simp only [hp, CheckPhase.idle] at hle
          rw [hb.idle]
          exact hle
        have hthread : ((s.threads i).step eval (decide (i = 0)) s.queue).2.1 = s.threads i := by
          simp only [CheckThread.step, hp, CCheckQueue.loopStep, hr]
          rw [← hp]
        have hqueue : ((s.threads i).step eval (decide (i = 0)) s.queue).1 = s.queue := by
          simp only [CheckThread.step_queue, hp, CCheckQueue.loopStep, hr, Nat.sub_add_cancel hle]
        have hfold : ((s.threads i).step eval (decide (i = 0)) s.queue).2.2 = [] := by
          simp only [CheckThread.step, hp]
        rw [← hs', hthread, hqueue, hfold, Function.update_eq_self, List.append_nil]
    | running nNow vChecks k fOk =>
      left
      rw [hp] at hmu
      cases hc : vChecks[k]? with
      | some check =>
        have hk : k < vChecks.length := (List.getElem?_eq_some_iff.mp hc).1
        simp only [CCheckQueue.loopStep, hc, CheckPhase.weight] at hmu
        omega
      | none =>
        simp only [CCheckQueue.loopStep, hc, CheckPhase.weight] at hmu
        omega
    | outside | returned _ => simp [hp, CheckPhase.inLoop] at hin
  · cases h

/-- Every step of the controller lowers the ranking. -/
theorem Inv.measure_control (hi : Inv eval script s) {s' : CheckSystem C W}
    (h : s.step eval .control = some s') : s'.measure < s.measure := by
  cases hc : s.ctrl with
  | adding batches =>
    have hout : (s.threads 0).phase = .outside := hi.master.mpr (by simp [hc])
    cases batches with
    | cons batch batches =>
      simp only [CheckSystem.step, hc] at h
      cases h
      simp only [CheckSystem.measure, hc, CCheckQueue.add, List.length_append, CheckSystem.batchesWeight,
        List.map_cons, List.sum_cons]
      omega
    | nil =>
      simp only [CheckSystem.step, hc] at h
      cases h
      have hmu := measure_update s 0 s.queue ⟨.top 0 true, []⟩ s.folded
      simp only [hout, CheckPhase.weight] at hmu
      simp only [CheckSystem.measure, hc, CheckSystem.batchesWeight] at hmu ⊢
      omega
  | waiting =>
    cases hp : (s.threads 0).phase with
    | returned fRet =>
      simp only [CheckSystem.step, hc, hp] at h
      cases h
      have hmu := measure_update s 0 s.queue ⟨.outside, []⟩ []
      simp only [hp, CheckPhase.weight] at hmu
      -- the next round moves from the later rounds to the controller
      cases hl : s.later with
      | nil =>
        simp only [CheckSystem.measure, CheckSystem.nextRound, hc, hl, List.tail_nil, List.map_nil,
          List.sum_nil] at hmu ⊢
        omega
      | cons next rest =>
        simp only [CheckSystem.measure, CheckSystem.nextRound, hc, hl, List.map_cons, List.sum_cons,
          List.tail_cons] at hmu ⊢
        omega
    | outside | top _ _ | waiting | running _ _ _ _ => simp [CheckSystem.step, hc, hp] at h
  | done => simp [CheckSystem.step, hc] at h

/-- A ranking for the system: every step keeps the state or lowers the measure. -/
theorem Inv.measure_step (hi : Inv eval script s) {s' : CheckSystem C W} (h : CheckSystem.Step eval s s') :
    s' = s ∨ s'.measure < s.measure := by
  obtain ⟨a, ha⟩ := h
  cases a with
  | thread i =>
    rcases hi.toBooks.measure_thread ha with hlt | ⟨-, -, -, heq⟩
    · exact .inr hlt
    · exact .inl heq
  | control => exact .inr (hi.measure_control ha)

theorem step_thread_isSome {i : Fin (W + 1)} (hin : (s.threads i).phase.inLoop = true) :
    ∃ s', s.step eval (.thread i) = some s' := by
  simp [CheckSystem.step, hin]

/-- The controller is never stuck: until it has run every round, some actor
can take a step that lowers the measure. -/
theorem Inv.progress (hi : Inv eval script s) (hc : s.ctrl ≠ .done) :
    ∃ a s', s.step eval a = some s' ∧ s'.measure < s.measure := by
  -- a thread that is not blocked lowers the measure
  have hthread : ∀ j, (s.threads j).phase.inLoop = true → (s.threads j).phase ≠ .waiting →
      ∃ a s', s.step eval a = some s' ∧ s'.measure < s.measure := fun j hin hw => by
    obtain ⟨s', hs'⟩ : ∃ s', s.step eval (.thread j) = some s' := step_thread_isSome hin
    rcases hi.toBooks.measure_thread hs' with hlt | ⟨hw', -⟩
    · exact ⟨_, s', hs', hlt⟩
    · exact absurd hw' hw
  have hcontrol : ∀ s', s.step eval .control = some s' → ∃ a s', s.step eval a = some s' ∧ s'.measure < s.measure :=
    fun s' hs' => ⟨_, s', hs', hi.measure_control hs'⟩
  cases hctrl : s.ctrl with
  | adding batches =>
    cases batches with
    | cons batch batches => exact hcontrol _ (by simp [CheckSystem.step, hctrl]; rfl)
    | nil => exact hcontrol _ (by simp [CheckSystem.step, hctrl]; rfl)
  | waiting =>
    have hnot : (s.threads 0).phase ≠ .outside := fun h => hi.master.mp h hctrl
    cases hp : (s.threads 0).phase with
    | outside => exact absurd hp hnot
    | returned fRet => exact hcontrol _ (by simp [CheckSystem.step, hctrl, hp]; rfl)
    | top _ _ => exact hthread 0 (by simp [hp, CheckPhase.inLoop]) (by simp [hp])
    | running _ _ _ _ => exact hthread 0 (by simp [hp, CheckPhase.inLoop]) (by simp [hp])
    | waiting =>
      by_cases hblocked : s.queue.queue = [] ∧ s.queue.nTodo ≠ 0
      · -- the master waits on a batch some other thread has in hand
        have hsum : ∑ j, (s.threads j).phase.pending ≠ 0 := by
          have htodo := hi.todo
          rw [hblocked.1, List.length_nil, zero_add] at htodo
          rw [← htodo]
          exact hblocked.2
        obtain ⟨j, -, hj⟩ := Finset.exists_ne_zero_of_sum_ne_zero hsum
        cases hpj : (s.threads j).phase with
        | top _ _ => exact hthread j (by simp [hpj, CheckPhase.inLoop]) (by simp [hpj])
        | running _ _ _ _ => exact hthread j (by simp [hpj, CheckPhase.inLoop]) (by simp [hpj])
        | outside | waiting | returned _ => simp [hpj, CheckPhase.pending] at hj
      · -- the master itself takes a batch or returns
        obtain ⟨s', hs'⟩ : ∃ s', s.step eval (.thread 0) = some s' :=
          step_thread_isSome (by simp [hp, CheckPhase.inLoop])
        rcases hi.toBooks.measure_thread hs' with hlt | ⟨-, hq, h0, -⟩
        · exact ⟨_, s', hs', hlt⟩
        · exact absurd ⟨hq, h0 rfl⟩ hblocked
  | done => exact absurd hctrl hc

end System

section Soundness

/-- The parallel check queue is sound and complete for every schedule: for any
number of workers, batch size, batches of each round and order in which the
threads and the controller step.  The rounds run so far are those the
controller was given, in order, and each `Wait()` that has returned gave
whether every check its round added passes.  Each of those checks ran (with
the result it gives) or was skipped after a recorded failure.  When `Wait()`
returns, the queue is empty, `nTodo = 0` and `fAllOk = true`.  Until every round
is run some actor can step and lower the ranking, and no run of
state-changing steps is longer than the ranking, so every `Wait()` returns. -/
theorem checkQueue_sound_complete (eval : C → Bool) (W nBatchSize : ℕ) (script : List (List (List C)))
    (schedule : List (CheckActor W)) :
    let s := (CheckSystem.init W nBatchSize script).run eval schedule
    s.finished.map CheckRound.added <+: script.map List.flatten ∧
      (∀ R ∈ s.finished, R.result = R.added.all eval ∧ (R.events.map CheckEvent.check).Perm R.added ∧
        Justified R.events ∧ ∀ e ∈ R.events, e.Faithful eval) ∧
      (∀ fRet, (s.threads 0).phase = .returned fRet →
        s.queue.queue = [] ∧ s.queue.nTodo = 0 ∧ s.queue.fAllOk = true) ∧
      (s.ctrl = .done → s.finished.length = script.length) ∧
      (s.ctrl ≠ .done → ∃ a s', s.step eval a = some s' ∧ s'.measure < s.measure) ∧
      ∀ l, Changing (CheckSystem.Step eval) s l → l.length ≤ s.measure := by
  intro s
  have hi : Inv eval script s := (inv_init W nBatchSize).run schedule
  refine ⟨⟨_, by rw [← hi.plan, CheckSystem.plan, List.append_assoc]⟩, hi.rounds, fun fRet hr => ?_,
    fun hd => ?_, hi.progress, fun l hl => ?_⟩
  · obtain ⟨hq, h0, hok, -⟩ := hi.outcome fRet hr
    exact ⟨hq, h0, hok⟩
  · -- with the controller through, the plan is the finished rounds
    have hplan := hi.plan
    simp only [CheckSystem.plan, hd, hi.later hd, List.map_nil, List.append_nil] at hplan
    simpa using congrArg List.length hplan
  · exact hl.length_le CheckSystem.measure (fun _ _ ht ⟨_, ha⟩ => ht.step ha)
      (fun _ _ ht hst => ht.measure_step hst) hi

/-- One worker, batches of up to four, one round of two checks of which one
fails: the master takes both in turn and `Wait()` returns `false`. -/
example : ((CheckSystem.init 1 4 [[[true, false]]]).run id
    [.control, .control, .thread 0, .thread 0, .thread 0, .thread 0, .thread 0, .thread 0, .thread 0,
      .control]).finished.map CheckRound.result = [false] := by
  decide

/-- The queue refines the control `ConnectBlock` is modelled with: every round's
result is what `CCheckQueueControl.wait` says of the checks handed to it. -/
theorem finished_result_eq_wait (verify : ScriptVerifier) (W nBatchSize : ℕ)
    (script : List (List (List CScriptCheck))) (schedule : List (CheckActor W)) :
    ∀ R ∈ ((CheckSystem.init W nBatchSize script).run (·.run verify) schedule).finished,
      R.result = CCheckQueueControl.wait verify ⟨some R.added⟩ := by
  intro R hR
  have hi : Inv (·.run verify) script ((CheckSystem.init W nBatchSize script).run (·.run verify) schedule) :=
    (inv_init W nBatchSize).run schedule
  rw [(hi.rounds R hR).1]
  rfl

end Soundness

end CheckQueue

end AokChain
