import Mathlib.Data.Fintype.BigOperators
import AokChain.Lib.Interleaving
import AokChain.Consensus.ScriptChecks

/-!
# The parallel check queue

`CCheckQueue` and `CCheckQueueControl` of `checkqueue.h`.  Worker threads run
`Loop()`; the controller adds batches and then joins them in `Wait()`, which is
`Loop(true)`.  Each critical section of `Loop` is one atomic step, and so is
each check a thread runs outside the lock.  A thread blocked in `cond.wait`
may wake at any step: that covers every notification and every spurious wakeup,
so what is proved holds for every interleaving of the threads and the
controller.

The system carries a ghost record beside the program state: the checks added
in the current round, each thread's events for its current batch (a check run
with its result, or skipped), the events already folded into `fAllOk`, and the
rounds whose `Wait()` has returned.  `Books` is the invariant that ties the
counters, the queue and `fAllOk` to that record; from it, every round's result
is whether all its checks pass, and a ranking bounds how long the threads can
keep changing the state before the controller has run every round.
-/

namespace AokChain

open Interleaving

/-- The state `CCheckQueue<T>` keeps under its mutex. -/
structure CCheckQueue (C : Type) where
  queue : List C
  nIdle : ℕ
  nTotal : ℕ
  fAllOk : Bool
  nTodo : ℕ
  fQuit : Bool
  nBatchSize : ℕ

/-- Where a thread is in `Loop`, with the locals it keeps across the lock. -/
inductive CheckPhase (C : Type) where
  /-- The master, outside `Wait()`. -/
  | outside
  /-- At the head of the `do` loop: its last batch, of `nNow` checks with
  result `fOk`, is not folded into `fAllOk` yet. -/
  | top (nNow : ℕ) (fOk : Bool)
  /-- Blocked in `cond.wait(lock)`. -/
  | waiting
  /-- Running `vChecks` outside the lock, from position `i` on. -/
  | running (nNow : ℕ) (vChecks : List C) (i : ℕ) (fOk : Bool)
  /-- `Loop` has returned `fRet`. -/
  | returned (fRet : Bool)

namespace CCheckQueue

variable {C : Type}

/-- The constructor `CCheckQueue(nBatchSizeIn)`. -/
def make (nBatchSizeIn : ℕ) : CCheckQueue C := ⟨[], 0, 0, true, 0, false, nBatchSizeIn⟩

/-- `Add`: the batch goes on the back of the queue.  Its notifications only wake
threads, and a waiting thread may wake at any step anyway. -/
def add (q : CCheckQueue C) (vChecks : List C) : CCheckQueue C :=
  { q with queue := q.queue ++ vChecks, nTodo := q.nTodo + vChecks.length }

/-- The clean-up of the previous batch at the head of `Loop`'s `do` loop. -/
def cleanup (nNow : ℕ) (fOk : Bool) (q : CCheckQueue C) : CCheckQueue C :=
  if nNow ≠ 0 then { q with fAllOk := q.fAllOk && fOk, nTodo := q.nTodo - nNow }
  else { q with nTotal := q.nTotal + 1 }

/-- The `while (queue.empty())` loop and the batch taken after it, under the lock. -/
def awaitWork (fMaster : Bool) (q : CCheckQueue C) : CCheckQueue C × CheckPhase C :=
  if q.queue.isEmpty then
    if (fMaster || q.fQuit) && q.nTodo == 0 then
      -- reset the status for new work later, and return the current one
      ({ q with nTotal := q.nTotal - 1, fAllOk := if fMaster then true else q.fAllOk }, .returned q.fAllOk)
    else ({ q with nIdle := q.nIdle + 1 }, .waiting)
  else
    let nNow := max 1 (min q.nBatchSize (q.queue.length / (q.nTotal + q.nIdle + 1)))
    let rest := q.queue.length - nNow
    -- `vChecks[i].swap(queue.back()); queue.pop_back();` for each `i < nNow`
    ({ q with queue := q.queue.take rest }, .running nNow (q.queue.drop rest).reverse 0 q.fAllOk)

/-- One atomic step of a thread in `Loop(fMaster)`: a critical section, or one
check of its batch outside the lock. -/
def loopStep (eval : C → Bool) (fMaster : Bool) (q : CCheckQueue C) :
    CheckPhase C → CCheckQueue C × CheckPhase C
  | .top nNow fOk => awaitWork fMaster (cleanup nNow fOk q)
  | .waiting => awaitWork fMaster { q with nIdle := q.nIdle - 1 }
  | .running nNow vChecks i fOk =>
    match vChecks[i]? with
    | some check => (q, .running nNow vChecks (i + 1) (if fOk then eval check else fOk))
    -- `vChecks.clear()`, and back to the head of the loop
    | none => (q, .top nNow fOk)
  | p => (q, p)

/-- What `awaitWork` can do: return, block, or take a batch of `nNow` checks off
the back of the queue, at least one and at most all of them. -/
theorem awaitWork_cases (fMaster : Bool) (q : CCheckQueue C) :
    (q.queue = [] ∧ (fMaster || q.fQuit) = true ∧ q.nTodo = 0 ∧
      awaitWork fMaster q = ({ q with nTotal := q.nTotal - 1, fAllOk := if fMaster then true else q.fAllOk },
        .returned q.fAllOk)) ∨
    (q.queue = [] ∧ ((fMaster || q.fQuit) = true → q.nTodo ≠ 0) ∧
      awaitWork fMaster q = ({ q with nIdle := q.nIdle + 1 }, .waiting)) ∨
    (∃ nNow, 0 < nNow ∧ nNow ≤ q.queue.length ∧
      awaitWork fMaster q = ({ q with queue := q.queue.take (q.queue.length - nNow) },
        .running nNow (q.queue.drop (q.queue.length - nNow)).reverse 0 q.fAllOk)) := by
  unfold awaitWork
  by_cases hq : q.queue = []
  · have hif : q.queue.isEmpty = true := by simp [hq]
    by_cases hr : (fMaster || q.fQuit) = true ∧ q.nTodo = 0
    · refine .inl ⟨hq, hr.1, hr.2, ?_⟩
      rw [if_pos hif, if_pos (by simp [hr.1, hr.2])]
    · refine .inr (.inl ⟨hq, fun h h0 => hr ⟨h, h0⟩, ?_⟩)
      rw [if_pos hif, if_neg (by simpa using hr)]
  · -- a batch of at least one check and at most the whole queue
    have hlen : 0 < q.queue.length := List.length_pos_of_ne_nil hq
    have hdiv := Nat.div_le_self q.queue.length (q.nTotal + q.nIdle + 1)
    refine .inr (.inr ⟨max 1 (min q.nBatchSize (q.queue.length / (q.nTotal + q.nIdle + 1))), by omega, by omega, ?_⟩)
    simp [hq]

@[simp] theorem cleanup_fQuit (nNow : ℕ) (fOk : Bool) (q : CCheckQueue C) :
    (cleanup nNow fOk q).fQuit = q.fQuit := by
  unfold cleanup
  split <;> rfl

@[simp] theorem cleanup_queue (nNow : ℕ) (fOk : Bool) (q : CCheckQueue C) :
    (cleanup nNow fOk q).queue = q.queue := by
  unfold cleanup
  split <;> rfl

end CCheckQueue

namespace CheckPhase

variable {C : Type}

/-- The thread is inside `Loop`. -/
def inLoop : CheckPhase C → Bool
  | .top .. | .waiting | .running .. => true
  | _ => false

/-- The checks the thread has taken off the queue and not folded back into
`nTodo`. -/
def pending : CheckPhase C → ℕ
  | .top nNow _ => nNow
  | .running nNow .. => nNow
  | _ => 0

/-- The thread's part of `nIdle`. -/
def idle : CheckPhase C → ℕ
  | .waiting => 1
  | _ => 0

/-- The checks of its batch the thread has still to run. -/
def remaining : CheckPhase C → List C
  | .running _ vChecks i _ => vChecks.drop i
  | _ => []

/-- The thread's part of the ranking. -/
def weight : CheckPhase C → ℕ
  | .top .. => 2
  | .waiting => 1
  | .running _ vChecks i _ => vChecks.length - i + 3
  | _ => 0

end CheckPhase

/-- `awaitWork` never leaves `Loop` for a worker: only the master returns, as
long as `fQuit` is unset. -/
theorem CCheckQueue.awaitWork_inLoop (fMaster : Bool) (q : CCheckQueue C) :
    (CCheckQueue.awaitWork fMaster q).2 ≠ .outside ∧
      (fMaster = false → q.fQuit = false → (CCheckQueue.awaitWork fMaster q).2.inLoop = true) := by
  rcases CCheckQueue.awaitWork_cases fMaster q with ⟨-, hm, -, hr⟩ | ⟨-, -, hr⟩ | ⟨nNow, -, -, hr⟩
  · rw [hr]
    refine ⟨nofun, fun hf hq => ?_⟩
    simp [hf, hq] at hm
  · rw [hr]
    exact ⟨nofun, fun _ _ => rfl⟩
  · rw [hr]
    exact ⟨nofun, fun _ _ => rfl⟩

/-- A thread in `Loop` stays in it, or (the master only) returns. -/
theorem CCheckQueue.loopStep_inLoop (eval : C → Bool) (fMaster : Bool) (q : CCheckQueue C) {p : CheckPhase C}
    (hp : p.inLoop = true) :
    (CCheckQueue.loopStep eval fMaster q p).2 ≠ .outside ∧
      (fMaster = false → q.fQuit = false → (CCheckQueue.loopStep eval fMaster q p).2.inLoop = true) := by
  cases p with
  | top nNow fOk =>
    simpa [CCheckQueue.loopStep] using CCheckQueue.awaitWork_inLoop fMaster (CCheckQueue.cleanup nNow fOk q)
  | waiting => exact CCheckQueue.awaitWork_inLoop fMaster _
  | running nNow vChecks i fOk =>
    simp only [CCheckQueue.loopStep]
    split <;> exact ⟨nofun, fun _ _ => rfl⟩
  | outside | returned _ => cases hp


/-- What a thread did with a check of its batch (ghost). -/
inductive CheckEvent (C : Type) where
  | ran (check : C) (result : Bool)
  | skipped (check : C)

namespace CheckEvent

variable {C : Type}

def check : CheckEvent C → C
  | .ran check _ => check
  | .skipped check => check

/-- A check that ran returned what it returns. -/
def Faithful (eval : C → Bool) : CheckEvent C → Prop
  | .ran check result => result = eval check
  | .skipped _ => True

end CheckEvent

/-- A thread of the queue: where it is in `Loop`, and (ghost) the events of its
current batch so far. -/
structure CheckThread (C : Type) where
  phase : CheckPhase C
  done : List (CheckEvent C)

namespace CheckThread

variable {C : Type}

/-- One step of the thread: the queue after it, the thread after it, and the
events it folds into `fAllOk`. -/
def step (eval : C → Bool) (fMaster : Bool) (q : CCheckQueue C) (t : CheckThread C) :
    CCheckQueue C × CheckThread C × List (CheckEvent C) :=
  let r := CCheckQueue.loopStep eval fMaster q t.phase
  match t.phase with
  | .top nNow _ => if nNow ≠ 0 then (r.1, ⟨r.2, []⟩, t.done) else (r.1, ⟨r.2, t.done⟩, [])
  | .running _ vChecks i fOk =>
    match vChecks[i]? with
    | some check => (r.1, ⟨r.2, t.done ++ [if fOk then .ran check (eval check) else .skipped check]⟩, [])
    | none => (r.1, ⟨r.2, t.done⟩, [])
  | _ => (r.1, ⟨r.2, t.done⟩, [])

/-- The thread's new phase is what `Loop` does. -/
@[simp] theorem step_phase (eval : C → Bool) (fMaster : Bool) (q : CCheckQueue C) (t : CheckThread C) :
    (t.step eval fMaster q).2.1.phase = (CCheckQueue.loopStep eval fMaster q t.phase).2 := by
  unfold step
  split
  · split <;> rfl
  · split <;> rfl
  · rfl

@[simp] theorem step_queue (eval : C → Bool) (fMaster : Bool) (q : CCheckQueue C) (t : CheckThread C) :
    (t.step eval fMaster q).1 = (CCheckQueue.loopStep eval fMaster q t.phase).1 := by
  unfold step
  split
  · split <;> rfl
  · split <;> rfl
  · rfl

/-- The checks the thread holds: the rest of its batch and those it ran or skipped. -/
def held (t : CheckThread C) : Multiset C := ↑t.phase.remaining + ↑(t.done.map CheckEvent.check)

end CheckThread

/-- The controller, which holds `ControlMutex`: adding the batches of a round,
in `Wait()`, or through with every round. -/
inductive Controller (C : Type) where
  | adding (batches : List (List C))
  | waiting
  | done

/-- A round whose `Wait()` has returned: its checks, the result, and the events
of its checks (ghost). -/
structure CheckRound (C : Type) where
  added : List C
  result : Bool
  events : List (CheckEvent C)

/-- The queue with its `W` workers and the controller, which is thread `0`
while it is in `Wait()`. -/
structure CheckSystem (C : Type) (W : ℕ) where
  queue : CCheckQueue C
  threads : Fin (W + 1) → CheckThread C
  ctrl : Controller C
  /-- The rounds after this one, each a list of batches. -/
  later : List (List (List C))
  /-- Ghost: the checks added in this round. -/
  added : List C
  /-- Ghost: the events of the batches folded into `fAllOk` in this round. -/
  folded : List (CheckEvent C)
  /-- Ghost: the rounds whose `Wait()` has returned. -/
  finished : List (CheckRound C)

/-- Who takes the next step. -/
inductive CheckActor (W : ℕ) where
  | thread (i : Fin (W + 1))
  | control

namespace CheckSystem

variable {C : Type} {W : ℕ} (eval : C → Bool)

/-- The queue of `CCheckQueue(nBatchSize)`, `W` workers that have just entered
`Thread()`, and a controller that runs the rounds of `script` one after another. -/
def init (W nBatchSize : ℕ) (script : List (List (List C))) : CheckSystem C W where
  queue := CCheckQueue.make nBatchSize
  threads := fun i => if i = 0 then ⟨.outside, []⟩ else ⟨.top 0 true, []⟩
  ctrl := match script with
    | batches :: _ => .adding batches
    | [] => .done
  later := script.tail
  added := []
  folded := []
  finished := []

/-- `Wait()` has returned `fRet`: the controller leaves it and starts the next
round, if there is one. -/
def nextRound (s : CheckSystem C W) (fRet : Bool) : CheckSystem C W :=
  { queue := s.queue
    threads := Function.update s.threads 0 ⟨.outside, []⟩
    ctrl := match s.later with
      | batches :: _ => .adding batches
      | [] => .done
    later := s.later.tail
    added := []
    folded := []
    finished := s.finished ++ [⟨s.added, fRet, s.folded⟩] }

/-- One step of an actor, `none` when it cannot step. -/
def step (s : CheckSystem C W) : CheckActor W → Option (CheckSystem C W)
  | .thread i =>
    if (s.threads i).phase.inLoop then
      let r := (s.threads i).step eval (decide (i = 0)) s.queue
      some { s with queue := r.1, threads := Function.update s.threads i r.2.1, folded := s.folded ++ r.2.2 }
    else none
  | .control =>
    match s.ctrl, (s.threads 0).phase with
    -- `CCheckQueueControl::Add`
    | .adding (batch :: batches), _ =>
      some { s with queue := s.queue.add batch, ctrl := .adding batches, added := s.added ++ batch }
    -- `CCheckQueueControl::Wait`: the master enters `Loop(true)`
    | .adding [], _ =>
      some { s with threads := Function.update s.threads 0 ⟨.top 0 true, []⟩, ctrl := .waiting }
    | .waiting, .returned fRet => some (s.nextRound fRet)
    | _, _ => none

/-- Steps of any actor. -/
def Step (s s' : CheckSystem C W) : Prop := ∃ a, s.step eval a = some s'

/-- The system after a schedule of actors; an actor that cannot step is passed over. -/
def run (s : CheckSystem C W) (schedule : List (CheckActor W)) : CheckSystem C W :=
  schedule.foldl (fun s a => (s.step eval a).getD s) s

/-- The checks of every round, as the controller adds them: the finished rounds,
this one, and the rounds after it. -/
def plan (s : CheckSystem C W) : List (List C) :=
  s.finished.map CheckRound.added ++
    (match s.ctrl with
      | .adding batches => [s.added ++ batches.flatten]
      | .waiting => [s.added]
      | .done => []) ++
    s.later.map List.flatten

/-- The ranking weight of the batches still to add. -/
def batchesWeight (batches : List (List C)) : ℕ := (batches.map fun b => 5 * b.length + 1).sum

/-- The ranking: five per queued check, the threads' weights, and what the
controller has still to do. -/
def measure (s : CheckSystem C W) : ℕ :=
  5 * s.queue.queue.length + ∑ i, (s.threads i).phase.weight +
    (match s.ctrl with
      | .adding batches => batchesWeight batches + 4
      | .waiting => 1
      | .done => 0) +
    (s.later.map fun r => batchesWeight r + 4).sum

end CheckSystem

end AokChain
