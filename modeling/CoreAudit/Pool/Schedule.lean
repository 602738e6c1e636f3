import CoreAudit.Pool.Gathering
import CoreAudit.Session

/-!
# A pool of workers

Tasks are run by a pool of workers while their outcomes are gathered. Which task starts or ends
next, and when outcomes are gathered, is given by a schedule; a move that is not possible is passed
over, and what a schedule leaves undone is done in order, so that every list of moves is a
schedule. Tasks that are no longer wanted are cancelled one by one, and meanwhile a worker may still
take them up.

Models `ParallelExecutor` and `parallel_map`. A task is atomic: it changes the session in one step,
at its start. Out of scope: steps of two tasks that interleave.

* **`Pool.step`**: one move.
* **`Pool.run`**: what the tasks come to under a schedule.
-/

namespace CoreAudit.Pool

/-- One move of a pool. -/
inductive Move where
  /-- A worker takes up a task. -/
  | start (i : Nat)
  /-- A task under way ends. -/
  | finish (i : Nat)
  /-- The outcomes of tasks that have ended are gathered, in this order. -/
  | collect (batch : List Nat)
  /-- The next task that is no longer wanted is cancelled, if it has not started. -/
  | withdraw
  /-- The tasks have taken longer than they may. -/
  | expire
  /-- The tasks may take longer than can be waited for. -/
  | refuse
  deriving Repr, DecidableEq

/-- The move comes only where the time for the tasks is limited. -/
def Move.isLimit : Move → Bool
  | expire | refuse => true
  | _ => false

/-- The moves of a schedule that come where the tasks may take as long as they need. -/
def unlimited (schedule : List Move) : List Move := schedule.filter fun m => !m.isLimit

/-- What is known of a task. -/
inductive Slot (α : Type) where
  | waiting (task : Act α)
  /-- The task is under way; its outcome is not known to others yet. -/
  | running (outcome : Except Fault α)
  | finished (outcome : Except Fault α)
  | cancelled

namespace Slot

variable {α : Type}

/-- A worker has the task. -/
def isRunning : Slot α → Bool
  | running _ => true
  | _ => false

/-- The task neither runs nor can still start. -/
def isSettled : Slot α → Bool
  | finished _ | cancelled => true
  | _ => false

/-- The outcome of a task that has ended. -/
def outcome? : Slot α → Option (Except Fault α)
  | finished o => some o
  | _ => none

/-- A task that has not started is cancelled; any other goes on. -/
def cancel : Slot α → Slot α
  | waiting _ => cancelled
  | s => s

/-- The task ends. -/
def finish : Slot α → Slot α
  | running o => finished o
  | s => s

end Slot

end Pool

/-- A pool at work: its workers, what it makes of faults, the channel that it reports to, the
session, the tasks, the outcomes gathered so far, and the tasks that are still to be cancelled, in
order. -/
structure Pool (α : Type) where
  workers : Nat
  policy : Pool.Policy
  channel : Channel
  session : Session
  slots : List (Pool.Slot α)
  gathering : Pool.Gathering α
  unwanted : List Nat

namespace Pool

variable {α : Type}

/-- A pool with tasks that wait. -/
def submit (workers : Nat) (policy : Policy) (channel : Channel) (tasks : List (Act α))
    (session : Session) : Pool α :=
  ⟨workers, policy, channel, session, tasks.map .waiting, .start tasks.length, []⟩

/-- A worker is free. -/
def hasFreeWorker (p : Pool α) : Bool := decide (p.slots.countP Slot.isRunning < p.workers)

/-- The next task that is no longer wanted is cancelled, if it has not started. -/
def withdraw (p : Pool α) : Pool α :=
  match p.unwanted with
  | [] => p
  | i :: unwanted => { p with unwanted, slots := p.slots.modify i Slot.cancel }

/-- A worker takes up a task that waits. -/
def start (p : Pool α) (i : Nat) : Pool α :=
  match p.slots[i]?, p.hasFreeWorker with
  | some (.waiting task), true =>
    let (outcome, session) := task p.session
    { p with session, slots := p.slots.set i (.running outcome) }
  | _, _ => p

/-- A task under way ends. -/
def finish (p : Pool α) (i : Nat) : Pool α := { p with slots := p.slots.modify i Slot.finish }

/-- The outcome of a task that has ended is gathered. A fault is recorded; when it ends the
gathering, the tasks that are still pending may be no longer wanted. -/
def gather (p : Pool α) (i : Nat) : Pool α :=
  match p.slots[i]?.bind Slot.outcome?, p.gathering.awaits i with
  | some outcome, true =>
    let gathering := p.gathering.take p.policy i outcome
    let records := match outcome with
      | .error f => [Mark.record (Gathering.faultRecord p.channel f)]
      | .ok _ => []
    { p with gathering, session := p.session.mark records,
             unwanted := gathering.cancels p.policy }
  | _, _ => p

/-- A task that is still to be gathered has ended. -/
def hasOutcome (p : Pool α) : Bool :=
  p.gathering.pending.any fun i => (p.slots[i]?.bind Slot.outcome?).isSome

/-- The tasks have taken longer than they may: unless some outcome can be gathered, the gathering
ends in a fault and the tasks that are still pending are no longer wanted. -/
def expire (p : Pool α) : Pool α :=
  if p.gathering.isOver || p.hasOutcome then p
  else
    { p with gathering := { p.gathering with raised := some .poolExpired },
             unwanted := p.gathering.pending }

/-- The tasks may take longer than can be waited for: unless some outcome can be gathered, the
gathering ends in a fault. The tasks go on. -/
def refuse (p : Pool α) : Pool α :=
  if p.gathering.isOver || p.hasOutcome then p
  else { p with gathering := { p.gathering with raised := some .limitTooLong } }

/-- One move. -/
def step (p : Pool α) : Move → Pool α
  | .start i => p.start i
  | .finish i => p.finish i
  | .collect batch => batch.foldl gather p
  | .withdraw => p.withdraw
  | .expire => p.expire
  | .refuse => p.refuse

/-- The moves that cancel whatever is no longer wanted of so many tasks. -/
def withdrawals (tasks : Nat) : List Move := List.replicate tasks .withdraw

/-- The moves that run one of so many tasks and gather its outcome, and cancel what is then no
longer wanted. -/
def round (tasks i : Nat) : List Move :=
  [.start i, .finish i, .collect [i]] ++ withdrawals tasks

/-- The moves that do what is left to be done of so many tasks: what is no longer wanted is
cancelled, what is under way ends, and the others are run and gathered in order. -/
def settling (tasks : Nat) : List Move :=
  withdrawals tasks ++ ((List.range tasks).map .finish ++ (List.range tasks).flatMap (round tasks))

/-- The pool after a schedule, and after all that it leaves undone. -/
def conclude (p : Pool α) (schedule : List Move) : Pool α :=
  (schedule ++ settling p.slots.length).foldl step p

/-- Runs tasks by a pool under a schedule and gathers their outcomes in the order of
submission. -/
def run (workers : Nat) (policy : Policy) (channel : Channel) (schedule : List Move)
    (tasks : List (Act α)) : Act (List (Except Fault α)) := fun s =>
  let p := (submit workers policy channel tasks s).conclude schedule
  (p.gathering.result tasks.length, p.session)

/-- The values of outcomes, or the first fault among them. -/
def values : List (Except Fault α) → Except Fault (List α)
  | [] => .ok []
  | .ok x :: rest => (values rest).map (x :: ·)
  | .error f :: _ => .error f

/-- The number of workers where none is asked for. -/
def defaultWorkers : Nat := 32

/-- The number of workers that is asked for; there must be one at least. -/
def workers? : Option Int → Except Fault Nat
  | none => .ok defaultWorkers
  | some n => if n ≤ 0 then .error .noWorkers else .ok n.toNat

/-- The number of workers that is asked for, or one where it is not positive. -/
def workersFor (asked : Int) : Nat := (max 1 asked).toNat

/-- There is a worker whatever is asked for. -/
theorem one_le_workersFor (asked : Int) : 1 ≤ workersFor asked := by
  unfold workersFor; omega

/-- A pool has a worker. -/
theorem pos_of_workers? {asked : Option Int} {n : Nat} (h : workers? asked = .ok n) : 0 < n := by
  unfold workers? at h
  split at h
  · cases h; decide
  · split at h
    · cases h
    · cases h; omega

end Pool

end CoreAudit
