import CoreAudit.Proofs.Pool.Run
import Mathlib.Data.List.Nodup

/-!
# No task outlives its pool

When the gathering of outcomes has come to its end, with values or in a fault, the pool still ends
what is under way. `Settlement` says where it leaves its tasks: each has run exactly once or was
cancelled before it was taken up, and no later move takes up another (`takenAll_of_settled`). The
runs are real ones: the session is what the tasks that were taken up leave when they are run in that
order (`Replay`).

A worker may take up a task at any moment before the task is cancelled, also after the gathering has
ended; schedules say when.

Headline: **`run_leaves_no_task`**: how a pool leaves its tasks, and what it comes to, under every
schedule.
-/

namespace CoreAudit.Pool

variable {α : Type}

/-! ## Runs of tasks, one after the other -/

/-- The tasks of the places `started`, run in this order on the session `s`, leave the session `t`;
in between, records may be left. -/
inductive Replay (tasks : List (Act α)) (s : Session) : List Nat → Session → Prop where
  | nil : Replay tasks s [] s
  | records {started : List Nat} {t : Session} (rs : List LogRecord) :
      Replay tasks s started t → Replay tasks s started (t.mark (rs.map .record))
  | task {started : List Nat} {t : Session} {i : Nat} {task : Act α} :
      tasks[i]? = some task → Replay tasks s started t →
        Replay tasks s (started ++ [i]) (task t).2

/-- The outcome is what the task of the place came to when it was run after others. -/
def CameTo (tasks : List (Act α)) (s : Session) (i : Nat) (outcome : Except Fault α) : Prop :=
  ∃ started t task, tasks[i]? = some task ∧ i ∉ started ∧ Replay tasks s started t ∧
    (task t).1 = outcome

/-- The tasks that a pool takes up are run one after the other. -/
theorem replays (tasks : List (Act α)) (s : Session) :
    Contract tasks (Replay tasks s) (CameTo tasks s) where
  records := fun rs h => h.records rs
  task := fun hat hnew h => ⟨⟨_, _, _, hat, hnew, h, rfl⟩, h.task hat⟩

/-! ## A pool whose tasks are settled -/

theorem slots_step_of_settled {p : Pool α} (h : ∀ slot ∈ p.slots, slot.isSettled = true)
    (m : Move) : (p.step m).slots = p.slots := by
  cases m with
  | start i =>
    rcases p.start_cases i with ⟨task, hwaits, _⟩ | ⟨_, hstart⟩
    · exact absurd (h _ (List.mem_of_getElem? hwaits)) Bool.false_ne_true
    · exact congrArg Pool.slots hstart
  | finish i =>
    refine List.ext_getElem? fun j => ?_
    rw [show p.step (.finish i) = p.finish i from rfl, slots_finish]
    split
    · rcases hslot : p.slots[j]? with _ | task | outcome | outcome | _
      case some.running => exact absurd (h _ (List.mem_of_getElem? hslot)) Bool.false_ne_true
      all_goals rfl
    · rfl
  | collect batch => exact p.slots_collect batch
  | withdraw =>
    refine List.ext_getElem? fun j => ?_
    rw [show p.step .withdraw = p.withdraw from rfl]
    rcases p.slots_withdraw j with hsame | hcancelled
    · exact hsame
    · rw [hcancelled]
      rcases hslot : p.slots[j]? with _ | task | outcome | outcome | _
      case some.waiting => exact absurd (h _ (List.mem_of_getElem? hslot)) Bool.false_ne_true
      all_goals rfl
  | expire =>
    show p.expire.slots = p.slots
    unfold expire
    split <;> rfl
  | refuse =>
    show p.refuse.slots = p.slots
    unfold refuse
    split <;> rfl

/-- **Where all tasks are settled, no later move takes one up.** -/
theorem takenAll_of_settled {p : Pool α} (h : ∀ slot ∈ p.slots, slot.isSettled = true)
    (moves : List Move) : p.takenAll moves = [] := by
  induction moves generalizing p with
  | nil => rfl
  | cons m moves ih =>
    have htaken : p.taken m = [] := by
      cases m with
      | start i =>
        rcases p.start_cases i with ⟨task, hwaits, _⟩ | ⟨htaken, _⟩
        · exact absurd (h _ (List.mem_of_getElem? hwaits)) Bool.false_ne_true
        · exact htaken
      | _ => rfl
    rw [takenAll, htaken, List.nil_append]
    exact ih fun slot hslot => h slot (by rwa [slots_step_of_settled h] at hslot)

/-! ## How a pool leaves its tasks -/

/-- How a pool leaves its tasks, where those of the places `started` were taken up, in this
order. -/
structure Settlement (tasks : List (Act α)) (s : Session) (started : List Nat) (p : Pool α) :
    Prop where
  /-- The session is what these tasks leave. -/
  session : Replay tasks s started p.session
  /-- Every task ran exactly once, to its end, or was cancelled before it was taken up. -/
  each : ∀ i < tasks.length,
    (started.count i = 1 ∧
      ∃ outcome, p.slots[i]? = some (.finished outcome) ∧ CameTo tasks s i outcome) ∨
    (started.count i = 0 ∧ p.slots[i]? = some .cancelled)
  /-- No task is under way or waits. -/
  settled : ∀ slot ∈ p.slots, slot.isSettled = true
  /-- No task can still start. -/
  ended : ∀ moves, p.takenAll moves = []

/-- A pool that is upheld and whose tasks are settled leaves each of them finished after one run, or
cancelled without any. -/
theorem Settlement.of_upholds {tasks : List (Act α)} {s : Session} {limited : Prop}
    {started : List Nat} {p : Pool α}
    (h : Upholds tasks (Replay tasks s) (CameTo tasks s) limited started p)
    (hsettled : ∀ slot ∈ p.slots, slot.isSettled = true) : Settlement tasks s started p where
  session := h.session
  each := by
    intro i hi
    rw [← h.length] at hi
    have hslot : p.slots[i]? = some p.slots[i] := List.getElem?_eq_getElem hi
    have hdone := hsettled _ (List.mem_of_getElem? hslot)
    have hagrees := h.slots hslot
    rcases hat : p.slots[i] with task | outcome | outcome | _
    · rw [hat] at hdone
      cases hdone
    · rw [hat] at hdone
      cases hdone
    · rw [hat] at hslot hagrees
      exact Or.inl ⟨List.count_eq_one_of_mem h.nodup hagrees.2, outcome, hslot, hagrees.1⟩
    · rw [hat] at hslot hagrees
      exact Or.inr ⟨List.count_eq_zero_of_not_mem hagrees.1, hslot⟩
  settled := hsettled
  ended := takenAll_of_settled hsettled

/-- **No task outlives its pool.** Whatever the workers that are asked for, what is made of faults,
the schedule and the tasks, and whether the pool hands over outcomes or ends in a fault: no task is
under way or can still start, and each ran exactly once or was cancelled before it was taken up.
Where outcomes are handed over, every task ran, and they are what the tasks came to. A fault is that
of a task that failed, unless the time was limited and ran out. -/
theorem run_leaves_no_task {asked : Option Int} {workers : Nat}
    (hworkers : workers? asked = .ok workers) (policy : Policy) (channel : Channel)
    (schedule : List Move) (tasks : List (Act α)) {s t : Session}
    {result : Except Fault (List (Except Fault α))}
    (hrun : Pool.run workers policy channel schedule tasks s = (result, t)) :
    let started :=
      (submit workers policy channel tasks s).takenAll (schedule ++ settling tasks.length)
    let p := (submit workers policy channel tasks s).conclude schedule
    p.session = t ∧ Settlement tasks s started p ∧
      (∀ outcomes, result = .ok outcomes → outcomes.length = tasks.length ∧
        ∀ i < tasks.length, started.count i = 1 ∧
          p.slots[i]? = (outcomes[i]?).map Slot.finished) ∧
      (∀ f, result = .error f → (IsStop f ∧ ∃ m ∈ schedule, m.isLimit = true) ∨
        policy.returnFaults = false ∧ ∃ i : Nat, p.slots[i]? = some (.finished (.error f))) := by
  intro started p
  have hpos := pos_of_workers? hworkers
  have hlimited : ∀ m ∈ schedule, m.isLimit = true → ∃ m ∈ schedule, m.isLimit = true :=
    fun m hm hlimit => ⟨m, hm, hlimit⟩
  obtain ⟨hend, hpending⟩ :=
    conclude_upholds (replays tasks s) hpos policy channel hlimited Replay.nil
  have hsettlement : Settlement tasks s started p :=
    .of_upholds hend (isSettled_conclude hpos schedule)
  have hterms : SameTerms (submit workers policy channel tasks s) p := sameTerms_foldl _ _
  obtain ⟨hresult, hsession⟩ := Prod.mk.inj hrun
  refine ⟨hsession, hsettlement, fun outcomes hok => ?_, fun f hfault => ?_⟩
  · obtain ⟨hlength, hvalues⟩ := hend.outcomes hpending (hresult.trans hok)
    refine ⟨hlength, fun i hi => ?_⟩
    obtain ⟨outcome, houtcome, hslot⟩ := hvalues i hi
    rw [houtcome]
    exact ⟨List.count_eq_one_of_mem hend.nodup (hend.slots hslot).2, hslot⟩
  · rcases hend.fault_of_result (hresult.trans hfault) with ⟨hlimit, hstop⟩ | ⟨hpolicy, hfailed⟩
    · exact Or.inl ⟨hstop, hlimit⟩
    · rw [hterms.2] at hpolicy
      exact Or.inr ⟨hpolicy, hfailed⟩

/-- Three tasks. -/
def lateTasks : List (Act Nat) := [pure 0, pure 1, pure 2]

/-- The time runs out while the first task is under way; before the others are cancelled, the second
one is taken up. -/
def lateSchedule : List Move := [.start 0, .expire, .withdraw, .finish 0, .start 1]

/-- The time of three tasks runs out: the second one was taken up meanwhile and is waited for, the
third one never starts. -/
theorem run_leaves_no_task_late :
    Settlement lateTasks (.fresh .empty .empty) [0, 1]
        ((submit 1 ⟨true, false⟩ .pool lateTasks (.fresh .empty .empty)).conclude lateSchedule) ∧
      (Pool.run 1 ⟨true, false⟩ .pool lateSchedule lateTasks (.fresh .empty .empty)).1 =
        .error .poolExpired :=
  ⟨(run_leaves_no_task (show workers? (some 1) = .ok 1 from rfl) ⟨true, false⟩ .pool lateSchedule
    lateTasks (s := .fresh .empty .empty) rfl).2.1, rfl⟩

end CoreAudit.Pool
