import CoreAudit.Proofs.Pool.Invariant

/-!
# Actions in two sessions

Two sessions may differ in what an action does not look at. If a relation between sessions is kept
by an action, which comes to the same in both (`Act.Agrees`), then so it is by actions one after the
other, and by a pool that runs them under a schedule: its workers, slots and gathering are the same
at every move (`Pool.Alike`), whichever tasks end in faults and whichever is gathered first.

Headlines:
* **`Agrees.bind`**, **`agrees_mapM`**: actions one after the other.
* **`Alike.step`**: one move of a pool.
* **`agrees_pool`**: a pool under a schedule comes to the same in both sessions.
-/

namespace CoreAudit

/-- Sessions that are related stay so when the same marks are left in both. -/
def Session.MarksKeep (R : Session → Session → Prop) : Prop :=
  ∀ {s s' : Session} (marks : List Mark), R s s' → R (s.mark marks) (s'.mark marks)

namespace Act

variable {α β : Type} {R : Session → Session → Prop}

/-- In related sessions the action comes to the same, and it leaves related sessions. -/
def Agrees (R : Session → Session → Prop) (act : Act α) : Prop :=
  ∀ s s', R s s' → (act s').1 = (act s).1 ∧ R (act s).2 (act s').2

theorem agrees_pure (x : α) : Agrees R (pure x) := fun _ _ h => ⟨rfl, h⟩

theorem agrees_ofExcept (r : Except Fault α) : Agrees R (ofExcept r) := by
  intro s s' h
  rw [ofExcept_run, ofExcept_run]
  exact ⟨rfl, h⟩

theorem agrees_mark (hmarks : Session.MarksKeep R) (marks : List Mark) : Agrees R (mark marks) :=
  fun _ _ h => ⟨rfl, hmarks marks h⟩

theorem agrees_records (hmarks : Session.MarksKeep R) (rs : List LogRecord) :
    Agrees R (records rs) := agrees_mark hmarks _

/-- **Actions one after the other come to the same.** -/
theorem Agrees.bind {act : Act α} {next : α → Act β} (h : Agrees R act)
    (hnext : ∀ x, Agrees R (next x)) : Agrees R (act >>= next) := by
  intro s s' hs
  obtain ⟨hresult, hend⟩ := h s s' hs
  rw [bind_run, bind_run]
  rcases hrun : act s with ⟨result, t⟩
  rcases hrun' : act s' with ⟨result', t'⟩
  rw [hrun, hrun'] at hresult hend
  obtain rfl : result' = result := hresult
  cases result' with
  | error f => exact ⟨rfl, hend⟩
  | ok x => exact hnext x t t' hend

/-- **So do the tasks of a list.** -/
theorem agrees_mapM {tasks : List (Act α)} (h : ∀ task ∈ tasks, Agrees R task) :
    Agrees R (tasks.mapM id) := by
  induction tasks with
  | nil => exact agrees_pure []
  | cons task tasks ih =>
    rw [List.mapM_cons]
    refine Agrees.bind (h task List.mem_cons_self) fun x => ?_
    exact (ih fun other hother => h other (List.mem_cons_of_mem _ hother)).bind fun xs =>
      agrees_pure (x :: xs)

end Act

namespace Pool

variable {α : Type} {R : Session → Session → Prop} {p p' : Pool α}

/-- Two pools are the same but for their sessions, which are related, and in which the tasks that
wait come to the same. -/
structure Alike (R : Session → Session → Prop) (p p' : Pool α) : Prop where
  session : R p.session p'.session
  same : p' = { p with session := p'.session }
  tasks : ∀ {i : Nat} {task : Act α}, p.slots[i]? = some (.waiting task) → Act.Agrees R task

namespace Alike

/-- Tasks that end or are cancelled do not wait. -/
theorem waiting_of_modify {change : Slot α → Slot α}
    (hchange : ∀ slot task, change slot = .waiting task → slot = .waiting task)
    {slots : List (Slot α)} {i j : Nat} {task : Act α}
    (h : (slots.modify i change)[j]? = some (.waiting task)) :
    slots[j]? = some (.waiting task) := by
  rw [List.getElem?_modify] at h
  split at h
  · obtain ⟨slot, hslot, hwaits⟩ := Option.map_eq_some_iff.mp h
    rw [hslot, hchange slot task hwaits]
  · rcases hslot : slots[j]? with _ | slot
    · rw [hslot] at h
      cases h
    · rw [hslot] at h
      exact h

theorem start (A : Alike R p p') (i : Nat) : Alike R (p.start i) (p'.start i) := by
  obtain ⟨hsession, hsame, htasks⟩ := A
  generalize p'.session = s' at hsession hsame
  subst hsame
  rcases p.start_cases i with ⟨task, hwaits, _, htaken, hstart⟩ | ⟨htaken, hstart⟩
  · rcases Pool.start_cases { p with session := s' } i with
      ⟨task', hwaits', _, _, hstart'⟩ | ⟨htaken', _⟩
    · obtain rfl : task = task' := Slot.waiting.inj (Option.some.inj (hwaits.symm.trans hwaits'))
      obtain ⟨hresult, hend⟩ := htasks hwaits p.session s' hsession
      rw [hstart, hstart', hresult]
      refine ⟨hend, rfl, fun {j other} hother => ?_⟩
      have hother : (p.slots.set i (.running (task p.session).1))[j]? = some (.waiting other) :=
        hother
      rw [List.getElem?_set] at hother
      split at hother
      · split at hother <;> cases hother
      · exact htasks hother
    · have htaken' : p.taken (.start i) = [] := htaken'
      rw [htaken] at htaken'
      cases htaken'
  · rcases Pool.start_cases { p with session := s' } i with
      ⟨_, _, _, htaken', _⟩ | ⟨_, hstart'⟩
    · have htaken' : p.taken (.start i) = [i] := htaken'
      rw [htaken] at htaken'
      cases htaken'
    · rw [hstart, hstart']
      exact ⟨hsession, rfl, htasks⟩

theorem finish (A : Alike R p p') (i : Nat) : Alike R (p.finish i) (p'.finish i) := by
  obtain ⟨hsession, hsame, htasks⟩ := A
  rw [hsame]
  refine ⟨hsession, rfl, fun {j task} hwaits => htasks (waiting_of_modify ?_ hwaits)⟩
  rintro (_ | _ | _ | _) task h <;> cases h
  rfl

theorem withdraw (A : Alike R p p') : Alike R p.withdraw p'.withdraw := by
  obtain ⟨hsession, hsame, htasks⟩ := A
  rw [hsame]
  unfold Pool.withdraw
  dsimp only
  split
  · exact ⟨hsession, rfl, htasks⟩
  · refine ⟨hsession, rfl, fun {j task} hwaits => htasks (waiting_of_modify ?_ hwaits)⟩
    rintro (_ | _ | _ | _) task h <;> cases h

theorem gather (hmarks : Session.MarksKeep R) (A : Alike R p p') (i : Nat) :
    Alike R (p.gather i) (p'.gather i) := by
  obtain ⟨hsession, hsame, htasks⟩ := A
  rw [hsame]
  unfold Pool.gather
  dsimp only
  rcases p.slots[i]?.bind Slot.outcome? with _ | outcome
  · exact ⟨hsession, rfl, htasks⟩
  · cases p.gathering.awaits i with
    | false => exact ⟨hsession, rfl, htasks⟩
    | true => exact ⟨hmarks _ hsession, rfl, htasks⟩

theorem stop (A : Alike R p p') : Alike R p.expire p'.expire ∧ Alike R p.refuse p'.refuse := by
  obtain ⟨hsession, hsame, htasks⟩ := A
  rw [hsame]
  unfold Pool.expire Pool.refuse Pool.hasOutcome
  dsimp only
  constructor <;> split <;> exact ⟨hsession, rfl, htasks⟩

/-- **One move leaves the pools the same but for their sessions.** -/
theorem step (hmarks : Session.MarksKeep R) (A : Alike R p p') (m : Move) :
    Alike R (p.step m) (p'.step m) := by
  cases m with
  | start i => exact A.start i
  | finish i => exact A.finish i
  | collect batch =>
    show Alike R (batch.foldl Pool.gather p) (batch.foldl Pool.gather p')
    induction batch generalizing p p' with
    | nil => exact A
    | cons i batch ih => exact ih (A.gather hmarks i)
  | withdraw => exact A.withdraw
  | expire => exact A.stop.1
  | refuse => exact A.stop.2

theorem run (hmarks : Session.MarksKeep R) (A : Alike R p p') (moves : List Move) :
    Alike R (moves.foldl Pool.step p) (moves.foldl Pool.step p') := by
  induction moves generalizing p p' with
  | nil => exact A
  | cons m moves ih => exact ih (A.step hmarks m)

end Alike

/-- **A pool comes to the same in both sessions**, under every schedule. -/
theorem agrees_pool (hmarks : Session.MarksKeep R) {tasks : List (Act α)}
    (h : ∀ task ∈ tasks, Act.Agrees R task) (workers : Nat) (policy : Policy) (channel : Channel)
    (schedule : List Move) : Act.Agrees R (Pool.run workers policy channel schedule tasks) := by
  intro s s' hs
  have hstart : Alike R (submit workers policy channel tasks s)
      (submit workers policy channel tasks s') := by
    refine ⟨hs, rfl, fun {i task} hwaits => ?_⟩
    have hwaits : (tasks.map Slot.waiting)[i]? = some (.waiting task) := hwaits
    rw [List.getElem?_map] at hwaits
    obtain ⟨other, hother, hsame⟩ := Option.map_eq_some_iff.mp hwaits
    obtain rfl := Slot.waiting.inj hsame
    exact h other (List.mem_of_getElem? hother)
  have hend : Alike R ((submit workers policy channel tasks s).conclude schedule)
      ((submit workers policy channel tasks s').conclude schedule) := hstart.run hmarks _
  refine ⟨?_, hend.session⟩
  show ((submit workers policy channel tasks s').conclude schedule).gathering.result _ = _
  rw [hend.same]
  rfl

end Pool

end CoreAudit
