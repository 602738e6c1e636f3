import CoreAudit.Proofs.Pool.Contract

/-!
# What a pool upholds

`Upholds started p` says where a pool is after the tasks of the places `started` were taken up, in
this order: the session is one that these tasks leave, every slot agrees with them, and the
gathering has lost no task and made up no outcome. Every move upholds it (`Upholds.step`), so a
whole schedule does (`Upholds.run`), whatever its order and also where its moves are impossible.
Which tasks the moves take up is computed beside them (`taken`, `takenAll`).

Headlines:
* **`Upholds.step`**: one move takes up at most one more task, which waited.
* **`Upholds.run`**: what a schedule brings about is upheld.
-/

namespace CoreAudit.Pool

variable {α : Type}

/-- The places whose tasks a move takes up: one, where a worker is free and the task waits. -/
def taken (p : Pool α) : Move → List Nat
  | .start i =>
    match p.slots[i]?, p.hasFreeWorker with
    | some (.waiting _), true => [i]
    | _, _ => []
  | _ => []

/-- The places whose tasks are taken up by moves that follow each other, in this order. -/
def takenAll (p : Pool α) : List Move → List Nat
  | [] => []
  | m :: moves => p.taken m ++ (p.step m).takenAll moves

/-- A worker takes up a task where one is free and the task waits; else nothing happens. -/
theorem start_cases (p : Pool α) (i : Nat) :
    (∃ task, p.slots[i]? = some (.waiting task) ∧ p.hasFreeWorker = true ∧
        p.taken (.start i) = [i] ∧
        p.start i = { p with session := (task p.session).2,
                             slots := p.slots.set i (.running (task p.session).1) }) ∨
      p.taken (.start i) = [] ∧ p.start i = p := by
  unfold start
  dsimp only [taken]
  rcases hslot : p.slots[i]? with _ | task | outcome | outcome | _
  case some.waiting =>
    cases hfree : p.hasFreeWorker with
    | true => exact Or.inl ⟨task, rfl, rfl, rfl, rfl⟩
    | false => exact Or.inr ⟨rfl, rfl⟩
  all_goals exact Or.inr ⟨rfl, rfl⟩

theorem slots_finish (p : Pool α) (i j : Nat) :
    (p.finish i).slots[j]? = if i = j then p.slots[j]?.map Slot.finish else p.slots[j]? := by
  show (p.slots.modify i Slot.finish)[j]? = _
  rw [List.getElem?_modify]
  split <;> cases p.slots[j]? <;> rfl

/-- A slot agrees with the tasks that were taken up. Tasks are only cancelled where the gathering
has ended in a fault. -/
def Slot.Agrees (tasks : List (Act α)) (P : Nat → Except Fault α → Prop) (started : List Nat)
    (raised : Option Fault) (i : Nat) : Slot α → Prop
  | .waiting task => tasks[i]? = some task ∧ i ∉ started
  | .running outcome | .finished outcome => P i outcome ∧ i ∈ started
  | .cancelled => i ∉ started ∧ raised ≠ none

/-- The fault is that of a gathering whose time has run out, or could not be waited for. -/
def IsStop (f : Fault) : Prop := f = .poolExpired ∨ f = .limitTooLong

/-- Where a pool is after the tasks of the places `started` were taken up; `limited` where the time
for the tasks is. -/
structure Upholds (tasks : List (Act α)) (I : List Nat → Session → Prop)
    (P : Nat → Except Fault α → Prop) (limited : Prop) (started : List Nat) (p : Pool α) :
    Prop where
  session : I started p.session
  /-- No task is taken up twice. -/
  nodup : started.Nodup
  bound : ∀ i ∈ started, i < tasks.length
  length : p.slots.length = tasks.length
  slots : ∀ {i : Nat} {slot : Slot α}, p.slots[i]? = some slot →
    slot.Agrees tasks P started p.gathering.raised i
  pending_nodup : p.gathering.pending.Nodup
  pending_bound : ∀ i ∈ p.gathering.pending, i < tasks.length
  /-- What was gathered is the outcome of a task that has ended. -/
  kept : ∀ {i : Nat} {outcome : Except Fault α}, p.gathering.outcomes.lookup i = some outcome →
    i ∉ p.gathering.pending ∧ p.slots[i]? = some (.finished outcome)
  /-- Every task is still to be gathered or was gathered. -/
  accounted : p.gathering.raised = none → ∀ i < tasks.length,
    i ∈ p.gathering.pending ∨ ∃ outcome, p.gathering.outcomes.lookup i = some outcome
  /-- The gathering ends in the fault of a task, unless it is stopped. -/
  fault : ∀ {f : Fault}, p.gathering.raised = some f →
    limited ∧ IsStop f ∨
      p.policy.returnFaults = false ∧ ∃ i : Nat, p.slots[i]? = some (.finished (.error f))
  /-- No task is unwanted while the gathering goes on. -/
  unwanted : p.gathering.raised = none → p.unwanted = []

namespace Upholds

variable {tasks : List (Act α)} {I : List Nat → Session → Prop}
  {P : Nat → Except Fault α → Prop} {limited : Prop} {started : List Nat} {p : Pool α}

/-- Tasks that are submitted wait. -/
theorem submit {workers : Nat} {policy : Policy} {channel : Channel} {s : Session} (h : I [] s) :
    Upholds tasks I P limited [] (submit workers policy channel tasks s) where
  session := h
  nodup := List.nodup_nil
  bound := fun i hi => absurd hi (by simp)
  length := List.length_map _
  slots := by
    intro i slot hslot
    have hslot : (tasks.map Slot.waiting)[i]? = some slot := hslot
    rw [List.getElem?_map, Option.map_eq_some_iff] at hslot
    obtain ⟨task, htask, rfl⟩ := hslot
    exact ⟨htask, by simp⟩
  pending_nodup := List.nodup_range
  pending_bound := fun i hi => List.mem_range.mp hi
  kept := fun h => absurd h (by simp [Pool.submit, Gathering.start])
  accounted := fun _ i hi => Or.inl (List.mem_range.mpr hi)
  fault := fun h => absurd h (by simp [Pool.submit, Gathering.start])
  unwanted := fun _ => rfl

/-- Other slots may take the place of those of a pool, and other tasks may have been taken up, as
long as the slots agree with these tasks and what had ended still has. -/
theorem carry (h : Upholds tasks I P limited started p) {started' : List Nat} {session : Session}
    {slots : List (Slot α)} (hsession : I started' session) (hnodup : started'.Nodup)
    (hbound : ∀ i ∈ started', i < tasks.length) (hlength : slots.length = p.slots.length)
    (hslots : ∀ {i : Nat} {slot : Slot α}, slots[i]? = some slot →
      slot.Agrees tasks P started' p.gathering.raised i)
    (hfinished : ∀ {i : Nat} {outcome : Except Fault α}, p.slots[i]? = some (.finished outcome) →
      slots[i]? = some (.finished outcome)) :
    Upholds tasks I P limited started' { p with session, slots } := by
  refine ⟨hsession, hnodup, hbound, hlength.trans h.length, hslots, h.pending_nodup,
    h.pending_bound, fun hi => ⟨(h.kept hi).1, hfinished (h.kept hi).2⟩, h.accounted, ?_,
    h.unwanted⟩
  intro f hf
  rcases h.fault hf with hstopped | ⟨hpolicy, i, hi⟩
  · exact Or.inl hstopped
  · exact Or.inr ⟨hpolicy, i, hfinished hi⟩

/-- A slot agrees also where the gathering has ended in a fault. -/
theorem agrees_raised {slot : Slot α} {raised : Option Fault} {i : Nat}
    (h : slot.Agrees tasks P started raised i) (f : Fault) :
    slot.Agrees tasks P started (some f) i := by
  cases slot with
  | waiting task => exact h
  | running outcome => exact h
  | finished outcome => exact h
  | cancelled => exact ⟨h.1, Option.some_ne_none f⟩

/-! ## Taking up a task -/

/-- A slot agrees also after another task is taken up. -/
theorem agrees_append {slot : Slot α} {raised : Option Fault} {i j : Nat} (hij : j ≠ i)
    (h : slot.Agrees tasks P started raised j) :
    slot.Agrees tasks P (started ++ [i]) raised j := by
  have hmem : j ∈ started ++ [i] ↔ j ∈ started := by
    rw [List.mem_append, List.mem_singleton]
    constructor
    · rintro (hj | hj)
      · exact hj
      · exact absurd hj hij
    · exact Or.inl
  cases slot with
  | waiting task => exact ⟨h.1, fun hj => h.2 (hmem.mp hj)⟩
  | running outcome => exact ⟨h.1, hmem.mpr h.2⟩
  | finished outcome => exact ⟨h.1, hmem.mpr h.2⟩
  | cancelled => exact ⟨fun hj => h.1 (hmem.mp hj), h.2⟩

/-- **A worker takes up a task that waited, and then it is under way.** -/
theorem start_waiting (C : Contract tasks I P) (h : Upholds tasks I P limited started p) {i : Nat}
    {task : Act α} (hi : p.slots[i]? = some (.waiting task)) :
    Upholds tasks I P limited (started ++ [i])
      { p with session := (task p.session).2,
               slots := p.slots.set i (.running (task p.session).1) } := by
  obtain ⟨htask, hnew⟩ := h.slots hi
  obtain ⟨hP, hI⟩ := C.task htask hnew h.session
  have hlt : i < p.slots.length := (List.getElem?_eq_some_iff.mp hi).1
  have hnodup : (started ++ [i]).Nodup := by
    rw [List.nodup_append]
    refine ⟨h.nodup, by simp, ?_⟩
    intro a ha b hb
    rw [List.mem_singleton] at hb
    rintro rfl
    exact hnew (hb ▸ ha)
  have hbound : ∀ j ∈ started ++ [i], j < tasks.length := by
    intro j hj
    rcases List.mem_append.mp hj with hj | hj
    · exact h.bound j hj
    · rw [List.mem_singleton] at hj
      rw [hj, ← h.length]
      exact hlt
  refine h.carry hI hnodup hbound List.length_set ?_ ?_
  · intro j slot hslot
    by_cases hij : j = i
    · subst hij
      rw [List.getElem?_set_self hlt] at hslot
      cases hslot
      exact ⟨hP, List.mem_append_right _ (List.mem_singleton.mpr rfl)⟩
    · rw [List.getElem?_set_ne (Ne.symm hij)] at hslot
      exact agrees_append hij (h.slots hslot)
  · intro j outcome hj
    have hij : i ≠ j := by
      rintro rfl
      rw [hi] at hj
      cases hj
    rw [List.getElem?_set_ne hij]
    exact hj

theorem start (C : Contract tasks I P) (h : Upholds tasks I P limited started p) (i : Nat) :
    Upholds tasks I P limited (started ++ p.taken (.start i)) (p.start i) := by
  rcases p.start_cases i with ⟨task, hi, _, htaken, hstart⟩ | ⟨htaken, hstart⟩
  · rw [htaken, hstart]
    exact h.start_waiting C hi
  · rw [htaken, hstart, List.append_nil]
    exact h

/-! ## Ending a task -/

theorem finish (h : Upholds tasks I P limited started p) (i : Nat) :
    Upholds tasks I P limited started (p.finish i) := by
  refine h.carry h.session h.nodup h.bound (List.length_modify ..) ?_ ?_
  · intro j slot hslot
    have hslot : (p.finish i).slots[j]? = some slot := hslot
    rw [slots_finish] at hslot
    split at hslot
    · rw [Option.map_eq_some_iff] at hslot
      obtain ⟨old, hold, rfl⟩ := hslot
      have hagrees := h.slots hold
      cases old <;> exact hagrees
    · exact h.slots hslot
  · intro j outcome hj
    show (p.finish i).slots[j]? = _
    rw [slots_finish, hj]
    exact ite_self _

/-! ## Cancelling tasks -/

theorem withdraw (h : Upholds tasks I P limited started p) :
    Upholds tasks I P limited started p.withdraw := by
  unfold Pool.withdraw
  split
  · exact h
  · rename_i i rest hunwanted
    have hraised : p.gathering.raised ≠ none := by
      intro hnone
      rw [h.unwanted hnone] at hunwanted
      cases hunwanted
    have hcarried : Upholds tasks I P limited started
        { p with slots := p.slots.modify i Slot.cancel } := by
      refine h.carry h.session h.nodup h.bound (List.length_modify ..) ?_ ?_
      · intro j slot hslot
        rw [List.getElem?_modify, Option.map_eq_map, Option.map_eq_some_iff] at hslot
        obtain ⟨old, hj, rfl⟩ := hslot
        have hagrees := h.slots hj
        split
        · cases old with
          | waiting task => exact ⟨hagrees.2, hraised⟩
          | running outcome => exact hagrees
          | finished outcome => exact hagrees
          | cancelled => exact hagrees
        · exact hagrees
      · intro j outcome hj
        rw [List.getElem?_modify, hj, Option.map_eq_map, Option.map_some]
        split <;> rfl
    exact { hcarried with unwanted := fun hnone => absurd hnone hraised }

/-! ## Stopping the gathering -/

/-- A gathering that is stopped in a fault is upheld where the time is limited, whatever is no
longer wanted then. -/
theorem stop (h : Upholds tasks I P limited started p) (hlimited : limited) {f : Fault}
    (hstop : IsStop f) (unwanted : List Nat) :
    Upholds tasks I P limited started
      { p with gathering := { p.gathering with raised := some f }, unwanted } := by
  refine ⟨h.session, h.nodup, h.bound, h.length, fun hslot => agrees_raised (h.slots hslot) f,
    h.pending_nodup, h.pending_bound, h.kept, fun hnone => absurd hnone (Option.some_ne_none f),
    ?_, fun hnone => absurd hnone (Option.some_ne_none f)⟩
  intro g hg
  cases hg
  exact Or.inl ⟨hlimited, hstop⟩

theorem expire (h : Upholds tasks I P limited started p) (hlimited : limited) :
    Upholds tasks I P limited started p.expire := by
  unfold Pool.expire
  split
  · exact h
  · exact h.stop hlimited (Or.inl rfl) _

theorem refuse (h : Upholds tasks I P limited started p) (hlimited : limited) :
    Upholds tasks I P limited started p.refuse := by
  unfold Pool.refuse
  split
  · exact h
  · exact h.stop hlimited (Or.inr rfl) _

/-! ## Gathering an outcome -/

theorem session_mark (C : Contract tasks I P) (h : Upholds tasks I P limited started p)
    (rs : List LogRecord) :
    Upholds tasks I P limited started { p with session := p.session.mark (rs.map .record) } :=
  ⟨C.records rs h.session, h.nodup, h.bound, h.length, h.slots, h.pending_nodup,
    h.pending_bound, h.kept, h.accounted, h.fault, h.unwanted⟩

/-- An outcome that is kept. -/
theorem keep (h : Upholds tasks I P limited started p) {i : Nat} {outcome : Except Fault α}
    (hi : p.slots[i]? = some (.finished outcome)) (hpending : i ∈ p.gathering.pending)
    (hraised : p.gathering.raised = none) :
    Upholds tasks I P limited started
      { p with gathering := ⟨p.gathering.pending.erase i,
        p.gathering.outcomes ++ [(i, outcome)], p.gathering.raised⟩ } := by
  have hfresh : p.gathering.outcomes.lookup i = none := by
    rcases hlookup : p.gathering.outcomes.lookup i with _ | other
    · rfl
    · exact absurd hpending (h.kept hlookup).1
  refine ⟨h.session, h.nodup, h.bound, h.length, h.slots, h.pending_nodup.erase i,
    fun j hj => h.pending_bound j (List.mem_of_mem_erase hj), ?_, ?_, h.fault, h.unwanted⟩
  · intro j other hj
    rw [List.lookup_append] at hj
    rcases hlookup : p.gathering.outcomes.lookup j with _ | old
    · rw [hlookup, Option.none_or, List.lookup_cons, List.lookup_nil] at hj
      split at hj
      · rename_i hij
        rw [beq_iff_eq] at hij
        subst hij
        cases hj
        exact ⟨h.pending_nodup.not_mem_erase, hi⟩
      · cases hj
    · rw [hlookup, Option.some_or] at hj
      cases hj
      exact ⟨fun hmem => (h.kept hlookup).1 (List.mem_of_mem_erase hmem), (h.kept hlookup).2⟩
  · intro _ j hj
    by_cases hij : j = i
    · subst hij
      refine Or.inr ⟨outcome, ?_⟩
      rw [List.lookup_append, hfresh, Option.none_or, List.lookup_cons, beq_self_eq_true]
    · rcases h.accounted hraised j hj with hmem | ⟨other, hlookup⟩
      · exact Or.inl ((List.mem_erase_of_ne hij).mpr hmem)
      · refine Or.inr ⟨other, ?_⟩
        rw [List.lookup_append, hlookup, Option.some_or]

/-- A fault that ends the gathering. -/
theorem raise (h : Upholds tasks I P limited started p) {i : Nat} {f : Fault}
    (hi : p.slots[i]? = some (.finished (.error f))) (hpolicy : p.policy.returnFaults = false) :
    Upholds tasks I P limited started
      { p with gathering := ⟨p.gathering.pending.erase i, p.gathering.outcomes, some f⟩ } := by
  refine ⟨h.session, h.nodup, h.bound, h.length, fun hslot => agrees_raised (h.slots hslot) f,
    h.pending_nodup.erase i, fun j hj => h.pending_bound j (List.mem_of_mem_erase hj),
    fun hj => ⟨fun hmem => (h.kept hj).1 (List.mem_of_mem_erase hmem), (h.kept hj).2⟩,
    fun hnone => absurd hnone (Option.some_ne_none f), ?_,
    fun hnone => absurd hnone (Option.some_ne_none f)⟩
  intro g hg
  cases hg
  exact Or.inr ⟨hpolicy, i, hi⟩

/-- Taking the outcome of a task that has ended is upheld. -/
theorem take (h : Upholds tasks I P limited started p) {i : Nat} {outcome : Except Fault α}
    (hi : p.slots[i]? = some (.finished outcome)) :
    Upholds tasks I P limited started
      { p with gathering := p.gathering.take p.policy i outcome } := by
  unfold Gathering.take
  split
  · rename_i hawaits
    rw [Gathering.awaits, Bool.and_eq_true, Option.isNone_iff_eq_none, List.elem_eq_mem,
      decide_eq_true_eq] at hawaits
    obtain ⟨hraised, hpending⟩ := hawaits
    cases outcome with
    | ok x => exact h.keep hi hpending hraised
    | error f =>
      cases hpolicy : p.policy.returnFaults with
      | true => exact h.keep hi hpending hraised
      | false => exact h.raise hi hpolicy
  · exact h

theorem finished_of_outcome? {i : Nat} {outcome : Except Fault α}
    (h : p.slots[i]?.bind Slot.outcome? = some outcome) :
    p.slots[i]? = some (.finished outcome) := by
  rw [Option.bind_eq_some_iff] at h
  obtain ⟨slot, hslot, houtcome⟩ := h
  cases slot with
  | finished o =>
    cases houtcome
    exact hslot
  | waiting task => cases houtcome
  | running o => cases houtcome
  | cancelled => cases houtcome

theorem cancels (h : Upholds tasks I P limited started p) :
    Upholds tasks I P limited started { p with unwanted := p.gathering.cancels p.policy } := by
  refine { h with unwanted := fun hnone => ?_ }
  have hnone : p.gathering.raised = none := hnone
  show p.gathering.cancels p.policy = []
  rw [Gathering.cancels, hnone, Option.isSome_none, Bool.and_false]
  rfl

theorem gather (C : Contract tasks I P) (h : Upholds tasks I P limited started p) (i : Nat) :
    Upholds tasks I P limited started (p.gather i) := by
  unfold Pool.gather
  split
  · rename_i outcome houtcome _
    have htaken := h.take (finished_of_outcome? houtcome)
    cases outcome with
    | ok x => exact (htaken.session_mark C []).cancels
    | error f => exact (htaken.session_mark C [Gathering.faultRecord p.channel f]).cancels
  · exact h

theorem gatherAll (C : Contract tasks I P) (h : Upholds tasks I P limited started p)
    (batch : List Nat) : Upholds tasks I P limited started (batch.foldl Pool.gather p) := by
  induction batch generalizing p with
  | nil => exact h
  | cons i batch ih => exact ih (h.gather C i)

/-! ## Every move -/

/-- **Every move is upheld, possible or not.** -/
theorem step (C : Contract tasks I P) (h : Upholds tasks I P limited started p) {m : Move}
    (hlimited : m.isLimit = true → limited) :
    Upholds tasks I P limited (started ++ p.taken m) (p.step m) := by
  cases m with
  | start i => exact h.start C i
  | finish i =>
    rw [show p.taken (.finish i) = [] from rfl, List.append_nil]
    exact h.finish i
  | collect batch =>
    rw [show p.taken (.collect batch) = [] from rfl, List.append_nil]
    exact h.gatherAll C batch
  | withdraw =>
    rw [show p.taken .withdraw = [] from rfl, List.append_nil]
    exact h.withdraw
  | expire =>
    rw [show p.taken .expire = [] from rfl, List.append_nil]
    exact h.expire (hlimited rfl)
  | refuse =>
    rw [show p.taken .refuse = [] from rfl, List.append_nil]
    exact h.refuse (hlimited rfl)

/-- **What a schedule brings about is upheld.** -/
theorem run (C : Contract tasks I P) (h : Upholds tasks I P limited started p)
    {moves : List Move} (hlimited : ∀ m ∈ moves, m.isLimit = true → limited) :
    Upholds tasks I P limited (started ++ p.takenAll moves) (moves.foldl Pool.step p) := by
  induction moves generalizing p started with
  | nil =>
    rw [takenAll, List.append_nil]
    exact h
  | cons m moves ih =>
    rw [takenAll, ← List.append_assoc]
    exact ih (h.step C (hlimited m List.mem_cons_self))
      fun n hn => hlimited n (List.mem_cons_of_mem _ hn)

end Upholds

end CoreAudit.Pool
