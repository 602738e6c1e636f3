import CoreAudit.Proofs.Pool.Invariant

/-!
# What tasks come to under every schedule

After its schedule a pool cancels what is no longer wanted, ends what is under way, and runs and
gathers in order what is left (`settling`). A round of that leaves nothing under way and its task
gathered (`settle_gathers`), so that after all rounds no task waits or is under way, and either
every outcome is gathered or the gathering has ended in a fault.

Headlines:
* **`isSettled_conclude`**: in the end every task has ended or is cancelled.
* **`Contract.run_ok`**: outcomes that a pool hands over are those of the tasks, in the order of
  submission, and every task was taken up exactly once.
* **`Contract.of_run_error`**: where the time is not limited, a pool only fails with the fault of a
  task.
* **`Contract.exists_run_ok`**: where moreover no task can fail, it hands over all outcomes;
  `exists_run_ok_of_returnFaults`: so it does where faults are outcomes.
-/

namespace CoreAudit.Pool

variable {α : Type}

/-! ## Nothing is under way -/

/-- No worker has a task. -/
def Idle (p : Pool α) : Prop :=
  ∀ (i : Nat) (slot : Slot α), p.slots[i]? = some slot → slot.isRunning = false

theorem hasFreeWorker_of_idle {p : Pool α} (hidle : Idle p) (hworkers : 0 < p.workers) :
    p.hasFreeWorker = true := by
  have hnone : p.slots.countP Slot.isRunning = 0 := by
    rw [List.countP_eq_zero]
    intro slot hslot
    obtain ⟨i, hi⟩ := List.mem_iff_getElem?.mp hslot
    rw [hidle i slot hi]
    exact Bool.false_ne_true
  rw [hasFreeWorker, hnone]
  exact decide_eq_true hworkers

theorem isRunning_finish (slot : Slot α) : slot.finish.isRunning = false := by
  cases slot <;> rfl

theorem isRunning_cancel {slot : Slot α} (h : slot.isRunning = false) :
    slot.cancel.isRunning = false := by
  cases slot <;> first | rfl | exact h

/-- The slots after the tasks of some places end. -/
theorem slots_finishAll (places : List Nat) (p : Pool α) (j : Nat) :
    ((places.map Move.finish).foldl step p).slots[j]? =
      if j ∈ places then p.slots[j]?.map Slot.finish else p.slots[j]? := by
  induction places generalizing p with
  | nil => rfl
  | cons i places ih =>
    rw [List.map_cons, List.foldl_cons, ih]
    have hslots : (p.step (.finish i)).slots[j]? =
        if i = j then p.slots[j]?.map Slot.finish else p.slots[j]? := slots_finish p i j
    rw [hslots]
    by_cases hij : i = j
    · subst hij
      rw [if_pos rfl, if_pos List.mem_cons_self, Option.map_map]
      have htwice : Slot.finish ∘ Slot.finish = (Slot.finish : Slot α → Slot α) := by
        funext slot
        cases slot <;> rfl
      rw [htwice, ite_self]
    · rw [if_neg hij]
      have hmem : j ∈ i :: places ↔ j ∈ places := by
        rw [List.mem_cons]
        exact ⟨fun h => h.resolve_left (Ne.symm hij), Or.inr⟩
      simp only [hmem]

theorem idle_finishAll (p : Pool α) :
    Idle (((List.range p.slots.length).map Move.finish).foldl step p) := by
  intro i slot hi
  rw [slots_finishAll] at hi
  split at hi
  · rw [Option.map_eq_some_iff] at hi
    obtain ⟨old, _, rfl⟩ := hi
    exact isRunning_finish old
  · rename_i hmem
    have hlt : i < p.slots.length := (List.getElem?_eq_some_iff.mp hi).1
    exact absurd (List.mem_range.mpr hlt) hmem

/-! ## What a move leaves as it is -/

/-- The pool has the same workers and makes the same of faults. -/
def SameTerms (p q : Pool α) : Prop := q.workers = p.workers ∧ q.policy = p.policy

theorem sameTerms_start (p : Pool α) (i : Nat) : SameTerms p (p.start i) := by
  rcases p.start_cases i with ⟨task, _, _, _, hstart⟩ | ⟨_, hstart⟩
  · rw [hstart]
    exact ⟨rfl, rfl⟩
  · rw [hstart]
    exact ⟨rfl, rfl⟩

theorem sameTerms_withdraw (p : Pool α) : SameTerms p p.withdraw := by
  unfold withdraw
  split <;> exact ⟨rfl, rfl⟩

theorem sameTerms_gather (p : Pool α) (i : Nat) : SameTerms p (p.gather i) := by
  unfold gather
  split <;> exact ⟨rfl, rfl⟩

theorem SameTerms.trans {p q r : Pool α} (h : SameTerms p q) (h' : SameTerms q r) :
    SameTerms p r := ⟨h'.1.trans h.1, h'.2.trans h.2⟩

theorem sameTerms_step (p : Pool α) (m : Move) : SameTerms p (p.step m) := by
  cases m with
  | start i => exact p.sameTerms_start i
  | finish i => exact ⟨rfl, rfl⟩
  | collect batch =>
    show SameTerms p (batch.foldl gather p)
    induction batch generalizing p with
    | nil => exact ⟨rfl, rfl⟩
    | cons i batch ih => exact (p.sameTerms_gather i).trans (ih (p.gather i))
  | withdraw => exact p.sameTerms_withdraw
  | expire =>
    show SameTerms p p.expire
    unfold expire
    split <;> exact ⟨rfl, rfl⟩
  | refuse =>
    show SameTerms p p.refuse
    unfold refuse
    split <;> exact ⟨rfl, rfl⟩

theorem sameTerms_foldl (moves : List Move) (p : Pool α) : SameTerms p (moves.foldl step p) := by
  induction moves generalizing p with
  | nil => exact ⟨rfl, rfl⟩
  | cons m moves ih => exact (p.sameTerms_step m).trans (ih (p.step m))

/-- The gathering after an outcome is gathered: without an outcome it does not change. -/
theorem gathering_gather (p : Pool α) (i : Nat) :
    (p.gather i).gathering = match p.slots[i]?.bind Slot.outcome? with
      | some outcome => p.gathering.take p.policy i outcome
      | none => p.gathering := by
  unfold gather
  rcases p.slots[i]?.bind Slot.outcome? with _ | outcome
  · rfl
  · rcases hawaits : p.gathering.awaits i with _ | _
    · exact (Gathering.take_of_not_awaits hawaits outcome).symm
    · rfl

/-- Taking an outcome adds nothing to what is pending, and a gathering that has ended stays so. -/
theorem take_monotone (policy : Policy) (g : Gathering α) (i : Nat) (outcome : Except Fault α) :
    (∀ j, j ∈ (g.take policy i outcome).pending → j ∈ g.pending) ∧
      (g.raised ≠ none → (g.take policy i outcome).raised ≠ none) := by
  cases hawaits : g.awaits i with
  | false =>
    rw [Gathering.take_of_not_awaits hawaits]
    exact ⟨fun _ h => h, id⟩
  | true =>
    refine ⟨fun j hj => ?_, fun hraised => ?_⟩
    · rw [Gathering.pending_take hawaits] at hj
      exact List.mem_of_mem_erase hj
    · rw [Gathering.awaits, Bool.and_eq_true, Option.isNone_iff_eq_none] at hawaits
      exact absurd hawaits.1 hraised

theorem slots_gather (p : Pool α) (i : Nat) : (p.gather i).slots = p.slots := by
  unfold gather
  split <;> rfl

theorem gathering_start (p : Pool α) (i : Nat) : (p.start i).gathering = p.gathering := by
  rcases p.start_cases i with ⟨task, _, _, _, hstart⟩ | ⟨_, hstart⟩ <;> rw [hstart]

theorem gathering_withdrawals (n : Nat) (p : Pool α) :
    ((withdrawals n).foldl step p).gathering = p.gathering := by
  induction n generalizing p with
  | zero => rfl
  | succ n ih =>
    have hstep : (p.step .withdraw).gathering = p.gathering := by
      show p.withdraw.gathering = p.gathering
      unfold withdraw
      split <;> rfl
    rw [withdrawals, List.replicate_succ, List.foldl_cons, ← withdrawals, ih, hstep]

/-- The slot of a task that is taken up, or was not there to be taken up. -/
theorem slots_start (p : Pool α) (i j : Nat) :
    (p.start i).slots[j]? = p.slots[j]? ∨
      j = i ∧ ∃ outcome, (p.start i).slots[j]? = some (.running outcome) := by
  rcases p.start_cases i with ⟨task, hi, _, _, hstart⟩ | ⟨_, hstart⟩
  · rw [hstart]
    by_cases hij : i = j
    · subst hij
      refine Or.inr ⟨rfl, (task p.session).1, ?_⟩
      exact List.getElem?_set_self (List.getElem?_eq_some_iff.mp hi).1
    · exact Or.inl (List.getElem?_set_ne hij)
  · rw [hstart]
    exact Or.inl rfl

/-- The slots after a task is cancelled that is no longer wanted. -/
theorem slots_withdraw (p : Pool α) (j : Nat) :
    p.withdraw.slots[j]? = p.slots[j]? ∨
      p.withdraw.slots[j]? = p.slots[j]?.map Slot.cancel := by
  unfold withdraw
  split
  · exact Or.inl rfl
  · rename_i i _ _
    show (p.slots.modify i Slot.cancel)[j]? = _ ∨ (p.slots.modify i Slot.cancel)[j]? = _
    rw [List.getElem?_modify, Option.map_eq_map]
    by_cases hij : i = j
    · simp only [if_pos hij, or_true]
    · simp only [if_neg hij, Option.map_id', true_or]

theorem slots_collect (p : Pool α) (batch : List Nat) :
    (p.step (.collect batch)).slots = p.slots := by
  show (batch.foldl gather p).slots = p.slots
  induction batch generalizing p with
  | nil => rfl
  | cons i batch ih => rw [List.foldl_cons, ih, slots_gather]

theorem waiting_of_step {p : Pool α} {m : Move} {i : Nat} {task : Act α}
    (h : (p.step m).slots[i]? = some (.waiting task)) : p.slots[i]? = some (.waiting task) := by
  cases m with
  | start j =>
    have h : (p.start j).slots[i]? = some (.waiting task) := h
    rcases p.slots_start j i with hsame | ⟨_, outcome, hrunning⟩
    · rwa [hsame] at h
    · rw [hrunning] at h
      cases h
  | finish j =>
    have h : (p.finish j).slots[i]? = some (.waiting task) := h
    rw [slots_finish] at h
    split at h
    · obtain ⟨old, hold, hfinish⟩ := Option.map_eq_some_iff.mp h
      cases old <;> cases hfinish
      exact hold
    · exact h
  | collect batch =>
    rwa [slots_collect] at h
  | withdraw =>
    have h : p.withdraw.slots[i]? = some (.waiting task) := h
    rcases p.slots_withdraw i with hsame | hcancelled
    · rwa [hsame] at h
    · rw [hcancelled] at h
      obtain ⟨old, _, hcancel⟩ := Option.map_eq_some_iff.mp h
      cases old <;> cases hcancel
  | expire =>
    have h : p.expire.slots[i]? = some (.waiting task) := h
    unfold expire at h
    split at h <;> exact h
  | refuse =>
    have h : p.refuse.slots[i]? = some (.waiting task) := h
    unfold refuse at h
    split at h <;> exact h

theorem waiting_of_foldl {moves : List Move} {p : Pool α} {i : Nat} {task : Act α}
    (h : (moves.foldl step p).slots[i]? = some (.waiting task)) :
    p.slots[i]? = some (.waiting task) := by
  induction moves generalizing p with
  | nil => exact h
  | cons m moves ih => exact waiting_of_step (ih h)

/-! ## A round for one task -/

/-- A task of so many is run and gathered, and what is then no longer wanted is cancelled. -/
def settle (tasks : Nat) (p : Pool α) (i : Nat) : Pool α := (round tasks i).foldl step p

theorem foldl_rounds (n : Nat) (places : List Nat) (p : Pool α) :
    (places.flatMap (round n)).foldl step p = places.foldl (settle n) p := by
  induction places generalizing p with
  | nil => rfl
  | cons i places ih =>
    rw [List.flatMap_cons, List.foldl_append, ih]
    rfl

theorem settle_eq (tasks : Nat) (p : Pool α) (i : Nat) :
    p.settle tasks i = (withdrawals tasks).foldl step (((p.start i).finish i).gather i) := by
  unfold settle round
  rw [List.foldl_append]
  rfl

/-- A round adds nothing to what is pending, and a gathering that has ended stays so. -/
theorem settle_monotone (n : Nat) (p : Pool α) (i : Nat) :
    (∀ j, j ∈ (p.settle n i).gathering.pending → j ∈ p.gathering.pending) ∧
      (p.gathering.raised ≠ none → (p.settle n i).gathering.raised ≠ none) := by
  have hfinish : ((p.start i).finish i).gathering = p.gathering := p.gathering_start i
  rw [settle_eq, gathering_withdrawals, gathering_gather, hfinish]
  split
  · exact take_monotone ..
  · exact ⟨fun _ h => h, id⟩

theorem settleAll_monotone (n : Nat) (places : List Nat) (p : Pool α) :
    (∀ j, j ∈ (places.foldl (settle n) p).gathering.pending → j ∈ p.gathering.pending) ∧
      (p.gathering.raised ≠ none → (places.foldl (settle n) p).gathering.raised ≠ none) := by
  induction places generalizing p with
  | nil => exact ⟨fun _ h => h, id⟩
  | cons i places ih =>
    obtain ⟨hpending, hraised⟩ := p.settle_monotone n i
    obtain ⟨hpending', hraised'⟩ := ih (p.settle n i)
    exact ⟨fun j hj => hpending j (hpending' j hj), fun hr => hraised' (hraised hr)⟩

theorem round_unlimited (n i : Nat) : ∀ m ∈ round n i, m.isLimit = false := by
  intro m hm
  rcases List.mem_append.mp hm with hm | hm
  · simp only [List.mem_cons, List.not_mem_nil, or_false] at hm
    rcases hm with rfl | rfl | rfl <;> rfl
  · rw [List.eq_of_mem_replicate hm]
    rfl

theorem settling_unlimited (n : Nat) : ∀ m ∈ settling n, m.isLimit = false := by
  intro m hm
  rcases List.mem_append.mp hm with hm | hm
  · rw [List.eq_of_mem_replicate hm]
    rfl
  · rcases List.mem_append.mp hm with hm | hm
    · obtain ⟨i, _, rfl⟩ := List.mem_map.mp hm
      rfl
    · obtain ⟨i, _, hm⟩ := List.mem_flatMap.mp hm
      exact round_unlimited n i m hm

/-- After a task is taken up and ends, nothing is under way and the task is settled. -/
theorem idle_finish_start {p : Pool α} (hidle : Idle p) (hworkers : 0 < p.workers) (i : Nat) :
    Idle ((p.start i).finish i) ∧
      ∀ task, ((p.start i).finish i).slots[i]? ≠ some (.waiting task) := by
  constructor
  · intro j slot hj
    rw [slots_finish] at hj
    split at hj
    · rw [Option.map_eq_some_iff] at hj
      obtain ⟨old, _, rfl⟩ := hj
      exact isRunning_finish old
    · rename_i hij
      rcases p.slots_start i j with hsame | ⟨hji, _⟩
      · rw [hsame] at hj
        exact hidle j slot hj
      · exact absurd hji.symm hij
  · intro task hi
    have hstarted : (p.start i).slots[i]? = some (.waiting task) :=
      waiting_of_step (m := .finish i) hi
    rcases p.start_cases i with ⟨first, hwaits, _, _, hstart⟩ | ⟨htaken, hstart⟩
    · rw [hstart] at hstarted
      dsimp only at hstarted
      rw [List.getElem?_set_self (List.getElem?_eq_some_iff.mp hwaits).1] at hstarted
      cases hstarted
    · rw [hstart] at hstarted
      dsimp only [taken] at htaken
      rw [hstarted, hasFreeWorker_of_idle hidle hworkers] at htaken
      cases htaken

theorem idle_withdrawals {p : Pool α} (hidle : Idle p) (n : Nat) :
    Idle ((withdrawals n).foldl step p) := by
  induction n generalizing p with
  | zero => exact hidle
  | succ n ih =>
    rw [withdrawals, List.replicate_succ, List.foldl_cons, ← withdrawals]
    refine ih fun j slot hj => ?_
    have hj : p.withdraw.slots[j]? = some slot := hj
    rcases p.slots_withdraw j with hsame | hcancelled
    · rw [hsame] at hj
      exact hidle j slot hj
    · rw [hcancelled] at hj
      obtain ⟨old, hold, rfl⟩ := Option.map_eq_some_iff.mp hj
      exact isRunning_cancel (hidle j old hold)

theorem idle_settle {p : Pool α} (hidle : Idle p) (hworkers : 0 < p.workers) (n i : Nat) :
    Idle (p.settle n i) ∧ ∀ task, (p.settle n i).slots[i]? ≠ some (.waiting task) := by
  obtain ⟨hidle', hsettled⟩ := idle_finish_start hidle hworkers i
  rw [settle_eq]
  constructor
  · refine idle_withdrawals (fun j slot hj => ?_) n
    rw [slots_gather] at hj
    exact hidle' j slot hj
  · intro task hi
    have hi := waiting_of_foldl hi
    rw [slots_gather] at hi
    exact hsettled task hi

/-- After the rounds of some tasks none of them waits, and nothing is under way. -/
theorem idle_settleAll {p : Pool α} (hidle : Idle p) (hworkers : 0 < p.workers) (n : Nat)
    (places : List Nat) :
    Idle (places.foldl (settle n) p) ∧
      ∀ i ∈ places, ∀ task, (places.foldl (settle n) p).slots[i]? ≠ some (.waiting task) := by
  induction places generalizing p with
  | nil => exact ⟨hidle, fun i hi => absurd hi (by simp)⟩
  | cons i places ih =>
    obtain ⟨hidle', hround⟩ := idle_settle hidle hworkers n i
    have hworkers' : 0 < (p.settle n i).workers := by
      rw [settle, (sameTerms_foldl _ _).1]
      exact hworkers
    obtain ⟨hend, hrest⟩ := ih hidle' hworkers'
    rw [List.foldl_cons]
    refine ⟨hend, fun j hj task hwaits => ?_⟩
    rcases List.mem_cons.mp hj with rfl | hj
    · rw [← foldl_rounds] at hwaits
      exact hround task (waiting_of_foldl hwaits)
    · exact hrest j hj task hwaits

variable {tasks : List (Act α)} {I : List Nat → Session → Prop}
  {P : Nat → Except Fault α → Prop} {limited : Prop} {started : List Nat} {p : Pool α}

/-- **After its round a task is gathered, unless the gathering has ended.** -/
theorem settle_gathers (C : Contract tasks I P) (h : Upholds tasks I P limited started p)
    (hidle : Idle p) (hworkers : 0 < p.workers) {i : Nat} (hi : i < tasks.length) (n : Nat) :
    (p.settle n i).gathering.raised ≠ none ∨ i ∉ (p.settle n i).gathering.pending := by
  have hfinish := (h.start C i).finish i
  obtain ⟨hidle', hsettled⟩ := idle_finish_start hidle hworkers i
  rw [settle_eq, gathering_withdrawals]
  generalize (p.start i).finish i = q at hfinish hidle' hsettled
  have hlt : i < q.slots.length := by
    rw [hfinish.length]
    exact hi
  have hslot : q.slots[i]? = some q.slots[i] := List.getElem?_eq_getElem hlt
  rw [gathering_gather]
  rcases hq : q.slots[i] with task | outcome | outcome | _
  · rw [hq] at hslot
    exact absurd hslot (hsettled task)
  · rw [hq] at hslot
    exact absurd (hidle' i _ hslot) (by simp [Slot.isRunning])
  · rw [hq] at hslot
    rw [hslot]
    show (q.gathering.take q.policy i outcome).raised ≠ none ∨
      i ∉ (q.gathering.take q.policy i outcome).pending
    by_cases hraised : q.gathering.raised = none
    · refine Or.inr fun hmem => ?_
      have hpending := (take_monotone ..).1 i hmem
      have hawaits : q.gathering.awaits i = true := by
        rw [Gathering.awaits, hraised, List.elem_eq_mem, decide_eq_true hpending]
        rfl
      rw [Gathering.pending_take hawaits] at hmem
      exact hfinish.pending_nodup.not_mem_erase hmem
    · exact Or.inl ((take_monotone ..).2 hraised)
  · rw [hq] at hslot
    rw [hslot]
    exact Or.inl (hfinish.slots hslot).2

/-- After the rounds of some tasks they are gathered, unless the gathering has ended. -/
theorem settleAll_gathers (C : Contract tasks I P) {places : List Nat}
    (hplaces : ∀ i ∈ places, i < tasks.length) (h : Upholds tasks I P limited started p)
    (hidle : Idle p) (hworkers : 0 < p.workers) (n : Nat) :
    (places.foldl (settle n) p).gathering.raised ≠ none ∨
      ∀ i ∈ places, i ∉ (places.foldl (settle n) p).gathering.pending := by
  induction places generalizing p started with
  | nil => exact Or.inr fun i hi => absurd hi (by simp)
  | cons i places ih =>
    have hround := settle_gathers C h hidle hworkers (hplaces i List.mem_cons_self) n
    have h' : Upholds tasks I P limited _ (p.settle n i) := 
      h.run C fun m hm hlimit => by
        rw [round_unlimited n i m hm] at hlimit
        cases hlimit
    have hworkers' : 0 < (p.settle n i).workers := by
      rw [settle, (sameTerms_foldl _ _).1]
      exact hworkers
    have hrest := ih (fun j hj => hplaces j (List.mem_cons_of_mem _ hj)) h'
      (idle_settle hidle hworkers n i).1 hworkers'
    obtain ⟨hpending, hraised⟩ := settleAll_monotone n places (p.settle n i)
    rw [List.foldl_cons]
    rcases hround with hr | hgathered
    · exact Or.inl (hraised hr)
    · refine hrest.imp id fun hgathered' j hj => ?_
      rcases List.mem_cons.mp hj with rfl | hj
      · exact fun hmem => hgathered (hpending _ hmem)
      · exact hgathered' j hj

/-! ## A whole run -/

/-- The moves before the rounds in which what is left undone is run and gathered. -/
def windingUp (schedule : List Move) (n : Nat) : List Move :=
  schedule ++ withdrawals n ++ (List.range n).map Move.finish

theorem windingUp_isLimit {schedule : List Move} {n : Nat} {m : Move}
    (hm : m ∈ windingUp schedule n) (hlimit : m.isLimit = true) : m ∈ schedule := by
  rcases List.mem_append.mp hm with hm | hm
  · rcases List.mem_append.mp hm with hm | hm
    · exact hm
    · rw [List.eq_of_mem_replicate hm] at hlimit
      cases hlimit
  · obtain ⟨i, _, rfl⟩ := List.mem_map.mp hm
    cases hlimit

theorem conclude_eq (p : Pool α) (schedule : List Move) :
    p.conclude schedule =
      (List.range p.slots.length).foldl (settle p.slots.length)
        ((windingUp schedule p.slots.length).foldl step p) := by
  unfold conclude settling windingUp
  rw [← foldl_rounds, ← List.foldl_append]
  simp only [List.append_assoc]

theorem length_step (p : Pool α) (m : Move) : (p.step m).slots.length = p.slots.length := by
  cases m with
  | start i =>
    show (p.start i).slots.length = p.slots.length
    rcases p.start_cases i with ⟨task, _, _, _, hstart⟩ | ⟨_, hstart⟩
    · rw [hstart]
      exact List.length_set
    · rw [hstart]
  | finish i => exact List.length_modify ..
  | collect batch => rw [slots_collect]
  | withdraw =>
    show p.withdraw.slots.length = p.slots.length
    unfold withdraw
    split
    · rfl
    · exact List.length_modify ..
  | expire =>
    show p.expire.slots.length = p.slots.length
    unfold expire
    split <;> rfl
  | refuse =>
    show p.refuse.slots.length = p.slots.length
    unfold refuse
    split <;> rfl

theorem length_foldl (moves : List Move) (p : Pool α) :
    (moves.foldl step p).slots.length = p.slots.length := by
  induction moves generalizing p with
  | nil => rfl
  | cons m moves ih => rw [List.foldl_cons, ih, length_step]

theorem idle_windingUp (p : Pool α) (schedule : List Move) :
    Idle ((windingUp schedule p.slots.length).foldl step p) := by
  rw [windingUp, List.foldl_append]
  have hidle := idle_finishAll ((schedule ++ withdrawals p.slots.length).foldl step p)
  rw [length_foldl] at hidle
  exact hidle

/-- **In the end every task has ended or is cancelled**, whatever the schedule. -/
theorem isSettled_conclude {p : Pool α} (hworkers : 0 < p.workers) (schedule : List Move) :
    ∀ slot ∈ (p.conclude schedule).slots, slot.isSettled = true := by
  intro slot hslot
  obtain ⟨i, hi⟩ := List.mem_iff_getElem?.mp hslot
  have hlt : i < p.slots.length := by
    have hlt := (List.getElem?_eq_some_iff.mp hi).1
    rwa [conclude, length_foldl] at hlt
  rw [← (sameTerms_foldl (windingUp schedule p.slots.length) p).1] at hworkers
  obtain ⟨hidle, hwaiting⟩ := idle_settleAll (p.idle_windingUp schedule) hworkers p.slots.length
    (List.range p.slots.length)
  rw [← conclude_eq] at hidle hwaiting
  cases slot with
  | waiting task => exact absurd hi (hwaiting i (List.mem_range.mpr hlt) task)
  | running outcome => exact absurd (hidle i _ hi) (by simp [Slot.isRunning])
  | finished outcome => rfl
  | cancelled => rfl

/-- **After a schedule and all that it leaves undone, every outcome is gathered, unless the
gathering has ended in a fault.** -/
theorem conclude_upholds (C : Contract tasks I P) {workers : Nat} (hworkers : 0 < workers)
    (policy : Policy) (channel : Channel) {schedule : List Move}
    (hlimited : ∀ m ∈ schedule, m.isLimit = true → limited) {s : Session} (h : I [] s) :
    Upholds tasks I P limited
        ((submit workers policy channel tasks s).takenAll (schedule ++ settling tasks.length))
        ((submit workers policy channel tasks s).conclude schedule) ∧
      (((submit workers policy channel tasks s).conclude schedule).gathering.raised = none →
        ((submit workers policy channel tasks s).conclude schedule).gathering.pending = []) := by
  have hlength : (submit workers policy channel tasks s).slots.length = tasks.length :=
    List.length_map _
  have hstart : Upholds tasks I P limited [] (submit workers policy channel tasks s) :=
    Upholds.submit h
  have hall : ∀ m ∈ schedule ++ settling tasks.length, m.isLimit = true → limited := by
    intro m hm hlimit
    rcases List.mem_append.mp hm with hm | hm
    · exact hlimited m hm hlimit
    · rw [settling_unlimited _ m hm] at hlimit
      cases hlimit
  have hrun := hstart.run C hall
  have hwound := hstart.run C fun m hm hlimit =>
    hlimited m (windingUp_isLimit (n := tasks.length) hm hlimit) hlimit
  refine ⟨?_, fun hnone => ?_⟩
  · rw [conclude, hlength]
    exact hrun
  · have hidle := (submit workers policy channel tasks s).idle_windingUp schedule
    rw [conclude_eq, hlength] at hnone ⊢
    rw [hlength] at hidle
    have hworkers' : 0 < ((windingUp schedule tasks.length).foldl step
        (submit workers policy channel tasks s)).workers := by
      rw [(sameTerms_foldl _ _).1]
      exact hworkers
    rcases settleAll_gathers C (fun i hi => List.mem_range.mp hi) hwound hidle hworkers'
      tasks.length with hraised | hgathered
    · exact absurd hnone hraised
    · rw [List.eq_nil_iff_forall_not_mem]
      intro i hi
      refine hgathered i (List.mem_range.mpr ?_) hi
      exact hwound.pending_bound i ((settleAll_monotone _ _ _).1 i hi)

/-- Values that are there for all places are listed in the order of the places. -/
theorem filterMap_range {β : Type} {f : Nat → Option β} {n : Nat}
    (h : ∀ i < n, ∃ x, f i = some x) :
    ((List.range n).filterMap f).length = n ∧
      ∀ i < n, ((List.range n).filterMap f)[i]? = f i := by
  induction n with
  | zero => exact ⟨rfl, fun i hi => absurd hi (Nat.not_lt_zero i)⟩
  | succ n ih =>
    obtain ⟨hlength, hvalues⟩ := ih fun i hi => h i (Nat.lt_succ_of_lt hi)
    obtain ⟨x, hx⟩ := h n (Nat.lt_succ_self n)
    have hlast : (List.range (n + 1)).filterMap f = (List.range n).filterMap f ++ [x] := by
      rw [List.range_succ, List.filterMap_append, List.filterMap_cons, hx, List.filterMap_nil]
    rw [hlast]
    refine ⟨by rw [List.length_append, hlength, List.length_singleton], fun i hi => ?_⟩
    rcases Nat.lt_succ_iff_lt_or_eq.mp hi with hi | rfl
    · rw [List.getElem?_append_left (by rw [hlength]; exact hi)]
      exact hvalues i hi
    · rw [List.getElem?_append_right (Nat.le_of_eq hlength), hlength, Nat.sub_self,
        hx]
      rfl

/-- **Outcomes that are handed over are those of all tasks**, each of which has ended. -/
theorem Upholds.outcomes (h : Upholds tasks I P limited started p)
    (hpending : p.gathering.raised = none → p.gathering.pending = [])
    {outcomes : List (Except Fault α)} (hresult : p.gathering.result tasks.length = .ok outcomes) :
    outcomes.length = tasks.length ∧ ∀ i < tasks.length, ∃ outcome,
      outcomes[i]? = some outcome ∧ p.slots[i]? = some (.finished outcome) := by
  unfold Gathering.result at hresult
  split at hresult
  · cases hresult
  · rename_i hnone
    have hgathered : ∀ i < tasks.length,
        ∃ outcome, p.gathering.outcomes.lookup i = some outcome := by
      intro i hi
      rcases h.accounted hnone i hi with hmem | hlookup
      · rw [hpending hnone] at hmem
        cases hmem
      · exact hlookup
    obtain ⟨hlength, hvalues⟩ := filterMap_range hgathered
    cases hresult
    refine ⟨hlength, fun i hi => ?_⟩
    obtain ⟨outcome, hlookup⟩ := hgathered i hi
    exact ⟨outcome, (hvalues i hi).trans hlookup, (h.kept hlookup).2⟩

/-- **A fault in which a gathering ends is that of a task**, unless the gathering was stopped. -/
theorem Upholds.fault_of_result (h : Upholds tasks I P limited started p) {f : Fault}
    (hresult : p.gathering.result tasks.length = .error f) :
    limited ∧ IsStop f ∨
      p.policy.returnFaults = false ∧ ∃ i : Nat, p.slots[i]? = some (.finished (.error f)) := by
  unfold Gathering.result at hresult
  split at hresult
  · rename_i g hraised
    cases hresult
    exact h.fault hraised
  · cases hresult

namespace Contract

variable {workers : Nat} {policy : Policy} {channel : Channel} {s t : Session}

theorem run_upholds (C : Contract tasks I P) (h : I [] s) (schedule : List Move) :
    ∃ started, I started (Pool.run workers policy channel schedule tasks s).2 := by
  have hstart : Upholds tasks I P True [] (submit workers policy channel tasks s) :=
    Upholds.submit h
  have hlimited : ∀ m ∈ schedule ++ settling (submit workers policy channel tasks s).slots.length,
      m.isLimit = true → True := fun _ _ _ => trivial
  exact ⟨_, (hstart.run C hlimited).session⟩

/-- **Outcomes that a pool hands over are those of the tasks, in the order of submission, and every
task was taken up exactly once.** -/
theorem run_ok (C : Contract tasks I P) (hworkers : 0 < workers) (h : I [] s)
    {schedule : List Move} {outcomes : List (Except Fault α)}
    (hrun : Pool.run workers policy channel schedule tasks s = (.ok outcomes, t)) :
    ∃ started, started.Perm (List.range tasks.length) ∧ I started t ∧
      outcomes.length = tasks.length ∧ ∀ i outcome, outcomes[i]? = some outcome → P i outcome := by
  have hlimited : ∀ m ∈ schedule, m.isLimit = true → True := fun _ _ _ => trivial
  obtain ⟨hend, hpending⟩ := conclude_upholds C hworkers policy channel hlimited h
  obtain ⟨hresult, rfl⟩ := Prod.mk.inj hrun
  obtain ⟨hlength, hvalues⟩ := hend.outcomes hpending hresult
  refine ⟨_, ?_, hend.session, hlength, ?_⟩
  · refine (List.perm_ext_iff_of_nodup hend.nodup List.nodup_range).mpr fun i => ?_
    rw [List.mem_range]
    refine ⟨hend.bound i, fun hi => ?_⟩
    obtain ⟨outcome, _, hslot⟩ := hvalues i hi
    exact (hend.slots hslot).2
  · intro i outcome hi
    have hlt : i < tasks.length := by
      rw [← hlength]
      exact (List.getElem?_eq_some_iff.mp hi).1
    obtain ⟨other, hother, hslot⟩ := hvalues i hlt
    rw [hi] at hother
    cases hother
    exact (hend.slots hslot).1

/-- **Where the time is not limited, a pool only fails with the fault of a task**, and only where
faults are not outcomes. -/
theorem of_run_error (C : Contract tasks I P) (hworkers : 0 < workers) (h : I [] s)
    {schedule : List Move} {f : Fault}
    (hrun : Pool.run workers policy channel (unlimited schedule) tasks s = (.error f, t)) :
    policy.returnFaults = false ∧ ∃ i, P i (.error f) := by
  have hterms : SameTerms (submit workers policy channel tasks s)
      ((submit workers policy channel tasks s).conclude (unlimited schedule)) :=
    sameTerms_foldl _ _
  have hlimited : ∀ m ∈ unlimited schedule, m.isLimit = true → False := by
    intro m hm hlimit
    have hm := (List.mem_filter.mp hm).2
    rw [hlimit] at hm
    cases hm
  obtain ⟨hend, _⟩ := conclude_upholds C hworkers policy channel hlimited h
  obtain ⟨hresult, rfl⟩ := Prod.mk.inj hrun
  rcases hend.fault_of_result hresult with hstopped | ⟨hpolicy, i, hi⟩
  · exact hstopped.1.elim
  · rw [hterms.2] at hpolicy
    exact ⟨hpolicy, i, (hend.slots hi).1⟩

/-- **Where the time is not limited and no task can fail, a pool hands over all outcomes.** -/
theorem exists_run_ok (C : Contract tasks I P) (hok : ∀ i f, ¬ P i (.error f))
    (hworkers : 0 < workers) (h : I [] s) (schedule : List Move) :
    ∃ outcomes t,
      Pool.run workers policy channel (unlimited schedule) tasks s = (.ok outcomes, t) := by
  rcases hrun : Pool.run workers policy channel (unlimited schedule) tasks s with ⟨f | outcomes, t⟩
  · obtain ⟨_, i, hi⟩ := C.of_run_error hworkers h hrun
    exact absurd hi (hok i f)
  · exact ⟨outcomes, t, rfl⟩

/-- **Where faults are outcomes and the time is not limited, a pool hands over all outcomes**,
whatever the tasks come to. -/
theorem exists_run_ok_of_returnFaults (C : Contract tasks I P)
    (hpolicy : policy.returnFaults = true) (hworkers : 0 < workers) (h : I [] s) (schedule : List Move) :
    ∃ outcomes t,
      Pool.run workers policy channel (unlimited schedule) tasks s = (.ok outcomes, t) := by
  rcases hrun : Pool.run workers policy channel (unlimited schedule) tasks s with ⟨f | outcomes, t⟩
  · have hfalse := (C.of_run_error hworkers h hrun).1
    rw [hpolicy] at hfalse
    cases hfalse
  · exact ⟨outcomes, t, rfl⟩

end Contract

end CoreAudit.Pool
