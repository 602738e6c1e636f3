import CoreAudit.Proofs.Pool.Settlement

/-!
# What is gathered, batch by batch

Tasks that have ended are handed back in batches, in any order and in batches of any size. Which
places a batch hands over is computed beside the moves (`handed`, `batches`), and so is whose
cancellation is asked for (`withdrawn`). The law that carries the results is one of conservation:
what was handed over and what is still to be gathered are the tasks, each once
(`perm_batches`). So there are at most as many batches that hand over something as there are tasks,
and a gathering that does not end in a fault has every outcome.

The time for the tasks is not limited here.

Headlines:
* `perm_batches`: moves lose no task and hand over none twice.
* `exists_raise`: where a gathering has ended in a fault, it did so at a batch with a failed task.
* **`run_gathers`**: what is gathered under every schedule.
-/

namespace CoreAudit.Pool

variable {α : Type}

/-! ## What is handed over -/

/-- The task of a place is handed over by a gathering: it has ended and is still to be gathered. -/
def handed (p : Pool α) (i : Nat) : List Nat :=
  if (p.slots[i]?.bind Slot.outcome?).isSome && p.gathering.awaits i then [i] else []

/-- The tasks of a batch that are handed over, in this order. -/
def handedAll (p : Pool α) : List Nat → List Nat
  | [] => []
  | i :: batch => p.handed i ++ (p.gather i).handedAll batch

/-- The batch that a move gathers. -/
def Move.batch : Move → List Nat
  | .collect batch => batch
  | _ => []

/-- The batches that moves hand over one after the other, without those that hand over nothing. -/
def batches (p : Pool α) : List Move → List (List Nat)
  | [] => []
  | m :: moves => [p.handedAll m.batch].filter (!·.isEmpty) ++ (p.step m).batches moves

theorem finished_of_mem_handedAll {p : Pool α} {batch : List Nat} {i : Nat}
    (h : i ∈ p.handedAll batch) : ∃ outcome, p.slots[i]? = some (.finished outcome) := by
  induction batch generalizing p with
  | nil => cases h
  | cons j batch ih =>
    rcases List.mem_append.mp h with hj | hrest
    · unfold handed at hj
      split at hj
      · rename_i hended
        rw [List.mem_singleton.mp hj]
        rw [Bool.and_eq_true, Option.isSome_iff_exists] at hended
        obtain ⟨⟨outcome, houtcome⟩, _⟩ := hended
        exact ⟨outcome, Upholds.finished_of_outcome? houtcome⟩
      · cases hj
    · obtain ⟨outcome, houtcome⟩ := ih hrest
      exact ⟨outcome, by rwa [slots_gather] at houtcome⟩

/-- What is still to be gathered: the task that is handed over no longer is, and no other task is
lost. -/
theorem perm_handed (p : Pool α) (i : Nat) :
    (p.handed i ++ (p.gather i).gathering.pending).Perm p.gathering.pending := by
  rw [gathering_gather]
  unfold handed
  rcases p.slots[i]?.bind Slot.outcome? with _ | outcome
  · exact List.Perm.refl _
  · dsimp only
    rcases hawaits : p.gathering.awaits i with _ | _
    · rw [Gathering.take_of_not_awaits hawaits]
      exact List.Perm.refl _
    · rw [Gathering.pending_take hawaits]
      rw [Gathering.awaits, Bool.and_eq_true, List.elem_eq_mem, decide_eq_true_eq] at hawaits
      exact (List.perm_cons_erase hawaits.2).symm

theorem perm_handedAll (p : Pool α) (batch : List Nat) :
    (p.handedAll batch ++ (batch.foldl gather p).gathering.pending).Perm p.gathering.pending := by
  induction batch generalizing p with
  | nil => exact List.Perm.refl _
  | cons i batch ih =>
    rw [handedAll, List.append_assoc]
    exact ((ih (p.gather i)).append_left _).trans (p.perm_handed i)

theorem gathering_step (p : Pool α) {m : Move} (hm : m.isLimit = false) :
    (p.step m).gathering = (m.batch.foldl gather p).gathering := by
  cases m with
  | start i => exact p.gathering_start i
  | finish i => rfl
  | collect batch => rfl
  | withdraw =>
    show p.withdraw.gathering = p.gathering
    unfold withdraw
    split <;> rfl
  | expire => cases hm
  | refuse => cases hm

/-- **Moves lose no task and hand over none twice**: what they hand over and what is still to be
gathered after them is what was to be gathered before. -/
theorem perm_batches {moves : List Move} (hmoves : ∀ m ∈ moves, m.isLimit = false) (p : Pool α) :
    ((p.batches moves).flatten ++ (moves.foldl step p).gathering.pending).Perm
      p.gathering.pending := by
  induction moves generalizing p with
  | nil => exact List.Perm.refl _
  | cons m moves ih =>
    have hfirst : ([p.handedAll m.batch].filter (!·.isEmpty)).flatten = p.handedAll m.batch := by
      rcases p.handedAll m.batch with _ | ⟨i, batch⟩ <;> simp
    have hstep := p.perm_handedAll m.batch
    rw [← p.gathering_step (hmoves m List.mem_cons_self)] at hstep
    rw [batches, List.flatten_append, hfirst, List.append_assoc]
    exact ((ih (fun m hm => hmoves m (List.mem_cons_of_mem _ hm)) _).append_left _).trans hstep

theorem length_batches_le (p : Pool α) (moves : List Move) :
    (p.batches moves).length ≤ (p.batches moves).flatten.length := by
  induction moves generalizing p with
  | nil => exact Nat.le_refl _
  | cons m moves ih =>
    have hrest := ih (p.step m)
    rw [batches, List.flatten_append, List.length_append, List.length_append]
    rcases p.handedAll m.batch with _ | ⟨i, batch⟩
    · simpa using hrest
    · simp only [List.isEmpty_cons, Bool.not_false, List.filter_cons_of_pos, List.filter_nil,
        List.flatten_cons, List.flatten_nil, List.append_nil, List.length_cons, List.length_nil]
      omega

/-! ## A gathering that ends in a fault -/

theorem gather_of_raised {p : Pool α} (h : p.gathering.raised ≠ none) (i : Nat) :
    p.gather i = p := by
  have hawaits : p.gathering.awaits i = false := by
    rw [Gathering.awaits, Option.isNone_eq_false_iff.mpr (Option.isSome_iff_ne_none.mpr h),
      Bool.false_and]
  unfold gather
  rw [hawaits]
  split
  · rename_i heq
    cases heq
  · rfl

theorem gatherAll_of_raised {p : Pool α} (h : p.gathering.raised ≠ none) (batch : List Nat) :
    batch.foldl gather p = p := by
  induction batch with
  | nil => rfl
  | cons i batch ih => rw [List.foldl_cons, gather_of_raised h, ih]

/-- No move changes a gathering that has ended. -/
theorem gathering_foldl_of_raised {moves : List Move} (hmoves : ∀ m ∈ moves, m.isLimit = false)
    {p : Pool α} (h : p.gathering.raised ≠ none) :
    (moves.foldl step p).gathering = p.gathering := by
  induction moves generalizing p with
  | nil => rfl
  | cons m moves ih =>
    have hstep : (p.step m).gathering = p.gathering := by
      rw [p.gathering_step (hmoves m List.mem_cons_self), gatherAll_of_raised h]
    rw [List.foldl_cons, ih (fun m hm => hmoves m (List.mem_cons_of_mem _ hm)) (by rwa [hstep]),
      hstep]

/-- Where an outcome ends the gathering, it is the fault of its task, and the policy says which
tasks are no longer wanted. -/
theorem of_gather_raised {p : Pool α} {i : Nat} {f : Fault} (hgoing : p.gathering.raised = none)
    (h : (p.gather i).gathering.raised = some f) :
    p.slots[i]? = some (.finished (.error f)) ∧
      (p.gather i).unwanted = (p.gather i).gathering.cancels p.policy := by
  unfold gather at h ⊢
  split
  · rename_i outcome houtcome hawaits
    rw [houtcome, hawaits] at h
    dsimp only at h
    refine ⟨?_, rfl⟩
    rw [Upholds.finished_of_outcome? houtcome]
    rw [Gathering.take, if_pos hawaits] at h
    cases outcome with
    | ok x => rw [hgoing] at h; cases h
    | error g =>
      dsimp only at h
      split at h
      · rw [hgoing] at h; cases h
      · cases h; rfl
  · rename_i hnone
    split at h
    · rename_i outcome houtcome hawaits
      exact absurd hawaits (hnone outcome houtcome)
    · rw [hgoing] at h; cases h

/-- Where a batch ends the gathering, it is in the fault of a task of the batch. -/
theorem of_gatherAll_raised {p : Pool α} {batch : List Nat} {f : Fault}
    (hgoing : p.gathering.raised = none)
    (h : (batch.foldl gather p).gathering.raised = some f) :
    (∃ i ∈ batch, p.slots[i]? = some (.finished (.error f))) ∧
      (batch.foldl gather p).unwanted = (batch.foldl gather p).gathering.cancels p.policy := by
  induction batch generalizing p with
  | nil => rw [List.foldl_nil, hgoing] at h; cases h
  | cons i batch ih =>
    rw [List.foldl_cons] at h ⊢
    have hpolicy : (p.gather i).policy = p.policy := (p.sameTerms_gather i).2
    rcases hraised : (p.gather i).gathering.raised with _ | g
    · obtain ⟨⟨j, hj, hslot⟩, hunwanted⟩ := ih hraised h
      rw [slots_gather] at hslot
      rw [hpolicy] at hunwanted
      exact ⟨⟨j, List.mem_cons_of_mem _ hj, hslot⟩, hunwanted⟩
    · have hsame := gatherAll_of_raised (p := p.gather i) (by rw [hraised]; exact Option.some_ne_none g)
        batch
      rw [hsame] at h ⊢
      obtain ⟨hslot, hunwanted⟩ := of_gather_raised hgoing h
      exact ⟨⟨i, List.mem_cons_self, hslot⟩, hunwanted⟩

/-- **Where moves end a gathering, they do so at a batch.** -/
theorem exists_raise {moves : List Move} (hmoves : ∀ m ∈ moves, m.isLimit = false) {p : Pool α}
    {f : Fault} (hgoing : p.gathering.raised = none)
    (h : (moves.foldl step p).gathering.raised = some f) :
    ∃ before batch after, moves = before ++ .collect batch :: after ∧
      (before.foldl step p).gathering.raised = none ∧
      ((before.foldl step p).step (.collect batch)).gathering.raised = some f := by
  induction moves generalizing p with
  | nil => rw [List.foldl_nil, hgoing] at h; cases h
  | cons m moves ih =>
    have hrest : ∀ m ∈ moves, m.isLimit = false := fun m hm => hmoves m (List.mem_cons_of_mem _ hm)
    rw [List.foldl_cons] at h
    rcases hraised : (p.step m).gathering.raised with _ | g
    · obtain ⟨before, batch, after, rfl, hbefore, hended⟩ := ih hrest hraised h
      exact ⟨m :: before, batch, after, rfl, hbefore, hended⟩
    · have hsame := gathering_foldl_of_raised hrest (p := p.step m)
        (by rw [hraised]; exact Option.some_ne_none g)
      have hstep := p.gathering_step (hmoves m List.mem_cons_self)
      rw [hsame] at h
      cases m with
      | collect batch => exact ⟨[], batch, moves, rfl, hgoing, h⟩
      | start _ | finish _ | withdraw =>
        rw [show (p.step _).gathering = p.gathering from hstep, hgoing] at h
        cases h
      | expire | refuse => cases hmoves _ List.mem_cons_self

/-! ## Cancellations that are asked for -/

/-- The task whose cancellation a move asks for. -/
def withdrawn (p : Pool α) : Move → List Nat
  | .withdraw => p.unwanted.head?.toList
  | _ => []

/-- The tasks whose cancellation moves ask for, in this order. -/
def withdrawnAll (p : Pool α) : List Move → List Nat
  | [] => []
  | m :: moves => p.withdrawn m ++ (p.step m).withdrawnAll moves

/-- What is no longer wanted after a gathering has ended is asked to be cancelled, or still will
be. -/
theorem unwanted_step {p : Pool α} (h : p.gathering.raised ≠ none) {m : Move}
    (hm : m.isLimit = false) : p.unwanted = p.withdrawn m ++ (p.step m).unwanted := by
  cases m with
  | start i =>
    show p.unwanted = (p.start i).unwanted
    rcases p.start_cases i with ⟨task, _, _, _, hstart⟩ | ⟨_, hstart⟩ <;> rw [hstart]
  | finish i => rfl
  | collect batch =>
    show p.unwanted = (batch.foldl gather p).unwanted
    rw [gatherAll_of_raised h]
  | withdraw =>
    show p.unwanted = p.unwanted.head?.toList ++ p.withdraw.unwanted
    unfold withdraw
    rcases hunwanted : p.unwanted with _ | ⟨i, rest⟩
    · exact hunwanted.symm
    · rfl
  | expire => cases hm
  | refuse => cases hm

theorem unwanted_foldl {moves : List Move} (hmoves : ∀ m ∈ moves, m.isLimit = false) {p : Pool α}
    (h : p.gathering.raised ≠ none) :
    p.unwanted = p.withdrawnAll moves ++ (moves.foldl step p).unwanted := by
  induction moves generalizing p with
  | nil => rfl
  | cons m moves ih =>
    have hm := hmoves m List.mem_cons_self
    have hstep : (p.step m).gathering = p.gathering := by
      rw [p.gathering_step hm, gatherAll_of_raised h]
    rw [withdrawnAll, List.append_assoc, List.foldl_cons,
      ← ih (fun m hm => hmoves m (List.mem_cons_of_mem _ hm)) (by rwa [hstep])]
    exact unwanted_step h hm

/-- So many places bound what is still to be gathered and what is no longer wanted. -/
structure Bounded (n : Nat) (p : Pool α) : Prop where
  pending : p.gathering.pending.length ≤ n
  unwanted : p.unwanted.length ≤ n

namespace Bounded

variable {n : Nat} {p : Pool α}

theorem gather (h : Bounded n p) (i : Nat) : Bounded n (p.gather i) := by
  have hpending : (p.gather i).gathering.pending.length ≤ n := by
    have hlength := (p.perm_handed i).length_eq
    have := h.pending
    rw [List.length_append] at hlength
    omega
  refine ⟨hpending, ?_⟩
  unfold Pool.gather at hpending ⊢
  split
  · rename_i houtcome hawaits
    rw [houtcome, hawaits] at hpending
    dsimp only at hpending ⊢
    unfold Gathering.cancels
    split
    · exact hpending
    · exact Nat.zero_le n
  · exact h.unwanted

theorem gatherAll (h : Bounded n p) (batch : List Nat) : Bounded n (batch.foldl Pool.gather p) := by
  induction batch generalizing p with
  | nil => exact h
  | cons i batch ih => exact ih (h.gather i)

theorem step (h : Bounded n p) {m : Move} (hm : m.isLimit = false) : Bounded n (p.step m) := by
  cases m with
  | start i =>
    show Bounded n (p.start i)
    rcases p.start_cases i with ⟨task, _, _, _, hstart⟩ | ⟨_, hstart⟩
    · rw [hstart]
      exact ⟨h.pending, h.unwanted⟩
    · rw [hstart]
      exact h
  | finish i => exact ⟨h.pending, h.unwanted⟩
  | collect batch => exact h.gatherAll batch
  | withdraw =>
    show Bounded n p.withdraw
    unfold Pool.withdraw
    split
    · exact h
    · rename_i i rest hunwanted
      have := h.unwanted
      rw [hunwanted, List.length_cons] at this
      exact ⟨h.pending, by dsimp only; omega⟩
  | expire => cases hm
  | refuse => cases hm

theorem run (h : Bounded n p) {moves : List Move} (hmoves : ∀ m ∈ moves, m.isLimit = false) :
    Bounded n (moves.foldl Pool.step p) := by
  induction moves generalizing p with
  | nil => exact h
  | cons m moves ih =>
    exact ih (h.step (hmoves m List.mem_cons_self)) fun m hm => hmoves m (List.mem_cons_of_mem _ hm)

end Bounded

theorem unwanted_withdrawals (n : Nat) (p : Pool α) :
    ((withdrawals n).foldl step p).unwanted = p.unwanted.drop n := by
  induction n generalizing p with
  | zero => rfl
  | succ n ih =>
    have hstep : (p.step .withdraw).unwanted = p.unwanted.tail := by
      show p.withdraw.unwanted = p.unwanted.tail
      unfold withdraw
      rcases hunwanted : p.unwanted with _ | ⟨i, rest⟩
      · exact hunwanted
      · rfl
    rw [withdrawals, List.replicate_succ, List.foldl_cons, ← withdrawals, ih, hstep, List.drop_tail]

/-- **In the end nothing is left that is no longer wanted**, so that all of it was asked to be
cancelled. -/
theorem unwanted_conclude {p : Pool α} (h : Bounded p.slots.length p) {schedule : List Move}
    (hschedule : ∀ m ∈ schedule, m.isLimit = false) : (p.conclude schedule).unwanted = [] := by
  have hwound : Bounded p.slots.length ((windingUp schedule p.slots.length).foldl step p) :=
    h.run fun m hm => by
      rw [Bool.eq_false_iff]
      intro hlimit
      rw [hschedule m (windingUp_isLimit hm hlimit)] at hlimit
      cases hlimit
  rw [conclude_eq]
  generalize p.slots.length = n at hwound ⊢
  cases n with
  | zero => exact List.eq_nil_of_length_eq_zero (Nat.le_zero.mp hwound.unwanted)
  | succ n =>
    -- The last round ends with as many withdrawals as there are tasks.
    rw [List.range_succ, List.foldl_append, List.foldl_cons, List.foldl_nil, settle_eq,
      unwanted_withdrawals]
    generalize (windingUp schedule (n + 1)).foldl step p = q at hwound
    have hrounds : Bounded (n + 1) ((List.range n).foldl (settle (n + 1)) q) := by
      rw [← foldl_rounds]
      refine hwound.run fun m hm => ?_
      obtain ⟨i, _, hm⟩ := List.mem_flatMap.mp hm
      exact round_unlimited _ i m hm
    have hlast := ((hrounds.step (m := .start n) rfl).step (m := .finish n) rfl).gather n
    exact List.drop_eq_nil_of_le hlast.unwanted

/-! ## Under every schedule -/

/-- A gathering ends in the fault of a task of the batch that takes it from the pool `p` to `q`; the
moves that come `after` ask to cancel every task that has not ended, where the policy says so, and
no other. -/
structure Raises (p q : Pool α) (batch : List Nat) (after : List Move) (f : Fault) : Prop where
  going : p.gathering.raised = none
  failed : ∃ i ∈ batch, q.slots[i]? = some (.finished (.error f))
  ended : q.gathering.raised = some f
  cancelled : q.policy.cancelOnFault = true → ∀ i < q.slots.length,
    (∀ outcome, q.slots[i]? ≠ some (.finished outcome)) → i ∈ q.withdrawnAll after
  spared : q.policy.cancelOnFault = false → q.withdrawnAll after = []

section Raises

variable {tasks : List (Act α)} {I : List Nat → Session → Prop} {P : Nat → Except Fault α → Prop}
  {limited : Prop} {started : List Nat} {p : Pool α}

/-- While a gathering goes on, every task that is no longer to be gathered has ended. -/
theorem Upholds.finished (h : Upholds tasks I P limited started p)
    (hgoing : p.gathering.raised = none) {i : Nat} (hi : i < p.slots.length)
    (hgathered : i ∉ p.gathering.pending) : ∃ outcome, p.slots[i]? = some (.finished outcome) := by
  rw [h.length] at hi
  obtain ⟨outcome, hlookup⟩ := (h.accounted hgoing i hi).resolve_left hgathered
  exact ⟨outcome, (h.kept hlookup).2⟩

/-- **Where moves end a gathering, they do so in the fault of a task**, and ask in the end to cancel
every task that has not ended by then, if that is the policy. -/
theorem Upholds.exists_raises (C : Contract tasks I P) (h : Upholds tasks I P limited started p)
    {moves : List Move} (hmoves : ∀ m ∈ moves, m.isLimit = false)
    (hgoing : p.gathering.raised = none) (hunwanted : (moves.foldl Pool.step p).unwanted = [])
    {f : Fault} (hraised : (moves.foldl Pool.step p).gathering.raised = some f) :
    ∃ before batch after, moves = before ++ .collect batch :: after ∧
      Raises (before.foldl Pool.step p) ((before ++ [.collect batch]).foldl Pool.step p) batch after
        f := by
  obtain ⟨before, batch, after, rfl, hbefore, hended⟩ := exists_raise hmoves hgoing hraised
  refine ⟨before, batch, after, rfl, ?_⟩
  have hlimited : ∀ m ∈ before, m.isLimit = true → limited := fun m hm hlimit => by
    rw [hmoves m (List.mem_append_left _ hm)] at hlimit
    cases hlimit
  have hq := h.run C hlimited
  have hafter : ∀ m ∈ after, m.isLimit = false := fun m hm =>
    hmoves m (List.mem_append_right _ (List.mem_cons_of_mem _ hm))
  rw [List.foldl_append, List.foldl_cons] at hunwanted
  rw [List.foldl_append, List.foldl_cons, List.foldl_nil]
  generalize before.foldl Pool.step p = q at hbefore hended hq hunwanted ⊢
  have hwithdrawn := unwanted_foldl hafter (p := q.step (.collect batch))
    (by rw [hended]; exact Option.some_ne_none f)
  rw [hunwanted, List.append_nil] at hwithdrawn
  obtain ⟨⟨i, hi, hslot⟩, hcancels⟩ := of_gatherAll_raised hbefore hended
  have hcancels : (q.step (.collect batch)).unwanted =
      (q.step (.collect batch)).gathering.cancels q.policy := hcancels
  rw [hwithdrawn, Gathering.cancels, hended, Option.isSome_some, Bool.and_true] at hcancels
  have hpolicy : (q.step (.collect batch)).policy = q.policy :=
    (q.sameTerms_step (.collect batch)).2
  refine ⟨hbefore, ⟨i, hi, by rwa [slots_collect]⟩, hended, fun hcancel j hj hopen => ?_,
    fun hspare => ?_⟩
  · rw [hpolicy] at hcancel
    rw [hcancels, if_pos hcancel]
    rw [slots_collect] at hj hopen
    have hpending : j ∈ q.gathering.pending := by
      by_contra hgathered
      obtain ⟨outcome, hfinished⟩ := hq.finished hbefore hj hgathered
      exact hopen outcome hfinished
    rcases List.mem_append.mp ((q.perm_handedAll batch).mem_iff.mpr hpending) with hhanded | hleft
    · obtain ⟨outcome, hfinished⟩ := finished_of_mem_handedAll hhanded
      exact absurd hfinished (hopen outcome)
    · exact hleft
  · rw [hpolicy] at hspare
    rw [hcancels, hspare]
    rfl

end Raises

/-- The tasks end as told on every session. -/
def EndAs (tasks : List (Act α)) (ends : Nat → Except Fault α) : Prop :=
  ∀ (i : Nat) (task : Act α), tasks[i]? = some task → ∀ t, (task t).1 = ends i

theorem CameTo.eq_of_endAs {tasks : List (Act α)} {s : Session} {i : Nat} {outcome : Except Fault α}
    (h : CameTo tasks s i outcome) {ends : Nat → Except Fault α} (hends : EndAs tasks ends) :
    outcome = ends i := by
  obtain ⟨_, t, task, htask, _, _, rfl⟩ := h
  exact hends i task htask t

namespace Gathering

variable {g : Gathering α} {n : Nat}

theorem raised_of_result_eq_ok {outcomes : List (Except Fault α)}
    (h : g.result n = .ok outcomes) : g.raised = none := by
  unfold result at h
  split at h
  · cases h
  · assumption

theorem raised_of_result_eq_error {f : Fault} (h : g.result n = .error f) : g.raised = some f := by
  unfold result at h
  split at h
  · cases h
    assumption
  · cases h

end Gathering

/-- Only values are kept of the outcomes. -/
def Gathering.KeepsValues (g : Gathering α) : Prop := ∀ x ∈ g.outcomes, ∃ value, x.2 = .ok value

theorem keepsValues_gather {p : Pool α} (hpolicy : p.policy.returnFaults = false)
    (h : p.gathering.KeepsValues) (i : Nat) : (p.gather i).gathering.KeepsValues := by
  rw [gathering_gather]
  split
  · rename_i outcome _
    unfold Gathering.take
    split
    · cases outcome with
      | ok x =>
        intro y hy
        rcases List.mem_append.mp hy with hy | hy
        · exact h y hy
        · rw [List.mem_singleton.mp hy]
          exact ⟨x, rfl⟩
      | error f =>
        dsimp only
        rw [hpolicy]
        exact h
    · exact h
  · exact h

theorem keepsValues_foldl {moves : List Move} (hmoves : ∀ m ∈ moves, m.isLimit = false)
    {p : Pool α} (hpolicy : p.policy.returnFaults = false) (h : p.gathering.KeepsValues) :
    (moves.foldl step p).gathering.KeepsValues := by
  have hbatch : ∀ (batch : List Nat) (p : Pool α), p.policy.returnFaults = false →
      p.gathering.KeepsValues → (batch.foldl gather p).gathering.KeepsValues := by
    intro batch
    induction batch with
    | nil => exact fun p _ h => h
    | cons i batch ih =>
      intro p hpolicy h
      exact ih _ (by rwa [(p.sameTerms_gather i).2]) (keepsValues_gather hpolicy h i)
  induction moves generalizing p with
  | nil => exact h
  | cons m moves ih =>
    refine ih (fun m hm => hmoves m (List.mem_cons_of_mem _ hm))
      (by rwa [(p.sameTerms_step m).2]) ?_
    rw [p.gathering_step (hmoves m List.mem_cons_self)]
    exact hbatch m.batch p hpolicy h

/-- What is handed over where only values are kept is a list of values. -/
theorem Gathering.KeepsValues.exists_eq_map {g : Gathering α} (h : g.KeepsValues) {n : Nat}
    {outcomes : List (Except Fault α)} (hresult : g.result n = .ok outcomes) :
    ∃ xs : List α, outcomes = xs.map .ok := by
  have hlookup : ∀ outcome ∈ outcomes, ∃ x : α, outcome = .ok x := by
    intro outcome houtcome
    unfold result at hresult
    split at hresult
    · cases hresult
    · cases hresult
      obtain ⟨i, _, hi⟩ := List.mem_filterMap.mp houtcome
      obtain ⟨_, _, hsplit, _⟩ := List.lookup_eq_some_iff.mp hi
      exact h (i, outcome) (by rw [hsplit]; simp)
  clear hresult
  induction outcomes with
  | nil => exact ⟨[], rfl⟩
  | cons outcome outcomes ih =>
    obtain ⟨x, rfl⟩ := hlookup outcome List.mem_cons_self
    obtain ⟨xs, rfl⟩ := ih fun o ho => hlookup o (List.mem_cons_of_mem _ ho)
    exact ⟨x :: xs, rfl⟩

/-- What the gathering of the outcomes of tasks has come to when a pool that starts as `start` has
made all its `moves` and has come to `p`. -/
structure Gathered (tasks : List (Act α)) (s : Session) (start : Pool α) (moves : List Move)
    (p : Pool α) (result : Except Fault (List (Except Fault α))) : Prop where
  /-- The gathering is over. -/
  ended : p.gathering.isOver = true
  /-- Tasks that were handed over and tasks that are still to be gathered are all tasks, each
  once. -/
  conserved :
    ((start.batches moves).flatten ++ p.gathering.pending).Perm (List.range tasks.length)
  /-- There are at most as many batches as tasks. -/
  bounded : (start.batches moves).length ≤ tasks.length
  /-- Outcomes that are handed over are those of all tasks, in the order of submission. -/
  outcomes : ∀ outcomes, result = .ok outcomes →
    (start.batches moves).flatten.Perm (List.range tasks.length) ∧
    outcomes.length = tasks.length ∧ ∀ i < tasks.length, ∃ outcome,
      outcomes[i]? = some outcome ∧ p.slots[i]? = some (.finished outcome) ∧
        CameTo tasks s i outcome
  /-- Where faults are outcomes, outcomes are handed over whatever the tasks come to. -/
  faults : start.policy.returnFaults = true → ∃ outcomes, result = .ok outcomes
  /-- Where faults are no outcomes, values are handed over iff no task has failed. -/
  values : start.policy.returnFaults = false →
    ((∃ xs : List α, result = .ok (xs.map .ok)) ↔
      ∀ (i : Nat) (f : Fault), p.slots[i]? ≠ some (.finished (.error f))) ∧
    ∀ outcomes, result = .ok outcomes → ∃ xs : List α, outcomes = xs.map .ok
  /-- So tasks that end the same on every session hand over values iff none of them fails. -/
  told : start.policy.returnFaults = false → ∀ ends, EndAs tasks ends →
    ((∃ outcomes, result = .ok outcomes) ↔ ∀ i < tasks.length, ∃ x, ends i = .ok x)
  /-- A fault is that of a task that has failed, at the batch that hands it over. -/
  raised : ∀ f, result = .error f → start.policy.returnFaults = false ∧
    ∃ before batch after, moves = before ++ .collect batch :: after ∧
      Raises (before.foldl step start) ((before ++ [.collect batch]).foldl step start) batch after f

/-! ## What a concluded pool comes to -/

/-- A pool of these tasks in which nothing is left to be gathered. The tasks in `started` were run
one after the other on the session `s`. -/
structure Concluded (tasks : List (Act α)) (s : Session) (started : List Nat) (p : Pool α) :
    Prop where
  upholds : Upholds tasks (Replay tasks s) (CameTo tasks s) False started p
  pending : p.gathering.raised = none → p.gathering.pending = []
  keepsValues : p.policy.returnFaults = false → p.gathering.KeepsValues

namespace Concluded

variable {tasks : List (Act α)} {s : Session} {started : List Nat} {p : Pool α} {i : Nat}
  {f : Fault} {outcomes : List (Except Fault α)}

theorem lt_length (K : Concluded tasks s started p) {slot : Slot α}
    (hslot : p.slots[i]? = some slot) : i < tasks.length := by
  rw [← K.upholds.length]
  exact (List.getElem?_eq_some_iff.mp hslot).1

theorem isOver (K : Concluded tasks s started p) : p.gathering.isOver = true := by
  unfold Gathering.isOver
  rcases hraised : p.gathering.raised with _ | f
  · rw [K.pending hraised]
    rfl
  · rfl

/-- A fault is handed over only where faults are no outcomes, and is that of a task. -/
theorem of_fault (K : Concluded tasks s started p)
    (hresult : p.gathering.result tasks.length = .error f) : p.policy.returnFaults = false ∧
      ∃ i : Nat, p.slots[i]? = some (.finished (.error f)) :=
  (K.upholds.fault_of_result hresult).resolve_left fun ⟨hlimited, _⟩ => hlimited.elim

theorem outcomes_of_result (K : Concluded tasks s started p)
    (hresult : p.gathering.result tasks.length = .ok outcomes) :
    outcomes.length = tasks.length ∧ ∀ i < tasks.length, ∃ outcome,
      outcomes[i]? = some outcome ∧ p.slots[i]? = some (.finished outcome) ∧
        CameTo tasks s i outcome := by
  obtain ⟨hall, hvalues⟩ := K.upholds.outcomes K.pending hresult
  refine ⟨hall, fun i hi => ?_⟩
  obtain ⟨outcome, houtcome, hslot⟩ := hvalues i hi
  exact ⟨outcome, houtcome, hslot, (K.upholds.slots hslot).1⟩

/-- Where faults are no outcomes and something is handed over, every task has given a value. -/
theorem exists_value (K : Concluded tasks s started p) (hvalues : p.policy.returnFaults = false)
    (hresult : p.gathering.result tasks.length = .ok outcomes) (hi : i < tasks.length) :
    ∃ x, p.slots[i]? = some (.finished (.ok x)) ∧ CameTo tasks s i (.ok x) := by
  obtain ⟨outcome, houtcome, hslot, hcame⟩ := (K.outcomes_of_result hresult).2 i hi
  obtain ⟨xs, rfl⟩ := (K.keepsValues hvalues).exists_eq_map hresult
  rw [List.getElem?_map, Option.map_eq_some_iff] at houtcome
  obtain ⟨x, _, rfl⟩ := houtcome
  exact ⟨x, hslot, hcame⟩

theorem exists_outcomes (K : Concluded tasks s started p)
    (hfaults : p.policy.returnFaults = true) :
    ∃ outcomes, p.gathering.result tasks.length = .ok outcomes := by
  rcases hresult : p.gathering.result tasks.length with f | outcomes
  · rw [(K.of_fault hresult).1] at hfaults
    cases hfaults
  · exact ⟨outcomes, rfl⟩

/-- Where faults are no outcomes, values are handed over iff no task has failed. -/
theorem exists_values_iff (K : Concluded tasks s started p)
    (hvalues : p.policy.returnFaults = false) :
    (∃ xs : List α, p.gathering.result tasks.length = .ok (xs.map .ok)) ↔
      ∀ (i : Nat) (f : Fault), p.slots[i]? ≠ some (.finished (.error f)) := by
  constructor
  · rintro ⟨xs, hresult⟩ i f hslot
    obtain ⟨x, hx, _⟩ := K.exists_value hvalues hresult (K.lt_length hslot)
    rw [hx] at hslot
    cases hslot
  · intro hnone
    rcases hresult : p.gathering.result tasks.length with f | outcomes
    · obtain ⟨_, i, hslot⟩ := K.of_fault hresult
      exact absurd hslot (hnone i f)
    · obtain ⟨xs, rfl⟩ := (K.keepsValues hvalues).exists_eq_map hresult
      exact ⟨xs, rfl⟩

/-- So tasks that end the same on every session hand over values iff none of them fails. -/
theorem exists_outcomes_iff (K : Concluded tasks s started p)
    (hvalues : p.policy.returnFaults = false) {ends : Nat → Except Fault α}
    (hends : EndAs tasks ends) :
    (∃ outcomes, p.gathering.result tasks.length = .ok outcomes) ↔
      ∀ i < tasks.length, ∃ x, ends i = .ok x := by
  constructor
  · rintro ⟨outcomes, hresult⟩ i hi
    obtain ⟨x, _, hcame⟩ := K.exists_value hvalues hresult hi
    exact ⟨x, (hcame.eq_of_endAs hends).symm⟩
  · intro hok
    rcases hresult : p.gathering.result tasks.length with f | outcomes
    · obtain ⟨_, i, hslot⟩ := K.of_fault hresult
      obtain ⟨x, hx⟩ := hok i (K.lt_length hslot)
      have hcame := (K.upholds.slots hslot).1.eq_of_endAs hends
      rw [hx] at hcame
      cases hcame
    · exact ⟨outcomes, rfl⟩

end Concluded

/-- What a pool with tasks that wait comes to when its moves leave nothing to be gathered or
cancelled. -/
theorem Gathered.of_upholds {tasks : List (Act α)} {s : Session} {started : List Nat}
    {start : Pool α} {moves : List Move} (hmoves : ∀ m ∈ moves, m.isLimit = false)
    (hstart : Upholds tasks (Replay tasks s) (CameTo tasks s) False [] start)
    (hnew : start.gathering = .start tasks.length)
    (hend : Upholds tasks (Replay tasks s) (CameTo tasks s) False started (moves.foldl step start))
    (hpending : (moves.foldl step start).gathering.raised = none →
      (moves.foldl step start).gathering.pending = [])
    (hunwanted : (moves.foldl step start).unwanted = []) :
    Gathered tasks s start moves (moves.foldl step start)
      ((moves.foldl step start).gathering.result tasks.length) := by
  have hpolicy : (moves.foldl step start).policy = start.policy := (sameTerms_foldl moves start).2
  have hperm := perm_batches hmoves start
  rw [show start.gathering.pending = List.range tasks.length by rw [hnew]; rfl] at hperm
  have hraises := fun f => hstart.exists_raises (f := f) (replays tasks s) hmoves
    (by rw [hnew]; rfl) hunwanted
  have hkeeps : start.policy.returnFaults = false →
      (moves.foldl step start).gathering.KeepsValues := fun hvalues =>
    keepsValues_foldl hmoves hvalues fun x hx => by
      rw [hnew] at hx
      cases hx
  generalize moves.foldl step start = p at *
  rw [← hpolicy] at hkeeps
  have K : Concluded tasks s started p := ⟨hend, hpending, hkeeps⟩
  have hcount := hperm.length_eq
  rw [List.length_append, List.length_range] at hcount
  exact
    { ended := K.isOver
      conserved := hperm
      bounded := by
        have hlength := length_batches_le start moves
        omega
      outcomes := fun outcomes hresult => by
        rw [hpending (Gathering.raised_of_result_eq_ok hresult), List.append_nil] at hperm
        exact ⟨hperm, K.outcomes_of_result hresult⟩
      faults := hpolicy ▸ K.exists_outcomes
      values := hpolicy ▸ fun hvalues =>
        ⟨K.exists_values_iff hvalues, fun _ => (K.keepsValues hvalues).exists_eq_map⟩
      told := hpolicy ▸ fun hvalues _ hends => K.exists_outcomes_iff hvalues hends
      raised := fun f hresult => ⟨hpolicy ▸ (K.of_fault hresult).1,
        hraises f (Gathering.raised_of_result_eq_error hresult)⟩ }

/-- Three tasks, the second of which fails. -/
def mixedTasks : List (Act Nat) := [pure 0, throw .noScrambler, pure 2]

/-- The first two tasks end and are handed back in one batch, the failed one first; the third one
waits. -/
def mixedSchedule : List Move := [.start 0, .start 1, .finish 1, .finish 0, .collect [1, 0]]

end CoreAudit.Pool
