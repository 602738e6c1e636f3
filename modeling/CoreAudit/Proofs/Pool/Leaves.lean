import CoreAudit.Proofs.Pool.Run

/-!
# What tasks leave in the session

A contract tells what an outcome is and what the session is, but not that the session is the one in
which the outcome came about. `Leaves` ties them: a task that comes to an outcome leaves something
in the session, and neither records nor other tasks take it away. So it is there in the end for
every outcome that is handed over, whether the tasks are run one after the other or by a pool.

What no task takes away, and no record of the pool's own, no pool does (`run_keeps`).

Both rest on what one move can do (`step_cases`): it takes up a task that waited, or it leaves
records of the pool's own and brings no task any further than to its end.

Headlines:
* **`step_cases`**: what one move does.
* `Leaves.mapM_ok`: what tasks leave that are run one after the other.
* **`Leaves.run_ok`**: what tasks leave that a pool runs, under every schedule.
* **`run_keeps`**: what all tasks and the pool's records keep is kept.
-/

namespace CoreAudit.Pool

variable {α : Type}

/-! ## What one move does -/

/-- The task of a place was taken up and comes to the outcome. -/
def ComesTo (p : Pool α) (i : Nat) (outcome : Except Fault α) : Prop :=
  p.slots[i]? = some (.running outcome) ∨ p.slots[i]? = some (.finished outcome)

/-- A pool comes to another one without taking up a task: it leaves records of its own, and no task
comes to anything that it did not come to before. -/
structure Carries (p q : Pool α) : Prop where
  channel : q.channel = p.channel
  session : ∃ rs : List LogRecord, (∀ r ∈ rs, r.channel = p.channel) ∧
    q.session = p.session.mark (rs.map .record)
  comesTo : ∀ (i : Nat) (outcome : Except Fault α), q.ComesTo i outcome → p.ComesTo i outcome

namespace Carries

variable {p q r : Pool α}

/-- So it does where the session is the same. -/
theorem of_session_eq (hchannel : q.channel = p.channel) (hsession : q.session = p.session)
    (hcomes : ∀ i outcome, q.ComesTo i outcome → p.ComesTo i outcome) : p.Carries q where
  channel := hchannel
  session := by
    refine ⟨[], fun _ hr => absurd hr List.not_mem_nil, ?_⟩
    rw [hsession, List.map_nil, Session.mark, List.append_nil]
  comesTo := hcomes

theorem refl (p : Pool α) : p.Carries p := of_session_eq rfl rfl fun _ _ => id

theorem trans (h : p.Carries q) (h' : q.Carries r) : p.Carries r where
  channel := h'.channel.trans h.channel
  session := by
    obtain ⟨first, hfirst, hq⟩ := h.session
    obtain ⟨rest, hrest, hr⟩ := h'.session
    refine ⟨first ++ rest, fun x hx => ?_, ?_⟩
    · exact (List.mem_append.mp hx).elim (hfirst x) fun hx => (hrest x hx).trans h.channel
    · rw [hr, hq, List.map_append]
      exact congrArg (fun trace => { p.session with trace }) (List.append_assoc _ _ _)
  comesTo := fun i outcome hr => h.comesTo i outcome (h'.comesTo i outcome hr)

end Carries

/-- A slot that comes to an outcome after a change came to it before, where this change makes no
outcome up. -/
theorem ComesTo.of_map {p q : Pool α} {i : Nat} {outcome : Except Fault α} {f : Slot α → Slot α}
    (hf : ∀ slot, f slot = .running outcome ∨ f slot = .finished outcome →
      slot = .running outcome ∨ slot = .finished outcome)
    (hslots : q.slots[i]? = p.slots[i]?.map f) (h : q.ComesTo i outcome) : p.ComesTo i outcome := by
  unfold ComesTo at h ⊢
  rw [hslots, Option.map_eq_some_iff, Option.map_eq_some_iff, ← exists_or] at h
  obtain ⟨slot, h⟩ := h
  rw [← and_or_left] at h
  obtain ⟨hslot, hcomes⟩ := h
  rw [hslot]
  exact (hf slot hcomes).imp (congrArg some) (congrArg some)

theorem carries_finish (p : Pool α) (i : Nat) : p.Carries (p.finish i) := by
  refine .of_session_eq rfl rfl fun j outcome h => ?_
  have hslots := p.slots_finish i j
  split at hslots
  · refine h.of_map (fun slot hslot => ?_) hslots
    cases slot <;> simp_all [Slot.finish]
  · unfold ComesTo at h ⊢
    rwa [hslots] at h

theorem carries_withdraw (p : Pool α) : p.Carries p.withdraw := by
  have hsame : p.withdraw.channel = p.channel ∧ p.withdraw.session = p.session := by
    unfold withdraw
    split <;> exact ⟨rfl, rfl⟩
  refine .of_session_eq hsame.1 hsame.2 fun j outcome h => ?_
  rcases p.slots_withdraw j with hslots | hslots
  · unfold ComesTo at h ⊢
    rwa [hslots] at h
  · refine h.of_map (fun slot hslot => ?_) hslots
    cases slot <;> simp_all [Slot.cancel]

theorem carries_gather (p : Pool α) (i : Nat) : p.Carries (p.gather i) := by
  unfold gather
  split
  · rename_i outcome _ _
    cases outcome with
    | ok x => exact ⟨rfl, ⟨[], fun _ hr => absurd hr List.not_mem_nil, rfl⟩, fun _ _ => id⟩
    | error f =>
      refine ⟨rfl, ⟨[Gathering.faultRecord p.channel f], fun r hr => ?_, rfl⟩, fun _ _ => id⟩
      rw [List.mem_singleton.mp hr]
      rfl
  · exact .refl p

/-- **What one move does**: it takes up a task that waited, or it takes up none. -/
theorem step_cases (p : Pool α) (m : Move) :
    (∃ i task, p.slots[i]? = some (.waiting task) ∧
        p.step m = { p with session := (task p.session).2,
                            slots := p.slots.set i (.running (task p.session).1) }) ∨
      p.Carries (p.step m) := by
  cases m with
  | start i =>
    rcases p.start_cases i with ⟨task, hi, _, _, hstart⟩ | ⟨_, hstart⟩
    · exact Or.inl ⟨i, task, hi, hstart⟩
    · refine Or.inr ?_
      rw [show p.step (.start i) = p.start i from rfl, hstart]
      exact .refl p
  | finish i => exact Or.inr (p.carries_finish i)
  | collect batch =>
    refine Or.inr ?_
    show p.Carries (batch.foldl gather p)
    induction batch generalizing p with
    | nil => exact .refl p
    | cons i batch ih => exact (p.carries_gather i).trans (ih (p.gather i))
  | withdraw => exact Or.inr p.carries_withdraw
  | expire =>
    refine Or.inr ?_
    show p.Carries p.expire
    unfold expire
    split <;> exact .of_session_eq rfl rfl fun _ _ => id
  | refuse =>
    refine Or.inr ?_
    show p.Carries p.refuse
    unfold refuse
    split <;> exact .of_session_eq rfl rfl fun _ _ => id

/-! ## What nothing takes away -/

section Keeps

variable {tasks : List (Act α)} {channel : Channel} {Q : Session → Prop}

theorem mapM_keeps (htask : ∀ task ∈ tasks, ∀ s, Q s → Q (task s).2) {s : Session} (h : Q s) :
    Q (tasks.mapM id s).2 := by
  induction tasks generalizing s with
  | nil => exact h
  | cons task rest ih =>
    have hfirst := htask task List.mem_cons_self s h
    have hrest := fun u => ih (s := u) fun task hmem => htask task (List.mem_cons_of_mem _ hmem)
    rw [List.mapM_cons, Act.bind_run]
    have hid : (id task : Act α) s = task s := rfl
    rw [hid]
    rcases hrun : task s with ⟨f | x, u⟩ <;> rw [hrun] at hfirst
    · exact hfirst
    · have hthen := hrest u hfirst
      dsimp only
      rw [Act.bind_run]
      rcases hlast : rest.mapM id u with ⟨f | xs, t⟩ <;> rw [hlast] at hthen <;> exact hthen

/-- A move keeps what all tasks and the pool's records keep. -/
theorem step_keeps (htask : ∀ task ∈ tasks, ∀ s, Q s → Q (task s).2)
    (hrecords : ∀ (rs : List LogRecord) (s : Session), (∀ r ∈ rs, r.channel = channel) → Q s →
      Q (s.mark (rs.map .record)))
    {p : Pool α} {limited : Prop} {started : List Nat}
    (h : Upholds tasks (fun _ _ => True) (fun _ _ => True) limited started p)
    (hkept : p.channel = channel ∧ Q p.session) (m : Move) :
    (p.step m).channel = channel ∧ Q (p.step m).session := by
  rcases p.step_cases m with ⟨i, task, hi, hstep⟩ | hcarries
  · rw [hstep]
    exact ⟨hkept.1, htask task (List.mem_of_getElem? (h.slots hi).1) _ hkept.2⟩
  · obtain ⟨rs, hchannel, hsession⟩ := hcarries.session
    refine ⟨hcarries.channel.trans hkept.1, ?_⟩
    rw [hsession]
    exact hrecords rs _ (fun r hr => (hchannel r hr).trans hkept.1) hkept.2

/-- **A pool keeps what all its tasks and its records keep**, under every schedule. -/
theorem run_keeps (htask : ∀ task ∈ tasks, ∀ s, Q s → Q (task s).2)
    (hrecords : ∀ (rs : List LogRecord) (s : Session), (∀ r ∈ rs, r.channel = channel) → Q s →
      Q (s.mark (rs.map .record)))
    (workers : Nat) (policy : Policy) (schedule : List Move) {s : Session} (h : Q s) :
    Q (Pool.run workers policy channel schedule tasks s).2 := by
  have C : Contract tasks (fun _ _ => True) (fun _ _ => True) :=
    ⟨fun _ _ => trivial, fun _ _ _ => ⟨trivial, trivial⟩⟩
  have hfoldl : ∀ (moves : List Move) {p : Pool α} {started : List Nat},
      Upholds tasks (fun _ _ => True) (fun _ _ => True) True started p →
      p.channel = channel ∧ Q p.session → Q (moves.foldl step p).session := by
    intro moves
    induction moves with
    | nil => exact fun _ hkept => hkept.2
    | cons m moves ih =>
      exact fun hp hkept => ih (hp.step C fun _ => trivial) (step_keeps htask hrecords hp hkept m)
  exact hfoldl _ (.submit trivial) ⟨rfl, h⟩

end Keeps

/-- A task that comes to an outcome leaves `L i outcome` in the session, and nothing takes it
away. -/
structure Leaves (tasks : List (Act α)) (I : List Nat → Session → Prop)
    (L : Nat → Except Fault α → Session → Prop) : Prop where
  left : ∀ {started : List Nat} {s : Session} {i : Nat} {task : Act α},
    tasks[i]? = some task → i ∉ started → I started s → L i (task s).1 (task s).2
  records : ∀ {i : Nat} {outcome : Except Fault α} {s : Session} (rs : List LogRecord),
    L i outcome s → L i outcome (s.mark (rs.map .record))
  kept : ∀ {i : Nat} {outcome : Except Fault α} {s : Session} {task : Act α},
    task ∈ tasks → L i outcome s → L i outcome (task s).2

namespace Leaves

variable {tasks : List (Act α)} {I : List Nat → Session → Prop} {P : Nat → Except Fault α → Prop}
  {L : Nat → Except Fault α → Session → Prop} {limited : Prop} {started : List Nat} {p : Pool α}

/-! ## Tasks that are run one after the other -/

/-- Tasks that are run after others leave what was left. -/
theorem kept_mapM (Λ : Leaves tasks I L) {rest : List (Act α)} (hrest : ∀ task ∈ rest, task ∈ tasks)
    {i : Nat} {outcome : Except Fault α} {s : Session} (h : L i outcome s) :
    L i outcome (rest.mapM id s).2 :=
  mapM_keeps (fun task htask _ => Λ.kept (hrest task htask)) h

/-- The tasks that are left, run one after the other, leave something each. -/
theorem mapM_ok_after (Λ : Leaves tasks I L) (C : Contract tasks I P) {rest before : List (Act α)}
    (htasks : tasks = before ++ rest) {s t : Session} {xs : List α}
    (h : I (List.range before.length) s) (hrun : rest.mapM id s = (.ok xs, t)) :
    ∀ (i : Nat) (x : α), xs[i]? = some x → L (before.length + i) (.ok x) t := by
  induction rest generalizing before s xs with
  | nil =>
    rw [List.mapM_nil, Act.pure_eq_ok] at hrun
    obtain ⟨rfl, rfl⟩ := hrun
    exact fun i x hx => absurd hx (by simp)
  | cons task rest ih =>
    rw [List.mapM_cons, Act.bind_eq_ok] at hrun
    obtain ⟨x, u, hfirst, hrun⟩ := hrun
    rw [Act.bind_eq_ok] at hrun
    obtain ⟨ys, v, hrest, hrun⟩ := hrun
    rw [Act.pure_eq_ok] at hrun
    obtain ⟨rfl, rfl⟩ := hrun
    have hfirst : task s = (.ok x, u) := hfirst
    obtain ⟨hsplit, _, hI⟩ := C.task_after htasks h
    have hat : tasks[before.length]? = some task := by
      rw [htasks, List.getElem?_append_right (Nat.le_refl _), Nat.sub_self]
      rfl
    have hleft := Λ.left hat (fun hmem => Nat.lt_irrefl _ (List.mem_range.mp hmem)) h
    rw [hfirst] at hI hleft
    have hmem : ∀ task ∈ rest, task ∈ tasks := fun task htask => by
      rw [hsplit]
      exact List.mem_append_right _ htask
    have hlater := Λ.kept_mapM hmem hleft
    rw [hrest] at hlater
    intro i y hy
    cases i with
    | zero =>
      cases hy
      exact hlater
    | succ i =>
      have hplace : before.length + (i + 1) = (before ++ [task]).length + i := by
        rw [List.length_append, List.length_singleton]
        omega
      rw [hplace]
      exact ih hsplit hI hrest i y hy

/-- **Tasks that are run one after the other, and end well, leave something each.** -/
theorem mapM_ok (Λ : Leaves tasks I L) (C : Contract tasks I P) {s t : Session} {xs : List α}
    (h : I [] s) (hrun : tasks.mapM id s = (.ok xs, t)) :
    ∀ (i : Nat) (x : α), xs[i]? = some x → L i (.ok x) t := by
  intro i x hx
  have hleft := Λ.mapM_ok_after C (List.nil_append tasks).symm h hrun i x hx
  rwa [List.length_nil, Nat.zero_add] at hleft

/-! ## Tasks that a pool runs -/

/-- What the tasks that were taken up have left is in the session. -/
def Holds (L : Nat → Except Fault α → Session → Prop) (p : Pool α) : Prop :=
  ∀ (i : Nat) (outcome : Except Fault α), p.ComesTo i outcome → L i outcome p.session

/-- A task that is taken up leaves something; what the others have left is kept. -/
theorem holds_start (Λ : Leaves tasks I L) (h : Upholds tasks I P limited started p)
    (hholds : Holds L p) {i : Nat} {task : Act α} (hi : p.slots[i]? = some (.waiting task)) :
    Holds L { p with session := (task p.session).2,
                     slots := p.slots.set i (.running (task p.session).1) } := by
  obtain ⟨htask, hnew⟩ := h.slots hi
  intro j outcome hj
  unfold ComesTo at hj
  dsimp only at hj ⊢
  by_cases hij : i = j
  · subst hij
    rw [List.getElem?_set_self (List.getElem?_eq_some_iff.mp hi).1] at hj
    rcases hj with hj | hj
    · cases hj
      exact Λ.left htask hnew h.session
    · cases hj
  · rw [List.getElem?_set_ne hij] at hj
    exact Λ.kept (List.mem_of_getElem? htask) (hholds j outcome hj)

theorem holds_step (Λ : Leaves tasks I L) (h : Upholds tasks I P limited started p)
    (hholds : Holds L p) (m : Move) : Holds L (p.step m) := by
  rcases p.step_cases m with ⟨i, task, hi, hstep⟩ | hcarries
  · rw [hstep]
    exact Λ.holds_start h hholds hi
  · intro j outcome hj
    obtain ⟨rs, _, hsession⟩ := hcarries.session
    rw [hsession]
    exact Λ.records rs (hholds j outcome (hcarries.comesTo j outcome hj))

theorem holds_foldl (Λ : Leaves tasks I L) (C : Contract tasks I P) {moves : List Move}
    (h : Upholds tasks I P limited started p) (hlimited : ∀ m ∈ moves, m.isLimit = true → limited)
    (hholds : Holds L p) : Holds L (moves.foldl step p) := by
  induction moves generalizing p started with
  | nil => exact hholds
  | cons m moves ih =>
    exact ih (h.step C (hlimited m List.mem_cons_self))
      (fun n hn => hlimited n (List.mem_cons_of_mem _ hn)) (Λ.holds_step h hholds m)

/-- **Outcomes that a pool hands over have left something each**, under every schedule. -/
theorem run_ok (Λ : Leaves tasks I L) (C : Contract tasks I P) {workers : Nat} (hworkers : 0 < workers)
    {policy : Policy} {channel : Channel} {s t : Session} (h : I [] s) {schedule : List Move}
    {outcomes : List (Except Fault α)}
    (hrun : Pool.run workers policy channel schedule tasks s = (.ok outcomes, t)) :
    ∀ (i : Nat) (outcome : Except Fault α), outcomes[i]? = some outcome → L i outcome t := by
  have hlimited : ∀ moves : List Move, ∀ m ∈ moves, m.isLimit = true → True :=
    fun _ _ _ _ => trivial
  obtain ⟨hend, hpending⟩ := conclude_upholds C hworkers policy channel (hlimited schedule) h
  have hstart : Holds L (submit workers policy channel tasks s) := by
    intro i outcome hi
    unfold ComesTo at hi
    rw [show (submit workers policy channel tasks s).slots = tasks.map .waiting from rfl,
      List.getElem?_map] at hi
    rcases tasks[i]? with _ | task <;> simp at hi
  have hholds : Holds L ((submit workers policy channel tasks s).conclude schedule) :=
    Λ.holds_foldl C (.submit h) (hlimited _) hstart
  obtain ⟨hresult, rfl⟩ := Prod.mk.inj hrun
  obtain ⟨hlength, hvalues⟩ := hend.outcomes hpending hresult
  intro i outcome hi
  obtain ⟨other, hother, hslot⟩ := hvalues i (by
    rw [← hlength]
    exact (List.getElem?_eq_some_iff.mp hi).1)
  rw [hi] at hother
  cases hother
  exact hholds i outcome (Or.inr hslot)

end Leaves

end CoreAudit.Pool
