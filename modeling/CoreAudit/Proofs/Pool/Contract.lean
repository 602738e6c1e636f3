import CoreAudit.Pool.Schedule
import CoreAudit.Proofs.Action

/-!
# Tasks that can be run in any order

What a task does may depend on the session that the tasks before it left. A `Contract` says what
must be known for the order not to matter: a property `I` of the session after the tasks of some
places, in the order in which they were run, and a property `P` of the outcome at every place, such
that one more task upholds both. Tasks that are run one after the other (`Contract.mapM_ok`) and
tasks that a pool runs under a schedule then come to the same.

Headlines:
* **`Contract.mapM_ok`**: tasks run one after the other are run once each, in order.
* **`Contract.exists_mapM_ok`**: where no task can fail, they all are.
* `Contract.of_mapM_error`: where they end in a fault, it is that of a task.
* `Contract.mapM_upholds`: the contract is kept also where a task fails.
-/

namespace CoreAudit.Pool

variable {α : Type}

/-- The tasks can be run in any order: `I started s` is upheld, where the tasks of the places
`started` were run in this order and left the session `s`, and so is `P i outcome` for the outcome
at a place. -/
structure Contract (tasks : List (Act α)) (I : List Nat → Session → Prop)
    (P : Nat → Except Fault α → Prop) : Prop where
  records : ∀ {started : List Nat} {s : Session} (rs : List LogRecord),
    I started s → I started (s.mark (rs.map .record))
  task : ∀ {started : List Nat} {s : Session} {i : Nat} {task : Act α},
    tasks[i]? = some task → i ∉ started → I started s →
      P i (task s).1 ∧ I (started ++ [i]) (task s).2

namespace Contract

variable {tasks : List (Act α)} {I : List Nat → Session → Prop}
  {P : Nat → Except Fault α → Prop}

theorem task_after (C : Contract tasks I P) {before rest : List (Act α)} {task : Act α}
    (htasks : tasks = before ++ task :: rest) {s : Session}
    (h : I (List.range before.length) s) :
    tasks = (before ++ [task]) ++ rest ∧ P before.length (task s).1 ∧
      I (List.range (before ++ [task]).length) (task s).2 := by
  have hat : tasks[before.length]? = some task := by
    rw [htasks, List.getElem?_append_right (Nat.le_refl _), Nat.sub_self]
    rfl
  have hnew : before.length ∉ List.range before.length := by
    rw [List.mem_range]
    exact Nat.lt_irrefl _
  refine ⟨by rw [htasks, List.append_assoc]; rfl, ?_⟩
  rw [List.length_append, List.length_singleton, List.range_succ]
  exact C.task hat hnew h

/-- The tasks that are left, run one after the other. -/
theorem mapM_ok_after (C : Contract tasks I P) {rest : List (Act α)} {before : List (Act α)}
    (htasks : tasks = before ++ rest) {s t : Session} {xs : List α}
    (h : I (List.range before.length) s) (hrun : rest.mapM id s = (.ok xs, t)) :
    I (List.range tasks.length) t ∧ xs.length = rest.length ∧
      ∀ (i : Nat) (x : α), xs[i]? = some x → P (before.length + i) (.ok x) := by
  induction rest generalizing before s xs with
  | nil =>
    rw [List.mapM_nil, Act.pure_eq_ok] at hrun
    obtain ⟨rfl, rfl⟩ := hrun
    rw [List.append_nil] at htasks
    rw [htasks]
    exact ⟨h, rfl, fun i x hx => absurd hx (by simp)⟩
  | cons task rest ih =>
    rw [List.mapM_cons, Act.bind_eq_ok] at hrun
    obtain ⟨x, u, hfirst, hrun⟩ := hrun
    rw [Act.bind_eq_ok] at hrun
    obtain ⟨ys, v, hrest, hrun⟩ := hrun
    rw [Act.pure_eq_ok] at hrun
    obtain ⟨rfl, rfl⟩ := hrun
    have hfirst : task s = (.ok x, u) := hfirst
    obtain ⟨hsplit, hP, hI⟩ := C.task_after htasks h
    rw [hfirst] at hP hI
    obtain ⟨hend, hlength, hvalues⟩ := ih hsplit hI hrest
    refine ⟨hend, by rw [List.length_cons, List.length_cons, hlength], ?_⟩
    intro i y hy
    cases i with
    | zero =>
      rw [List.getElem?_cons_zero] at hy
      cases hy
      exact hP
    | succ i =>
      rw [List.getElem?_cons_succ] at hy
      have hplace : before.length + (i + 1) = (before ++ [task]).length + i := by
        rw [List.length_append, List.length_singleton]
        omega
      rw [hplace]
      exact hvalues i y hy

/-- **Tasks that are run one after the other, and end well, were run once each and in order.** -/
theorem mapM_ok (C : Contract tasks I P) {s t : Session} {xs : List α} (h : I [] s)
    (hrun : tasks.mapM id s = (.ok xs, t)) :
    I (List.range tasks.length) t ∧ xs.length = tasks.length ∧
      ∀ (i : Nat) (x : α), xs[i]? = some x → P i (.ok x) := by
  have hall : tasks = [] ++ tasks := (List.nil_append tasks).symm
  obtain ⟨hend, hlength, hvalues⟩ := C.mapM_ok_after hall h hrun
  refine ⟨hend, hlength, fun i x hx => ?_⟩
  have hP := hvalues i x hx
  rw [List.length_nil, Nat.zero_add] at hP
  exact hP

/-- The tasks that are left end well where none can fail. -/
theorem exists_mapM_ok_after (C : Contract tasks I P) (hok : ∀ i f, ¬ P i (.error f))
    {rest : List (Act α)} {before : List (Act α)} (htasks : tasks = before ++ rest) {s : Session}
    (h : I (List.range before.length) s) : ∃ xs t, rest.mapM id s = (.ok xs, t) := by
  induction rest generalizing before s with
  | nil => exact ⟨[], s, rfl⟩
  | cons task rest ih =>
    obtain ⟨hsplit, hP, hI⟩ := C.task_after htasks h
    rcases hfirst : task s with ⟨x | x, u⟩
    · rw [hfirst] at hP
      exact absurd hP (hok _ x)
    · rw [hfirst] at hI
      obtain ⟨xs, t, hrest⟩ := ih hsplit hI
      refine ⟨x :: xs, t, ?_⟩
      have hfirst : (id task : Act α) s = (.ok x, u) := hfirst
      rw [List.mapM_cons, Act.bind_of_ok hfirst, Act.bind_of_ok hrest]
      rfl

/-- **Where no task can fail, tasks that are run one after the other end well.** -/
theorem exists_mapM_ok (C : Contract tasks I P) (hok : ∀ i f, ¬ P i (.error f)) {s : Session}
    (h : I [] s) : ∃ xs t, tasks.mapM id s = (.ok xs, t) := by
  have hall : tasks = [] ++ tasks := (List.nil_append tasks).symm
  exact C.exists_mapM_ok_after hok hall h

/-- A fault that the tasks that are left end in is that of one of them. -/
theorem of_mapM_error_after (C : Contract tasks I P) {rest : List (Act α)} {before : List (Act α)}
    (htasks : tasks = before ++ rest) {s t : Session} {f : Fault}
    (h : I (List.range before.length) s) (hrun : rest.mapM id s = (.error f, t)) :
    ∃ i, P i (.error f) := by
  induction rest generalizing before s with
  | nil => cases hrun
  | cons task rest ih =>
    obtain ⟨hsplit, hP, hI⟩ := C.task_after htasks h
    rw [List.mapM_cons] at hrun
    rcases hfirst : task s with ⟨g | x, u⟩
    · have hfirst' : (id task : Act α) s = (.error g, u) := hfirst
      rw [Act.bind_run, hfirst'] at hrun
      rw [hfirst] at hP
      cases hrun
      exact ⟨_, hP⟩
    · have hfirst' : (id task : Act α) s = (.ok x, u) := hfirst
      rw [Act.bind_of_ok hfirst'] at hrun
      rw [hfirst] at hI
      rcases hrest : rest.mapM id u with ⟨g | xs, w⟩
      · rw [Act.bind_run, hrest] at hrun
        cases hrun
        exact ih hsplit hI hrest
      · rw [Act.bind_of_ok hrest] at hrun
        cases hrun

/-- **A fault that ends tasks that are run one after the other is that of one of them.** -/
theorem of_mapM_error (C : Contract tasks I P) {s t : Session} {f : Fault} (h : I [] s)
    (hrun : tasks.mapM id s = (.error f, t)) : ∃ i, P i (.error f) := by
  have hall : tasks = [] ++ tasks := (List.nil_append tasks).symm
  exact C.of_mapM_error_after hall h hrun

/-- The tasks that are left are upheld, however they end. -/
theorem mapM_upholds_after (C : Contract tasks I P) {rest : List (Act α)} {before : List (Act α)}
    (htasks : tasks = before ++ rest) {s : Session} (h : I (List.range before.length) s) :
    ∃ started, I started (rest.mapM id s).2 := by
  induction rest generalizing before s with
  | nil => exact ⟨_, h⟩
  | cons task rest ih =>
    obtain ⟨hsplit, _, hI⟩ := C.task_after htasks h
    rcases hfirst : task s with ⟨f | x, u⟩
    · rw [hfirst] at hI
      have hfirst : (id task : Act α) s = (.error f, u) := hfirst
      rw [List.mapM_cons, Act.bind_run, hfirst]
      exact ⟨_, hI⟩
    · rw [hfirst] at hI
      obtain ⟨started, hrest⟩ := ih hsplit hI
      refine ⟨started, ?_⟩
      have hfirst : (id task : Act α) s = (.ok x, u) := hfirst
      rw [List.mapM_cons, Act.bind_of_ok hfirst, Act.bind_run]
      rcases hend : rest.mapM id u with ⟨f | xs, t⟩
      · rw [hend] at hrest
        exact hrest
      · rw [hend] at hrest
        exact hrest

/-- Tasks that are run one after the other are upheld, however they end. -/
theorem mapM_upholds (C : Contract tasks I P) {s : Session} (h : I [] s) :
    ∃ started, I started (tasks.mapM id s).2 := by
  have hall : tasks = [] ++ tasks := (List.nil_append tasks).symm
  exact C.mapM_upholds_after hall h

end Contract

end CoreAudit.Pool
