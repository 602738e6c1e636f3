import CoreAudit.Runner.Perform

/-!
# How actions end

An action that ends well has ended well at every step, and a step hands on the session in which the
step before it ended. `bind_eq_ok` reads this off a sequence of two actions; the other lemmas say
how the actions that sequences are made of end.

Headlines:
* **`bind_eq_ok`**: a sequence ends well iff its first action does and the rest does after it.
* **`of_ensuring_eq_ok`**: what is ensured to be left behind has ended well by itself.
* `makePath_run`, `writeFile_run`: the steps that change the files.
-/

namespace CoreAudit

/-- A session in which nothing has happened yet, on a host that starts nothing. -/
def Session.fresh (files : FileTree) (toolbox : Toolbox) : Session :=
  { host := ⟨fun _ => .refused .noScrambler, true, ⟨0.0, none, 0.0, none, .unknown⟩, "audit".toList⟩
    here := []
    files
    settings := .standard
    toolbox
    trace := [] }

/-- Where records are passed over, nothing is read off them. -/
theorem Mark.filterMap_records {β : Type} {read : Mark → Option β}
    (h : ∀ r, read (.record r) = none) (rs : List LogRecord) :
    (rs.map Mark.record).filterMap read = [] := by
  rw [List.filterMap_map]
  exact List.filterMap_eq_nil_iff.mpr fun r _ => h r

namespace Act

variable {α β : Type}

/-- **A sequence of two actions ends well iff the first does, and the second after it.** -/
theorem bind_eq_ok {act : Act α} {next : α → Act β} {s u : Session} {y : β} :
    (act >>= next) s = (.ok y, u) ↔ ∃ x t, act s = (.ok x, t) ∧ next x t = (.ok y, u) := by
  rw [bind_run]
  constructor
  · intro h
    rcases hact : act s with ⟨result, t⟩
    rw [hact] at h
    cases result with
    | ok x => exact ⟨x, t, rfl, h⟩
    | error f => cases h
  · rintro ⟨x, t, hact, hnext⟩
    rw [hact]
    exact hnext

theorem bind_of_ok {act : Act α} {next : α → Act β} {s t : Session} {x : α}
    (h : act s = (.ok x, t)) : (act >>= next) s = next x t := by
  rw [bind_run, h]

theorem bind_of_error {act : Act α} {next : α → Act β} {s t : Session} {f : Fault}
    (h : act s = (.error f, t)) : (act >>= next) s = (.error f, t) := by
  rw [bind_run, h]

theorem pure_eq_ok {x y : α} {s t : Session} :
    (pure x : Act α) s = (.ok y, t) ↔ x = y ∧ s = t := by
  rw [pure_run]
  constructor
  · intro h
    cases h
    exact ⟨rfl, rfl⟩
  · rintro ⟨rfl, rfl⟩
    rfl

theorem ofExcept_eq_ok {r : Except Fault α} {x : α} {s t : Session} :
    ofExcept r s = (.ok x, t) ↔ r = .ok x ∧ s = t := by
  rw [ofExcept_run]
  constructor
  · intro h
    exact ⟨congrArg Prod.fst h, congrArg Prod.snd h⟩
  · rintro ⟨rfl, rfl⟩
    rfl

theorem records_run (rs : List LogRecord) (s : Session) :
    records rs s = (.ok (), s.mark (rs.map .record)) := rfl

theorem attempt_run (act : Act α) (s : Session) : attempt act s = (.ok (act s).1, (act s).2) := rfl

/-- An action that is followed by a last step and ends well has ended well by itself. -/
theorem of_ensuring_eq_ok {last : Act Unit} {act : Act α} {s u : Session} {x : α}
    (h : ensuring last act s = (.ok x, u)) : ∃ t, act s = (.ok x, t) := by
  unfold ensuring at h
  rcases hact : act s with ⟨result, t⟩
  rw [hact] at h
  rcases hlast : last t with ⟨_ | _, v⟩
  · simp only [hlast] at h
    cases h
  · simp only [hlast] at h
    obtain ⟨rfl, rfl⟩ := Prod.mk.inj h
    exact ⟨t, rfl⟩

theorem map_run (g : α → β) (act : Act α) (s : Session) :
    (g <$> act) s = ((act s).1.map g, (act s).2) := by
  rw [← bind_pure_comp, bind_run]
  rcases act s with ⟨f | x, t⟩ <;> rfl

theorem readFile_run (path : Text) (s : Session) :
    readFile path s = ((s.files.read s.here path).mapError (Fault.file · (some path)), s) := by
  unfold readFile
  rw [bind_of_ok (get_run s)]
  rcases s.files.read s.here path with problem | bytes <;> rfl

/-- A directory that can be made is made. -/
theorem makePath_run {path : Text} {s : Session}
    (h : (s.files.makePath s.here path).2 = none) :
    makePath path s = (.ok (), { s with files := (s.files.makePath s.here path).1 }) := by
  unfold makePath
  rw [bind_of_ok (get_run s)]
  generalize hmade : s.files.makePath s.here path = made at h ⊢
  obtain ⟨files, problem⟩ := made
  subst h
  rfl

/-- A directory that cannot be made is a fault. -/
theorem makePath_run_error {path : Text} {s : Session} {problem : PathProblem}
    (h : (s.files.makePath s.here path).2 = some problem) :
    makePath path s = (.error (.file problem (some path)),
      { s with files := (s.files.makePath s.here path).1 }) := by
  unfold makePath
  rw [bind_of_ok (get_run s)]
  generalize hmade : s.files.makePath s.here path = made at h ⊢
  obtain ⟨files, found⟩ := made
  subst h
  rfl

/-- A file that can be written is written. -/
theorem writeFile_run {path text : Text} {s : Session} {files : FileTree}
    (h : s.files.write s.here path (Text.Utf8.encode text) = .ok files) :
    writeFile path text s = (.ok (), { s with files }) := by
  unfold writeFile
  rw [bind_of_ok (get_run s), h]
  rfl

/-- A file that cannot be written is a fault. -/
theorem writeFile_run_error {path text : Text} {s : Session} {problem : PathProblem}
    (h : s.files.write s.here path (Text.Utf8.encode text) = .error problem) :
    writeFile path text s = (.error (.file problem (some path)), s) := by
  unfold writeFile
  rw [bind_of_ok (get_run s), h]
  rfl

end Act

end CoreAudit
