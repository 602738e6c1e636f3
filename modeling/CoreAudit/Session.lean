import CoreAudit.Runner.Basic

/-!
# Sessions

A session is all that an audit sees and leaves: the files, the settings, the runners known so far
and a trace of what happened. What starting a tool or asking the prover comes to is up to the
host.

* **`Act`**: an action of an audit, which changes the session and can end in a fault.
* `get?_freeName`: a scratch directory takes a name that nothing has.
* `Act.ensuring`: an action with a last step that is taken however the action ends.
-/

namespace CoreAudit

/-- Something that happened. -/
inductive Mark where
  | record (r : LogRecord)
  | event (e : Event)
  | start (s : Start)
  /-- A runner with answers given in advance was called. -/
  | call (label : Text) (c : Call)
  deriving Repr

namespace Mark

/-- The record of a mark, if it is one. -/
def record? : Mark → Option LogRecord
  | record r => some r
  | _ => none

/-- The event of a mark, if it is one. -/
def event? : Mark → Option Event
  | event e => some e
  | _ => none

/-- The start of a mark, if it is one. -/
def start? : Mark → Option Start
  | start s => some s
  | _ => none

end Mark

/-- What the host makes of what an audit asks of it. -/
structure Host where
  /-- What becomes of a start. -/
  launch : Start → Launch
  /-- Processes get a session of their own, which can be signalled as a whole. -/
  sessions : Bool
  prover : ProverScript
  /-- What the names of scratch directories start with. -/
  scratchStem : Text

/-- The runners known so far. -/
structure Toolbox where
  scrambler : Option Runner
  validators : Keyed Text Runner

/-- A toolbox without runners. -/
def Toolbox.empty : Toolbox := ⟨none, []⟩

/-- All that an audit sees and leaves. -/
structure Session where
  host : Host
  /-- The directory that relative paths start from. -/
  here : Location
  files : FileTree
  settings : Settings
  toolbox : Toolbox
  trace : List Mark

namespace Session

/-- The records of a trace, in order. -/
def records (s : Session) : List LogRecord := s.trace.filterMap Mark.record?

/-- What was done to processes and asked of the prover, in order. -/
def events (s : Session) : List Event := s.trace.filterMap Mark.event?

/-- The starts of executables, in order. -/
def starts (s : Session) : List Start := s.trace.filterMap Mark.start?

/-- The session with marks added to its trace. -/
def mark (s : Session) (marks : List Mark) : Session := { s with trace := s.trace ++ marks }

/-- Records that are left are added to the records, and nothing else is. -/
theorem records_mark (s : Session) (rs : List LogRecord) :
    (s.mark (rs.map .record)).records = s.records ++ rs := by
  unfold records mark
  rw [List.filterMap_append]
  congr 1
  induction rs with
  | nil => rfl
  | cons r rs ih => simpa [Mark.record?] using ih

/-- Records that are left are no starts. -/
theorem starts_mark_records (s : Session) (rs : List LogRecord) :
    (s.mark (rs.map .record)).starts = s.starts := by
  unfold starts mark
  have none_of_records : ((rs.map Mark.record).filterMap Mark.start?) = [] := by
    rw [List.filterMap_eq_nil_iff]
    intro m hm
    obtain ⟨r, _, rfl⟩ := List.mem_map.mp hm
    rfl
  rw [List.filterMap_append, none_of_records, List.append_nil]

end Session

/-! ## Scratch directories -/

namespace FileTree

/-- The names that a scratch directory may take, one more than the tree has entries. -/
def scratchNames (t : FileTree) (stem : Text) : List Text :=
  (List.range (t.entries.length + 1)).map fun n => stem ++ Text.ofNat n

/-- The first of those names that nothing has. -/
def freeName (t : FileTree) (stem : Text) : Text :=
  ((t.scratchNames stem).find? fun name => (t.get? [name]).isNone).getD stem

theorem length_le_of_nodup_of_subset {xs ys : List Text} (hx : xs.Nodup) (h : xs ⊆ ys) :
    xs.length ≤ ys.length := by
  induction xs generalizing ys with
  | nil => simp
  | cons x xs ih =>
    have hmem : x ∈ ys := h List.mem_cons_self
    rw [List.nodup_cons] at hx
    have hsub : xs ⊆ ys.erase x := fun y hy =>
      (List.mem_erase_of_ne fun e => hx.1 (by subst e; exact hy)).mpr
        (h (List.mem_cons_of_mem _ hy))
    have := ih hx.2 hsub
    rw [List.length_erase_of_mem hmem] at this
    have : 0 < ys.length := List.length_pos_of_mem hmem
    simp only [List.length_cons]
    omega

theorem nodup_scratchNames (t : FileTree) (stem : Text) : (t.scratchNames stem).Nodup := by
  unfold scratchNames
  exact List.Pairwise.map _
    (fun a b hab h => hab (Text.ofNat_inj (List.append_cancel_left h))) List.nodup_range

theorem mem_map_of_entryAt_ne_none {es : List (Location × Entry)} {name : Text}
    (h : entryAt [name] es ≠ none) : name ∈ es.map fun e => e.1.headD [] := by
  induction es with
  | nil => simp [entryAt] at h
  | cons e es ih =>
    obtain ⟨loc, e⟩ := e
    by_cases hl : loc = [name]
    · subst hl; simp
    · rw [entryAt, if_neg (mt isSame_iff.mp hl)] at h
      exact List.mem_cons_of_mem _ (ih h)

/-- A scratch directory takes a name that nothing has. -/
theorem get?_freeName (t : FileTree) (stem : Text) : t.get? [t.freeName stem] = none := by
  unfold freeName
  cases hf : (t.scratchNames stem).find? fun name => (t.get? [name]).isNone with
  | some name => simpa using List.find?_some hf
  | none =>
    rw [List.find?_eq_none] at hf
    have hsub : t.scratchNames stem ⊆ t.entries.map fun e => e.1.headD [] := fun name hname =>
      mem_map_of_entryAt_ne_none (by simpa [get?] using hf name hname)
    have hlen := length_le_of_nodup_of_subset (t.nodup_scratchNames stem) hsub
    simp only [scratchNames, List.length_map, List.length_range] at hlen
    omega

end FileTree

/-! ## Actions -/

/-- An action of an audit: it changes the session and can end in a fault. The session is changed
also by an action that ends in a fault. -/
abbrev Act := ExceptT Fault (StateM Session)

namespace Act

/-- Leaves marks. -/
def mark (marks : List Mark) : Act Unit := modify fun s => s.mark marks

/-- Leaves records. -/
def records (rs : List LogRecord) : Act Unit := mark (rs.map .record)

/-- Leaves a record. -/
def record (level : Level) (channel : Channel) (text : Text) : Act Unit :=
  records [⟨level, channel, text⟩]

/-- The value, or the fault. -/
def ofExcept {α : Type} : Except Fault α → Act α
  | .ok x => pure x
  | .error f => throw f

/-- The bytes of a file. -/
def readFile (path : Text) : Act Bytes := do
  let s ← get
  match s.files.read s.here path with
  | .ok bytes => pure bytes
  | .error problem => throw (.file problem (some path))

/-- Writes a text to a file. -/
def writeFile (path text : Text) : Act Unit := do
  let s ← get
  match s.files.write s.here path (Text.Utf8.encode text) with
  | .ok files => set { s with files }
  | .error problem => throw (.file problem (some path))

/-- Writes a string to a file. The file is opened first, so a string with a gap leaves it empty. -/
def writeLetters (path : Text) (s : Letters) : Act Unit :=
  match s.toText with
  | .ok text => writeFile path text
  | .error gap => do
    writeFile path []
    throw (.unencodable gap)

/-- Makes a directory and all directories above it that are missing. Those that could be made are
there also after a problem. -/
def makePath (path : Text) : Act Unit := do
  let s ← get
  let (files, problem) := s.files.makePath s.here path
  set { s with files }
  match problem with
  | none => pure ()
  | some problem => throw (.file problem (some path))

/-- Makes a directory with a name that nothing has, and gives its location. -/
def makeScratch : Act Location := do
  let s ← get
  let loc := [s.files.freeName s.host.scratchStem]
  set { s with files := s.files.put loc .directory }
  pure loc

/-- Removes a location and all that is under it. -/
def remove (loc : Location) : Act Unit :=
  modify fun s => { s with files := s.files.removeTree loc }

/-- An action with a last step that is taken however the action ends. -/
def ensuring {α : Type} (last : Act Unit) (act : Act α) : Act α := fun s =>
  match act s with
  | (result, s) =>
    match last s with
    | (.ok _, s) => (result, s)
    | (.error f, s) => (.error f, s)

/-- The outcome of an action, whatever it is. -/
def attempt {α : Type} (act : Act α) : Act (Except Fault α) := fun s =>
  let (result, s) := act s
  (.ok result, s)

variable {α β : Type}

/-- One action after another: the second is taken from where the first ends, if it ends well. -/
theorem bind_run (act : Act α) (next : α → Act β) (s : Session) :
    (act >>= next) s =
      match act s with
      | (.ok x, t) => next x t
      | (.error f, t) => (.error f, t) := by
  simp only [bind, ExceptT.bind, ExceptT.mk, StateT.bind, ExceptT.bindCont]
  generalize act s = r
  obtain ⟨result, t⟩ := r
  cases result <;> rfl

theorem pure_run (x : α) (s : Session) : (pure x : Act α) s = (.ok x, s) := rfl

theorem get_run (s : Session) : (get : Act Session) s = (.ok s, s) := rfl

theorem modify_run (change : Session → Session) (s : Session) :
    (modify change : Act Unit) s = (.ok (), change s) := rfl

/-- A value is given and the session is left alone. -/
theorem ofExcept_run (r : Except Fault α) (s : Session) : ofExcept r s = (r, s) := by
  cases r <;> rfl

/-- Leaving marks ends well. -/
theorem mark_run (marks : List Mark) (s : Session) : mark marks s = (.ok (), s.mark marks) := rfl

/-- The last step is taken however the action ends. -/
theorem ensuring_run {last : Act Unit} {act : Act α} {s t : Session}
    (h : last (act s).2 = (.ok (), t)) : ensuring last act s = ((act s).1, t) := by
  unfold ensuring
  generalize act s = r at h ⊢
  obtain ⟨result, u⟩ := r
  simp only [h]

end Act

end CoreAudit
