import CoreAudit.Files.Path

/-!
# File trees

The files that a run sees and leaves: directories and regular files under locations, a location
being the names from the root down. Paths are walked step by step, and every step but the last
must end in a directory.

Models what `open`, `makedirs`, `mkdtemp`, `rmtree` and `exists` do to files and say of them. Out of
scope: links, permissions other than that of being run, other kinds of files, files that another
program changes meanwhile, and a storage that is full or fails.

* **`get?_put`**: a location holds what was put there last, and nothing else changes.
* **`get?_removeTree`**: removing a directory removes what is in it and nothing else.
* `removeTree_put`: what was put under a location is gone after the location is removed.
-/

namespace CoreAudit

/-- The bytes of a file. -/
abbrev Bytes := List UInt8

/-- What a location holds. -/
inductive Entry where
  | directory
  | file (content : Bytes) (executable : Bool)
  deriving Repr, DecidableEq

/-- A place in a tree: the names from the root down. -/
abbrev Location := List Text

/-- Why a path does not lead where it should. -/
inductive PathProblem where
  | missing
  | notDirectory
  | isDirectory
  | taken
  | tooLong
  | nullCharacter
  /-- A directory is to be made inside too many others that are missing. -/
  | tooDeep
  deriving Repr, DecidableEq

/-- Two locations are equally deep. -/
def sameDepth : Location → Location → Bool
  | [], [] => true
  | _ :: a, _ :: b => sameDepth a b
  | _, _ => false

/-- Two locations are the same. Their depths are compared first, which tells most locations apart
before a name is looked at. -/
def isSame (a b : Location) : Bool := sameDepth a b && a == b

theorem sameDepth_self (a : Location) : sameDepth a a = true := by
  induction a with
  | nil => rfl
  | cons _ _ ih => exact ih

theorem isSame_iff {a b : Location} : isSame a b = true ↔ a = b := by
  constructor
  · intro h
    exact beq_iff_eq.mp (Bool.and_eq_true_iff.mp h).2
  · rintro rfl
    simp [isSame, sameDepth_self]

/-- A file tree, as the locations that hold something. The root is a directory of its own. -/
structure FileTree where
  entries : List (Location × Entry)
  deriving Repr, DecidableEq

namespace FileTree

/-- The tree that holds nothing. -/
def empty : FileTree := ⟨[]⟩

/-- What the entries give for a location. -/
def entryAt (loc : Location) : List (Location × Entry) → Option Entry
  | [] => none
  | (l, e) :: es => if isSame l loc then some e else entryAt loc es

/-- What a location holds. -/
def get? (t : FileTree) (loc : Location) : Option Entry :=
  if loc = [] then some .directory else entryAt loc t.entries

/-- The entries with one of them given, at its old place or at the end. -/
def putEntry (loc : Location) (e : Entry) : List (Location × Entry) → List (Location × Entry)
  | [] => [(loc, e)]
  | (l, d) :: es => if isSame l loc then (l, e) :: es else (l, d) :: putEntry loc e es

/-- The tree with a location holding the entry. -/
def put (t : FileTree) (loc : Location) (e : Entry) : FileTree := ⟨putEntry loc e t.entries⟩

/-- The tree without a location and all that is under it. -/
def removeTree (t : FileTree) (loc : Location) : FileTree :=
  ⟨t.entries.filter fun e => !loc.isPrefixOf e.1⟩

theorem entryAt_putEntry (es : List (Location × Entry)) (loc l : Location) (e : Entry) :
    entryAt l (putEntry loc e es) = if l = loc then some e else entryAt l es := by
  induction es with
  | nil =>
    by_cases h : l = loc
    · simp [putEntry, entryAt, isSame_iff, h]
    · simp [putEntry, entryAt, isSame_iff, h, Ne.symm h]
  | cons d es ih =>
    obtain ⟨k, d⟩ := d
    by_cases hk : k = loc
    · subst hk
      by_cases h : l = k
      · simp [putEntry, entryAt, isSame_iff, h]
      · simp [putEntry, entryAt, isSame_iff, h, Ne.symm h]
    · by_cases h : l = k
      · subst h; simp [putEntry, entryAt, isSame_iff, hk]
      · simp [putEntry, entryAt, isSame_iff, hk, Ne.symm h, ih]

/-- A location holds what was put there last, and nothing else changes. -/
theorem get?_put (t : FileTree) {loc : Location} (hloc : loc ≠ []) (l : Location) (e : Entry) :
    (t.put loc e).get? l = if l = loc then some e else t.get? l := by
  unfold get? put
  by_cases hl : l = []
  · simp [hl, Ne.symm hloc]
  · simp [hl, entryAt_putEntry]

theorem entryAt_filter_of {es : List (Location × Entry)} {p : Location → Bool} {l : Location}
    (h : p l = true) : entryAt l (es.filter fun e => p e.1) = entryAt l es := by
  induction es with
  | nil => rfl
  | cons d es ih =>
    obtain ⟨k, d⟩ := d
    by_cases hk : k = l
    · subst hk; simp [entryAt, isSame_iff, h]
    · rw [List.filter_cons]
      split <;> simp [entryAt, isSame_iff, hk, ih]

/-- Removing a directory removes what is in it and nothing else. -/
theorem get?_removeTree (t : FileTree) {loc l : Location} (h : loc.isPrefixOf l = false) :
    (t.removeTree loc).get? l = t.get? l := by
  unfold get? removeTree
  split
  · rfl
  · exact entryAt_filter_of (p := fun m => !loc.isPrefixOf m) (by simp [h])

/-- What was put under a location is gone after the location is removed. -/
theorem removeTree_put (t : FileTree) {loc l : Location} (h : loc.isPrefixOf l = true)
    (e : Entry) : (t.put l e).removeTree loc = t.removeTree loc := by
  unfold put removeTree
  congr 1
  dsimp only
  induction t.entries with
  | nil => simp [putEntry, h]
  | cons d es ih =>
    obtain ⟨k, d⟩ := d
    by_cases hk : k = l
    · subst hk; simp [putEntry, isSame_iff, h]
    · simp only [putEntry, isSame_iff, if_neg hk, List.filter_cons, ih]

/-! ## Walking -/

/-- The location that the steps lead to from a location; the last step may lead to a name that
holds nothing. -/
def walk (t : FileTree) : Location → List Path.Step → Except PathProblem Location
  | loc, [] => .ok loc
  | loc, s :: rest =>
    match t.get? loc with
    | none => .error .missing
    | some (.file _ _) => .error .notDirectory
    | some .directory =>
      match s with
      | .into name =>
        if Path.isTooLong name then .error .tooLong else t.walk (loc ++ [name]) rest
      | .stay => t.walk loc rest
      | .up => t.walk loc.dropLast rest

/-- The location that a path starts from. -/
def origin (here : Location) (p : Text) : Location := if Path.isAbsolute p then [] else here

/-- What keeps a path from being walked at all. -/
def flaw? (p : Text) : Option PathProblem :=
  if p.elem '\x00' then some .nullCharacter
  else if Path.maxPath ≤ (Text.Utf8.encode p).length then some .tooLong
  else if p.isEmpty then some .missing
  else none

/-- The location that a path leads to from the directory `here`, by the given steps of it. An
empty path leads nowhere. -/
def locateBy (t : FileTree) (here : Location) (p : Text) (steps : List Path.Step) :
    Except PathProblem Location :=
  match flaw? p with
  | some e => .error e
  | none => t.walk (origin here p) steps

/-- The location that a path leads to from the directory `here`. -/
def locate (t : FileTree) (here : Location) (p : Text) : Except PathProblem Location :=
  t.locateBy here p (Path.steps p)

/-- What a path leads to, with its location. -/
def find (t : FileTree) (here : Location) (p : Text) : Except PathProblem (Location × Entry) :=
  match t.locate here p with
  | .error e => .error e
  | .ok loc =>
    match t.get? loc with
    | none => .error .missing
    | some e => .ok (loc, e)

/-- The bytes of the file at the end of a path. -/
def read (t : FileTree) (here : Location) (p : Text) : Except PathProblem Bytes :=
  match t.find here p with
  | .error e => .error e
  | .ok (_, .directory) => .error .isDirectory
  | .ok (_, .file content _) => .ok content

/-- The location to be written at the end of a path. A slash at the end asks for a directory, which
is refused before the last name is looked at. -/
def target (t : FileTree) (here : Location) (p : Text) : Except PathProblem Location :=
  let steps := (Text.splitAt '/' p).filterMap Path.step?
  if Path.endsInSlash p then
    match t.locateBy here p (steps.dropLast ++ [.stay]) with
    | .error e => .error e
    | .ok _ => .error .isDirectory
  else
    match t.locateBy here p steps with
    | .error e => .error e
    | .ok loc => if t.get? loc == some .directory then .error .isDirectory else .ok loc

/-- The tree after writing a file at the end of a path. A file that was there keeps its mode. -/
def write (t : FileTree) (here : Location) (p : Text) (content : Bytes) :
    Except PathProblem FileTree :=
  match t.target here p with
  | .error e => .error e
  | .ok loc =>
    let executable := match t.get? loc with
      | some (.file _ x) => x
      | _ => false
    .ok (t.put loc (.file content executable))

/-- A path leads to an executable regular file. -/
def isExecutable (t : FileTree) (here : Location) (p : Text) : Bool :=
  match t.find here p with
  | .ok (_, .file _ executable) => executable
  | _ => false

/-- The location of the thing that a path names, its slashes and single dots tidied away first;
the tidied empty path is the directory itself. -/
def resolve (t : FileTree) (here : Location) (p : Text) : Except PathProblem Location :=
  if p.elem '\x00' then .error .nullCharacter
  else if Path.maxPath ≤ (Text.Utf8.encode (Path.tidy p)).length then .error .tooLong
  else
    match t.walk (origin here p) (Path.moves p) with
    | .error e => .error e
    | .ok loc => if (t.get? loc).isSome then .ok loc else .error .missing

/-- A path leads to something. -/
def isThere (t : FileTree) (here : Location) (p : Text) : Bool := (t.find here p).toOption.isSome

/-- Makes sure that a step from a directory leads to a directory, and gives its location. -/
def ensure (t : FileTree) (loc : Location) :
    Option Path.Step → FileTree × Except PathProblem Location
  | none | some .stay => (t, .ok loc)
  | some .up => (t, .ok loc.dropLast)
  | some (.into name) =>
    if Path.isTooLong name then (t, .error .tooLong)
    else
      match t.get? (loc ++ [name]) with
      | none => (t.put (loc ++ [name]) .directory, .ok (loc ++ [name]))
      | some .directory => (t, .ok (loc ++ [name]))
      | some (.file _ _) => (t, .error .taken)

/-- Makes sure that there is a directory at the end of a path whose other steps are there. -/
def ensureLast (t : FileTree) (here : Location) (p : Text) :
    FileTree × Except PathProblem Location :=
  let steps := (Text.splitAt '/' p).filterMap Path.step?
  match t.locateBy here p (steps.dropLast ++ [.stay]) with
  | .error e => (t, .error e)
  | .ok loc => t.ensure loc steps.getLast?

/-- Directories are made inside each other up to this many levels at a time. -/
def maxLevels : Nat := 988

/-- Makes sure that there is a directory at the end of a path, and makes those above it that are
missing, of which there must be fewer than `levels`; the second part is the directory, or the
problem on the way. Where something else has the place of a directory, single dots after it are
passed over and lead to no directory, and anything more is a problem. -/
def ensureLevels (t : FileTree) (here : Location) :
    Nat → Text → FileTree × Except PathProblem (Option Location)
  | 0, _ => (t, .error .tooDeep)
  | levels + 1, p =>
    let (above, name) := Path.splitLast p
    if above.isEmpty || name.isEmpty || t.isThere here above then
      let (t, made) := t.ensureLast here p
      (t, made.map some)
    else
      let (t, made) := t.ensureLevels here levels above
      match made, Path.step? name with
      | .ok made, some .stay => (t, .ok made)
      | .error .taken, some .stay => (t, .ok none)
      | .ok (some loc), step =>
        match flaw? p with
        | some e => (t, .error e)
        | none =>
          let (t, made) := t.ensure loc step
          (t, made.map some)
      | .ok none, _ | .error .taken, _ => (t, .error ((flaw? p).getD .notDirectory))
      | .error e, _ => (t, .error e)

/-- Makes the directory at the end of a path and all directories above it that are missing; the
second part is the problem on the way. -/
def makePath (t : FileTree) (here : Location) (p : Text) : FileTree × Option PathProblem :=
  match t.ensureLevels here maxLevels p with
  | (t, .ok _) => (t, none)
  | (t, .error e) => (t, some e)

/-- The absolute path of a location. -/
def pathOf (loc : Location) : Text := '/' :: Text.joined ['/'] loc

end FileTree

end CoreAudit
