import CoreAudit.Text.Utf8

/-!
# Paths

A path is a text; what it leads to depends on the files. Here a path is taken apart into the
steps that are walked one after the other.

Out of scope: names that are no UTF-8, and paths with halves of pairs.

* **`Path.steps`**: the steps of a path.
* `flatten_splitAt`: the pieces of a text, with the marks between them, are the text.
-/

namespace CoreAudit

namespace Text

/-- The pieces of a text between the marks; one more than there are marks. -/
def splitAt (mark : Char) : Text → List Text
  | [] => [[]]
  | c :: t =>
    if c = mark then [] :: splitAt mark t
    else match splitAt mark t with
      | [] => [[c]]
      | p :: ps => (c :: p) :: ps

/-- The pieces of a text, with the marks between them, are the text. -/
theorem flatten_splitAt (mark : Char) (t : Text) : joined [mark] (splitAt mark t) = t := by
  have hne : ∀ u : Text, splitAt mark u ≠ [] := by
    intro u
    cases u with
    | nil => simp [splitAt]
    | cons c u =>
      rw [splitAt]
      split
      · simp
      · split <;> simp
  induction t with
  | nil => rfl
  | cons c t ih =>
    rw [splitAt]
    unfold joined at ih ⊢
    cases hs : splitAt mark t with
    | nil => exact absurd hs (hne t)
    | cons p ps =>
      rw [hs] at ih
      split
      · rename_i hc
        simp only [List.intersperse_cons_cons, List.flatten_cons, ih]
        simp [hc]
      · cases ps with
        | nil => simpa using ih
        | cons q qs =>
          simp only [List.intersperse_cons_cons, List.flatten_cons, List.cons_append] at ih ⊢
          rw [ih]

/-- The text after the last mark, or all of it. -/
def afterLast (mark : Char) (t : Text) : Text := (t.reverse.takeWhile (· != mark)).reverse

end Text

namespace Path

/-- One step of a walk: into a name, staying where one is, or to the directory above. -/
inductive Step where
  | into (name : Text)
  | stay
  | up
  deriving Repr, DecidableEq

/-- The step of one piece of a path; an empty piece is no step. -/
def step? (piece : Text) : Option Step :=
  if piece = [] then none
  else if piece = ['.'] then some .stay
  else if piece = ['.', '.'] then some .up
  else some (.into piece)

/-- The path starts at the root. -/
def isAbsolute (p : Text) : Bool := p.head? == some '/'

/-- The path ends in a slash. -/
def endsInSlash (p : Text) : Bool := p.getLast? == some '/'

/-- The steps of a path; a slash at its end asks for a directory. -/
def steps (p : Text) : List Step :=
  (Text.splitAt '/' p).filterMap step? ++ (if endsInSlash p then [.stay] else [])

/-- The steps of a path that go somewhere. -/
def moves (p : Text) : List Step := (steps p).filter (· != .stay)

/-- A path without the pieces that go nowhere: empty ones and single dots. -/
def tidy (p : Text) : Text :=
  let pieces := (Text.splitAt '/' p).filter fun piece => !piece.isEmpty && piece != ['.']
  (if isAbsolute p then ['/'] else []) ++ Text.joined ['/'] pieces

/-- A path under a directory; an absolute path stands for itself. -/
def join (dir p : Text) : Text :=
  if isAbsolute p || dir.isEmpty then p
  else if endsInSlash dir then dir ++ p
  else dir ++ '/' :: p

/-- The last name of a path. -/
def baseName (p : Text) : Text := Text.afterLast '/' p

/-- A path without the slashes at its end, unless it is nothing but slashes. -/
def trimSlashes (p : Text) : Text :=
  if p.all (· == '/') then p else (p.reverse.dropWhile (· == '/')).reverse

/-- The part of a path in front of its last name, which ends in no slash. -/
def parent (p : Text) : Text := trimSlashes (p.take (p.length - (baseName p).length))

/-- The part of a path in front of its last name, and that name; a slash at the end of the path is
passed over. -/
def splitLast (p : Text) : Text × Text :=
  if (baseName p).isEmpty then (parent (parent p), baseName (parent p)) else (parent p, baseName p)

/-- The longest name that a directory can hold, and the length that a path may not reach, in
bytes. -/
def maxName : Nat := 255

@[inherit_doc maxName]
def maxPath : Nat := 4096

/-- The name is too long for a directory. -/
def isTooLong (name : Text) : Bool := decide (maxName < (Text.Utf8.encode name).length)

end Path

end CoreAudit
