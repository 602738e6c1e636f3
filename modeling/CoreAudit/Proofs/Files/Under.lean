import CoreAudit.Files.Tree

/-!
# What is under a directory

A path made of a directory's path and a name leads where the directory's path leads, and one step
further into the name. `IsName` is what a name must be for that, and `Leads` what the directory's
path must be. Both hold of a scratch directory and of the names used in it, and `Leads` goes on to
hold as long as every directory stays one (`Leads.mono`).

Headlines:
* **`locateBy_join`**: the path of a name in a directory leads to the name's place there.
* **`write_join`**, **`makePath_join`**: a file is written there, a directory made there.
* **`leads_scratch`**: a scratch directory is led to by its absolute path.
-/

namespace CoreAudit

namespace Text

theorem splitAt_ne_nil (mark : Char) (t : Text) : splitAt mark t ≠ [] := by
  cases t with
  | nil => exact List.cons_ne_nil _ _
  | cons c t =>
    rw [splitAt]
    split
    · exact List.cons_ne_nil _ _
    · split <;> exact List.cons_ne_nil _ _

theorem splitAt_of_not_mem {mark : Char} {t : Text} (h : mark ∉ t) : splitAt mark t = [t] := by
  induction t with
  | nil => rfl
  | cons c t ih =>
    rw [List.mem_cons, not_or] at h
    rw [splitAt, if_neg (Ne.symm h.1), ih h.2]

theorem splitAt_append (mark : Char) (a b : Text) :
    splitAt mark (a ++ mark :: b) = splitAt mark a ++ splitAt mark b := by
  induction a with
  | nil =>
    show (if mark = mark then [] :: splitAt mark b else _) = _
    rw [if_pos rfl]
    rfl
  | cons c a ih =>
    rw [List.cons_append, splitAt, splitAt, ih]
    split
    · rfl
    · rcases hpieces : splitAt mark a with _ | ⟨p, ps⟩
      · exact absurd hpieces (splitAt_ne_nil mark a)
      · rfl

theorem mem_of_mem_splitAt {mark c : Char} {t piece : Text} (h : piece ∈ splitAt mark t)
    (hc : c ∈ piece) : c ∈ t := by
  induction t generalizing piece with
  | nil =>
    rw [List.mem_singleton.mp h] at hc
    exact hc
  | cons d t ih =>
    rw [splitAt] at h
    split at h
    · rcases List.mem_cons.mp h with rfl | h
      · cases hc
      · exact List.mem_cons_of_mem _ (ih h hc)
    · rcases hpieces : splitAt mark t with _ | ⟨p, ps⟩
      · exact absurd hpieces (splitAt_ne_nil mark t)
      · rw [hpieces] at h ih
        rcases List.mem_cons.mp h with rfl | h
        · rcases List.mem_cons.mp hc with rfl | hc
          · exact List.mem_cons_self
          · exact List.mem_cons_of_mem _ (ih List.mem_cons_self hc)
        · exact List.mem_cons_of_mem _ (ih (List.mem_cons_of_mem _ h) hc)

theorem splitAt_append_of_not_mem {mark : Char} {a : Text} (h : mark ∉ a) (b : Text) :
    splitAt mark (a ++ b) = (a ++ (splitAt mark b).headD []) :: (splitAt mark b).tail := by
  induction a with
  | nil =>
    rcases hpieces : splitAt mark b with _ | ⟨p, ps⟩
    · exact absurd hpieces (splitAt_ne_nil mark b)
    · exact hpieces
  | cons c a ih =>
    rw [List.mem_cons, not_or] at h
    rw [List.cons_append, splitAt, if_neg (Ne.symm h.1), ih h.2]
    rfl

theorem encode_append (a b : Text) :
    Text.Utf8.encode (a ++ b) = Text.Utf8.encode a ++ Text.Utf8.encode b := List.flatMap_append

end Text

namespace Path

/-- A piece of a path that is a step into a name. -/
structure IsPiece (name : Text) : Prop where
  nonempty : name ≠ []
  notHere : name ≠ ['.']
  notAbove : name ≠ ['.', '.']
  slashless : '/' ∉ name
  nulless : '\x00' ∉ name

/-- A text that is one piece of a path, and not one that stands for a directory. A null character
in it keeps the path from being walked. -/
structure IsSimple (name : Text) : Prop where
  nonempty : name ≠ []
  notHere : name ≠ ['.']
  notAbove : name ≠ ['.', '.']
  slashless : '/' ∉ name

theorem IsSimple.isPiece {name : Text} (N : IsSimple name) (h : '\x00' ∉ name) : IsPiece name :=
  ⟨N.nonempty, N.notHere, N.notAbove, N.slashless, h⟩

theorem IsPiece.isSimple {name : Text} (N : IsPiece name) : IsSimple name :=
  ⟨N.nonempty, N.notHere, N.notAbove, N.slashless⟩

/-- A name that a directory can hold. -/
structure IsName (name : Text) : Prop extends IsPiece name where
  short : isTooLong name = false

/-- The steps of a path, but for the one that a slash at its end asks for. -/
def course (p : Text) : List Step := (Text.splitAt '/' p).filterMap step?

theorem steps_eq_course {p : Text} (h : endsInSlash p = false) : steps p = course p := by
  rw [steps, h]
  exact List.append_nil _

variable {dir name : Text}

theorem IsSimple.step? (h : IsSimple name) : step? name = some (.into name) := by
  rw [Path.step?, if_neg h.nonempty, if_neg h.notHere, if_neg h.notAbove]

theorem not_isAbsolute (h : '/' ∉ name) : isAbsolute name = false := by
  rcases hname : name with _ | ⟨c, rest⟩
  · rfl
  · have hc : c ≠ '/' := by
      rintro rfl
      exact h (hname ▸ List.mem_cons_self)
    rw [isAbsolute, List.head?_cons, Option.some_beq_some, beq_eq_false_iff_ne]
    exact hc

theorem join_of_relative (hdir : dir ≠ []) (hslash : endsInSlash dir = false)
    (h : isAbsolute name = false) : join dir name = dir ++ '/' :: name := by
  have hempty : dir.isEmpty = false := List.isEmpty_eq_false_iff.mpr hdir
  rw [join, h, hempty, hslash]
  rfl

theorem join_of_not_mem (hdir : dir ≠ []) (hslash : endsInSlash dir = false) (h : '/' ∉ name) :
    join dir name = dir ++ '/' :: name := join_of_relative hdir hslash (not_isAbsolute h)

theorem join_eq (hdir : dir ≠ []) (hslash : endsInSlash dir = false) (h : IsPiece name) :
    join dir name = dir ++ '/' :: name := join_of_not_mem hdir hslash h.slashless

theorem course_append_slash (p q : Text) : course (p ++ '/' :: q) = course p ++ course q := by
  rw [course, Text.splitAt_append, List.filterMap_append]
  rfl

theorem IsSimple.course (h : IsSimple name) : course name = [.into name] := by
  rw [Path.course, Text.splitAt_of_not_mem h.slashless, List.filterMap_cons, h.step?,
    List.filterMap_nil]

theorem course_append (h : IsSimple name) :
    course (dir ++ '/' :: name) = course dir ++ [.into name] := by
  rw [course_append_slash, h.course]

theorem not_endsInSlash_append (h : IsSimple name) :
    endsInSlash (dir ++ '/' :: name) = false := by
  have hlast : (dir ++ '/' :: name).getLast? = name.getLast? := by
    rw [List.getLast?_append]
    rcases hname : name.getLast? with _ | c
    · exact absurd (List.getLast?_eq_none_iff.mp hname) h.nonempty
    · rw [List.getLast?_cons, hname]
      rfl
  rw [endsInSlash, hlast]
  rcases hname : name.getLast? with _ | c
  · rfl
  · have hc : c ≠ '/' := by
      rintro rfl
      exact h.slashless (List.mem_of_getLast? hname)
    rw [Option.some_beq_some, beq_eq_false_iff_ne]
    exact hc

theorem baseName_append (h : '/' ∉ name) : baseName (dir ++ '/' :: name) = name := by
  have hall : ∀ c ∈ name.reverse, (c != '/') = true := by
    intro c hc
    rw [bne_iff_ne]
    rintro rfl
    exact h (List.mem_reverse.mp hc)
  rw [baseName, Text.afterLast, List.reverse_append, List.reverse_cons, List.append_assoc,
    List.takeWhile_append_of_pos hall]
  show (name.reverse ++ List.takeWhile (· != '/') ('/' :: dir.reverse)).reverse = name
  rw [List.takeWhile_cons_of_neg (by decide), List.append_nil, List.reverse_reverse]

theorem trimSlashes_append (hdir : dir ≠ []) (hslash : endsInSlash dir = false) :
    trimSlashes (dir ++ ['/']) = dir := by
  rcases hlast : dir.getLast? with _ | c
  · exact absurd (List.getLast?_eq_none_iff.mp hlast) hdir
  · have hc : c ≠ '/' := by
      rintro rfl
      rw [endsInSlash, hlast] at hslash
      exact absurd hslash (by decide)
    have hmem : c ∈ dir := List.mem_of_getLast? hlast
    have hall : (dir ++ ['/']).all (· == '/') = false := by
      rw [List.all_eq_false]
      exact ⟨c, List.mem_append_left _ hmem, by rw [beq_iff_eq]; exact hc⟩
    obtain ⟨front, rfl⟩ := List.getLast?_eq_some_iff.mp hlast
    rw [trimSlashes, hall, List.reverse_append]
    show (List.dropWhile (· == '/') ('/' :: (front ++ [c]).reverse)).reverse = front ++ [c]
    rw [List.dropWhile_cons_of_pos (by decide), List.reverse_append]
    show (List.dropWhile (· == '/') (c :: front.reverse)).reverse = front ++ [c]
    rw [List.dropWhile_cons_of_neg (by rw [beq_iff_eq]; exact hc), List.reverse_cons,
      List.reverse_reverse]

theorem splitLast_append (hdir : dir ≠ []) (hslash : endsInSlash dir = false) (hname : name ≠ [])
    (h : '/' ∉ name) : splitLast (dir ++ '/' :: name) = (dir, name) := by
  have hempty : (baseName (dir ++ '/' :: name)).isEmpty = false := by
    rw [baseName_append h]
    exact List.isEmpty_eq_false_iff.mpr hname
  have hparent : parent (dir ++ '/' :: name) = dir := by
    have hfront : (dir ++ '/' :: name).take
        ((dir ++ '/' :: name).length - (baseName (dir ++ '/' :: name)).length) =
          dir ++ ['/'] := by
      rw [baseName_append h]
      have hsplit : dir ++ '/' :: name = (dir ++ ['/']) ++ name := by
        rw [List.append_assoc]
        rfl
      rw [hsplit, List.length_append, Nat.add_sub_cancel]
      exact List.take_left
    rw [parent, hfront, trimSlashes_append hdir hslash]
  rw [splitLast, hempty, hparent, baseName_append h]
  rfl

end Path

namespace FileTree

variable {t : FileTree} {here loc : Location} {dir name : Text}

/-! ## Walks -/

theorem walk_cons (t : FileTree) (loc : Location) (s : Path.Step) (steps : List Path.Step) :
    t.walk loc (s :: steps) =
      match t.get? loc with
      | none => .error .missing
      | some (.file _ _) => .error .notDirectory
      | some .directory =>
        match s with
        | .into name =>
          if Path.isTooLong name then .error .tooLong else t.walk (loc ++ [name]) steps
        | .stay => t.walk loc steps
        | .up => t.walk loc.dropLast steps := rfl

/-- Steps are walked one after the other. -/
theorem walk_append (t : FileTree) (loc : Location) (a b : List Path.Step) :
    t.walk loc (a ++ b) = match t.walk loc a with
      | .ok l => t.walk l b
      | .error e => .error e := by
  induction a generalizing loc with
  | nil => rfl
  | cons s a ih =>
    rw [List.cons_append, walk_cons, walk_cons]
    rcases t.get? loc with _ | _ | _
    · rfl
    · cases s with
      | into name =>
        dsimp only
        split
        · rfl
        · exact ih _
      | stay => exact ih _
      | up => exact ih _
    · rfl

/-- A walk leads where it led as long as every directory stays one. -/
theorem walk_mono {t' : FileTree}
    (h : ∀ l, t.get? l = some .directory → t'.get? l = some .directory)
    {steps : List Path.Step} {loc last : Location} (hwalk : t.walk loc steps = .ok last) :
    t'.walk loc steps = .ok last := by
  induction steps generalizing loc with
  | nil => exact hwalk
  | cons s steps ih =>
    rw [walk_cons] at hwalk ⊢
    rcases hloc : t.get? loc with _ | _ | _
    · rw [hloc] at hwalk
      cases hwalk
    · rw [hloc] at hwalk
      rw [h loc hloc]
      cases s with
      | into name =>
        dsimp only at hwalk ⊢
        split at hwalk
        · cases hwalk
        · rename_i hshort
          rw [if_neg hshort]
          exact ih hwalk
      | stay => exact ih hwalk
      | up => exact ih hwalk
    · rw [hloc] at hwalk
      cases hwalk

theorem origin_append (hdir : dir ≠ []) (rest : Text) :
    origin here (dir ++ rest) = origin here dir := by
  cases dir with
  | nil => exact absurd rfl hdir
  | cons c front => rfl

/-! ## Directories that are led to -/

/-- The path leads to a directory, and names can be put after it. -/
structure Leads (t : FileTree) (here : Location) (dir : Text) (loc : Location) : Prop where
  nonempty : dir ≠ []
  unclosed : Path.endsInSlash dir = false
  nulless : '\x00' ∉ dir
  walk : t.walk (origin here dir) (Path.course dir) = .ok loc
  directory : t.get? loc = some .directory

/-- A directory is led to as long as every directory stays one. -/
theorem Leads.mono {t' : FileTree} (L : Leads t here dir loc)
    (h : ∀ l, t.get? l = some .directory → t'.get? l = some .directory) :
    Leads t' here dir loc :=
  ⟨L.nonempty, L.unclosed, L.nulless, walk_mono h L.walk, h loc L.directory⟩

/-- What is put where no directory is leaves every directory one. -/
theorem get?_put_directory {l m : Location} {e : Entry} (hl : l ≠ [])
    (hplace : t.get? l ≠ some .directory) (h : t.get? m = some .directory) :
    (t.put l e).get? m = some .directory := by
  have hne : m ≠ l := by
    rintro rfl
    exact hplace h
  rw [get?_put t hl, if_neg hne]
  exact h

theorem Leads.put {l : Location} {e : Entry} (L : Leads t here dir loc) (hl : l ≠ [])
    (hplace : t.get? l ≠ some .directory) : Leads (t.put l e) here dir loc :=
  L.mono fun _ => get?_put_directory hl hplace

/-- A path that can be walked: no null character is in it, it is not empty, and not too long. -/
theorem flaw?_eq_none {p : Text} (hnull : '\x00' ∉ p)
    (hlength : (Text.Utf8.encode p).length < Path.maxPath) (hempty : p ≠ []) :
    flaw? p = none := by
  rw [flaw?, List.elem_eq_mem, decide_eq_false hnull]
  rw [if_neg Bool.false_ne_true, if_neg (Nat.not_le.mpr hlength),
    List.isEmpty_eq_false_iff.mpr hempty]
  rfl

/-- A directory that is led to is found, if its path is short enough. -/
theorem Leads.find (L : Leads t here dir loc)
    (hshort : (Text.Utf8.encode dir).length < Path.maxPath) :
    t.find here dir = .ok (loc, .directory) := by
  rw [FileTree.find, locate, locateBy, flaw?_eq_none L.nulless hshort L.nonempty,
    Path.steps_eq_course L.unclosed]
  dsimp only
  rw [L.walk]
  dsimp only
  rw [L.directory]

theorem Leads.isThere (L : Leads t here dir loc)
    (hshort : (Text.Utf8.encode dir).length < Path.maxPath) : t.isThere here dir = true := by
  rw [FileTree.isThere, L.find hshort]
  rfl

/-- What becomes of a directory that is to be made in a directory: its path may be one that cannot
be walked, or lead to a place where there is something. -/
theorem makePath_join_eq (L : Leads t here dir loc) (N : Path.IsSimple name)
    (hshort : (Text.Utf8.encode dir).length < Path.maxPath) :
    t.makePath here (Path.join dir name) =
      match flaw? (dir ++ '/' :: name) with
      | some e => (t, some e)
      | none =>
        match t.ensure loc (some (.into name)) with
        | (t', .ok _) => (t', none)
        | (t', .error e) => (t', some e) := by
  have hcourse : Path.course (dir ++ '/' :: name) = Path.course dir ++ [.into name] :=
    Path.course_append N
  have hlast : t.ensureLast here (dir ++ '/' :: name) =
      match flaw? (dir ++ '/' :: name) with
      | some e => (t, .error e)
      | none => t.ensure loc (some (.into name)) := by
    rw [Path.course] at hcourse
    rw [ensureLast, hcourse, List.dropLast_concat, List.getLast?_concat, locateBy]
    rcases flaw? (dir ++ '/' :: name) with _ | problem
    · dsimp only
      rw [origin_append L.nonempty, walk_append, L.walk]
      dsimp only
      rw [walk_cons, L.directory]
      dsimp only
      rw [walk]
    · rfl
  have hlevels : t.ensureLevels here maxLevels (dir ++ '/' :: name) =
      ((t.ensureLast here (dir ++ '/' :: name)).1,
        (t.ensureLast here (dir ++ '/' :: name)).2.map some) := by
    rw [maxLevels, ensureLevels,
      Path.splitLast_append L.nonempty L.unclosed N.nonempty N.slashless]
    dsimp only
    rw [L.isThere hshort, Bool.or_true, if_pos rfl]
  rw [Path.join_of_not_mem L.nonempty L.unclosed N.slashless, makePath, hlevels, hlast]
  rcases flaw? (dir ++ '/' :: name) with _ | problem
  · dsimp only
    rcases t.ensure loc (some (.into name)) with ⟨t', _ | _⟩ <;> rfl
  · rfl

section Names

variable (L : Leads t here dir loc) (N : Path.IsPiece name)
  (hlength : (Text.Utf8.encode (dir ++ '/' :: name)).length < Path.maxPath)
include L N hlength

theorem flaw?_join : flaw? (dir ++ '/' :: name) = none := by
  have hnull : '\x00' ∉ dir ++ '/' :: name := by
    rw [List.mem_append, List.mem_cons]
    rintro (h | h | h)
    · exact L.nulless h
    · exact absurd h (by decide)
    · exact N.nulless h
  exact flaw?_eq_none hnull hlength (List.append_ne_nil_of_left_ne_nil L.nonempty _)

/-- **The path of a name in a directory leads to the name's place there.** -/
theorem locateBy_join (hshort : Path.isTooLong name = false) :
    t.locateBy here (dir ++ '/' :: name) (Path.course (dir ++ '/' :: name)) =
      .ok (loc ++ [name]) := by
  rw [locateBy, flaw?_join L N hlength, Path.course_append N.isSimple, origin_append L.nonempty]
  dsimp only
  rw [walk_append, L.walk]
  dsimp only
  rw [walk_cons, L.directory]
  dsimp only
  rw [hshort, if_neg Bool.false_ne_true, walk]

/-- **A file is written at the name's place**, where nothing is. -/
theorem write_join (hshort : Path.isTooLong name = false)
    (hfree : t.get? (loc ++ [name]) = none) (content : Bytes) :
    t.write here (Path.join dir name) content =
      .ok (t.put (loc ++ [name]) (.file content false)) := by
  have htarget : t.target here (dir ++ '/' :: name) = .ok (loc ++ [name]) := by
    have hlocate := locateBy_join L N hlength hshort
    rw [Path.course] at hlocate
    rw [target, Path.not_endsInSlash_append N.isSimple, if_neg Bool.false_ne_true, hlocate]
    dsimp only
    rw [hfree]
    rfl
  rw [Path.join_eq L.nonempty L.unclosed N, write, htarget]
  dsimp only
  rw [hfree]

omit L N in
theorem length_dir_lt : (Text.Utf8.encode dir).length < Path.maxPath := by
  rw [Text.encode_append, List.length_append] at hlength
  omega

/-- **A directory is made at the name's place**, where nothing is. -/
theorem makePath_join (hshort : Path.isTooLong name = false)
    (hfree : t.get? (loc ++ [name]) = none) :
    t.makePath here (Path.join dir name) = (t.put (loc ++ [name]) .directory, none) := by
  rw [makePath_join_eq L N.isSimple (length_dir_lt hlength), flaw?_join L N hlength]
  dsimp only
  rw [ensure, hshort, if_neg Bool.false_ne_true, hfree]

theorem makePath_join_of_tooLong (hlong : Path.isTooLong name = true) :
    t.makePath here (Path.join dir name) = (t, some .tooLong) := by
  rw [makePath_join_eq L N.isSimple (length_dir_lt hlength), flaw?_join L N hlength]
  dsimp only
  rw [ensure, hlong, if_pos rfl]

/-- A directory that is there is left alone. -/
theorem makePath_join_of_directory (hshort : Path.isTooLong name = false)
    (hthere : t.get? (loc ++ [name]) = some .directory) :
    t.makePath here (Path.join dir name) = (t, none) := by
  rw [makePath_join_eq L N.isSimple (length_dir_lt hlength), flaw?_join L N hlength]
  dsimp only
  rw [ensure, hshort, if_neg Bool.false_ne_true, hthere]

end Names

/-- A step into a name makes a directory where nothing is, or changes nothing. -/
theorem ensure_into_cases (t : FileTree) (loc : Location) (name : Text) :
    (t.ensure loc (some (.into name))).1 = t ∨
      t.get? (loc ++ [name]) = none ∧
        (t.ensure loc (some (.into name))).1 = t.put (loc ++ [name]) .directory := by
  rw [ensure]
  split
  · exact Or.inl rfl
  · rcases t.get? (loc ++ [name]) with _ | _ | _
    · exact Or.inr ⟨rfl, rfl⟩
    · exact Or.inl rfl
    · exact Or.inl rfl

/-- **Whatever becomes of a directory that is to be made, nothing else changes**: it is made where
nothing is, or nothing is changed at all. -/
theorem makePath_join_cases (L : Leads t here dir loc) (N : Path.IsSimple name)
    (hshort : (Text.Utf8.encode dir).length < Path.maxPath) :
    (t.makePath here (Path.join dir name)).1 = t ∨
      t.get? (loc ++ [name]) = none ∧
        (t.makePath here (Path.join dir name)).1 = t.put (loc ++ [name]) .directory := by
  rw [makePath_join_eq L N hshort]
  rcases flaw? (dir ++ '/' :: name) with _ | problem
  · have hmade := t.ensure_into_cases loc name
    rcases hensure : t.ensure loc (some (.into name)) with ⟨t', _ | _⟩ <;> rw [hensure] at hmade <;>
      exact hmade
  · exact Or.inl rfl

/-! ## Scratch directories -/

theorem pathOf_singleton (name : Text) : pathOf [name] = '/' :: name := by
  show '/' :: (List.intersperse ['/'] [name]).flatten = _
  rw [List.intersperse_singleton, List.flatten_singleton]

theorem not_endsInSlash_pathOf (N : Path.IsSimple name) :
    Path.endsInSlash (pathOf [name]) = false := by
  rw [pathOf_singleton]
  exact (Path.not_endsInSlash_append N : Path.endsInSlash ([] ++ '/' :: name) = false)

theorem course_pathOf (N : Path.IsSimple name) : Path.course (pathOf [name]) = [.into name] := by
  rw [pathOf_singleton]
  exact (Path.course_append N : Path.course ([] ++ '/' :: name) = _)

/-- A relative path after it starts at the root, -/
theorem origin_join_pathOf (N : Path.IsSimple name) {p : Text} (h : Path.isAbsolute p = false) :
    origin here (Path.join (pathOf [name]) p) = [] := by
  have hne : pathOf [name] ≠ [] := List.cons_ne_nil _ _
  rw [Path.join_of_relative hne (not_endsInSlash_pathOf N) h, origin_append hne]
  rfl

/-- and takes the step into the name first. -/
theorem course_join_pathOf (N : Path.IsSimple name) {p : Text} (h : Path.isAbsolute p = false) :
    Path.course (Path.join (pathOf [name]) p) = .into name :: Path.course p := by
  have hne : pathOf [name] ≠ [] := List.cons_ne_nil _ _
  rw [Path.join_of_relative hne (not_endsInSlash_pathOf N) h, Path.course_append_slash,
    course_pathOf N]
  rfl

/-- **A scratch directory is led to by its absolute path.** -/
theorem leads_scratch (t : FileTree) (here : Location) (N : Path.IsName name) :
    Leads (t.put [name] .directory) here (pathOf [name]) [name] := by
  have hplace : (t.put [name] .directory).get? [name] = some .directory := by
    rw [get?_put t (List.cons_ne_nil _ _), if_pos rfl]
  refine ⟨List.cons_ne_nil _ _, not_endsInSlash_pathOf N.isSimple, ?_, ?_, hplace⟩
  · rw [pathOf_singleton, List.mem_cons]
    rintro (h | h)
    · exact absurd h (by decide)
    · exact N.nulless h
  · have hroot : ∀ u : FileTree, u.get? [] = some .directory := fun u => by rw [get?, if_pos rfl]
    rw [course_pathOf N.isSimple]
    show walk _ [] [.into name] = _
    rw [walk_cons, hroot]
    dsimp only
    rw [N.short, if_neg Bool.false_ne_true, walk]
    rfl

end FileTree

end CoreAudit
