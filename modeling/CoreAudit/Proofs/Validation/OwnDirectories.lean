import CoreAudit.Proofs.Audit.Checked
import CoreAudit.Proofs.Files.Beside
import CoreAudit.Proofs.Validation.Openings
import Mathlib.Data.List.Nodup

/-!
# A directory for every validator

Every validator is run in a directory of its own in the directory of the validation. These lead to
places that are apart from each other, from the directory itself and the one above it, and from the
files that an audit writes there, whatever the validators are called, as long as their names have no
slash: a name may be listed twice, be empty or look like the number of a place.

What is seen of it in a session are the directories in which runs have begun. Casting one vote adds
the directory of its validator or none; so after all votes, in order or side by side and however
they ended, no directory was used twice.

Headlines:
* **`destination_directory`**: the directory of a validator leads to a name in the one above.
* **`apart_directories`**: where the directories of validators lead is apart.
* **`Midway.workdirs_vote`**: what one vote adds to the directories in which runs have begun.
* **`validators_apart`**: no two validators share a directory, under every schedule.
-/

namespace CoreAudit

/-- The directory in which a run begins, if the mark shows one. The prover in the process shows
none. -/
def Mark.workdir? : Mark → Option Text
  | call _ c => c.workdir
  | start st => st.workdir
  | _ => none

/-- The directories in which runs have begun, in order. -/
def Session.workdirs (s : Session) : List Text := s.trace.filterMap Mark.workdir?

theorem Mark.workdir?_of_not_isOpening {m : Mark} (h : m.isOpening = false) : m.workdir? = none := by
  cases m with
  | call | start => cases h
  | record | event => rfl

theorem Session.workdirs_mark (s : Session) (marks : List Mark) :
    (s.mark marks).workdirs = s.workdirs ++ marks.filterMap Mark.workdir? := List.filterMap_append

theorem Session.workdirs_of_records {s t : Session} {rs : List LogRecord}
    (h : t.trace = s.trace ++ rs.map .record) : t.workdirs = s.workdirs := by
  rw [workdirs, h, List.filterMap_append, Mark.filterMap_records fun _ => rfl, List.append_nil]
  rfl

/-- A run has begun in the directory since the first session. -/
def Session.ShowsSince (s t : Session) (dir : Text) : Prop :=
  ∃ shown, t.workdirs = s.workdirs ++ shown ∧ dir ∈ shown

theorem Session.ShowsSince.grow {s t u : Session} {dir : Text} (h : s.ShowsSince t dir)
    (hgrows : t.trace <+: u.trace) : s.ShowsSince u dir := by
  obtain ⟨shown, hshown, hdir⟩ := h
  obtain ⟨more, hmore⟩ := hgrows
  refine ⟨shown ++ more.filterMap Mark.workdir?, ?_, List.mem_append_left _ hdir⟩
  rw [workdirs, ← hmore, List.filterMap_append, ← List.append_assoc, ← hshown]
  rfl

/-- Of marks of which at most the first begins a run, at most the first shows a directory. -/
theorem Mark.filterMap_workdir?_cons (m : Mark) {after : List Mark}
    (h : ∀ x ∈ after, x.isOpening = false) :
    (m :: after).filterMap Mark.workdir? = m.workdir?.toList := by
  have hnone : after.filterMap Mark.workdir? = [] :=
    List.filterMap_eq_nil_iff.mpr fun x hx => workdir?_of_not_isOpening (h x hx)
  rw [List.filterMap_cons, hnone]
  cases m.workdir? <;> rfl

namespace Runner

/-- The directories that a run shows: the one that it is asked to be made in, unless it is made by
the prover in the process. -/
def shows (r : Runner) (v : Invocation) : List Text :=
  match r with
  | prover => []
  | executable _ | scripted _ _ => v.workdir.toList

theorem mem_shows {r : Runner} (h : r ≠ prover) {v : Invocation} {dir : Text}
    (hdir : v.workdir = some dir) : dir ∈ r.shows v := by
  cases r with
  | prover => exact absurd rfl h
  | executable | scripted => exact Option.mem_toList.mpr hdir

theorem shows_sublist (r : Runner) (v : Invocation) : (r.shows v).Sublist v.workdir.toList := by
  cases r with
  | prover => exact List.nil_sublist _
  | executable | scripted => exact List.Sublist.refl _

/-- **A run shows the directory that it is made in**, however it ends. -/
theorem workdirs_run (r : Runner) (v : Invocation) (s : Session) (hstdin : v.stdin = none) :
    (r.run v s).2.workdirs = s.workdirs ++ r.shows v := by
  cases r with
  | executable x =>
    obtain ⟨after, hrun, hafter⟩ := exists_executable_marks x v s hstdin
    show (x.run v s).2.workdirs = s.workdirs ++ v.workdir.toList
    rw [hrun, Session.workdirs_mark, List.filterMap_cons_none rfl,
      Mark.filterMap_workdir?_cons _ hafter]
    rfl
  | prover =>
    rw [run_prover, Session.workdirs_mark]
    refine congrArg (s.workdirs ++ ·) (List.filterMap_eq_nil_iff.mpr fun m hm => ?_)
    rcases List.mem_append.mp hm with hm | hm <;> obtain ⟨_, _, rfl⟩ := List.mem_map.mp hm <;> rfl
  | scripted label reply =>
    rw [run_scripted, Session.workdirs_mark,
      Mark.filterMap_workdir?_cons _ fun _ hm => absurd hm List.not_mem_nil]
    rfl

end Runner

namespace Path

variable {dir name : Text}

theorem nil_join (name : Text) : join [] name = name := by
  rw [join, List.isEmpty_nil, Bool.or_true]
  rfl

theorem course_join (h : IsSimple name) (dir : Text) :
    course (join dir name) = course dir ++ [.into name] := by
  rcases hempty : dir with _ | ⟨c, rest⟩
  · rw [nil_join, h.course]
    rfl
  · have hdir : dir ≠ [] := hempty ▸ List.cons_ne_nil c rest
    rw [← hempty]
    cases hslash : endsInSlash dir with
    | false => rw [join_of_not_mem hdir hslash h.slashless, course_append h]
    | true =>
      -- the slash at the end of the directory's path is the one in front of the name
      obtain ⟨front, rfl⟩ : ∃ front, dir = front ++ ['/'] := by
        rw [endsInSlash, beq_iff_eq, List.getLast?_eq_some_iff] at hslash
        exact hslash
      have hjoin : join (front ++ ['/']) name = front ++ '/' :: name := by
        rw [join, not_isAbsolute h.slashless, List.isEmpty_eq_false_iff.mpr hdir, hslash]
        exact List.append_assoc front ['/'] name
      have hempty : course [] = [] := rfl
      rw [hjoin, course_append h, course_append_slash, hempty, List.append_nil]

theorem isPrefix_join (h : '/' ∉ name) (dir : Text) : dir <+: join dir name := by
  rw [join, not_isAbsolute h, Bool.false_or]
  split
  · rename_i hempty
    rw [List.isEmpty_iff.mp hempty]
    exact List.nil_prefix
  · split
    · exact List.prefix_append dir name
    · exact List.prefix_append dir ('/' :: name)

end Path

namespace FileTree

variable {here : Location} {dir name : Text}

theorem locate_eq_destination {t : FileTree} {loc : Location} {p : Text}
    (h : t.locate here p = .ok loc) : loc = destination here p := by
  have hloc := locateBy_eq_ok h
  rw [hloc, destination, Path.steps]
  split
  · rw [List.foldl_append]
    rfl
  · rw [List.append_nil]
    rfl

/-- **The path of a name in a directory leads to the name there**, however the directory's path is
spelled. -/
theorem destination_join (h : Path.IsSimple name) (here : Location) (dir : Text) :
    destination here (Path.join dir name) = destination here dir ++ [name] := by
  have horigin : origin here (Path.join dir name) = origin here dir := by
    by_cases hdir : dir = []
    · rw [hdir, Path.nil_join, origin, Path.not_isAbsolute h.slashless]
      rfl
    · exact origin_of_prefix hdir (Path.isPrefix_join h.slashless dir)
  rw [destination, destination, Path.course_join h, List.foldl_append, horigin]
  rfl

end FileTree

namespace Validation

open FileTree Reconstruction

variable {v : Validation} {formula workdir : Text} {ids : List Text} {schedule : List Pool.Move}
  {s t : Session} {here : Location} {i : Nat} {id : Text}

/-! ## Where the directories lead -/

/-- The directory of a validator leads to a name in the one above. -/
theorem destination_directory (here : Location) (workdir : Text) (i : Nat) (hslash : '/' ∉ id) :
    destination here (directory workdir i id) = destination here workdir ++ [directoryName i id] :=
  destination_join (isSimple_directoryName hslash) here workdir

/-- The files that an audit writes in the directory of a validation. -/
def auditFiles : List Text :=
  [Audit.reducedName, Reconstruction.coreName, Audit.benchmarkName]

/-- Directories are apart in the directory of a validation. -/
structure Apart (here : Location) (workdir : Text) (dirs : List Text) : Prop where
  /-- No two of them lead to one place, so no two of them are the same. -/
  nodup : (dirs.map (destination here)).Nodup
  /-- Each of them is spelled as a name in the directory, and leads to this name. -/
  child : ∀ dir ∈ dirs, ∃ name, Path.IsSimple name ∧ dir = Path.join workdir name ∧
    destination here dir = destination here workdir ++ [name]
  /-- Where one of them is found, in whichever tree, is where it leads. -/
  found : ∀ dir ∈ dirs, ∀ (t : FileTree) (loc : Location), t.locate here dir = .ok loc →
    loc = destination here dir
  /-- None of them leads to the directory itself. -/
  ne_workdir : ∀ dir ∈ dirs, destination here dir ≠ destination here workdir
  /-- None of them leads to the directory above. -/
  ne_parent : ∀ dir ∈ dirs, destination here dir ≠ (destination here workdir).dropLast
  /-- None of them leads to a file that an audit writes there. -/
  ne_file : ∀ dir ∈ dirs, ∀ name ∈ auditFiles,
    destination here dir ≠ destination here (Path.join workdir name)

/-- Directories with the names of validators' directories lead to places that are as different as
the names. -/
theorem nodup_destinations (hslash : ∀ id ∈ ids, '/' ∉ id) :
    ((directories workdir ids).map (destination here)).Nodup := by
  rw [List.Nodup, List.pairwise_map, directories, List.pairwise_iff_getElem]
  intro i j hi hj hij heq
  rw [List.length_mapIdx] at hi hj
  rw [List.getElem_mapIdx, List.getElem_mapIdx,
    destination_directory here workdir i (hslash _ (List.getElem_mem hi)),
    destination_directory here workdir j (hslash _ (List.getElem_mem hj))] at heq
  have hname := (List.cons.inj (List.append_cancel_left heq)).1
  exact absurd (directoryName_inj hname).1 (Nat.ne_of_lt hij)

/-- **Where the directories of validators lead is apart**, as long as no name has a slash. -/
theorem apart_directories (here : Location) (workdir : Text) (hslash : ∀ id ∈ ids, '/' ∉ id) :
    Apart here workdir (directories workdir ids) := by
  have hleads : ∀ dir ∈ directories workdir ids, ∃ i id, '/' ∉ id ∧ dir = directory workdir i id ∧
      destination here dir = destination here workdir ++ [directoryName i id] := by
    intro dir hdir
    obtain ⟨i, hi, rfl⟩ := List.mem_mapIdx.mp hdir
    have hid := hslash _ (List.getElem_mem hi)
    exact ⟨i, ids[i], hid, rfl, destination_directory here workdir i hid⟩
  have hlength : ∀ (loc : Location) (name : Text), (loc ++ [name]).length = loc.length + 1 :=
    fun _ _ => List.length_append
  refine { nodup := nodup_destinations hslash, child := ?child,
           found := fun _ _ _ _ => locate_eq_destination, ne_workdir := ?workdir,
           ne_parent := ?parent, ne_file := ?file } <;>
    intro dir hdir <;> obtain ⟨i, id, hid, hspelled, hleads⟩ := hleads dir hdir
  case child => exact ⟨directoryName i id, isSimple_directoryName hid, hspelled, hleads⟩
  case workdir =>
    intro heq
    have := congrArg List.length (hleads.symm.trans heq)
    rw [hlength] at this
    omega
  case parent =>
    intro heq
    have := congrArg List.length (hleads.symm.trans heq)
    rw [hlength, List.length_dropLast] at this
    omega
  case file =>
    -- the names of an audit's files start with letters, those of the directories with digits
    intro name hname heq
    have hsimple : Path.IsSimple name := by
      simp only [auditFiles, List.mem_cons, List.not_mem_nil, or_false] at hname
      rcases hname with rfl | rfl | rfl <;> exact ⟨by decide, by decide, by decide, by decide⟩
    rw [hleads, destination_join hsimple] at heq
    have hsame := (List.cons.inj (List.append_cancel_left heq)).1
    exact Audit.directoryName_not_mem i id (hsame ▸ hname)

/-! ## Where the runs are made -/

/-- The votes to be cast are those of the validators, each in its directory. -/
theorem tasks_eq_zipWith (v : Validation) (formula workdir : Text) (ids : List Text) :
    v.tasks formula workdir ids =
      List.zipWith (v.vote formula) (directories workdir ids) ids := by
  refine List.ext_getElem? fun i => ?_
  rw [tasks, directories, List.getElem?_mapIdx, List.getElem?_zipWith, List.getElem?_mapIdx]
  cases ids[i]? <;> rfl

/-- **What one vote adds to the directories in which runs have begun**: what its run shows, unless
the directory that it is made in cannot be made. -/
theorem Midway.workdirs_vote (M : Midway workdir ids s t) (hid : ids[i]? = some id) (v : Validation)
    (formula : Text) :
    (∃ f, (v.vote formula (directory workdir i id) id t).1 = .error f ∧
        (v.vote formula (directory workdir i id) id t).2.workdirs = t.workdirs) ∨
      (v.vote formula (directory workdir i id) id t).2.workdirs =
        t.workdirs ++ (s.runnerOf id).shows (request v.timeout formula workdir i id).2 := by
  obtain ⟨found, ⟨f, hfault, -, htrace⟩ | ⟨u, marks, told, -, hfound, hrun, -, htrace⟩⟩ :=
    M.vote_course hid v formula
  · exact Or.inl ⟨f, hfault, Session.workdirs_of_records htrace⟩
  · rw [← List.append_assoc] at htrace
    have hshown := (s.runnerOf id).workdirs_run (request v.timeout formula workdir i id).2 u rfl
    rw [hrun] at hshown
    refine Or.inr ?_
    calc (v.vote formula (directory workdir i id) id t).2.workdirs
        = (u.mark marks).workdirs := Session.workdirs_of_records htrace
      _ = u.workdirs ++ (s.runnerOf id).shows (request v.timeout formula workdir i id).2 := hshown
      _ = t.workdirs ++ (s.runnerOf id).shows (request v.timeout formula workdir i id).2 := by
        rw [Session.workdirs_of_records hfound]

/-- The directories of the validators at some places. -/
def directoriesAt (workdir : Text) (ids : List Text) (places : List Nat) : List Text :=
  places.filterMap fun i => ids[i]?.map (directory workdir i)

theorem directoriesAt_append (hid : ids[i]? = some id) (places : List Nat) :
    directoriesAt workdir ids (places ++ [i]) =
      directoriesAt workdir ids places ++ [directory workdir i id] := by
  rw [directoriesAt, List.filterMap_append, List.filterMap_cons, hid]
  rfl

theorem nodup_directoriesAt {places : List Nat} (h : places.Nodup) :
    (directoriesAt workdir ids places).Nodup := by
  refine List.Nodup.filterMap (fun i j dir hi hj => ?_) h
  obtain ⟨_, _, rfl⟩ := Option.map_eq_some_iff.mp hi
  obtain ⟨_, _, hsame⟩ := Option.map_eq_some_iff.mp hj
  exact (directory_inj hsame).1.symm

theorem directoriesAt_subset (places : List Nat) :
    directoriesAt workdir ids places ⊆ directories workdir ids := by
  intro dir hdir
  obtain ⟨i, -, hi⟩ := List.mem_filterMap.mp hdir
  obtain ⟨id, hid, rfl⟩ := Option.map_eq_some_iff.mp hi
  exact directory_mem_directories hid

/-- What is known of the directories in which runs have begun, after the validators at the places
`started` were to vote: each of these has shown its directory once or not at all. -/
structure Housed (workdir : Text) (ids : List Text) (s : Session) (started : List Nat)
    (t : Session) : Prop extends Midway workdir ids s t where
  once : started.Nodup
  shown : ∃ shown, t.workdirs = s.workdirs ++ shown ∧
    shown.Sublist (directoriesAt workdir ids started)

namespace Housed

theorem of_midway (M : Midway workdir ids s t) (h : t.workdirs = s.workdirs) :
    Housed workdir ids s [] t :=
  ⟨M, List.nodup_nil, [], by rw [h, List.append_nil], List.nil_sublist _⟩

/-- **One more vote**: it shows the directory of its validator once or not at all. -/
theorem vote {started : List Nat} (H : Housed workdir ids s started t) (hid : ids[i]? = some id)
    (hnew : i ∉ started) (v : Validation) (formula : Text) :
    Housed workdir ids s (started ++ [i]) (v.vote formula (directory workdir i id) id t).2 := by
  obtain ⟨_, _, hvote, M, _⟩ := H.toMidway.vote hid v formula
  obtain ⟨shown, hshown, hsub⟩ := H.shown
  have M' : Midway workdir ids s (v.vote formula (directory workdir i id) id t).2 := by
    rw [hvote]
    exact M
  have honce : (started ++ [i]).Nodup :=
    List.nodup_append.mpr ⟨H.once, List.nodup_singleton i, fun a ha b hb hab =>
      hnew (List.mem_singleton.mp hb ▸ hab ▸ ha)⟩
  refine ⟨M', honce, ?_⟩
  rw [directoriesAt_append hid]
  rcases H.toMidway.workdirs_vote hid v formula with ⟨_, -, hsame⟩ | hmore
  · exact ⟨shown, hsame.trans hshown, hsub.trans (List.sublist_append_left _ _)⟩
  · refine ⟨shown ++ (s.runnerOf id).shows (request v.timeout formula workdir i id).2, ?_,
      hsub.append (Runner.shows_sublist _ _)⟩
    rw [hmore, hshown, List.append_assoc]

/-- Every task of a validation upholds it, whichever tasks were run before. -/
theorem contract (v : Validation) (formula workdir : Text) (ids : List Text) (s : Session) :
    Pool.Contract (v.tasks formula workdir ids) (Housed workdir ids s) (fun _ _ => True) where
  records := by
    intro started t rs H
    obtain ⟨shown, hshown, hsub⟩ := H.shown
    exact ⟨H.toMidway.mark _, H.once, shown, (Session.workdirs_of_records rfl).trans hshown, hsub⟩
  task := by
    intro started t i task htask hnew H
    obtain ⟨id, hid, rfl⟩ := getElem?_tasks htask
    exact ⟨trivial, H.vote hid hnew v formula⟩

/-- A validator whose vote is cast has shown its directory, unless the prover ran for it. -/
theorem leaves (v : Validation) (formula workdir : Text) (ids : List Text) (s : Session) :
    Pool.Leaves (v.tasks formula workdir ids) (Housed workdir ids s) fun i result t =>
      ∀ x, result = .ok x → ∀ id, ids[i]? = some id → s.runnerOf id ≠ .prover →
        s.ShowsSince t (directory workdir i id) where
  left := by
    intro started t i task htask _ H x hx other hother hrunner
    obtain ⟨id, hid, rfl⟩ := getElem?_tasks htask
    obtain rfl : id = other := Option.some.inj (hid.symm.trans hother)
    obtain ⟨shown, hshown, -⟩ := H.shown
    rcases H.toMidway.workdirs_vote hid v formula with ⟨f, hf, -⟩ | hmore
    · rw [hf] at hx
      cases hx
    · rw [hshown, List.append_assoc] at hmore
      exact ⟨_, hmore, List.mem_append_right _ (Runner.mem_shows hrunner rfl)⟩
  records := fun _ h x hx id hid hrunner =>
    (h x hx id hid hrunner).grow (List.prefix_append _ _)
  kept := by
    intro i result t task htask h x hx id hid hrunner
    obtain ⟨j, hj⟩ := List.mem_iff_getElem?.mp htask
    obtain ⟨other, _, rfl⟩ := getElem?_tasks hj
    exact (h x hx id hid hrunner).grow (v.grows_vote formula _ other t)

/-- Finding runners beforehand begins no run. -/
theorem prepare {others : List Text} {u : Session}
    (h : (others.forM fun id => discard (runnerFor id)) s = (.ok (), u)) :
    Housed workdir ids s [] u := by
  obtain ⟨found, htrace⟩ := Opened.trace_prepare others s
  rw [h] at htrace
  exact of_midway ((Midway.refl workdir ids s).prepare others h)
    (Session.workdirs_of_records htrace)

end Housed

/-- **No two validators share a directory**, whatever they are called and under every schedule. The
votes to be cast are those of the validators, each in its directory, and where these lead is apart.
However the votes end, no two runs have begun in one directory, and none in any other than those of
the validators; where votes are collected, every validator was run in its own. The prover in the
process runs in none. -/
theorem validators_apart (v : Validation) (schedule : List Pool.Move) (formula workdir : Text)
    {ids : List Text} (hslash : ∀ id ∈ ids, '/' ∉ id) (s : Session) :
    v.tasks formula workdir ids =
        List.zipWith (v.vote formula) (directories workdir ids) ids ∧
      Apart s.here workdir (directories workdir ids) ∧
      ∃ shown, (v.collect schedule formula workdir ids s).2.workdirs = s.workdirs ++ shown ∧
        shown.Nodup ∧ shown ⊆ directories workdir ids ∧
        ∀ votes, (v.collect schedule formula workdir ids s).1 = .ok votes →
          ∀ i id, ids[i]? = some id → s.runnerOf id ≠ .prover →
            directory workdir i id ∈ shown := by
  refine ⟨v.tasks_eq_zipWith formula workdir ids, apart_directories s.here workdir hslash, ?_⟩
  have C := Housed.contract v formula workdir ids s
  have hstart : Housed workdir ids s [] s := .of_midway (.refl workdir ids s) rfl
  have hprepare : ∀ u, (ids.forM fun id => discard (runnerFor id)) s = (.ok (), u) →
      Housed workdir ids s [] u := fun _ h => Housed.prepare h
  obtain ⟨started, H⟩ : ∃ started, Housed workdir ids s started
      (v.collect schedule formula workdir ids s).2 := collect_upholds C hstart hprepare
  obtain ⟨shown, hshown, hsub⟩ := H.shown
  refine ⟨shown, hshown, (nodup_directoriesAt H.once).sublist hsub,
    fun dir hdir => directoriesAt_subset started (hsub.subset hdir), ?_⟩
  intro votes hvotes i id hid hrunner
  have hcollect : v.collect schedule formula workdir ids s =
      (.ok votes, (v.collect schedule formula workdir ids s).2) := Prod.ext hvotes rfl
  obtain ⟨_, _, _, _, hlength, _⟩ := collect_ok C hstart hprepare hcollect
  have hplace : i < votes.length := hlength ▸ (List.getElem?_eq_some_iff.mp hid).1
  obtain ⟨own, hown, hmem⟩ := leaves_of_collect (Housed.leaves v formula workdir ids s) C hstart
    hprepare hcollect i votes[i] (List.getElem?_eq_getElem hplace) _ rfl id hid hrunner
  rw [← List.append_cancel_left (hown.symm.trans hshown)]
  exact hmem

/-- Validators one of which is listed twice, one has no name, and one is called like a directory. -/
def numberedIds : List Text := ["0-x".toList, "0-x".toList, [], "1-0-x".toList]

/-- A directory, and validators the runs of which end in a fault. -/
def numberedSession : Session :=
  .fresh ⟨[([['w']], .directory)]⟩ ⟨none, numberedIds.map fun id =>
    (id, .scripted id fun _ => .error (.raised .missingFile id))⟩

/-- Two at a time, they are run in four directories, one after the other and one in each. -/
theorem validators_apart_numbered :
    (∀ id ∈ numberedIds, '/' ∉ id) ∧
      directories ['w'] numberedIds =
        ["w/0-0-x".toList, "w/1-0-x".toList, "w/2-".toList, "w/3-1-0-x".toList] ∧
      Apart [] ['w'] (directories ['w'] numberedIds) ∧
      (Validation.collect ⟨.seconds 1.0, 2⟩ [] ['f'] ['w'] numberedIds numberedSession).2.workdirs =
        directories ['w'] numberedIds := by
  have hslash : ∀ id ∈ numberedIds, '/' ∉ id := by decide
  obtain ⟨-, hapart, -⟩ :=
    validators_apart ⟨.seconds 1.0, 2⟩ [] ['f'] ['w'] hslash numberedSession
  exact ⟨hslash, by decide, hapart, by decide +kernel⟩

end Validation

end CoreAudit
