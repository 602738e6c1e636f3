import CoreAudit.Proofs.Files.Confined
import Mathlib.Data.List.Basic

/-!
# Trees that differ in one spot

Two trees hold the same but in one spot. A path that does not pass this spot (`Bypasses`) leads to
the same in both, and so the same becomes of a directory that is to be made at its end, with all
that are missing above it. The trees still differ in nothing but the spot then, as none of these
directories is made there.

Headlines:
* **`Beside.find`**: what paths lead to that bypass the spot is the same.
* **`Beside.ensureLevels`**, **`Beside.makePath`**: the same becomes of directories that are made.
* `read_kept`: a file that was there before a scratch directory is read as before.
-/

namespace CoreAudit

namespace Path

variable {p q : Text} {s : Step}

theorem mem_splitAt_of_into_mem {w : Text} (h : .into w ∈ course p) : w ∈ Text.splitAt '/' p := by
  obtain ⟨piece, hpiece, hstep⟩ := List.mem_filterMap.mp h
  unfold step? at hstep
  split at hstep
  · cases hstep
  · split at hstep
    · cases hstep
    · split at hstep
      · cases hstep
      · cases hstep
        exact hpiece

/-! ## Paths above a path -/

/-- A path is its last name after what is in front of it, which ends in a slash or is empty. -/
theorem exists_append_baseName (p : Text) : ∃ front, p = front ++ baseName p ∧
    p.take (p.length - (baseName p).length) = front ∧
    (front = [] ∨ ∃ above, front = above ++ ['/']) := by
  have hsplit : p = (p.reverse.dropWhile (· != '/')).reverse ++ baseName p := by
    rw [baseName, Text.afterLast, ← List.reverse_append, List.takeWhile_append_dropWhile,
      List.reverse_reverse]
  refine ⟨_, hsplit, ?_, ?_⟩
  · have hlength := congrArg List.length hsplit
    rw [List.length_append] at hlength
    have hfront : p.length - (baseName p).length =
        (p.reverse.dropWhile (· != '/')).reverse.length := by omega
    rw [hfront]
    exact (congrArg (List.take _) hsplit).trans List.take_left
  · rcases hrest : p.reverse.dropWhile (· != '/') with _ | ⟨c, rest⟩
    · exact Or.inl rfl
    · have hc : c = '/' := by
        have hhead := List.head_dropWhile_not (· != '/') (by rw [hrest]; exact List.cons_ne_nil _ _)
        simpa [hrest] using hhead
      rw [hc, List.reverse_cons]
      exact Or.inr ⟨rest.reverse, rfl⟩

theorem course_of_slashes {slashes : Text} (h : ∀ c ∈ slashes, c = '/') : course slashes = [] := by
  induction slashes with
  | nil => rfl
  | cons c rest ih =>
    obtain ⟨rfl, hrest⟩ := List.forall_mem_cons.mp h
    have hempty : course [] = [] := rfl
    rw [← List.nil_append ('/' :: rest), course_append_slash, hempty, ih hrest]
    rfl

theorem course_trimSlashes (p : Text) : course (trimSlashes p) = course p := by
  unfold trimSlashes
  split
  · rfl
  · have hsplit : p = (p.reverse.dropWhile (· == '/')).reverse ++
        (p.reverse.takeWhile (· == '/')).reverse := by
      rw [← List.reverse_append, List.takeWhile_append_dropWhile, List.reverse_reverse]
    have hslashes : ∀ c ∈ (p.reverse.takeWhile (· == '/')).reverse, c = '/' := fun c hc =>
      beq_iff_eq.mp (List.all_eq_true.mp List.all_takeWhile c (List.mem_reverse.mp hc))
    generalize (p.reverse.takeWhile (· == '/')).reverse = slashes at hsplit hslashes
    generalize (p.reverse.dropWhile (· == '/')).reverse = trimmed at hsplit
    rw [hsplit]
    rcases slashes with _ | ⟨c, rest⟩
    · rw [List.append_nil]
    · obtain ⟨rfl, hrest⟩ := List.forall_mem_cons.mp hslashes
      rw [course_append_slash, course_of_slashes hrest, List.append_nil]

theorem course_eq_parent (p : Text) :
    course p = course (parent p) ++ (step? (baseName p)).toList := by
  have hslash : '/' ∉ baseName p := by
    intro hmem
    have hlast := List.all_eq_true.mp List.all_takeWhile '/' (List.mem_reverse.mp hmem)
    exact absurd hlast (by decide)
  have hname : course (baseName p) = (step? (baseName p)).toList := by
    rw [course, Text.splitAt_of_not_mem hslash, List.filterMap_cons, List.filterMap_nil]
    rcases step? (baseName p) with _ | _ <;> rfl
  obtain ⟨front, hsplit, htake, hfront⟩ := exists_append_baseName p
  have hparent : course (parent p) = course front := by rw [parent, htake, course_trimSlashes]
  rw [hparent, ← hname]
  refine (congrArg course hsplit).trans ?_
  rcases hfront with rfl | ⟨above, rfl⟩
  · rfl
  · have hempty : course [] = [] := rfl
    rw [List.append_assoc, List.singleton_append, course_append_slash, course_append_slash, hempty,
      List.append_nil]

/-- **A path that is split takes the same steps.** -/
theorem course_splitLast (p : Text) :
    course p = course (splitLast p).1 ++ (step? (splitLast p).2).toList := by
  unfold splitLast
  split
  · rename_i hempty
    rw [course_eq_parent p, List.isEmpty_iff.mp hempty, ← course_eq_parent (parent p)]
    exact List.append_nil _
  · exact course_eq_parent p

theorem isPrefix_parent (p : Text) : parent p <+: p := by
  unfold parent
  generalize p.length - (baseName p).length = n
  refine List.IsPrefix.trans ?_ (List.take_prefix n p)
  unfold trimSlashes
  split
  · exact List.prefix_rfl
  · rw [← List.reverse_suffix, List.reverse_reverse]
    exact List.dropWhile_suffix _

theorem isPrefix_splitLast (p : Text) : (splitLast p).1 <+: p := by
  unfold splitLast
  split <;> dsimp only
  · exact (isPrefix_parent _).trans (isPrefix_parent p)
  · exact isPrefix_parent p

end Path

namespace FileTree

theorem origin_of_prefix {above p : Text} (hne : above ≠ []) (h : above <+: p) {here : Location} :
    origin here p = origin here above := by
  obtain ⟨rest, rfl⟩ := h
  exact origin_append hne rest

/-! ## The way of a path -/

/-- Where a step leads from a location. -/
def move (loc : Location) : Path.Step → Location
  | .into name => loc ++ [name]
  | .stay => loc
  | .up => loc.dropLast

/-- The locations that steps pass, from the first one to the one that they lead to. -/
def way (loc : Location) : List Path.Step → List Location
  | [] => [loc]
  | s :: steps => loc :: way (move loc s) steps

/-- Where a path leads, whatever is there and on its way. -/
def destination (here : Location) (p : Text) : Location :=
  (Path.course p).foldl move (origin here p)

/-- The path does not pass the spot, nor lead to it. -/
def Bypasses (spot here : Location) (p : Text) : Prop :=
  spot ∉ way (origin here p) (Path.course p)

variable {t t' u : FileTree} {spot here loc l : Location} {steps : List Path.Step} {p name : Text}

theorem way_concat (loc : Location) (steps : List Path.Step) (s : Path.Step) :
    way loc (steps ++ [s]) = way loc steps ++ [move (steps.foldl move loc) s] := by
  induction steps generalizing loc with
  | nil => rfl
  | cons r steps ih => exact congrArg (loc :: ·) (ih (move loc r))

theorem mem_way_append (h : l ∈ way loc steps) (step : Option Path.Step) :
    l ∈ way loc (steps ++ step.toList) := by
  rcases step with _ | s
  · rw [Option.toList_none, List.append_nil]
    exact h
  · rw [Option.toList_some, way_concat]
    exact List.mem_append_left _ h

theorem foldl_move_mem_way (loc : Location) (steps : List Path.Step) :
    steps.foldl move loc ∈ way loc steps := by
  induction steps generalizing loc with
  | nil => exact List.mem_singleton_self _
  | cons s steps ih => exact List.mem_cons_of_mem _ (ih (move loc s))

theorem Bypasses.destination_ne (h : Bypasses spot here p) : destination here p ≠ spot :=
  fun heq => h (heq ▸ foldl_move_mem_way _ _)

theorem mem_way_of_mem_way_stay (h : l ∈ way loc (steps ++ [.stay])) : l ∈ way loc steps := by
  rw [way_concat, List.mem_append, List.mem_singleton] at h
  rcases h with h | rfl
  · exact h
  · exact foldl_move_mem_way loc steps

/-- Steps that take no step into the last name of a spot do not pass it, unless they start there or
under it. -/
theorem not_mem_way_of_into_not_mem {above : Location} {file : Text} (hsteps : .into file ∉ steps)
    (hloc : ¬ above ++ [file] <+: loc) : above ++ [file] ∉ way loc steps := by
  induction steps generalizing loc with
  | nil =>
    rw [way, List.mem_singleton]
    exact fun h => hloc (h ▸ List.prefix_rfl)
  | cons s steps ih =>
    rw [List.mem_cons, not_or] at hsteps
    rw [way, List.mem_cons, not_or]
    refine ⟨fun h => hloc (h ▸ List.prefix_rfl), ih hsteps.2 fun hunder => ?_⟩
    cases s with
    | into w =>
      rcases List.prefix_concat_iff.mp hunder with h | h
      · have hlast := congrArg List.getLast? h
        rw [List.getLast?_concat, List.getLast?_concat] at hlast
        exact hsteps.1 (congrArg Path.Step.into (Option.some.inj hlast))
      · exact hloc h
    | stay => exact hloc hunder
    | up => exact hloc (hunder.trans (List.dropLast_prefix loc))

/-- A path that takes no such step bypasses the spot, unless it starts there or under it. -/
theorem bypasses_of_into_not_mem {above : Location} {file : Text}
    (hp : .into file ∉ Path.course p) (hhere : ¬ above ++ [file] <+: here) :
    Bypasses (above ++ [file]) here p := by
  refine not_mem_way_of_into_not_mem hp ?_
  unfold origin
  split
  · exact fun h => List.append_ne_nil_of_right_ne_nil _ (List.cons_ne_nil _ _)
      (List.prefix_nil.mp h)
  · exact hhere

theorem walk_eq_ok (h : t.walk loc steps = .ok l) : l = steps.foldl move loc := by
  induction steps generalizing loc with
  | nil => exact (Except.ok.inj h).symm
  | cons s steps ih =>
    rw [walk_cons] at h
    split at h
    · cases h
    · cases h
    · cases s with
      | into w =>
        dsimp only at h
        split at h
        · cases h
        · exact ih h
      | stay => exact ih h
      | up => exact ih h

theorem locateBy_eq_ok (h : t.locateBy here p steps = .ok l) :
    l = steps.foldl move (origin here p) := by
  unfold locateBy at h
  split at h
  · cases h
  · exact walk_eq_ok h

/-- All but the last step of a path must lead to a directory already. -/
theorem ensureLast_eq (t : FileTree) (here : Location) (p : Text) : t.ensureLast here p =
    match t.locateBy here p ((Path.course p).dropLast ++ [.stay]) with
    | .error e => (t, .error e)
    | .ok loc => t.ensure loc (Path.course p).getLast? := rfl

/-- The trees hold the same, but in one spot. -/
def Beside (spot : Location) (t t' : FileTree) : Prop := ∀ l, l ≠ spot → t'.get? l = t.get? l

namespace Beside

theorem put (B : Beside spot t t') {l : Location} (hl : l ≠ []) (e : Entry) :
    Beside spot (t.put l e) (t'.put l e) := by
  intro m hm
  rw [get?_put t' hl, get?_put t hl, B m hm]

/-! ## What paths lead to -/

theorem walk (B : Beside spot t t') (h : spot ∉ way loc steps) :
    t'.walk loc steps = t.walk loc steps := by
  induction steps generalizing loc with
  | nil => rfl
  | cons s steps ih =>
    rw [way, List.mem_cons, not_or] at h
    rw [walk_cons, walk_cons, B loc (Ne.symm h.1)]
    rcases t.get? loc with _ | _ | _
    · rfl
    · cases s with
      | into w =>
        dsimp only
        split
        · rfl
        · exact ih h.2
      | stay => exact ih h.2
      | up => exact ih h.2
    · rfl

theorem locateBy (B : Beside spot t t') (h : spot ∉ way (origin here p) steps) :
    t'.locateBy here p steps = t.locateBy here p steps := by
  unfold FileTree.locateBy
  rw [B.walk h]

/-- **A path that bypasses the spot leads to the same in both trees.** -/
theorem find (B : Beside spot t t') (h : Bypasses spot here p) :
    t'.find here p = t.find here p := by
  have hsteps : spot ∉ way (origin here p) (Path.steps p) := by
    unfold Path.steps
    split
    · exact fun hmem => h (mem_way_of_mem_way_stay hmem)
    · rw [List.append_nil]
      exact h
  unfold FileTree.find locate
  rw [B.locateBy hsteps]
  rcases hloc : t.locateBy here p (Path.steps p) with problem | l
  · rfl
  · have hl : l ≠ spot := by
      rw [locateBy_eq_ok hloc]
      exact fun heq => hsteps (heq ▸ foldl_move_mem_way _ _)
    dsimp only
    rw [B l hl]

theorem read (B : Beside spot t t') (h : Bypasses spot here p) :
    t'.read here p = t.read here p := by
  unfold FileTree.read
  rw [B.find h]

/-! ## Directories that are made -/

/-- The same became of a directory in two trees, which then still differ in nothing but the spot.
If it is there now, then at the location `dest`. -/
structure Made (spot dest : Location) (r r' : FileTree × Except PathProblem (Option Location)) :
    Prop where
  result : r'.2 = r.2
  trees : Beside spot r.1 r'.1
  made : ∀ l, r.2 = .ok (some l) → l = dest

theorem made_error (B : Beside spot t t') (dest : Location) (e : PathProblem) :
    Made spot dest (t, .error e) (t', .error e) := ⟨rfl, B, fun _ h => nomatch h⟩

theorem made_ok (B : Beside spot t t') (loc : Location) :
    Made spot loc (t, .ok (some loc)) (t', .ok (some loc)) :=
  ⟨rfl, B, fun _ h => (Option.some.inj (Except.ok.inj h)).symm⟩

theorem made_none (B : Beside spot t t') (dest : Location) :
    Made spot dest (t, .ok none) (t', .ok none) := ⟨rfl, B, fun _ h => nomatch Except.ok.inj h⟩

/-- The same becomes of a step that is to lead to a directory. -/
theorem ensure (B : Beside spot t t') {step : Option Path.Step}
    (h : step.toList.foldl move loc ≠ spot) :
    Made spot (step.toList.foldl move loc) ((t.ensure loc step).map id (Except.map some))
      ((t'.ensure loc step).map id (Except.map some)) := by
  rcases step with _ | w | _ | _
  · exact B.made_ok loc
  · have hne : loc ++ [w] ≠ [] := List.append_ne_nil_of_right_ne_nil _ (List.cons_ne_nil _ _)
    have hsame : t'.get? (loc ++ [w]) = t.get? (loc ++ [w]) := B _ h
    show Made spot (loc ++ [w]) _ _
    unfold FileTree.ensure
    dsimp only
    rw [hsame]
    split
    · exact B.made_error _ _
    · rcases t.get? (loc ++ [w]) with _ | _ | _
      · exact (B.put hne .directory).made_ok _
      · exact B.made_ok _
      · exact B.made_error _ _
  · exact B.made_ok loc
  · exact B.made_ok loc.dropLast

/-- The same becomes of the directory at the end of a path. -/
theorem ensureLast (B : Beside spot t t') (h : Bypasses spot here p) :
    Made spot (destination here p) ((t.ensureLast here p).map id (Except.map some))
      ((t'.ensureLast here p).map id (Except.map some)) := by
  have hcourse : Path.course p = (Path.course p).dropLast ++ (Path.course p).getLast?.toList := by
    rcases hlast : (Path.course p).getLast? with _ | s
    · rw [List.getLast?_eq_none_iff.mp hlast]
      rfl
    · exact (List.dropLast_append_getLast? s hlast).symm
  have hend : destination here p =
      (Path.course p).getLast?.toList.foldl move
        ((Path.course p).dropLast.foldl move (origin here p)) := by
    rw [← List.foldl_append, ← hcourse]
    rfl
  have hspot := h.destination_ne
  have hsteps : spot ∉ way (origin here p) ((Path.course p).dropLast ++ [.stay]) := by
    refine fun hmem => h ?_
    have hmem := mem_way_append (mem_way_of_mem_way_stay hmem) (Path.course p).getLast?
    rwa [← hcourse] at hmem
  rw [ensureLast_eq, ensureLast_eq, B.locateBy hsteps]
  rcases hloc : t.locateBy here p ((Path.course p).dropLast ++ [.stay]) with problem | l
  · rw [hloc]
    exact B.made_error _ problem
  · have hl : l = (Path.course p).dropLast.foldl move (origin here p) := by
      rw [locateBy_eq_ok hloc, List.foldl_append]
      rfl
    rw [hend, ← hl] at hspot ⊢
    rw [hloc]
    exact B.ensure hspot

/-- **The same becomes of the directory at the end of a path and of those above it.** -/
theorem ensureLevels (B : Beside spot t t') (levels : Nat) (h : Bypasses spot here p) :
    Made spot (destination here p) (t.ensureLevels here levels p)
      (t'.ensureLevels here levels p) := by
  induction levels generalizing p with
  | zero => exact B.made_error _ _
  | succ levels ih =>
    have hcourse := Path.course_splitLast p
    have hfront := Path.isPrefix_splitLast p
    have hlast := B.ensureLast h
    have hspot := h.destination_ne
    rw [FileTree.ensureLevels, FileTree.ensureLevels]
    generalize t.ensureLast here p = r at hlast ⊢
    generalize t'.ensureLast here p = r' at hlast ⊢
    rcases hsplit : Path.splitLast p with ⟨above, name⟩
    rw [hsplit] at hcourse hfront
    dsimp only at hcourse hfront ⊢
    rcases habsent : above.isEmpty with _ | _
    · have horigin : origin here p = origin here above :=
        origin_of_prefix (List.isEmpty_eq_false_iff.mp habsent) hfront
      have habove : Bypasses spot here above := by
        refine fun hmem => h ?_
        rw [hcourse, horigin]
        exact mem_way_append hmem _
      have hend : destination here p =
          (Path.step? name).toList.foldl move (destination here above) := by
        rw [destination, destination, hcourse, horigin, List.foldl_append]
      have hthere : t'.isThere here above = t.isThere here above := by
        unfold isThere
        rw [B.find habove]
      rw [hthere]
      split
      · exact hlast
      · have M := ih habove
        rcases hmade : t.ensureLevels here levels above with ⟨u, made⟩
        rcases hmade' : t'.ensureLevels here levels above with ⟨u', made'⟩
        rw [hmade, hmade'] at M
        obtain ⟨hsame, B', hat⟩ := M
        obtain rfl : made' = made := hsame
        dsimp only at B' hat ⊢
        rw [hend] at hspot ⊢
        generalize destination here above = dest at hat hspot ⊢
        generalize Path.step? name = step at hspot ⊢
        rcases made' with problem | _ | loc
        · rcases step with _ | _ | _ | _ <;> cases problem <;>
            first | exact B'.made_error _ _ | exact B'.made_none _
        · rcases step with _ | _ | _ | _ <;>
            first | exact B'.made_error _ _ | exact B'.made_none _
        · obtain rfl := hat loc rfl
          have hnext := B'.ensure hspot
          rcases step with _ | _ | _ | _ <;> rcases flaw? p with _ | problem <;>
            first | exact hnext | exact B'.made_error _ problem
    · exact hlast

/-- **The same becomes of a directory that is to be made at the end of a path.** -/
theorem makePath (B : Beside spot t t') (h : Bypasses spot here p) :
    (t'.makePath here p).2 = (t.makePath here p).2 ∧
      Beside spot (t.makePath here p).1 (t'.makePath here p).1 := by
  have M := B.ensureLevels maxLevels h
  unfold FileTree.makePath
  rcases hmade : t.ensureLevels here maxLevels p with ⟨u, made⟩
  rcases hmade' : t'.ensureLevels here maxLevels p with ⟨u', made'⟩
  rw [hmade, hmade'] at M
  obtain rfl : made' = made := M.result
  cases made' <;> exact ⟨rfl, M.trees⟩

end Beside

/-- **What was read before a scratch directory was made is read again**, whatever is in that
directory by now. -/
theorem read_kept {content : Bytes} (hclosed : t.Closed) (hfree : t.get? [name] = none)
    (C : Confined name (t.put [name] .directory) u) (h : t.read here p = .ok content) :
    u.read here p = .ok content := by
  have hkept : ∀ {l : Location} {e : Entry}, t.get? l = some e → u.get? l = some e := by
    intro l e hl
    have hhead : l.head? ≠ some name := by
      rcases l with _ | ⟨first, rest⟩
      · exact fun h => nomatch h
      · intro hhead
        obtain rfl := Option.some.inj hhead
        rw [hclosed.free hfree rest] at hl
        cases hl
    have hplace : l ≠ [name] := fun h => hhead (h ▸ rfl)
    rw [C.get?_outside hhead, get?_put t (List.cons_ne_nil _ _), if_neg hplace]
    exact hl
  unfold read find locate locateBy at h ⊢
  rcases hflaw : flaw? p with _ | problem
  · rw [hflaw] at h
    dsimp only at h ⊢
    rcases hwalk : t.walk (origin here p) (Path.steps p) with problem | l
    · rw [hwalk] at h
      cases h
    · rw [hwalk] at h
      dsimp only at h
      rcases hentry : t.get? l with _ | e
      · rw [hentry] at h
        cases h
      · rw [hentry] at h
        rw [walk_mono (fun _ => hkept) hwalk]
        dsimp only
        rw [hkept hentry]
        exact h
  · rw [hflaw] at h
    cases h

end FileTree

end CoreAudit
