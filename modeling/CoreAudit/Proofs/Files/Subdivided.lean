import CoreAudit.Proofs.Files.Confined

/-!
# Directories that are made in a directory

Not every directory can be made: its name can be too long or hold a null character, or a file has
its place. Whatever becomes of the directories that are to be made in a directory, and in whichever
order, nothing else is done: `Subdivided name subs t u` says that from the tree `t` to `u` nothing
was changed but that directories with names from `subs` are there which were not.

Headlines:
* **`subdivided_makePath`**: what one directory does that is to be made.
* **`subdivided_makePaths`**: what several do.
* `Subdivided.file_iff`: the regular files are the same.
* **`widened_makePaths`**, **`retains_makePaths`**: wherever directories are to be made, nothing
  else is done, and nothing that was there is lost.
-/

namespace CoreAudit.FileTree

/-- From one tree to the other nothing was changed, but that directories with some of these names
were made in a directory. -/
structure Subdivided (name : Text) (subs : List Text) (t u : FileTree) : Prop
    extends Confined name t u where
  entry : ∀ l, u.get? l = t.get? l ∨
    t.get? l = none ∧ u.get? l = some .directory ∧ ∃ sub ∈ subs, l = [name, sub]

variable {t u w : FileTree} {name sub : Text} {subs : List Text} {here : Location}

namespace Subdivided

theorem refl (h : t.get? [name] = some .directory) : Subdivided name subs t t :=
  ⟨.refl h, fun _ => Or.inl rfl⟩

theorem trans (S : Subdivided name subs t u) (S' : Subdivided name subs u w) :
    Subdivided name subs t w := by
  refine ⟨S.toConfined.trans S'.toConfined, fun l => ?_⟩
  rcases S.entry l with h | ⟨hnone, hmade, hsub⟩
  · rcases S'.entry l with h' | ⟨hnone, hmade, hsub⟩
    · exact Or.inl (h'.trans h)
    · exact Or.inr ⟨h.symm.trans hnone, hmade, hsub⟩
  · refine Or.inr ⟨hnone, ?_, hsub⟩
    rcases S'.entry l with h' | ⟨hnone', _⟩
    · exact h'.trans hmade
    · rw [hmade] at hnone'
      cases hnone'

theorem keeps (S : Subdivided name subs t u) (l : Location) (h : t.get? l = some .directory) :
    u.get? l = some .directory := by
  rcases S.entry l with h' | ⟨_, hmade, _⟩
  · exact h'.trans h
  · exact hmade

/-- **The regular files are the same.** -/
theorem file_iff (S : Subdivided name subs t u) {l : Location} {content : Bytes}
    {executable : Bool} : u.get? l = some (.file content executable) ↔
      t.get? l = some (.file content executable) := by
  rcases S.entry l with h | ⟨hnone, hmade, _⟩
  · rw [h]
  · rw [hnone, hmade]
    exact iff_of_false (fun h => nomatch h) (fun h => nomatch h)

end Subdivided

/-- **A directory that is to be made in a directory is made there, or nothing is changed.** -/
theorem subdivided_makePath (N : Path.IsName name) (L : t.Leads here (pathOf [name]) [name])
    (hsub : sub ∈ subs) (hsimple : Path.IsSimple sub) :
    Subdivided name subs t (t.makePath here (Path.join (pathOf [name]) sub)).1 := by
  rcases makePath_join_cases L hsimple (length_pathOf_lt N) with hsame | ⟨hfree, hmade⟩
  · rw [hsame]
    exact .refl L.directory
  · rw [hmade]
    refine ⟨.put L.directory (Or.inl rfl), fun l => ?_⟩
    have hne : [name] ++ [sub] ≠ [] := List.append_ne_nil_of_right_ne_nil _ (List.cons_ne_nil _ _)
    rw [get?_put t hne]
    split
    · rename_i hl
      rw [hl]
      exact Or.inr ⟨hfree, rfl, sub, hsub, rfl⟩
    · exact Or.inl rfl

/-- **Whatever becomes of directories that are to be made in a directory, nothing else is
changed.** -/
theorem subdivided_makePaths (N : Path.IsName name) (L : t.Leads here (pathOf [name]) [name])
    (hsimple : ∀ sub ∈ subs, Path.IsSimple sub) {made : List Text}
    (hmade : ∀ p ∈ made, p ∈ subs.map (Path.join (pathOf [name]))) :
    Subdivided name subs t (t.makePaths here made) := by
  induction made generalizing t with
  | nil => exact .refl L.directory
  | cons p made ih =>
    obtain ⟨sub, hsub, rfl⟩ := List.mem_map.mp (hmade p List.mem_cons_self)
    have hfirst := subdivided_makePath N L hsub (hsimple sub hsub)
    exact hfirst.trans (ih (L.mono hfirst.keeps) fun q hq => hmade q (List.mem_cons_of_mem _ hq))

/-- Making directories in a directory is confined to it. -/
theorem Holds.confined (H : Holds t here (pathOf [name]) [name] subs) (N : Path.IsName name)
    {made : List Text} (hmade : ∀ p ∈ made, p ∈ subs.map (Path.join (pathOf [name]))) :
    Confined name t (t.makePaths here made) :=
  (subdivided_makePaths N H.leads (fun sub hsub => (H.isName sub hsub).isSimple) hmade).toConfined

/-! ## Directories that are made anywhere -/

/-- At these places nothing was changed from one tree to the other, but that directories are there
where nothing was. -/
def Widened (places : Location → Prop) (t u : FileTree) : Prop :=
  ∀ l, places l → u.get? l = t.get? l ∨ t.get? l = none ∧ u.get? l = some .directory

section Widened

variable {places : Location → Prop}

theorem Widened.refl (t : FileTree) : Widened places t t := fun _ _ => Or.inl rfl

theorem Widened.trans (W : Widened places t u) (W' : Widened places u w) :
    Widened places t w := by
  intro l hl
  rcases W l hl with h | ⟨hnone, hmade⟩
  · rcases W' l hl with h' | ⟨hnone, hmade⟩
    · exact Or.inl (h'.trans h)
    · exact Or.inr ⟨h.symm.trans hnone, hmade⟩
  · refine Or.inr ⟨hnone, ?_⟩
    rcases W' l hl with h' | ⟨_, hmade'⟩
    · exact h'.trans hmade
    · exact hmade'

theorem widened_ensure (t : FileTree) (loc : Location) (step : Option Path.Step) :
    Widened places t (t.ensure loc step).1 := by
  match step with
  | none | some .stay | some .up => exact .refl t
  | some (.into name) =>
    rcases t.ensure_into_cases loc name with hsame | ⟨hfree, hmade⟩
    · rw [hsame]
      exact .refl t
    · rw [hmade]
      intro l _
      rw [get?_put t (List.append_ne_nil_of_right_ne_nil _ (List.cons_ne_nil _ _))]
      split
      · rename_i hl
        rw [hl]
        exact Or.inr ⟨hfree, rfl⟩
      · exact Or.inl rfl

theorem widened_ensureLast (t : FileTree) (here : Location) (p : Text) :
    Widened places t (t.ensureLast here p).1 := by
  unfold ensureLast
  dsimp only
  split
  · exact .refl t
  · exact t.widened_ensure _ _

theorem widened_ensureLevels (t : FileTree) (here : Location) (levels : Nat) (p : Text) :
    Widened places t (t.ensureLevels here levels p).1 := by
  induction levels generalizing p with
  | zero => exact .refl t
  | succ levels ih =>
    unfold ensureLevels
    dsimp only
    split
    · exact t.widened_ensureLast here p
    · have habove := ih (Path.splitLast p).1
      generalize t.ensureLevels here levels (Path.splitLast p).1 = above at habove
      obtain ⟨u, made⟩ := above
      dsimp only at habove ⊢
      split
      · exact habove
      · exact habove
      · split
        · exact habove
        · exact habove.trans (u.widened_ensure _ _)
      · exact habove
      · exact habove
      · exact habove

/-- **Wherever directories are to be made, nothing else is done.** -/
theorem widened_makePaths (t : FileTree) (here : Location) (paths : List Text) :
    Widened places t (t.makePaths here paths) := by
  induction paths generalizing t with
  | nil => exact .refl t
  | cons p paths ih =>
    have hfirst : Widened places t (t.makePath here p).1 := by
      have hlevels : Widened places t (t.ensureLevels here maxLevels p).1 :=
        t.widened_ensureLevels here maxLevels p
      unfold makePath
      generalize t.ensureLevels here maxLevels p = levels at hlevels
      rcases levels with ⟨u, _ | _⟩ <;> exact hlevels
    exact hfirst.trans (ih _)

theorem Confined.widened (C : Confined name t u) :
    Widened (fun l => l.head? ≠ some name) t u := fun _ hl => Or.inl (C.get?_outside hl)

end Widened

/-- All that is in the first tree is in the second one as it was. -/
def Retains (t u : FileTree) : Prop := ∀ l e, t.get? l = some e → u.get? l = some e

/-- **Wherever directories are to be made, nothing that was there is lost.** -/
theorem retains_makePaths (t : FileTree) (here : Location) (paths : List Text) :
    Retains t (t.makePaths here paths) := by
  intro l e hl
  have W : Widened (fun _ => True) t (t.makePaths here paths) := t.widened_makePaths here paths
  rcases W l trivial with h | ⟨hnone, _⟩
  · exact h.trans hl
  · rw [hl] at hnone
    cases hnone

end CoreAudit.FileTree
