import CoreAudit.Proofs.Files.Under

/-!
# Directories that can be made

Several directories are `Makeable` if each of them can be made, whichever of them were made
before it, in whichever order and however often. So are directories with proper names in a
directory that is there, as long as no file has the place of one (`makeable_join`).

Headline: **`makeable_join`**: directories with proper names in a directory can be made.
-/

namespace CoreAudit.FileTree

/-- The tree after the directories at the ends of paths are made, one after the other. -/
def makePaths (t : FileTree) (here : Location) (paths : List Text) : FileTree :=
  paths.foldl (fun t p => (t.makePath here p).1) t

/-- Every one of the directories can be made, whichever of them were made before. -/
def Makeable (t : FileTree) (here : Location) (paths : List Text) : Prop :=
  ∀ made, (∀ p ∈ made, p ∈ paths) → ∀ p ∈ paths, ((t.makePaths here made).makePath here p).2 = none

theorem makePaths_append (t : FileTree) (here : Location) (a b : List Text) :
    t.makePaths here (a ++ b) = (t.makePaths here a).makePaths here b := List.foldl_append

/-- A directory is led to, and directories with these names can be made in it. -/
structure Holds (t : FileTree) (here : Location) (dir : Text) (loc : Location)
    (names : List Text) : Prop where
  leads : Leads t here dir loc
  isName : ∀ name ∈ names, Path.IsName name
  length : ∀ name ∈ names,
    (Text.Utf8.encode (dir ++ '/' :: name)).length < Path.maxPath
  fileless : ∀ name ∈ names,
    t.get? (loc ++ [name]) = none ∨ t.get? (loc ++ [name]) = some .directory

variable {t : FileTree} {here loc : Location} {dir : Text} {names : List Text}

/-- A directory can be made at every name, and then they can still all be made. -/
theorem Holds.makePath (H : Holds t here dir loc names) {name : Text} (hname : name ∈ names) :
    Holds (t.makePath here (Path.join dir name)).1 here dir loc names ∧
      (t.makePath here (Path.join dir name)).2 = none := by
  have N := H.isName name hname
  rcases H.fileless name hname with hfree | hthere
  · have hplace : t.get? (loc ++ [name]) ≠ some .directory := by
      rw [hfree]
      exact fun h => nomatch h
    have hloc : loc ++ [name] ≠ [] := List.append_ne_nil_of_right_ne_nil _ (List.cons_ne_nil _ _)
    rw [makePath_join H.leads N.toIsPiece (H.length name hname) N.short hfree]
    refine ⟨⟨H.leads.put hloc hplace, H.isName, H.length, fun other hother => ?_⟩, rfl⟩
    rw [get?_put t hloc]
    split
    · exact Or.inr rfl
    · exact H.fileless other hother
  · rw [makePath_join_of_directory H.leads N.toIsPiece (H.length name hname) N.short hthere]
    exact ⟨H, rfl⟩

theorem Holds.makePaths (H : Holds t here dir loc names) {made : List Text}
    (hmade : ∀ p ∈ made, p ∈ names.map (Path.join dir)) :
    Holds (t.makePaths here made) here dir loc names := by
  induction made generalizing t with
  | nil => exact H
  | cons p made ih =>
    obtain ⟨name, hname, rfl⟩ := List.mem_map.mp (hmade p List.mem_cons_self)
    exact ih (H.makePath hname).1 fun q hq => hmade q (List.mem_cons_of_mem _ hq)

/-- **Directories with proper names in a directory can be made**, where no file is in their
place. -/
theorem makeable_join (H : Holds t here dir loc names) :
    Makeable t here (names.map (Path.join dir)) := by
  intro made hmade p hp
  obtain ⟨name, hname, rfl⟩ := List.mem_map.mp hp
  exact ((H.makePaths hmade).makePath hname).2

end CoreAudit.FileTree
