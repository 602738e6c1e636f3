import CoreAudit.Proofs.Files.Under

/-!
# What is written is read

Whether a file can be written depends on its path alone, not on what is written: the path must lead
to a place in a directory where no directory is (`target_eq_ok`). The place is led to in the same
way once the file is there, so that it is read as it was written, and writing the same once more
changes nothing.

Headlines:
* **`read_of_write`**: a file is read as it was written.
* **`write_of_write`**: a file that is written once more is in the same place.
-/

namespace CoreAudit.FileTree

variable {t u : FileTree} {here loc : Location} {p : Text} {content : Bytes}

/-- What a path leads to at which a file can be written. -/
structure Target (t : FileTree) (here : Location) (p : Text) (loc : Location) : Prop where
  unclosed : Path.endsInSlash p = false
  walkable : flaw? p = none
  walk : t.walk (origin here p) (Path.course p) = .ok loc
  vacant : t.get? loc ≠ some .directory

/-- A file can be written at the end of a path iff no slash ends it and it leads to a place where no
directory is. -/
theorem target_eq_ok : t.target here p = .ok loc ↔ t.Target here p loc := by
  have hcourse : (Text.splitAt '/' p).filterMap Path.step? = Path.course p := rfl
  unfold target
  rw [hcourse]
  dsimp only
  constructor
  · intro h
    split at h
    · split at h <;> cases h
    · rename_i hslash
      unfold locateBy at h
      rcases hflaw : flaw? p with _ | problem
      · rw [hflaw] at h
        dsimp only at h
        rcases hwalk : t.walk (origin here p) (Path.course p) with problem | l
        · rw [hwalk] at h
          cases h
        · rw [hwalk] at h
          dsimp only at h
          split at h
          · cases h
          · rename_i hplace
            cases h
            exact ⟨Bool.eq_false_iff.mpr hslash, hflaw, hwalk, fun h => hplace (beq_iff_eq.mpr h)⟩
      · rw [hflaw] at h
        cases h
  · intro T
    rw [if_neg (Bool.eq_false_iff.mp T.unclosed), locateBy, T.walkable]
    dsimp only
    rw [T.walk]
    dsimp only
    rw [if_neg fun h => T.vacant (beq_iff_eq.mp h)]

theorem Target.ne_root (T : t.Target here p loc) : loc ≠ [] := by
  rintro rfl
  exact T.vacant (if_pos rfl)

theorem Target.put (T : t.Target here p loc) (content : Bytes) (executable : Bool) :
    (t.put loc (.file content executable)).Target here p loc := by
  refine ⟨T.unclosed, T.walkable,
    walk_mono (fun _ => get?_put_directory T.ne_root T.vacant) T.walk, ?_⟩
  rw [get?_put t T.ne_root, if_pos rfl]
  exact fun h => nomatch h

/-- The file at a place can be executed. -/
def executableAt (t : FileTree) (loc : Location) : Bool :=
  match t.get? loc with
  | some (.file _ executable) => executable
  | _ => false

/-- **Writing succeeds iff there is a place to write at**, whatever is written. -/
theorem write_eq_ok : t.write here p content = .ok u ↔
    ∃ loc, t.Target here p loc ∧ u = t.put loc (.file content (t.executableAt loc)) := by
  constructor
  · intro h
    unfold write at h
    split at h
    · cases h
    · rename_i loc htarget
      cases h
      exact ⟨loc, target_eq_ok.mp htarget, rfl⟩
  · rintro ⟨loc, T, rfl⟩
    rw [write, target_eq_ok.mpr T]
    rfl

/-- **A file is read as it was written.** -/
theorem read_of_write (h : t.write here p content = .ok u) : u.read here p = .ok content := by
  obtain ⟨loc, T, rfl⟩ := write_eq_ok.mp h
  have T' := T.put content (t.executableAt loc)
  have hlocate : (t.put loc (.file content (t.executableAt loc))).locate here p = .ok loc := by
    rw [locate, Path.steps_eq_course T'.unclosed, locateBy, T'.walkable]
    exact T'.walk
  rw [read, find, hlocate]
  dsimp only
  rw [get?_put t T.ne_root, if_pos rfl]

theorem putEntry_putEntry (es : List (Location × Entry)) (loc : Location) (e : Entry) :
    putEntry loc e (putEntry loc e es) = putEntry loc e es := by
  induction es with
  | nil => rw [putEntry, putEntry, if_pos (isSame_iff.mpr rfl)]
  | cons d es ih =>
    obtain ⟨l, d⟩ := d
    rw [putEntry]
    split
    · rename_i hl
      rw [putEntry, if_pos hl]
    · rename_i hl
      rw [putEntry, if_neg hl, ih]

/-- **Writing the same once more changes nothing.** -/
theorem write_of_write (h : t.write here p content = .ok u) : u.write here p content = .ok u := by
  obtain ⟨loc, T, rfl⟩ := write_eq_ok.mp h
  refine write_eq_ok.mpr ⟨loc, T.put content _, ?_⟩
  have hexecutable : (t.put loc (.file content (t.executableAt loc))).executableAt loc =
      t.executableAt loc := by
    rw [executableAt, get?_put t T.ne_root, if_pos rfl]
  rw [hexecutable, put, put, putEntry_putEntry]

end CoreAudit.FileTree
