import CoreAudit.Proofs.Files.Makeable
import CoreAudit.Validation

/-!
# Directories of validators

Every validator runs in a directory of its own, which is named by its place and its name. These
names are different for different places, and so are the directories. In a directory that is there
they can all be made if the names are proper (`makeable_directories`); a name that is too long
keeps its directory from being made (`blocked_of_tooLong`).

Headlines:
* **`directory_inj`**: a directory tells the place and the validator.
* **`makeable_directories`**: the directories of validators with proper names can be made.
* **`blocked_of_tooLong`**: those of validators with names that are too long cannot.
-/

namespace CoreAudit.Validation

/-- The directories of all validators. -/
def directories (workdir : Text) (ids : List Text) : List Text := ids.mapIdx (directory workdir)

variable {workdir : Text} {ids : List Text}

/-- A character that is neither the dash nor a digit is in the name of a validator's directory only
if it is in the validator's own. -/
theorem not_mem_directoryName {c : Char} {place : Nat} {id : Text} (hc : c ≠ '-')
    (hdigit : c.isDigit = false) (hid : c ∉ id) : c ∉ directoryName place id := by
  intro hmem
  rcases List.mem_append.mp hmem with hmem | hmem
  · rw [Nat.isDigit_of_mem_toDigits (by decide) (by decide) hmem] at hdigit
    cases hdigit
  · rcases List.mem_cons.mp hmem with rfl | hmem
    · exact hc rfl
    · exact hid hmem

/-- The name of a validator's directory is one piece of a path, if the validator's own has no
slash. -/
theorem isSimple_directoryName {place : Nat} {id : Text} (hslash : '/' ∉ id) :
    Path.IsSimple (directoryName place id) := by
  have hdash : '-' ∈ directoryName place id :=
    List.mem_append_right _ List.mem_cons_self
  refine ⟨List.ne_nil_of_mem hdash, ?_, ?_,
    not_mem_directoryName (by decide) (by decide) hslash⟩
  · intro h
    rw [h] at hdash
    exact absurd hdash (by decide)
  · intro h
    rw [h] at hdash
    exact absurd hdash (by decide)

theorem isPiece_directoryName {place : Nat} {id : Text} (hslash : '/' ∉ id)
    (hnull : '\x00' ∉ id) : Path.IsPiece (directoryName place id) :=
  (isSimple_directoryName hslash).isPiece (not_mem_directoryName (by decide) (by decide) hnull)

theorem directoryName_inj {i j : Nat} {a b : Text} (h : directoryName i a = directoryName j b) :
    i = j ∧ a = b := by
  have hdigits : ∀ (n : Nat) (id : Text),
      (directoryName n id).takeWhile (· != '-') = Text.ofNat n := by
    intro n id
    have hall : ∀ c ∈ Text.ofNat n, (c != '-') = true := by
      intro c hc
      rw [bne_iff_ne]
      rintro rfl
      exact absurd (Nat.isDigit_of_mem_toDigits (by decide) (by decide) hc) (by decide)
    rw [directoryName, List.takeWhile_append_of_pos hall, List.takeWhile_cons_of_neg (by decide),
      List.append_nil]
  have hplace : Text.ofNat i = Text.ofNat j := by
    rw [← hdigits i a, ← hdigits j b, h]
  obtain rfl := Text.ofNat_inj hplace
  exact ⟨rfl, (List.cons.inj (List.append_cancel_left h)).2⟩

theorem directoryName_eq_cons (place : Nat) (id : Text) :
    ∃ c rest, directoryName place id = c :: rest ∧ c.isDigit = true := by
  rcases hdigits : Text.ofNat place with _ | ⟨c, rest⟩
  · exact absurd hdigits Nat.toDigits_ne_nil
  · refine ⟨c, rest ++ '-' :: id, by rw [directoryName, hdigits]; rfl, ?_⟩
    refine Nat.isDigit_of_mem_toDigits (b := 10) (n := place) (by decide) (by decide) ?_
    show c ∈ Text.ofNat place
    rw [hdigits]
    exact List.mem_cons_self

theorem isAbsolute_directoryName (place : Nat) (id : Text) :
    Path.isAbsolute (directoryName place id) = false := by
  obtain ⟨c, rest, hname, hdigit⟩ := directoryName_eq_cons place id
  have hne : c ≠ '/' := by
    rintro rfl
    exact absurd hdigit (by decide)
  rw [hname, Path.isAbsolute, List.head?_cons, Option.some_beq_some, beq_eq_false_iff_ne]
  exact hne

/-- The directory tells the place and the validator. -/
theorem directory_inj {i j : Nat} {a b : Text} (h : directory workdir i a = directory workdir j b) :
    i = j ∧ a = b := by
  refine directoryName_inj ?_
  unfold directory Path.join at h
  rw [isAbsolute_directoryName, isAbsolute_directoryName, Bool.false_or] at h
  split at h
  · exact h
  · split at h
    · exact List.append_cancel_left h
    · exact (List.cons.inj (List.append_cancel_left h)).2

theorem directories_eq_map (workdir : Text) (ids : List Text) :
    directories workdir ids = (ids.mapIdx directoryName).map (Path.join workdir) := by
  refine List.ext_getElem? fun i => ?_
  rw [directories, List.getElem?_map, List.getElem?_mapIdx, List.getElem?_mapIdx]
  cases ids[i]? <;> rfl

/-- The directories of validators can be made in a directory that is there, if their names are
proper and no file has the place of one. -/
theorem makeable_directories {t : FileTree} {here loc : Location}
    (L : t.Leads here workdir loc) (hplain : ∀ id ∈ ids, '/' ∉ id ∧ '\x00' ∉ id)
    (hlength : ∀ name ∈ ids.mapIdx directoryName, Path.isTooLong name = false ∧
      (Text.Utf8.encode (workdir ++ '/' :: name)).length < Path.maxPath)
    (hfileless : ∀ name ∈ ids.mapIdx directoryName,
      t.get? (loc ++ [name]) = none ∨ t.get? (loc ++ [name]) = some .directory) :
    t.Makeable here (directories workdir ids) := by
  rw [directories_eq_map]
  refine FileTree.makeable_join ⟨L, fun name hname => ?_, fun name hname => (hlength name hname).2,
    hfileless⟩
  obtain ⟨i, hi, rfl⟩ := List.mem_mapIdx.mp hname
  obtain ⟨hslash, hnull⟩ := hplain ids[i] (List.getElem_mem hi)
  exact ⟨isPiece_directoryName hslash hnull, (hlength _ hname).1⟩

/-- The directory of a validator cannot be made, whichever of the others' were made before. -/
def Blocked (t : FileTree) (here : Location) (workdir : Text) (ids : List Text) (place : Nat)
    (id : Text) : Prop :=
  ∀ made, (∀ p ∈ made, p ∈ directories workdir ids) →
    ((t.makePaths here made).makePath here (directory workdir place id)).2 ≠ none

/-- Directories with names that are too long cannot be made. -/
theorem blocked_of_tooLong {t : FileTree} {here loc : Location} (L : t.Leads here workdir loc)
    (hplain : ∀ id ∈ ids, '/' ∉ id ∧ '\x00' ∉ id)
    (hlong : ∀ name ∈ ids.mapIdx directoryName, Path.isTooLong name = true ∧
      (Text.Utf8.encode (workdir ++ '/' :: name)).length < Path.maxPath)
    {place : Nat} {id : Text} (hplace : ids[place]? = some id) :
    Blocked t here workdir ids place id := by
  have hfails : ∀ {i : Nat} {other : Text}, ids[i]? = some other →
      t.makePath here (directory workdir i other) = (t, some .tooLong) := by
    intro i other hi
    obtain ⟨hlt, hget⟩ := List.getElem?_eq_some_iff.mp hi
    obtain ⟨hslash, hnull⟩ := hplain other (List.mem_of_getElem? hi)
    have hname : directoryName i other ∈ ids.mapIdx directoryName :=
      List.mem_mapIdx.mpr ⟨i, hlt, by rw [hget]⟩
    exact FileTree.makePath_join_of_tooLong L (isPiece_directoryName hslash hnull)
      (hlong _ hname).2 (hlong _ hname).1
  intro made hmade
  have hsame : t.makePaths here made = t := by
    induction made with
    | nil => rfl
    | cons p made ih =>
      obtain ⟨i, hi, rfl⟩ := List.mem_mapIdx.mp (hmade p List.mem_cons_self)
      show (t.makePath here (directory workdir i ids[i])).1.makePaths here made = t
      rw [hfails (List.getElem?_eq_getElem hi)]
      exact ih fun q hq => hmade q (List.mem_cons_of_mem _ hq)
  rw [hsame, hfails hplace]
  exact Option.some_ne_none _

end CoreAudit.Validation
