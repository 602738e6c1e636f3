import CoreAudit.Proofs.Audit.Scratch
import CoreAudit.Proofs.Files.Makeable

/-!
# Changes in one directory

What an audit does to the files it does in its scratch directory. `Confined name t u` says that from
the tree `t` to `u` nothing was changed but in the directory of that name: every other location
holds what it held, and whatever was done there is gone with the directory. What was written there
is read again, and a directory that was made there is found.

Headlines:
* **`removeTree_make`**: a new directory that is removed leaves the tree as it was.
* **`Confined.get?_outside`**: outside the directory nothing changes.
* `Holds.get?_makePaths`: what is no directory that was made there keeps what it holds.
* `find_join`, `read_join`: what the path of a name in a directory leads to.
-/

namespace CoreAudit.FileTree

variable {t u w : FileTree} {name : Text} {loc : Location} {e : Entry}

theorem entryAt_ne_none {es : List (Location × Entry)} (h : (loc, e) ∈ es) :
    entryAt loc es ≠ none := by
  induction es with
  | nil => cases h
  | cons d es ih =>
    obtain ⟨k, d⟩ := d
    rw [entryAt]
    split
    · exact Option.some_ne_none _
    · rename_i hk
      rcases List.mem_cons.mp h with h | h
      · cases h
        exact absurd (isSame_iff.mpr rfl) hk
      · exact ih h

/-! ## Trees in which every entry lies in a directory -/

theorem Closed.directory (h : t.Closed) {rest : Location} (hrest : rest ≠ [])
    (hthere : t.get? (loc ++ rest) ≠ none) : t.get? loc = some .directory := by
  induction rest generalizing loc with
  | nil => exact absurd rfl hrest
  | cons x rest ih =>
    rcases rest with _ | ⟨y, rest⟩
    · exact h loc x hthere
    · have hthere' : t.get? ((loc ++ [x]) ++ y :: rest) ≠ none := by
        rw [List.append_assoc]
        exact hthere
      refine h loc x ?_
      rw [ih (List.cons_ne_nil _ _) hthere']
      exact Option.some_ne_none _

theorem Closed.free (h : t.Closed) (hfree : t.get? [name] = none) (rest : Location) :
    t.get? (name :: rest) = none := by
  rcases rest with _ | ⟨x, rest⟩
  · exact hfree
  · refine Classical.byContradiction fun hthere => ?_
    have hdirectory : t.get? [name] = some .directory :=
      h.directory (List.cons_ne_nil x rest) hthere
    rw [hfree] at hdirectory
    cases hdirectory

/-- In a directory something can be put, unless it takes the place of another directory. -/
theorem Closed.put (h : t.Closed) (hloc : t.get? loc = some .directory) {x : Text}
    (hplace : e = .directory ∨ t.get? (loc ++ [x]) ≠ some .directory) :
    (t.put (loc ++ [x]) e).Closed := by
  have hne : loc ++ [x] ≠ [] := List.append_ne_nil_of_right_ne_nil _ (List.cons_ne_nil _ _)
  intro above y hthere
  rw [get?_put t hne] at hthere ⊢
  by_cases hnew : above ++ [y] = loc ++ [x]
  · obtain rfl := List.append_inj_left' hnew rfl
    have hself : above ≠ above ++ [x] := fun hself => by
      have hlength := congrArg List.length hself
      rw [List.length_append, List.length_singleton] at hlength
      omega
    rw [if_neg hself]
    exact hloc
  · rw [if_neg hnew] at hthere
    have habove := h above y hthere
    split
    · rename_i hsame
      rcases hplace with rfl | hplace
      · rfl
      · rw [hsame] at habove
        exact absurd habove hplace
    · exact habove

/-- **A new directory that is removed leaves the tree as it was.** -/
theorem removeTree_make (hclosed : t.Closed) (hfree : t.get? [name] = none) :
    (t.put [name] .directory).removeTree [name] = t := by
  have hprefix : [name].isPrefixOf [name] = true :=
    List.isPrefixOf_iff_prefix.mpr List.prefix_rfl
  rw [removeTree_put t hprefix]
  unfold removeTree
  have hall : ∀ d ∈ t.entries, (!List.isPrefixOf [name] d.1) = true := by
    rintro ⟨l, d⟩ hd
    rw [Bool.not_eq_true', Bool.eq_false_iff, Ne, List.isPrefixOf_iff_prefix]
    rintro ⟨rest, rfl⟩
    have hnone : t.get? (name :: rest) = none := hclosed.free hfree rest
    rw [get?, if_neg (List.cons_ne_nil _ _)] at hnone
    exact entryAt_ne_none hd hnone
  rw [List.filter_eq_self.mpr hall]

/-! ## Changes in a directory -/

/-- From one tree to the other nothing was changed but in a directory. -/
structure Confined (name : Text) (t u : FileTree) : Prop where
  outside : u.removeTree [name] = t.removeTree [name]
  directory : u.get? [name] = some .directory
  closed : t.Closed → u.Closed

namespace Confined

theorem refl (h : t.get? [name] = some .directory) : Confined name t t := ⟨rfl, h, id⟩

theorem trans (C : Confined name t u) (C' : Confined name u w) : Confined name t w :=
  ⟨C'.outside.trans C.outside, C'.directory, fun h => C'.closed (C.closed h)⟩

/-- **Outside the directory nothing changes.** -/
theorem get?_outside (C : Confined name t u) {l : Location} (h : l.head? ≠ some name) :
    u.get? l = t.get? l := by
  have hprefix : [name].isPrefixOf l = false := by
    rw [Bool.eq_false_iff, Ne, List.isPrefixOf_iff_prefix]
    rintro ⟨rest, rfl⟩
    exact h rfl
  rw [← get?_removeTree u hprefix, C.outside, get?_removeTree t hprefix]

/-- Something is put in the directory, where no other directory is. -/
theorem put (h : t.get? [name] = some .directory) {file : Text}
    (hplace : e = .directory ∨ t.get? [name, file] ≠ some .directory) :
    Confined name t (t.put [name, file] e) := by
  have hprefix : [name].isPrefixOf [name, file] = true := by
    rw [List.isPrefixOf_iff_prefix]
    exact ⟨[file], rfl⟩
  have hput : t.Closed → (t.put ([name] ++ [file]) e).Closed := fun hclosed => hclosed.put h hplace
  refine ⟨removeTree_put t hprefix e, ?_, hput⟩
  have hne : [name] ≠ [name, file] := fun h => nomatch (List.cons.inj h).2
  rw [get?_put t (List.cons_ne_nil _ _), if_neg hne]
  exact h

end Confined

/-- Writing a file in a scratch directory is confined to it. -/
theorem Scratch.confined {written : List Text} {file : Text} (S : t.Scratch name written)
    (hfile : file ∉ written) (content : Bytes) :
    Confined name t (t.put [name, file] (.file content false)) := by
  refine .put (S.leads []).directory (Or.inr ?_)
  rw [S.free file hfile]
  exact fun h => nomatch h

/-! ## What is found in a directory -/

variable {here : Location} {dir : Text} {names : List Text}

section Names

variable (L : Leads t here dir loc) (N : Path.IsName name)
  (hlength : (Text.Utf8.encode (dir ++ '/' :: name)).length < Path.maxPath)
include L N hlength

/-- The path of a name in a directory leads to what is there. -/
theorem find_join : t.find here (Path.join dir name) = match t.get? (loc ++ [name]) with
    | none => .error .missing
    | some e => .ok (loc ++ [name], e) := by
  have hlocate : t.locate here (Path.join dir name) = .ok (loc ++ [name]) := by
    rw [Path.join_eq L.nonempty L.unclosed N.toIsPiece, locate,
      Path.steps_eq_course (Path.not_endsInSlash_append N.isSimple)]
    exact locateBy_join L N.toIsPiece hlength N.short
  unfold find
  generalize t.locate here (Path.join dir name) = located at hlocate
  cases hlocate
  rfl

/-- A file is read at the name's place. -/
theorem read_join {content : Bytes} {executable : Bool}
    (h : t.get? (loc ++ [name]) = some (.file content executable)) :
    t.read here (Path.join dir name) = .ok content := by
  rw [read, find_join L N hlength, h]

end Names

/-! ## Directories that are made in a directory -/

/-- A directory is made, unless it is there. -/
theorem Holds.makePath_cases (H : Holds t here dir loc names) (hname : name ∈ names) :
    t.get? (loc ++ [name]) = none ∧
        (t.makePath here (Path.join dir name)).1 = t.put (loc ++ [name]) .directory ∨
      t.get? (loc ++ [name]) = some .directory ∧
        (t.makePath here (Path.join dir name)).1 = t := by
  have N := H.isName name hname
  rcases H.fileless name hname with hfree | hthere
  · rw [makePath_join H.leads N.toIsPiece (H.length name hname) N.short hfree]
    exact Or.inl ⟨hfree, rfl⟩
  · rw [makePath_join_of_directory H.leads N.toIsPiece (H.length name hname) N.short hthere]
    exact Or.inr ⟨hthere, rfl⟩

/-- Then it is there, and every other location holds what it held. -/
theorem Holds.get?_makePath (H : Holds t here dir loc names) (hname : name ∈ names)
    (l : Location) : (t.makePath here (Path.join dir name)).1.get? l =
      if l = loc ++ [name] then some .directory else t.get? l := by
  have hne : loc ++ [name] ≠ [] := List.append_ne_nil_of_right_ne_nil _ (List.cons_ne_nil _ _)
  rcases H.makePath_cases hname with ⟨_, hmade⟩ | ⟨hthere, hmade⟩
  · rw [hmade, get?_put t hne]
  · rw [hmade]
    split
    · rename_i hl
      rw [hl, hthere]
    · rfl

/-- What is no directory of these keeps what it holds. -/
theorem Holds.get?_makePaths (H : Holds t here dir loc names) {made : List Text}
    (hmade : ∀ p ∈ made, p ∈ names.map (Path.join dir)) {l : Location}
    (hl : ∀ name ∈ names, l ≠ loc ++ [name]) : (t.makePaths here made).get? l = t.get? l := by
  induction made generalizing t with
  | nil => rfl
  | cons p made ih =>
    obtain ⟨name, hname, rfl⟩ := List.mem_map.mp (hmade p List.mem_cons_self)
    have hrest := ih (H.makePath hname).1 fun q hq => hmade q (List.mem_cons_of_mem _ hq)
    rw [H.get?_makePath hname, if_neg (hl name hname)] at hrest
    exact hrest

end CoreAudit.FileTree
