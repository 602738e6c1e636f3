import CoreAudit.Proofs.Files.Confined

/-!
# Trees with scratch directories that were kept

An audit that keeps its scratch directory leaves the files as they were, with one more directory
under a name that was free. `Kept t stem names u` says that the tree `u` is the tree `t` with
directories of these names added. A path that leads through none of them leads where it led before
(`Kept.read`), and as every one of them takes the first name that is free, the next one has a number
that is not large (`Kept.exists_freeName_eq`).

Headlines:
* **`Kept.add`**: what an audit does in a new scratch directory adds one directory.
* **`Kept.read`**: what is read past the directories is what was read before.
* **`Kept.exists_freeName_eq`**: the number of the next scratch directory.
-/

namespace CoreAudit.FileTree

/-- A scratch directory can take the name. -/
structure IsFresh (t : FileTree) (stem name : Text) : Prop where
  free : t.get? [name] = none
  numbered : ∃ n, name = stem ++ Text.ofNat n

/-- The path leads through no name that a scratch directory can take. -/
def Avoids (t : FileTree) (stem p : Text) : Prop :=
  ∀ name, t.IsFresh stem name → .into name ∉ Path.steps p

/-- The tree with directories of these names added, whatever is in them. -/
structure Kept (t : FileTree) (stem : Text) (names : List Text) (u : FileTree) : Prop where
  closed : u.Closed
  fresh : ∀ name ∈ names, t.IsFresh stem name
  same : ∀ l : Location, (∀ name ∈ names, l.head? ≠ some name) → u.get? l = t.get? l

variable {t u w : FileTree} {stem : Text} {names : List Text}

/-! ## Numbers of scratch directories -/

theorem le_of_taken {n : Nat} (h : ∀ m < n, stem ++ Text.ofNat m ∈ names ∨
    t.get? [stem ++ Text.ofNat m] ≠ none) : n ≤ t.entries.length + names.length := by
  have hnodup : ((List.range n).map fun m => stem ++ Text.ofNat m).Nodup :=
    List.Pairwise.map _ (fun a b hab h => hab (Text.ofNat_inj (List.append_cancel_left h)))
      List.nodup_range
  have hsubset : ((List.range n).map fun m => stem ++ Text.ofNat m) ⊆
      (t.entries.map fun e => e.1.headD []) ++ names := by
    intro name hname
    obtain ⟨m, hm, rfl⟩ := List.mem_map.mp hname
    rcases h m (List.mem_range.mp hm) with hkept | htaken
    · exact List.mem_append_right _ hkept
    · rw [get?, if_neg (List.cons_ne_nil _ _)] at htaken
      exact List.mem_append_left _ (mem_map_of_entryAt_ne_none htaken)
  have hlength := length_le_of_nodup_of_subset hnodup hsubset
  rw [List.length_map, List.length_range, List.length_append, List.length_map] at hlength
  exact hlength

/-- A scratch directory takes the first number whose name is free. -/
theorem exists_freeName_eq (t : FileTree) (stem : Text) :
    ∃ n, t.freeName stem = stem ++ Text.ofNat n ∧
      ∀ m < n, t.get? [stem ++ Text.ofNat m] ≠ none := by
  unfold freeName
  rcases hfound : (t.scratchNames stem).find? fun name => (t.get? [name]).isNone with _ | name
  · have htaken : ∀ m < t.entries.length + 1, stem ++ Text.ofNat m ∈ ([] : List Text) ∨
        t.get? [stem ++ Text.ofNat m] ≠ none := by
      intro m hm
      have hmem : stem ++ Text.ofNat m ∈ t.scratchNames stem :=
        List.mem_map.mpr ⟨m, List.mem_range.mpr hm, rfl⟩
      have htaken := List.find?_eq_none.mp hfound _ hmem
      rw [Option.isNone_iff_eq_none] at htaken
      exact Or.inr htaken
    have hle := le_of_taken htaken
    rw [List.length_nil] at hle
    omega
  · obtain ⟨_, before, after, hsplit, hbefore⟩ := List.find?_eq_some_iff_append.mp hfound
    have hat : ∀ m < before.length + 1,
        (before ++ name :: after)[m]? = some (stem ++ Text.ofNat m) := by
      intro m hm
      have hlength := congrArg List.length hsplit
      rw [scratchNames, List.length_map, List.length_range, List.length_append,
        List.length_cons] at hlength
      rw [← hsplit, scratchNames, List.getElem?_map, List.getElem?_range (by omega)]
      rfl
    refine ⟨before.length, ?_, fun m hm => ?_⟩
    · have hname := hat before.length (Nat.lt_succ_self _)
      rw [List.getElem?_append_right (Nat.le_refl _), Nat.sub_self] at hname
      exact Option.some.inj hname
    · have hname := hat m (Nat.lt_succ_of_lt hm)
      rw [List.getElem?_append_left hm] at hname
      have htaken := hbefore _ (List.mem_of_getElem? hname)
      rw [Bool.not_eq_true', Option.isNone_eq_false_iff, Option.isSome_iff_ne_none] at htaken
      exact htaken

namespace Kept

theorem refl (h : t.Closed) (stem : Text) : Kept t stem [] t :=
  ⟨h, fun _ h => absurd h List.not_mem_nil, fun _ _ => rfl⟩

/-- **The next scratch directory has one of the first numbers.** -/
theorem exists_freeName_eq (K : Kept t stem names u) :
    ∃ n ≤ t.entries.length + names.length, u.freeName stem = stem ++ Text.ofNat n := by
  obtain ⟨n, hname, htaken⟩ := FileTree.exists_freeName_eq u stem
  have htaken' : ∀ m < n, stem ++ Text.ofNat m ∈ names ∨
      t.get? [stem ++ Text.ofNat m] ≠ none := by
    intro m hm
    by_cases hkept : stem ++ Text.ofNat m ∈ names
    · exact Or.inl hkept
    · refine Or.inr ?_
      rw [← K.same [stem ++ Text.ofNat m] fun name hname h => hkept (Option.some.inj h ▸ hname)]
      exact htaken m hm
  exact ⟨n, le_of_taken htaken', hname⟩

theorem isFresh_freeName (K : Kept t stem names u) : t.IsFresh stem (u.freeName stem) := by
  by_cases hkept : u.freeName stem ∈ names
  · exact K.fresh _ hkept
  · obtain ⟨n, _, hname⟩ := K.exists_freeName_eq
    refine ⟨?_, n, hname⟩
    rw [← K.same [u.freeName stem] fun name hname h => hkept (Option.some.inj h ▸ hname)]
    exact u.get?_freeName stem

/-- **What is done in a new scratch directory adds one directory.** -/
theorem add (K : Kept t stem names u)
    (C : Confined (u.freeName stem) (u.put [u.freeName stem] .directory) w) :
    Kept t stem (u.freeName stem :: names) w := by
  have hmade : (u.put ([] ++ [u.freeName stem]) .directory).Closed :=
    K.closed.put rfl (Or.inl rfl)
  refine ⟨C.closed hmade, fun name hname => ?_, fun l hl => ?_⟩
  · rcases List.mem_cons.mp hname with rfl | hname
    · exact K.isFresh_freeName
    · exact K.fresh name hname
  · have hnew := hl (u.freeName stem) List.mem_cons_self
    have hne : l ≠ [u.freeName stem] := fun h => hnew (h ▸ rfl)
    rw [C.get?_outside hnew, get?_put u (List.cons_ne_nil _ _), if_neg hne]
    exact K.same l fun name hname => hl name (List.mem_cons_of_mem _ hname)

theorem confined {name : Text} (K : Kept t stem (name :: names) u) (C : Confined name u w) :
    Kept t stem (name :: names) w := by
  refine ⟨C.closed K.closed, K.fresh, fun l hl => ?_⟩
  rw [C.get?_outside (hl name List.mem_cons_self)]
  exact K.same l hl

/-! ## Paths past the directories -/

theorem head?_ne (K : Kept t stem names u) (hclosed : t.Closed) {l : Location}
    (h : t.get? l ≠ none) : ∀ name ∈ names, l.head? ≠ some name := by
  intro name hname hhead
  rcases l with _ | ⟨first, rest⟩
  · cases hhead
  · cases hhead
    exact h (hclosed.free (K.fresh name hname).free rest)

/-- A walk past the directories leads where it led, and past them. -/
theorem walk (K : Kept t stem names u) {steps : List Path.Step} {loc : Location}
    (hsteps : ∀ name ∈ names, .into name ∉ steps) (hloc : ∀ name ∈ names, loc.head? ≠ some name) :
    u.walk loc steps = t.walk loc steps ∧
      ∀ l, t.walk loc steps = .ok l → ∀ name ∈ names, l.head? ≠ some name := by
  induction steps generalizing loc with
  | nil =>
    refine ⟨rfl, fun l hl => ?_⟩
    cases hl
    exact hloc
  | cons s steps ih =>
    have hrest : ∀ name ∈ names, .into name ∉ steps := fun name hname hmem =>
      hsteps name hname (List.mem_cons_of_mem _ hmem)
    rw [walk_cons, walk_cons, K.same loc hloc]
    rcases t.get? loc with _ | _ | _
    · exact ⟨rfl, fun l hl => nomatch hl⟩
    · cases s with
      | into name =>
        dsimp only
        split
        · exact ⟨rfl, fun l hl => nomatch hl⟩
        · refine ih hrest fun other hother hhead => ?_
          rcases loc with _ | ⟨first, loc⟩
          · cases hhead
            exact hsteps name hother List.mem_cons_self
          · exact hloc other hother hhead
      | stay => exact ih hrest hloc
      | up =>
        refine ih hrest fun other hother hhead => ?_
        rcases loc with _ | ⟨first, _ | ⟨second, loc⟩⟩
        · cases hhead
        · cases hhead
        · exact hloc other hother hhead
    · exact ⟨rfl, fun l hl => nomatch hl⟩

/-- **What is read past the directories is what was read before.** -/
theorem read (K : Kept t stem names u) (hclosed : t.Closed) {here : Location}
    (hhere : t.get? here = some .directory) {p : Text} (hp : t.Avoids stem p) :
    u.read here p = t.read here p := by
  have horigin : ∀ name ∈ names, (origin here p).head? ≠ some name := by
    unfold origin
    split
    · exact fun _ _ h => nomatch h
    · refine K.head?_ne hclosed ?_
      rw [hhere]
      exact Option.some_ne_none _
  obtain ⟨hwalk, hpast⟩ :=
    K.walk (fun name hname => hp name (K.fresh name hname)) horigin
  unfold FileTree.read find locate locateBy
  rcases flaw? p with _ | problem
  · dsimp only
    rw [hwalk]
    rcases hend : t.walk (origin here p) (Path.steps p) with problem | l
    · rfl
    · dsimp only
      rw [K.same l (hpast l hend)]
  · rfl

end Kept

end CoreAudit.FileTree
