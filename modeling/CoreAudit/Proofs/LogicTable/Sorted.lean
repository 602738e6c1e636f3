import CoreAudit.LogicTable.Basic

/-!
# The validators of a table, in order

The validators are put one by one into a list that is sorted, each in its place and only if it is
not there yet. The order is the lexicographic one of the numbers of the letters
(`Letters.le_iff`), and a list without repetition that is sorted is strictly increasing. So the list
does not depend on the order of the rows, and a table with the same validators has the same list.

Headlines:
* **`Letters.le_iff`**: the order that the program tests is the lexicographic one.
* **`pairwise_validatorIds`**: the list is strictly increasing.
* **`mem_validatorIds_iff`**: it holds the validators of all rows and nothing else.
-/

namespace CoreAudit

namespace Letter

instance : Trans (α := Letter) (β := Letter) (γ := Letter) (· < ·) (· < ·) (· < ·) where
  trans hab hbc := Nat.lt_trans hab hbc

instance : Std.Asymm (α := Letter) (· < ·) where
  asymm _ _ hab := Nat.lt_asymm hab

/-- Letters that are not in order are the same, since their numbers are. -/
instance : Std.Trichotomous (α := Letter) (· < ·) where
  trichotomous _ _ hab hba := number_inj (Nat.le_antisymm (Nat.not_lt.mp hba) (Nat.not_lt.mp hab))

end Letter

/-- **Strings are compared by the numbers of their letters, from the front.** -/
theorem Letters.le_iff {s t : Letters} : s.le t = true ↔ ¬ t < s := by
  induction s generalizing t with
  | nil => exact iff_of_true (by unfold Letters.le; rfl) (List.not_lt_nil t)
  | cons a s ih =>
    cases t with
    | nil =>
      exact iff_of_false (by unfold Letters.le; exact Bool.false_ne_true)
        (not_not_intro (List.nil_lt_cons a s))
    | cons b t =>
      rw [Letters.le, Bool.or_eq_true, Bool.and_eq_true, decide_eq_true_eq, beq_iff_eq, ih,
        List.not_lt, List.not_lt, List.cons_le_cons_iff]

namespace PolicyTable

theorem mem_insertSorted {u v : Letters} {ws : List Letters} :
    u ∈ insertSorted v ws ↔ u = v ∨ u ∈ ws := by
  induction ws with
  | nil => exact List.mem_cons
  | cons w ws ih =>
    unfold insertSorted
    split
    · rename_i heq
      subst heq
      rw [List.mem_cons, or_self_left]
    · split
      · exact List.mem_cons
      · rw [List.mem_cons, ih, List.mem_cons, or_left_comm]

theorem pairwise_insertSorted {v : Letters} {ws : List Letters} (h : ws.Pairwise (· < ·)) :
    (insertSorted v ws).Pairwise (· < ·) := by
  induction ws with
  | nil => exact List.pairwise_singleton _ v
  | cons w ws ih =>
    obtain ⟨hfirst, hrest⟩ := List.pairwise_cons.mp h
    unfold insertSorted
    split
    · exact h
    · rename_i hne
      split
      · rename_i hle
        have hlt : v < w := Decidable.not_not.mp fun hnot =>
          hne (List.le_antisymm (List.not_lt.mp (Letters.le_iff.mp hle)) (List.not_lt.mp hnot))
        refine List.pairwise_cons.mpr ⟨fun u hu => ?_, h⟩
        rcases List.mem_cons.mp hu with rfl | hu
        · exact hlt
        · exact List.lt_trans hlt (hfirst u hu)
      · rename_i hle
        have hlt : w < v := Decidable.not_not.mp (mt Letters.le_iff.mpr hle)
        refine List.pairwise_cons.mpr ⟨fun u hu => ?_, ih hrest⟩
        rcases mem_insertSorted.mp hu with rfl | hu
        · exact hlt
        · exact hfirst u hu

/-- Names that are put in one after the other: the list is increasing again, and it holds them and
what it held before. -/
theorem foldl_insertSorted (vs : List Letters) {ws : List Letters} (h : ws.Pairwise (· < ·)) :
    (vs.foldl (fun ids v => insertSorted v ids) ws).Pairwise (· < ·) ∧
      ∀ u, u ∈ vs.foldl (fun ids v => insertSorted v ids) ws ↔ u ∈ ws ∨ u ∈ vs := by
  induction vs generalizing ws with
  | nil => exact ⟨h, fun u => (or_iff_left List.not_mem_nil).symm⟩
  | cons v vs ih =>
    obtain ⟨hsorted, hmem⟩ := ih (pairwise_insertSorted (v := v) h)
    refine ⟨hsorted, fun u => ?_⟩
    rw [List.foldl_cons, hmem, mem_insertSorted, List.mem_cons, or_assoc, or_left_comm]

/-- **The validators of a table are listed in strictly increasing order.** -/
theorem pairwise_validatorIds (t : PolicyTable Letters) : t.validatorIds.Pairwise (· < ·) :=
  (foldl_insertSorted _ List.Pairwise.nil).1

/-- **The validators of a table are those of its rows.** -/
theorem mem_validatorIds_iff {t : PolicyTable Letters} {v : Letters} :
    v ∈ t.validatorIds ↔ ∃ row ∈ t.rows, v ∈ row.2 := by
  unfold validatorIds
  rw [(foldl_insertSorted _ List.Pairwise.nil).2, or_iff_right List.not_mem_nil, List.mem_flatMap]

end PolicyTable

end CoreAudit
