import CoreAudit.Text.Basic

/-!
# Lines

An answer is cut into lines at every line end of the Unicode line boundaries, as `splitlines` cuts
it; a text file is read with its three spellings of a line end made one.

* `not_isLineEnd_of_mem_splitLines`: no line holds a line end.
* **`splitLines_unlines`**: lines without line ends survive writing and cutting.
-/

namespace CoreAudit.Text

/-- The characters that end a line; a carriage return and a line feed together end one line. -/
def isLineEnd (c : Char) : Bool :=
  inRanges [(0x0A, 0x0D), (0x1C, 0x1E), (0x85, 0x85), (0x2028, 0x2029)] c

/-- The lines of a text, without their line ends. A line end at the end opens no further line. -/
def splitLines : Text → List Text
  | [] => []
  | '\r' :: '\n' :: t => [] :: splitLines t
  | c :: t =>
    if isLineEnd c then [] :: splitLines t
    else match splitLines t with
      | [] => [[c]]
      | l :: ls => (c :: l) :: ls

/-- Every spelling of a line end (`\r\n`, `\r`, `\n`) made a line feed. -/
def unifyLineEnds : Text → Text
  | [] => []
  | '\r' :: '\n' :: t => '\n' :: unifyLineEnds t
  | c :: t => (if c == '\r' then '\n' else c) :: unifyLineEnds t

/-- No line holds a line end. -/
theorem not_isLineEnd_of_mem_splitLines {t l : Text} (hl : l ∈ splitLines t) :
    ∀ c ∈ l, isLineEnd c = false := by
  fun_induction splitLines t generalizing l with
  | case1 => simp at hl
  | case2 t ih =>
    rcases List.mem_cons.mp hl with rfl | h
    · simp
    · exact ih h
  | case3 c t _ hc ih =>
    rcases List.mem_cons.mp hl with rfl | h
    · simp
    · exact ih h
  | case4 c t _ hc hs ih =>
    simp only [List.mem_singleton] at hl
    subst hl
    simpa using hc
  | case5 c t _ hc l₀ ls hs ih =>
    rcases List.mem_cons.mp hl with rfl | h
    · intro d hd
      rcases List.mem_cons.mp hd with rfl | hd
      · simpa using hc
      · exact ih (by rw [hs]; exact List.mem_cons_self) d hd
    · exact ih (by rw [hs]; exact List.mem_cons_of_mem _ h)

/-- A line without line ends, followed by a line feed, is the first line. -/
theorem splitLines_line_append (l : Text) (hl : ∀ c ∈ l, isLineEnd c = false) (t : Text) :
    splitLines (l ++ '\n' :: t) = l :: splitLines t := by
  induction l with
  | nil => simp [splitLines, isLineEnd, inRanges]
  | cons c l ih =>
    have hc : isLineEnd c = false := hl c List.mem_cons_self
    have hr : c ≠ '\r' := by rintro rfl; revert hc; decide
    have ih := ih fun d hd => hl d (List.mem_cons_of_mem _ hd)
    rw [List.cons_append, splitLines]
    · simp [hc, ih]
    · rintro u rfl; exact absurd rfl hr

/-- Lines without line ends survive writing and cutting. -/
theorem splitLines_unlines (ls : List Text) (h : ∀ l ∈ ls, ∀ c ∈ l, isLineEnd c = false) :
    splitLines (unlines ls) = ls := by
  induction ls with
  | nil => rfl
  | cons l ls ih =>
    have : unlines (l :: ls) = l ++ '\n' :: unlines ls := by simp [unlines]
    rw [this, splitLines_line_append l (h l List.mem_cons_self),
      ih fun m hm => h m (List.mem_cons_of_mem _ hm)]

end CoreAudit.Text
