import CoreAudit.Text.Basic

/-!
# Blanks

Three sets of blank characters are in use, and they differ in the four information separators
U+001C to U+001F: trimming an answer removes them, a script does not count them as white space,
and a number may not be surrounded by them.

`isBlank` is the set that `strip` removes, `isSpace` the class `\s` of the patterns `COMMAND_NAME`
and `SET_LOGIC`.

* **`isBlank_of_isSpace`**: white space of a script is trimmed from the ends of a line.
* `trim_append_trim`: trimming removes characters at the two ends only.
-/

namespace CoreAudit.Text

/-- The blanks above ASCII, in closed ranges. -/
def wideBlanks : List (Nat × Nat) :=
  [(0x85, 0x85), (0xA0, 0xA0), (0x1680, 0x1680), (0x2000, 0x200A), (0x2028, 0x2029),
   (0x202F, 0x202F), (0x205F, 0x205F), (0x3000, 0x3000)]

/-- White space between the tokens of a script. -/
def isSpace (c : Char) : Bool :=
  inRanges ((0x09, 0x0D) :: (0x20, 0x20) :: wideBlanks) c

/-- What trimming removes: white space and the four information separators. -/
def isBlank (c : Char) : Bool :=
  inRanges ((0x09, 0x0D) :: (0x1C, 0x20) :: wideBlanks) c

/-- White space of a script is trimmed from the ends of a line. -/
theorem isBlank_of_isSpace {c : Char} (h : isSpace c = true) : isBlank c = true := by
  simp only [isSpace, isBlank, inRanges, List.any_cons, Bool.or_eq_true, Bool.and_eq_true,
    decide_eq_true_eq] at h ⊢
  rcases h with h | h | h
  · exact Or.inl h
  · exact Or.inr (Or.inl ⟨by omega, by omega⟩)
  · exact Or.inr (Or.inr h)

/-- The text without the blanks at its end. -/
def trimEnd (t : Text) : Text := (t.reverse.dropWhile isBlank).reverse

/-- The text without the blanks at its two ends. -/
def trim (t : Text) : Text := trimEnd (t.dropWhile isBlank)

/-- The text without the line ends at its end. -/
def trimLineEnd (t : Text) : Text :=
  (t.reverse.dropWhile fun c => c == '\r' || c == '\n').reverse

/-- Trimming removes blanks at the two ends only. -/
theorem trim_append_trim (t : Text) :
    t = t.takeWhile isBlank ++ trim t ++
      ((t.dropWhile isBlank).reverse.takeWhile isBlank).reverse := by
  have h : t.dropWhile isBlank = trim t ++
      ((t.dropWhile isBlank).reverse.takeWhile isBlank).reverse := by
    unfold trim trimEnd
    rw [← List.reverse_append, List.takeWhile_append_dropWhile, List.reverse_reverse]
  rw [List.append_assoc, ← h, List.takeWhile_append_dropWhile]

end CoreAudit.Text
