/-!
# Texts

Files, answers, scripts, reports and messages are texts. A text is a list of characters, that is of
code points that are no halves of pairs: whatever is decoded from bytes is a text. A string that is
handed over in memory or written with escapes can hold halves as well, and is a list of letters
(`Text.Letter`). Here are the few operations that know no alphabet.

* `Text.cut_append`: cutting at the first mark loses nothing but the mark.
* **`Text.ofNat_inj`**: the decimal digits tell the number.
-/

namespace CoreAudit

/-- A text, as the list of its code points. -/
abbrev Text := List Char

namespace Text

/-- The code point lies in one of the closed ranges. -/
def inRanges (ranges : List (Nat × Nat)) (c : Char) : Bool :=
  ranges.any fun r => decide (r.1 ≤ c.toNat) && decide (c.toNat ≤ r.2)

/-- The text before the first `mark`, and the text after it, if there is a mark at all. -/
def cut (mark : Char) (t : Text) : Text × Option Text :=
  (t.takeWhile (· != mark), (t.dropWhile (· != mark)).tail?)

/-- Cutting at the first mark loses nothing but the mark. -/
theorem cut_append (mark : Char) (t : Text) :
    t = (cut mark t).1 ++ ((cut mark t).2.map (mark :: ·)).getD [] := by
  unfold cut
  induction t with
  | nil => rfl
  | cons c t ih =>
    by_cases h : c = mark
    · simp [h]
    · have hc : (c != mark) = true := by simpa using h
      simp only [List.takeWhile_cons, List.dropWhile_cons, hc, if_true, List.cons_append]
      exact congrArg (c :: ·) ih

/-- `needle` occurs in the text. -/
def mentions (t needle : Text) : Bool :=
  match t with
  | [] => needle.isEmpty
  | c :: t => needle.isPrefixOf (c :: t) || mentions t needle

/-- The texts one after the other with `between` after each but the last. -/
def joined (between : Text) (ts : List Text) : Text := (ts.intersperse between).flatten

/-- Every line followed by a line feed. -/
def unlines (lines : List Text) : Text := lines.flatMap fun l => l ++ ['\n']

/-- A whole number in decimal digits, with a minus sign where it is negative. -/
def ofInt : Int → Text
  | .ofNat n => Nat.toDigits 10 n
  | .negSucc n => '-' :: Nat.toDigits 10 (n + 1)

/-- A natural number in decimal digits. -/
def ofNat (n : Nat) : Text := Nat.toDigits 10 n

/-- The digits tell the number. -/
theorem ofNat_inj {m n : Nat} (h : ofNat m = ofNat n) : m = n := by
  have hm : Nat.ofDigitChars 10 (ofNat m) 0 = m := Nat.ofDigitChars_toDigits (by decide) (by decide)
  have hn : Nat.ofDigitChars 10 (ofNat n) 0 = n := Nat.ofDigitChars_toDigits (by decide) (by decide)
  rw [← hm, h, hn]

/-- A whole number is written in digits, with a minus sign at most. -/
theorem not_mem_ofInt {c : Char} (hdigit : c.isDigit = false) (hminus : c ≠ '-') (n : Int) :
    c ∉ ofInt n := by
  have hdigits : ∀ m : Nat, c ∉ Nat.toDigits 10 m := by
    intro m hmem
    rw [Nat.isDigit_of_mem_toDigits (by decide) (by decide) hmem] at hdigit
    cases hdigit
  cases n with
  | ofNat m => exact hdigits m
  | negSucc m =>
    intro hmem
    rcases List.mem_cons.mp hmem with rfl | hmem
    · exact hminus rfl
    · exact hdigits _ hmem

end Text

end CoreAudit
