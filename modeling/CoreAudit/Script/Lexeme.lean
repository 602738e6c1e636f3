import CoreAudit.Text.Basic

/-!
# Lexemes of a script

A script is divided into parentheses, comments, string literals, quoted symbols and single other
characters. A parenthesis inside a comment, a literal or a quoted symbol is part of it. Inside a
literal a quote is written twice; a literal, a quoted symbol or a comment that is not closed goes
on to the end.

Headline: **`flatMap_text_ofText`**: the lexemes are the script, no character lost or added.
-/

namespace CoreAudit.Script

/-- One lexeme, with its text where it can vary. -/
inductive Lexeme where
  | opening
  | closing
  | comment (t : Text)
  | literal (t : Text)
  | quoted (t : Text)
  | other (c : Char)
  deriving Repr, DecidableEq

namespace Lexeme

/-- The characters of a lexeme. -/
def text : Lexeme → Text
  | opening => ['(']
  | closing => [')']
  | comment t | literal t | quoted t => t
  | other c => [c]

/-- The characters up to and including the first `mark`, and those after it. -/
def through (mark : Char) : Text → Text × Text
  | [] => ([], [])
  | c :: t => if c = mark then ([c], t) else ((c :: (through mark t).1), (through mark t).2)

/-- The characters of a literal after its opening quote, up to and including its closing quote,
and those after it. -/
def throughLiteral : Text → Text × Text
  | [] => ([], [])
  | '"' :: '"' :: t => ('"' :: '"' :: (throughLiteral t).1, (throughLiteral t).2)
  | c :: t => if c = '"' then ([c], t) else (c :: (throughLiteral t).1, (throughLiteral t).2)

theorem through_append (mark : Char) (t : Text) : (through mark t).1 ++ (through mark t).2 = t := by
  induction t with
  | nil => rfl
  | cons c t ih =>
    unfold through
    split
    · rfl
    · rw [List.cons_append, ih]

theorem throughLiteral_append (t : Text) : (throughLiteral t).1 ++ (throughLiteral t).2 = t := by
  fun_induction throughLiteral t <;> simp_all

theorem length_through_le (mark : Char) (t : Text) : (through mark t).2.length ≤ t.length := by
  have h := congrArg List.length (through_append mark t)
  rw [List.length_append] at h
  omega

theorem length_throughLiteral_le (t : Text) : (throughLiteral t).2.length ≤ t.length := by
  have h := congrArg List.length (throughLiteral_append t)
  rw [List.length_append] at h
  omega

/-- The lexemes of a script. -/
def ofText : Text → List Lexeme
  | [] => []
  | c :: t =>
    if c = '(' then opening :: ofText t
    else if c = ')' then closing :: ofText t
    else if c = ';' then comment (c :: (through '\n' t).1) :: ofText (through '\n' t).2
    else if c = '"' then literal (c :: (throughLiteral t).1) :: ofText (throughLiteral t).2
    else if c = '|' then quoted (c :: (through '|' t).1) :: ofText (through '|' t).2
    else other c :: ofText t
  termination_by t => t.length
  decreasing_by
    · simp
    · simp
    · exact Nat.lt_succ_of_le (length_through_le _ _)
    · exact Nat.lt_succ_of_le (length_throughLiteral_le _)
    · exact Nat.lt_succ_of_le (length_through_le _ _)
    · simp

/-- The lexemes are the script, no character lost or added. -/
theorem flatMap_text_ofText (t : Text) : (ofText t).flatMap text = t := by
  fun_induction ofText t with
  | case1 => rfl
  | case2 t ih => simp [text, ih]
  | case3 t _ ih => simp [text, ih]
  | case4 t _ _ ih => simp [text, ih, through_append]
  | case5 t _ _ _ ih => simp [text, ih, throughLiteral_append]
  | case6 t _ _ _ _ ih => simp [text, ih, through_append]
  | case7 c t _ _ _ _ _ ih => simp [text, ih]

/-- No lexeme is empty, so there are at most as many as there are characters. -/
theorem length_ofText_le (t : Text) : (ofText t).length ≤ t.length := by
  fun_induction ofText t with
  | case1 => exact Nat.le_refl 0
  | case2 t ih | case3 t _ ih | case7 _ t _ _ _ _ _ ih => exact Nat.succ_le_succ ih
  | case4 t _ _ ih | case6 t _ _ _ _ ih =>
    exact Nat.succ_le_succ (Nat.le_trans ih (length_through_le _ t))
  | case5 t _ _ _ ih => exact Nat.succ_le_succ (Nat.le_trans ih (length_throughLiteral_le t))

end Lexeme

end CoreAudit.Script
