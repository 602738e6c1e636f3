import CoreAudit.Text.Digit
import CoreAudit.Text.Lines
import CoreAudit.Text.Quoted
import CoreAudit.Text.Utf8
import CoreAudit.Verdict

/-!
# Transcripts

A solver under the competition harness prints its answer among `success` acknowledgements, and
the harness puts a stamp of processor and wall-clock time in front of every line. A transcript
is what is left without the stamps and the acknowledgements; its first line is the verdict.

Models `normalize_lines` and `Transcript` for texts and bytes; strings with halves of pairs are in
`LetterTranscript`.

* `not_mem_normalize`: no acknowledgement is left.
* **`Stamp.drop_stamp`**: a stamp in front of a line is dropped, and only the first one.
-/

namespace CoreAudit

/-! ## Stamps -/

namespace Stamp

/-- The text after a decimal number: digits, and after a point more digits. -/
def cutNumber? (t : Text) : Option Text :=
  let afterWhole := t.dropWhile Text.Digit.isDecimal
  if (t.takeWhile Text.Digit.isDecimal).isEmpty then none
  else match afterWhole with
    | '.' :: r =>
      if (r.takeWhile Text.Digit.isDecimal).isEmpty then none
      else some (r.dropWhile Text.Digit.isDecimal)
    | r => some r

/-- The text after a stamp: two numbers with a slash between them and a tabulator after them. -/
def cut? (t : Text) : Option Text :=
  match cutNumber? t with
  | some ('/' :: r) =>
    match cutNumber? r with
    | some ('\t' :: rest) => some rest
    | _ => none
  | _ => none

/-- The line without the stamp in front of it, if there is one. -/
def drop (t : Text) : Text := (cut? t).getD t

/-- Digits, and after a point more digits. -/
def IsNumber (t : Text) : Prop :=
  ∃ whole, whole ≠ [] ∧ whole.all Text.Digit.isDecimal = true ∧
    (t = whole ∨ ∃ places, places ≠ [] ∧ places.all Text.Digit.isDecimal = true ∧
      t = whole ++ '.' :: places)

/-- Two numbers with a slash between them and a tabulator after them. -/
def IsStamp (t : Text) : Prop :=
  ∃ a b, IsNumber a ∧ IsNumber b ∧ t = a ++ '/' :: b ++ ['\t']

theorem takeWhile_digits_append {ds : Text} (hd : ds.all Text.Digit.isDecimal = true) {c : Char}
    (hc : Text.Digit.isDecimal c = false) (rest : Text) :
    (ds ++ c :: rest).takeWhile Text.Digit.isDecimal = ds ∧
      (ds ++ c :: rest).dropWhile Text.Digit.isDecimal = c :: rest := by
  induction ds with
  | nil => simp [hc]
  | cons d ds ih =>
    simp only [List.all_cons, Bool.and_eq_true] at hd
    simp [hd.1, ih hd.2]

/-- A number is cut off in front of a character that cannot go on with it. -/
theorem cutNumber?_append {n : Text} (hn : IsNumber n) {c : Char}
    (hc : Text.Digit.isDecimal c = false) (hp : c ≠ '.') (rest : Text) :
    cutNumber? (n ++ c :: rest) = some (c :: rest) := by
  obtain ⟨whole, hne, hw, rfl | ⟨places, hpne, hpd, rfl⟩⟩ := hn
  · obtain ⟨h₁, h₂⟩ := takeWhile_digits_append hw hc rest
    simp only [cutNumber?, h₁, h₂, List.isEmpty_iff, if_neg hne]
    split
    · rename_i heq
      exact absurd (List.cons.inj heq).1 hp
    · rfl
  · have hpoint : Text.Digit.isDecimal '.' = false := by decide
    obtain ⟨h₁, h₂⟩ := takeWhile_digits_append hw hpoint (places ++ c :: rest)
    obtain ⟨h₃, h₄⟩ := takeWhile_digits_append hpd hc rest
    simp only [cutNumber?, List.append_assoc, List.cons_append, h₁, h₂, h₃, h₄,
      List.isEmpty_iff, if_neg hne, if_neg hpne]

/-- A stamp in front of a line is dropped, and only the first one. -/
theorem drop_stamp {s : Text} (hs : IsStamp s) (line : Text) : drop (s ++ line) = line := by
  obtain ⟨a, b, ha, hb, rfl⟩ := hs
  have hslash : Text.Digit.isDecimal '/' = false := by decide
  have htab : Text.Digit.isDecimal '\t' = false := by decide
  have h : a ++ '/' :: b ++ ['\t'] ++ line = a ++ '/' :: (b ++ '\t' :: line) := by simp
  simp only [drop, cut?, h, cutNumber?_append ha hslash (by decide),
    cutNumber?_append hb htab (by decide), Option.getD_some]

end Stamp

/-! ## Transcripts -/

/-- A transcript: the lines of an answer, cleaned. -/
structure Transcript where
  lines : List Text
  deriving Repr, DecidableEq

namespace Transcript

/-- The line by which a solver acknowledges a command. -/
def acknowledgement : Text := "success".toList

/-- What is left of a line: nothing of an acknowledgement, with or without a stamp; of any other
line the text without its stamp. -/
def clean? (line : Text) : Option Text :=
  let line := line.trimLineEnd
  let bare := Stamp.drop line
  if line = acknowledgement ∨ bare = acknowledgement then none else some bare

/-- The lines cleaned one by one. -/
def normalize (lines : List Text) : List Text := lines.filterMap clean?

/-- No acknowledgement is left. -/
theorem not_mem_normalize (lines : List Text) : acknowledgement ∉ normalize lines := by
  intro h
  obtain ⟨l, _, hl⟩ := List.mem_filterMap.mp h
  unfold clean? at hl
  dsimp only at hl
  split at hl
  · cases hl
  · rename_i hne
    exact hne (Or.inr (Option.some.inj hl))

/-- The transcript of raw lines. -/
def ofLines (lines : List Text) : Transcript := ⟨normalize lines⟩

/-- The transcript of a raw text. -/
def ofText (t : Text) : Transcript := ofLines t.splitLines

/-- The transcript of raw bytes. -/
def ofBytes (bytes : List UInt8) : Transcript := ofText (Text.Utf8.decode bytes)

/-- The first line without the blanks at its ends; empty where there is no line. -/
def verdictText (t : Transcript) : Text := (t.lines.head?.map Text.trim).getD []

/-- What the solver answered. -/
def status (t : Transcript) : Verdict := Verdict.classify t.verdictText

/-- The transcript as a text, a line feed after every line. -/
def text (t : Transcript) : Text := Text.unlines t.lines

/-- The transcript in one line: its verdict and the number of its lines. -/
def describe (t : Transcript) : Text :=
  "Transcript(verdict=".toList ++ t.verdictText.quoted ++ ", lines=".toList
    ++ Text.ofNat t.lines.length ++ [')']

end Transcript

end CoreAudit
