import CoreAudit.Session
import CoreAudit.Transcript

/-!
# Transcripts of strings

An answer that is handed over in memory is a string, which can hold halves of pairs. It is cut into
lines and cleaned like a text (`Transcript`): a line end, a stamp, a blank and an acknowledgement
hold no half, so the halves stay. A transcript with a half cannot be written.

Models `splitlines`, `normalize_lines` and `Transcript` for answers that are strings; `Transcript`
is the same for texts and for bytes.

Headlines:
* **`LetterTranscript.ofLetters`**: the transcript of a raw string.
* `LetterTranscript.write`: writes it to a file.
-/

namespace CoreAudit

namespace Letters

/-- The lines of a string, without their line ends. -/
def splitLines : Letters → List Letters
  | [] => []
  | .char '\r' :: .char '\n' :: s => [] :: splitLines s
  | a :: s =>
    if Text.isLineEnd a.plain then [] :: splitLines s
    else match splitLines s with
      | [] => [[a]]
      | l :: ls => (a :: l) :: ls

/-- The string without the line ends at its end. -/
def trimLineEnd (s : Letters) : Letters :=
  (s.reverse.dropWhile fun a => a.plain == '\r' || a.plain == '\n').reverse

/-- The string without the blanks at its two ends. -/
def trim (s : Letters) : Letters :=
  ((s.dropWhile (Text.isBlank ·.plain)).reverse.dropWhile (Text.isBlank ·.plain)).reverse

/-- The line without the stamp in front of it, if there is one. -/
def dropStamp (s : Letters) : Letters := s.drop (s.length - (Stamp.drop s.plain).length)

/-- Every line followed by a line feed. -/
def unlines (lines : List Letters) : Letters := lines.flatMap fun l => l ++ [.char '\n']

end Letters

/-- A transcript of strings: the lines of an answer, cleaned. -/
structure LetterTranscript where
  lines : List Letters
  deriving Repr, DecidableEq

namespace LetterTranscript

/-- What is left of a line: nothing of an acknowledgement, with or without a stamp; of any other
line the string without its stamp. -/
def clean? (line : Letters) : Option Letters :=
  let line := line.trimLineEnd
  let bare := line.dropStamp
  if line.plain = Transcript.acknowledgement ∨ bare.plain = Transcript.acknowledgement then none
  else some bare

/-- The transcript of raw lines. -/
def ofLines (lines : List Letters) : LetterTranscript := ⟨lines.filterMap clean?⟩

/-- The transcript of a raw string. -/
def ofLetters (s : Letters) : LetterTranscript := ofLines s.splitLines

/-- The transcript of a transcript of texts. -/
def ofTranscript (t : Transcript) : LetterTranscript := ⟨t.lines.map Letters.ofText⟩

/-- The first line without the blanks at its ends; empty where there is no line. -/
def verdictText (t : LetterTranscript) : Letters := (t.lines.head?.map Letters.trim).getD []

/-- What the solver answered. -/
def status (t : LetterTranscript) : Verdict := Verdict.classify t.verdictText.plain

/-- The transcript as a string, a line feed after every line. -/
def text (t : LetterTranscript) : Letters := Letters.unlines t.lines

/-- Writes the transcript to a file. -/
def write (t : LetterTranscript) (path : Text) : Act Unit := Act.writeLetters path t.text

/-- The transcript in one line: its verdict and the number of its lines. -/
def describe (t : LetterTranscript) : Text :=
  "Transcript(verdict=".toList ++ t.verdictText.quoted ++ ", lines=".toList
    ++ Text.ofNat t.lines.length ++ [')']

end LetterTranscript

end CoreAudit
