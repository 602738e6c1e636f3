import CoreAudit.Text.Quoted
import CoreAudit.Text.Utf8

/-!
# Letters

A string that is handed over in memory, or written with escapes in a JSON document, can hold half of
a pair of code units that stands for one character, without its other half. Such a half is a letter
and no character, and UTF-8 has no bytes for it. A text (`Text`) is a string without halves;
whatever is decoded from bytes is one.

* `Letters.toText` is the text of a string, or the first gap (`Gap`): a run of halves.
* `Letters.plain` has the replacement character in the place of each half. A string is scanned for
  blanks, digits, line ends, punctuation and ASCII words. Neither a half nor the replacement
  character is one of these, so a string is scanned like its plain text.

Results:
* `Letter.number_inj`: the number of a letter tells the letter.
* **`Letters.toText_eq_ok_iff`**: a string is a text iff it holds no half.
-/

namespace CoreAudit

/-- A letter of a string: a character, or half of a pair. The halves are numbered from U+D800 on. -/
inductive Letter where
  | char (c : Char)
  | half (n : Fin 0x800)
  deriving Repr, DecidableEq

/-- A string, as the list of its letters. -/
abbrev Letters := List Letter

namespace Letter

/-- The number of a letter. -/
def number : Letter → Nat
  | char c => c.toNat
  | half n => 0xD800 + n

/-- The letter with a number. -/
def ofNumber (n : Nat) : Letter :=
  if h : 0xD800 ≤ n ∧ n < 0xE000 then half ⟨n - 0xD800, by omega⟩ else char (Char.ofNat n)

/-- No character has the number of a half. -/
theorem number_char_ne (c : Char) (n : Fin 0x800) : (char c).number ≠ (half n).number := by
  have hc := c.valid
  simp only [UInt32.isValidChar, Nat.isValidChar] at hc
  show c.val.toNat ≠ 0xD800 + n
  omega

theorem number_inj {a b : Letter} (h : a.number = b.number) : a = b := by
  cases a with
  | char c => cases b with
    | char d => exact congrArg char (Char.toNat_inj.mp h)
    | half n => exact absurd h (number_char_ne c n)
  | half m => cases b with
    | char d => exact absurd h.symm (number_char_ne d m)
    | half n => exact congrArg half (Fin.ext (Nat.add_left_cancel h))

/-- Letters in order of their numbers. -/
instance : LT Letter := ⟨fun a b => a.number < b.number⟩

instance (a b : Letter) : Decidable (a < b) := inferInstanceAs (Decidable (a.number < b.number))

/-- The letter is half of a pair. -/
def isHalf : Letter → Bool
  | char _ => false
  | half _ => true

/-- The character that a letter is scanned like. -/
def plain : Letter → Char
  | char c => c
  | half _ => '\uFFFD'

/-- The digits that a half is shown by. -/
def escaped (n : Fin 0x800) : Text := '\\' :: 'u' :: Text.hexDigits 4 (half n).number

/-- A letter between quotes of the kind `quote`. -/
def escape (quote : Char) : Letter → Text
  | char c => Text.escape quote c
  | half n => escaped n

/-- A letter as a message shows it. -/
def shown : Letter → Text
  | char c => [c]
  | half n => escaped n

end Letter

namespace Letters

/-- A text as a string. -/
def ofText (t : Text) : Letters := t.map .char

/-- Halves that UTF-8 has no bytes for: the place of the first, the first, and how many there are
in a row. -/
structure Gap where
  position : Nat
  first : Fin 0x800
  width : Nat
  deriving Repr, DecidableEq

/-- The text that a string is which stands `position` letters after the start, or its first gap. -/
def toTextFrom (position : Nat) : Letters → Except Gap Text
  | [] => .ok []
  | .char c :: s => (toTextFrom (position + 1) s).map (c :: ·)
  | .half n :: s => .error ⟨position, n, (s.takeWhile Letter.isHalf).length + 1⟩

/-- The text that a string is, or its first gap. -/
def toText (s : Letters) : Except Gap Text := toTextFrom 0 s

/-- The text that a string is scanned like. -/
def plain (s : Letters) : Text := s.map Letter.plain

/-- A string as a message shows it. -/
def shown (s : Letters) : Text := s.flatMap Letter.shown

/-- A string between quotes. -/
def quoted (s : Letters) : Text :=
  Text.quoteFor s.plain :: s.flatMap (Letter.escape (Text.quoteFor s.plain))
    ++ [Text.quoteFor s.plain]

/-- Strings in order of the numbers of their letters, the shorter first where one begins the
other. -/
def le : Letters → Letters → Bool
  | [], _ => true
  | _ :: _, [] => false
  | a :: s, b :: t => decide (a < b) || (a == b && le s t)

theorem toTextFrom_eq_ok_iff {s : Letters} {position : Nat} {t : Text} :
    toTextFrom position s = .ok t ↔ s = ofText t := by
  induction s generalizing position t with
  | nil => cases t <;> simp [toTextFrom, ofText]
  | cons a s ih =>
    cases a with
    | half n => cases t <;> simp [toTextFrom, ofText]
    | char c =>
      rw [toTextFrom]
      constructor
      · intro h
        rcases hrest : toTextFrom (position + 1) s with gap | u <;> rw [hrest] at h <;> cases h
        exact congrArg (Letter.char c :: ·) (ih.mp hrest)
      · intro h
        cases t <;> cases h
        rw [ih.mpr rfl]
        rfl

/-- **A string is a text iff it holds no half.** -/
theorem toText_eq_ok_iff {s : Letters} {t : Text} : s.toText = .ok t ↔ s = ofText t :=
  toTextFrom_eq_ok_iff

theorem toText_ofText (t : Text) : (ofText t).toText = .ok t := toText_eq_ok_iff.mpr rfl

theorem plain_ofText (t : Text) : (ofText t).plain = t := by
  simp only [plain, ofText, List.map_map]
  exact List.map_id t

theorem quoted_ofText (t : Text) : (ofText t).quoted = t.quoted := by
  rw [quoted, plain_ofText, ofText, List.flatMap_map]
  rfl

end Letters

end CoreAudit
