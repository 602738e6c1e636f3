import CoreAudit.Text.Printable

/-!
# Quoted texts

Messages show a text between quotes, so that its ends and its invisible characters can be seen.
Single quotes are used unless the text has single quotes and no double ones; the quote in use,
the backslash and every unprintable character are escaped.
-/

namespace CoreAudit.Text

/-- The lowest `digits` hexadecimal digits of a number. -/
def hexDigits (digits n : Nat) : Text :=
  match digits with
  | 0 => []
  | d + 1 => hexDigits d (n / 16) ++ [Nat.digitChar (n % 16)]

/-- A character between quotes of the kind `quote`. -/
def escape (quote c : Char) : Text :=
  if c = quote ∨ c = '\\' then ['\\', c]
  else if c = '\n' then ['\\', 'n']
  else if c = '\r' then ['\\', 'r']
  else if c = '\t' then ['\\', 't']
  else if isPrintable c then [c]
  else if c.toNat < 0x100 then '\\' :: 'x' :: hexDigits 2 c.toNat
  else if c.toNat < 0x10000 then '\\' :: 'u' :: hexDigits 4 c.toNat
  else '\\' :: 'U' :: hexDigits 8 c.toNat

/-- The quote that a text is put between. -/
def quoteFor (t : Text) : Char := if t.elem '\'' && !t.elem '"' then '"' else '\''

/-- The text between quotes. -/
def quoted (t : Text) : Text := quoteFor t :: t.flatMap (escape (quoteFor t)) ++ [quoteFor t]

/-- A list of texts, each between quotes. -/
def quotedList (ts : List Text) : Text := '[' :: joined [',', ' '] (ts.map quoted) ++ [']']

end CoreAudit.Text
