import CoreAudit.Benchmark
import CoreAudit.Proofs.Script.Automaton

/-!
# Written scripts

The other side of `Script.commands`: a script as it is written. A `Token` is an atom, white space,
a string literal, a quoted symbol or a comment; an `Expression` is a token or a parenthesised list
of expressions, nested to any depth; a `Written` script is a list of expressions, of which the
lists are its commands and the tokens stand between them, and perhaps a last comment that no line
end closes.

`Reads` says where the scanner is after a text and which commands the text completed. Every part
of a script is read by itself: a token leaves the scanner where it was (`reads_token`), and so does
an expression inside a list (`reads_inside`); a list outside all others completes itself
(`reads_outside`).

Headline: **`Written.commands_text`**: the commands of a written script are the lists that were
written, in order, and nothing is left open.
-/

namespace CoreAudit.Script

/-! ## What is written -/

/-- The content of a literal with every quote written twice. -/
def escape (content : Text) : Text := content.flatMap fun c => if c = '"' then ['"', '"'] else [c]

/-- A token of a script, or what may stand between two tokens. -/
inductive Token where
  | atom (name : Text) (nonempty : name ≠ []) (plain : ∀ c ∈ name, isNameChar c = true)
  | space (blanks : Text) (nonempty : blanks ≠ []) (blank : ∀ c ∈ blanks, Text.isSpace c = true)
  /-- A string literal, known by its content. -/
  | literal (content : Text)
  /-- A symbol between bars. -/
  | quoted (name : Text) (barless : '|' ∉ name)
  /-- A comment, known by what stands between its semicolon and its line end. -/
  | comment (remark : Text) (oneLine : '\n' ∉ remark)

/-- The text of a token. -/
def Token.text : Token → Text
  | atom name _ _ => name
  | space blanks _ _ => blanks
  | literal content => '"' :: escape content ++ ['"']
  | quoted name _ => '|' :: name ++ ['|']
  | comment remark _ => ';' :: remark ++ ['\n']

/-- A token, or a parenthesised list of expressions. -/
inductive Expression where
  | token (t : Token)
  | list (items : List Expression)

mutual

/-- The text of an expression. -/
def Expression.text : Expression → Text
  | .token t => t.text
  | .list items => '(' :: textOfAll items ++ [')']

/-- The texts of expressions, one after the other. -/
def textOfAll : List Expression → Text
  | [] => []
  | e :: es => e.text ++ textOfAll es

end

/-- The text of an expression that is a command: outside all others, every list is one. -/
def Expression.command? : Expression → Option Text
  | .token _ => none
  | .list items => some (Expression.list items).text

/-- A script as it is written. -/
structure Written where
  items : List Expression
  /-- A comment at the very end that no line end closes. -/
  remark : Option Text
  oneLine : ∀ r ∈ remark, '\n' ∉ r

namespace Written

/-- The text of a written script. -/
def text (w : Written) : Text := textOfAll w.items ++ (w.remark.map (';' :: ·)).getD []

/-- The texts of the commands that were written, in order. -/
def commands (w : Written) : List Text := w.items.filterMap Expression.command?

end Written

/-! ## Reading a part of a script -/

/-- From the state `s`, reading the text completes the commands `out` and ends in the state `s'`. -/
def Reads (s : Scanner) (t : Text) (out : List Text) (s' : Scanner) : Prop :=
  s.outputs t = out ∧ s.run t = s'

open Scanner

namespace Reads

theorem nil (s : Scanner) : Reads s [] [] s := ⟨rfl, rfl⟩

theorem append {s s' s'' : Scanner} {a b : Text} {x y : List Text} (ha : Reads s a x s')
    (hb : Reads s' b y s'') : Reads s (a ++ b) (x ++ y) s'' := by
  obtain ⟨rfl, rfl⟩ := ha
  obtain ⟨rfl, rfl⟩ := hb
  exact ⟨outputs_append s a b, run_append s a b⟩

theorem append_silent {s s' s'' : Scanner} {a b : Text} (ha : Reads s a [] s')
    (hb : Reads s' b [] s'') : Reads s (a ++ b) [] s'' := append ha hb

end Reads

/-- A character that is no parenthesis of the code is held. -/
theorem reads_char {mode : Mode} {c : Char} (h : mode = .code → c ≠ '(' ∧ c ≠ ')') (depth : Nat)
    (held : Text) :
    Reads ⟨mode, depth, held⟩ [c] [] ⟨mode.next c, depth, holding depth [c] held⟩ := by
  obtain ⟨hstep, hout⟩ := step_of_not_parenthesis (s := ⟨mode, depth, held⟩) h
  exact ⟨by rw [outputs_cons, hout]; rfl, hstep⟩

/-- Held text is added to. -/
theorem reads_char_holding {mode : Mode} {c : Char} (h : mode = .code → c ≠ '(' ∧ c ≠ ')')
    (depth : Nat) (t held : Text) :
    Reads ⟨mode, depth, holding depth t held⟩ [c] []
      ⟨mode.next c, depth, holding depth (t ++ [c]) held⟩ := by
  rw [← holding_append]
  exact reads_char h depth _

/-- Characters that neither change the mode nor are parentheses of the code are held. -/
theorem reads_interior {mode : Mode} {body : Text} (hnext : ∀ c ∈ body, mode.next c = mode)
    (hcode : ∀ c ∈ body, mode = .code → c ≠ '(' ∧ c ≠ ')') (depth : Nat) (t held : Text) :
    Reads ⟨mode, depth, holding depth t held⟩ body []
      ⟨mode, depth, holding depth (t ++ body) held⟩ := by
  induction body generalizing t with
  | nil => rw [List.append_nil]; exact Reads.nil _
  | cons c body ih =>
    have hc := reads_char_holding (hcode c List.mem_cons_self) depth t held
    rw [hnext c List.mem_cons_self] at hc
    have hrest := ih (fun d hd => hnext d (List.mem_cons_of_mem _ hd))
      (fun d hd => hcode d (List.mem_cons_of_mem _ hd)) (t ++ [c])
    rw [List.append_assoc, List.singleton_append] at hrest
    exact hc.append_silent hrest

/-- Inside a literal a quote that is written twice leaves it and enters it again. -/
theorem reads_escape (content : Text) (depth : Nat) (t held : Text) :
    Reads ⟨.literal, depth, holding depth t held⟩ (escape content) []
      ⟨.literal, depth, holding depth (t ++ escape content) held⟩ := by
  have hmode : Mode.literal ≠ .code := by decide
  induction content generalizing t with
  | nil => rw [escape, List.flatMap_nil, List.append_nil]; exact Reads.nil _
  | cons c content ih =>
    have hescape : escape (c :: content) =
        (if c = '"' then ['"', '"'] else [c]) ++ escape content := rfl
    have hfirst : Reads ⟨.literal, depth, holding depth t held⟩
        (if c = '"' then ['"', '"'] else [c]) []
        ⟨.literal, depth,
          holding depth (t ++ (if c = '"' then ['"', '"'] else [c])) held⟩ := by
      split
      · have hleave := reads_char_holding (c := '"') (fun h => absurd h hmode) depth t held
        have henter : Reads ⟨.code, depth, holding depth (t ++ ['"']) held⟩ ['"'] []
            ⟨.literal, depth, holding depth (t ++ ['"'] ++ ['"']) held⟩ :=
          reads_char_holding (fun _ => by decide) depth _ held
        rw [List.append_assoc] at henter
        exact hleave.append_silent henter
      · rename_i hc
        have hc' := reads_char_holding (c := c) (fun h => absurd h hmode) depth t held
        rw [Mode.next, if_neg hc] at hc'
        exact hc'
    rw [hescape, ← List.append_assoc]
    exact hfirst.append_silent (ih _)

/-- A text between an opening and a closing mark is held with its marks. -/
theorem reads_enclosed {mode : Mode} {first last : Char} {body : Text} {depth : Nat}
    {held : Text} (hfirst : Mode.code.next first = mode) (hopen : first ≠ '(' ∧ first ≠ ')')
    (hlast : mode.next last = .code) (hmode : mode ≠ .code)
    (hbody : Reads ⟨mode, depth, holding depth [first] held⟩ body []
      ⟨mode, depth, holding depth ([first] ++ body) held⟩) :
    Reads ⟨.code, depth, held⟩ (first :: body ++ [last]) []
      ⟨.code, depth, holding depth (first :: body ++ [last]) held⟩ := by
  have henter : Reads ⟨.code, depth, held⟩ [first] []
      ⟨Mode.code.next first, depth, holding depth [first] held⟩ :=
    reads_char (fun _ => hopen) depth held
  have hleave := reads_char_holding (c := last) (fun h => absurd h hmode) depth
    ([first] ++ body) held
  rw [hfirst] at henter
  rw [hlast] at hleave
  exact (henter.append_silent hbody).append_silent hleave

/-! ## Reading a whole script -/

/-- The characters of an atom and of white space are neither marks nor parentheses. -/
theorem code_of_plain {c : Char}
    (h : c ≠ '(' ∧ c ≠ ')' ∧ c ≠ ';' ∧ c ≠ '"' ∧ c ≠ '|') :
    Mode.code.next c = .code ∧ (Mode.code = .code → c ≠ '(' ∧ c ≠ ')') := by
  obtain ⟨hopen, hclose, hsemi, hquote, hbar⟩ := h
  exact ⟨by rw [Mode.next, if_neg hsemi, if_neg hquote, if_neg hbar], fun _ => ⟨hopen, hclose⟩⟩

theorem plain_of_isNameChar {c : Char} (h : isNameChar c = true) :
    c ≠ '(' ∧ c ≠ ')' ∧ c ≠ ';' ∧ c ≠ '"' ∧ c ≠ '|' := by
  refine ⟨?_, ?_, ?_, ?_, ?_⟩ <;> (rintro rfl; exact absurd h (by decide))

theorem plain_of_isBlank {c : Char} (h : Text.isBlank c = true) :
    c ≠ '(' ∧ c ≠ ')' ∧ c ≠ ';' ∧ c ≠ '"' ∧ c ≠ '|' := by
  refine ⟨?_, ?_, ?_, ?_, ?_⟩ <;> (rintro rfl; exact absurd h (by decide))

theorem plain_of_isSpace {c : Char} (h : Text.isSpace c = true) :
    c ≠ '(' ∧ c ≠ ')' ∧ c ≠ ';' ∧ c ≠ '"' ∧ c ≠ '|' :=
  plain_of_isBlank (Text.isBlank_of_isSpace h)

theorem holding_nil {depth : Nat} {held : Text} (h : depth = 0 → held = []) :
    holding depth [] held = held := by
  unfold holding
  split
  · rename_i hdepth
    exact (h hdepth).symm
  · rfl

/-- Characters that are neither marks nor parentheses are held. -/
theorem reads_plain {t : Text}
    (h : ∀ c ∈ t, c ≠ '(' ∧ c ≠ ')' ∧ c ≠ ';' ∧ c ≠ '"' ∧ c ≠ '|') {depth : Nat} {held : Text}
    (hheld : depth = 0 → held = []) :
    Reads ⟨.code, depth, held⟩ t [] ⟨.code, depth, holding depth t held⟩ := by
  have hread := reads_interior (fun c hc => (code_of_plain (h c hc)).1)
    (fun c hc => (code_of_plain (h c hc)).2) depth [] held
  rw [holding_nil hheld, List.nil_append] at hread
  exact hread

/-- Inside a comment or a quoted symbol everything but its closing mark is held. -/
theorem reads_until {mode : Mode} {mark : Char} {body : Text} (hmode : mode ≠ .code)
    (hnext : ∀ c, mode.next c = if c = mark then .code else mode) (hmark : mark ∉ body)
    (depth : Nat) (t held : Text) :
    Reads ⟨mode, depth, holding depth t held⟩ body []
      ⟨mode, depth, holding depth (t ++ body) held⟩ := by
  refine reads_interior (fun c hc => ?_) (fun _ _ h => absurd h hmode) depth t held
  have hc : c ≠ mark := fun h => hmark (h ▸ hc)
  rw [hnext, if_neg hc]

/-- **A token completes no command, and after it the scanner is in the code again.** -/
theorem reads_token (t : Token) {depth : Nat} {held : Text} (hheld : depth = 0 → held = []) :
    Reads ⟨.code, depth, held⟩ t.text [] ⟨.code, depth, holding depth t.text held⟩ := by
  cases t with
  | atom name _ plain => exact reads_plain (fun c hc => plain_of_isNameChar (plain c hc)) hheld
  | space blanks _ blank => exact reads_plain (fun c hc => plain_of_isSpace (blank c hc)) hheld
  | literal content =>
    exact reads_enclosed rfl (by decide) rfl (by decide) (reads_escape content depth ['"'] held)
  | quoted name barless =>
    have hmode : Mode.quoted ≠ .code := by decide
    exact reads_enclosed rfl (by decide) rfl hmode
      (reads_until hmode (fun _ => rfl) barless depth ['|'] held)
  | comment remark oneLine =>
    have hmode : Mode.comment ≠ .code := by decide
    exact reads_enclosed rfl (by decide) rfl hmode
      (reads_until hmode (fun _ => rfl) oneLine depth [';'] held)

theorem reads_opening (depth : Nat) (held : Text) :
    Reads ⟨.code, depth, held⟩ ['('] [] ⟨.code, depth + 1, '(' :: held⟩ := ⟨rfl, rfl⟩

theorem reads_closing (depth : Nat) (held : Text) :
    Reads ⟨.code, depth + 2, held⟩ [')'] [] ⟨.code, depth + 1, ')' :: held⟩ := by
  have hopen : ¬ (Mode.code = .code ∧ ')' = '(') := by decide
  have hdepth : ¬ depth + 2 ≤ 1 := by omega
  refine ⟨rfl, ?_⟩
  rw [run_cons, run_nil, step, if_neg hopen, if_pos ⟨rfl, rfl⟩, if_neg hdepth]
  rfl

theorem reads_last (held : Text) :
    Reads ⟨.code, 1, held⟩ [')'] [(')' :: held).reverse] Scanner.start := ⟨rfl, rfl⟩

mutual

/-- **Inside a list an expression is held and completes no command.** -/
theorem reads_inside (e : Expression) (depth : Nat) (held : Text) :
    Reads ⟨.code, depth + 1, held⟩ e.text [] ⟨.code, depth + 1, e.text.reverse ++ held⟩ := by
  cases e with
  | token t => exact reads_token t (fun h => absurd h (Nat.succ_ne_zero depth))
  | list items =>
    have hopen := reads_opening (depth + 1) held
    have hitems := reads_allInside items (depth + 1) ('(' :: held)
    have hclose := reads_closing depth ((textOfAll items).reverse ++ '(' :: held)
    have hread := (hopen.append_silent hitems).append_silent hclose
    have hheld : (Expression.list items).text.reverse ++ held =
        ')' :: ((textOfAll items).reverse ++ '(' :: held) := by
      simp [Expression.text]
    rw [hheld]
    exact hread

/-- Inside a list, expressions one after the other are held and complete no command. -/
theorem reads_allInside (items : List Expression) (depth : Nat) (held : Text) :
    Reads ⟨.code, depth + 1, held⟩ (textOfAll items) []
      ⟨.code, depth + 1, (textOfAll items).reverse ++ held⟩ := by
  cases items with
  | nil => exact Reads.nil _
  | cons e es =>
    have hfirst := reads_inside e depth held
    have hrest := reads_allInside es depth (e.text.reverse ++ held)
    rw [textOfAll, List.reverse_append, List.append_assoc]
    exact hfirst.append_silent hrest

end

/-- **Outside all lists a list completes itself, and nothing else does.** -/
theorem reads_outside (e : Expression) :
    Reads Scanner.start e.text e.command?.toList Scanner.start := by
  cases e with
  | token t => exact reads_token t (fun _ => rfl)
  | list items =>
    have hopen := reads_opening 0 []
    have hitems := reads_allInside items 0 ['(']
    have hclose := reads_last ((textOfAll items).reverse ++ ['('])
    have hread := (hopen.append_silent hitems).append hclose
    have htext : (')' :: ((textOfAll items).reverse ++ ['('])).reverse =
        (Expression.list items).text := by
      simp [Expression.text]
    rw [htext] at hread
    exact hread

/-- The expressions of a script complete its lists, in order. -/
theorem reads_all (items : List Expression) :
    Reads Scanner.start (textOfAll items) (items.filterMap Expression.command?)
      Scanner.start := by
  induction items with
  | nil => exact Reads.nil _
  | cons e es ih =>
    have hread := (reads_outside e).append ih
    have hcommands : (e :: es).filterMap Expression.command? =
        e.command?.toList ++ es.filterMap Expression.command? := by
      rw [List.filterMap_cons]
      cases e.command? <;> rfl
    rw [hcommands]
    exact hread

theorem reads_remark {remark : Text} (h : '\n' ∉ remark) :
    Reads Scanner.start (';' :: remark) [] ⟨.comment, 0, []⟩ := by
  have hmode : Mode.comment ≠ .code := by decide
  have henter : Reads Scanner.start [';'] [] ⟨.comment, 0, []⟩ := ⟨rfl, rfl⟩
  exact henter.append_silent (reads_until hmode (fun _ => rfl) h 0 [';'] [])

namespace Written

theorem reads_text (w : Written) :
    Scanner.start.outputs w.text = w.commands ∧ (Scanner.start.run w.text).depth = 0 := by
  obtain ⟨hout, hrun⟩ := reads_all w.items
  unfold text commands
  rw [outputs_append, run_append, hout, hrun]
  cases hremark : w.remark with
  | none => exact ⟨List.append_nil _, rfl⟩
  | some r =>
    obtain ⟨hnone, hend⟩ := reads_remark (w.oneLine r hremark)
    refine ⟨?_, ?_⟩
    · rw [Option.map_some, Option.getD_some, hnone, List.append_nil]
    · rw [Option.map_some, Option.getD_some, hend]

/-- **The commands of a written script are the lists that were written outside all others, in
order, and reading them warns of nothing.** -/
theorem commands_text (w : Written) (path : Option Text) :
    Script.commands w.text = w.commands ∧ (Benchmark.mk w.text path).records = [] := by
  obtain ⟨hcommands, hdepth⟩ := w.reads_text
  refine ⟨?_, ?_⟩
  · rw [commands_eq_scanner]
    exact hcommands
  · exact if_pos ((isBalanced_eq_scanner w.text).mpr hdepth)

end Written

end CoreAudit.Script
