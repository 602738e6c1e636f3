import CoreAudit.Script.Command

/-!
# Scanning a script one character at a time

`Script.commands` divides a script into lexemes and takes whole comments, literals and quoted
symbols at a time. `Scanner` reads the same script one character at a time: it is inside a
comment, a literal, a quoted symbol or none of them (`Mode`), some parentheses are open, and the
text of the command begun is held. A quote only ever switches between code and literal, so a
quote written twice inside a literal leaves the literal and enters it again.

Headlines:
* **`commands_eq_scanner`**: the commands of a script are those that the scanner completes.
* **`isBalanced_eq_scanner`**: a script is balanced iff the scanner ends with nothing open.
* `run_append`, `outputs_append`: the scanner goes on where it stopped.
* `move`: all that a character can do to a scanner, one case for each.
-/

namespace CoreAudit.Script

/-- What a scanner is inside of. -/
inductive Mode where
  | code
  | comment
  | literal
  | quoted
  deriving Repr, DecidableEq

/-- The mode after a character. -/
def Mode.next : Mode → Char → Mode
  | .code, c =>
    if c = ';' then .comment else if c = '"' then .literal else if c = '|' then .quoted else .code
  | .comment, c => if c = '\n' then .code else .comment
  | .literal, c => if c = '"' then .code else .literal
  | .quoted, c => if c = '|' then .code else .quoted

/-- A scanner: its mode, the number of open parentheses, and the text of the command begun, its
last character first. -/
structure Scanner where
  mode : Mode
  depth : Nat
  held : Text
  deriving Repr, DecidableEq

namespace Scanner

/-- Nothing is read. -/
def start : Scanner := ⟨.code, 0, []⟩

/-- The held text after more text, none of it a parenthesis of the code: only the text of a
command begun is held. -/
def holding (depth : Nat) (t held : Text) : Text := if depth = 0 then [] else t.reverse ++ held

/-- The scanner after a character. -/
def step (s : Scanner) (c : Char) : Scanner :=
  if s.mode = .code ∧ c = '(' then ⟨.code, s.depth + 1, '(' :: s.held⟩
  else if s.mode = .code ∧ c = ')' then
    ⟨.code, s.depth - 1, if s.depth ≤ 1 then [] else ')' :: s.held⟩
  else ⟨s.mode.next c, s.depth, holding s.depth [c] s.held⟩

/-- The command that a character completes: the parenthesis that closes the last open one. -/
def output? (s : Scanner) (c : Char) : Option Text :=
  if s.mode = .code ∧ c = ')' ∧ s.depth = 1 then some (')' :: s.held).reverse else none

/-- The scanner after a text. -/
def run (s : Scanner) (t : Text) : Scanner := t.foldl step s

/-- The commands that a text completes, in order. -/
def outputs (s : Scanner) : Text → List Text
  | [] => []
  | c :: t => (s.output? c).toList ++ (s.step c).outputs t

@[simp] theorem run_nil (s : Scanner) : s.run [] = s := rfl

@[simp] theorem run_cons (s : Scanner) (c : Char) (t : Text) :
    s.run (c :: t) = (s.step c).run t := rfl

@[simp] theorem outputs_cons (s : Scanner) (c : Char) (t : Text) :
    s.outputs (c :: t) = (s.output? c).toList ++ (s.step c).outputs t := rfl

/-- The scanner goes on where it stopped. -/
theorem run_append (s : Scanner) (a b : Text) : s.run (a ++ b) = (s.run a).run b :=
  List.foldl_append

/-- The commands completed by a text followed by another. -/
theorem outputs_append (s : Scanner) (a b : Text) :
    s.outputs (a ++ b) = s.outputs a ++ (s.run a).outputs b := by
  induction a generalizing s with
  | nil => rfl
  | cons c a ih => rw [List.cons_append, outputs_cons, ih, outputs_cons, run_cons, List.append_assoc]

theorem mode_step (s : Scanner) (c : Char) : (s.step c).mode = s.mode.next c := by
  unfold step
  split
  · rename_i h
    rw [h.1, h.2]
    rfl
  · split
    · rename_i h
      rw [h.1, h.2]
      rfl
    · rfl

/-! ## Steps that open and close nothing -/

theorem holding_append (depth : Nat) (a b held : Text) :
    holding depth b (holding depth a held) = holding depth (a ++ b) held := by
  unfold holding
  split
  · rfl
  · rw [List.reverse_append, List.append_assoc]

/-- A character that is no parenthesis of the code is held and completes nothing. -/
theorem step_of_not_parenthesis {s : Scanner} {c : Char}
    (h : s.mode = .code → c ≠ '(' ∧ c ≠ ')') :
    s.step c = ⟨s.mode.next c, s.depth, holding s.depth [c] s.held⟩ ∧ s.output? c = none := by
  have hopen : ¬ (s.mode = .code ∧ c = '(') := fun hc => (h hc.1).1 hc.2
  have hclose : ¬ (s.mode = .code ∧ c = ')') := fun hc => (h hc.1).2 hc.2
  exact ⟨by rw [step, if_neg hopen, if_neg hclose], if_neg fun hc => hclose ⟨hc.1, hc.2.1⟩⟩

/-! ## All that a character can do -/

/-- What a character does to a scanner, and which command it completes. -/
inductive Move : Scanner → Char → Option Text → Scanner → Prop where
  | opens (depth : Nat) (held : Text) :
      Move ⟨.code, depth, held⟩ '(' none ⟨.code, depth + 1, '(' :: held⟩
  /-- With nothing open a closing parenthesis is passed over. -/
  | strays (held : Text) : Move ⟨.code, 0, held⟩ ')' none start
  | completes (held : Text) : Move ⟨.code, 1, held⟩ ')' (some (')' :: held).reverse) start
  | closes (depth : Nat) (held : Text) :
      Move ⟨.code, depth + 2, held⟩ ')' none ⟨.code, depth + 1, ')' :: held⟩
  | passes {mode : Mode} {c : Char} (h : mode = .code → c ≠ '(' ∧ c ≠ ')') (held : Text) :
      Move ⟨mode, 0, held⟩ c none ⟨mode.next c, 0, []⟩
  | holds {mode : Mode} {c : Char} (h : mode = .code → c ≠ '(' ∧ c ≠ ')') (depth : Nat)
      (held : Text) : Move ⟨mode, depth + 1, held⟩ c none ⟨mode.next c, depth + 1, c :: held⟩

/-- **Every step is one of these.** -/
theorem move (s : Scanner) (c : Char) : Move s c (s.output? c) (s.step c) := by
  obtain ⟨mode, depth, held⟩ := s
  by_cases hparenthesis : mode = .code ∧ (c = '(' ∨ c = ')')
  · obtain ⟨rfl, rfl | rfl⟩ := hparenthesis
    · exact .opens depth held
    · rcases depth with _ | _ | depth
      · exact .strays held
      · exact .completes held
      · exact .closes depth held
  · have hplain : mode = .code → c ≠ '(' ∧ c ≠ ')' := fun hmode =>
      not_or.mp fun h => hparenthesis ⟨hmode, h⟩
    obtain ⟨hstep, hout⟩ := step_of_not_parenthesis (s := ⟨mode, depth, held⟩) hplain
    rw [hstep, hout]
    rcases depth with _ | depth
    · exact .passes hplain held
    · exact .holds hplain depth held

theorem Move.idle {s s' : Scanner} {c : Char} {out : Option Text} (M : Move s c out s')
    (h : s'.depth = 0) : s'.held = [] := by
  cases M with
  | opens | closes | holds => cases h
  | strays | completes | passes => rfl

/-- What a scan comes to: the commands completed, and the number of parentheses left open. -/
def scan (s : Scanner) (t : Text) : List Text × Nat := (s.outputs t, (s.run t).depth)

theorem scan_of_not_parenthesis {s : Scanner} {c : Char}
    (h : s.mode = .code → c ≠ '(' ∧ c ≠ ')') (t : Text) :
    s.scan (c :: t) = scan ⟨s.mode.next c, s.depth, holding s.depth [c] s.held⟩ t := by
  obtain ⟨hstep, hout⟩ := step_of_not_parenthesis h
  rw [scan, outputs_cons, run_cons, hout, hstep]
  rfl

/-- Outside the code every character is held. -/
theorem scan_outside {mode : Mode} (hmode : mode ≠ .code) (depth : Nat) (held : Text) (c : Char)
    (t : Text) :
    scan ⟨mode, depth, held⟩ (c :: t) = scan ⟨mode.next c, depth, holding depth [c] held⟩ t :=
  scan_of_not_parenthesis (fun h => absurd h hmode) t

/-- Inside a comment or a quoted symbol everything up to the closing mark is held. -/
theorem scan_through {mode : Mode} {mark : Char} (hmode : mode ≠ .code)
    (hnext : ∀ c, mode.next c = if c = mark then .code else mode) (depth : Nat) (held t : Text) :
    scan ⟨mode, depth, held⟩ t =
      scan ⟨.code, depth, holding depth (Lexeme.through mark t).1 held⟩
        (Lexeme.through mark t).2 := by
  induction t generalizing held with
  | nil => rfl
  | cons c t ih =>
    rw [scan_outside hmode, hnext, Lexeme.through]
    split
    · rfl
    · rw [ih, holding_append]
      rfl

/-- Inside a literal everything up to the closing quote is held. -/
theorem scan_throughLiteral (depth : Nat) (held t : Text) :
    scan ⟨.literal, depth, held⟩ t =
      scan ⟨.code, depth, holding depth (Lexeme.throughLiteral t).1 held⟩
        (Lexeme.throughLiteral t).2 := by
  have hmode : Mode.literal ≠ .code := by decide
  fun_induction Lexeme.throughLiteral t generalizing held with
  | case1 => rfl
  | case2 t ih =>
    -- the first quote leaves the literal and the second enters it again
    have henter : scan ⟨.code, depth, holding depth ['"'] held⟩ ('"' :: t) =
        scan ⟨.literal, depth, holding depth ['"'] (holding depth ['"'] held)⟩ t :=
      scan_of_not_parenthesis (fun _ => by decide) t
    rw [scan_outside hmode]
    refine henter.trans ?_
    rw [ih, holding_append, holding_append]
    rfl
  | case3 t => exact scan_outside hmode depth held _ t
  | case4 c t _ hc ih =>
    rw [scan_outside hmode, Mode.next, if_neg hc, ih, holding_append]
    rfl

end Scanner

/-! ## The scanner and the lexemes -/

open Scanner

/-- A lexeme that is no parenthesis is held. -/
theorem commandsFrom_cons_of_held {l : Lexeme} (hopen : l ≠ .opening) (hclose : l ≠ .closing)
    (depth : Nat) (held : Text) (ls : List Lexeme) :
    (commandsFrom depth held (l :: ls), depthAfter depth (l :: ls)) =
      (commandsFrom depth (holding depth l.text held) ls, depthAfter depth ls) := by
  cases l with
  | opening => exact absurd rfl hopen
  | closing => exact absurd rfl hclose
  | comment | literal | quoted | other => rfl

/-- **From every state of the code, the scanner completes the commands that the lexemes complete,
and leaves as many parentheses open.** -/
theorem scan_eq_lexemes (depth : Nat) (held t : Text) :
    scan ⟨.code, depth, held⟩ t =
      (commandsFrom depth held (Lexeme.ofText t), depthAfter depth (Lexeme.ofText t)) := by
  fun_induction Lexeme.ofText t generalizing depth held with
  | case1 => rfl
  | case2 t ih => exact ih (depth + 1) ('(' :: held)
  | case3 t _ ih =>
    rcases depth with _ | _ | d
    · exact ih 0 []
    · have h := Prod.mk.inj (ih 0 [])
      exact Prod.ext (congrArg ((')' :: held).reverse :: ·) h.1) h.2
    · exact ih (d + 1) (')' :: held)
  | case4 t _ _ ih =>
    rw [commandsFrom_cons_of_held (by simp) (by simp), ← ih,
      scan_of_not_parenthesis fun _ => by decide]
    have hmode : Mode.comment ≠ .code := by decide
    refine (scan_through hmode (fun _ => rfl) _ _ t).trans ?_
    rw [holding_append]
    rfl
  | case5 t _ _ _ ih =>
    rw [commandsFrom_cons_of_held (by simp) (by simp), ← ih,
      scan_of_not_parenthesis fun _ => by decide]
    refine (scan_throughLiteral _ _ t).trans ?_
    rw [holding_append]
    rfl
  | case6 t _ _ _ _ ih =>
    rw [commandsFrom_cons_of_held (by simp) (by simp), ← ih,
      scan_of_not_parenthesis fun _ => by decide]
    have hmode : Mode.quoted ≠ .code := by decide
    refine (scan_through hmode (fun _ => rfl) _ _ t).trans ?_
    rw [holding_append]
    rfl
  | case7 c t hopen hclose hsemi hquote hbar ih =>
    rw [commandsFrom_cons_of_held (by simp) (by simp), ← ih,
      scan_of_not_parenthesis fun _ => ⟨hopen, hclose⟩]
    simp only [Mode.next, if_neg hsemi, if_neg hquote, if_neg hbar]
    rfl

/-- **The commands of a script are those that the scanner completes.** -/
theorem commands_eq_scanner (t : Text) : commands t = Scanner.start.outputs t :=
  (congrArg Prod.fst (scan_eq_lexemes 0 [] t)).symm

/-- **A script is balanced iff the scanner ends with nothing open.** -/
theorem isBalanced_eq_scanner (t : Text) :
    isBalanced t = true ↔ (Scanner.start.run t).depth = 0 := by
  have h : (Scanner.start.run t).depth = depthAfter 0 (Lexeme.ofText t) :=
    congrArg Prod.snd (scan_eq_lexemes 0 [] t)
  rw [isBalanced, h, beq_iff_eq]

end CoreAudit.Script
