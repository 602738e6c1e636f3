import CoreAudit.Script.Lexeme
import CoreAudit.Text.Blank

/-!
# Commands of a script

A command is a parenthesised part of a script that is inside no other. What stands between the
commands is passed over, and so is a closing parenthesis with nothing open. Of a command only its
name is read, and of `set-logic` the logic.

Models `iter_commands`, `command_name` and the pattern of `set-logic`.

* **`commands`**: the texts of the commands, in order.
* `head_of_mem_commands`: every command starts with a parenthesis.
* `isBalanced`: nothing is open at the end.
-/

namespace CoreAudit.Script

/-- The number of open parentheses after the lexemes. -/
def depthAfter (depth : Nat) : List Lexeme → Nat
  | [] => depth
  | .opening :: ls => depthAfter (depth + 1) ls
  | .closing :: ls => depthAfter (depth - 1) ls
  | _ :: ls => depthAfter depth ls

/-- The commands completed by the lexemes, where `depth` parentheses are open and `held` is the
command begun with the first of them, its last character first. -/
def commandsFrom (depth : Nat) (held : Text) : List Lexeme → List Text
  | [] => []
  | .opening :: ls => commandsFrom (depth + 1) ('(' :: held) ls
  | .closing :: ls =>
    match depth with
    | 0 => commandsFrom 0 [] ls
    | 1 => (')' :: held).reverse :: commandsFrom 0 [] ls
    | d + 2 => commandsFrom (d + 1) (')' :: held) ls
  | l :: ls => commandsFrom depth (if depth = 0 then [] else l.text.reverse ++ held) ls

/-- The texts of the commands of a script, in order. -/
def commands (t : Text) : List Text := commandsFrom 0 [] (Lexeme.ofText t)

/-- No parenthesis is open at the end of the script. -/
def isBalanced (t : Text) : Bool := depthAfter 0 (Lexeme.ofText t) == 0

/-- A command begun is a parenthesis and what follows it. -/
def Begun (depth : Nat) (held : Text) : Prop :=
  (depth = 0 ∧ held = []) ∨ (0 < depth ∧ held.getLast? = some '(')

/-- Every command starts with a parenthesis. -/
theorem head_of_mem_commandsFrom {depth : Nat} {held : Text} (hb : Begun depth held)
    (ls : List Lexeme) : ∀ c ∈ commandsFrom depth held ls, c.head? = some '(' := by
  induction ls generalizing depth held with
  | nil => simp [commandsFrom]
  | cons l ls ih =>
    have hother (hd : 0 < depth) (h : held.getLast? = some '(') (u : Text) :
        Begun depth (u ++ held) :=
      Or.inr ⟨hd, by rw [List.getLast?_append, h]; rfl⟩
    have hstep : ∀ c ∈ commandsFrom depth
        (if depth = 0 then [] else l.text.reverse ++ held) ls, c.head? = some '(' := by
      refine ih ?_
      rcases hb with ⟨rfl, rfl⟩ | ⟨hd, h⟩
      · exact Or.inl ⟨rfl, rfl⟩
      · rw [if_neg (by omega)]; exact hother hd h _
    cases l with
    | opening =>
      refine ih (Or.inr ⟨Nat.succ_pos _, ?_⟩)
      rcases hb with ⟨rfl, rfl⟩ | ⟨_, h⟩
      · rfl
      · simp [List.getLast?_cons, h]
    | closing =>
      rcases hb with ⟨rfl, rfl⟩ | ⟨hd, h⟩
      · exact ih (Or.inl ⟨rfl, rfl⟩)
      · match depth, hd with
        | 1, _ =>
          intro c hc
          rcases List.mem_cons.mp hc with rfl | hc
          · simp [h]
          · exact ih (Or.inl ⟨rfl, rfl⟩) c hc
        | d + 2, _ =>
          exact ih (Or.inr ⟨Nat.succ_pos _, by simp [List.getLast?_cons, h]⟩)
    | comment | literal | quoted | other => exact hstep

/-- Every command starts with a parenthesis. -/
theorem head_of_mem_commands {t c : Text} (h : c ∈ commands t) : c.head? = some '(' :=
  head_of_mem_commandsFrom (Or.inl ⟨rfl, rfl⟩) _ c h

/-! ## Names -/

/-- The character can stand in a command's name. -/
def isNameChar (c : Char) : Bool :=
  !Text.isSpace c && c != '(' && c != ')' && c != '"' && c != '|' && c != ';'

/-- The name of a command: the characters after its parenthesis and white space. -/
def commandName? : Text → Option Text
  | '(' :: t =>
    let name := (t.dropWhile Text.isSpace).takeWhile isNameChar
    if name.isEmpty then none else some name
  | _ => none

/-- The character can stand in the name of a logic. -/
def isLogicChar (c : Char) : Bool := !Text.isSpace c && c != '(' && c != ')' && c != '|'

/-- The text after a bar, if it starts with one. -/
def dropBar : Text → Text
  | '|' :: t => t
  | t => t

/-- The text after `set-logic`, with the white space after it dropped; there must be some. -/
def afterSetLogic? : Text → Option Text
  | '(' :: t =>
    let keyword := "set-logic".toList
    let t := t.dropWhile Text.isSpace
    let rest := t.drop keyword.length
    if keyword.isPrefixOf t && rest.head?.any Text.isSpace then
      some (rest.dropWhile Text.isSpace)
    else none
  | _ => none

/-- The logic that a `set-logic` command declares, with or without bars around it. A command that
is written otherwise declares none. -/
def declaredLogic? (command : Text) : Option Text := do
  let t := dropBar (← afterSetLogic? command)
  let logic := t.takeWhile isLogicChar
  let rest := (dropBar (t.dropWhile isLogicChar)).dropWhile Text.isSpace
  if logic.isEmpty || rest.head? != some ')' then none else some logic

end CoreAudit.Script
