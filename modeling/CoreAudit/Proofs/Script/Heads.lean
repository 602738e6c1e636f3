import CoreAudit.Proofs.Script.Comments

/-!
# Scripts by the heads of their commands

What is read of a script depends on the heads of its commands, and on one name in a `set-logic`. An
`Outline` is a script that is written with this in view: every command (`Headed`) is a head with
white space at most in front of it, and a body that starts with white space if there is one at all;
of a `set-logic` the body is the name of a logic, with or without bars. Everything else may be
anything: a body may hold lists, literals, quoted symbols and comments of any content, and between
the commands there may be white space and comments.

An outline is a written script (`Outline.toWritten`), so its commands are found; the head of each is
read off its text (`Headed.commandName?_text`), and so is the logic (`Headed.logicOf?_text`).

Headline: **`Outline.facts_text`**: the assertions of a script are the heads that say `assert`, and
its logic is the name in the first `set-logic`.
-/

namespace CoreAudit.Script

/-- White space, possibly none. -/
structure Blanks where
  text : Text
  blank : ∀ c ∈ text, Text.isSpace c = true

/-- Characters that can stand in the name of a command, at least one. -/
structure Name where
  text : Text
  nonempty : text ≠ []
  plain : ∀ c ∈ text, isNameChar c = true

/-- A command by its head. -/
inductive Headed where
  /-- A `set-logic` with the name of a logic, with or without bars around it. -/
  | declaration (front gap : Blanks) (apart : gap.text ≠ []) (logic : Name) (barred : Bool)
      (back : Blanks)
  /-- Any other command. -/
  | other (front : Blanks) (head : Name) (named : head.text ≠ "set-logic".toList)
      (body : List Expression) (apart : ∀ e ∈ body.head?, e.isSpace = true)

namespace Headed

/-- The white space in front of the head. -/
def front : Headed → Blanks
  | declaration front .. | other front .. => front

/-- The head. -/
def head : Headed → Text
  | declaration .. => "set-logic".toList
  | other _ head .. => head.text

/-- A bar, where there are bars. -/
def bar (barred : Bool) : Text := if barred then ['|'] else []

/-- The text behind the head. -/
def body : Headed → Text
  | declaration _ gap _ logic barred back =>
    gap.text ++ (bar barred ++ (logic.text ++ (bar barred ++ back.text)))
  | other _ _ _ body _ => textOfAll body

/-- The text of a command. -/
def text (c : Headed) : Text := '(' :: (c.front.text ++ (c.head ++ (c.body ++ [')'])))

/-- The logic that a command names. -/
def logic? : Headed → Option Text
  | declaration _ _ _ logic _ _ => some logic.text
  | other .. => none

end Headed

/-- A part of a script: a command, or what may stand between two commands. -/
inductive Part where
  | space (blanks : Blanks)
  | comment (remark : Text) (oneLine : '\n' ∉ remark)
  | command (c : Headed)

namespace Part

/-- The text of a part. -/
def text : Part → Text
  | space blanks => blanks.text
  | comment remark _ => ';' :: remark ++ ['\n']
  | command c => c.text

/-- The part as a command. -/
def command? : Part → Option Headed
  | command c => some c
  | space _ | comment .. => none

end Part

/-- A script by its commands and what stands between them. -/
structure Outline where
  parts : List Part
  /-- A comment at the very end that no line end closes. -/
  remark : Option Text
  oneLine : ∀ r ∈ remark, '\n' ∉ r

namespace Outline

/-- The text of a script. -/
def text (o : Outline) : Text := o.parts.flatMap Part.text ++ (o.remark.map (';' :: ·)).getD []

/-- The commands of a script, in order. -/
def commands (o : Outline) : List Headed := o.parts.filterMap Part.command?

end Outline

/-! ## Reading the head of a command -/

theorem isLogicChar_of_isNameChar {c : Char} (h : isNameChar c = true) : isLogicChar c = true := by
  simp only [isNameChar, Bool.and_eq_true] at h
  simp only [isLogicChar, Bool.and_eq_true]
  exact ⟨h.1.1.1, h.1.2⟩

theorem stops_blanks {gap rest : Text} (hblank : ∀ c ∈ gap, Text.isSpace c = true)
    (hgap : gap ≠ []) : (gap ++ rest).takeWhile isNameChar = [] := by
  obtain ⟨c, gap, rfl⟩ := List.exists_cons_of_ne_nil hgap
  have hc : isNameChar c = false := by simp [isNameChar, hblank c List.mem_cons_self]
  simp [hc]

namespace Headed

variable (c : Headed)

theorem head_plain : c.head ≠ [] ∧ ∀ d ∈ c.head, isNameChar d = true := by
  cases c with
  | declaration =>
    have hkeyword : "set-logic".toList ≠ [] ∧ "set-logic".toList.all isNameChar = true := by decide
    exact ⟨hkeyword.1, List.all_eq_true.mp hkeyword.2⟩
  | other _ head => exact ⟨head.nonempty, head.plain⟩

theorem stops_body : (c.body ++ [')']).takeWhile isNameChar = [] := by
  cases c with
  | declaration front gap apart logic barred back =>
    unfold body
    rw [List.append_assoc]
    exact stops_blanks gap.blank apart
  | other front head named body apart =>
    refine stops_name fun e he => ?_
    have hspace := apart e he
    cases e with
    | list items => cases hspace
    | token t => cases t <;> first | rfl | cases hspace

/-- **The name that is read of a command is its head.** -/
theorem commandName?_text : commandName? c.text = some c.head := by
  obtain ⟨hnonempty, hplain⟩ := c.head_plain
  have hdrop : (c.front.text ++ (c.head ++ (c.body ++ [')']))).dropWhile Text.isSpace =
      c.head ++ (c.body ++ [')']) := by
    refine dropWhile_exact c.front.blank fun d hd => ?_
    obtain ⟨e, rest, hhead⟩ := List.exists_cons_of_ne_nil hnonempty
    rw [hhead] at hd hplain
    cases hd
    exact not_isSpace_of_isLogicChar (isLogicChar_of_isNameChar (hplain d List.mem_cons_self))
  have htake : (c.head ++ (c.body ++ [')'])).takeWhile isNameChar = c.head := by
    rw [List.takeWhile_append_of_pos hplain, c.stops_body, List.append_nil]
  simp [text, commandName?, hdrop, htake, hnonempty]

/-- **The logic that is read of a command is the one it names.** -/
theorem logicOf?_text : Benchmark.logicOf? c.text = c.logic? := by
  unfold Benchmark.logicOf?
  rw [c.commandName?_text]
  cases c with
  | declaration front gap apart logic barred back =>
    have hbar : bar barred = [] ∨ bar barred = ['|'] := by
      cases barred
      · exact Or.inl rfl
      · exact Or.inr rfl
    have hlogic : ∀ d ∈ logic.text, isLogicChar d = true := fun d hd =>
      isLogicChar_of_isNameChar (logic.plain d hd)
    have hbody : (declaration front gap apart logic barred back).body ++ [')'] =
        gap.text ++ (bar barred ++ (logic.text ++ (bar barred ++ (back.text ++ [')'])))) := by
      simp only [body, List.append_assoc]
    refine (if_pos (beq_self_eq_true _)).trans ?_
    rw [text, hbody]
    exact declaredLogic?_written front.blank gap.blank apart back.blank hbar hlogic logic.nonempty
  | other front head named body apart =>
    have hnamed : ¬ (some head.text == some "set-logic".toList) = true := by
      rw [beq_iff_eq, Option.some.injEq]
      exact named
    exact if_neg hnamed

theorem isAssertion_text : Benchmark.isAssertion c.text = (c.head == "assert".toList) := by
  rw [Benchmark.isAssertion, c.commandName?_text]
  rfl

end Headed

/-! ## An outline as a written script -/

/-- White space as expressions: none where there is none. -/
def Blanks.items (blanks : Blanks) : List Expression :=
  if nonempty : blanks.text = [] then [] else [.token (.space blanks.text nonempty blanks.blank)]

theorem Blanks.textOfAll_items (blanks : Blanks) : textOfAll blanks.items = blanks.text := by
  unfold items
  split
  · rename_i hempty
    exact hempty.symm
  · exact List.append_nil _

theorem Name.barless (name : Name) : '|' ∉ name.text := fun h =>
  absurd (name.plain _ h) (by decide)

/-- The name as a symbol, with or without bars. -/
def Name.symbol (name : Name) (barred : Bool) : Token :=
  if barred then .quoted name.text name.barless else .atom name.text name.nonempty name.plain

theorem Name.text_symbol (name : Name) (barred : Bool) :
    (name.symbol barred).text = Headed.bar barred ++ (name.text ++ Headed.bar barred) := by
  cases barred with
  | false => exact (List.append_nil _).symm
  | true => rfl

namespace Headed

/-- The expressions in the body of a command. -/
def bodyItems : Headed → List Expression
  | declaration _ gap _ logic barred back =>
    gap.items ++ .token (logic.symbol barred) :: back.items
  | other _ _ _ body _ => body

theorem textOfAll_bodyItems (c : Headed) : textOfAll c.bodyItems = c.body := by
  cases c with
  | declaration front gap apart logic barred back =>
    rw [bodyItems, textOfAll_append, gap.textOfAll_items, textOfAll, back.textOfAll_items,
      Expression.text, logic.text_symbol, List.append_assoc, List.append_assoc]
    rfl
  | other => rfl

/-- The expressions of a command. -/
def items (c : Headed) : List Expression :=
  c.front.items ++ .token (.atom c.head c.head_plain.1 c.head_plain.2) :: c.bodyItems

theorem text_items (c : Headed) : (Expression.list c.items).text = c.text := by
  rw [Expression.text, items, textOfAll_append, c.front.textOfAll_items, textOfAll,
    c.textOfAll_bodyItems, text, List.cons_append, List.append_assoc, List.append_assoc]
  rfl

end Headed

namespace Part

/-- The expressions of a part. -/
def items : Part → List Expression
  | space blanks => blanks.items
  | comment remark oneLine => [.token (.comment remark oneLine)]
  | command c => [.list c.items]

theorem textOfAll_items (p : Part) : textOfAll p.items = p.text := by
  cases p with
  | space blanks => exact blanks.textOfAll_items
  | comment remark oneLine => exact List.append_nil _
  | command c => exact (List.append_nil _).trans c.text_items

theorem command?_items (p : Part) :
    p.items.filterMap Expression.command? = (p.command?.map Headed.text).toList := by
  cases p with
  | space blanks =>
    show blanks.items.filterMap Expression.command? = []
    unfold Blanks.items
    split <;> rfl
  | comment remark oneLine => rfl
  | command c => exact congrArg (fun t => [t]) c.text_items

end Part

namespace Outline

/-- The outline as a written script. -/
def toWritten (o : Outline) : Written := ⟨o.parts.flatMap Part.items, o.remark, o.oneLine⟩

theorem text_toWritten (o : Outline) : o.toWritten.text = o.text := by
  have hparts : ∀ parts : List Part,
      textOfAll (parts.flatMap Part.items) = parts.flatMap Part.text := by
    intro parts
    induction parts with
    | nil => rfl
    | cons p parts ih =>
      rw [List.flatMap_cons, List.flatMap_cons, textOfAll_append, p.textOfAll_items, ih]
  exact congrArg (· ++ _) (hparts o.parts)

theorem commands_toWritten (o : Outline) :
    o.toWritten.items.filterMap Expression.command? = o.commands.map Headed.text := by
  show (o.parts.flatMap Part.items).filterMap Expression.command? =
    (o.parts.filterMap Part.command?).map Headed.text
  induction o.parts with
  | nil => rfl
  | cons p parts ih =>
    rw [List.flatMap_cons, List.filterMap_append, p.command?_items, ih, List.filterMap_cons]
    cases p.command? <;> rfl

/-- The facts of an outline are those of its commands. -/
theorem facts_text (o : Outline) (path : Option Text) :
    (Benchmark.mk o.text path).facts =
      ⟨(o.commands.map Headed.head).count "assert".toList, o.commands.findSome? Headed.logic?⟩ := by
  have hcount : (o.commands.map Headed.text).countP Benchmark.isAssertion =
      (o.commands.map Headed.head).count "assert".toList := by
    rw [List.countP_map, List.count, List.countP_map]
    exact List.countP_congr fun c _ => by simp [c.isAssertion_text]
  have hlogic : (o.commands.map Headed.text).findSome? Benchmark.logicOf? =
      o.commands.findSome? Headed.logic? := by
    rw [List.findSome?_map]
    exact congrArg (o.commands.findSome? ·) (funext Headed.logicOf?_text)
  rw [← o.text_toWritten, Script.facts_text, o.commands_toWritten, Benchmark.factsOf, hcount,
    hlogic]

/-- **Only the heads count, and the names in the `set-logic`s.** Of a script that is written in
outline the assertions are the commands whose head says `assert`, and the logic is the name in the
first `set-logic`; without any it is the fault that there is none. -/
theorem facts_by_heads (o : Outline) (path : Option Text) :
    (Benchmark.mk o.text path).assertCount =
        (o.commands.map Headed.head).count "assert".toList ∧
      (Benchmark.mk o.text path).logic =
        match o.commands.findSome? Headed.logic? with
        | some logic => .ok logic
        | none =>
          .error (.missingLogic
            (if (path.getD []).isEmpty then "benchmark".toList else path.getD [])) := by
  have hfacts := o.facts_text path
  refine ⟨congrArg Benchmark.Facts.assertCount hfacts, ?_⟩
  unfold Benchmark.logic
  cases hfirst : o.commands.findSome? Headed.logic? with
  | none => simp only [hfacts, hfirst]
  | some logic => simp only [hfacts, hfirst]

/-- What a body or another head holds is not counted. -/
example : (Benchmark.mk
    "(assert-soft p)( assert\n(f \"(assert\" |)(set-logic| ; (assert\n))".toList none).assertCount =
      1 := by decide +kernel

end Outline

end CoreAudit.Script
