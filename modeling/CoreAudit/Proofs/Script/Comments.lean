import CoreAudit.Proofs.Script.Reading

/-!
# Comments between tokens

A comment may stand between any two tokens of a script (`Commented`): between commands, behind an
opening parenthesis, in front of a closing one, at any depth. The scanner passes over it, so that
the commands stay the same but for the comment in one of them. Reading that command passes over
white space alone: with a comment in front of its name a command has no name that can be read
(`InFront`), and with a comment anywhere in it a `set-logic` no longer declares its logic.
Everywhere else a comment changes nothing.

Headlines:
* **`leadingName_commented`**: a comment in front of the name hides it, any other leaves it.
* **`declaredLogic?_commented`**: a comment in a `set-logic` takes the logic away.
* **`facts_commented_iff`**: which comments change the facts of a script, and which do not.
-/

namespace CoreAudit.Script

/-- The items of every command are separated. -/
def Written.Separated (w : Written) : Prop :=
  ∀ items, .list items ∈ w.items → Script.Separated items

/-- A script declares at most one logic: of its commands at most one is a `set-logic`, and that is
written as one. -/
def Written.DeclaresOnce (w : Written) : Prop :=
  ∀ before xs after, w.items = before ++ .list xs :: after →
    leadingName xs = some "set-logic".toList →
      (∃ logic, Declares xs logic) ∧
        ∀ ys, .list ys ∈ before ++ after → leadingName ys ≠ some "set-logic".toList

/-! ## Putting a comment between tokens -/

section

variable {remark : Text} {oneLine : '\n' ∉ remark}

/-- A comment is put between two expressions, in front of the first or behind the last, or in the
same way inside one of them. -/
inductive Commented (remark : Text) (oneLine : '\n' ∉ remark) :
    List Expression → List Expression → Prop where
  | here (es : List Expression) : Commented remark oneLine es (.token (.comment remark oneLine) :: es)
  | within {xs ys : List Expression} (es : List Expression) (h : Commented remark oneLine xs ys) :
      Commented remark oneLine (.list xs :: es) (.list ys :: es)
  | later (e : Expression) {es es' : List Expression} (h : Commented remark oneLine es es') :
      Commented remark oneLine (e :: es) (e :: es')

/-- A comment is put where nothing but white space stands in front of it. -/
inductive InFront (remark : Text) (oneLine : '\n' ∉ remark) :
    List Expression → List Expression → Prop where
  | here (es : List Expression) : InFront remark oneLine es (.token (.comment remark oneLine) :: es)
  | later {e : Expression} (hspace : e.isSpace = true) {es es' : List Expression}
      (h : InFront remark oneLine es es') : InFront remark oneLine (e :: es) (e :: es')

variable {items items' : List Expression}

/-- **A comment in front of the name of a command hides it, and any other leaves it.** -/
theorem leadingName_commented (h : Commented remark oneLine items items') :
    InFront remark oneLine items items' ∨ leadingName items' = leadingName items := by
  induction h with
  | here es => exact Or.inl (.here es)
  | within es h ih => exact Or.inr rfl
  | later e h ih =>
    cases e with
    | list xs => exact Or.inr rfl
    | token t =>
      cases t with
      | space blanks nonempty blank =>
        rcases ih with hfront | hname
        · exact Or.inl (.later rfl hfront)
        · exact Or.inr hname
      | atom | literal | quoted | comment => exact Or.inr rfl

theorem leadingName_inFront (h : InFront remark oneLine items items') :
    leadingName items' = none := by
  induction h with
  | here es => rfl
  | later hspace h ih =>
    rename_i e _ _
    cases e with
    | list xs => cases hspace
    | token t =>
      cases t with
      | space => exact ih
      | atom | literal | quoted | comment => cases hspace

theorem isAtom_head (h : Commented remark oneLine items items') :
    ∀ e' ∈ items'.head?, e'.isAtom = true → ∃ e ∈ items.head?, e.isAtom = true := by
  intro e' he' hatom
  cases h with
  | here es =>
    cases he'
    cases hatom
  | within es h =>
    cases he'
    cases hatom
  | later e h =>
    cases he'
    exact ⟨e', rfl, hatom⟩

theorem Separated.commented (S : Separated items) (h : Commented remark oneLine items items') :
    Separated items' := by
  unfold Separated at S ⊢
  induction h with
  | here es =>
    refine List.isChain_cons.mpr ⟨fun _ _ hatom => ?_, S⟩
    cases hatom.1
  | within es h ih =>
    obtain ⟨_, hrest⟩ := List.isChain_cons.mp S
    refine List.isChain_cons.mpr ⟨fun _ _ hatom => ?_, hrest⟩
    cases hatom.1
  | later e h ih =>
    obtain ⟨hhead, hrest⟩ := List.isChain_cons.mp S
    refine List.isChain_cons.mpr ⟨fun e' he' hatom => ?_, ih hrest⟩
    obtain ⟨d, hd, hatom'⟩ := isAtom_head h e' he' hatom.2
    exact hhead d hd ⟨hatom.1, hatom'⟩

/-- A comment stands outside all commands, or in one of them. -/
theorem commented_cases (h : Commented remark oneLine items items') :
    items'.filterMap Expression.command? = items.filterMap Expression.command? ∨
      ∃ before xs ys after, items = before ++ .list xs :: after ∧
        items' = before ++ .list ys :: after ∧ Commented remark oneLine xs ys := by
  induction h with
  | here es => exact Or.inl rfl
  | within es h ih => exact Or.inr ⟨[], _, _, es, rfl, rfl, h⟩
  | later e h ih =>
    rcases ih with hsame | ⟨before, xs, ys, after, rfl, rfl, hinside⟩
    · exact Or.inl (by simp [List.filterMap_cons, hsame])
    · exact Or.inr ⟨e :: before, xs, ys, after, rfl, rfl, hinside⟩

end

/-! ## The facts of a script -/

section

variable {remark : Text} {oneLine : '\n' ∉ remark} {items items' xs ys : List Expression}

/-- Where no list is, a comment splits the expressions in two. -/
theorem exists_split_of_commented (h : Commented remark oneLine xs ys)
    (hplain : ')' ∉ textOfAll xs) :
    ∃ a b, xs = a ++ b ∧ ys = a ++ .token (.comment remark oneLine) :: b := by
  induction h with
  | here es => exact ⟨[], es, rfl, rfl⟩
  | within es h ih => exact absurd (by simp [textOfAll, Expression.text]) hplain
  | later e h ih =>
    obtain ⟨a, b, rfl, rfl⟩ := ih fun hmem => hplain (List.mem_append_right _ hmem)
    exact ⟨e :: a, b, rfl, rfl⟩

/-- **With a comment anywhere in it, a `set-logic` no longer declares its logic.** -/
theorem declaredLogic?_commented {logic : Text} (h : Declares xs logic)
    (hcomment : Commented remark oneLine xs ys) :
    declaredLogic? (Expression.list ys).text ≠ some logic := by
  obtain ⟨hplain, hlogic⟩ := not_mem_of_declares h
  obtain ⟨a, b, rfl, rfl⟩ := exists_split_of_commented hcomment hplain
  have htext : (Expression.list (a ++ .token (.comment remark oneLine) :: b)).text =
      '(' :: textOfAll a ++ ';' :: (remark ++ '\n' :: textOfAll b ++ [')']) := by
    simp [Expression.text, textOfAll_append, textOfAll, Token.text]
  rw [htext]
  refine declaredLogic?_ne_of_semicolon (fun hmem => ?_) hlogic
  rw [textOfAll_append, List.mem_append, not_or] at hplain
  exact hplain.1 (by simpa using hmem)

/-- The comment is put into the command with the items `xs`, which are `ys` from then on. -/
structure IntoCommand (remark : Text) (oneLine : '\n' ∉ remark)
    (items items' xs ys : List Expression) : Prop where
  place : ∃ before after, items = before ++ .list xs :: after ∧
    items' = before ++ .list ys :: after
  commented : Commented remark oneLine xs ys

/-- The comment is put into an assertion, in front of its name. -/
def HidesAssertion (remark : Text) (oneLine : '\n' ∉ remark) (items items' : List Expression) :
    Prop :=
  ∃ xs ys, IntoCommand remark oneLine items items' xs ys ∧ InFront remark oneLine xs ys ∧
    leadingName xs = some "assert".toList

/-- The comment is put into a `set-logic`. -/
def InDeclaration (remark : Text) (oneLine : '\n' ∉ remark) (items items' : List Expression) :
    Prop :=
  ∃ xs ys, IntoCommand remark oneLine items items' xs ys ∧
    leadingName xs = some "set-logic".toList

/-- A command is an assertion iff its leading name says so. -/
theorem isAssertion_list (S : Separated xs) :
    Benchmark.isAssertion (Expression.list xs).text = true ↔
      leadingName xs = some "assert".toList := by
  rw [Benchmark.isAssertion, commandName?_list S, beq_iff_eq]

theorem logicOf?_list (S : Separated xs) :
    Benchmark.logicOf? (Expression.list xs).text =
      if leadingName xs = some "set-logic".toList then
        declaredLogic? (Expression.list xs).text else none := by
  simp only [Benchmark.logicOf?, commandName?_list S, beq_iff_eq]

variable {w : Written}

/-- The script with other expressions. -/
def Written.withItems (w : Written) (items : List Expression) : Written := { w with items }

/-- The facts of a written script are those of its lists. -/
theorem facts_text (w : Written) (path : Option Text) :
    (Benchmark.mk w.text path).facts =
      Benchmark.factsOf (w.items.filterMap Expression.command?) := by
  rw [Benchmark.facts, commands_eq_scanner, w.reads_text.1]
  rfl

/-- The facts of a script are those of one command and of the expressions around it. -/
theorem facts_among {before after xs : List Expression} (h : w.items = before ++ .list xs :: after)
    (path : Option Text) :
    (Benchmark.mk w.text path).facts =
      ⟨(before.filterMap Expression.command?).countP Benchmark.isAssertion +
          (if Benchmark.isAssertion (Expression.list xs).text then 1 else 0) +
          (after.filterMap Expression.command?).countP Benchmark.isAssertion,
        ((before.filterMap Expression.command?).findSome? Benchmark.logicOf?).or
          ((Benchmark.logicOf? (Expression.list xs).text).or
            ((after.filterMap Expression.command?).findSome? Benchmark.logicOf?))⟩ := by
  have hcommands : w.items.filterMap Expression.command? =
      before.filterMap Expression.command? ++
        (Expression.list xs).text :: after.filterMap Expression.command? := by
    rw [h, List.filterMap_append, List.filterMap_cons]
    rfl
  rw [facts_text, hcommands, Benchmark.factsOf, List.countP_append, List.countP_cons,
    List.findSome?_append, List.findSome?_cons]
  congr 1
  · omega
  · cases Benchmark.logicOf? (Expression.list xs).text <;> rfl

/-- Scripts have the same logic, or the same fault that there is none, iff their facts do. -/
theorem logic_eq_iff (t u : Text) (path : Option Text) :
    (Benchmark.mk t path).logic = (Benchmark.mk u path).logic ↔
      (Benchmark.mk t path).facts.logic = (Benchmark.mk u path).facts.logic := by
  unfold Benchmark.logic
  rcases (Benchmark.mk t path).facts.logic with _ | l <;>
    rcases (Benchmark.mk u path).facts.logic with _ | m
  · exact ⟨fun _ => rfl, fun _ => rfl⟩
  · exact ⟨fun h => (nomatch h), fun h => (nomatch h)⟩
  · exact ⟨fun h => (nomatch h), fun h => (nomatch h)⟩
  · exact ⟨fun h => congrArg some (Except.ok.inj h), fun h => congrArg _ (Option.some.inj h)⟩

theorem IntoCommand.separated (S : w.Separated)
    (h : IntoCommand remark oneLine w.items items xs ys) : Separated xs ∧ Separated ys := by
  obtain ⟨before, after, hitems, -⟩ := h.place
  have hxs : Separated xs := S xs (by simp [hitems])
  exact ⟨hxs, hxs.commented h.commented⟩

/-- A comment changes the facts only in a command. -/
theorem facts_eq_or_intoCommand (h : Commented remark oneLine w.items items) (path : Option Text) :
    (Benchmark.mk (w.withItems items).text path).facts = (Benchmark.mk w.text path).facts ∨
      ∃ xs ys, IntoCommand remark oneLine w.items items xs ys := by
  rcases commented_cases h with hsame | ⟨before, xs, ys, after, hitems, hitems', hcomment⟩
  · refine Or.inl ?_
    rw [facts_text, facts_text, ← hsame]
    rfl
  · exact Or.inr ⟨xs, ys, ⟨before, after, hitems, hitems'⟩, hcomment⟩

/-- An assertion that is hidden is not counted. -/
theorem assertCount_of_hidesAssertion (S : w.Separated)
    (h : HidesAssertion remark oneLine w.items items) (path : Option Text) :
    (Benchmark.mk (w.withItems items).text path).assertCount + 1 =
      (Benchmark.mk w.text path).assertCount := by
  obtain ⟨xs, ys, hinto, hfront, hname⟩ := h
  obtain ⟨hxs, hys⟩ := hinto.separated S
  obtain ⟨before, after, hitems, rfl⟩ := hinto.place
  have hcounted : Benchmark.isAssertion (Expression.list xs).text = true :=
    (isAssertion_list hxs).mpr hname
  have hhidden : ¬ Benchmark.isAssertion (Expression.list ys).text = true := by
    rw [isAssertion_list hys, leadingName_inFront hfront]
    exact fun h => nomatch h
  rw [Benchmark.assertCount, Benchmark.assertCount, facts_among hitems, facts_among rfl,
    if_pos hcounted, if_neg hhidden]
  dsimp only
  omega

/-- Where no assertion is hidden, as many are counted. -/
theorem assertCount_of_not_hidesAssertion (S : w.Separated)
    (h : Commented remark oneLine w.items items)
    (hhides : ¬ HidesAssertion remark oneLine w.items items) (path : Option Text) :
    (Benchmark.mk (w.withItems items).text path).assertCount =
      (Benchmark.mk w.text path).assertCount := by
  rcases facts_eq_or_intoCommand h path with hsame | ⟨xs, ys, hinto⟩
  · rw [Benchmark.assertCount, hsame]
    rfl
  · obtain ⟨hxs, hys⟩ := hinto.separated S
    have hcounted : Benchmark.isAssertion (Expression.list ys).text =
        Benchmark.isAssertion (Expression.list xs).text := by
      rw [Bool.eq_iff_iff, isAssertion_list hxs, isAssertion_list hys]
      rcases leadingName_commented hinto.commented with hfront | hname
      · rw [leadingName_inFront hfront]
        refine ⟨fun h => ?_, fun h => absurd ⟨xs, ys, hinto, hfront, h⟩ hhides⟩
        cases h
      · rw [hname]
    obtain ⟨before, after, hitems, rfl⟩ := hinto.place
    rw [Benchmark.assertCount, Benchmark.assertCount, facts_among hitems, facts_among rfl,
      hcounted]

/-- Outside every `set-logic` a comment leaves the logic as it is. -/
theorem logic_of_not_inDeclaration (S : w.Separated) (h : Commented remark oneLine w.items items)
    (hdeclaration : ¬ InDeclaration remark oneLine w.items items) (path : Option Text) :
    (Benchmark.mk (w.withItems items).text path).logic = (Benchmark.mk w.text path).logic := by
  rw [logic_eq_iff]
  rcases facts_eq_or_intoCommand h path with hsame | ⟨xs, ys, hinto⟩
  · rw [hsame]
  · obtain ⟨hxs, hys⟩ := hinto.separated S
    have hname : leadingName xs ≠ some "set-logic".toList :=
      fun hname => hdeclaration ⟨xs, ys, hinto, hname⟩
    have hname' : leadingName ys ≠ some "set-logic".toList := by
      rcases leadingName_commented hinto.commented with hfront | hsame
      · rw [leadingName_inFront hfront]
        exact fun h => nomatch h
      · rw [hsame]
        exact hname
    obtain ⟨before, after, hitems, rfl⟩ := hinto.place
    rw [facts_among hitems, facts_among rfl, logicOf?_list hxs, logicOf?_list hys, if_neg hname,
      if_neg hname']

theorem findSome?_logicOf? (es : List Expression) (S : ∀ ys, .list ys ∈ es → Separated ys)
    (h : ∀ ys, .list ys ∈ es → leadingName ys ≠ some "set-logic".toList) :
    (es.filterMap Expression.command?).findSome? Benchmark.logicOf? = none := by
  rw [List.findSome?_eq_none_iff]
  intro c hc
  obtain ⟨e, he, hcommand⟩ := List.mem_filterMap.mp hc
  cases e with
  | token t => cases hcommand
  | list ys =>
    cases hcommand
    rw [logicOf?_list (S ys he), if_neg (h ys he)]

/-- In the only `set-logic` of a script a comment takes the logic away. -/
theorem logic_of_inDeclaration (S : w.Separated) (D : w.DeclaresOnce)
    (h : InDeclaration remark oneLine w.items items) (path : Option Text) :
    (Benchmark.mk (w.withItems items).text path).logic ≠ (Benchmark.mk w.text path).logic := by
  obtain ⟨xs, ys, hinto, hname⟩ := h
  obtain ⟨hxs, hys⟩ := hinto.separated S
  obtain ⟨before, after, hitems, rfl⟩ := hinto.place
  obtain ⟨⟨logic, hdeclares⟩, hothers⟩ := D before xs after hitems hname
  have hbefore := findSome?_logicOf? before (fun zs hzs => S zs (by simp [hitems, hzs]))
    fun zs hzs => hothers zs (List.mem_append_left _ hzs)
  have hafter := findSome?_logicOf? after (fun zs hzs => S zs (by simp [hitems, hzs]))
    fun zs hzs => hothers zs (List.mem_append_right _ hzs)
  have hdeclared : Benchmark.logicOf? (Expression.list xs).text = some logic := by
    rw [logicOf?_list hxs, if_pos hname, declaredLogic?_list hdeclares]
  have hlost : Benchmark.logicOf? (Expression.list ys).text ≠ some logic := by
    rw [logicOf?_list hys]
    split
    · exact declaredLogic?_commented hdeclares hinto.commented
    · exact fun h => nomatch h
  rw [Ne, logic_eq_iff, facts_among hitems, facts_among rfl, hbefore, hafter, hdeclared]
  simpa only [Option.none_or, Option.or_none] using hlost

/-- **What a comment between two tokens does to the facts of a script.** One assertion less is
counted iff the comment stands in an assertion in front of its name, and otherwise as many are
counted as before. The logic stays the same unless the comment stands in a `set-logic`; in the only
`set-logic` of a script every comment takes the logic away. -/
theorem facts_commented_iff (S : w.Separated) (h : Commented remark oneLine w.items items)
    (path : Option Text) :
    ((Benchmark.mk (w.withItems items).text path).assertCount =
        (Benchmark.mk w.text path).assertCount ↔
          ¬ HidesAssertion remark oneLine w.items items) ∧
      (HidesAssertion remark oneLine w.items items →
        (Benchmark.mk (w.withItems items).text path).assertCount + 1 =
          (Benchmark.mk w.text path).assertCount) ∧
      (¬ InDeclaration remark oneLine w.items items →
        (Benchmark.mk (w.withItems items).text path).logic = (Benchmark.mk w.text path).logic) ∧
      (w.DeclaresOnce →
        ((Benchmark.mk (w.withItems items).text path).logic = (Benchmark.mk w.text path).logic ↔
          ¬ InDeclaration remark oneLine w.items items)) := by
  refine ⟨⟨fun hsame hhides => ?_, fun hhides => assertCount_of_not_hidesAssertion S h hhides path⟩,
    fun hhides => assertCount_of_hidesAssertion S hhides path,
    fun hdeclaration => logic_of_not_inDeclaration S h hdeclaration path,
    fun D => ⟨fun hsame hdeclaration => logic_of_inDeclaration S D hdeclaration path hsame,
      fun hdeclaration => logic_of_not_inDeclaration S h hdeclaration path⟩⟩
  have hless := assertCount_of_hidesAssertion S hhides path
  omega

end

/-- An assertion. -/
def assertion : List Expression :=
  [.token (.atom "assert".toList (by decide) (List.all_eq_true.mp (by decide))),
    .token (.space [' '] (by decide) (List.all_eq_true.mp (by decide))),
    .token (.atom "true".toList (by decide) (List.all_eq_true.mp (by decide)))]

/-- A script of one assertion. -/
def soleAssertion : Written := ⟨[.list assertion], none, fun _ h => nomatch h⟩

/-- The same script with a comment behind its opening parenthesis. -/
def hiddenAssertion : List Expression :=
  [.list (.token (.comment ['c'] (by decide)) :: assertion)]

theorem separated_soleAssertion : soleAssertion.Separated := by
  intro items hitems
  rw [soleAssertion, List.mem_singleton] at hitems
  cases hitems
  simp [Script.Separated, assertion, Expression.isAtom]

theorem commented_soleAssertion :
    Commented ['c'] (by decide) soleAssertion.items hiddenAssertion := .within [] (.here assertion)

/-- With a comment in front of its name an assertion is not counted. -/
theorem facts_soleAssertion :
    (Benchmark.mk (soleAssertion.withItems hiddenAssertion).text none).assertCount + 1 =
      (Benchmark.mk soleAssertion.text none).assertCount := by
  obtain ⟨-, hhides, -⟩ :=
    facts_commented_iff separated_soleAssertion commented_soleAssertion none
  exact hhides ⟨assertion, _, ⟨⟨[], [], rfl, rfl⟩, .here assertion⟩, .here assertion, by decide⟩

/-- A comment between two tokens of a script can change its facts. -/
theorem exists_comment_changes_facts :
    ∃ (w : Written) (items : List Expression), w.Separated ∧
      Commented ['c'] (by decide) w.items items ∧
      (Benchmark.mk w.text none).assertCount = 1 ∧
      (Benchmark.mk (w.withItems items).text none).assertCount = 0 := by
  refine ⟨soleAssertion, hiddenAssertion, separated_soleAssertion, commented_soleAssertion, ?_, ?_⟩
  · rw [Benchmark.assertCount, Benchmark.facts, commands_eq_scanner]
    rfl
  · rw [Benchmark.assertCount, Benchmark.facts, commands_eq_scanner]
    rfl

end CoreAudit.Script
