import CoreAudit.Proofs.Script.Written
import Mathlib.Data.List.Chain

/-!
# Reading commands

The name of a command and the logic that it declares are read off its text. Here they are found in
what was written: the name is the first token of the command, if that is an atom and has nothing but
white space in front of it (`leadingName`), and a `set-logic` that is written with nothing but white
space between its two symbols declares the logic that the second names (`Declares`).

Headlines:
* **`commandName?_list`**: the name of a command is its first token behind white space.
* **`declaredLogic?_list`**: a `set-logic` that is written as one declares its logic.
* **`declaredLogic?_ne_of_semicolon`**: with a semicolon in front of its first closing parenthesis
  it declares no logic but one with a semicolon in its name.
-/

namespace CoreAudit.Script

namespace Expression

/-- The expression is white space. -/
def isSpace : Expression → Bool
  | .token (.space ..) => true
  | _ => false

/-- The expression is an atom. -/
def isAtom : Expression → Bool
  | .token (.atom ..) => true
  | _ => false

end Expression

/-- The name that a command starts with: an atom behind white space. -/
def leadingName : List Expression → Option Text
  | .token (.atom name _ _) :: _ => some name
  | .token (.space ..) :: es => leadingName es
  | _ => none

/-- No atom follows another, which would make one atom of the two. -/
def Separated (items : List Expression) : Prop :=
  items.IsChain fun e e' => ¬ (e.isAtom = true ∧ e'.isAtom = true)

/-! ## Reading the name of a command -/

theorem stops_name {es : List Expression} (h : ∀ e ∈ es.head?, e.isAtom = false) :
    (textOfAll es ++ [')']).takeWhile isNameChar = [] := by
  have hspace : ∀ c, Text.isSpace c = true → isNameChar c = false := by
    intro c hc
    simp [isNameChar, hc]
  cases es with
  | nil => rfl
  | cons e es =>
    cases e with
    | list items => rfl
    | token t =>
      cases t with
      | atom name nonempty plain => exact absurd (h _ rfl) (by simp [Expression.isAtom])
      | space blanks nonempty blank =>
        obtain ⟨c, rest, rfl⟩ := List.exists_cons_of_ne_nil nonempty
        have hc := hspace c (blank c List.mem_cons_self)
        simp [textOfAll, Expression.text, Token.text, hc]
      | literal content => rfl
      | quoted name barless => rfl
      | comment remark oneLine => rfl

/-- Behind white space, the characters of a name are those of the leading name. -/
theorem takeWhile_isNameChar {items : List Expression} (h : Separated items) :
    ((textOfAll items ++ [')']).dropWhile Text.isSpace).takeWhile isNameChar =
      (leadingName items).getD [] := by
  induction items with
  | nil => rfl
  | cons e es ih =>
    rw [Separated, List.isChain_cons] at h
    cases e with
    | list items => rfl
    | token t =>
      cases t with
      | atom name nonempty plain =>
        have hstop : (textOfAll es ++ [')']).takeWhile isNameChar = [] :=
          stops_name fun e he => by simpa [Expression.isAtom] using h.1 e he
        obtain ⟨c, rest, rfl⟩ := List.exists_cons_of_ne_nil nonempty
        have hc : Text.isSpace c = false := by
          have := plain c List.mem_cons_self
          simp only [isNameChar, Bool.and_eq_true, Bool.not_eq_true'] at this
          exact this.1.1.1.1.1
        have hdrop : (textOfAll (.token (.atom (c :: rest) nonempty plain) :: es) ++ [')']).dropWhile
            Text.isSpace = (c :: rest) ++ (textOfAll es ++ [')']) := by
          simp [textOfAll, Expression.text, Token.text, hc]
        rw [hdrop, List.takeWhile_append_of_pos plain, hstop, List.append_nil]
        rfl
      | space blanks nonempty blank =>
        have hdrop : (textOfAll (.token (.space blanks nonempty blank) :: es) ++ [')']).dropWhile
            Text.isSpace = (textOfAll es ++ [')']).dropWhile Text.isSpace := by
          rw [textOfAll, List.append_assoc]
          exact List.dropWhile_append_of_pos blank
        rw [hdrop]
        exact ih h.2
      | literal content => rfl
      | quoted name barless => rfl
      | comment remark oneLine => rfl

theorem leadingName_ne_nil {items : List Expression} {name : Text}
    (h : leadingName items = some name) : name ≠ [] := by
  fun_induction leadingName items with
  | case1 name' nonempty _ _ =>
    cases h
    exact nonempty
  | case2 _ _ _ _ ih => exact ih h
  | case3 => cases h

/-- **The name of a command is its first token behind white space, if that is an atom.** -/
theorem commandName?_list {items : List Expression} (h : Separated items) :
    commandName? (Expression.list items).text = leadingName items := by
  have htext : (Expression.list items).text = '(' :: (textOfAll items ++ [')']) := rfl
  rw [htext, commandName?, takeWhile_isNameChar h]
  cases hname : leadingName items with
  | none => rfl
  | some name => simp [leadingName_ne_nil hname]

/-! ## Reading the logic of a command -/

theorem dropWhile_exact {p : Char → Bool} {a b : Text} (ha : ∀ c ∈ a, p c = true)
    (hb : ∀ c ∈ b.head?, p c = false) : (a ++ b).dropWhile p = b := by
  rw [List.dropWhile_append_of_pos ha]
  cases b with
  | nil => rfl
  | cons c b => simp [hb c rfl]

theorem takeWhile_exact {p : Char → Bool} {a b : Text} (ha : ∀ c ∈ a, p c = true)
    (hb : ∀ c ∈ b.head?, p c = false) : (a ++ b).takeWhile p = a := by
  rw [List.takeWhile_append_of_pos ha]
  cases b with
  | nil => simp
  | cons c b => simp [hb c rfl]

theorem exists_dropBar (t : Text) : ∃ bar, t = bar ++ dropBar t ∧ ';' ∉ bar := by
  unfold dropBar
  split
  · exact ⟨['|'], rfl, by decide⟩
  · exact ⟨[], rfl, by simp⟩

theorem not_mem_takeWhile_isSpace (t : Text) : ';' ∉ t.takeWhile Text.isSpace := by
  intro h
  have := List.all_eq_true.mp (List.all_takeWhile (p := Text.isSpace)) _ h
  exact absurd this (by decide)

theorem exists_of_afterSetLogic? {t u : Text} (h : afterSetLogic? t = some u) :
    ∃ m, t = m ++ u ∧ ';' ∉ m := by
  unfold afterSetLogic? at h
  split at h
  · rename_i t
    dsimp only at h
    split at h
    · rename_i hkeyword
      cases h
      rw [Bool.and_eq_true, List.isPrefixOf_iff_prefix] at hkeyword
      obtain ⟨⟨v, hv⟩, -⟩ := hkeyword
      rw [← hv, List.drop_left]
      refine ⟨'(' :: t.takeWhile Text.isSpace ++ "set-logic".toList ++ v.takeWhile Text.isSpace,
        ?_, ?_⟩
      · rw [List.append_assoc, List.takeWhile_append_dropWhile, List.append_assoc, hv,
          List.cons_append, List.takeWhile_append_dropWhile]
      · have hfirst := not_mem_takeWhile_isSpace t
        have hlast := not_mem_takeWhile_isSpace v
        simp only [List.cons_append, List.mem_cons, List.mem_append, not_or]
        exact ⟨by decide, ⟨hfirst, by decide⟩, hlast⟩
    · cases h
  · cases h

/-- What is read to find a logic ends at a closing parenthesis, and holds no semicolon but those of
the logic. -/
theorem exists_of_declaredLogic? {t logic : Text} (h : declaredLogic? t = some logic) :
    ∃ m rest, t = m ++ ')' :: rest ∧ (';' ∈ m → ';' ∈ logic) := by
  unfold declaredLogic? at h
  obtain ⟨u, hu, h⟩ := Option.bind_eq_some_iff.mp h
  dsimp only at h
  split at h
  · cases h
  · rename_i hclosed
    cases h
    rw [Bool.or_eq_true, not_or, bne_iff_ne, ne_eq, Decidable.not_not] at hclosed
    obtain ⟨front, ht, hfront⟩ := exists_of_afterSetLogic? hu
    obtain ⟨bar, hbar, hbar'⟩ := exists_dropBar u
    obtain ⟨bar₂, hbar₂, hbar₂'⟩ := exists_dropBar ((dropBar u).dropWhile isLogicChar)
    obtain ⟨rest, hrest⟩ := List.head?_eq_some_iff.mp hclosed.2
    generalize hv : dropBar ((dropBar u).dropWhile isLogicChar) = v at hbar₂ hrest
    refine ⟨front ++ bar ++ (dropBar u).takeWhile isLogicChar ++ bar₂ ++
      v.takeWhile Text.isSpace, rest, ?_, ?_⟩
    · simp only [List.append_assoc]
      rw [← hrest, List.takeWhile_append_dropWhile, ← hbar₂, List.takeWhile_append_dropWhile,
        ← hbar, ht]
    · have hspace := not_mem_takeWhile_isSpace v
      simp only [List.mem_append, hfront, hbar', hbar₂', hspace, false_or, or_false, imp_self]

/-- **With a semicolon in front of its first closing parenthesis a command declares no logic but
one with a semicolon in its name.** -/
theorem declaredLogic?_ne_of_semicolon {front rest logic : Text} (hfront : ')' ∉ front)
    (hlogic : ';' ∉ logic) : declaredLogic? (front ++ ';' :: rest) ≠ some logic := by
  intro h
  obtain ⟨m, tail, htext, hm⟩ := exists_of_declaredLogic? h
  rcases List.append_eq_append_iff.mp htext with ⟨more, hmore, hend⟩ | ⟨more, hmore, hend⟩
  · cases more with
    | nil => cases hend
    | cons c more =>
      cases hend
      exact hlogic (hm (by simp [hmore]))
  · cases more with
    | nil => cases hend
    | cons c more =>
      cases hend
      exact hfront (by simp [hmore])

theorem not_isSpace_of_isLogicChar {c : Char} (h : isLogicChar c = true) :
    Text.isSpace c = false := by
  simp only [isLogicChar, Bool.and_eq_true, Bool.not_eq_true'] at h
  exact h.1.1.1

/-- Behind `set-logic` white space is passed over. -/
theorem afterSetLogic?_written {front gap rest : Text}
    (hfront : ∀ c ∈ front, Text.isSpace c = true) (hgap : ∀ c ∈ gap, Text.isSpace c = true)
    (hgap' : gap ≠ []) (hrest : ∀ c ∈ rest.head?, Text.isSpace c = false) :
    afterSetLogic? ('(' :: (front ++ ("set-logic".toList ++ (gap ++ rest)))) = some rest := by
  have hkeyword : (front ++ ("set-logic".toList ++ (gap ++ rest))).dropWhile Text.isSpace =
      "set-logic".toList ++ (gap ++ rest) := by
    refine dropWhile_exact hfront fun c hc => ?_
    cases hc
    decide
  have hprefix : "set-logic".toList.isPrefixOf ("set-logic".toList ++ (gap ++ rest)) = true := by
    rw [List.isPrefixOf_iff_prefix]
    exact List.prefix_append _ _
  have hhead : (gap ++ rest).head?.any Text.isSpace = true := by
    obtain ⟨g, gap, rfl⟩ := List.exists_cons_of_ne_nil hgap'
    simp [hgap g List.mem_cons_self]
  simp only [afterSetLogic?, hkeyword, hprefix, List.drop_left, hhead, Bool.and_self, if_true,
    dropWhile_exact hgap hrest]

theorem dropBar_written {bar rest : Text} (hbar : bar = [] ∨ bar = ['|'])
    (hrest : ∀ c ∈ rest.head?, c ≠ '|') : dropBar (bar ++ rest) = rest := by
  rcases hbar with rfl | rfl
  · unfold dropBar
    split
    · exact absurd rfl (hrest '|' (by simp_all))
    · rfl
  · rfl

/-- **A `set-logic` that is written with nothing but white space between its symbols declares its
logic**, with or without bars around it. -/
theorem declaredLogic?_written {front gap back bar logic rest : Text}
    (hfront : ∀ c ∈ front, Text.isSpace c = true) (hgap : ∀ c ∈ gap, Text.isSpace c = true)
    (hgap' : gap ≠ []) (hback : ∀ c ∈ back, Text.isSpace c = true)
    (hbar : bar = [] ∨ bar = ['|']) (hlogic : ∀ c ∈ logic, isLogicChar c = true)
    (hlogic' : logic ≠ []) :
    declaredLogic? ('(' :: (front ++ ("set-logic".toList ++ (gap ++ (bar ++ (logic ++ (bar ++
      (back ++ ')' :: rest)))))))) = some logic := by
  -- what comes next is told from what came before by its first character
  have hclosing : ∀ c ∈ (back ++ ')' :: rest).head?, isLogicChar c = false ∧ c ≠ '|' := by
    intro c hc
    cases back with
    | nil =>
      cases hc
      decide
    | cons b back =>
      cases hc
      have hspace := hback c List.mem_cons_self
      refine ⟨by simp [isLogicChar, hspace], ?_⟩
      rintro rfl
      exact absurd hspace (by decide)
  have hend : ∀ c ∈ (bar ++ (back ++ ')' :: rest)).head?, isLogicChar c = false := by
    rcases hbar with rfl | rfl
    · exact fun c hc => (hclosing c hc).1
    · intro c hc
      cases hc
      decide
  have hfirst : ∀ c ∈ (logic ++ (bar ++ (back ++ ')' :: rest))).head?, isLogicChar c = true := by
    obtain ⟨d, logic, rfl⟩ := List.exists_cons_of_ne_nil hlogic'
    intro c hc
    cases hc
    exact hlogic d List.mem_cons_self
  have hsymbol : ∀ c ∈ (bar ++ (logic ++ (bar ++ (back ++ ')' :: rest)))).head?,
      Text.isSpace c = false := by
    rcases hbar with rfl | rfl
    · exact fun c hc => not_isSpace_of_isLogicChar (hfirst c hc)
    · intro c hc
      cases hc
      decide
  have hopened : dropBar (bar ++ (logic ++ (bar ++ (back ++ ')' :: rest)))) =
      logic ++ (bar ++ (back ++ ')' :: rest)) := by
    refine dropBar_written hbar fun c hc => ?_
    rintro rfl
    exact absurd (hfirst '|' hc) (by decide)
  have hclosed : dropBar (bar ++ (back ++ ')' :: rest)) = back ++ ')' :: rest :=
    dropBar_written hbar fun c hc => (hclosing c hc).2
  have hparen : (back ++ ')' :: rest).dropWhile Text.isSpace = ')' :: rest := by
    refine dropWhile_exact hback fun c hc => ?_
    cases hc
    decide
  unfold declaredLogic?
  rw [afterSetLogic?_written hfront hgap hgap' hsymbol, Option.bind_eq_bind, Option.bind_some]
  simp [hopened, takeWhile_exact hlogic hend, dropWhile_exact hlogic hend, hclosed, hparen,
    hlogic']

theorem textOfAll_append (a b : List Expression) :
    textOfAll (a ++ b) = textOfAll a ++ textOfAll b := by
  induction a with
  | nil => rfl
  | cons e a ih => simp [textOfAll, ih]

theorem isSpace_of_mem_textOfAll {es : List Expression} (h : ∀ e ∈ es, e.isSpace = true) :
    ∀ c ∈ textOfAll es, Text.isSpace c = true := by
  induction es with
  | nil => simp [textOfAll]
  | cons e es ih =>
    have he := h e List.mem_cons_self
    have hrest := ih fun d hd => h d (List.mem_cons_of_mem _ hd)
    intro c hc
    rcases List.mem_append.mp hc with hc | hc
    · cases e with
      | list items => cases he
      | token t =>
        cases t with
        | space blanks nonempty blank => exact blank c hc
        | atom | literal | quoted | comment => cases he
    · exact hrest c hc

/-- The token names a logic: it is the logic's name, or that name between bars. -/
structure Token.NamesLogic (t : Token) (logic : Text) : Prop where
  written : ∃ bar, (bar = [] ∨ bar = ['|']) ∧ t.text = bar ++ (logic ++ bar)
  nonempty : logic ≠ []
  plain : ∀ c ∈ logic, isLogicChar c = true ∧ c ≠ ';'

/-- The items are those of a `set-logic` that declares the logic: the keyword and one symbol, with
nothing but white space around them. -/
inductive Declares : List Expression → Text → Prop where
  | intro {front gap back : List Expression} {keyword symbol : Token} {logic : Text}
      (hfront : ∀ e ∈ front, e.isSpace = true) (hkeyword : keyword.text = "set-logic".toList)
      (hgap : ∀ e ∈ gap, e.isSpace = true) (apart : textOfAll gap ≠ [])
      (hsymbol : symbol.NamesLogic logic) (hback : ∀ e ∈ back, e.isSpace = true) :
      Declares (front ++ .token keyword :: gap ++ .token symbol :: back) logic

theorem declaredLogic?_list {xs : List Expression} {logic : Text} (h : Declares xs logic) :
    declaredLogic? (Expression.list xs).text = some logic := by
  obtain ⟨hfront, hkeyword, hgap, apart, ⟨⟨bar, hbar, htext⟩, hnonempty, hplain⟩, hback⟩ := h
  rename_i front gap back keyword symbol
  have hwritten : (Expression.list (front ++ .token keyword :: gap ++ .token symbol :: back)).text =
      '(' :: (textOfAll front ++ ("set-logic".toList ++ (textOfAll gap ++ (bar ++ (logic ++ (bar ++
        (textOfAll back ++ ')' :: []))))))) := by
    simp [Expression.text, textOfAll_append, textOfAll, hkeyword, htext]
  rw [hwritten]
  exact declaredLogic?_written (isSpace_of_mem_textOfAll hfront) (isSpace_of_mem_textOfAll hgap)
    apart (isSpace_of_mem_textOfAll hback) hbar (fun c hc => (hplain c hc).1) hnonempty

theorem not_mem_of_declares {xs : List Expression} {logic : Text} (h : Declares xs logic) :
    ')' ∉ textOfAll xs ∧ ';' ∉ logic := by
  obtain ⟨hfront, hkeyword, hgap, -, ⟨⟨bar, hbar, htext⟩, -, hplain⟩, hback⟩ := h
  have hspaces : ∀ es : List Expression, (∀ e ∈ es, e.isSpace = true) → ')' ∉ textOfAll es :=
    fun es hes hmem => absurd (isSpace_of_mem_textOfAll hes _ hmem) (by decide)
  have hbar' : ')' ∉ bar := by
    rcases hbar with rfl | rfl
    · simp
    · decide
  have hlogic : ')' ∉ logic := fun hmem => absurd (hplain _ hmem).1 (by decide)
  refine ⟨?_, fun hmem => (hplain _ hmem).2 rfl⟩
  simp [textOfAll_append, textOfAll, Expression.text, hkeyword, htext, hspaces _ hfront,
    hspaces _ hgap, hspaces _ hback, hbar', hlogic]

end CoreAudit.Script
