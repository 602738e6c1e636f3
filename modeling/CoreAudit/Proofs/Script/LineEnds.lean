import CoreAudit.Benchmark
import CoreAudit.Proofs.Script.Automaton

/-!
# Scripts with other line ends

A script in a file is read with every line end made a line feed; a script in memory is scanned as it
is. A scanner of the one and a scanner of the other go on side by side (`Follows`): they have the
same parentheses open and hold the same text but for its line ends, and they are inside of the same
unless a carriage return stands in a comment. Made a line feed it ends the comment, and left as it
is it does not. Where nothing but white space follows it in its line, that makes no difference.

Headlines:
* **`Follows.step`**: the scanners go on side by side.
* **`commands_unifyLineEnds`**: the commands are the same but for their line ends.
* **`facts_unifyLineEnds`**: so the facts of a benchmark are the same.
-/

namespace CoreAudit

namespace Text

theorem unifyLineEnds_cons {c : Char} {t : Text} (h : c = '\r' → t.head? ≠ some '\n') :
    unifyLineEnds (c :: t) = (if c == '\r' then '\n' else c) :: unifyLineEnds t := by
  rw [unifyLineEnds]
  rintro rest rfl rfl
  exact h rfl rfl

theorem unifyLineEnds_cons_of_ne {c : Char} (h : c ≠ '\r') (t : Text) :
    unifyLineEnds (c :: t) = c :: unifyLineEnds t := by
  rw [unifyLineEnds_cons fun hc => absurd hc h, beq_eq_false_iff_ne.mpr h]
  rfl

theorem unifyLineEnds_append {c : Char} (hc : c ≠ '\r') (a b : Text) :
    unifyLineEnds (a ++ c :: b) = unifyLineEnds (a ++ [c]) ++ unifyLineEnds b := by
  fun_induction unifyLineEnds a with
  | case1 =>
    show unifyLineEnds (c :: b) = unifyLineEnds [c] ++ _
    rw [unifyLineEnds_cons_of_ne hc, unifyLineEnds_cons_of_ne hc]
    rfl
  | case2 a ih => exact congrArg ('\n' :: ·) ih
  | case3 d a hpair ih =>
    -- `d` starts no line end of two, unless `c` is a line feed right after it
    rcases a with _ | ⟨e, a⟩
    · by_cases hd : d = '\r'
      · by_cases hfeed : c = '\n'
        · rw [hd, hfeed]
          rfl
        · have hnext : ∀ u : Text, d = '\r' → (c :: u).head? ≠ some '\n' :=
            fun u _ h => hfeed (Option.some.inj h)
          show unifyLineEnds (d :: c :: b) = unifyLineEnds [d, c] ++ _
          rw [unifyLineEnds_cons (hnext b), unifyLineEnds_cons (hnext []), List.cons_append]
          exact congrArg (_ :: ·) ih
      · show unifyLineEnds (d :: c :: b) = unifyLineEnds [d, c] ++ _
        rw [unifyLineEnds_cons_of_ne hd, unifyLineEnds_cons_of_ne hd, List.cons_append]
        exact congrArg (_ :: ·) ih
    · have hnext : ∀ u : Text, d = '\r' → ((e :: a) ++ u).head? ≠ some '\n' := by
        rintro u rfl h
        exact hpair a rfl (congrArg (· :: a) (Option.some.inj h))
      show unifyLineEnds (d :: ((e :: a) ++ c :: b)) = unifyLineEnds (d :: ((e :: a) ++ [c])) ++ _
      rw [unifyLineEnds_cons (hnext (c :: b)), unifyLineEnds_cons (hnext [c]), ih]
      rfl

/-- Characters that stand for themselves up to a line end are the same, -/
theorem takeWhile_unifyLineEnds {p : Char → Bool} (hreturn : p '\r' = false)
    (hfeed : p '\n' = false) (t : Text) : (unifyLineEnds t).takeWhile p = t.takeWhile p := by
  fun_induction unifyLineEnds t with
  | case1 => rfl
  | case2 t ih => rw [List.takeWhile_cons, List.takeWhile_cons, hfeed, hreturn]; rfl
  | case3 c t _ ih =>
    by_cases hc : c = '\r'
    · rw [hc, List.takeWhile_cons, List.takeWhile_cons, hreturn]
      show (if p '\n' then _ else []) = _
      rw [hfeed]
      rfl
    · rw [beq_eq_false_iff_ne.mpr hc, if_neg Bool.false_ne_true, List.takeWhile_cons,
        List.takeWhile_cons, ih]

/-- and so is what comes after them. -/
theorem dropWhile_unifyLineEnds {p : Char → Bool} (h : p '\r' = p '\n') (t : Text) :
    (unifyLineEnds t).dropWhile p = unifyLineEnds (t.dropWhile p) := by
  fun_induction unifyLineEnds t with
  | case1 => rfl
  | case2 t ih =>
    rw [List.dropWhile_cons, List.dropWhile_cons, List.dropWhile_cons, h, ih]
    split <;> rfl
  | case3 c t hpair ih =>
    have hsame : p (if c == '\r' then '\n' else c) = p c := by
      by_cases hc : c = '\r'
      · rw [hc]
        exact h.symm
      · rw [beq_eq_false_iff_ne.mpr hc, if_neg Bool.false_ne_true]
    rw [List.dropWhile_cons, List.dropWhile_cons, hsame, ih]
    split
    · rfl
    · rw [unifyLineEnds_cons]
      rintro rfl hhead
      rcases t with _ | ⟨d, t⟩
      · cases hhead
      · exact hpair t rfl (congrArg (· :: t) (Option.some.inj hhead))

theorem head?_unifyLineEnds (t : Text) :
    (unifyLineEnds t).head? = t.head?.map fun c => if c == '\r' then '\n' else c := by
  fun_induction unifyLineEnds t <;> rfl

end Text

namespace Script

/-- Carriage returns end comments: where one stands in a comment, nothing but white space follows it
in its line. -/
def returnsEndComments : Mode → Text → Bool
  | _, [] => true
  | mode, c :: t =>
    (mode != .comment || c != '\r' || (t.takeWhile (· != '\n')).all Text.isSpace) &&
      returnsEndComments (mode.next c) t

namespace Scanner

open Text

/-- A scanner of a text that is read from a file, where a scanner of the text in memory has so much
left to read. It may have left a comment already. -/
structure Follows (s s' : Scanner) (t : Text) : Prop where
  depth : s'.depth = s.depth
  held : unifyLineEnds (s.held.reverse ++ t) = s'.held.reverse ++ unifyLineEnds t
  mode : s'.mode = s.mode ∨ s.mode = .comment ∧ s'.mode = .code ∧
    (t.takeWhile (· != '\n')).all isSpace = true

theorem not_parenthesis_of_isSpace {c : Char} (h : isSpace c = true) : c ≠ '(' ∧ c ≠ ')' := by
  constructor <;> rintro rfl <;> exact absurd h (by decide)

theorem next_code_of_isSpace {c : Char} (h : isSpace c = true) : Mode.code.next c = .code := by
  have hne : c ≠ ';' ∧ c ≠ '"' ∧ c ≠ '|' := by
    refine ⟨?_, ?_, ?_⟩ <;> rintro rfl <;> exact absurd h (by decide)
  rw [Mode.next, if_neg hne.1, if_neg hne.2.1, if_neg hne.2.2]

namespace Follows

variable {s s' : Scanner} {c : Char} {t : Text}

/-- The scanners hold what they read, which is the same but for its line ends. -/
theorem hold {x y : Text} {m m' : Mode} (F : Follows s s' (x ++ t))
    (hread : unifyLineEnds (x ++ t) = y ++ unifyLineEnds t)
    (hmode : m' = m ∨ m = .comment ∧ m' = .code ∧ (t.takeWhile (· != '\n')).all isSpace = true) :
    Follows ⟨m, s.depth, holding s.depth x s.held⟩
      ⟨m', s'.depth, holding s'.depth y s'.held⟩ t := by
  refine ⟨F.depth, ?_, hmode⟩
  have hheld := F.held
  rw [F.depth]
  unfold holding
  split
  · rfl
  · rw [hread] at hheld
    rw [List.reverse_append, List.reverse_reverse, List.append_assoc, hheld, List.reverse_append,
      List.reverse_reverse, List.append_assoc]

theorem isSpace_of_lag (h : ((c :: t).takeWhile (· != '\n')).all isSpace = true) :
    isSpace c = true ∧ (c ≠ '\n' → (t.takeWhile (· != '\n')).all isSpace = true) := by
  by_cases hfeed : c = '\n'
  · rw [hfeed]
    exact ⟨by decide, fun hne => absurd rfl hne⟩
  · rw [List.takeWhile_cons, if_pos (bne_iff_ne.mpr hfeed), List.all_cons, Bool.and_eq_true] at h
    exact ⟨h.1, fun _ => h.2⟩

theorem opening (hmode : s.mode = .code) (hmode' : s'.mode = .code) (F : Follows s s' ('(' :: t)) :
    s'.output? '(' = (s.output? '(').map unifyLineEnds ∧ Follows (s.step '(') (s'.step '(') t := by
  have hheld := F.held
  have hout : ∀ u : Scanner, u.output? '(' = none := fun u =>
    if_neg fun h => absurd h.2.1 (by decide)
  have hstep : ∀ u : Scanner, u.mode = .code → u.step '(' = ⟨.code, u.depth + 1, '(' :: u.held⟩ :=
    fun u hu => if_pos ⟨hu, rfl⟩
  rw [unifyLineEnds_cons_of_ne (by decide)] at hheld
  rw [hout, hout, hstep s hmode, hstep s' hmode']
  refine ⟨rfl, congrArg (· + 1) F.depth, ?_, Or.inl rfl⟩
  rw [List.reverse_cons, List.append_assoc, List.reverse_cons, List.append_assoc]
  exact hheld

theorem closing (hmode : s.mode = .code) (hmode' : s'.mode = .code) (F : Follows s s' (')' :: t)) :
    s'.output? ')' = (s.output? ')').map unifyLineEnds ∧ Follows (s.step ')') (s'.step ')') t := by
  have hheld := F.held
  rw [unifyLineEnds_cons_of_ne (by decide)] at hheld
  have hcommand : unifyLineEnds (')' :: s.held).reverse = (')' :: s'.held).reverse := by
    have hsplit := hheld
    rw [unifyLineEnds_append (by decide)] at hsplit
    rw [List.reverse_cons, List.reverse_cons]
    refine List.append_cancel_right (?_ : _ ++ unifyLineEnds t = _ ++ unifyLineEnds t)
    rw [hsplit, List.append_assoc]
    rfl
  have hout : ∀ u : Scanner, u.mode = .code →
      u.output? ')' = if u.depth = 1 then some (')' :: u.held).reverse else none := by
    intro u hu
    unfold output?
    simp only [hu, true_and]
  have hstep : ∀ u : Scanner, u.mode = .code →
      u.step ')' = ⟨.code, u.depth - 1, if u.depth ≤ 1 then [] else ')' :: u.held⟩ := by
    intro u hu
    rw [step, if_neg fun h => absurd h.2 (by decide), if_pos ⟨hu, rfl⟩]
  rw [hout s hmode, hout s' hmode', hstep s hmode, hstep s' hmode', F.depth]
  constructor
  · split
    · rw [Option.map_some, hcommand]
    · rfl
  · refine ⟨rfl, ?_, Or.inl rfl⟩
    dsimp only
    split
    · rfl
    · rw [List.reverse_cons, List.append_assoc, List.reverse_cons, List.append_assoc]
      exact hheld

/-- **The scanners read a character that is no carriage return**, and complete the same command. -/
theorem step (hc : c ≠ '\r') (F : Follows s s' (c :: t)) :
    s'.output? c = (s.output? c).map unifyLineEnds ∧ Follows (s.step c) (s'.step c) t := by
  have hread : unifyLineEnds ([c] ++ t) = [c] ++ unifyLineEnds t := unifyLineEnds_cons_of_ne hc t
  rcases F.mode with hsame | ⟨hcomment, hcode, hlag⟩
  · by_cases hparenthesis : s.mode = .code ∧ (c = '(' ∨ c = ')')
    · obtain ⟨hmode, rfl | rfl⟩ := hparenthesis
      · exact F.opening hmode (hsame.trans hmode)
      · exact F.closing hmode (hsame.trans hmode)
    · have hplain : s.mode = .code → c ≠ '(' ∧ c ≠ ')' := fun hmode =>
        not_or.mp fun h => hparenthesis ⟨hmode, h⟩
      obtain ⟨hstep, hout⟩ := step_of_not_parenthesis hplain
      obtain ⟨hstep', hout'⟩ := step_of_not_parenthesis (s := s') (hsame ▸ hplain)
      rw [hout, hout', hstep, hstep', hsame]
      exact ⟨rfl, F.hold hread (Or.inl rfl)⟩
  · obtain ⟨hspace, hrest⟩ := isSpace_of_lag hlag
    have hplain := not_parenthesis_of_isSpace hspace
    obtain ⟨hstep, hout⟩ := step_of_not_parenthesis (s := s) fun _ => hplain
    obtain ⟨hstep', hout'⟩ := step_of_not_parenthesis (s := s') fun _ => hplain
    rw [hout, hout', hstep, hstep', hcomment, hcode, next_code_of_isSpace hspace, Mode.next]
    refine ⟨rfl, F.hold hread ?_⟩
    split
    · exact Or.inl rfl
    · rename_i hfeed
      exact Or.inr ⟨rfl, rfl, hrest hfeed⟩

/-- **The scanners read a carriage return, made a line feed in the one.** In a comment it ends it
for this one only. -/
theorem step_return (hnext : t.head? ≠ some '\n') (F : Follows s s' ('\r' :: t))
    (hend : s.mode = .comment → (t.takeWhile (· != '\n')).all isSpace = true) :
    Follows (s.step '\r') (s'.step '\n') t := by
  have hread : unifyLineEnds (['\r'] ++ t) = ['\n'] ++ unifyLineEnds t :=
    unifyLineEnds_cons fun _ => hnext
  rw [(step_of_not_parenthesis (s := s) fun _ => by decide).1,
    (step_of_not_parenthesis (s := s') fun _ => by decide).1]
  refine F.hold hread ?_
  rcases F.mode with hsame | ⟨hcomment, hcode, _⟩
  · rw [hsame]
    rcases hmode : s.mode with _ | _ | _ | _
    · exact Or.inl rfl
    · exact Or.inr ⟨rfl, rfl, hend hmode⟩
    · exact Or.inl rfl
    · exact Or.inl rfl
  · rw [hcomment, hcode]
    exact Or.inr ⟨rfl, rfl, hend hcomment⟩

/-- **The scanners read a line end of two**, after which they are inside of the same. -/
theorem step_pair (F : Follows s s' ('\r' :: '\n' :: t)) :
    Follows ((s.step '\r').step '\n') (s'.step '\n') t := by
  have hread : unifyLineEnds (['\r', '\n'] ++ t) = ['\n'] ++ unifyLineEnds t := rfl
  rw [(step_of_not_parenthesis (s := s) fun _ => by decide).1,
    (step_of_not_parenthesis fun _ => by decide).1,
    (step_of_not_parenthesis (s := s') fun _ => by decide).1]
  dsimp only
  rw [holding_append]
  refine F.hold hread (Or.inl ?_)
  rcases F.mode with hsame | ⟨hcomment, hcode, _⟩
  · rw [hsame]
    rcases s.mode with _ | _ | _ | _ <;> rfl
  · rw [hcomment, hcode]
    rfl

end Follows

theorem output?_lineEnd (u : Scanner) :
    u.output? '\r' = none ∧ u.output? '\n' = none :=
  ⟨(step_of_not_parenthesis fun _ => by decide).2, (step_of_not_parenthesis fun _ => by decide).2⟩

/-- **The scanners complete the same commands but for their line ends.** -/
theorem outputs_unifyLineEnds {s s' : Scanner} {t : Text} (F : Follows s s' t)
    (h : returnsEndComments s.mode t = true) :
    s'.outputs (unifyLineEnds t) = (s.outputs t).map unifyLineEnds := by
  fun_induction unifyLineEnds t generalizing s s' with
  | case1 => rfl
  | case2 t ih =>
    have hpair : returnsEndComments ((s.step '\r').step '\n').mode t = true := by
      rw [mode_step, mode_step]
      unfold returnsEndComments at h
      unfold returnsEndComments at h
      exact (Bool.and_eq_true_iff.mp (Bool.and_eq_true_iff.mp h).2).2
    rw [outputs_cons, outputs_cons, outputs_cons, (output?_lineEnd s).1,
      (output?_lineEnd (s.step '\r')).2, (output?_lineEnd s').2, ih F.step_pair hpair]
    rfl
  | case3 c t hnext ih =>
    unfold returnsEndComments at h
    obtain ⟨hhere, hrest⟩ := Bool.and_eq_true_iff.mp h
    rw [← mode_step] at hrest
    by_cases hc : c = '\r'
    · subst hc
      have hhead : t.head? ≠ some '\n' := by
        intro hhead
        rcases t with _ | ⟨d, t⟩
        · cases hhead
        · exact hnext t rfl (congrArg (· :: t) (Option.some.inj hhead))
      have hend : s.mode = .comment → (t.takeWhile (· != '\n')).all isSpace = true := by
        intro hcomment
        rw [hcomment] at hhere
        exact hhere
      have hfeed : (if '\r' == '\r' then '\n' else '\r') = '\n' := rfl
      rw [hfeed, outputs_cons, outputs_cons, (output?_lineEnd s).1,
        (output?_lineEnd s').2, ih (F.step_return hhead hend) hrest]
      rfl
    · obtain ⟨hout, F'⟩ := F.step hc
      rw [beq_eq_false_iff_ne.mpr hc, if_neg Bool.false_ne_true, outputs_cons, outputs_cons, hout,
        ih F' hrest, List.map_append]
      cases s.output? c <;> rfl

end Scanner

open Text

/-- **Where carriage returns end comments, the commands of a script are the same but for their line
ends.** -/
theorem commands_unifyLineEnds {t : Text} (h : returnsEndComments .code t = true) :
    commands (unifyLineEnds t) = (commands t).map unifyLineEnds := by
  rw [commands_eq_scanner, commands_eq_scanner]
  exact Scanner.outputs_unifyLineEnds ⟨rfl, rfl, Or.inl rfl⟩ h

/-! ## What is read of a command -/

theorem commandName?_unifyLineEnds (t : Text) :
    commandName? ('(' :: unifyLineEnds t) = commandName? ('(' :: t) := by
  rw [commandName?, commandName?, dropWhile_unifyLineEnds (by decide),
    takeWhile_unifyLineEnds (by decide) (by decide)]

/-- A text without line ends is in front of the one iff it is in front of the other. -/
theorem isPrefixOf_unifyLineEnds (front : Text) (hr : '\r' ∉ front) (hf : '\n' ∉ front) (t : Text) :
    front.isPrefixOf (unifyLineEnds t) = front.isPrefixOf t ∧
      (front.isPrefixOf t = true →
        (unifyLineEnds t).drop front.length = unifyLineEnds (t.drop front.length)) := by
  induction front generalizing t with
  | nil => exact ⟨rfl, fun _ => rfl⟩
  | cons d front ih =>
    rw [List.mem_cons, not_or] at hr hf
    obtain ⟨hdr, hr⟩ := hr
    obtain ⟨hdf, hf⟩ := hf
    rcases t with _ | ⟨c, t⟩
    · exact ⟨rfl, fun h => nomatch h⟩
    by_cases hc : c = '\r'
    · subst hc
      have hreturn : (d == '\r') = false := beq_eq_false_iff_ne.mpr (Ne.symm hdr)
      have hfeed : (d == '\n') = false := beq_eq_false_iff_ne.mpr (Ne.symm hdf)
      have hhead := head?_unifyLineEnds ('\r' :: t)
      rcases hread : unifyLineEnds ('\r' :: t) with _ | ⟨e, u⟩
      · rw [hread] at hhead
        cases hhead
      · rw [hread] at hhead
        obtain rfl : e = '\n' := Option.some.inj hhead
        rw [List.isPrefixOf, List.isPrefixOf, hreturn, hfeed, Bool.false_and, Bool.false_and]
        exact ⟨rfl, fun h => nomatch h⟩
    · obtain ⟨hsame, hdrop⟩ := ih hr hf t
      rw [unifyLineEnds_cons_of_ne hc, List.isPrefixOf, List.isPrefixOf, hsame]
      exact ⟨rfl, fun h => hdrop (Bool.and_eq_true_iff.mp h).2⟩

/-- The one starts with white space iff the other does, -/
theorem any_isSpace_head?_unifyLineEnds (t : Text) :
    (unifyLineEnds t).head?.any isSpace = t.head?.any isSpace := by
  rw [head?_unifyLineEnds]
  rcases t with _ | ⟨c, t⟩
  · rfl
  by_cases hc : c = '\r'
  · subst hc
    exact (by decide : isSpace '\n' = isSpace '\r')
  · rw [List.head?_cons, Option.map_some, beq_eq_false_iff_ne.mpr hc, if_neg Bool.false_ne_true]

/-- and with a character that is no line end iff the other does. -/
theorem head?_unifyLineEnds_eq_iff {c : Char} (hreturn : c ≠ '\r') (hfeed : c ≠ '\n') (t : Text) :
    (unifyLineEnds t).head? = some c ↔ t.head? = some c := by
  rw [head?_unifyLineEnds]
  rcases t with _ | ⟨d, t⟩
  · rfl
  by_cases hd : d = '\r'
  · subst hd
    exact iff_of_false (fun h => hfeed (Option.some.inj h).symm)
      (fun h => hreturn (Option.some.inj h).symm)
  · rw [List.head?_cons, Option.map_some, beq_eq_false_iff_ne.mpr hd, if_neg Bool.false_ne_true]

theorem afterSetLogic?_unifyLineEnds (t : Text) :
    afterSetLogic? ('(' :: unifyLineEnds t) = (afterSetLogic? ('(' :: t)).map unifyLineEnds := by
  have hspace : isSpace '\r' = isSpace '\n' := by decide
  rw [afterSetLogic?, afterSetLogic?, dropWhile_unifyLineEnds hspace]
  generalize t.dropWhile isSpace = u
  obtain ⟨hsame, hdrop⟩ := isPrefixOf_unifyLineEnds "set-logic".toList (by decide) (by decide) u
  rw [hsame]
  rcases hfront : "set-logic".toList.isPrefixOf u
  · rfl
  · rw [hdrop hfront, any_isSpace_head?_unifyLineEnds, dropWhile_unifyLineEnds hspace]
    split <;> rfl

theorem dropBar_unifyLineEnds (t : Text) :
    dropBar (unifyLineEnds t) = unifyLineEnds (dropBar t) := by
  have hplain : ∀ u : Text, u.head? ≠ some '|' → dropBar u = u := by
    intro u hu
    rw [dropBar]
    rintro rest rfl
    exact hu rfl
  by_cases hbar : t.head? = some '|'
  · obtain ⟨rest, rfl⟩ := List.head?_eq_some_iff.mp hbar
    rw [unifyLineEnds_cons_of_ne (by decide)]
    rfl
  · rw [hplain t hbar, hplain _ fun h =>
      hbar ((head?_unifyLineEnds_eq_iff (by decide) (by decide) t).mp h)]

theorem declaredLogic?_unifyLineEnds (t : Text) :
    declaredLogic? ('(' :: unifyLineEnds t) = declaredLogic? ('(' :: t) := by
  have hspace : isSpace '\r' = isSpace '\n' := by decide
  unfold declaredLogic?
  rw [afterSetLogic?_unifyLineEnds]
  rcases afterSetLogic? ('(' :: t) with _ | u
  · rfl
  · dsimp only [Option.map_some, Option.bind_eq_bind, Option.bind_some]
    rw [dropBar_unifyLineEnds, takeWhile_unifyLineEnds (by decide) (by decide),
      dropWhile_unifyLineEnds (by decide), dropBar_unifyLineEnds, dropWhile_unifyLineEnds hspace]
    generalize (dropBar ((dropBar u).dropWhile isLogicChar)).dropWhile isSpace = rest
    have hclosed : ((unifyLineEnds rest).head? != some ')') = (rest.head? != some ')') := by
      rw [Bool.eq_iff_iff, bne_iff_ne, bne_iff_ne]
      exact not_congr (head?_unifyLineEnds_eq_iff (by decide) (by decide) rest)
    rw [hclosed]

end Script

namespace Benchmark

open Script Text

/-- A command and the same with other line ends declare and assert the same. -/
theorem reads_unifyLineEnds {command : Text} (h : command.head? = some '(') :
    isAssertion (unifyLineEnds command) = isAssertion command ∧
      logicOf? (unifyLineEnds command) = logicOf? command := by
  rcases command with _ | ⟨c, t⟩
  · cases h
  · obtain rfl := Option.some.inj h
    unfold isAssertion logicOf?
    rw [unifyLineEnds_cons_of_ne (by decide), commandName?_unifyLineEnds,
      declaredLogic?_unifyLineEnds]
    exact ⟨rfl, rfl⟩

theorem factsOf_map_unifyLineEnds {cs : List Text} (h : ∀ c ∈ cs, c.head? = some '(') :
    factsOf (cs.map unifyLineEnds) = factsOf cs := by
  induction cs with
  | nil => rfl
  | cons c cs ih =>
    obtain ⟨hc, hcs⟩ := List.forall_mem_cons.mp h
    obtain ⟨hassertion, hlogic⟩ := reads_unifyLineEnds hc
    obtain ⟨hcount, hfirst⟩ := Facts.mk.inj (ih hcs)
    unfold factsOf
    rw [List.map_cons, List.countP_cons, List.countP_cons, List.findSome?_cons,
      List.findSome?_cons, hassertion, hlogic, hcount, hfirst]

/-- **Where carriage returns end comments, a benchmark has the same facts when it is read from a
file.** -/
theorem facts_unifyLineEnds {t : Text} (h : returnsEndComments .code t = true)
    (path path' : Option Text) :
    (Benchmark.mk (unifyLineEnds t) path).facts = (Benchmark.mk t path').facts := by
  unfold facts
  dsimp only
  rw [commands_unifyLineEnds h]
  exact factsOf_map_unifyLineEnds fun _ => head_of_mem_commands

end Benchmark

end CoreAudit
