import CoreAudit.Benchmark
import CoreAudit.Proofs.Script.Automaton

/-!
# Scripts one after the other

Where a script is followed by another, the scan looks past the end of the first: for the end of a
comment, for the second bar of a symbol, for a quote right after a quote. A scanner that reads one
character at a time does not look ahead, so what a script completes it completes whatever follows.
If nothing is left open at its end either (`EndsOutside`), what follows is read as if nothing stood
in front of it. That is so even where a literal ends the first script and another starts the second:
the two quotes are then read as one that is escaped, in one literal, and the commands are the same.

A script ends outside everything if its parentheses are closed and its lexemes are
(`Lexeme.isClosed`): only the last lexeme can be open, and then the scanner is still inside of it.

Headlines:
* **`mode_run_eq_code_iff`**: a scanner ends in the code iff every lexeme is closed.
* **`endsOutside_iff`**: a script ends outside everything iff it leads back to the start.
* **`commands_append`**: scripts one after the other complete their commands one after the other.
-/

namespace CoreAudit.Script

/-- The lexeme does not go on in what follows: a comment has its line feed, a quoted symbol its
second bar. Each quote of a literal opens or closes it, so a closed one has an even number of
them. -/
def Lexeme.isClosed : Lexeme → Bool
  | comment t => t.contains '\n'
  | literal t => t.count '"' % 2 == 0
  | quoted t => t.tail.contains '|'
  | opening | closing | other _ => true

/-- The script ends outside every list, comment, literal and quoted symbol. -/
def EndsOutside (t : Text) : Prop :=
  isBalanced t = true ∧ ∀ l ∈ Lexeme.ofText t, l.isClosed = true

/-! ## What a script ends inside of -/

/-- A comment or a quoted symbol ends with its closing mark, if it has one. -/
theorem foldl_next_through (mode : Mode) {mark : Char}
    (hnext : ∀ c, mode.next c = if c = mark then .code else mode) (t : Text) :
    t.foldl Mode.next mode =
      if mark ∈ (Lexeme.through mark t).1 then (Lexeme.through mark t).2.foldl Mode.next .code
      else mode := by
  induction t with
  | nil => rfl
  | cons c t ih =>
    rw [List.foldl_cons, hnext]
    unfold Lexeme.through
    by_cases hc : c = mark
    · simp [hc]
    · have hne : ¬ mark = c := fun h => hc h.symm
      simp [hc, hne, ih]

/-- A literal ends with a quote that makes their number odd, not counting the one in front. -/
theorem foldl_next_throughLiteral (t : Text) :
    t.foldl Mode.next .literal =
      if (Lexeme.throughLiteral t).1.count '"' % 2 = 1 then
        (Lexeme.throughLiteral t).2.foldl Mode.next .code
      else .literal := by
  fun_induction Lexeme.throughLiteral t with
  | case1 => rfl
  | case2 t ih =>
    -- a quote written twice leaves the literal and enters it again
    have hpair : ('"' :: '"' :: t).foldl Mode.next .literal = t.foldl Mode.next .literal := rfl
    have hcount : ('"' :: '"' :: (Lexeme.throughLiteral t).1).count '"' =
        (Lexeme.throughLiteral t).1.count '"' + 2 := by simp
    rw [hpair, ih, hcount, Nat.add_mod_right]
  | case3 t => rfl
  | case4 c t _ hc ih =>
    have hcount : (c :: (Lexeme.throughLiteral t).1).count '"' =
        (Lexeme.throughLiteral t).1.count '"' := List.count_cons_of_ne hc
    rw [List.foldl_cons, Mode.next, if_neg hc, ih, hcount]

/-- A lexeme in front of a text: if it ends, the text is read from the code, and if not, the reader
stays inside of it. -/
theorem foldl_next_cons_iff {l : Lexeme} {t rest : Text} {mode : Mode} {P : Prop} [Decidable P]
    (hread : t.foldl Mode.next .code = if P then rest.foldl Mode.next .code else mode)
    (hmode : mode ≠ .code) (hclosed : l.isClosed = true ↔ P)
    (hrest : rest.foldl Mode.next .code = .code ↔ ∀ k ∈ Lexeme.ofText rest, k.isClosed = true) :
    t.foldl Mode.next .code = .code ↔ ∀ k ∈ l :: Lexeme.ofText rest, k.isClosed = true := by
  rw [List.forall_mem_cons, hclosed, ← hrest, hread]
  by_cases h : P
  · rw [if_pos h]
    exact (and_iff_right h).symm
  · rw [if_neg h]
    exact iff_of_false hmode fun hall => h hall.1

/-- **The code is left and entered again with every lexeme, unless the last is open.** -/
theorem foldl_next_eq_code_iff (t : Text) :
    t.foldl Mode.next .code = .code ↔ ∀ l ∈ Lexeme.ofText t, l.isClosed = true := by
  fun_induction Lexeme.ofText t with
  | case1 => simp
  | case2 t ih | case3 t _ ih =>
    rw [List.forall_mem_cons, ← ih]
    exact (and_iff_right rfl).symm
  | case4 t _ _ ih =>
    have hclosed : (Lexeme.comment (';' :: (Lexeme.through '\n' t).1)).isClosed = true ↔
        '\n' ∈ (Lexeme.through '\n' t).1 := by
      simp [Lexeme.isClosed]
    exact foldl_next_cons_iff (foldl_next_through .comment (fun _ => rfl) t) (by decide)
      hclosed ih
  | case5 t _ _ _ ih =>
    have hclosed : (Lexeme.literal ('"' :: (Lexeme.throughLiteral t).1)).isClosed = true ↔
        (Lexeme.throughLiteral t).1.count '"' % 2 = 1 := by
      simp only [Lexeme.isClosed, List.count_cons_self, beq_iff_eq]
      omega
    exact foldl_next_cons_iff (foldl_next_throughLiteral t) (by decide) hclosed ih
  | case6 t _ _ _ _ ih =>
    have hclosed : (Lexeme.quoted ('|' :: (Lexeme.through '|' t).1)).isClosed = true ↔
        '|' ∈ (Lexeme.through '|' t).1 := by
      simp [Lexeme.isClosed]
    exact foldl_next_cons_iff (foldl_next_through .quoted (fun _ => rfl) t) (by decide)
      hclosed ih
  | case7 c t hopen hclose hsemi hquote hbar ih =>
    have hnext : Mode.code.next c = .code := by
      rw [Mode.next, if_neg hsemi, if_neg hquote, if_neg hbar]
    rw [List.forall_mem_cons, ← ih, List.foldl_cons, hnext]
    exact (and_iff_right rfl).symm

namespace Scanner

theorem mode_run (s : Scanner) (t : Text) : (s.run t).mode = t.foldl Mode.next s.mode := by
  induction t generalizing s with
  | nil => rfl
  | cons c t ih => rw [run_cons, ih, mode_step, List.foldl_cons]

theorem held_run {s : Scanner} (h : s.depth = 0 → s.held = []) (t : Text) :
    (s.run t).depth = 0 → (s.run t).held = [] := by
  induction t generalizing s with
  | nil => exact h
  | cons c t ih => exact ih (s.move c).idle

end Scanner

/-- **A scanner ends in the code iff every lexeme is closed.** -/
theorem mode_run_eq_code_iff (t : Text) :
    (Scanner.start.run t).mode = .code ↔ ∀ l ∈ Lexeme.ofText t, l.isClosed = true := by
  rw [Scanner.mode_run]
  exact foldl_next_eq_code_iff t

/-- **A script ends outside everything iff it leads the scanner back to the start.** -/
theorem endsOutside_iff (t : Text) : EndsOutside t ↔ Scanner.start.run t = Scanner.start := by
  rw [EndsOutside, isBalanced_eq_scanner, ← mode_run_eq_code_iff]
  constructor
  · rintro ⟨hdepth, hmode⟩
    have hheld := Scanner.held_run (s := Scanner.start) (fun _ => rfl) t hdepth
    generalize Scanner.start.run t = s at *
    obtain ⟨mode, depth, held⟩ := s
    subst hmode hdepth hheld
    rfl
  · intro h
    rw [h]
    exact ⟨rfl, rfl⟩

/-! ## What follows a script -/

/-- The logic of scripts one after the other is that of the first that declares one. -/
theorem logic_eq_of_facts {t a b : Text} (path : Option Text)
    (h : (Benchmark.mk t path).facts.logic =
      (Benchmark.mk a path).facts.logic.or (Benchmark.mk b path).facts.logic) :
    (Benchmark.mk t path).logic =
      match (Benchmark.mk a path).logic with
      | .ok logic => .ok logic
      | .error _ => (Benchmark.mk b path).logic := by
  unfold Benchmark.logic
  rw [h]
  cases (Benchmark.mk a path).facts.logic with
  | none => rfl
  | some logic => rfl

/-- **The commands of a script stay the same whatever follows it, and come first.** If it ends
outside everything, the commands of what follows come next, and are those it has by itself: so the
assertions add up, and the logic is that of the first script if it declares one, and otherwise that
of the second. -/
theorem commands_append (a b : Text) :
    commands a <+: commands (a ++ b) ∧
      (EndsOutside a →
        commands (a ++ b) = commands a ++ commands b ∧
          ∀ path : Option Text,
            (Benchmark.mk (a ++ b) path).assertCount =
              (Benchmark.mk a path).assertCount + (Benchmark.mk b path).assertCount ∧
            (Benchmark.mk (a ++ b) path).logic =
              match (Benchmark.mk a path).logic with
              | .ok logic => .ok logic
              | .error _ => (Benchmark.mk b path).logic) := by
  have hsplit : commands (a ++ b) = commands a ++ (Scanner.start.run a).outputs b := by
    rw [commands_eq_scanner, commands_eq_scanner, Scanner.outputs_append]
  refine ⟨⟨_, hsplit.symm⟩, fun hends => ?_⟩
  rw [(endsOutside_iff a).mp hends, ← commands_eq_scanner] at hsplit
  refine ⟨hsplit, fun path => ?_⟩
  have hfacts : (Benchmark.mk (a ++ b) path).facts =
      ⟨(Benchmark.mk a path).facts.assertCount + (Benchmark.mk b path).facts.assertCount,
        (Benchmark.mk a path).facts.logic.or (Benchmark.mk b path).facts.logic⟩ := by
    unfold Benchmark.facts
    rw [hsplit, Benchmark.factsOf_append]
  exact ⟨congrArg Benchmark.Facts.assertCount hfacts,
    logic_eq_of_facts path (congrArg Benchmark.Facts.logic hfacts)⟩

/-- A script that a literal ends, and one that a literal starts: `"x""y"` is one literal in them. -/
theorem commands_append_literals :
    EndsOutside "(set-logic QF_S) \"x\"".toList ∧
      commands "(set-logic QF_S) \"x\"\"y\" (assert p)".toList =
        ["(set-logic QF_S)".toList, "(assert p)".toList] ∧
      (Benchmark.mk "(set-logic QF_S) \"x\"\"y\" (assert p)".toList none).logic =
        .ok "QF_S".toList := by
  have hends : EndsOutside "(set-logic QF_S) \"x\"".toList := by
    rw [endsOutside_iff]
    rfl
  obtain ⟨hcommands, hfacts⟩ :=
    (commands_append "(set-logic QF_S) \"x\"".toList "\"y\" (assert p)".toList).2 hends
  have hlogic : (Benchmark.mk "(set-logic QF_S) \"x\"".toList none).logic = .ok "QF_S".toList := by
    rw [Benchmark.logic, Benchmark.facts, commands_eq_scanner]
    rfl
  refine ⟨hends, hcommands.trans ?_, (hfacts none).2.trans (by rw [hlogic])⟩
  rw [commands_eq_scanner, commands_eq_scanner]
  rfl

end CoreAudit.Script
