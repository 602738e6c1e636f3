import CoreAudit.Benchmark
import CoreAudit.Proofs.Script.Automaton

/-!
# Where the commands of a script are

The scan of a script goes from lexeme to lexeme: to the end of a comment or of a quoted symbol at
once, and in a literal it looks one quote ahead. A `Tracker` reads one character at a time and looks
at none ahead. It holds no text either: it knows what it is inside of, how many parentheses are
open, where it is, and where the command begun starts. The parenthesis that closes the last open one
completes a command, which is what stands between the mark and here (`Span`).

`Tracks` relates a tracker to a scanner that has read the same text, and one character keeps them
related (`Tracks.move`). The spans themselves are ordered: a tracker emits nothing in front of where
it may still emit (`Tracker.frontier`).

Headlines:
* **`commands_eq_spans`**: the commands of a script are what stands in the spans of a tracker.
* **`commands_eq_tracked`**: so they are for every text, found in at most one round a character, and
  the warning is given iff the tracker ends with something open.
* **`pairwise_spans`**: no span overlaps another, and they come in the order of their positions.
-/

namespace CoreAudit.Script

/-- A part of a text, from one position up to another. -/
structure Span where
  start : Nat
  stop : Nat
  deriving Repr, DecidableEq

/-- What stands in the span. -/
def Span.text (t : Text) (p : Span) : Text := (t.take p.stop).drop p.start

/-- A tracker: what it is inside of, the number of open parentheses, where the command begun
starts, and where it is. -/
structure Tracker where
  mode : Mode
  depth : Nat
  mark : Nat
  here : Nat
  deriving Repr, DecidableEq

namespace Tracker

/-- Nothing is read. -/
def start : Tracker := ⟨.code, 0, 0, 0⟩

/-- The tracker after a character. Only the parentheses of the code count; the first to open marks
the start of a command, and one that closes nothing is passed over. -/
def step (a : Tracker) (c : Char) : Tracker where
  mode := a.mode.next c
  depth :=
    if a.mode = .code ∧ c = '(' then a.depth + 1
    else if a.mode = .code ∧ c = ')' then a.depth - 1
    else a.depth
  mark := if a.mode = .code ∧ c = '(' ∧ a.depth = 0 then a.here else a.mark
  here := a.here + 1

/-- The span that a character completes: from the mark up to and including the parenthesis that
closes the last open one. -/
def emit? (a : Tracker) (c : Char) : Option Span :=
  if a.mode = .code ∧ c = ')' ∧ a.depth = 1 then some ⟨a.mark, a.here + 1⟩ else none

/-- The tracker after a text. -/
def run (a : Tracker) (t : Text) : Tracker := t.foldl step a

/-- The spans that a text completes, in order. -/
def spans (a : Tracker) : Text → List Span
  | [] => []
  | c :: t => (a.emit? c).toList ++ (a.step c).spans t

@[simp] theorem spans_cons (a : Tracker) (c : Char) (t : Text) :
    a.spans (c :: t) = (a.emit? c).toList ++ (a.step c).spans t := rfl

/-- A character that is no parenthesis of the code changes the mode at most, and completes
nothing. -/
theorem step_of_not_parenthesis {a : Tracker} {c : Char}
    (h : a.mode = .code → c ≠ '(' ∧ c ≠ ')') :
    a.step c = ⟨a.mode.next c, a.depth, a.mark, a.here + 1⟩ ∧ a.emit? c = none := by
  have hopen : ¬ (a.mode = .code ∧ c = '(') := fun hc => (h hc.1).1 hc.2
  have hclose : ¬ (a.mode = .code ∧ c = ')') := fun hc => (h hc.1).2 hc.2
  have hmark : ¬ (a.mode = .code ∧ c = '(' ∧ a.depth = 0) := fun hc => hopen ⟨hc.1, hc.2.1⟩
  exact ⟨by simp only [step, if_neg hopen, if_neg hclose, if_neg hmark],
    if_neg fun hc => hclose ⟨hc.1, hc.2.1⟩⟩

end Tracker

/-! ## A tracker beside a scanner -/

/-- A tracker and a scanner have read the same text: they are inside of the same, the same
parentheses are open, and the text held goes from the mark up to here. -/
structure Tracks (seen : Text) (s : Scanner) (a : Tracker) : Prop where
  mode : a.mode = s.mode
  depth : a.depth = s.depth
  here : a.here = seen.length
  idle : s.depth = 0 → s.held = []
  mark : 0 < s.depth → ∃ before, seen = before ++ s.held.reverse ∧ a.mark = before.length

namespace Tracks

variable {seen : Text} {s s' : Scanner} {a : Tracker} {c : Char} {out : Option Text}

theorem start : Tracks [] Scanner.start Tracker.start :=
  ⟨rfl, rfl, rfl, fun _ => rfl, fun h => absurd h (Nat.lt_irrefl 0)⟩

theorem text_span {before held rest : Text} (hseen : seen = before ++ held.reverse) :
    Span.text (seen ++ ')' :: rest) ⟨before.length, seen.length + 1⟩ = (')' :: held).reverse := by
  have hsplit : seen ++ ')' :: rest = (seen ++ [')']) ++ rest := by simp
  have hlength : seen.length + 1 = (seen ++ [')']).length := by simp
  unfold Span.text
  rw [hsplit, hlength, List.take_left, hseen, List.append_assoc, List.drop_left, List.reverse_cons]

/-- **One character keeps a tracker beside its scanner, and completes the same command for both.**
-/
theorem move (M : Scanner.Move s c out s') (T : Tracks seen s a) (rest : Text) :
    Tracks (seen ++ [c]) s' (a.step c) ∧
      out = (a.emit? c).map (Span.text (seen ++ c :: rest)) := by
  obtain ⟨mode, depth, mark, here⟩ := a
  obtain ⟨hmode, hdepth, hhere, hidle, hmark⟩ := T
  dsimp only at hmode hdepth hhere hmark
  subst hmode hdepth hhere
  have hlength : (seen ++ [c]).length = seen.length + 1 := by simp
  cases M with
  | opens depth held =>
    refine ⟨⟨rfl, by simp [Tracker.step], hlength.symm, nofun, fun _ => ?_⟩,
      by simp [Tracker.emit?]⟩
    -- the first parenthesis to open marks where it stands, and nothing is held in front of it
    rcases Nat.eq_zero_or_pos depth with rfl | hpos
    · obtain rfl : held = [] := hidle rfl
      exact ⟨seen, by simp, by simp [Tracker.step]⟩
    · obtain ⟨before, hseen, rfl⟩ := hmark hpos
      exact ⟨before, by simp [hseen], by simp [Tracker.step, Nat.ne_of_gt hpos]⟩
  | strays held =>
    exact ⟨⟨rfl, by simp [Tracker.step, Scanner.start], hlength.symm, fun _ => rfl, nofun⟩,
      by simp [Tracker.emit?]⟩
  | completes held =>
    obtain ⟨before, hseen, rfl⟩ := hmark Nat.one_pos
    refine ⟨⟨rfl, by simp [Tracker.step, Scanner.start], hlength.symm, fun _ => rfl, nofun⟩, ?_⟩
    simp only [Tracker.emit?, and_self, if_true, Option.map_some, text_span hseen]
  | closes depth held =>
    obtain ⟨before, hseen, rfl⟩ := hmark (Nat.succ_pos _)
    exact ⟨⟨rfl, by simp [Tracker.step], hlength.symm, nofun,
      fun _ => ⟨before, by simp [hseen], by simp [Tracker.step]⟩⟩, by simp [Tracker.emit?]⟩
  | passes hplain held =>
    rename_i mode
    obtain ⟨hstep, hemit⟩ :=
      Tracker.step_of_not_parenthesis (a := ⟨mode, 0, mark, seen.length⟩) hplain
    rw [hstep, hemit]
    exact ⟨⟨rfl, rfl, hlength.symm, fun _ => rfl, nofun⟩, rfl⟩
  | holds hplain depth held =>
    rename_i mode
    obtain ⟨before, hseen, rfl⟩ := hmark (Nat.succ_pos _)
    obtain ⟨hstep, hemit⟩ :=
      Tracker.step_of_not_parenthesis (a := ⟨mode, depth + 1, before.length, seen.length⟩) hplain
    rw [hstep, hemit]
    exact ⟨⟨rfl, rfl, hlength.symm, nofun, fun _ => ⟨before, by simp [hseen], rfl⟩⟩, rfl⟩

end Tracks

/-- **A tracker beside a scanner completes the same commands, and leaves as many parentheses
open.** -/
theorem outputs_eq_spans {seen : Text} {s : Scanner} {a : Tracker} (T : Tracks seen s a) (t : Text) :
    s.outputs t = (a.spans t).map (Span.text (seen ++ t)) ∧ (s.run t).depth = (a.run t).depth := by
  induction t generalizing seen s a with
  | nil => exact ⟨rfl, T.depth.symm⟩
  | cons c t ih =>
    obtain ⟨T', hout⟩ := T.move (s.move c) t
    obtain ⟨hrest, hdepth⟩ := ih T'
    have hsplit : seen ++ [c] ++ t = seen ++ c :: t := by simp
    rw [hsplit] at hrest
    rw [Scanner.outputs_cons, Tracker.spans_cons, List.map_append, hout, hrest]
    exact ⟨by cases a.emit? c <;> rfl, hdepth⟩

/-- The spans of the commands of a script. -/
def spans (t : Text) : List Span := Tracker.start.spans t

/-- **The commands of a script are what stands in its spans.** -/
theorem commands_eq_spans (t : Text) : commands t = (spans t).map (Span.text t) := by
  rw [commands_eq_scanner]
  exact (outputs_eq_spans Tracks.start t).1

/-! ## The order of the spans -/

namespace Tracker

/-- The mark of a command begun is behind. -/
def Marked (a : Tracker) : Prop := 0 < a.depth → a.mark < a.here

/-- Nothing that starts in front of this is completed any more. -/
def frontier (a : Tracker) : Nat := if a.depth = 0 then a.here else a.mark

variable {a : Tracker}

theorem Marked.step (h : a.Marked) (c : Char) :
    (a.step c).Marked ∧ a.frontier ≤ (a.step c).frontier := by
  unfold Marked frontier Tracker.step at *
  constructor
  · grind
  · grind

/-- The span that a character completes starts at the frontier, and from then on the frontier is
behind it. -/
theorem Marked.emits {c : Char} {p : Span} (h : a.Marked) (he : a.emit? c = some p) :
    a.frontier ≤ p.start ∧ p.start < p.stop ∧ p.stop ≤ (a.step c).frontier ∧
      p.stop = a.here + 1 := by
  unfold Marked at h
  unfold emit? at he
  unfold frontier Tracker.step
  grind

/-- **What a tracker completes lies between its frontier and the end of the text, each span behind
the one before.** -/
theorem Marked.spans (h : a.Marked) (t : Text) :
    (∀ p ∈ a.spans t, a.frontier ≤ p.start ∧ p.start < p.stop ∧ p.stop ≤ a.here + t.length) ∧
      (a.spans t).Pairwise fun p q => p.stop ≤ q.start := by
  induction t generalizing a with
  | nil => exact ⟨nofun, List.Pairwise.nil⟩
  | cons c t ih =>
    obtain ⟨hmarked, hfrontier⟩ := h.step c
    obtain ⟨hbounds, hordered⟩ := ih hmarked
    have hlater : ∀ p ∈ (a.step c).spans t,
        a.frontier ≤ p.start ∧ p.start < p.stop ∧ p.stop ≤ a.here + (c :: t).length := by
      intro p hp
      obtain ⟨hstart, hnonempty, hstop⟩ := hbounds p hp
      have hhere : (a.step c).here = a.here + 1 := rfl
      rw [List.length_cons]
      exact ⟨Nat.le_trans hfrontier hstart, hnonempty, by omega⟩
    rw [spans_cons]
    cases hemit : a.emit? c with
    | none => exact ⟨hlater, hordered⟩
    | some p =>
      obtain ⟨hstart, hnonempty, hbehind, hstop⟩ := h.emits hemit
      refine ⟨List.forall_mem_cons.mpr ⟨⟨hstart, hnonempty, ?_⟩, hlater⟩,
        List.pairwise_cons.mpr ⟨fun q hq => Nat.le_trans hbehind (hbounds q hq).1, hordered⟩⟩
      rw [hstop, List.length_cons]
      omega

end Tracker

/-- **No span overlaps another: they come in the order of their positions, and lie in the
script.** -/
theorem pairwise_spans (t : Text) :
    (spans t).Pairwise (fun p q => p.stop ≤ q.start) ∧
      ∀ p ∈ spans t, p.start < p.stop ∧ p.stop ≤ t.length := by
  have hstart : Tracker.start.Marked := nofun
  obtain ⟨hbounds, hordered⟩ := hstart.spans t
  refine ⟨hordered, fun p hp => ?_⟩
  obtain ⟨-, hnonempty, hstop⟩ := hbounds p hp
  exact ⟨hnonempty, Nat.le_trans hstop (Nat.le_of_eq (Nat.zero_add _))⟩

/-! ## Every text -/

/-- **The scan of a text, well-formed or not, is what a tracker makes of it one character at a
time.** It takes at most one round a character; the commands are, in order, what stands in the
spans that the tracker completes; and the warning is given, once, iff the tracker ends with
something open. -/
theorem commands_eq_tracked (t : Text) (path : Option Text) :
    (Lexeme.ofText t).length ≤ t.length ∧
      commands t = (Tracker.start.spans t).map (Span.text t) ∧
      (Benchmark.mk t path).records =
        if 0 < (Tracker.start.run t).depth then
          [⟨.warning, .benchmark, "Unbalanced parentheses at end of benchmark".toList⟩]
        else [] := by
  refine ⟨Lexeme.length_ofText_le t, commands_eq_spans t, ?_⟩
  have hdepth : (Scanner.start.run t).depth = (Tracker.start.run t).depth :=
    (outputs_eq_spans Tracks.start t).2
  have hbalanced : isBalanced t = true ↔ ¬ 0 < (Tracker.start.run t).depth := by
    rw [isBalanced_eq_scanner, hdepth, Nat.not_lt, Nat.le_zero]
  unfold Benchmark.records
  by_cases h : 0 < (Tracker.start.run t).depth
  · rw [if_pos h, if_neg fun hb => hbalanced.mp hb h]
  · rw [if_neg h, if_pos (hbalanced.mpr h)]

/-- A parenthesis in a literal counts as little as one that closes nothing. -/
example : Tracker.start.spans ") \"(\" (a) (b".toList = [⟨6, 9⟩] := by decide

end CoreAudit.Script
