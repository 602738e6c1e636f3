import CoreAudit.Proofs.Script.Spans
import CoreAudit.Proofs.Script.Written

/-!
# Commands that are read again

The script around a command may be anything: parentheses that close nothing, literals and comments
that end nowhere. A command is nevertheless complete in itself. What a scanner holds has brought it
where it is, whatever was read before (`Reached`): read afresh, the held text leads to the same
state and completes nothing on the way. So a command read afresh completes itself (`Complete`) and
nothing else, and so do commands one after the other, with or without white space between them.

Headlines:
* **`complete_of_mem_commands`**: every command of a text is complete in itself.
* **`reads_joined`**: complete commands with white space between them are read one by one.
* **`commands_joined`**: the commands of a text are disjoint parts of it in the order of their
  positions, and what is read of them when they are put together is the same commands.
-/

namespace CoreAudit.Script

open Scanner

/-- What the scanner holds brings a fresh one to the same state, and completes nothing. -/
structure Reached (s : Scanner) : Prop where
  idle : s.depth = 0 → s.held = []
  again : 0 < s.depth → Reads Scanner.start s.held.reverse [] s

/-- The text is one command and nothing else: read afresh it completes itself with its last
character. -/
structure Complete (command : Text) : Prop where
  closed : command.getLast? = some ')'
  again : Reads Scanner.start command [command] Scanner.start

namespace Reached

variable {s s' : Scanner} {c : Char} {out : Option Text}

theorem start : Reached Scanner.start := ⟨fun _ => rfl, fun h => absurd h (Nat.lt_irrefl 0)⟩

/-- **Held text with one character more brings a fresh scanner one step further**, and a command
that is completed is complete in itself. -/
theorem move (M : Move s c out s') (R : Reached s) : Reached s' ∧ ∀ x ∈ out, Complete x := by
  cases M with
  | opens depth held =>
    refine ⟨⟨nofun, fun _ => ?_⟩, nofun⟩
    rw [List.reverse_cons]
    -- the first parenthesis to open is all that is held, whatever stands in front of it
    rcases Nat.eq_zero_or_pos depth with rfl | hpos
    · obtain rfl : held = [] := R.idle rfl
      exact reads_opening 0 []
    · exact (R.again hpos).append_silent (reads_opening depth held)
  | strays held => exact ⟨start, nofun⟩
  | completes held =>
    refine ⟨start, fun x hx => ?_⟩
    obtain rfl := Option.some.inj hx
    have hread := (R.again Nat.one_pos).append (reads_last held)
    exact ⟨by simp, by rwa [List.reverse_cons] at hread ⊢⟩
  | closes depth held =>
    refine ⟨⟨nofun, fun _ => ?_⟩, nofun⟩
    rw [List.reverse_cons]
    exact (R.again (Nat.succ_pos _)).append_silent (reads_closing depth held)
  | passes hplain held => exact ⟨⟨fun _ => rfl, nofun⟩, nofun⟩
  | holds hplain depth held =>
    refine ⟨⟨nofun, fun _ => ?_⟩, nofun⟩
    rw [List.reverse_cons]
    exact (R.again (Nat.succ_pos _)).append_silent (reads_char hplain (depth + 1) held)

theorem outputs (R : Reached s) (t : Text) : ∀ x ∈ s.outputs t, Complete x := by
  induction t generalizing s with
  | nil => exact nofun
  | cons c t ih =>
    obtain ⟨R', hout⟩ := R.move (s.move c)
    intro x hx
    rw [outputs_cons, List.mem_append, Option.mem_toList] at hx
    exact hx.elim (hout x) (ih R' x)

end Reached

/-- **Every command of a text, well-formed or not, is complete in itself.** -/
theorem complete_of_mem_commands {t c : Text} (h : c ∈ commands t) : Complete c := by
  rw [commands_eq_scanner] at h
  exact Reached.start.outputs t c h

/-- A text that completes the given commands and ends outside everything has these commands, and
nothing is warned of. -/
theorem commands_of_reads {t : Text} {cs : List Text} (h : Reads Scanner.start t cs Scanner.start)
    (path : Option Text) : commands t = cs ∧ (Benchmark.mk t path).records = [] := by
  obtain ⟨hout, hrun⟩ := h
  refine ⟨(commands_eq_scanner t).trans hout, if_pos ((isBalanced_eq_scanner t).mpr ?_)⟩
  rw [hrun]
  rfl

/-! ## Commands one after the other -/

/-- **Complete commands with white space between them are read one by one.** -/
theorem reads_joined {between : Text} (hblank : ∀ c ∈ between, Text.isBlank c = true)
    {cs : List Text} (hcs : ∀ c ∈ cs, Complete c) :
    Reads Scanner.start (Text.joined between cs) cs Scanner.start := by
  have hbetween : Reads Scanner.start between [] Scanner.start :=
    reads_plain (fun c hc => plain_of_isBlank (hblank c hc)) fun _ => rfl
  induction cs with
  | nil => exact Reads.nil _
  | cons c cs ih =>
    have hfirst := (hcs c List.mem_cons_self).again
    have hrest := ih fun d hd => hcs d (List.mem_cons_of_mem _ hd)
    cases cs with
    | nil =>
      have hsole : Text.joined between [c] = c := List.append_nil c
      rw [hsole]
      exact hfirst
    | cons d cs => exact hfirst.append (hbetween.append hrest)

/-- **The commands of a text, well-formed or not, read again.** They are parts of the text, each
behind the one before, and each goes from a parenthesis to a parenthesis. Put together with white
space between them, or nothing at all, they are read as the same commands, and nothing is warned
of; so is every command by itself. -/
theorem commands_joined (t between : Text) (hblank : ∀ c ∈ between, Text.isBlank c = true)
    (path : Option Text) :
    ((spans t).map (Span.text t) = commands t ∧
        (spans t).Pairwise (fun p q => p.stop ≤ q.start) ∧
        ∀ p ∈ spans t, p.start < p.stop ∧ p.stop ≤ t.length) ∧
      (∀ c ∈ commands t, c.head? = some '(' ∧ c.getLast? = some ')') ∧
      (commands (Text.joined between (commands t)) = commands t ∧
        (Benchmark.mk (Text.joined between (commands t)) path).records = []) ∧
      ∀ c ∈ commands t, commands c = [c] ∧ (Benchmark.mk c path).records = [] := by
  have hcomplete : ∀ c ∈ commands t, Complete c := fun c hc => complete_of_mem_commands hc
  exact ⟨⟨(commands_eq_spans t).symm, pairwise_spans t⟩,
    fun c hc => ⟨head_of_mem_commands hc, (hcomplete c hc).closed⟩,
    commands_of_reads (reads_joined hblank hcomplete) path,
    fun c hc => commands_of_reads (hcomplete c hc).again path⟩

/-- A text with parentheses that close nothing, a literal and a quoted symbol that hold some, and a
comment that swallows the end of what is begun. -/
def strayText : Text := ") \"(\" (a |(| \"\"\")\") \"b\" ) (c) (d ; )".toList

/-- Its commands, read again with white space between them. -/
theorem commands_joined_strayText :
    (∀ c ∈ ['\n', '\t'], Text.isBlank c = true) ∧
      commands strayText = ["(a |(| \"\"\")\")".toList, "(c)".toList] ∧
      commands "(a |(| \"\"\")\")\n\t(c)".toList =
        ["(a |(| \"\"\")\")".toList, "(c)".toList] := by
  have hblank : ∀ c ∈ ['\n', '\t'], Text.isBlank c = true := List.all_eq_true.mp (by decide)
  have hcommands : commands strayText = ["(a |(| \"\"\")\")".toList, "(c)".toList] := by
    rw [commands_eq_scanner]
    decide
  have hagain := (commands_joined strayText ['\n', '\t'] hblank none).2.2.1.1
  rw [hcommands] at hagain
  exact ⟨hblank, hcommands, hagain⟩

end CoreAudit.Script
