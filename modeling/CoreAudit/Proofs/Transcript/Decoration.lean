import CoreAudit.Audit.Basic
import CoreAudit.Proofs.Text.Encoding
import CoreAudit.Transcript

/-!
# Decorated transcripts

The competition harness decorates what a solver prints: it may put a stamp in front of any line,
it puts `success` lines anywhere, stamped or not, and it ends lines in one of two ways. `Decorated`
says which texts arise in this way from the lines of a solver. The transcript of such a text is
the transcript of the bare lines, whether the text is given as characters or as bytes, so that no
audit can tell the two apart.

The lines of the solver are plain: they hold no line end, and none of them starts with a stamp of
its own, which would be taken for one of the harness.

Headlines:
* **`cut?_eq_some_iff`**: a stamp is found iff the line starts with one, and it is cut off once.
* **`normalize_splitLines`**: of a decorated text the plain lines are left.
* **`ofText_decorated`**: decoration is invisible to the transcript and to an audit.
-/

namespace CoreAudit

/-! ## Stamps -/

namespace Stamp

open Text

/-- No decimal digit lies in ranges that are apart from the digits of every script. -/
theorem not_inRanges_of_isDecimal {ranges : List (Nat × Nat)} {c : Char}
    (hapart : ∀ z ∈ Digit.zeros ++ Digit.unreadZeros, ∀ r ∈ ranges, z + 10 ≤ r.1 ∨ r.2 < z)
    (h : Digit.isDecimal c = true) : inRanges ranges c = false := by
  obtain ⟨z, hz, hfrom⟩ : ∃ z ∈ Digit.zeros ++ Digit.unreadZeros, Digit.isFrom c z = true := by
    rw [Digit.isDecimal, Bool.or_eq_true, Digit.isDigit, Digit.value?, Option.isSome_map,
      List.find?_isSome] at h
    rcases h with ⟨z, hz, hfrom⟩ | h
    · exact ⟨z, List.mem_append_left _ hz, hfrom⟩
    · obtain ⟨z, hz, hfrom⟩ := List.any_eq_true.mp h
      exact ⟨z, List.mem_append_right _ hz, hfrom⟩
  simp only [Digit.isFrom, Bool.and_eq_true, decide_eq_true_eq] at hfrom
  rw [inRanges, List.any_eq_false]
  intro r hr hin
  rw [Bool.and_eq_true, decide_eq_true_eq, decide_eq_true_eq] at hin
  have := hapart z hz r hr
  omega

theorem not_isLineEnd_of_isDecimal {c : Char} (h : Digit.isDecimal c = true) :
    isLineEnd c = false := not_inRanges_of_isDecimal (by decide) h

section Marks

variable {P : Char → Prop} (hdigit : ∀ c, Digit.isDecimal c = true → P c) (hpoint : P '.')
include hdigit hpoint

theorem forall_of_isNumber {n : Text} (hn : IsNumber n) : ∀ c ∈ n, P c := by
  have hdigits : ∀ ds : Text, ds.all Digit.isDecimal = true → ∀ c ∈ ds, P c :=
    fun ds h c hc => hdigit c (List.all_eq_true.mp h c hc)
  obtain ⟨whole, _, hw, rfl | ⟨places, _, hp, rfl⟩⟩ := hn
  · exact hdigits _ hw
  · intro c hc
    rcases List.mem_append.mp hc with hc | hc
    · exact hdigits _ hw c hc
    · rcases List.mem_cons.mp hc with rfl | hc
      · exact hpoint
      · exact hdigits _ hp c hc

theorem forall_of_isStamp (hslash : P '/') (htab : P '\t') {s : Text} (hs : IsStamp s) :
    ∀ c ∈ s, P c := by
  obtain ⟨a, b, ha, hb, rfl⟩ := hs
  intro c hc
  simp only [List.mem_append, List.mem_cons, List.not_mem_nil, or_false] at hc
  rcases hc with (hc | rfl | hc) | rfl
  · exact forall_of_isNumber hdigit hpoint ha c hc
  · exact hslash
  · exact forall_of_isNumber hdigit hpoint hb c hc
  · exact htab

end Marks

theorem not_isLineEnd_of_isStamp {s : Text} (hs : IsStamp s) : ∀ c ∈ s, isLineEnd c = false :=
  forall_of_isStamp (fun _ => not_isLineEnd_of_isDecimal) (by decide) (by decide) (by decide) hs

theorem of_cutNumber?_eq_some {t rest : Text} (h : cutNumber? t = some rest) :
    ∃ n, IsNumber n ∧ t = n ++ rest := by
  unfold cutNumber? at h
  dsimp only at h
  split at h
  · cases h
  · rename_i hwhole
    rw [List.isEmpty_iff] at hwhole
    have hsplit : t = t.takeWhile Digit.isDecimal ++ t.dropWhile Digit.isDecimal :=
      List.takeWhile_append_dropWhile.symm
    split at h
    · rename_i r hpoint
      split at h
      · cases h
      · rename_i hplaces
        rw [List.isEmpty_iff] at hplaces
        cases h
        refine ⟨t.takeWhile Digit.isDecimal ++ '.' :: r.takeWhile Digit.isDecimal,
          ⟨_, hwhole, List.all_takeWhile, Or.inr ⟨_, hplaces, List.all_takeWhile, rfl⟩⟩, ?_⟩
        rw [List.append_assoc, List.cons_append, List.takeWhile_append_dropWhile, ← hpoint]
        exact hsplit
    · cases h
      exact ⟨_, ⟨_, hwhole, List.all_takeWhile, Or.inl rfl⟩, hsplit⟩

/-- **A stamp is found iff the line starts with one, and what is found after it is the rest.** -/
theorem cut?_eq_some_iff {t rest : Text} :
    cut? t = some rest ↔ ∃ s, IsStamp s ∧ t = s ++ rest := by
  constructor
  · intro h
    unfold cut? at h
    split at h
    · rename_i r hfirst
      split at h
      · rename_i rest' hsecond
        cases h
        obtain ⟨a, ha, rfl⟩ := of_cutNumber?_eq_some hfirst
        obtain ⟨b, hb, rfl⟩ := of_cutNumber?_eq_some hsecond
        exact ⟨_, ⟨a, b, ha, hb, rfl⟩, by simp⟩
      · cases h
    · cases h
  · rintro ⟨s, ⟨a, b, ha, hb, rfl⟩, rfl⟩
    have hslash : Digit.isDecimal '/' = false := by decide
    have htab : Digit.isDecimal '\t' = false := by decide
    have hsplit : a ++ '/' :: b ++ ['\t'] ++ rest = a ++ '/' :: (b ++ '\t' :: rest) := by simp
    simp only [cut?, hsplit, cutNumber?_append ha hslash (by decide),
      cutNumber?_append hb htab (by decide)]

theorem cut?_eq_none_iff {t : Text} : cut? t = none ↔ ∀ s, IsStamp s → ¬ s <+: t := by
  constructor
  · rintro h s hs ⟨rest, rfl⟩
    rw [cut?_eq_some_iff.mpr ⟨s, hs, rfl⟩] at h
    cases h
  · intro h
    cases hcut : cut? t with
    | none => rfl
    | some rest =>
      obtain ⟨s, hs, rfl⟩ := cut?_eq_some_iff.mp hcut
      exact absurd (List.prefix_append s rest) (h s hs)

theorem drop_of_unstamped {t : Text} (h : ∀ s, IsStamp s → ¬ s <+: t) : drop t = t := by
  rw [drop, cut?_eq_none_iff.mpr h, Option.getD_none]

end Stamp

namespace Transcript

open Text

/-! ## Decoration -/

/-- The two ways in which a line of the harness ends. -/
def lineEnds : List Text := [['\n'], ['\r', '\n']]

/-- What may stand in front of a line: nothing or a stamp. -/
def IsLabel (label : Text) : Prop := label = [] ∨ Stamp.IsStamp label

/-- A line as a solver prints it: it holds no line end, and it starts with no stamp. -/
structure Plain (line : Text) : Prop where
  unbroken : ∀ c ∈ line, isLineEnd c = false
  unstamped : ∀ s, Stamp.IsStamp s → ¬ s <+: line

theorem plain_iff {line : Text} :
    Plain line ↔ (line.all fun c => !isLineEnd c) = true ∧ Stamp.cut? line = none := by
  simp only [List.all_eq_true, Bool.not_eq_true', Stamp.cut?_eq_none_iff]
  exact ⟨fun h => ⟨h.unbroken, h.unstamped⟩, fun h => ⟨h.1, h.2⟩⟩

instance (line : Text) : Decidable (Plain line) := decidable_of_iff _ plain_iff.symm

/-- The text that the harness makes of the lines: each of them may be stamped, acknowledgements
stand anywhere, and every line has one of the two ends. -/
inductive Decorated : List Text → Text → Prop
  | nil : Decorated [] []
  | line {label ending raw : Text} {lines : List Text} (line : Text) (labelled : IsLabel label)
      (ended : ending ∈ lineEnds) (rest : Decorated lines raw) :
      Decorated (line :: lines) (label ++ line ++ ending ++ raw)
  | acknowledgement {label ending raw : Text} {lines : List Text} (labelled : IsLabel label)
      (ended : ending ∈ lineEnds) (rest : Decorated lines raw) :
      Decorated lines (label ++ acknowledgement ++ ending ++ raw)

theorem splitLines_append {l t : Text} {rest : List Text} (hl : ∀ c ∈ l, isLineEnd c = false)
    (ht : splitLines t = [] :: rest) : splitLines (l ++ t) = l :: rest := by
  induction l with
  | nil => exact ht
  | cons c l ih =>
    have hc : isLineEnd c = false := hl c List.mem_cons_self
    have hr : c ≠ '\r' := by rintro rfl; revert hc; decide
    have ih := ih fun d hd => hl d (List.mem_cons_of_mem _ hd)
    rw [List.cons_append, splitLines]
    · rw [ih, if_neg (by rw [hc]; exact Bool.false_ne_true)]
    · rintro u rfl; exact absurd rfl hr

/-- Neither of the two ends of a line belongs to it. -/
theorem splitLines_ended {l ending : Text} (hl : ∀ c ∈ l, isLineEnd c = false)
    (hending : ending ∈ lineEnds) (raw : Text) :
    splitLines (l ++ ending ++ raw) = l :: splitLines raw := by
  rw [List.append_assoc]
  refine splitLines_append hl ?_
  simp only [lineEnds, List.mem_cons, List.not_mem_nil, or_false] at hending
  rcases hending with rfl | rfl
  · exact splitLines_line_append [] (by simp) raw
  · exact splitLines.eq_2 raw

theorem trimLineEnd_of_unbroken {l : Text} (hl : ∀ c ∈ l, isLineEnd c = false) :
    l.trimLineEnd = l := by
  have hkept : ∀ c ∈ l.reverse, (c == '\r' || c == '\n') = false := by
    intro c hc
    have hc := hl c (List.mem_reverse.mp hc)
    rw [Bool.or_eq_false_iff, beq_eq_false_iff_ne, beq_eq_false_iff_ne]
    constructor <;> rintro rfl <;> revert hc <;> decide
  have hdrop : l.reverse.dropWhile (fun c => c == '\r' || c == '\n') = l.reverse := by
    cases hrev : l.reverse with
    | nil => rfl
    | cons c r =>
      rw [List.dropWhile_cons, hkept c (by rw [hrev]; exact List.mem_cons_self), if_neg]
      exact Bool.false_ne_true
  rw [trimLineEnd, hdrop, List.reverse_reverse]

theorem not_isLineEnd_labelled {label l : Text} (hlabel : IsLabel label)
    (hl : ∀ c ∈ l, isLineEnd c = false) : ∀ c ∈ label ++ l, isLineEnd c = false := by
  intro c hc
  rcases List.mem_append.mp hc with hc | hc
  · rcases hlabel with rfl | hstamp
    · cases hc
    · exact Stamp.not_isLineEnd_of_isStamp hstamp c hc
  · exact hl c hc

theorem plain_acknowledgement : Plain acknowledgement := by decide

theorem clean?_labelled {label l : Text} (hlabel : IsLabel label) (hl : Plain l) :
    clean? (label ++ l) = if l = acknowledgement then none else some l := by
  have hdrop : Stamp.drop (label ++ l) = l := by
    rcases hlabel with rfl | hstamp
    · exact Stamp.drop_of_unstamped hl.unstamped
    · exact Stamp.drop_stamp hstamp l
  unfold clean?
  dsimp only
  rw [trimLineEnd_of_unbroken (not_isLineEnd_labelled hlabel hl.unbroken), hdrop]
  by_cases hack : l = acknowledgement
  · rw [if_pos (Or.inr hack), if_pos hack]
  · rw [if_neg hack, if_neg]
    rintro (hwhole | hbare)
    · -- a stamped line that reads `success` as a whole would be a stamp in front of it
      rw [hwhole, Stamp.drop_of_unstamped plain_acknowledgement.unstamped] at hdrop
      exact hack hdrop.symm
    · exact hack hbare

theorem normalize_plain {lines : List Text} (h : ∀ l ∈ lines, Plain l) :
    normalize lines = lines.filter fun l => l ≠ acknowledgement := by
  induction lines with
  | nil => rfl
  | cons l lines ih =>
    have hl := clean?_labelled (Or.inl rfl) (h l List.mem_cons_self)
    have ih := ih fun m hm => h m (List.mem_cons_of_mem _ hm)
    unfold normalize at ih ⊢
    rw [List.nil_append] at hl
    rw [List.filterMap_cons, hl, ih]
    by_cases hack : l = acknowledgement <;> simp [hack]

/-- **Of a decorated text the plain lines are left.** -/
theorem normalize_splitLines {lines : List Text} {raw : Text} (h : Decorated lines raw)
    (hplain : ∀ l ∈ lines, Plain l) : normalize (splitLines raw) = normalize lines := by
  induction h with
  | nil => rfl
  | line l hlabel hending _ ih =>
    have hl := hplain l List.mem_cons_self
    have hbare := clean?_labelled (Or.inl rfl) hl
    rw [splitLines_ended (not_isLineEnd_labelled hlabel hl.unbroken) hending]
    have ih := ih fun m hm => hplain m (List.mem_cons_of_mem _ hm)
    unfold normalize at ih ⊢
    rw [List.filterMap_cons, List.filterMap_cons, ih, clean?_labelled hlabel hl, ← hbare,
      List.nil_append]
  | acknowledgement hlabel hending _ ih =>
    rw [splitLines_ended (not_isLineEnd_labelled hlabel plain_acknowledgement.unbroken) hending]
    have ih := ih hplain
    unfold normalize at ih ⊢
    rw [List.filterMap_cons, ih, clean?_labelled hlabel plain_acknowledgement, if_pos rfl]

/-- **Decoration is invisible**: as a text and as bytes, a decorated text has the transcript of the
plain lines, so the verdict, the status and the file for the scrambler are the same, and so is
every run of an audit. -/
theorem ofText_decorated {lines : List Text} {raw : Text} (hplain : ∀ l ∈ lines, Plain l)
    (h : Decorated lines raw) :
    (ofLines lines).lines = lines.filter (fun l => l ≠ acknowledgement) ∧
      ∀ t ∈ [ofText raw, ofBytes (Utf8.encode raw)],
        t.lines = (ofLines lines).lines ∧ t.verdictText = (ofLines lines).verdictText ∧
          t.status = (ofLines lines).status ∧ t.text = (ofLines lines).text ∧
          ∀ (a : Audit) (schedule : List Pool.Move) (b : Benchmark),
            a.run schedule t b = a.run schedule (ofLines lines) b := by
  have htext : ofText raw = ofLines lines := congrArg mk (normalize_splitLines h hplain)
  have hbytes : ofBytes (Utf8.encode raw) = ofLines lines := by
    rw [ofBytes, Utf8.decode_encode, htext]
  refine ⟨normalize_plain hplain, fun t ht => ?_⟩
  have hsame : t = ofLines lines := by
    rcases List.mem_cons.mp ht with rfl | ht
    · exact htext
    · exact (List.mem_singleton.mp ht).trans hbytes
  subst hsame
  exact ⟨rfl, rfl, rfl, rfl, fun _ _ _ => rfl⟩

/-- A stamp, with points in both numbers. -/
def firstStamp : Text := "0.01/0.02\t".toList

/-- A stamp in other digits than the usual ones. -/
def secondStamp : Text := "\u0661/\u0662\t".toList

theorem isStamp_firstStamp : Stamp.IsStamp firstStamp :=
  ⟨"0.01".toList, "0.02".toList,
    ⟨['0'], by decide, by decide, Or.inr ⟨['0', '1'], by decide, by decide, rfl⟩⟩,
    ⟨['0'], by decide, by decide, Or.inr ⟨['0', '2'], by decide, by decide, rfl⟩⟩, rfl⟩

theorem isStamp_secondStamp : Stamp.IsStamp secondStamp :=
  ⟨['\u0661'], ['\u0662'], ⟨['\u0661'], by decide, by decide, Or.inl rfl⟩,
    ⟨['\u0662'], by decide, by decide, Or.inl rfl⟩, rfl⟩

/-- An answer with its core, acknowledged twice, each line decorated in another way. -/
def decoratedAnswer : Text :=
  firstStamp ++ acknowledgement ++ ['\r', '\n'] ++
    (secondStamp ++ "unsat".toList ++ ['\n'] ++
      ([] ++ acknowledgement ++ ['\n'] ++ ([] ++ "(goal)".toList ++ ['\r', '\n'] ++ [])))

theorem decorated_decoratedAnswer :
    Decorated ["unsat".toList, "(goal)".toList] decoratedAnswer := by
  have hlf : ['\n'] ∈ lineEnds := List.mem_cons_self
  have hcrlf : ['\r', '\n'] ∈ lineEnds := List.mem_cons_of_mem _ List.mem_cons_self
  exact .acknowledgement (Or.inr isStamp_firstStamp) hcrlf
    (.line _ (Or.inr isStamp_secondStamp) hlf
      (.acknowledgement (Or.inl rfl) hlf (.line _ (Or.inl rfl) hcrlf .nil)))

/-- The decorated answer is read as the two lines of the solver: it is unsat. -/
theorem ofText_decoratedAnswer :
    (∀ l ∈ ["unsat".toList, "(goal)".toList], Plain l) ∧
      Decorated ["unsat".toList, "(goal)".toList] decoratedAnswer ∧
      (ofText decoratedAnswer).lines = ["unsat".toList, "(goal)".toList] ∧
      (ofText decoratedAnswer).status = .unsat ∧
      (ofBytes (Utf8.encode decoratedAnswer)).text = "unsat\n(goal)\n".toList := by
  have hplain : ∀ l ∈ ["unsat".toList, "(goal)".toList], Plain l := by decide
  obtain ⟨hlines, hsame⟩ := ofText_decorated hplain decorated_decoratedAnswer
  obtain ⟨htext, _, hstatus, _⟩ := hsame _ List.mem_cons_self
  obtain ⟨_, _, _, hbytes, _⟩ := hsame _ (List.mem_cons_of_mem _ List.mem_cons_self)
  refine ⟨hplain, decorated_decoratedAnswer, ?_, ?_, ?_⟩
  · rw [htext, hlines]
    rfl
  · rw [hstatus]
    rfl
  · rw [hbytes]
    rfl

end Transcript

end CoreAudit
