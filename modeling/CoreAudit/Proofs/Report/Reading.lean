import CoreAudit.Report.Summary

/-!
# Reports are read back

The text of a report is read back line by line: a line ends at a line feed, and its key at the first
`=`. Nothing is lost that way where keys hold neither of the two and values no line feed
(`IsPlain`), which is so for everything that a report states but the names of validators
(`plain_facts`): these come from a table and may hold anything.

Headlines:
* **`Report.ofText_text`**: a report of plain entries is read back from its text.
* **`plain_facts`**: a report is plain if the names of its validators are.
* **`Text.toInt_ofInt`**: a whole number is read back from its digits.
-/

namespace CoreAudit

namespace Text

/-! ## Lines and numbers -/

/-- The lines of a text in which every line ends in a line feed. -/
def linesOf (t : Text) : List Text := (t.splitOn '\n').dropLast

theorem unlines_eq_intercalate (ls : List Text) :
    unlines ls = ['\n'].intercalate (ls ++ [[]]) := by
  induction ls with
  | nil => rfl
  | cons l ls ih =>
    have hrest : ls ++ [[]] ≠ [] := by simp
    have hunlines : unlines (l :: ls) = l ++ '\n' :: unlines ls := by simp [unlines]
    rw [hunlines, ih, List.cons_append, List.intercalate_cons_of_ne_nil hrest]
    simp

theorem linesOf_unlines {ls : List Text} (h : ∀ l ∈ ls, '\n' ∉ l) : linesOf (unlines ls) = ls := by
  have hall : ∀ l ∈ ls ++ [[]], '\n' ∉ l := by
    intro l hl
    rcases List.mem_append.mp hl with hl | hl
    · exact h l hl
    · rw [List.mem_singleton.mp hl]
      exact List.not_mem_nil
  rw [linesOf, unlines_eq_intercalate, List.splitOn_intercalate '\n' hall (by simp),
    List.dropLast_concat]

/-- The whole number that a text writes. -/
def toInt : Text → Int
  | '-' :: t => -(Nat.ofDigitChars 10 t 0 : Int)
  | t => (Nat.ofDigitChars 10 t 0 : Int)

/-- **A whole number is read back from its digits.** -/
theorem toInt_ofInt (n : Int) : toInt (ofInt n) = n := by
  have hread : ∀ m : Nat, Nat.ofDigitChars 10 (Nat.toDigits 10 m) 0 = m := fun m =>
    Nat.ofDigitChars_toDigits (by decide) (by decide)
  cases n with
  | ofNat m =>
    show toInt (Nat.toDigits 10 m) = (m : Int)
    unfold toInt
    split
    · rename_i t hminus
      have hmem : '-' ∈ Nat.toDigits 10 m := by
        rw [hminus]
        exact List.mem_cons_self
      exact absurd (Nat.isDigit_of_mem_toDigits (by decide) (by decide) hmem) (by decide)
    · rw [hread]
  | negSucc m =>
    show -(Nat.ofDigitChars 10 (Nat.toDigits 10 (m + 1)) 0 : Int) = Int.negSucc m
    rw [hread, Int.negSucc_eq]
    rfl

theorem toInt_ofNat (n : Nat) : toInt (ofNat n) = n := toInt_ofInt n

end Text

namespace Number

theorem newline_not_mem_places (n : Nat) (x : Float) : '\n' ∉ places n x := by
  have hsigned : ∀ (negative : Bool) (t : Text), '\n' ∉ t → '\n' ∉ signed negative t := by
    intro negative t ht
    cases negative with
    | false => exact ht
    | true => exact fun hmem => (List.mem_cons.mp hmem).elim (by decide) ht
  unfold places
  split
  · decide
  · exact hsigned _ _ (by decide)
  · rename_i negative m q _
    refine hsigned _ _ ?_
    have hdigits : '\n' ∉ padded (n + 1) (Text.ofNat (inUnits m q (-(n : Int)))) := by
      intro hmem
      rcases List.mem_append.mp hmem with hmem | hmem
      · exact absurd (List.eq_of_mem_replicate hmem) (by decide)
      · exact Text.not_mem_ofInt (by decide) (by decide) (Int.ofNat _) hmem
    intro hmem
    rcases List.mem_append.mp hmem with hmem | hmem
    · exact hdigits (List.mem_of_mem_take hmem)
    · rcases List.mem_cons.mp hmem with hmem | hmem
      · exact absurd hmem (by decide)
      · exact hdigits (List.mem_of_mem_drop hmem)

end Number

namespace Report

/-! ## Entries -/

/-- The entry of a line: the key ends at the first `=`. -/
def entryOf (line : Text) : Text × Text := ((line.cut '=').1, (line.cut '=').2.getD [])

/-- The report that a text states. -/
def ofText (t : Text) : Report := ⟨t.linesOf.map entryOf⟩

/-- The text can stand in a key: it holds neither the mark between key and value nor a line feed. -/
def IsKey (t : Text) : Prop := '=' ∉ t ∧ '\n' ∉ t

instance (t : Text) : Decidable (IsKey t) := inferInstanceAs (Decidable (_ ∧ _))

/-- The entry can be read back from its line. -/
def IsPlain (e : Text × Text) : Prop := IsKey e.1 ∧ '\n' ∉ e.2

theorem entryOf_line {e : Text × Text} (h : IsPlain e) : entryOf (e.1 ++ '=' :: e.2) = e := by
  have hkey : ∀ c ∈ e.1, (c != '=') = true := by
    intro c hc
    rw [bne_iff_ne]
    rintro rfl
    exact h.1.1 hc
  have htake : (e.1 ++ '=' :: e.2).takeWhile (· != '=') = e.1 := by
    rw [List.takeWhile_append_of_pos hkey]
    simp
  have hdrop : (e.1 ++ '=' :: e.2).dropWhile (· != '=') = '=' :: e.2 := by
    rw [List.dropWhile_append_of_pos hkey]
    simp
  unfold entryOf Text.cut
  rw [htake, hdrop]
  rfl

/-- **A report of plain entries is read back from its text.** -/
theorem ofText_text {r : Report} (h : ∀ e ∈ r.entries, IsPlain e) : ofText r.text = r := by
  have hlines : ∀ l ∈ r.lines, '\n' ∉ l := by
    intro l hl
    obtain ⟨e, he, rfl⟩ := List.mem_map.mp hl
    obtain ⟨⟨_, hkey⟩, hvalue⟩ := h e he
    intro hmem
    rcases List.mem_append.mp hmem with hmem | hmem
    · exact hkey hmem
    · rcases List.mem_cons.mp hmem with hmem | hmem
      · exact absurd hmem (by decide)
      · exact hvalue hmem
  have hentries : r.lines.map entryOf = r.entries := by
    rw [lines, List.map_map]
    exact (List.map_congr_left fun e he => entryOf_line (h e he)).trans (List.map_id _)
  rw [ofText, text, Text.linesOf_unlines hlines, hentries]

/-! ## Facts -/

theorem newline_not_mem_word (v : Verdict) : '\n' ∉ v.word := by
  cases v <;> decide

theorem newline_not_mem_flag (b : Bool) : '\n' ∉ (Value.flag b).format := by
  cases b <;> decide

theorem newline_not_mem_digit (b : Bool) : '\n' ∉ (Summary.digit b).format := by
  cases b <;> decide

theorem newline_not_mem_int (n : Int) : '\n' ∉ (Value.int n).format :=
  Text.not_mem_ofInt (by decide) (by decide) n

theorem newline_not_mem_known (n : Option Int) : '\n' ∉ (Summary.known n).format := by
  cases n with
  | none => decide
  | some n => exact newline_not_mem_int n

/-- The facts are plain. -/
def ArePlain (facts : List (Text × Value)) : Prop := ∀ f ∈ facts, IsPlain (f.1, f.2.format)

theorem ArePlain.nil : ArePlain [] := fun _ h => absurd h List.not_mem_nil

theorem ArePlain.cons {key : Text} {value : Value} {facts : List (Text × Value)}
    (hkey : IsKey key) (hvalue : '\n' ∉ value.format) (h : ArePlain facts) :
    ArePlain ((key, value) :: facts) := by
  intro f hf
  rcases List.mem_cons.mp hf with rfl | hf
  · exact ⟨hkey, hvalue⟩
  · exact h f hf

theorem ArePlain.append {facts others : List (Text × Value)} (h : ArePlain facts)
    (h' : ArePlain others) : ArePlain (facts ++ others) := fun f hf =>
  (List.mem_append.mp hf).elim (h f) (h' f)

theorem IsKey.append {t u : Text} (h : IsKey t) (h' : IsKey u) : IsKey (t ++ u) :=
  ⟨fun hmem => (List.mem_append.mp hmem).elim h.1 h'.1,
    fun hmem => (List.mem_append.mp hmem).elim h.2 h'.2⟩

/-- The vote is stated on two lines of its own. -/
def VoteLine.IsPlain (v : VoteLine) : Prop :=
  IsKey v.identifier ∧ '\n' ∉ v.result ∧ '\n' ∉ v.time.format

theorem plain_votes {votes : List VoteLine} (h : ∀ v ∈ votes, v.IsPlain) :
    ArePlain (votes.flatMap Summary.voteFacts) := by
  intro f hf
  obtain ⟨v, hv, hf⟩ := List.mem_flatMap.mp hf
  obtain ⟨hkey, hword, htime⟩ := h v hv
  have hresult : '\n' ∉ (Value.text v.result).format := hword
  exact ArePlain.cons (hkey.append (by decide)) hresult
    (.cons (hkey.append (by decide)) htime .nil) f hf

/-- **What a report states is plain, if the votes are.** -/
theorem plain_facts {s : Summary} (h : ∀ v ∈ s.votes, v.IsPlain) : ArePlain s.facts := by
  have hanswer : '\n' ∉ (Value.text (Summary.answerName s.status)).format := by
    cases s.status <;> decide
  have hcount : ∀ c, ArePlain (Summary.countFacts s.votes c) := fun c =>
    .append (.append (.cons (by decide) (newline_not_mem_int _) .nil) (plain_votes h))
      (.cons (by decide) (newline_not_mem_int _) (.cons (by decide) (newline_not_mem_int _)
        (.cons (by decide) (newline_not_mem_flag _) .nil)))
  have hcore : ArePlain s.coreFacts := by
    refine .append (.append (.append (.cons (by decide) (newline_not_mem_flag _) .nil) ?_)
      (.cons (by decide) (newline_not_mem_known _) .nil)) ?_
    · cases s.coreSize with
      | none => exact .nil
      | some n => exact .cons (by decide) (newline_not_mem_int n) .nil
    · cases s.count with
      | none => exact .nil
      | some c => exact hcount c
  refine .append (.append (.append (.cons (by decide) (newline_not_mem_digit _)
    (.cons (by decide) hanswer .nil)) ?_) ?_)
    (.cons (by decide) (newline_not_mem_digit _) (.cons (by decide) (newline_not_mem_known _) .nil))
  · split
    · exact .nil
    · exact .cons (by decide) (newline_not_mem_int _) .nil
  · split
    · exact hcore
    · exact .nil

end Report

end CoreAudit
