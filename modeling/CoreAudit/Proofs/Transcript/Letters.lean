import CoreAudit.LetterTranscript
import CoreAudit.Proofs.Transcript.Reread

/-!
# Strings are cleaned like texts

Cutting a string into lines and cleaning them goes by its plain text, which has the replacement
character in the place of each half. What is taken away in this is never a half: neither a half nor
the replacement character is a line end, a blank or part of a stamp or of an acknowledgement. So the
transcript of a text is the same whether it is taken for a string or for a text, and a half of an
answer is a half of its transcript.

Headlines:
* **`Letters.plain_splitLines`**, **`LetterTranscript.plain_ofLetters`**: cutting and cleaning go by
  the plain text.
* **`LetterTranscript.ofLetters_ofText`**: the transcript of a text.
* **`LetterTranscript.write_ofLetters_iff`**: the transcript of a string is written iff it is a
  text.
* `LetterTranscript.not_reread_of_half`: a string that is no text.
-/

namespace CoreAudit

namespace Act

variable {path text : Text} {gap : Letters.Gap} {letters : Letters} {s u : Session}

theorem writeLetters_ofText (path text : Text) :
    writeLetters path (Letters.ofText text) = writeFile path text := by
  unfold writeLetters
  rw [Letters.toText_ofText]

/-- A string with a gap leaves an empty file where it should be written. -/
theorem writeLetters_of_gap (hgap : letters.toText = .error gap)
    (hwrite : writeFile path [] s = (.ok (), u)) :
    writeLetters path letters s = (.error (.unencodable gap), u) := by
  unfold writeLetters
  rw [hgap]
  exact bind_of_ok hwrite

end Act

namespace Letters

theorem length_plain (s : Letters) : s.plain.length = s.length := List.length_map _

theorem plain_dropWhile (p : Char → Bool) (s : Letters) :
    plain (s.dropWhile (p ·.plain)) = s.plain.dropWhile p := by
  rw [plain, plain, List.dropWhile_map]
  rfl

theorem eq_char_of_plain {a : Letter} {c : Char} (h : a.plain = c) (hc : c ≠ '\uFFFD') :
    a = .char c := by
  cases a with
  | char d => exact congrArg Letter.char h
  | half n => exact absurd h.symm hc

/-- What is no pair of a carriage return and a line feed is none when it is scanned. -/
theorem unpaired {a : Letter} {s : Letters}
    (h : ∀ rest, a = .char '\r' → s = .char '\n' :: rest → False) (rest : Text)
    (ha : a.plain = '\r') (hs : s.plain = '\n' :: rest) : False := by
  cases s with
  | nil => cases hs
  | cons b s =>
    have hb : b = .char '\n' := eq_char_of_plain (List.cons.inj hs).1 (by decide)
    exact h s (eq_char_of_plain ha (by decide)) (congrArg (· :: s) hb)

/-- **A string is cut into lines like its plain text.** -/
theorem plain_splitLines (s : Letters) : s.splitLines.map plain = s.plain.splitLines := by
  have hcut : ∀ (a : Letter) (s : Letters), plain (a :: s) = a.plain :: plain s := fun _ _ => rfl
  fun_induction splitLines s with
  | case1 => rfl
  | case2 s ih => exact congrArg ([] :: ·) ih
  | case3 a s hpair hend ih =>
    rw [hcut, Text.splitLines, if_pos hend, ← ih]
    · rfl
    · exact unpaired hpair
  | case4 a s hpair hend hrest ih =>
    rw [hrest] at ih
    rw [hcut, Text.splitLines, if_neg hend, ← ih]
    · rfl
    · exact unpaired hpair
  | case5 a s hpair hend l ls hrest ih =>
    rw [hrest] at ih
    rw [hcut, Text.splitLines, if_neg hend, ← ih]
    · rfl
    · exact unpaired hpair

theorem plain_trimLineEnd (s : Letters) : s.trimLineEnd.plain = s.plain.trimLineEnd := by
  have h := plain_dropWhile (fun c => c == '\r' || c == '\n') s.reverse
  unfold trimLineEnd Text.trimLineEnd
  unfold plain at h ⊢
  rw [List.map_reverse, h, List.map_reverse]

theorem plain_trim (s : Letters) : s.trim.plain = s.plain.trim := by
  have hfront := plain_dropWhile Text.isBlank s
  have hend := plain_dropWhile Text.isBlank (s.dropWhile (Text.isBlank ·.plain)).reverse
  unfold trim Text.trim Text.trimEnd
  unfold plain at hfront hend ⊢
  rw [List.map_reverse, hend, List.map_reverse, hfront]

theorem plain_dropStamp (s : Letters) : s.dropStamp.plain = Stamp.drop s.plain := by
  have hend := List.suffix_iff_eq_drop.mp (Stamp.drop_suffix s.plain)
  rw [length_plain] at hend
  exact (List.map_drop ..).trans hend.symm

theorem plain_unlines (lines : List Letters) :
    plain (unlines lines) = Text.unlines (lines.map plain) := by
  unfold unlines Text.unlines plain
  rw [List.map_flatMap, List.flatMap_map]
  simp only [List.map_append]
  rfl

/-! ## Halves -/

section Halves

variable {n : Fin 0x800} {s : Letters}

theorem mem_dropWhile_iff {p : Letter → Bool} {a : Letter} (h : p a = false) :
    a ∈ s.dropWhile p ↔ a ∈ s := by
  refine ⟨fun ha => (List.dropWhile_suffix p).subset ha, fun ha => ?_⟩
  rw [← List.takeWhile_append_dropWhile (p := p) (l := s)] at ha
  rcases List.mem_append.mp ha with ha | ha
  · have hall := List.all_eq_true.mp (List.all_takeWhile (p := p) (l := s)) a ha
    rw [h] at hall
    cases hall
  · exact ha

theorem half_mem_splitLines : (∃ l ∈ s.splitLines, .half n ∈ l) ↔ .half n ∈ s := by
  have hhalf : Text.isLineEnd '\uFFFD' = false := by decide
  fun_induction splitLines s with
  | case1 => simp
  | case2 s ih => simp [ih]
  | case3 a s hpair hend ih =>
    have hne : Letter.half n ≠ a := by
      rintro rfl
      exact absurd (hend.symm.trans hhalf) (by decide)
    simp [ih, hne]
  | case4 a s hpair hend hrest ih =>
    rw [hrest] at ih
    simp [← ih]
  | case5 a s hpair hend l ls hrest ih =>
    rw [hrest] at ih
    simp only [List.mem_cons, exists_eq_or_imp] at ih ⊢
    exact or_assoc.trans (or_congr_right ih)

theorem half_mem_trimLineEnd : .half n ∈ s.trimLineEnd ↔ .half n ∈ s := by
  rw [trimLineEnd, List.mem_reverse, mem_dropWhile_iff (by rfl), List.mem_reverse]

theorem exists_append_dropStamp (s : Letters) :
    ∃ stamp, s.plain = stamp ++ s.dropStamp.plain ∧ '\uFFFD' ∉ stamp := by
  rw [plain_dropStamp]
  rcases hcut : Stamp.cut? s.plain with _ | rest
  · refine ⟨[], ?_, List.not_mem_nil⟩
    rw [Stamp.drop, hcut]
    rfl
  · obtain ⟨stamp, hstamp, hplain⟩ := Stamp.cut?_eq_some_iff.mp hcut
    refine ⟨stamp, ?_, fun hmem => ?_⟩
    · rw [Stamp.drop, hcut]
      exact hplain
    · have hother : ∀ c, Text.Digit.isDecimal c = true → c ≠ '\uFFFD' := by
        rintro _ hdigit rfl
        revert hdigit
        decide
      exact Stamp.forall_of_isStamp hother (by decide) (by decide) (by decide) hstamp _ hmem rfl

theorem half_mem_dropStamp : .half n ∈ s.dropStamp ↔ .half n ∈ s := by
  refine ⟨fun h => (List.drop_suffix _ s).subset h, fun h => ?_⟩
  obtain ⟨stamp, hplain, hother⟩ := exists_append_dropStamp s
  obtain ⟨front, hs⟩ : s.dropStamp <:+ s := List.drop_suffix _ s
  have hfront : s.plain = plain front ++ s.dropStamp.plain := by
    rw [plain, plain, plain, ← List.map_append, hs]
  have hstamp : stamp = plain front := List.append_cancel_right (hplain.symm.trans hfront)
  rcases List.mem_append.mp (hs.symm ▸ h : .half n ∈ front ++ s.dropStamp) with h | h
  · exact absurd (hstamp ▸ List.mem_map_of_mem h) hother
  · exact h

theorem exists_ofText_iff : (∃ t, s = ofText t) ↔ ∀ n, .half n ∉ s := by
  constructor
  · rintro ⟨t, rfl⟩ n hmem
    obtain ⟨c, -, hc⟩ := List.mem_map.mp hmem
    cases hc
  · intro h
    refine ⟨s.plain, ?_⟩
    rw [ofText, plain, List.map_map]
    refine (List.map_id' s).symm.trans (List.map_congr_left fun a ha => ?_)
    cases a with
    | char c => rfl
    | half n => exact absurd ha (h n)

end Halves

end Letters

namespace LetterTranscript

open Letters

variable {s line : Letters} {n : Fin 0x800}

/-- The transcript with the replacement character in the place of each half. -/
def plain (t : LetterTranscript) : Transcript := ⟨t.lines.map Letters.plain⟩

/-- **Lines are cleaned like their plain texts.** -/
theorem plain_clean? (line : Letters) :
    (clean? line).map Letters.plain = Transcript.clean? line.plain := by
  unfold clean? Transcript.clean?
  dsimp only
  rw [plain_dropStamp, plain_trimLineEnd]
  split
  · rfl
  · exact congrArg some ((plain_dropStamp _).trans (congrArg Stamp.drop (plain_trimLineEnd line)))

/-- **A string is cleaned like its plain text.** -/
theorem plain_ofLetters (s : Letters) : (ofLetters s).plain = Transcript.ofText s.plain := by
  show Transcript.mk ((s.splitLines.filterMap clean?).map Letters.plain) =
    ⟨s.plain.splitLines.filterMap Transcript.clean?⟩
  rw [List.map_filterMap, ← plain_splitLines, List.filterMap_map]
  congr 2
  funext line
  exact plain_clean? line

theorem status_eq (t : LetterTranscript) : t.status = t.plain.status := by
  have hverdict : t.verdictText.plain = t.plain.verdictText := by
    unfold verdictText Transcript.verdictText plain
    cases t.lines with
    | nil => rfl
    | cons line lines => exact plain_trim line
  exact congrArg Verdict.classify hverdict

theorem half_mem_clean? : (∃ kept, clean? line = some kept ∧ .half n ∈ kept) ↔ .half n ∈ line := by
  have hbare : .half n ∈ line.trimLineEnd.dropStamp ↔ .half n ∈ line :=
    half_mem_dropStamp.trans half_mem_trimLineEnd
  have hother : '\uFFFD' ∉ Transcript.acknowledgement := by decide
  constructor
  · rintro ⟨kept, hkept, hmem⟩
    unfold clean? at hkept
    dsimp only at hkept
    split at hkept
    · cases hkept
    · cases hkept
      exact hbare.mp hmem
  · intro hmem
    refine ⟨line.trimLineEnd.dropStamp, if_neg ?_, hbare.mpr hmem⟩
    have htrimmed : '\uFFFD' ∈ line.trimLineEnd.plain :=
      List.mem_map_of_mem (half_mem_trimLineEnd.mpr hmem)
    have hdropped : '\uFFFD' ∈ line.trimLineEnd.dropStamp.plain :=
      List.mem_map_of_mem (hbare.mpr hmem)
    rintro (hack | hack)
    · exact hother (hack ▸ htrimmed)
    · exact hother (hack ▸ hdropped)

/-- **The halves of an answer are those of its transcript.** -/
theorem half_mem_text_ofLetters : .half n ∈ (ofLetters s).text ↔ .half n ∈ s := by
  refine Iff.trans ?_ half_mem_splitLines
  unfold text Letters.unlines ofLetters ofLines
  simp only [List.mem_flatMap, List.mem_filterMap, List.mem_append, List.mem_singleton, reduceCtorEq,
    or_false]
  constructor
  · rintro ⟨kept, ⟨line, hline, hkept⟩, hmem⟩
    exact ⟨line, hline, half_mem_clean?.mp ⟨kept, hkept, hmem⟩⟩
  · rintro ⟨line, hline, hmem⟩
    obtain ⟨kept, hkept, hmem⟩ := half_mem_clean?.mpr hmem
    exact ⟨kept, ⟨line, hline, hkept⟩, hmem⟩

theorem exists_ofTranscript_of_text {t : LetterTranscript} {u : Text} (h : t.text = ofText u) :
    t = ofTranscript t.plain := by
  obtain ⟨lines⟩ := t
  rw [ofTranscript, plain, mk.injEq, List.map_map]
  refine (List.map_id' lines).symm.trans (List.map_congr_left fun line hline => ?_)
  have hwhole : ∀ n, .half n ∉ line := fun n hmem =>
    exists_ofText_iff.mp ⟨u, h⟩ n (List.mem_flatMap.mpr ⟨line, hline, List.mem_append_left _ hmem⟩)
  obtain ⟨v, rfl⟩ := exists_ofText_iff.mpr hwhole
  rw [Function.comp_apply, plain_ofText]

theorem plain_ofTranscript (t : Transcript) : (ofTranscript t).plain = t := by
  obtain ⟨lines⟩ := t
  rw [ofTranscript, plain, List.map_map]
  refine congrArg Transcript.mk ((List.map_congr_left fun line _ => ?_).trans (List.map_id' lines))
  exact plain_ofText line

theorem text_ofTranscript (t : Transcript) : (ofTranscript t).text = ofText t.text := by
  unfold text Transcript.text Letters.unlines Text.unlines ofTranscript
  rw [ofText, List.flatMap_map, List.map_flatMap]
  simp only [List.map_append]
  rfl

theorem trim_ofText (t : Text) : (ofText t).trim = ofText t.trim := by
  have hwhole : ∀ n, .half n ∉ (ofText t).trim := fun n hmem => by
    have hsub : .half n ∈ ofText t :=
      (List.dropWhile_suffix _).subset
        (List.mem_reverse.mp ((List.dropWhile_suffix _).subset (List.mem_reverse.mp hmem)))
    exact exists_ofText_iff.mp ⟨t, rfl⟩ n hsub
  obtain ⟨u, hu⟩ := exists_ofText_iff.mpr hwhole
  rw [hu, ← plain_ofText u, ← hu, plain_trim, plain_ofText]

theorem verdictText_ofTranscript (t : Transcript) :
    (ofTranscript t).verdictText = ofText t.verdictText := by
  obtain ⟨_ | ⟨line, lines⟩⟩ := t
  · rfl
  · exact trim_ofText line

/-- **The transcript of a text is that of `Transcript.ofText`.** -/
theorem ofLetters_ofText (t : Text) :
    ofLetters (ofText t) = ofTranscript (Transcript.ofText t) := by
  have hwhole : ∀ n, .half n ∉ (ofLetters (ofText t)).text := fun n hmem =>
    exists_ofText_iff.mp ⟨t, rfl⟩ n (half_mem_text_ofLetters.mp hmem)
  obtain ⟨u, hu⟩ := exists_ofText_iff.mpr hwhole
  rw [exists_ofTranscript_of_text hu, plain_ofLetters, plain_ofText]

/-! ## Writing -/

section Writing

variable {t : LetterTranscript} {path : Text} {v : Session} {loc : Location} {gap : Gap}
  (hplace : v.files.target v.here path = .ok loc)
include hplace

theorem exists_write (content : Text) : ∃ files,
    v.files.write v.here path (Text.Utf8.encode content) = .ok files :=
  ⟨_, FileTree.write_eq_ok.mpr ⟨loc, FileTree.target_eq_ok.mp hplace, rfl⟩⟩

/-- A transcript that cannot be written leaves a file of which no line is read. -/
theorem write_of_gap (hgap : t.text.toText = .error gap) :
    ∃ written, t.write path v = (.error (.unencodable gap), written) ∧
      (Transcript.ofBytes <$> Act.readFile path) written = (.ok ⟨[]⟩, written) := by
  obtain ⟨files, hfiles⟩ := exists_write hplace []
  refine ⟨{ v with files }, Act.writeLetters_of_gap hgap (Act.writeFile_run hfiles), ?_⟩
  rw [Act.map_run, Act.readFile_run, FileTree.read_of_write hfiles]
  exact congrArg (fun t => (Except.ok (Transcript.ofText t), _)) (Text.Utf8.decode_encode [])

/-- **A transcript is written iff the answer is a text.** -/
theorem write_ofLetters_iff : ((ofLetters s).write path v).1 = .ok () ↔ ∃ t, s = ofText t := by
  have hhalves : (∃ t, s = ofText t) ↔ ∃ u, (ofLetters s).text = ofText u := by
    rw [exists_ofText_iff, exists_ofText_iff]
    exact forall_congr' fun n => not_congr half_mem_text_ofLetters.symm
  rw [hhalves]
  constructor
  · intro h
    rcases htext : (ofLetters s).text.toText with gap | u
    · obtain ⟨written, hwritten, -⟩ := write_of_gap hplace htext
      rw [hwritten] at h
      cases h
    · exact ⟨u, toText_eq_ok_iff.mp htext⟩
  · rintro ⟨u, hu⟩
    obtain ⟨files, hfiles⟩ := exists_write hplace u
    rw [write, hu, Act.writeLetters_ofText, Act.writeFile_run hfiles]

end Writing

/-- An answer with half of a pair in its second line. -/
def halvedAnswer : Letters := ofText "unsat\n".toList ++ [.half 0, .char '\n']

/-- **A transcript with a half is not read again**: none of its lines starts with a stamp, and
writing it ends in a fault and leaves an empty file. -/
theorem not_reread_of_half :
    (ofLetters halvedAnswer).lines = [ofText "unsat".toList, [.half 0]] ∧
      (ofLetters halvedAnswer).plain.Unstamped ∧
      ∃ written, (ofLetters halvedAnswer).write "core.txt".toList (.fresh .empty .empty) =
          (.error (.unencodable ⟨6, 0, 1⟩), written) ∧
        (Transcript.ofBytes <$> Act.readFile "core.txt".toList) written = (.ok ⟨[]⟩, written) := by
  have hplace : FileTree.empty.target [] "core.txt".toList = .ok ["core.txt".toList] := rfl
  exact ⟨by decide, by decide, write_of_gap (v := .fresh .empty .empty) hplace (by decide)⟩

end LetterTranscript

end CoreAudit
