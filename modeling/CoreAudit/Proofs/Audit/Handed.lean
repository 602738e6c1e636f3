import CoreAudit.Audit.Handed
import CoreAudit.Proofs.Audit.Remains
import CoreAudit.Proofs.Transcript.Letters

/-!
# What an audit of strings leaves behind

An audit of a transcript and a benchmark without halves is that of their texts
(`runHanded_eq_run`). One that meets a half cannot write a file and ends in a fault; that file stays
empty, in the scratch directory. So whatever is handed over, an audit that does not keep its scratch
directory leaves nothing; one that keeps it leaves there what it should, unless it met a half.

Headlines:
* **`runHanded_eq_run`**: texts that are handed over as strings are audited as texts.
* `confined_checkHanded_of_gap`: where a half is met, every change is in the scratch directory.
* **`files_after_handing`**: what is left, for every transcript and benchmark.
-/

namespace CoreAudit

namespace Audit

open FileTree

variable {a : Audit} {schedule : List Pool.Move} {t : LetterTranscript} {b : HandedBenchmark}
  {c : Benchmark} {s : Session} {workdir : Text} {gap : Letters.Gap}

/-! ## Texts -/

theorem status_ofTranscript (t : Transcript) :
    (LetterTranscript.ofTranscript t).status = t.status := by
  rw [LetterTranscript.status_eq, LetterTranscript.plain_ofTranscript]

theorem openingLetters_ofTranscript (t : Transcript) (c : Benchmark) :
    openingLetters (.ofTranscript t) c = openingRecord t c := by
  unfold openingLetters openingRecord
  rw [LetterTranscript.verdictText_ofTranscript, Letters.quoted_ofText, status_ofTranscript]

theorem of_texts (h : b.texts = .ok c) :
    b = .text c ∨ ∃ text, b = .string (Letters.ofText text) ∧ c = ⟨text, none⟩ := by
  cases b with
  | text b =>
    cases h
    exact Or.inl rfl
  | string script =>
    simp only [HandedBenchmark.texts] at h
    rcases htext : script.toText with gap | text <;> rw [htext] at h <;> cases h
    exact Or.inr ⟨text, congrArg _ (Letters.toText_eq_ok_iff.mp htext), rfl⟩

theorem plain_of_texts (h : b.texts = .ok c) : b.plain = c := by
  rcases of_texts h with rfl | ⟨text, rfl, rfl⟩
  · rfl
  · exact congrArg (Benchmark.mk · none) (Letters.plain_ofText text)

theorem file_of_texts (h : b.texts = .ok c) : b.file workdir = benchmarkFile c workdir := by
  rcases of_texts h with rfl | ⟨text, rfl, rfl⟩
  · rfl
  · unfold HandedBenchmark.file benchmarkFile
    dsimp only
    rw [Act.writeLetters_ofText]

theorem rebuildLetters_ofTranscript (r : Reconstruction) (benchmark : Text) (t : Transcript) :
    r.rebuildLetters benchmark (.ofTranscript t) workdir = r.rebuild benchmark t workdir := by
  unfold Reconstruction.rebuildLetters Reconstruction.rebuild LetterTranscript.write
  rw [LetterTranscript.text_ofTranscript]
  simp only [Act.writeLetters_ofText]

/-- **Texts that are handed over as strings are audited as texts.** -/
theorem runHanded_eq_run (t : Transcript) (h : b.texts = .ok c) :
    a.runHanded schedule (.ofTranscript t) b s = a.run schedule t c s := by
  unfold runHanded run checkHandedInScratch checkInScratch checkHanded checkCore
  rw [plain_of_texts h, openingLetters_ofTranscript, status_ofTranscript]
  simp only [file_of_texts h, rebuildLetters_ofTranscript] <;> rfl

/-! ## Halves -/

theorem exists_texts_or_gap (t : LetterTranscript) :
    (∃ u, t = .ofTranscript u) ∨ ∃ gap, t.text.toText = .error gap := by
  rcases htext : t.text.toText with gap | text
  · exact Or.inr ⟨gap, rfl⟩
  · exact Or.inl ⟨t.plain,
      LetterTranscript.exists_ofTranscript_of_text (Letters.toText_eq_ok_iff.mp htext)⟩

theorem of_gap (h : b.texts = .error gap) :
    ∃ script, b = .string script ∧ script.toText = .error gap := by
  cases b with
  | text b => cases h
  | string script =>
    simp only [HandedBenchmark.texts] at h
    rcases htext : script.toText with gap' | text <;> rw [htext] at h <;> cases h
    exact ⟨script, rfl, htext⟩

/-- **Where something cannot be written the audit ends**, and what it changed is in its scratch
directory. -/
theorem confined_checkHanded_of_gap (a : Audit) (schedule : List Pool.Move) {name : Text}
    (S : s.files.Scratch name [])
    (hgap : (∃ gap, b.texts = .error gap) ∨ ∃ gap, t.text.toText = .error gap) :
    Confined name s.files (a.checkHanded schedule t b (pathOf [name]) s).2.files := by
  unfold checkHanded
  rcases htexts : b.texts with gap | c
  · obtain ⟨script, rfl, hscript⟩ := of_gap htexts
    obtain ⟨hwrite, -⟩ := S.write isName_benchmarkName List.not_mem_nil s.here (Text.Utf8.encode [])
    have hstopped := Act.writeLetters_of_gap hscript (Act.writeFile_run hwrite)
    have hfile : (HandedBenchmark.string script).file (pathOf [name]) s =
        (.error (.unencodable gap), _) := Act.bind_of_error hstopped
    rw [Act.bind_of_error hfile]
    exact S.confined List.not_mem_nil _
  · rw [htexts] at hgap
    obtain ⟨gap, hgap⟩ := hgap.resolve_left fun ⟨_, h⟩ => nomatch h
    have S' := scratch_withBenchmark c S
    obtain ⟨hwrite, -⟩ := S'.write isName_coreName (by decide) s.here (Text.Utf8.encode [])
    have hstopped := Act.writeLetters_of_gap hgap
      (Act.writeFile_run (s := { s with files := withBenchmark c name s.files }) hwrite)
    have hrebuild : a.reconstruction.rebuildLetters (benchmarkPath c (pathOf [name])) t
        (pathOf [name]) { s with files := withBenchmark c name s.files } =
        (.error (.unencodable gap), _) := Act.bind_of_error hstopped
    rw [file_of_texts htexts, Act.bind_of_ok (benchmarkFile_eq c S), Act.bind_of_error hrebuild]
    exact (confined_withBenchmark c S).trans (S'.confined (by decide) _)

/-! ## What is left -/

/-- The session in which an answer that was handed over is checked. -/
def openedLetters (t : LetterTranscript) (b : HandedBenchmark) (s : Session) : Session :=
  { s.mark ((b.plain.records ++ [openingLetters t b.plain]).map .record) with
    files := s.files.put s.scratch .directory }

theorem runHanded_of_unsat (h : t.status = .unsat) :
    a.runHanded schedule t b s = Act.ensuring (a.leave s.scratch)
      (a.checkHanded schedule t b (pathOf s.scratch)) (openedLetters t b s) := by
  have hscratch : Act.makeScratch
      (s.mark ((b.plain.records ++ [openingLetters t b.plain]).map .record)) =
      (.ok s.scratch, openedLetters t b s) := rfl
  unfold runHanded checkHandedInScratch
  rw [Act.bind_of_ok (Act.records_run _ s), h]
  exact Act.bind_of_ok hscratch

theorem files_runHanded_of_not_unsat (h : t.status ≠ .unsat) :
    (a.runHanded schedule t b s).2.files = s.files := by
  unfold runHanded
  rw [Act.bind_of_ok (Act.records_run _ s)]
  cases hstatus : t.status with
  | sat | unknown => rfl
  | unsat => exact absurd hstatus h

/-- **An audit leaves nothing behind but a scratch directory that it is told to keep**, whatever is
handed over.

Unless it keeps the scratch directory of an unsat answer, the files after it are those before it,
however it ends, also where a half cannot be written. If it keeps it and the transcript and the
benchmark are of texts, the files are those before it and a new directory, in which there are the
cleaned transcript, the benchmark iff it has no file of its own, and the formula of the core iff one
was rebuilt and its logic resolved. -/
theorem files_after_handing (a : Audit) (schedule : List Pool.Move) (t : LetterTranscript)
    (b : HandedBenchmark) (s : Session) (hclosed : s.files.Closed)
    (hname : Path.IsName (s.files.freeName s.host.scratchStem))
    (hplain : ∀ row ∈ a.table.rows, ∀ id ∈ row.2, '/' ∉ id) :
    (a.keepsScratch = false ∨ t.status ≠ .unsat →
      (a.runHanded schedule t b s).2.files = s.files) ∧
    ∀ u c, t = .ofTranscript u → b.texts = .ok c → a.keepsScratch = true → u.status = .unsat →
      a.Remains u c s (a.runHanded schedule t b s).2.files := by
  constructor
  · by_cases hstatus : t.status = .unsat
    · intro hor
      have hgone : a.keepsScratch = false := hor.resolve_right (not_not_intro hstatus)
      by_cases hgap : (∃ gap, b.texts = .error gap) ∨ ∃ gap, t.text.toText = .error gap
      · have S : (openedLetters t b s).files.Scratch (s.files.freeName s.host.scratchStem) [] :=
          Scratch.make hclosed hname
        have C := a.confined_checkHanded_of_gap schedule S hgap
        rw [runHanded_of_unsat hstatus, Act.ensuring_run (a.leave_eq_ok s.scratch _), files_leave,
          hgone, if_neg Bool.false_ne_true]
        exact C.outside.trans (removeTree_make hclosed (s.files.get?_freeName s.host.scratchStem))
      · obtain ⟨u, rfl⟩ := (exists_texts_or_gap t).resolve_right fun h => hgap (Or.inr h)
        rcases htexts : b.texts with gap | c
        · exact absurd (Or.inl ⟨gap, htexts⟩) hgap
        · rw [runHanded_eq_run u htexts]
          exact (files_after_run a schedule u c s hclosed hname hplain).1 (Or.inl hgone)
    · exact fun _ => files_runHanded_of_not_unsat hstatus
  · rintro u c rfl htexts hkept hstatus
    rw [runHanded_eq_run u htexts]
    exact (files_after_run a schedule u c s hclosed hname hplain).2 hkept hstatus

/-- An audit by two validators that keeps its scratch directory. -/
def keepingAudit : Audit := { pairAudit with keepsScratch := true }

/-- The answer of two validators as it is handed over. -/
def pairAnswer : LetterTranscript := .ofTranscript pairTranscript

/-- An audit by two validators leaves nothing; one that keeps its scratch directory leaves the
formula of the core there. -/
theorem files_after_handing_pair :
    (pairAudit.runHanded [] pairAnswer (.text pairBenchmark)
        (pairSession (headerResult ['1']) [])).2.files = .empty ∧
      (keepingAudit.runHanded [] pairAnswer (.text pairBenchmark)
        (pairSession (headerResult ['1']) [])).2.files.get?
          ((pairSession (headerResult ['1']) []).scratch ++ [reducedName]) =
        some (.file (Text.Utf8.encode "(check-sat)\n".toList) false) := by
  have hname := isName_pairSession (headerResult ['1']) []
  have hplain : ∀ row ∈ pairAudit.table.rows, ∀ id ∈ row.2, '/' ∉ id := by decide
  have hstatus : pairTranscript.status = .unsat := by decide
  have hrebuilt : (keepingAudit.reconstruct pairTranscript pairBenchmark
      (pathOf (pairSession (headerResult ['1']) []).scratch)
      (opened pairTranscript pairBenchmark (pairSession (headerResult ['1']) []))).1 =
      .ok (some ⟨1, "(check-sat)\n".toList⟩) := by
    rw [keepingAudit.reconstruct_eq pairTranscript pairBenchmark closed_empty hname]
    rfl
  have hpanel : keepingAudit.table.panel pairBenchmark = .ok [Tool.z3.name, Tool.cvc5.name] :=
    LogicTable.panel_eq_ok_iff.mpr ⟨_, logic_pairBenchmark, by rfl⟩
  constructor
  · exact (files_after_handing pairAudit [] pairAnswer (.text pairBenchmark) _ closed_empty hname
      hplain).1 (Or.inl rfl)
  · have R := (files_after_handing keepingAudit [] pairAnswer (.text pairBenchmark) _ closed_empty
      hname hplain).2 pairTranscript pairBenchmark rfl rfl rfl hstatus
    refine (R.files _ _ _).mpr ⟨rfl, (reducedName, "(check-sat)\n".toList), ?_, rfl, rfl⟩
    unfold leftFiles reducedFile
    rw [hrebuilt, hpanel]
    exact List.mem_append_left _ List.mem_cons_self

/-- A benchmark in memory with half of a pair in it. -/
def halvedBenchmark : HandedBenchmark := .string [.char 'x', .half ⟨0, by decide⟩]

/-- **Where a half cannot be written the transcript is not left**: the benchmark comes first, its
file stays empty, and nothing else is written. -/
theorem not_files_of_half :
    pairAnswer.status = .unsat ∧
      (keepingAudit.runHanded [] pairAnswer halvedBenchmark
        (pairSession (headerResult ['1']) [])).1 = .error (.unencodable ⟨1, 0, 1⟩) ∧
      (keepingAudit.runHanded [] pairAnswer halvedBenchmark
        (pairSession (headerResult ['1']) [])).2.files.get?
          ((pairSession (headerResult ['1']) []).scratch ++ [benchmarkName]) =
        some (.file [] false) ∧
      (keepingAudit.runHanded [] pairAnswer halvedBenchmark
        (pairSession (headerResult ['1']) [])).2.files.get?
          ((pairSession (headerResult ['1']) []).scratch ++ [Reconstruction.coreName]) =
        none := by
  exact ⟨by decide, by rfl, by rfl, by rfl⟩

end Audit

end CoreAudit
