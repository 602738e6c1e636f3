import CoreAudit.Proofs.Action
import CoreAudit.Proofs.Files.Written
import CoreAudit.Proofs.Transcript.Decoration
import Mathlib.Data.List.Basic

/-!
# Transcripts that are written and read again

A transcript is written to a file for the scrambler, a line feed after every line, and a file is
read as bytes that are cut into lines and cleaned. What was cleaned once is not always clean: of two
stamps in front of a line one is left, and it goes when the file is read. That is the only way in
which a transcript can change. Cleaned lines hold no line end (`unbroken_of_mem_ofText`) and none of
them is an acknowledgement, so a line in front of which no stamp is left comes back as it is
(`clean?_eq_some_self_iff`).

Headlines:
* **`clean?_eq_some_self_iff`**: what cleaning keeps of a line without line ends.
* **`ofText_text_iff`**: what is written is read again iff no line starts with a stamp.
* **`reread_iff`**: the same for a transcript that is written to a file, and the file again.
-/

namespace CoreAudit

namespace Stamp

theorem drop_suffix (t : Text) : drop t <:+ t := by
  rcases hcut : cut? t with _ | rest
  · rw [drop, hcut]
    exact List.suffix_rfl
  · obtain ⟨s, _, rfl⟩ := cut?_eq_some_iff.mp hcut
    rw [drop, hcut]
    exact List.suffix_append s rest

theorem drop_eq_self_iff {t : Text} : drop t = t ↔ ∀ s, IsStamp s → ¬ s <+: t := by
  refine ⟨fun h => ?_, drop_of_unstamped⟩
  rintro s hs ⟨rest, rfl⟩
  rw [drop_stamp hs] at h
  obtain ⟨a, b, _, _, rfl⟩ := hs
  have hlength := congrArg List.length h
  simp only [List.length_append, List.length_cons, List.length_nil] at hlength
  omega

end Stamp

namespace Transcript

open Text

variable {raw line : Text} {t : Transcript}

/-- No line starts with a stamp. -/
def Unstamped (t : Transcript) : Prop :=
  ∀ l ∈ t.lines, ∀ stamp, Stamp.IsStamp stamp → ¬ stamp <+: l

instance (t : Transcript) : Decidable t.Unstamped :=
  decidable_of_iff (∀ l ∈ t.lines, Stamp.cut? l = none) <|
    forall₂_congr fun _ _ => Stamp.cut?_eq_none_iff

/-- The transcript of what a solver left, which is a text or bytes. -/
def ofRaw : Text ⊕ Bytes → Transcript
  | .inl text => ofText text
  | .inr bytes => ofBytes bytes

theorem exists_ofRaw_eq (raw : Text ⊕ Bytes) : ∃ text, ofRaw raw = ofText text := by
  cases raw with
  | inl text => exact ⟨text, rfl⟩
  | inr bytes => exact ⟨Utf8.decode bytes, rfl⟩

/-- **Cleaning keeps a line without line ends as it is iff it is no acknowledgement and starts with
no stamp.** -/
theorem clean?_eq_some_self_iff (hunbroken : ∀ c ∈ line, isLineEnd c = false) :
    clean? line = some line ↔
      line ≠ acknowledgement ∧ ∀ stamp, Stamp.IsStamp stamp → ¬ stamp <+: line := by
  rw [← Stamp.drop_eq_self_iff]
  unfold clean?
  dsimp only
  rw [trimLineEnd_of_unbroken hunbroken]
  constructor
  · intro h
    split at h
    · cases h
    · rename_i hkept
      exact ⟨fun hack => hkept (Or.inl hack), Option.some.inj h⟩
  · rintro ⟨hother, hbare⟩
    rw [hbare, if_neg (not_or.mpr ⟨hother, hother⟩)]

/-- A cleaned line holds no line end. -/
theorem unbroken_of_mem_ofText (h : line ∈ (ofText raw).lines) : ∀ c ∈ line, isLineEnd c = false := by
  obtain ⟨whole, hwhole, hclean⟩ := List.mem_filterMap.mp h
  have hunbroken := not_isLineEnd_of_mem_splitLines hwhole
  unfold clean? at hclean
  dsimp only at hclean
  rw [trimLineEnd_of_unbroken hunbroken] at hclean
  split at hclean
  · cases hclean
  · cases hclean
    exact fun c hc => hunbroken c ((Stamp.drop_suffix whole).subset hc)

/-- **What is written is read again iff no line starts with a stamp.** -/
theorem ofText_text_iff : ofText (ofText raw).text = ofText raw ↔ (ofText raw).Unstamped := by
  have hlines : (ofText (ofText raw).text).lines = (ofText raw).lines.filterMap clean? := by
    show normalize (splitLines (unlines (ofText raw).lines)) = _
    rw [splitLines_unlines _ fun l hl => unbroken_of_mem_ofText hl]
    rfl
  have hother : ∀ l ∈ (ofText raw).lines, l ≠ acknowledgement := fun l hl hack =>
    not_mem_normalize raw.splitLines (hack ▸ hl)
  calc ofText (ofText raw).text = ofText raw
      ↔ (ofText raw).lines.filterMap clean? = (ofText raw).lines := by
        rw [Transcript.mk.injEq, hlines]
    _ ↔ ∀ l ∈ (ofText raw).lines, clean? l = some l := by
        rw [← List.filterMap_eq_map_iff_forall_eq_some, List.map_id']
    _ ↔ (ofText raw).Unstamped := forall₂_congr fun l hl => by
        rw [clean?_eq_some_self_iff (unbroken_of_mem_ofText hl)]
        exact and_iff_right (hother l hl)

/-- **A transcript that is written to a file is read from it again iff no line starts with a
stamp**: the same lines, the same verdict, the same status and the same text. Whatever solver output
the transcript is of, the file is written and read wherever the path leads to a place for it, and
writing what was read changes nothing. -/
theorem reread_iff (raw : Text ⊕ Bytes) {path : Text} {s : Session} {loc : Location}
    (hplace : s.files.target s.here path = .ok loc) :
    ∃ written again, Act.writeFile path (ofRaw raw).text s = (.ok (), written) ∧
      (ofBytes <$> Act.readFile path) written = (.ok again, written) ∧
      ((ofRaw raw).Unstamped ↔
        again.lines = (ofRaw raw).lines ∧ again.verdictText = (ofRaw raw).verdictText ∧
          again.status = (ofRaw raw).status ∧ again.text = (ofRaw raw).text ∧
          Act.writeFile path again.text written = (.ok (), written)) := by
  obtain ⟨text, hraw⟩ := exists_ofRaw_eq raw
  rw [hraw]
  have T := FileTree.target_eq_ok.mp hplace
  obtain ⟨files, hwrite⟩ : ∃ files,
      s.files.write s.here path (Utf8.encode (ofText text).text) = .ok files :=
    ⟨_, FileTree.write_eq_ok.mpr ⟨loc, T, rfl⟩⟩
  have hread := FileTree.read_of_write hwrite
  refine ⟨{ s with files }, ofText (ofText text).text, Act.writeFile_run hwrite, ?_, ?_⟩
  · rw [Act.map_run, Act.readFile_run, hread]
    exact congrArg (fun t => (Except.ok (ofText t), _)) (Utf8.decode_encode _)
  · rw [← ofText_text_iff]
    constructor
    · intro hsame
      rw [hsame]
      exact ⟨rfl, rfl, rfl, rfl, Act.writeFile_run (FileTree.write_of_write hwrite)⟩
    · rintro ⟨hlines, -⟩
      exact congrArg mk hlines

/-- An answer as bytes: its first line is stamped and acknowledged, its third is no UTF-8, its
fourth is empty and its last is not ended. -/
def brokenAnswer : Bytes :=
  Utf8.encode (firstStamp ++ "success\r\n".toList ++ firstStamp ++ "unsat\r\n".toList) ++
    [0xFF, 0x0A, 0x0A] ++ Utf8.encode "(goal)".toList

/-- The broken answer has four lines, none of which is stamped; its transcript is read as it was
written. -/
theorem reread_brokenAnswer :
    FileTree.empty.target [] "core.txt".toList = .ok ["core.txt".toList] ∧
      (ofRaw (.inr brokenAnswer)).lines =
        ["unsat".toList, ['\uFFFD'], [], "(goal)".toList] ∧
      ∃ written again,
        Act.writeFile "core.txt".toList (ofRaw (.inr brokenAnswer)).text (.fresh .empty .empty) =
          (.ok (), written) ∧
        (ofBytes <$> Act.readFile "core.txt".toList) written = (.ok again, written) ∧
        again.lines = (ofRaw (.inr brokenAnswer)).lines ∧ again.status = .unsat := by
  have hplace : FileTree.empty.target [] "core.txt".toList = .ok ["core.txt".toList] := rfl
  have hlines : (ofRaw (.inr brokenAnswer)).lines =
      ["unsat".toList, ['\uFFFD'], [], "(goal)".toList] := by decide +kernel
  obtain ⟨written, again, hwrite, hread, hsame⟩ :=
    reread_iff (.inr brokenAnswer) (s := .fresh .empty .empty) hplace
  have hbare : (ofRaw (.inr brokenAnswer)).Unstamped := by
    rw [Unstamped, hlines]
    exact (by decide : (⟨["unsat".toList, ['\uFFFD'], [], "(goal)".toList]⟩ : Transcript).Unstamped)
  obtain ⟨hagain, _, hstatus, _⟩ := hsame.mp hbare
  refine ⟨hplace, hlines, written, again, hwrite, hread, hagain, ?_⟩
  rw [hstatus, status, verdictText, hlines]
  rfl

end Transcript

end CoreAudit
