import CoreAudit.Proofs.Asked
import CoreAudit.Proofs.Audit.Ending
import CoreAudit.Proofs.Files.Under

/-!
# Audits in their scratch directories

The audit of an unsat answer makes a scratch directory with a name that nothing has, and writes its
own files there. As long as every entry of a tree lies in a directory (`FileTree.Closed`), nothing
is under that name beforehand, so that every file can be written (`Scratch.write`).

With a scrambler whose answer is given in advance, an audit therefore always gets as far as that
answer: what happens then depends on what the answer says and on nothing before it
(`run_scripted`).

Headlines:
* **`Scratch.write`**: a file of the audit is written in its scratch directory.
* **`run_scripted`**: the audit of an unsat answer goes on from what the scrambler's run says.
-/

namespace CoreAudit

namespace FileTree

/-- Every entry lies in a directory. -/
def Closed (t : FileTree) : Prop :=
  ∀ (loc : Location) (name : Text), t.get? (loc ++ [name]) ≠ none → t.get? loc = some .directory

/-- A scratch directory of a proper name, in which nothing but the written files is. -/
structure Scratch (t : FileTree) (name : Text) (written : List Text) : Prop where
  isName : Path.IsName name
  leads : ∀ here, Leads t here (pathOf [name]) [name]
  free : ∀ file, file ∉ written → t.get? [name, file] = none

variable {t : FileTree} {name file : Text} {written : List Text}

/-- A scratch directory that was just made is empty. -/
theorem Scratch.make (hclosed : t.Closed) {stem : Text} (N : Path.IsName (t.freeName stem)) :
    Scratch (t.put [t.freeName stem] .directory) (t.freeName stem) [] where
  isName := N
  leads := fun here => leads_scratch t here N
  free := by
    intro file _
    have hne : [t.freeName stem, file] ≠ [t.freeName stem] := fun h => nomatch (List.cons.inj h).2
    rw [get?_put t (List.cons_ne_nil _ _), if_neg hne]
    rcases hget : t.get? [t.freeName stem, file] with _ | e
    · rfl
    · have habove := hclosed [t.freeName stem] file (by rw [List.singleton_append, hget]; simp)
      rw [t.get?_freeName stem] at habove
      cases habove

theorem length_encode_le {name : Text} (h : Path.isTooLong name = false) :
    (Text.Utf8.encode name).length ≤ 255 := by
  unfold Path.isTooLong at h
  exact Nat.not_lt.mp (of_decide_eq_false h)

theorem length_encode_slash_le {name : Text} (N : Path.IsName name) :
    (Text.Utf8.encode ('/' :: name)).length ≤ 256 := by
  have hslash : (Text.Utf8.encode ['/']).length = 1 := by decide
  have hname := length_encode_le N.short
  have hsplit : '/' :: name = ['/'] ++ name := rfl
  rw [hsplit, Text.encode_append, List.length_append, hslash]
  omega

theorem length_pathOf_lt (N : Path.IsName name) :
    (Text.Utf8.encode (pathOf [name])).length < Path.maxPath := by
  rw [pathOf_singleton]
  exact Nat.lt_of_le_of_lt (length_encode_slash_le N) (by decide)

theorem Scratch.length_lt (S : Scratch t name written) (N : Path.IsName file) :
    (Text.Utf8.encode (pathOf [name] ++ '/' :: file)).length < Path.maxPath := by
  rw [Text.encode_append, List.length_append, pathOf_singleton]
  have hsum := Nat.add_le_add (length_encode_slash_le S.isName) (length_encode_slash_le N)
  exact Nat.lt_of_le_of_lt hsum (by decide)

/-- **A file is written in the scratch directory**, and the others can still be. -/
theorem Scratch.write (S : Scratch t name written) (N : Path.IsName file) (hfile : file ∉ written)
    (here : Location) (content : Bytes) :
    t.write here (Path.join (pathOf [name]) file) content =
        .ok (t.put [name, file] (.file content false)) ∧
      Scratch (t.put [name, file] (.file content false)) name (file :: written) := by
  have hfree := S.free file hfile
  refine ⟨write_join (S.leads here) N.toIsPiece (S.length_lt N) N.short hfree content,
    S.isName, fun here => ?_, fun other hother => ?_⟩
  · refine (S.leads here).put (List.cons_ne_nil _ _) ?_
    rw [hfree]
    exact fun h => nomatch h
  · rw [List.mem_cons, not_or] at hother
    have hne : [name, other] ≠ [name, file] := fun h =>
      hother.1 (List.cons.inj (List.cons.inj h).2).1
    rw [get?_put t (List.cons_ne_nil _ _), if_neg hne]
    exact S.free other hother.2

end FileTree

namespace Session

/-- Nothing was asked, started or done to a process between two sessions, but for what runners with
answers given in advance were asked. -/
structure AskedSince (s u : Session) (requests : List (Text × Invocation)) : Prop where
  asked : u.asked = s.asked ++ requests
  starts : u.starts = s.starts
  events : u.events = s.events

namespace AskedSince

variable {s u v : Session} {a b : List (Text × Invocation)}

theorem trans (h : AskedSince s u a) (h' : AskedSince u v b) : AskedSince s v (a ++ b) :=
  ⟨by rw [h'.asked, h.asked, List.append_assoc], h'.starts.trans h.starts,
    h'.events.trans h.events⟩

theorem of_trace (h : u.trace = s.trace) : AskedSince s u [] := by
  refine ⟨?_, ?_, ?_⟩
  · rw [List.append_nil, Session.asked, h]
    rfl
  · rw [Session.starts, h]
    rfl
  · rw [Session.events, h]
    rfl

theorem records (s : Session) (rs : List LogRecord) :
    AskedSince s (s.mark (rs.map .record)) [] := by
  have hevents : (rs.map Mark.record).filterMap Mark.event? = [] := by
    rw [List.filterMap_eq_nil_iff]
    intro m hm
    obtain ⟨r, _, rfl⟩ := List.mem_map.mp hm
    rfl
  refine ⟨?_, s.starts_mark_records rs, ?_⟩
  · rw [List.append_nil, s.asked_mark_records rs]
  · unfold Session.events Session.mark
    rw [List.filterMap_append, hevents, List.append_nil]

theorem call (s : Session) (label : Text) (c : Call) :
    AskedSince s (s.mark [.call label c]) [(label, c.invocation)] := by
  refine ⟨s.asked_mark_call label c, ?_, ?_⟩
  · unfold Session.starts Session.mark
    rw [List.filterMap_append]
    exact List.append_nil _
  · unfold Session.events Session.mark
    rw [List.filterMap_append]
    exact List.append_nil _

end AskedSince

end Session

namespace Audit

variable {a : Audit} {schedule : List Pool.Move} {t : Transcript} {b : Benchmark}
  {name label : Text} {result : RunResult} {s : Session}

/-- The path of the benchmark that the scrambler is fed. -/
def benchmarkPath (b : Benchmark) (workdir : Text) : Text :=
  b.path.getD (Path.join workdir benchmarkName)

/-- What the scrambler is asked. -/
def scramblerRequest (a : Audit) (b : Benchmark) (workdir : Text) : Invocation :=
  ⟨none, a.reconstruction.arguments (Path.join workdir Reconstruction.coreName),
    some a.reconstruction.timeout, some (benchmarkPath b workdir), some workdir⟩

theorem isName_benchmarkName : Path.IsName benchmarkName :=
  ⟨⟨by decide, by decide, by decide, by decide, by decide⟩, by decide⟩

theorem isName_coreName : Path.IsName Reconstruction.coreName :=
  ⟨⟨by decide, by decide, by decide, by decide, by decide⟩, by decide⟩

/-- A file is written in the scratch directory, and nothing else happens. -/
theorem writeFile_scratch {written : List Text} {file : Text}
    (S : s.files.Scratch name written) (N : Path.IsName file) (hfile : file ∉ written)
    (text : Text) :
    ∃ u, Act.writeFile (Path.join (FileTree.pathOf [name]) file) text s = (.ok (), u) ∧
      u.toolbox = s.toolbox ∧ u.here = s.here ∧ u.trace = s.trace ∧
      u.files.Scratch name (file :: written) := by
  obtain ⟨hwrite, S'⟩ := S.write N hfile s.here (Text.Utf8.encode text)
  exact ⟨_, Act.writeFile_run hwrite, rfl, rfl, rfl, S'⟩

/-- The benchmark is in a file: its own, or one in the scratch directory. -/
theorem benchmarkFile_run (b : Benchmark) (S : s.files.Scratch name []) :
    ∃ u, benchmarkFile b (FileTree.pathOf [name]) s =
        (.ok (benchmarkPath b (FileTree.pathOf [name])), u) ∧
      u.toolbox = s.toolbox ∧ u.here = s.here ∧ u.trace = s.trace ∧
      u.files.Scratch name [benchmarkName] := by
  unfold benchmarkFile benchmarkPath
  cases b.path with
  | some path =>
    exact ⟨s, rfl, rfl, rfl, rfl, S.isName, S.leads, fun file _ => S.free file (by simp)⟩
  | none =>
    obtain ⟨u, hwrite, hu⟩ := writeFile_scratch S isName_benchmarkName (by simp) b.text
    exact ⟨u, Act.bind_of_ok hwrite, hu⟩

/-- The scrambler is asked once, and its run is read. -/
theorem rebuild_run (a : Audit) (t : Transcript) (b : Benchmark) (S : s.files.Scratch name [benchmarkName])
    (hscrambler : s.toolbox.scrambler = some (.scripted label fun _ => .ok result)) :
    ∃ u, a.reconstruction.rebuild (benchmarkPath b (FileTree.pathOf [name])) t
          (FileTree.pathOf [name]) s = ((Reconstruction.reading result).1, u) ∧
      u.toolbox = s.toolbox ∧ u.here = s.here ∧
      u.files.Scratch name [Reconstruction.coreName, benchmarkName] ∧
      s.AskedSince u [(label, a.scramblerRequest b (FileTree.pathOf [name]))] := by
  obtain ⟨w, hwrite, htoolbox, hhere, htrace, S'⟩ :=
    writeFile_scratch S isName_coreName (by decide) t.text
  have hrunner : Reconstruction.scrambler w =
      (.ok (.scripted label fun _ => .ok result), w) := by
    unfold Reconstruction.scrambler
    rw [Act.bind_of_ok (Act.get_run w), htoolbox, hscrambler]
    rfl
  have hcall := Session.AskedSince.call w label
    ((a.scramblerRequest b (FileTree.pathOf [name])).call w)
  rw [Invocation.invocation_call] at hcall
  unfold Reconstruction.rebuild Reconstruction.rebuildFrom
  rw [Act.bind_of_ok hwrite, Act.bind_of_ok hrunner,
    Act.bind_of_ok (Runner.run_scripted _ _ _ _)]
  dsimp only
  rw [Act.bind_of_ok (Act.records_run _ _), Act.ofExcept_run]
  exact ⟨_, rfl, htoolbox, hhere, S', ((Session.AskedSince.of_trace htrace).trans hcall).trans
    (.records _ _)⟩

/-- How an audit goes on from what a run of the scrambler says. -/
def proceed (a : Audit) (schedule : List Pool.Move) (b : Benchmark) (workdir : Text) :
    Except Fault (Option UnsatCore) → Act Outcome
  | .error f => throw f
  | .ok none => pure ⟨b.assertCount, .unparsable⟩
  | .ok (some core) => a.voteOn schedule b core workdir

/-- In its scratch directory an audit gets as far as the answer of the scrambler. -/
theorem checkCore_run (a : Audit) (schedule : List Pool.Move) (t : Transcript) (b : Benchmark)
    (S : s.files.Scratch name [])
    (hscrambler : s.toolbox.scrambler = some (.scripted label fun _ => .ok result)) :
    ∃ u, a.checkCore schedule t b (FileTree.pathOf [name]) s =
        a.proceed schedule b (FileTree.pathOf [name]) (Reconstruction.reading result).1 u ∧
      u.toolbox = s.toolbox ∧ u.here = s.here ∧
      u.files.Scratch name [Reconstruction.coreName, benchmarkName] ∧
      s.AskedSince u [(label, a.scramblerRequest b (FileTree.pathOf [name]))] := by
  obtain ⟨v, hbenchmark, htoolbox, hhere, htrace, S'⟩ := benchmarkFile_run b S
  rw [← htoolbox] at hscrambler
  obtain ⟨u, hrebuild, htoolbox', hhere', S'', hasked⟩ :=
    rebuild_run a t b S' hscrambler
  refine ⟨u, ?_, htoolbox'.trans htoolbox, hhere'.trans hhere, S'',
    (Session.AskedSince.of_trace htrace).trans hasked⟩
  unfold checkCore
  rw [Act.bind_of_ok hbenchmark, Act.bind_run, hrebuild]
  rcases (Reconstruction.reading result).1 with f | _ | core <;> rfl

theorem leave_run (a : Audit) (scratch : Location) (s : Session) :
    ∃ u, a.leave scratch s = (.ok (), u) ∧ s.AskedSince u [] := by
  unfold leave
  split
  · exact ⟨_, rfl, .records s [_]⟩
  · exact ⟨_, rfl, .of_trace rfl⟩

theorem leave_eq_ok (a : Audit) (scratch : Location) (s : Session) :
    a.leave scratch s = (.ok (), (a.leave scratch s).2) := by
  obtain ⟨u, hleave, _⟩ := a.leave_run scratch s
  rw [hleave]

/-- A scratch directory that is left is removed, unless it is kept. -/
theorem files_leave (a : Audit) (scratch : Location) (s : Session) :
    (a.leave scratch s).2.files =
      if a.keepsScratch then s.files else s.files.removeTree scratch := by
  unfold leave
  split <;> rfl

/-- **The audit of an unsat answer goes on from what the run of the scrambler says**, after nothing
else was asked, started or done. -/
theorem run_scripted (a : Audit) (schedule : List Pool.Move) (b : Benchmark) (hclosed : s.files.Closed)
    (hname : Path.IsName (s.files.freeName s.host.scratchStem)) (hstatus : t.status = .unsat)
    (hscrambler : s.toolbox.scrambler = some (.scripted label fun _ => .ok result)) :
    ∃ scratch u, a.run schedule t b s = Act.ensuring (a.leave scratch)
        (a.proceed schedule b (FileTree.pathOf scratch) (Reconstruction.reading result).1) u ∧
      u.toolbox = s.toolbox ∧ u.here = s.here ∧
      (∃ name, scratch = [name] ∧
        u.files.Scratch name [Reconstruction.coreName, benchmarkName]) ∧
      s.AskedSince u [(label, a.scramblerRequest b (FileTree.pathOf scratch))] := by
  rw [run_of_unsat hstatus]
  have hopened := Session.AskedSince.records s (b.records ++ [openingRecord t b])
  generalize hopening : s.mark ((b.records ++ [openingRecord t b]).map .record) = v at hopened
  have hfiles : v.files = s.files := by rw [← hopening]; rfl
  have hhost : v.host = s.host := by rw [← hopening]; rfl
  have hhere : v.here = s.here := by rw [← hopening]; rfl
  have htoolbox : v.toolbox = s.toolbox := by rw [← hopening]; rfl
  have S := FileTree.Scratch.make hclosed hname
  have hscratch : Act.makeScratch v = (.ok [s.files.freeName s.host.scratchStem],
      { v with files := s.files.put [s.files.freeName s.host.scratchStem] .directory }) := by
    rw [← hfiles, ← hhost]
    rfl
  generalize s.files.freeName s.host.scratchStem = name at S hscratch
  generalize hmade : { v with files := s.files.put [name] .directory } = w at hscratch
  have hscrambler' : w.toolbox.scrambler = some (.scripted label fun _ => .ok result) := by
    rw [← hmade, ← hscrambler]
    exact congrArg Toolbox.scrambler htoolbox
  have S' : w.files.Scratch name [] := by
    rw [← hmade]
    exact S
  have hasked' : s.AskedSince w [] := by
    refine hopened.trans (.of_trace ?_)
    rw [← hmade]
  obtain ⟨u, hcheck, htoolbox', hhere', hend, hasked⟩ :=
    checkCore_run a schedule t b S' hscrambler'
  refine ⟨[name], u, ?_, ?_, ?_, ⟨name, rfl, hend⟩, hasked'.trans hasked⟩
  · unfold checkInScratch
    rw [Act.bind_of_ok hscratch]
    unfold Act.ensuring
    rw [hcheck]
  · rw [htoolbox', ← hmade]
    exact htoolbox
  · rw [hhere', ← hmade]
    exact hhere

end Audit

end CoreAudit
