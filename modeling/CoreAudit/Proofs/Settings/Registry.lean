import CoreAudit.CommandLine.Basic
import CoreAudit.Proofs.Action
import Mathlib.Data.List.Induction

/-!
# The registry of tools

What is known of a tool comes from three places: it was looked for at the start, the environment may
point at the scrambler, and calls may give any tool a path later on. Whether a tool is there and
where it is are kept apart and are set in all three places; they never come apart, and every place
has its rank in what they say.

A call sees the files of its own moment. It is refused or it gives one tool one path
(`Override.Outcome` says all that it can do), and the registry is upheld by one call
(`Upheld.outcome`), and so by every history of calls.

Headlines:
* **`outcome_make`**: a call is refused and changes nothing, or it changes the tool that it names.
* **`upheld_locateAll`**: the registry is upheld when the tools have been looked for.
* **`Upheld.outcome`**: one more call upholds it.
* **`makesCalls_configure`**: a command line changes the tools by such calls only.
* **`registry_upheld`**: it is upheld after every start and every history of calls.
-/

namespace CoreAudit

namespace Settings

open CommandLine

/-- A call that is to give the tool of a name a path, with the files of its moment. -/
structure Override where
  files : FileTree
  here : Location
  name : Text
  path : Text

namespace Override

variable {o : Override} {t u : Tool} {path : Text} {f : Fault}

/-- The call gives the tool a path: it names the tool, and its own path leads to that place. -/
structure Gives (o : Override) (t : Tool) (path : Text) : Prop where
  tool : Tool.ofName? o.name = some t
  place : ∃ loc, o.files.resolve o.here o.path = .ok loc ∧ path = FileTree.pathOf loc

/-- The call is refused with a fault. -/
inductive Refused (o : Override) : Fault → Prop
  | unknown (tool : Tool.ofName? o.name = none) : Refused o (.unknownTool o.name)
  | nowhere {t : Tool} {problem : PathProblem} (tool : Tool.ofName? o.name = some t)
      (place : o.files.resolve o.here o.path = .error problem) (short : problem ≠ .tooLong) :
      Refused o (.noSuchPath o.path)
  | tooLong {t : Tool} (tool : Tool.ofName? o.name = some t)
      (place : o.files.resolve o.here o.path = .error .tooLong) :
      Refused o (.file .tooLong (some o.path))

theorem Gives.tool_inj {path' : Text} (h : o.Gives t path) (h' : o.Gives u path') : u = t :=
  Option.some.inj (h'.tool.symm.trans h.tool)

/-- What becomes of the settings in a call. -/
def apply (o : Override) (s : Settings) : Except Fault Settings :=
  s.setPath o.files o.here o.name o.path

theorem Gives.apply (h : o.Gives t path) (s : Settings) : o.apply s = .ok (s.put t path) := by
  obtain ⟨htool, loc, hplace, rfl⟩ := h
  rw [Override.apply, setPath, toolOf, htool]
  simp only [hplace]

theorem Refused.apply (h : o.Refused f) (s : Settings) : o.apply s = .error f := by
  cases h with
  | unknown tool => rw [Override.apply, setPath, toolOf, tool]
  | nowhere tool place short =>
    rw [Override.apply, setPath, toolOf, tool]
    simp only [place]
  | tooLong tool place =>
    rw [Override.apply, setPath, toolOf, tool]
    simp only [place]

/-- **A call is refused or gives one tool one path.** -/
theorem refused_or_gives (o : Override) :
    (∃ f, o.Refused f) ∨ ∃ t path, o.Gives t path := by
  cases htool : Tool.ofName? o.name with
  | none => exact Or.inl ⟨_, .unknown htool⟩
  | some t =>
    cases hplace : o.files.resolve o.here o.path with
    | ok loc => exact Or.inr ⟨t, _, htool, loc, hplace, rfl⟩
    | error problem =>
      by_cases hlong : problem = .tooLong
      · exact Or.inl ⟨_, .tooLong htool (hlong ▸ hplace)⟩
      · exact Or.inl ⟨_, .nowhere htool hplace hlong⟩

theorem Refused.not_gives (h : o.Refused f) : ¬ o.Gives t path := by
  intro hgives
  have := (h.apply standard).symm.trans (hgives.apply standard)
  cases this

theorem apply_eq_error_iff {s : Settings} : o.apply s = .error f ↔ o.Refused f := by
  refine ⟨fun h => ?_, fun h => h.apply s⟩
  rcases o.refused_or_gives with ⟨g, hrefused⟩ | ⟨t, path, hgives⟩
  · rw [hrefused.apply] at h
    cases h
    exact hrefused
  · rw [hgives.apply] at h
    cases h

/-- The call as it is made in a session, when the files are its own. -/
def make (o : Override) (s : Session) : Except Fault Unit × Session :=
  setTool o.name o.path { s with files := o.files, here := o.here }

/-- All that a call can do to the settings. -/
inductive Outcome (o : Override) (s : Settings) : Except Fault Unit → Settings → Prop
  /-- It is refused, and nothing has changed. -/
  | refused {f : Fault} (refused : o.Refused f) : Outcome o s (.error f) s
  /-- It gives a tool a path, and no other tool has changed. -/
  | given {t : Tool} {path : Text} {s' : Settings} (gives : o.Gives t path)
      (own : s'.tools t = ⟨some path, true⟩) (others : ∀ u, u ≠ t → s'.tools u = s.tools u) :
      Outcome o s (.ok ()) s'

theorem Gives.outcome (h : o.Gives t path) (s : Settings) :
    Outcome o s (.ok ()) (s.put t path) := by
  refine .given h ?_ fun u hu => ?_
  · rw [tools_put, if_pos rfl]
  · rw [tools_put, if_neg hu]

/-- **A call is refused and changes nothing, or it changes the tool that it names.** -/
theorem outcome_make (o : Override) (s : Session) :
    Outcome o s.settings (o.make s).1 (o.make s).2.settings := by
  have hmake : o.make s = (Act.ofExcept (o.apply s.settings) >>= fun settings =>
      (set { s with files := o.files, here := o.here, settings } : Act Unit))
        { s with files := o.files, here := o.here } := rfl
  rw [hmake, Act.bind_run, Act.ofExcept_run]
  rcases o.refused_or_gives with ⟨f, hrefused⟩ | ⟨t, path, hgives⟩
  · rw [hrefused.apply]
    exact .refused hrefused
  · rw [hgives.apply]
    exact hgives.outcome s.settings

end Override

/-- The session after calls that were made one after the other, whatever became of each. -/
def makeAll (calls : List Override) (s : Session) : Session :=
  calls.foldl (fun s o => (o.make s).2) s

/-! ## Where a path comes from -/

/-- None of the calls gives the tool a path. -/
def Untouched (t : Tool) (calls : List Override) : Prop := ∀ o ∈ calls, ∀ path, ¬ o.Gives t path

section

variable (files : FileTree) (here : Location) (around : Surroundings)

/-- Where the path of a tool comes from after calls: the last call that gave it one, else the
project's own executables, else the first directory of the search path that has it. -/
inductive Origin (calls : List Override) (t : Tool) : Option Text → Prop
  | given {before after : List Override} {o : Override} {path : Text}
      (split : calls = before ++ o :: after) (gives : o.Gives t path)
      (last : Untouched t after) : Origin calls t (some path)
  | own (untouched : Untouched t calls)
      (there : files.isExecutable here (Path.join around.ownTools t.name) = true) :
      Origin calls t (some (Path.join around.ownTools t.name))
  | searched {before after : List Text} {dir : Text}
      (untouched : Untouched t calls)
      (absent : files.isExecutable here (Path.join around.ownTools t.name) = false)
      (split : around.directories = before ++ dir :: after)
      (there : files.isExecutable here (Path.join dir t.name) = true)
      (first : ∀ earlier ∈ before, files.isExecutable here (Path.join earlier t.name) = false) :
      Origin calls t (some (Path.join dir t.name))
  | missing (untouched : Untouched t calls)
      (absent : files.isExecutable here (Path.join around.ownTools t.name) = false)
      (nowhere : ∀ dir ∈ around.directories,
        files.isExecutable here (Path.join dir t.name) = false) :
      Origin calls t none

/-- The registry is upheld after calls: every tool is there iff it has a path, and its path comes
from where it should. -/
def Upheld (calls : List Override) (s : Settings) : Prop :=
  ∀ t, s.available t = (s.path t).isSome ∧ Origin files here around calls t (s.path t)

/-- The call that the environment makes at the start, if it points at the scrambler. -/
def startCalls : List Override :=
  match around.environment.get? scramblerVariable with
  | none => []
  | some [] => []
  | some path => [⟨files, here, Tool.scrambler.name, path⟩]

end

variable {files : FileTree} {here : Location} {around : Surroundings} {calls : List Override}
  {o : Override} {t : Tool} {s : Settings}

theorem untouched_nil (t : Tool) : Untouched t [] := fun _ ho => absurd ho List.not_mem_nil

theorem Untouched.append (h : Untouched t calls) (hnone : ∀ path, ¬ o.Gives t path) :
    Untouched t (calls ++ [o]) := by
  intro c hc
  rcases List.mem_append.mp hc with hc | hc
  · exact h c hc
  · rw [List.mem_singleton.mp hc]
    exact hnone

theorem Origin.append {path : Option Text} (h : Origin files here around calls t path)
    (hnone : ∀ path, ¬ o.Gives t path) : Origin files here around (calls ++ [o]) t path := by
  cases h with
  | @given before after c path split gives last =>
    have hsplit : calls ++ [o] = before ++ c :: (after ++ [o]) := by
      rw [split, List.append_assoc, List.cons_append]
    exact .given hsplit gives (last.append hnone)
  | own untouched there => exact .own (untouched.append hnone) there
  | searched untouched absent split there first =>
    exact .searched (untouched.append hnone) absent split there first
  | missing untouched absent nowhere => exact .missing (untouched.append hnone) absent nowhere

theorem Origin.of_gives {path : Text} (h : o.Gives t path) :
    Origin files here around (calls ++ [o]) t (some path) :=
  .given rfl h (untouched_nil t)

/-! ## What the start upholds -/

/-- What is found among places is the place of the first item whose place is as it should be. -/
theorem find?_map_eq_some {α : Type} {p : Text → Bool} {place : α → Text} {xs : List α}
    {found : Text} (h : (xs.map place).find? p = some found) :
    ∃ before x after, xs = before ++ x :: after ∧ found = place x ∧ p (place x) = true ∧
      ∀ y ∈ before, p (place y) = false := by
  obtain ⟨hfound, before, after, hsplit, hbefore⟩ := List.find?_eq_some_iff_append.mp h
  obtain ⟨first, rest, rfl, hfirst, hrest⟩ := List.map_eq_append_iff.mp hsplit
  obtain ⟨x, last, rfl, rfl, -⟩ := List.map_eq_cons_iff.mp hrest
  refine ⟨first, x, last, rfl, rfl, hfound, fun y hy => ?_⟩
  have := hbefore (place y) (hfirst ▸ List.mem_map_of_mem hy)
  simpa using this

/-- **The registry is upheld when the tools have been looked for.** -/
theorem upheld_locateAll (hblank : ∀ t, s.tools t = .blank) :
    Upheld files here around [] (s.locateAll files here around).1 := by
  intro t
  show (locate files here around t (s.tools t)).1.available =
      (locate files here around t (s.tools t)).1.path.isSome ∧
    Origin files here around [] t (locate files here around t (s.tools t)).1.path
  rw [hblank t]
  unfold locate
  dsimp only
  cases hown : files.isExecutable here (Path.join around.ownTools t.name) with
  | true => exact ⟨rfl, .own (untouched_nil t) hown⟩
  | false =>
    cases hsearched : searched files here around t with
    | some path =>
      obtain ⟨before, dir, after, hsplit, rfl, hthere, hfirst⟩ := find?_map_eq_some hsearched
      exact ⟨rfl, .searched (untouched_nil t) hown hsplit hthere hfirst⟩
    | none =>
      refine ⟨rfl, .missing (untouched_nil t) hown fun dir hdir => ?_⟩
      have := List.find?_eq_none.mp hsearched _ (List.mem_map_of_mem hdir)
      simpa using this

theorem tools_budgets (environment : Keyed Text Text) (t : Tool) :
    (budgets environment).1.tools t = .blank := rfl

theorem atStart_cases (files : FileTree) (here : Location) (around : Surroundings) :
    let located := ((budgets around.environment).1.locateAll files here around).1
    startCalls files here around = [] ∧ (atStart files here around).1 = .ok located ∨
      ∃ o, startCalls files here around = [o] ∧ (atStart files here around).1 = o.apply located := by
  intro located
  unfold startCalls atStart
  dsimp only
  rcases around.environment.get? scramblerVariable with _ | _ | ⟨c, path⟩
  · exact Or.inl ⟨rfl, rfl⟩
  · exact Or.inl ⟨rfl, rfl⟩
  · exact Or.inr ⟨_, rfl, rfl⟩

/-! ## What a call upholds -/

/-- **One more call upholds the registry.** -/
theorem Upheld.outcome (h : Upheld files here around calls s) {result : Except Fault Unit}
    {s' : Settings} (hcall : o.Outcome s result s') :
    Upheld files here around (calls ++ [o]) s' := by
  intro u
  cases hcall with
  | refused refused => exact ⟨(h u).1, (h u).2.append fun _ => refused.not_gives⟩
  | @given t _ _ gives own others =>
    by_cases hu : u = t
    · subst hu
      rw [available, Settings.path, own]
      exact ⟨rfl, .of_gives gives⟩
    · rw [available, Settings.path, others u hu]
      exact ⟨(h u).1, (h u).2.append fun _ hgives => hu (gives.tool_inj hgives)⟩

/-- **Every history of calls upholds it.** -/
theorem Upheld.makeAll {s : Session} (h : Upheld files here around calls s.settings)
    (more : List Override) :
    Upheld files here around (calls ++ more) (makeAll more s).settings := by
  induction more generalizing calls s with
  | nil =>
    rw [List.append_nil]
    exact h
  | cons o more ih =>
    have hone := h.outcome (o.outcome_make s)
    rw [List.append_cons]
    exact ih hone

theorem atStart_eq_error_iff {f : Fault} : (atStart files here around).1 = .error f ↔
    ∃ o ∈ startCalls files here around, o.Refused f := by
  rcases atStart_cases files here around with ⟨hcalls, hstart⟩ | ⟨o, hcalls, hstart⟩
  · rw [hcalls, hstart]
    constructor
    · intro h
      cases h
    · rintro ⟨o, ho, -⟩
      cases ho
  · rw [hcalls, hstart, Override.apply_eq_error_iff]
    simp only [List.mem_singleton, exists_eq_left]

/-- **Every start upholds it.** -/
theorem upheld_atStart (h : (atStart files here around).1 = .ok s) :
    Upheld files here around (startCalls files here around) s := by
  have hlocated : Upheld files here around []
      ((budgets around.environment).1.locateAll files here around).1 :=
    upheld_locateAll (tools_budgets around.environment)
  rcases atStart_cases files here around with ⟨hcalls, hstart⟩ | ⟨o, hcalls, hstart⟩
  · rw [hstart] at h
    cases h
    rw [hcalls]
    exact hlocated
  · rw [hstart] at h
    rcases o.refused_or_gives with ⟨f, hrefused⟩ | ⟨t, path, hgives⟩
    · rw [hrefused.apply] at h
      cases h
    · rw [hgives.apply] at h
      cases h
      rw [hcalls]
      exact hlocated.outcome (hgives.outcome _)

/-! ## The calls of a command line -/

section Configure

variable (files : FileTree) (here : Location) (around : Surroundings)

/-- All that the action does to the tools it does by calls, which see the files of its session. -/
def MakesCalls (act : Act Unit) : Prop :=
  ∀ (s : Session) (calls : List Override), Upheld files here around calls s.settings →
    ∃ more : List Override, (∀ o ∈ more, o.files = s.files ∧ o.here = s.here) ∧
      Upheld files here around (calls ++ more) (act s).2.settings ∧
      (act s).2.files = s.files ∧ (act s).2.here = s.here

variable {files here around}

theorem makesCalls_of_same {act : Act Unit}
    (h : ∀ s, (act s).2.settings.tools = s.settings.tools ∧ (act s).2.files = s.files ∧
      (act s).2.here = s.here) : MakesCalls files here around act := by
  intro s calls hupheld
  obtain ⟨htools, hsame⟩ := h s
  refine ⟨[], fun _ ho => absurd ho List.not_mem_nil, fun t => ?_, hsame⟩
  rw [List.append_nil, available, Settings.path, htools]
  exact hupheld t

theorem MakesCalls.bind {act next : Act Unit} (h : MakesCalls files here around act)
    (hnext : MakesCalls files here around next) :
    MakesCalls files here around (act >>= fun _ => next) := by
  intro s calls hupheld
  obtain ⟨first, hfirst, hthen, hfiles, hhere⟩ := h s calls hupheld
  rw [Act.bind_run]
  rcases hact : act s with ⟨f | ⟨⟩, t⟩ <;> rw [hact] at hthen hfiles hhere
  · exact ⟨first, hfirst, hthen, hfiles, hhere⟩
  · obtain ⟨rest, hrest, hend, hfiles', hhere'⟩ := hnext t _ hthen
    refine ⟨first ++ rest, fun o ho => ?_, ?_, hfiles'.trans hfiles, hhere'.trans hhere⟩
    · rcases List.mem_append.mp ho with ho | ho
      · exact hfirst o ho
      · exact ⟨(hrest o ho).1.trans hfiles, (hrest o ho).2.trans hhere⟩
    · rw [← List.append_assoc]
      exact hend

theorem makesCalls_setTool (name path : Text) :
    MakesCalls files here around (setTool name path) := by
  intro s calls hupheld
  let o : Override := ⟨s.files, s.here, name, path⟩
  refine ⟨[o], fun _ ho => List.mem_singleton.mp ho ▸ ⟨rfl, rfl⟩,
    hupheld.outcome (o.outcome_make s), ?_⟩
  unfold setTool
  rw [Act.bind_of_ok (Act.get_run s), Act.bind_run, Act.ofExcept_run]
  rcases s.settings.setPath s.files s.here name path with f | settings <;> exact ⟨rfl, rfl⟩

theorem makesCalls_setSolver (entry : Option Text) :
    MakesCalls files here around (setSolver entry) := by
  unfold setSolver
  split
  · exact makesCalls_of_same fun _ => ⟨rfl, rfl, rfl⟩
  · split
    · exact makesCalls_setTool _ _
    · exact makesCalls_of_same fun _ => ⟨rfl, rfl, rfl⟩

/-- **A command line upholds the registry**: it changes the tools by calls only, also where it is
refused. -/
theorem makesCalls_configure (a : Arguments) : MakesCalls files here around (configure a) := by
  have hsolvers : ∀ entries : List (Option Text),
      MakesCalls files here around (entries.forM setSolver) := by
    intro entries
    induction entries with
    | nil => exact makesCalls_of_same fun _ => ⟨rfl, rfl, rfl⟩
    | cons entry entries ih => exact (makesCalls_setSolver entry).bind ih
  have hbudgets : MakesCalls files here around (modify fun s => { s with settings :=
      { s.settings with
        killAfter := a.killAfter.getD s.settings.killAfter
        validationTimeout := a.timeout.getD s.settings.validationTimeout } }) :=
    makesCalls_of_same fun _ => ⟨rfl, rfl, rfl⟩
  have hrest := (hsolvers a.solverPaths).bind hbudgets
  unfold configure
  rcases given a.scrambler with _ | path
  · exact hrest
  · exact (makesCalls_setTool _ path).bind hrest

end Configure

/-! ## What is told of the tools -/

/-- What the registry tells of the tools. -/
structure Tells (files : FileTree) (here : Location) (around : Surroundings)
    (calls : List Override) (s : Settings) : Prop where
  /-- A tool is there iff it has a path, and the path comes from where it should. -/
  tools : ∀ t : Tool, ∃ path, s.getPath t.name = .ok path ∧
    s.isAvailable t.name = .ok path.isSome ∧ Origin files here around calls t path
  /-- Of a tool that validates, both stand among those that validate. -/
  validators : ∀ t ∈ Tool.validators, ∃ available path,
    s.isAvailable t.name = .ok available ∧ s.getPath t.name = .ok path ∧
      s.validatorConfig.get? t.name = some ⟨available, path, t.baseArgs⟩
  /-- Other names are refused, and stand nowhere. -/
  unknown : ∀ name, Tool.ofName? name = none →
    s.getPath name = .error (.unknownTool name) ∧
      s.isAvailable name = .error (.unknownTool name) ∧ s.validatorConfig.get? name = none

theorem getPath_name (s : Settings) (t : Tool) : s.getPath t.name = .ok (s.path t) := by
  rw [getPath, toolOf, Tool.ofName?_name]
  rfl

theorem isAvailable_name (s : Settings) (t : Tool) : s.isAvailable t.name = .ok (s.available t) := by
  rw [isAvailable, toolOf, Tool.ofName?_name]
  rfl

theorem get?_validatorConfig_eq_none {name : Text} (h : Tool.ofName? name = none) :
    s.validatorConfig.get? name = none := by
  have hkeys : s.validatorConfig.keys = Tool.validators.map Tool.name := rfl
  have hmem : name ∉ s.validatorConfig.keys := by
    rw [hkeys, List.mem_map]
    rintro ⟨t, -, rfl⟩
    rw [Tool.ofName?_name] at h
    cases h
  rwa [Keyed.mem_keys_iff, Option.not_isSome_iff_eq_none] at hmem

theorem Upheld.tells (h : Upheld files here around calls s) : Tells files here around calls s where
  tools := fun t =>
    ⟨s.path t, s.getPath_name t, (s.isAvailable_name t).trans (congrArg _ (h t).1), (h t).2⟩
  validators := fun t ht =>
    ⟨s.available t, s.path t, s.isAvailable_name t, s.getPath_name t, s.get?_validatorConfig ht⟩
  unknown := by
    intro name hname
    have hname' : toolOf name = .error (.unknownTool name) := by rw [toolOf, hname]
    refine ⟨?_, ?_, get?_validatorConfig_eq_none hname⟩
    · rw [getPath, hname']
      rfl
    · rw [isAvailable, hname']
      rfl

/-- **The registry is upheld after every start and every history of calls.** A start is refused iff
the call of the environment is. After any other, whatever calls were made and however they ended, a
tool is there iff it has a path, the path comes from where it should, and so it is told of the tools
that validate. The next call is refused and changes nothing, or it changes the tool that it names
and no other; and a command line changes the tools by calls only. -/
theorem registry_upheld (files : FileTree) (here : Location) (around : Surroundings) :
    (∀ f, (atStart files here around).1 = .error f ↔
      ∃ o ∈ startCalls files here around, o.Refused f) ∧
      ∀ s : Session, (atStart files here around).1 = .ok s.settings → ∀ calls : List Override,
        Tells files here around (startCalls files here around ++ calls)
            (makeAll calls s).settings ∧
          (∀ o : Override, o.Outcome (makeAll calls s).settings (o.make (makeAll calls s)).1
            (o.make (makeAll calls s)).2.settings) ∧
          ∀ a : Arguments, ∃ more : List Override,
            (∀ o ∈ more, o.files = (makeAll calls s).files ∧ o.here = (makeAll calls s).here) ∧
              Tells files here around (startCalls files here around ++ calls ++ more)
                (configure a (makeAll calls s)).2.settings := by
  refine ⟨fun f => atStart_eq_error_iff, fun s hs calls => ?_⟩
  have hupheld := (upheld_atStart hs).makeAll calls
  refine ⟨hupheld.tells, fun o => o.outcome_make _, fun a => ?_⟩
  obtain ⟨more, hmore, hend, -⟩ := makesCalls_configure a (makeAll calls s) _ hupheld
  exact ⟨more, hmore, hend.tells⟩

/-- Files in which `z3` is among the project's own executables, and `cvc5` is in two directories
but can be executed in the second only. -/
def shelvedFiles : FileTree :=
  ⟨[(["own".toList], .directory), (["own".toList, "z3".toList], .file [] true),
    (["a".toList], .directory), (["a".toList, "cvc5".toList], .file [] false),
    (["b".toList], .directory), (["b".toList, "cvc5".toList], .file [] true)]⟩

/-- An environment that points at the scrambler, with both directories on the search path. -/
def shelvedAround : Surroundings :=
  ⟨[(scramblerVariable, "b/cvc5".toList)], "a:b".toList, "own".toList⟩

/-- The session that starts with them. -/
def shelvedSession : Session :=
  let located := ((budgets shelvedAround.environment).1.locateAll shelvedFiles [] shelvedAround).1
  { Session.fresh shelvedFiles .empty with settings := located.put .scrambler "/b/cvc5".toList }

/-- Calls for a tool that is not known, for a place that is not there, and for a directory. -/
def shelvedCalls : List Override :=
  [⟨shelvedFiles, [], "yices".toList, ['b']⟩, ⟨shelvedFiles, [], "z3".toList, "nowhere".toList⟩,
    ⟨shelvedFiles, [], "mathsat".toList, ['b']⟩]

/-- After the three calls, two of which are refused, every tool has its path from another place. -/
theorem registry_upheld_shelved :
    (atStart shelvedFiles [] shelvedAround).1 = .ok shelvedSession.settings ∧
      Tells shelvedFiles [] shelvedAround (startCalls shelvedFiles [] shelvedAround ++ shelvedCalls)
        (makeAll shelvedCalls shelvedSession).settings ∧
      Tool.all.map (makeAll shelvedCalls shelvedSession).settings.path =
        [some "own/z3".toList, some "b/cvc5".toList, some "/b".toList, some "/b/cvc5".toList] := by
  have hstart : (atStart shelvedFiles [] shelvedAround).1 = .ok shelvedSession.settings := rfl
  obtain ⟨-, hupheld⟩ := registry_upheld shelvedFiles [] shelvedAround
  obtain ⟨htells, -⟩ := hupheld shelvedSession hstart shelvedCalls
  exact ⟨hstart, htells, by decide +kernel⟩

end Settings

end CoreAudit
