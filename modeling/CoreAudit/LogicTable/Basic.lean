import CoreAudit.Fault
import CoreAudit.Keyed
import CoreAudit.Text.Lines

/-!
# Policy tables

A policy table says which validators re-check a core of a logic, in order. It is given as a JSON
object from logics to lists of validators. Models `LogicPolicyTable`.

* `PolicyTable Letters` is the table of a document, in which the names of logics and of validators
  may hold halves of pairs: they are kept as the document has them.
* `LogicTable` is the table of an audit, whose validators are named by texts, as files are. Out of
  scope are audits by a validator with a half in its name: the rows that list one are left out.

Results:
* `PolicyTable.lookUp_eq_error_iff`: a logic is unknown exactly where the table does not list it.
* **`PolicyTable.lookUp_texts`**: in the table of an audit every other logic is looked up as in the
  document.
-/

namespace CoreAudit

/-- A policy table: the validators of every logic, in the order of the document. -/
structure PolicyTable (Name : Type) where
  rows : Keyed Letters (List Name)
  deriving Repr, DecidableEq

/-- A policy table whose validators are named by texts. -/
abbrev LogicTable := PolicyTable Text

namespace PolicyTable

variable {Name : Type}

/-- The table that lists no logic. -/
def empty : PolicyTable Name := ⟨[]⟩

/-- The validators of a logic, if the table lists it. -/
def get? (t : PolicyTable Name) (logic : Letters) : Option (List Name) := t.rows.get? logic

/-- The validators of a logic, or the fault that the table does not list it. -/
def lookUp (t : PolicyTable Name) (logic : Letters) : Except Fault (List Name) :=
  match t.get? logic with
  | some vs => .ok vs
  | none => .error (.unknownLogic logic)

/-- The row of a logic, or the fault that there is none. -/
def row (t : PolicyTable Name) (logic : Letters) : Except Fault (List Name) :=
  match t.get? logic with
  | some vs => .ok vs
  | none => .error (.missingRow logic)

/-- The names of the logics, in the order of the document. -/
def logics (t : PolicyTable Name) : List Letters := t.rows.keys

/-- The table in one line. -/
def describe (t : PolicyTable Name) : Text :=
  "LogicPolicyTable(".toList ++ Text.ofNat t.rows.length ++ " logics)".toList

theorem lookUp_eq_ok_iff {t : PolicyTable Name} {logic : Letters} {vs : List Name} :
    t.lookUp logic = .ok vs ↔ t.rows.get? logic = some vs := by
  unfold lookUp get?
  cases t.rows.get? logic <;> simp

/-- A logic is unknown exactly where the table does not list it. -/
theorem lookUp_eq_error_iff (t : PolicyTable Name) (logic : Letters) :
    t.lookUp logic = .error (.unknownLogic logic) ↔ logic ∉ t.logics := by
  unfold lookUp logics get?
  rw [Keyed.mem_keys_iff t.rows logic]
  cases t.rows.get? logic <;> simp

/-! ## Documents -/

/-- The items of a value: those of an array, the names of an object. -/
def items (j : Json) : Except Fault (List Letters) :=
  match j with
  | .array js => .ok (js.map Json.display)
  | .object ms => .ok (ms.map Prod.fst)
  | j => .error (.notIterable j.kind)

/-- The validators of a logic as a document gives them: a value with at least one item that is
no string. -/
def validatorsOf (logic : Letters) (j : Json) : Except Fault (List Letters) :=
  match j with
  | .string _ => .error (.noValidators logic)
  | j => if j.isEmptyish then .error (.noValidators logic) else items j

/-- The table with the rows of a document added. The first row that is wrong decides the fault. -/
def addRows (t : PolicyTable Letters) : List (Letters × Json) → Except Fault (PolicyTable Letters)
  | [] => .ok t
  | (logic, j) :: rows =>
    match validatorsOf logic j with
    | .error e => .error e
    | .ok validators => addRows ⟨t.rows.put logic validators⟩ rows

/-- The table of a document. -/
def ofJson : Json → Except Fault (PolicyTable Letters)
  | .object rows => empty.addRows rows
  | j => .error (.notObject j.kind)

/-- The table in a file with the given bytes. -/
def ofBytes (bytes : Bytes) : Except Fault (PolicyTable Letters) :=
  match Text.Utf8.decodeStrict bytes with
  | .error breach => .error (.badEncoding breach)
  | .ok t =>
    let document := t.unifyLineEnds
    match Json.read document with
    | .error (.flawed flaw rest) => .error (.badJson flaw document rest)
    | .error (.numeralTooLong n) => .error (.numeralTooLong n)
    | .error (.tooDeep container) => .error (.tooDeep container)
    | .ok j => ofJson j

/-- A name put in its place in a sorted list, unless it is there. -/
def insertSorted (v : Letters) : List Letters → List Letters
  | [] => [v]
  | w :: ws => if v = w then w :: ws else if v.le w then v :: w :: ws else w :: insertSorted v ws

/-- Every validator of the table once, in order. -/
def validatorIds (t : PolicyTable Letters) : List Letters :=
  (t.rows.flatMap Prod.snd).foldl (fun ids v => insertSorted v ids) []

/-! ## The table of an audit -/

/-- A row with its validators named by texts, if all of them are. -/
def rowTexts? (row : Letters × List Letters) : Option (Letters × List Text) :=
  (row.2.mapM Letters.toText).toOption.map (row.1, ·)

/-- The rows whose validators are named by texts. -/
def texts (t : PolicyTable Letters) : LogicTable := ⟨t.rows.filterMap rowTexts?⟩

/-- A row with its validators named by strings. -/
def rowLetters (row : Letters × List Text) : Letters × List Letters :=
  (row.1, row.2.map Letters.ofText)

/-- The table with its validators named by strings. -/
def letters (t : LogicTable) : PolicyTable Letters := ⟨t.rows.map rowLetters⟩

/-- A list is converted element by element, where each element has one origin. -/
theorem mapM_eq_ok_iff {ε α β : Type} {f : α → Except ε β} {g : β → α}
    (h : ∀ a b, f a = .ok b ↔ a = g b) (as : List α) (bs : List β) :
    as.mapM f = .ok bs ↔ as = bs.map g := by
  induction as generalizing bs with
  | nil => cases bs <;> simp [pure, Except.pure]
  | cons a as ih =>
    rw [List.mapM_cons]
    constructor
    · intro hrun
      rcases hfirst : f a with e | b <;> rw [hfirst] at hrun
      · cases hrun
      rcases hrest : as.mapM f with e | cs <;>
        simp only [bind, Except.bind, hrest] at hrun <;> cases hrun
      rw [List.map_cons, ← (h a b).mp hfirst, ← (ih cs).mp hrest]
    · intro hlist
      cases bs with
      | nil => cases hlist
      | cons b bs =>
        obtain ⟨rfl, rfl⟩ := List.cons.inj hlist
        rw [(h (g b) b).mpr rfl, (ih bs).mpr rfl]
        rfl

theorem rowTexts?_eq_some_iff (row : Letters × List Letters) (texts : Letters × List Text) :
    rowTexts? row = some texts ↔ row = rowLetters texts := by
  obtain ⟨logic, names⟩ := row
  obtain ⟨other, ids⟩ := texts
  have hnames := mapM_eq_ok_iff (fun _ _ => Letters.toText_eq_ok_iff) names ids
  rw [rowTexts?, rowLetters, Prod.mk.injEq, ← hnames]
  cases names.mapM Letters.toText <;> simp [Except.toOption, eq_comm]

/-- A table of texts is kept as it is. -/
theorem texts_letters (t : LogicTable) : t.letters.texts = t := by
  obtain ⟨rows⟩ := t
  have hrow : rowTexts? ∘ rowLetters = some :=
    funext fun row => (rowTexts?_eq_some_iff (rowLetters row) row).mpr rfl
  rw [letters, texts, List.filterMap_map, hrow, List.filterMap_some]

/-- **A logic whose validators are named by texts is looked up as in the document.** -/
theorem lookUp_texts {t : PolicyTable Letters} {logic : Letters}
    (h : ∀ names, t.get? logic = some names → ∃ ids : List Text, names = ids.map Letters.ofText) :
    (t.texts.lookUp logic).map (List.map Letters.ofText) = t.lookUp logic := by
  have hget : (t.texts.get? logic).map (List.map Letters.ofText) = t.get? logic := by
    obtain ⟨rows⟩ := t
    unfold get? at h ⊢
    rw [texts]
    dsimp only at h ⊢
    induction rows with
    | nil => rfl
    | cons row rows ih =>
      obtain ⟨key, names⟩ := row
      rw [Keyed.get?_cons] at h ⊢
      by_cases hkey : logic = key
      · rw [if_pos hkey] at h ⊢
        obtain ⟨ids, rfl⟩ := h names rfl
        have hrow : rowTexts? (key, ids.map Letters.ofText) = some (key, ids) :=
          (rowTexts?_eq_some_iff _ _).mpr rfl
        rw [List.filterMap_cons_some hrow, Keyed.get?_cons, if_pos hkey]
        rfl
      · rw [if_neg hkey] at h ⊢
        rw [← ih h]
        rcases hrow : rowTexts? (key, names) with _ | ⟨other, ids⟩
        · rw [List.filterMap_cons_none hrow]
        · obtain ⟨rfl, -⟩ := Prod.mk.inj ((rowTexts?_eq_some_iff _ _).mp hrow)
          rw [List.filterMap_cons_some hrow, Keyed.get?_cons, if_neg hkey]
  unfold lookUp
  rw [← hget]
  cases t.texts.get? logic <;> rfl

end PolicyTable

namespace LogicTable

/-- The validators of a logic, or the fault that the table does not list it. -/
def validatorsFor (t : LogicTable) (logic : Text) : Except Fault (List Text) :=
  t.lookUp (Letters.ofText logic)

/-- The validators of a logic are those of a row. -/
theorem exists_row_of_validatorsFor {t : LogicTable} {logic : Text} {ids : List Text}
    (h : t.validatorsFor logic = .ok ids) : ∃ row ∈ t.rows, row.2 = ids :=
  ⟨_, Keyed.mem_of_get? (PolicyTable.lookUp_eq_ok_iff.mp h), rfl⟩

end LogicTable

end CoreAudit
