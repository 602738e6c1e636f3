import CoreAudit.Proofs.Json.Names
import CoreAudit.Proofs.LogicTable.Sorted
import Mathlib.Data.List.Forall2
import Mathlib.Data.List.Nodup

/-!
# Which documents are policy tables

A document is a table iff it is an object each of whose values lists something: an array lists its
items and an object its names. The values are looked at one by one, and the first that lists nothing
decides how the document is refused. The test in front of the listing asks whether the value holds
anything and is no string. True and a number other than zero pass it and have no items
(`Json.isAtom`), so such a value ends in a fault that the command line does not report, as does a
document that is no object or too deep (`Escapes`). Everything else that is wrong with a document is
reported.

Headlines:
* **`validatorsOf_eq_ok_iff`**, **`validatorsOf_eq_error_iff`**: what becomes of one value.
* **`ofBytes_eq_ok_iff`**: the rows of a table are those of its document.
* **`ofBytes_loaded_or_refused`**: a document is a table, or is refused, or escapes.
-/

namespace CoreAudit

/-! ## What a value lists -/

namespace Json

/-- A value lists validators: an array its items, an object its names, and at least one of them. -/
inductive Lists : Json → List Letters → Prop
  | array {items : List Json} (listed : items ≠ []) : Lists (.array items) (items.map display)
  | object {members : List (Letters × Json)} (listed : members ≠ []) :
      Lists (.object members) (members.map Prod.fst)

/-- True, or a number other than zero: a value that holds something but has no items. -/
def isAtom : Json → Bool
  | bool b => b
  | int n => !(n == 0)
  | float x => !(x == 0.0)
  | _ => false

theorem Lists.ne_nil {j : Json} {vs : List Letters} (h : j.Lists vs) : vs ≠ [] := by
  cases h with
  | array listed => exact mt List.map_eq_nil_iff.mp listed
  | object listed => exact mt List.map_eq_nil_iff.mp listed

theorem Lists.unique {j : Json} {vs ws : List Letters} (h : j.Lists vs) (h' : j.Lists ws) :
    vs = ws := by
  cases h <;> cases h' <;> rfl

end Json

namespace PolicyTable

open Json

variable {logic : Letters} {j : Json} {vs : List Letters} {t u : PolicyTable Letters} {f : Fault}
  {rows members : Keyed Letters Json}

/-- **The validators of a logic are what its value lists.** -/
theorem validatorsOf_eq_ok_iff : validatorsOf logic j = .ok vs ↔ j.Lists vs := by
  constructor
  · intro h
    unfold validatorsOf at h
    split at h
    · cases h
    · split at h
      · cases h
      · rename_i hheld
        unfold items at h
        split at h
        · cases h
          exact .array fun hnone => hheld (by subst hnone; rfl)
        · cases h
          exact .object fun hnone => hheld (by subst hnone; rfl)
        · cases h
  · rintro (⟨hlisted⟩ | ⟨hlisted⟩) <;> rw [← List.isEmpty_eq_false_iff] at hlisted
    · simp only [validatorsOf, isEmptyish, hlisted, items, Bool.false_eq_true, if_false]
    · simp only [validatorsOf, isEmptyish, hlisted, items, Bool.false_eq_true, if_false]

theorem validatorsOf_ne_error (h : j.Lists vs) : validatorsOf logic j ≠ .error f := fun hf =>
  nomatch (validatorsOf_eq_ok_iff.mpr h).symm.trans hf

theorem validatorsOf_of_isAtom (h : j.isAtom = true) :
    validatorsOf logic j = .error (.notIterable j.kind) := by
  cases j with
  | bool b => cases b with
    | false => cases h
    | true => rfl
  | int n =>
    rw [isAtom, Bool.not_eq_true'] at h
    exact if_neg (Bool.eq_false_iff.mp h)
  | float x =>
    rw [isAtom, Bool.not_eq_true'] at h
    exact if_neg (Bool.eq_false_iff.mp h)
  | null | string _ | array _ | object _ => cases h

theorem validatorsOf_of_unlisted (hatom : j.isAtom = false) (hnone : ∀ vs, ¬ j.Lists vs) :
    validatorsOf logic j = .error (.noValidators logic) := by
  cases j with
  | null | string _ => rfl
  | bool b => cases b with
    | false => rfl
    | true => cases hatom
  | int n =>
    rw [isAtom, Bool.not_eq_false'] at hatom
    exact if_pos hatom
  | float x =>
    rw [isAtom, Bool.not_eq_false'] at hatom
    exact if_pos hatom
  | array items => cases items with
    | nil => rfl
    | cons item items => exact absurd (.array (List.cons_ne_nil item items)) (hnone _)
  | object members => cases members with
    | nil => rfl
    | cons m ms => exact absurd (.object (List.cons_ne_nil m ms)) (hnone _)

/-- **A value that lists nothing is refused as one without validators, unless it is an atom.** -/
theorem validatorsOf_eq_error_iff : validatorsOf logic j = .error f ↔
    (j.isAtom = true ∧ f = .notIterable j.kind) ∨
      (j.isAtom = false ∧ (∀ vs, ¬ j.Lists vs) ∧ f = .noValidators logic) := by
  constructor
  · intro h
    cases hatom : j.isAtom with
    | true =>
      rw [validatorsOf_of_isAtom hatom] at h
      exact Or.inl ⟨rfl, (Except.error.inj h).symm⟩
    | false =>
      have hnone : ∀ vs, ¬ j.Lists vs := fun vs hvs => validatorsOf_ne_error hvs h
      rw [validatorsOf_of_unlisted hatom hnone] at h
      exact Or.inr ⟨rfl, hnone, (Except.error.inj h).symm⟩
  · rintro (⟨hatom, rfl⟩ | ⟨hatom, hnone, rfl⟩)
    · exact validatorsOf_of_isAtom hatom
    · exact validatorsOf_of_unlisted hatom hnone

/-! ## The rows of a document -/

/-- A row of a table is that of a member of its document: the same name, and what the value lists.
-/
structure IsRow (member : Letters × Json) (row : Letters × List Letters) : Prop where
  name : row.1 = member.1
  listed : member.2.Lists row.2

theorem put_of_not_mem {m : Keyed Letters (List Letters)} {name : Letters} (h : name ∉ m.keys) :
    m.put name vs = m ++ [(name, vs)] := by
  induction m with
  | nil => rfl
  | cons e m ih =>
    obtain ⟨k, v⟩ := e
    have hfirst : k ≠ name := fun heq => h (heq ▸ List.mem_cons_self)
    rw [Keyed.put, if_neg hfirst, ih fun hmem => h (List.mem_cons_of_mem _ hmem)]
    rfl

/-- **Rows are added behind the others, one for each member, if every value lists something.** -/
theorem addRows_eq_ok_iff (hnew : (t.rows.keys ++ members.keys).Nodup) :
    t.addRows members = .ok u ↔
      ∃ added, List.Forall₂ IsRow members added ∧ u.rows = t.rows ++ added := by
  induction members generalizing t with
  | nil =>
    obtain ⟨rows⟩ := t
    obtain ⟨others⟩ := u
    simp [addRows, List.forall₂_nil_left_iff, eq_comm]
  | cons m members ih =>
    obtain ⟨name, j⟩ := m
    have hname : name ∉ t.rows.keys := fun hmem =>
      (List.nodup_append.mp hnew).2.2 name hmem name List.mem_cons_self rfl
    rw [addRows]
    rcases hvs : validatorsOf name j with e | vs
    · constructor
      · exact fun h => nomatch h
      · rintro ⟨added, hrows, -⟩
        cases hrows with
        | cons hrow _ => exact absurd hvs (validatorsOf_ne_error hrow.listed)
    · dsimp only
      have hkeys : Keyed.keys (t.rows ++ [(name, vs)]) ++ Keyed.keys members =
          t.rows.keys ++ Keyed.keys ((name, j) :: members) := by
        simp only [Keyed.keys, List.map_append, List.map_cons, List.map_nil, List.append_assoc,
          List.cons_append, List.nil_append]
      rw [put_of_not_mem hname, ih (by rw [hkeys]; exact hnew)]
      constructor
      · rintro ⟨added, hrows, hu⟩
        exact ⟨(name, vs) :: added, .cons ⟨rfl, validatorsOf_eq_ok_iff.mp hvs⟩ hrows,
          by rw [hu, List.append_assoc]; rfl⟩
      · rintro ⟨added, hrows, hu⟩
        cases hrows with
        | @cons _ row _ added hrow hrows =>
          obtain ⟨k, ws⟩ := row
          obtain ⟨rfl, hlisted⟩ := hrow
          cases hlisted.unique (validatorsOf_eq_ok_iff.mp hvs)
          exact ⟨added, hrows, by rw [hu, List.append_assoc]; rfl⟩

/-- **The first value that lists nothing decides the fault.** -/
theorem addRows_eq_error_iff : t.addRows members = .error f ↔
    ∃ before name j after, members = before ++ (name, j) :: after ∧
      (∀ m ∈ before, ∃ vs, m.2.Lists vs) ∧ validatorsOf name j = .error f := by
  induction members generalizing t with
  | nil => simp [addRows]
  | cons m members ih =>
    obtain ⟨name, j⟩ := m
    rw [addRows]
    rcases hvs : validatorsOf name j with e | vs
    · constructor
      · rintro h
        cases h
        exact ⟨[], name, j, members, rfl, fun _ hm => absurd hm List.not_mem_nil, hvs⟩
      · rintro ⟨_ | ⟨m, before⟩, name', j', after, hmembers, hbefore, hf⟩
        · cases hmembers
          cases hvs.symm.trans hf
          rfl
        · cases hmembers
          obtain ⟨vs, hlists⟩ := hbefore _ List.mem_cons_self
          exact absurd hvs (validatorsOf_ne_error hlists)
    · dsimp only
      rw [ih]
      constructor
      · rintro ⟨before, name', j', after, rfl, hbefore, hf⟩
        exact ⟨(name, j) :: before, name', j', after, rfl,
          List.forall_mem_cons.mpr ⟨⟨vs, validatorsOf_eq_ok_iff.mp hvs⟩, hbefore⟩, hf⟩
      · rintro ⟨_ | ⟨m, before⟩, name', j', after, hmembers, hbefore, hf⟩
        · cases hmembers
          rw [hf] at hvs
          cases hvs
        · cases hmembers
          exact ⟨before, name', j', after, rfl, (List.forall_mem_cons.mp hbefore).2, hf⟩

/-! ## Documents -/

/-- The document in a file with the given bytes. -/
def readDocument (bytes : Bytes) : Except Fault Json :=
  match Text.Utf8.decodeStrict bytes with
  | .error breach => .error (.badEncoding breach)
  | .ok t =>
    match Json.read t.unifyLineEnds with
    | .error (.flawed flaw rest) => .error (.badJson flaw t.unifyLineEnds rest)
    | .error (.numeralTooLong n) => .error (.numeralTooLong n)
    | .error (.tooDeep container) => .error (.tooDeep container)
    | .ok j => .ok j

theorem ofBytes_eq (bytes : Bytes) : ofBytes bytes = (readDocument bytes).bind ofJson := by
  unfold ofBytes readDocument
  rcases Text.Utf8.decodeStrict bytes with breach | t
  · rfl
  · dsimp only
    rcases Json.read t.unifyLineEnds with (_ | _ | _) | j <;> rfl

theorem nodup_of_readDocument {bytes : Bytes} (h : readDocument bytes = .ok (.object members)) :
    members.keys.Nodup := by
  unfold readDocument at h
  split at h
  · cases h
  · split at h <;> cases h
    rename_i hread
    exact nodup_names_of_read hread

/-- The classes of faults that unusable values raise. -/
def valueClasses : List Text :=
  ["ValueError".toList, "UnicodeDecodeError".toList, "JSONDecodeError".toList]

/-- The fault is that of an unusable value, which the command line reports. -/
structure IsRefusal (f : Fault) : Prop where
  class_mem : f.className ∈ valueClasses
  reported : f.isReported = true

/-- The ways in which a document ends in a fault that is not reported: it is too deep, it is no
object, or the first of its values that lists nothing is an atom. -/
inductive Escapes (bytes : Bytes) : Fault → Prop
  | depth {container : Container} (deep : readDocument bytes = .error (.tooDeep container)) :
      Escapes bytes (.tooDeep container)
  | top {j : Json} (document : readDocument bytes = .ok j) (other : ∀ ms, j ≠ .object ms) :
      Escapes bytes (.notObject j.kind)
  | row {before after : List (Letters × Json)} {name : Letters} {j : Json}
      (document : readDocument bytes = .ok (.object (before ++ (name, j) :: after)))
      (listed : ∀ m ∈ before, ∃ vs, m.2.Lists vs) (atom : j.isAtom = true) :
      Escapes bytes (.notIterable j.kind)

/-- **What escapes is not reported.** -/
theorem Escapes.not_isReported {bytes : Bytes} (h : Escapes bytes f) :
    ofBytes bytes = .error f ∧ f.isReported = false := by
  rw [ofBytes_eq]
  cases h with
  | depth deep => rw [deep]; exact ⟨rfl, rfl⟩
  | @top j document other =>
    rw [document]
    refine ⟨?_, rfl⟩
    cases j with
    | object ms => exact absurd rfl (other ms)
    | null | bool _ | int _ | float _ | string _ | array _ => rfl
  | row document listed atom =>
    rw [document]
    exact ⟨addRows_eq_error_iff.mpr ⟨_, _, _, _, rfl, listed, validatorsOf_of_isAtom atom⟩, rfl⟩

/-- **A document that is no table is refused or escapes.** -/
theorem isRefusal_or_escapes {bytes : Bytes} (h : ofBytes bytes = .error f) :
    IsRefusal f ∨ Escapes bytes f := by
  rw [ofBytes_eq] at h
  rcases hdocument : readDocument bytes with g | j <;> rw [hdocument] at h
  · cases h
    have hcopy := hdocument
    unfold readDocument at hdocument
    split at hdocument
    · cases hdocument
      exact Or.inl ⟨(by decide : "UnicodeDecodeError".toList ∈ valueClasses), rfl⟩
    · split at hdocument <;> cases hdocument
      · exact Or.inl ⟨(by decide : "JSONDecodeError".toList ∈ valueClasses), rfl⟩
      · exact Or.inl ⟨(by decide : "ValueError".toList ∈ valueClasses), rfl⟩
      · exact Or.inr (.depth hcopy)
  · cases j with
    | object members =>
      obtain ⟨before, name, j, after, rfl, hbefore, hj⟩ := addRows_eq_error_iff.mp h
      rcases validatorsOf_eq_error_iff.mp hj with ⟨hatom, rfl⟩ | ⟨_, _, rfl⟩
      · exact Or.inr (.row hdocument hbefore hatom)
      · exact Or.inl ⟨(by decide : "ValueError".toList ∈ valueClasses), rfl⟩
    | null | bool _ | int _ | float _ | string _ | array _ =>
      cases h
      exact Or.inr (.top hdocument fun _ heq => nomatch heq)

/-- A table is loaded from the members of a document: it has their rows in their order. -/
def LoadedFrom (t : PolicyTable Letters) (members : Keyed Letters Json) : Prop :=
  List.Forall₂ IsRow members t.rows

/-- **A document is a table iff it is an object whose values all list something.** -/
theorem ofBytes_eq_ok_iff {bytes : Bytes} : ofBytes bytes = .ok t ↔
    ∃ members, readDocument bytes = .ok (.object members) ∧ t.LoadedFrom members := by
  rw [ofBytes_eq]
  constructor
  · intro h
    rcases hdocument : readDocument bytes with g | j <;> rw [hdocument] at h
    · cases h
    · cases j with
      | object members =>
        obtain ⟨added, hrows, ht⟩ :=
          (addRows_eq_ok_iff (t := empty) (nodup_of_readDocument hdocument)).mp h
        exact ⟨members, rfl, by rw [LoadedFrom, ht]; exact hrows⟩
      | null | bool _ | int _ | float _ | string _ | array _ => cases h
  · rintro ⟨members, hdocument, hrows⟩
    rw [hdocument]
    exact (addRows_eq_ok_iff (t := empty) (nodup_of_readDocument hdocument)).mpr
      ⟨t.rows, hrows, rfl⟩

theorem keys_eq_of_rows {rows : Keyed Letters (List Letters)} (h : List.Forall₂ IsRow members rows) :
    rows.keys = members.keys := by
  induction h with
  | nil => rfl
  | cons hrow _ ih => exact congrArg₂ List.cons hrow.name ih

/-- Every member has a row. -/
theorem exists_row_of_mem {rows : Keyed Letters (List Letters)}
    (h : List.Forall₂ IsRow members rows) {m : Letters × Json} (hm : m ∈ members) :
    ∃ vs, (m.1, vs) ∈ rows ∧ m.2.Lists vs := by
  induction h with
  | nil => cases hm
  | @cons _ row _ _ hrow _ ih =>
    rcases List.mem_cons.mp hm with rfl | hm
    · exact ⟨row.2, hrow.name ▸ List.mem_cons_self, hrow.listed⟩
    · obtain ⟨vs, hmem, hlists⟩ := ih hm
      exact ⟨vs, List.mem_cons_of_mem _ hmem, hlists⟩

/-- Every row is that of a member. -/
theorem exists_member_of_mem {rows : Keyed Letters (List Letters)}
    (h : List.Forall₂ IsRow members rows) {row : Letters × List Letters} (hrow : row ∈ rows) :
    ∃ j, (row.1, j) ∈ members ∧ j.Lists row.2 := by
  induction h with
  | nil => cases hrow
  | @cons m _ _ _ hfirst _ ih =>
    rcases List.mem_cons.mp hrow with rfl | hrow
    · exact ⟨m.2, hfirst.name ▸ List.mem_cons_self, hfirst.listed⟩
    · obtain ⟨j, hmem, hlists⟩ := ih hrow
      exact ⟨j, List.mem_cons_of_mem _ hmem, hlists⟩

theorem get?_eq_some_iff_mem {rows : Keyed Letters (List Letters)} (hnames : rows.keys.Nodup)
    {name : Letters} : rows.get? name = some vs ↔ (name, vs) ∈ rows := by
  refine ⟨Keyed.mem_of_get?, fun hmem => ?_⟩
  obtain ⟨ws, hget⟩ := Option.isSome_iff_exists.mp
    ((Keyed.mem_keys_iff rows name).mp (List.mem_map_of_mem hmem))
  have hpair := List.inj_on_of_nodup_map hnames (Keyed.mem_of_get? hget) hmem rfl
  rw [hget, (Prod.mk.inj hpair).2]

namespace LoadedFrom

theorem logics_eq (h : t.LoadedFrom members) : t.logics = members.map Prod.fst :=
  keys_eq_of_rows h

theorem get?_eq_some_iff (h : t.LoadedFrom members) (hnames : members.keys.Nodup) {name : Letters} :
    t.rows.get? name = some vs ↔ ∃ j, (name, j) ∈ members ∧ j.Lists vs := by
  have hkeys : t.rows.keys.Nodup := keys_eq_of_rows h ▸ hnames
  rw [get?_eq_some_iff_mem hkeys]
  constructor
  · exact fun hrow => exists_member_of_mem h hrow
  · rintro ⟨j, hmem, hlists⟩
    obtain ⟨ws, hrow, hws⟩ := exists_row_of_mem h hmem
    exact hlists.unique hws ▸ hrow

theorem lookUp_eq_ok_iff (h : t.LoadedFrom members) (hnames : members.keys.Nodup) :
    t.lookUp logic = .ok vs ↔ ∃ j, (logic, j) ∈ members ∧ j.Lists vs := by
  rw [PolicyTable.lookUp_eq_ok_iff, h.get?_eq_some_iff hnames]

theorem mem_validatorIds_iff (h : t.LoadedFrom members) {v : Letters} :
    v ∈ t.validatorIds ↔ ∃ m ∈ members, ∃ vs, m.2.Lists vs ∧ v ∈ vs := by
  rw [PolicyTable.mem_validatorIds_iff]
  constructor
  · rintro ⟨row, hrow, hv⟩
    obtain ⟨j, hmem, hlists⟩ := exists_member_of_mem h hrow
    exact ⟨_, hmem, _, hlists, hv⟩
  · rintro ⟨m, hm, vs, hlists, hv⟩
    obtain ⟨ws, hrow, hws⟩ := exists_row_of_mem h hm
    exact ⟨_, hrow, hlists.unique hws ▸ hv⟩

end LoadedFrom

/-- **A document is loaded or refused, or it escapes.** It is loaded iff it is an object whose
values all list something. Then every name of the document has what its value lists, the logics that
are no names are unknown, and the validators are those listed, in strictly increasing order. What is
not loaded ends in the fault of an unusable value, unless it escapes: that is where the program ends
in another fault, which is not reported. -/
theorem ofBytes_loaded_or_refused (bytes : Bytes) :
    ((∃ t, ofBytes bytes = .ok t) ↔ ∃ members : Keyed Letters Json,
        readDocument bytes = .ok (.object members) ∧ ∀ m ∈ members, ∃ vs, m.2.Lists vs) ∧
      (∀ t, ofBytes bytes = .ok t → ∃ members : Keyed Letters Json,
        readDocument bytes = .ok (.object members) ∧ t.logics = members.keys ∧
          (∀ m ∈ members, ∃ vs, m.2.Lists vs ∧ vs ≠ [] ∧ t.rows.get? m.1 = some vs) ∧
          (∀ logic vs, t.lookUp logic = .ok vs ↔ ∃ j, (logic, j) ∈ members ∧ j.Lists vs) ∧
          (∀ logic, t.lookUp logic = .error (.unknownLogic logic) ↔ logic ∉ members.keys) ∧
          t.validatorIds.Pairwise (· < ·) ∧
          ∀ v, v ∈ t.validatorIds ↔ ∃ m ∈ members, ∃ vs, m.2.Lists vs ∧ v ∈ vs) ∧
      (∀ f, ofBytes bytes = .error f → IsRefusal f ∨ Escapes bytes f) ∧
      ∀ f, Escapes bytes f → ofBytes bytes = .error f ∧ f.isReported = false := by
  refine ⟨⟨?_, ?_⟩, ?_, fun f => isRefusal_or_escapes, fun f => Escapes.not_isReported⟩
  · rintro ⟨t, ht⟩
    obtain ⟨members, hdocument, hloaded⟩ := ofBytes_eq_ok_iff.mp ht
    refine ⟨members, hdocument, fun m hm => ?_⟩
    obtain ⟨vs, -, hlists⟩ := exists_row_of_mem hloaded hm
    exact ⟨vs, hlists⟩
  · rintro ⟨members, hdocument, hlists⟩
    cases hloaded : ofBytes bytes with
    | ok t => exact ⟨t, rfl⟩
    | error f =>
      -- a fault would be that of a value that lists nothing
      rw [ofBytes_eq, hdocument] at hloaded
      obtain ⟨before, name, j, after, rfl, -, hj⟩ := addRows_eq_error_iff.mp hloaded
      obtain ⟨vs, hvs⟩ := hlists (name, j) (List.mem_append_right _ List.mem_cons_self)
      exact absurd hj (validatorsOf_ne_error hvs)
  · intro t ht
    obtain ⟨members, hdocument, hloaded⟩ := ofBytes_eq_ok_iff.mp ht
    have hnames := nodup_of_readDocument hdocument
    refine ⟨members, hdocument, hloaded.logics_eq, fun m hm => ?_,
      fun logic vs => hloaded.lookUp_eq_ok_iff hnames, fun logic => ?_,
      pairwise_validatorIds t, fun v => hloaded.mem_validatorIds_iff⟩
    · obtain ⟨vs, -, hlists⟩ := exists_row_of_mem hloaded hm
      exact ⟨vs, hlists, hlists.ne_nil, (hloaded.get?_eq_some_iff hnames).mpr ⟨m.2, hm, hlists⟩⟩
    · rw [lookUp_eq_error_iff, hloaded.logics_eq]
      rfl

/-- A document that gives a logic a number. -/
def numberDocument : Bytes := Text.Utf8.encode "\x7b\"QF_LIA\": 5\x7d".toList

/-- A logic whose value is a number is not refused as one without a list of validators: its
document ends in a fault of another class, which is not reported. -/
theorem ofBytes_numberDocument :
    ofBytes numberDocument = .error (.notIterable "int".toList) ∧
      (Fault.notIterable "int".toList).className ∉ valueClasses ∧
      (Fault.notIterable "int".toList).isReported = false := by
  refine ⟨by decide +kernel, by decide, rfl⟩

end PolicyTable

end CoreAudit
