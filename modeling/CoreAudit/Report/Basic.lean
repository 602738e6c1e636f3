import CoreAudit.Fault
import CoreAudit.Report.Value

/-!
# Reports

A report is a list of facts, each a key with a value, to which facts are only ever added. A key
may be stated more than once; looking it up gives the value stated last.

Models `Report`.

* **`get?_add`**: a key has the value stated last, and no other key changes.
* `mem_keys_iff`: a key is listed exactly where it has a value.
* `nodup_keys`: no key is listed twice.
-/

namespace CoreAudit

/-- A report: its facts in the order in which they were stated. -/
structure Report where
  entries : List (Text × Text)
  deriving Repr, DecidableEq

namespace Report

/-- The report that states nothing. -/
def empty : Report := ⟨[]⟩

/-- States a fact. -/
def add (r : Report) (key : Text) (value : Value) : Report := ⟨r.entries ++ [(key, value.format)]⟩

/-- States facts in order. -/
def addAll (r : Report) (facts : List (Text × Value)) : Report :=
  facts.foldl (fun r f => r.add f.1 f.2) r

/-- The value stated last for a key. -/
def get? (r : Report) (key : Text) : Option Text := r.entries.reverse.lookup key

/-- The value stated last for a key, or the fault that there is none. -/
def get (r : Report) (key : Text) : Except Fault Text :=
  match r.get? key with
  | some v => .ok v
  | none => .error (.missingKey key)

/-- The key is stated. -/
def contains (r : Report) (key : Text) : Bool := r.entries.any fun e => e.1 == key

/-- The keys added to a list in order, each once. -/
def addKey (seen : List Text) (key : Text) : List Text :=
  if key ∈ seen then seen else seen ++ [key]

/-- The keys in the order in which they were first stated. -/
def keys (r : Report) : List Text := (r.entries.map Prod.fst).foldl addKey []

/-- The number of facts. -/
def size (r : Report) : Nat := r.entries.length

/-- One line for each fact. -/
def lines (r : Report) : List Text := r.entries.map fun e => e.1 ++ '=' :: e.2

/-- The lines as a text. -/
def text (r : Report) : Text := Text.unlines r.lines

/-- The report in one line. -/
def describe (r : Report) : Text :=
  let pair (e : Text × Text) : Text := '(' :: e.1.quoted ++ ',' :: ' ' :: e.2.quoted ++ [')']
  "Report([".toList ++ Text.joined [',', ' '] (r.entries.map pair) ++ "])".toList

/-- A key has the value stated last, and no other key changes. -/
theorem get?_add (r : Report) (key name : Text) (value : Value) :
    (r.add key value).get? name = if name = key then some value.format else r.get? name := by
  unfold get? add
  by_cases h : name = key
  · simp [h]
  · simp [List.lookup_cons, beq_eq_false_iff_ne.mpr h, h]

theorem mem_foldl_addKey (ks seen : List Text) (key : Text) :
    key ∈ ks.foldl addKey seen ↔ key ∈ seen ∨ key ∈ ks := by
  induction ks generalizing seen with
  | nil => simp
  | cons k ks ih =>
    rw [List.foldl_cons, ih]
    unfold addKey
    split
    · rename_i hk
      constructor
      · rintro (h | h) <;> simp [h]
      · rintro (h | h)
        · exact Or.inl h
        · rcases List.mem_cons.mp h with rfl | h
          · exact Or.inl hk
          · exact Or.inr h
    · simp [or_assoc]

/-- A key is listed exactly where it is stated. -/
theorem mem_keys_iff (r : Report) (key : Text) : key ∈ r.keys ↔ r.contains key = true := by
  simp [keys, mem_foldl_addKey, contains]

theorem nodup_foldl_addKey (ks : List Text) {seen : List Text} (h : seen.Nodup) :
    (ks.foldl addKey seen).Nodup := by
  induction ks generalizing seen with
  | nil => exact h
  | cons k ks ih =>
    refine ih ?_
    unfold addKey
    split
    · exact h
    · rename_i hk
      rw [List.nodup_append]
      exact ⟨h, by simp, fun a ha b hb => by
        rw [List.mem_singleton] at hb; subst hb; exact fun e => hk (e ▸ ha)⟩

/-- No key is listed twice. -/
theorem nodup_keys (r : Report) : r.keys.Nodup := nodup_foldl_addKey _ List.nodup_nil

end Report

end CoreAudit
