import CoreAudit.Report.Basic
import Mathlib.Data.List.Basic
import Mathlib.Data.List.Induction
import Mathlib.Tactic.TFAE

/-!
# A report and its history

A report is read in four ways that do not know of each other: `contains` goes through the entries
from the first, `get?` from the last, `keys` collects them one by one, and `lines` prints them all.
They tell of one history, the facts that were stated in their order. For each way there is a lemma
on what stating one more fact changes, and what a whole history comes to follows by induction.

Headlines:
* **`added`**: one more fact changes what is told of its key, and of no other.
* **`get?_addAll_of_not_mem`**: facts with other keys leave the value of a key as it is.
* **`pairwise_keys`**: keys are listed in the order in which they were first stated.
* **`tells_history`**: all four ways agree with the history.
-/

namespace CoreAudit

namespace Report

variable {r : Report} {facts : List (Text × Value)} {key : Text}

/-! ## One more fact -/

theorem contains_add (r : Report) (key name : Text) (value : Value) :
    (r.add key value).contains name = (r.contains name || key == name) := by
  rw [contains, add, List.any_append, contains]
  simp

theorem keys_add (r : Report) (key : Text) (value : Value) :
    (r.add key value).keys = addKey r.keys key := by
  rw [keys, add, List.map_append, List.foldl_append]
  rfl

theorem isSome_get?_iff (r : Report) (key : Text) :
    (r.get? key).isSome = true ↔ r.contains key = true := by
  rw [get?, List.lookup_isSome_iff, contains, List.any_eq_true]
  simp

/-- What is told of a key: its value or the fault that there is none, whether it is stated, and
whether it is listed. -/
structure SameOf (r r' : Report) (key : Text) : Prop where
  get? : r'.get? key = r.get? key
  get : r'.get key = r.get key
  contains : r'.contains key = r.contains key
  listed : key ∈ r'.keys ↔ key ∈ r.keys

/-- What one more fact changes. -/
structure Added (r : Report) (key : Text) (value : Value) (r' : Report) : Prop where
  /-- It stands behind all entries that were there. -/
  entries : r'.entries = r.entries ++ [(key, value.format)]
  size : r'.size = r.size + 1
  lines : r'.lines = r.lines ++ [key ++ '=' :: value.format]
  /-- Its key is last among the keys, unless it had a place before. -/
  keys : r'.keys = if key ∈ r.keys then r.keys else r.keys ++ [key]
  value : r'.get? key = some value.format
  others : ∀ other, other ≠ key → SameOf r r' other

/-- **One more fact changes what is told of its key, and of no other.** -/
theorem added (r : Report) (key : Text) (value : Value) : Added r key value (r.add key value) where
  entries := rfl
  size := List.length_append
  lines := List.map_append
  keys := r.keys_add key value
  value := by rw [get?_add, if_pos rfl]
  others := by
    intro other hother
    have hvalue : (r.add key value).get? other = r.get? other := by
      rw [get?_add, if_neg hother]
    have hcontains : (r.add key value).contains other = r.contains other := by
      rw [contains_add, beq_eq_false_iff_ne.mpr hother.symm, Bool.or_false]
    refine ⟨hvalue, ?_, hcontains, ?_⟩
    · rw [get, get, hvalue]
    · rw [mem_keys_iff, mem_keys_iff, hcontains]

/-! ## A whole history -/

theorem entries_addAll (r : Report) (facts : List (Text × Value)) :
    (r.addAll facts).entries = r.entries ++ facts.map fun f => (f.1, f.2.format) := by
  induction facts generalizing r with
  | nil => exact (List.append_nil _).symm
  | cons f facts ih =>
    show ((r.add f.1 f.2).addAll facts).entries = _
    rw [ih, add, List.append_assoc]
    rfl

theorem addAll_append (r : Report) (before after : List (Text × Value)) :
    r.addAll (before ++ after) = (r.addAll before).addAll after := List.foldl_append

theorem map_entries_addAll (facts : List (Text × Value)) :
    (empty.addAll facts).entries.map Prod.fst = facts.map Prod.fst := by
  rw [entries_addAll, empty, List.nil_append, List.map_map]
  rfl

theorem contains_addAll_iff (facts : List (Text × Value)) (key : Text) :
    (empty.addAll facts).contains key = true ↔ key ∈ facts.map Prod.fst := by
  rw [← map_entries_addAll, contains, List.any_eq_true, List.mem_map]
  simp only [beq_iff_eq]

/-- Facts with other keys leave the value of a key as it is. -/
theorem get?_addAll_of_not_mem (r : Report) (h : key ∉ facts.map Prod.fst) :
    (r.addAll facts).get? key = r.get? key := by
  induction facts generalizing r with
  | nil => rfl
  | cons f facts ih =>
    rw [List.map_cons, List.mem_cons, not_or] at h
    calc ((r.add f.1 f.2).addAll facts).get? key
        = (r.add f.1 f.2).get? key := ih (r.add f.1 f.2) h.2
      _ = r.get? key := ((r.added f.1 f.2).others key h.1).get?

/-- **A key has the value that was stated last for it.** -/
theorem get?_addAll_of_last (r : Report) {before after : List (Text × Value)} {value : Value}
    (h : key ∉ after.map Prod.fst) :
    (r.addAll (before ++ (key, value) :: after)).get? key = some value.format := by
  rw [addAll_append]
  show (((r.addAll before).add key value).addAll after).get? key = some value.format
  rw [get?_addAll_of_not_mem _ h]
  exact ((r.addAll before).added key value).value

/-- The reduction of the core is stated first, and the final one is looked up. -/
example : (empty.addAll [("reduction".toList, .int 3), ("reduction".toList, .int 0)]).get?
    "reduction".toList = some ['0'] := by decide

/-- **Keys are listed in the order in which they were first stated.** The induction goes by the last
fact: its key is listed last if it is new, and the places of all others stay as they are. -/
theorem pairwise_keys (facts : List (Text × Value)) :
    (empty.addAll facts).keys.Pairwise fun a b =>
      (facts.map Prod.fst).idxOf a < (facts.map Prod.fst).idxOf b := by
  induction facts using List.reverseRecOn with
  | nil => exact List.Pairwise.nil
  | append_singleton facts f ih =>
    have hstated : ∀ a ∈ (empty.addAll facts).keys, a ∈ facts.map Prod.fst := fun a ha =>
      (contains_addAll_iff facts a).mp ((mem_keys_iff _ a).mp ha)
    have hplace : ∀ a ∈ (empty.addAll facts).keys,
        ((facts ++ [f]).map Prod.fst).idxOf a = (facts.map Prod.fst).idxOf a := by
      intro a ha
      rw [List.map_append, List.idxOf_append_of_mem (hstated a ha)]
    have hbefore : (empty.addAll facts).keys.Pairwise fun a b =>
        ((facts ++ [f]).map Prod.fst).idxOf a < ((facts ++ [f]).map Prod.fst).idxOf b := by
      refine ih.imp_of_mem fun {a b} ha hb hab => ?_
      rw [hplace a ha, hplace b hb]
      exact hab
    rw [addAll_append]
    show ((empty.addAll facts).add f.1 f.2).keys.Pairwise _
    rw [((empty.addAll facts).added f.1 f.2).keys]
    split
    · exact hbefore
    · rename_i hnew
      have hunstated : f.1 ∉ facts.map Prod.fst := fun h =>
        hnew ((mem_keys_iff _ _).mpr ((contains_addAll_iff facts _).mpr h))
      refine List.pairwise_append.mpr ⟨hbefore, List.pairwise_singleton _ _, fun a ha b hb => ?_⟩
      rw [List.mem_singleton.mp hb, hplace a ha, List.map_append,
        List.idxOf_append_of_notMem hunstated]
      exact Nat.lt_add_right _ (List.idxOf_lt_length_of_mem (hstated a ha))

/-- What a report tells is what its history is. -/
structure Tells (facts : List (Text × Value)) (r : Report) : Prop where
  entries : r.entries = facts.map fun f => (f.1, f.2.format)
  /-- Whether a key was stated is told in five ways. -/
  agree : ∀ key, [key ∈ facts.map Prod.fst, r.contains key = true, key ∈ r.keys,
    r.get? key ≠ none, r.get key ≠ .error (.missingKey key)].TFAE
  /-- The value of a key is the one that was stated last. -/
  last : ∀ (before after : List (Text × Value)) (key : Text) (value : Value),
    facts = before ++ (key, value) :: after → key ∉ after.map Prod.fst →
      r.get? key = some value.format ∧ r.get key = .ok value.format
  nodup : r.keys.Nodup
  /-- Keys are listed in the order in which they were first stated. -/
  ordered : r.keys.Pairwise fun a b =>
    (facts.map Prod.fst).idxOf a < (facts.map Prod.fst).idxOf b

/-- **Everything that is told of a report is told of its history**, whatever was stated and however
often: the lookups agree on the keys that were stated and on the value that was stated last, the
keys are listed once each in the order in which they were first stated, and one more fact leaves all
entries as they are and changes what is told of its own key only. -/
theorem tells_history (facts : List (Text × Value)) :
    Tells facts (empty.addAll facts) ∧
      ∀ key value, Added (empty.addAll facts) key value (empty.addAll (facts ++ [(key, value)])) := by
  refine ⟨⟨?_, fun key => ?_, ?_, nodup_keys _, pairwise_keys facts⟩, fun key value => ?_⟩
  · rw [entries_addAll, empty, List.nil_append]
  · tfae_have 1 ↔ 2 := (contains_addAll_iff facts key).symm
    tfae_have 3 ↔ 2 := mem_keys_iff _ key
    tfae_have 4 ↔ 2 := by rw [← isSome_get?_iff, Option.isSome_iff_ne_none]
    tfae_have 5 ↔ 4 := by
      rw [get]
      cases (empty.addAll facts).get? key <;> simp
    tfae_finish
  · rintro before after key value rfl hlast
    have hvalue : (empty.addAll (before ++ (key, value) :: after)).get? key = some value.format :=
      empty.get?_addAll_of_last hlast
    refine ⟨hvalue, ?_⟩
    rw [get, hvalue]
  · rw [addAll_append]
    exact (empty.addAll facts).added key value

end Report

end CoreAudit
