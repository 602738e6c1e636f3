import CoreAudit.Text.Basic

/-!
# Keyed lists

Values under names, in the order in which the names were first given. Giving a name again keeps
its place and replaces its value.

Headlines:
* **`get?_put`**: a name has the value it was given last.
* **`keys_put`**: names stay in the order in which they were first given.
* **`nodup_keys_put`**: no name is listed twice.
-/

namespace CoreAudit

/-- Values under names, in the order in which the names were first given. -/
abbrev Keyed (κ α : Type) := List (κ × α)

namespace Keyed

variable {κ α : Type} [DecidableEq κ]

/-- The value under a name. -/
def get? (m : Keyed κ α) (key : κ) : Option α := m.lookup key

/-- The names, in order. -/
def keys (m : Keyed κ α) : List κ := m.map Prod.fst

/-- Gives a name a value. -/
def put (m : Keyed κ α) (key : κ) (value : α) : Keyed κ α :=
  match m with
  | [] => [(key, value)]
  | (k, v) :: m => if k = key then (k, value) :: m else (k, v) :: put m key value

theorem get?_cons (m : Keyed κ α) (key name : κ) (value : α) :
    get? ((key, value) :: m) name = if name = key then some value else get? m name := by
  by_cases h : name = key
  · simp [get?, h]
  · simp [get?, List.lookup_cons, beq_eq_false_iff_ne.mpr h, h]

/-- A name has the value it was given last. -/
theorem get?_put (m : Keyed κ α) (key name : κ) (value : α) :
    get? (put m key value) name = if name = key then some value else get? m name := by
  induction m with
  | nil => exact get?_cons [] key name value
  | cons e m ih =>
    obtain ⟨k, v⟩ := e
    rw [put, get?_cons m]
    by_cases hk : k = key
    · rw [if_pos hk, hk, get?_cons]
      split <;> rfl
    · rw [if_neg hk, get?_cons, ih]
      by_cases h : name = k
      · rw [if_pos h, if_neg (fun hname => hk (h.symm.trans hname)), if_pos h]
      · rw [if_neg h, if_neg h]

/-- Names stay in the order in which they were first given. -/
theorem keys_put (m : Keyed κ α) (key : κ) (value : α) :
    keys (put m key value) = if key ∈ keys m then keys m else keys m ++ [key] := by
  induction m with
  | nil => simp [put, keys]
  | cons e m ih =>
    obtain ⟨k, v⟩ := e
    unfold keys at ih ⊢
    by_cases hk : k = key
    · simp [put, hk]
    · simp only [put, if_neg hk, List.map_cons, ih, List.mem_cons, Ne.symm hk, false_or]
      split <;> simp

/-- No name is listed twice. -/
theorem nodup_keys_put {m : Keyed κ α} (h : m.keys.Nodup) (key : κ) (value : α) :
    (put m key value).keys.Nodup := by
  rw [keys_put]
  split
  · exact h
  · rename_i hk
    rw [List.nodup_append]
    exact ⟨h, by simp, fun a ha b hb => by
      rw [List.mem_singleton] at hb; subst hb; exact fun e => hk (e ▸ ha)⟩

/-- A name is listed exactly where it has a value. -/
theorem mem_keys_iff (m : Keyed κ α) (key : κ) : key ∈ m.keys ↔ (m.get? key).isSome := by
  induction m with
  | nil => simp [keys, get?]
  | cons e m ih =>
    obtain ⟨k, v⟩ := e
    unfold keys get? at ih ⊢
    by_cases h : key = k
    · subst h; simp
    · simp [List.lookup_cons, beq_eq_false_iff_ne.mpr h, h, ← ih]

/-- A name's value is listed under it. -/
theorem mem_of_get? {m : Keyed κ α} {key : κ} {value : α}
    (h : m.get? key = some value) : (key, value) ∈ m := by
  unfold get? at h
  induction m with
  | nil => cases h
  | cons e m ih =>
    obtain ⟨k, v⟩ := e
    rw [List.lookup_cons] at h
    split at h
    · rename_i hkey
      rw [beq_iff_eq.mp hkey, Option.some.inj h]
      exact List.mem_cons_self
    · exact List.mem_cons_of_mem _ (ih h)

end Keyed

end CoreAudit
