import CoreAudit.Json.Reader

/-!
# The names of an object that was read

A name that an object gives twice keeps its first place and takes its last value, so an object that
was read has no name twice. Only the members are read into a keyed list; every other value is no
object, or an object without members.

Headlines:
* **`namedOnce_of_readMembers`**: reading one more member gives no name a second time.
* **`nodup_names_of_read`**: an object that was read has no name twice.
-/

namespace CoreAudit.Json

theorem exists_of_bind_eq_ok {α β : Type} {first : Except Failure α} {next : α → Except Failure β}
    {y : β} (h : (first >>= next) = .ok y) : ∃ x, first = .ok x ∧ next x = .ok y := by
  cases first with
  | error e => cases h
  | ok x => exact ⟨x, rfl, h⟩

/-- A value that is an object has no name twice. -/
def NamedOnce (j : Json) : Prop :=
  ∀ members : Keyed Letters Json, j = .object members → members.keys.Nodup

theorem namedOnce_of_readNumber {t rest : Text} {j : Json} (h : readNumber t = .ok (j, rest)) :
    j.NamedOnce := by
  intro members hj
  subst hj
  revert h
  unfold readNumber flawAt
  dsimp only
  generalize cutWhole _ = whole
  generalize cutPlaces _ = places
  generalize cutExponent _ = exponent
  split
  · exact fun h => nomatch h
  · split
    · split <;> exact fun h => nomatch h
    · exact fun h => nomatch h

theorem namedOnce_of_readScalar {t rest : Text} {j : Json} (h : readScalar t = .ok (j, rest)) :
    j.NamedOnce := by
  unfold readScalar at h
  split at h
  · rename_i name _ hfound
    cases h
    rintro members rfl
    have hnames : ∀ n ∈ names, ∀ ms, n.2 ≠ .object ms := by simp [names]
    exact absurd rfl (hnames _ (List.mem_of_find?_eq_some hfound) members)
  · exact namedOnce_of_readNumber h

/-- The members that were read have no name twice, if those before them have none. -/
theorem namedOnce_of_readMembers {fuel levels : Nat} {before : Keyed Letters Json} {t rest : Text}
    {j : Json} (hbefore : before.keys.Nodup)
    (h : readMembers fuel levels before t = .ok (j, rest)) : j.NamedOnce := by
  induction fuel generalizing before t with
  | zero =>
    unfold readMembers flawAt at h
    cases h
  | succ fuel ih =>
    unfold readMembers flawAt at h
    split at h
    · obtain ⟨⟨name, r⟩, -, h⟩ := exists_of_bind_eq_ok h
      dsimp only at h
      split at h
      · obtain ⟨⟨value, r⟩, -, h⟩ := exists_of_bind_eq_ok h
        dsimp only at h
        split at h
        · cases h
          rintro members hmembers
          cases hmembers
          exact Keyed.nodup_keys_put hbefore name value
        · exact ih (Keyed.nodup_keys_put hbefore name value) h
        · cases h
      · cases h
    · cases h

theorem namedOnce_of_readItems {fuel levels : Nat} {before : List Json} {t rest : Text}
    {j : Json} (h : readItems fuel levels before t = .ok (j, rest)) : j.NamedOnce := by
  induction fuel generalizing before t with
  | zero =>
    unfold readItems flawAt at h
    cases h
  | succ fuel ih =>
    unfold readItems flawAt at h
    obtain ⟨⟨item, r⟩, -, h⟩ := exists_of_bind_eq_ok h
    dsimp only at h
    split at h
    · cases h
      rintro members ⟨⟩
    · exact ih h
    · cases h

theorem namedOnce_of_readValue {fuel levels : Nat} {t rest : Text} {j : Json}
    (h : readValue fuel levels t = .ok (j, rest)) : j.NamedOnce := by
  cases fuel with
  | zero =>
    unfold readValue flawAt at h
    cases h
  | succ fuel =>
    unfold readValue at h
    split at h
    · rename_i r
      rcases hstring : readString _ r with e | ⟨s, rest⟩ <;> rw [hstring] at h <;> cases h
      rintro members ⟨⟩
    · split at h
      · cases h
      · split at h
        · cases h
          intro members hmembers
          cases hmembers
          exact List.nodup_nil
        · have hnone : (Keyed.keys ([] : Keyed Letters Json)).Nodup := List.nodup_nil
          exact namedOnce_of_readMembers hnone h
    · split at h
      · cases h
      · split at h
        · cases h
          rintro members ⟨⟩
        · exact namedOnce_of_readItems h
    · exact namedOnce_of_readScalar h

/-- **An object that was read has no name twice.** -/
theorem nodup_names_of_read {t : Text} {members : Keyed Letters Json}
    (h : read t = .ok (.object members)) : members.keys.Nodup := by
  unfold read flawAt at h
  split at h
  · cases h
  · obtain ⟨⟨value, r⟩, hvalue, h⟩ := exists_of_bind_eq_ok h
    dsimp only at h
    split at h
    · cases h
      exact namedOnce_of_readValue hvalue members rfl
    · cases h

end CoreAudit.Json
