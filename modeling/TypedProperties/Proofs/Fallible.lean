import Mathlib.Data.List.Forall2

/-! Steps that can fail: one behind another, and one at each member of a list. -/
namespace TypedProperties

variable {α β γ ε : Type} {x : Except ε β} {c : γ} {fault : ε}

theorem map_eq_ok {f : β → γ} : x.map f = .ok c ↔ ∃ b, x = .ok b ∧ f b = c := by
  cases x <;> simp [Except.map]

theorem map_eq_error {f : β → γ} : x.map f = .error fault ↔ x = .error fault := by
  cases x <;> simp [Except.map]

theorem bind_eq_ok {f : β → Except ε γ} : x >>= f = .ok c ↔ ∃ b, x = .ok b ∧ f b = .ok c := by
  cases x <;> simp [bind, Except.bind]

variable {step : α → Except ε β} {members : List α} {results : List β}

theorem mapM_eq_ok : members.mapM step = .ok results ↔ List.Forall₂ (fun a b => step a = .ok b) members results := by
  constructor
  · intro done
    induction members generalizing results with
    | nil =>
      obtain rfl := Except.ok.inj done
      exact .nil
    | cons a members ih =>
      rw [List.mapM_cons] at done
      obtain ⟨b, first, done⟩ := bind_eq_ok.mp done
      obtain ⟨rest, behind, done⟩ := bind_eq_ok.mp done
      obtain rfl := Except.ok.inj done
      exact .cons first (ih behind)
  · intro each
    induction each with
    | nil => rfl
    | cons first _ behind =>
      rw [List.mapM_cons, first, behind]
      rfl

theorem mapM_eq_error : members.mapM step = .error fault ↔
    ∃ before a after, members = before ++ a :: after ∧ (∀ b ∈ before, ∃ r, step b = .ok r) ∧
      step a = .error fault := by
  constructor
  · intro stopped
    induction members with
    | nil => cases stopped
    | cons a members ih =>
      rw [List.mapM_cons] at stopped
      cases first : step a with
      | error refused =>
        rw [first] at stopped
        obtain rfl := Except.error.inj stopped
        exact ⟨[], a, members, rfl, List.forall_mem_nil _, first⟩
      | ok r =>
        cases rest : members.mapM step with
        | error refused =>
          rw [first, rest] at stopped
          obtain rfl := Except.error.inj stopped
          obtain ⟨before, a', after, rfl, passed, here⟩ := ih rest
          exact ⟨a :: before, a', after, rfl, List.forall_mem_cons.mpr ⟨⟨r, first⟩, passed⟩, here⟩
        | ok results =>
          rw [first, rest] at stopped
          cases stopped
  · rintro ⟨before, a, after, rfl, passed, stopped⟩
    induction before with
    | nil =>
      rw [List.nil_append, List.mapM_cons, stopped]
      rfl
    | cons b before ih =>
      obtain ⟨⟨r, first⟩, passed⟩ := List.forall_mem_cons.mp passed
      rw [List.cons_append, List.mapM_cons, first, ih passed]
      rfl

theorem exists_mapM_eq_ok : (∃ results, members.mapM step = .ok results) ↔ ∀ a ∈ members, ∃ r, step a = .ok r := by
  constructor
  · rintro ⟨results, done⟩
    have each : List.Forall₂ (fun a b => (∃ r, step a = .ok r) ∧ step a = .ok b) members results :=
      (mapM_eq_ok.mp done).imp fun _ b here => ⟨⟨b, here⟩, here⟩
    exact ((List.forall₂_and_left _ _).mp each).1
  · intro every
    cases stopped : members.mapM step with
    | ok results => exact ⟨results, rfl⟩
    | error fault =>
      obtain ⟨before, a, after, rfl, -, failed⟩ := mapM_eq_error.mp stopped
      obtain ⟨r, here⟩ := every a (by simp)
      cases failed.symm.trans here

end TypedProperties
