import Mathlib.Tactic.GCongr.Core
import TypedProperties.Proofs.Reading.Steps

/-! A locked entry of the store that is being filled: no line of a read changes it, and a line that
tries to makes the read fail. -/
namespace TypedProperties

variable {ρ σ : Type} [Variants ρ] [Searches σ]
namespace Reader

variable {nested : Reader ρ σ → Text → Outcome} {world : World} {r : Reader ρ σ} {p : Progress σ}
  {key : Text} {d : Datum}

theorem get?_of_steps_of_locked {p' : Progress σ} {broken : Bool} {lines : List Line}
    (held : p.store.get? key = some d) (locked : d.locked = true)
    (done : r.steps nested world broken p lines = .ok p') : p'.store.get? key = some d :=
  steps_invariant (P := fun p => p.store.get? key = some d)
    (fun _ held stepped => (change_of_step stepped).get?_of_locked held locked) held done

/-- A line that would write to `key`: a declaration of it, in whatever mode, that is exhibited, or an
include of a file that reads well and has an entry for it. -/
inductive Touches (nested : Reader ρ σ → Text → Outcome) (world : World) (r : Reader ρ σ) (p : Progress σ)
    (key : Text) (line : Line) : Prop
  | declared {text : Text} {decl : Declaration} (role : Role.ofText line.text = .declaration text)
      (head : Declaration.ofLine r.units p.context.realWithUnit text = .ok decl)
      (same : decl.key = key) (exhibited : p.context.blocks.exhibits r.variants = .ok true)
  | included {text found : Text} {p₁ : Progress σ} {store : Store} {topic : Option Text}
      (role : Role.ofText line.text = .directive text)
      (applied : Directive.applyText world (p.atLine line) text = (p₁, .ok (.includeFile found)))
      (read : (nested (r.forIncluded p₁.context) found).result = .ok (store, topic))
      (clash : store.contains key = true)

theorem not_touches_of_step {p' : Progress σ} {line : Line} {stop : Bool}
    (held : p.store.get? key = some d) (locked : d.locked = true)
    (stepped : r.step nested world p line = .ok (p', stop)) :
    ¬ r.Touches nested world p key line := by
  intro touched
  rcases step_cases stepped with
    ⟨role, -⟩ | ⟨text, role, applied | ⟨p₁, found, applied, taken, -⟩⟩ | ⟨text, role, declared, -⟩
  · cases touched with
    | declared role' => simp [role] at role'
    | included role' => simp [role] at role'
  · cases touched with
    | declared role' => simp [role] at role'
    | included role' applied' =>
      obtain rfl := Role.directive.inj (role.symm.trans role')
      rw [applied] at applied'
      cases stop <;> simp at applied'
  · cases touched with
    | declared role' => simp [role] at role'
    | included role' applied' read clash =>
      obtain rfl := Role.directive.inj (role.symm.trans role')
      obtain ⟨rfl, rfl⟩ : p₁ = _ ∧ found = _ := by simpa [applied] using applied'
      obtain ⟨store, topic, read', merged, -⟩ := includeFile_cases taken
      obtain ⟨rfl, -⟩ := Prod.mk.inj (Except.ok.inj (read.symm.trans read'))
      obtain ⟨name, optional, -, -, -, rfl⟩ := Directive.applyText_eq_includeFile applied
      obtain ⟨s, collision, failed⟩ := Store.merge_of_locked held locked clash
        (p.atLine line).context.start.includesOverride
      simp [failed] at merged
  · cases touched with
    | included role' => simp [role] at role'
    | declared role' head same exhibited =>
      obtain rfl := Role.declaration.inj (role.symm.trans role')
      obtain ⟨decl, head', ⟨passed, -⟩ | ⟨-, shown⟩⟩ := declare_cases declared
      · have h := exhibited.symm.trans passed
        simp at h
      · obtain rfl := Except.ok.inj (head.symm.trans head')
        obtain ⟨segment, readout, store, replaced, -, -, put, -⟩ := exhibit_cases shown
        subst same
        simp [Store.put_of_locked held locked] at put

/-- Wherever a read has got to, an entry that is locked there stays as it is: through all lines that
do not fail, up to the store that a successful read ends with. A line that would write to its key
makes the read fail. Included files are read by `nested`, whatever that does. -/
theorem locked_datum_survives (nested : Reader ρ σ → Text → Outcome) (world : World) (r : Reader ρ σ)
    (file : Option Text) (destination : Store) (bytes : Bytes) {before after : List Line}
    {p : Progress σ} {key : Text} {d : Datum}
    (lines : (Lines.ofBytes bytes).complete = before ++ after)
    (reached : r.Passes nested world (r.begin file destination) before p)
    (held : p.store.get? key = some d) (locked : d.locked = true) :
    (∀ later broken p', r.steps nested world broken p later = .ok p' →
      p'.store.get? key = some d) ∧
    (∀ store topic, (r.run nested world file destination bytes).result = .ok (store, topic) →
      store.get? key = some d) ∧
    ∀ line rest, after = line :: rest → r.Touches nested world p key line →
      ∃ error, (r.run nested world file destination bytes).result = .error error := by
  refine ⟨fun later broken p' => get?_of_steps_of_locked held locked, fun store topic done => ?_,
    fun line rest next touched => ?_⟩
  · obtain ⟨p', stepped, rfl, -⟩ := run_of_passes lines reached done
    exact get?_of_steps_of_locked held locked stepped
  · cases done : (r.run nested world file destination bytes).result with
    | error error => exact ⟨error, rfl⟩
    | ok result =>
      obtain ⟨p', stepped, -⟩ := run_of_passes lines reached done
      rw [next, steps] at stepped
      split at stepped
      next => cases stepped
      next step => exact absurd touched (not_touches_of_step held locked step)
      next step => exact absurd touched (not_touches_of_step held locked step)

/-- A constant stays locked against a later line of its own file, which fails. -/
theorem locked_datum_survives_redeclaration :
    let bytes := Text.encode (Text.ofString "a : const integer = 1\na[0] : integer = 2\n")
    let constant : Datum := ⟨.integer [1], .scalar, true, []⟩
    let r : Reader := { Reader.standard with options := { Options.standard with allowKeyOverride := true } }
    let p : Progress := ⟨{ (r.begin none .empty).context with
      location := ⟨none, none, 1⟩, started := true }, Store.empty.insert ['a'] constant, []⟩
    p.store.get? ['a'] = some constant ∧
      ∃ error, (r.readInto World.empty .empty bytes).2.result = .error error := by
  intro bytes constant r p
  let world := World.empty
  let nested (r : Reader) (path : Text) : Outcome := runFile world world.nestingBound r .empty path
  let change : Text := Text.ofString "a[0] : integer = 2"
  have held : p.store.get? ['a'] = some constant := by decide +kernel
  have lines : (Lines.ofBytes bytes).complete =
      [⟨Text.ofString "a : const integer = 1", 1, 1⟩] ++ [⟨change, 2, 2⟩] := by decide +kernel
  have reached : r.Passes nested world (r.begin none .empty)
      [⟨Text.ofString "a : const integer = 1", 1, 1⟩] p := .next (by decide +kernel) (.none p)
  have role : Role.ofText change = .declaration change := by decide +kernel
  have head : Declaration.ofLine r.units p.context.realWithUnit change =
      .ok ⟨['a'], .item 0, false, .integer, none, .none, ['2']⟩ := by decide +kernel
  have survives := locked_datum_survives nested world r none .empty bytes lines reached held rfl
  exact ⟨held, survives.2.2 _ _ rfl (.declared role head rfl (by decide +kernel))⟩

end Reader
end TypedProperties
