import TypedProperties.Proofs.Reading.Bracketed

/-! Whether included files may override: they may until a directive forbids overriding, and never again
from then on. -/
namespace TypedProperties

variable {ρ σ : Type} [Variants ρ] [Searches σ]

def Directive.forbidsOverride : Directive → Bool
  | .allowKeyOverride allow => !allow
  | .forbidKeyOverride forbid => forbid
  | _ => false

def Line.forbidsOverride (line : Line) : Bool := line.directive?.any Directive.forbidsOverride

namespace Directive

variable {world : World} {p q : Progress σ} {e : Effect} {directive : Directive}

theorem Does.includesOverride (does : Does world p directive q e) :
    q.context.includesOverride = (p.context.includesOverride && !directive.forbidsOverride) := by
  cases does with
  | allowKeyOverride allow => cases allow <;> simp [forbidsOverride]
  | forbidKeyOverride forbid => cases forbid <;> simp [forbidsOverride]
  | _ => exact (Bool.and_true _).symm

end Directive

namespace Reader

variable {nested : Reader ρ σ → Text → Outcome} {world : World} {r r' : Reader ρ σ} {p q : Progress σ}
  {line : Line} {before : List Line} {path : Text} {store : Store} {topic : Option Text}

theorem includesOverride_of_step {stop : Bool} (done : r.step nested world p line = .ok (q, stop)) :
    q.context.includesOverride = (p.context.includesOverride && !line.forbidsOverride) := by
  have idle (none : line.directive? = none) :
      p.context.includesOverride = (p.context.includesOverride && !line.forbidsOverride) := by
    simp [Line.forbidsOverride, none]
  refine step_context_of (P := fun c =>
      c.includesOverride = (p.context.includesOverride && !line.forbidsOverride))
    idle (fun given does => ?_) idle idle done
  rw [Line.forbidsOverride, given]
  exact does.includesOverride

theorem includesOverride_of_passes {file : Option Text} {destination : Store}
    (passed : r.Passes nested world (r.begin file destination) before p) :
    p.context.includesOverride = !before.any Line.forbidsOverride := by
  refine Passes.history (P := fun before p => p.context.includesOverride = !before.any Line.forbidsOverride)
    rfl (fun _ h done => ?_) passed
  rw [includesOverride_of_step done, h]
  simp

theorem step_of_asks (asks : r.Asks world p line r' path)
    (read : (nested r' path).result = .ok (store, topic)) :
    let warnings := p.warnings ++ (nested r' path).warnings
    r.step nested world p line =
      match p.store.merge store p.context.includesOverride with
      | (merged, none) => .ok (⟨(p.atLine line).context.start, merged, warnings⟩, false)
      | (_, some collision) =>
        .error ⟨.inLine { p.context.location with line := line.last } (.collision collision), warnings⟩ := by
  obtain ⟨rfl, step⟩ := asks.includes nested
  intro warnings
  rw [step]
  dsimp only [includeFile]
  rw [read]
  dsimp only
  have same : ((p.atLine line).setContext (p.atLine line).context.start).store.merge store
      ((p.atLine line).setContext (p.atLine line).context.start).context.includesOverride =
        p.store.merge store p.context.includesOverride := rfl
  rw [same]
  cases p.store.merge store p.context.includesOverride with
  | mk merged collision => cases collision <;> rfl

theorem merge_of_asks {stop : Bool} (asks : r.Asks world p line r' path)
    (read : (nested r' path).result = .ok (store, topic))
    (done : r.step nested world p line = .ok (q, stop)) :
    p.store.merge store p.context.includesOverride = (q.store, none) := by
  have step := (step_of_asks asks read).symm.trans done
  cases merged : p.store.merge store p.context.includesOverride with
  | mk merged' fault =>
    rw [merged] at step
    cases fault with
    | some collision => cases step
    | none =>
      obtain ⟨rfl, -⟩ := Prod.mk.inj (Except.ok.inj step)
      rfl

/-- An include of a file that is read fails only because of a key that the store has, too. -/
theorem collision_of_asks {failure : Failure} (asks : r.Asks world p line r' path)
    (read : (nested r' path).result = .ok (store, topic))
    (failed : r.step nested world p line = .error failure) :
    ∃ key old collision, p.store.get? key = some old ∧ store.contains key = true ∧
      ((p.context.includesOverride = false ∧ collision = .mergeUsed key) ∨
        (p.context.includesOverride = true ∧ old.locked = true ∧ collision = .mergeLocked key)) ∧
      failure.error = .inLine { p.context.location with line := line.last } (.collision collision) := by
  have step := (step_of_asks asks read).symm.trans failed
  cases merged : p.store.merge store p.context.includesOverride with
  | mk merged' fault =>
    rw [merged] at step
    cases fault with
    | none => cases step
    | some collision =>
      obtain rfl := Except.error.inj step
      obtain ⟨key, old, present, shared, why⟩ := Store.merge_error merged
      exact ⟨key, old, collision, present, shared, why, rfl⟩

/-- Forbidding override is final for includes. Take an include, anywhere in a stream, whose file is read
without an error. If some line in front of it has left overriding forbidden, whatever has been allowed
since, then the read fails there if the file has a key of the store, and if it does not fail then all
entries of the store are as they were. If none has, the include fails if and only if the file has a key
that is locked in the store, and blames such a key. -/
theorem forbidden_override_is_final (nested : Reader ρ σ → Text → Outcome) (world : World) (r : Reader ρ σ)
    (file : Option Text) (destination : Store) (bytes : Bytes) {before after : List Line} {line : Line}
    {p : Progress σ} {r' : Reader ρ σ} {path : Text} {store : Store} {topic : Option Text}
    (lines : (Lines.ofBytes bytes).complete = before ++ line :: after)
    (reached : r.Passes nested world (r.begin file destination) before p)
    (asks : r.Asks world p line r' path) (read : (nested r' path).result = .ok (store, topic)) :
    let location := { p.context.location with line := line.last }
    ((∃ earlier ∈ before, earlier.forbidsOverride = true) →
      ((∃ key, p.store.contains key = true ∧ store.contains key = true) →
        ∃ key fault, p.store.contains key = true ∧ store.contains key = true ∧
          fault = .collision (.mergeUsed key) ∧ fault.kind = .forbidden ∧
          (r.run nested world file destination bytes).result = .error (.inLine location fault)) ∧
      ∀ q stop, r.step nested world p line = .ok (q, stop) →
        ∀ key old, p.store.get? key = some old → q.store.get? key = some old) ∧
    ((∀ earlier ∈ before, earlier.forbidsOverride = false) →
      ((∃ failure, r.step nested world p line = .error failure) ↔
        ∃ key old, p.store.get? key = some old ∧ old.locked = true ∧ store.contains key = true) ∧
      ∀ failure, r.step nested world p line = .error failure → ∃ key old,
        p.store.get? key = some old ∧ old.locked = true ∧ store.contains key = true ∧
          failure.error = .inLine location (.collision (.mergeLocked key))) := by
  intro location
  have allowed := includesOverride_of_passes reached
  refine ⟨fun forbidden => ?_, fun idle => ?_⟩
  · have latched : p.context.includesOverride = false := by simpa [allowed] using forbidden
    have apart {q : Progress σ} {stop : Bool} (done : r.step nested world p line = .ok (q, stop)) {key : Text}
        {old : Datum} (present : p.store.get? key = some old) : store.contains key = false := by
      refine Bool.eq_false_iff.mpr fun shared => ?_
      have free := (Store.merge_free (merge_of_asks asks read done) present shared).1
      simp [latched] at free
    refine ⟨fun clash => ?_, fun q stop done key old present => ?_⟩
    · obtain ⟨key, present, shared⟩ := clash
      cases done : r.step nested world p line with
      | ok reached =>
        obtain ⟨old, present⟩ := Option.isSome_iff_exists.mp present
        simp [apart done present] at shared
      | error failure =>
        obtain ⟨key, old, collision, present, shared, ⟨-, rfl⟩ | ⟨free, -⟩, error⟩ :=
          collision_of_asks asks read done
        · refine ⟨key, _, by simp [Store.contains, present], shared, rfl, rfl, ?_⟩
          rw [run_error_of_passes lines reached done, error]
        · simp [latched] at free
    · rw [Store.get?_of_merge_of_absent (merge_of_asks asks read done) (apart done present), present]
  · have free : p.context.includesOverride = true := by simpa [allowed] using idle
    have blamed (failure : Failure) (failed : r.step nested world p line = .error failure) : ∃ key old,
        p.store.get? key = some old ∧ old.locked = true ∧ store.contains key = true ∧
          failure.error = .inLine location (.collision (.mergeLocked key)) := by
      obtain ⟨key, old, collision, present, shared, ⟨latched, -⟩ | ⟨-, locked, rfl⟩, error⟩ :=
        collision_of_asks asks read failed
      · simp [free] at latched
      · exact ⟨key, old, present, locked, shared, error⟩
    refine ⟨⟨fun fails => ?_, fun clash => ?_⟩, blamed⟩
    · obtain ⟨failure, failed⟩ := fails
      obtain ⟨key, old, present, locked, shared, -⟩ := blamed failure failed
      exact ⟨key, old, present, locked, shared⟩
    · obtain ⟨key, old, present, locked, shared⟩ := clash
      cases done : r.step nested world p line with
      | error failure => exact ⟨failure, rfl⟩
      | ok reached => simpa [locked] using (Store.merge_free (merge_of_asks asks read done) present shared).2

/-- Overriding is forbidden and allowed again in front of an include that meets a key; and the same include
where it has not been forbidden. -/
theorem forbidden_override_is_final_behind_a_permission :
    let world : World := ⟨⟨[([['i']], .file (Text.encode (Text.ofString "x = 2\n")))], [], []⟩, []⟩
    let nested := fun r path => runFile world 1 r .empty path
    let r := Reader.standard
    let bytes := Text.encode (Text.ofString "#@forbid_key_override\n#@allow_key_override\nx = 1\n#@include i\n")
    let store := Store.empty.insert ['x'] ⟨.string [['1']] false, .scalar, false, []⟩
    let p : Progress := ⟨{ (r.begin none .empty).context with location := ⟨none, none, 1⟩, started := true },
      store, []⟩
    (∃ key fault, store.contains key = true ∧ fault = .collision (.mergeUsed key) ∧ fault.kind = .forbidden ∧
      (r.run nested world none .empty bytes).result = .error (.inLine ⟨none, none, 4⟩ fault)) ∧
    p.store.contains ['x'] = true ∧
      ¬ ∃ failure, r.step nested world p ⟨Text.ofString "#@include i", 2, 2⟩ = .error failure := by
  intro world nested r bytes store p
  let start := r.begin none .empty
  let path := Text.ofString "./i"
  let included := Store.empty.insert ['x'] ⟨.string [['2']] false, .scalar, false, []⟩
  refine ⟨?_, by decide +kernel, ?_⟩
  · let forbidden : Progress := ⟨{ start.context with
      location := ⟨none, none, 1⟩, includesOverride := false }, .empty, []⟩
    let allowed : Progress := ⟨{ forbidden.context with
      location := ⟨none, none, 2⟩, allowKeyOverride := true }, .empty, []⟩
    let q : Progress := ⟨{ allowed.context with location := ⟨none, none, 3⟩, started := true }, store, []⟩
    let line : Line := ⟨Text.ofString "#@include i", 4, 4⟩
    let before : List Line := [⟨Text.ofString "#@forbid_key_override", 1, 1⟩,
      ⟨Text.ofString "#@allow_key_override", 2, 2⟩, ⟨Text.ofString "x = 1", 3, 3⟩]
    have lines : (Lines.ofBytes bytes).complete = before ++ line :: [] := by decide +kernel
    have reached : r.Passes nested world start before q :=
      Passes.next (q := forbidden) (by decide +kernel)
        (Passes.next (q := allowed) (by decide +kernel) (.next (by decide +kernel) (.none q)))
    have asks : r.Asks world q line (r.forIncluded q.context) path :=
      ⟨Text.ofString "@include i", ⟨{ q.context with location := ⟨none, none, 4⟩ }, store, []⟩,
        by decide +kernel, by decide +kernel, rfl⟩
    have read : (nested (r.forIncluded q.context) path).result = .ok (included, none) := by decide +kernel
    obtain ⟨final, -⟩ := forbidden_override_is_final nested world r none .empty bytes lines reached asks read
    obtain ⟨clash, -⟩ := final ⟨⟨Text.ofString "#@forbid_key_override", 1, 1⟩, by decide, by decide +kernel⟩
    obtain ⟨key, fault, present, -, why, kind, failed⟩ := clash ⟨['x'], by decide +kernel, by decide +kernel⟩
    exact ⟨key, fault, present, why, kind, failed⟩
  · let line : Line := ⟨Text.ofString "#@include i", 2, 2⟩
    have lines : (Lines.ofBytes (Text.encode (Text.ofString "x = 1\n#@include i\n"))).complete =
        [⟨Text.ofString "x = 1", 1, 1⟩] ++ line :: [] := by decide +kernel
    have reached : r.Passes nested world start [⟨Text.ofString "x = 1", 1, 1⟩] p :=
      .next (by decide +kernel) (.none p)
    have asks : r.Asks world p line (r.forIncluded p.context) path :=
      ⟨Text.ofString "@include i", ⟨{ p.context with location := ⟨none, none, 2⟩ }, store, []⟩,
        by decide +kernel, by decide +kernel, rfl⟩
    have read : (nested (r.forIncluded p.context) path).result = .ok (included, none) := by decide +kernel
    obtain ⟨-, final⟩ := forbidden_override_is_final nested world r none .empty _ lines reached asks read
    have idle : ∀ earlier ∈ [(⟨Text.ofString "x = 1", 1, 1⟩ : Line)], earlier.forbidsOverride = false := by
      decide +kernel
    have unlocked : ∀ e ∈ store.entries, e.2.locked = false := by decide +kernel
    intro failed
    obtain ⟨key, old, present, locked, -⟩ := (final idle).1.mp failed
    simpa [locked] using unlocked _ (Store.mem_of_get? present)

end Reader
end TypedProperties
