import Mathlib.Data.List.Induction
import TypedProperties.Proofs.Reading.Directive
import TypedProperties.Proofs.Store.Change

/-! One line of a read, and the lines one after the other: what becomes of the store. -/
namespace TypedProperties

variable {ρ σ : Type} [Variants ρ] [Searches σ]

/-- The context behind a head that has been read: the guard is spent on it. -/
def Context.spend (c : Context σ) : Context σ :=
  { c with started := true, blocks := c.blocks.spendGuard }

/-- The context behind a declaration that is exhibited: the description is taken for it. -/
def Context.undescribed (c : Context σ) : Context σ := { c with description := none }

namespace Reader

variable {nested : Reader ρ σ → Text → Outcome} {world : World} {r : Reader ρ σ} {p p' : Progress σ}

def settle : Progress σ × Option Fault → Except Failure (Progress σ × Bool)
  | (p, none) => .ok (p, false)
  | (p, some fault) => .error (failAt p fault)

theorem step_eq (p : Progress σ) (line : Line) :
    r.step nested world p line =
      match Role.ofText line.text with
      | .comment => .ok (p.atLine line, false)
      | .directive text => r.direct nested world (p.atLine line) text
      | .declaration text => settle (r.declare (p.atLine line) text) := rfl

/-- A line that does not fail is a comment, a directive that has been applied, with its file taken in
if it includes one, or a declaration. -/
theorem step_cases {line : Line} {stop : Bool}
    (done : r.step nested world p line = .ok (p', stop)) :
    (Role.ofText line.text = .comment ∧ p' = p.atLine line ∧ stop = false) ∨
    (∃ text, Role.ofText line.text = .directive text ∧
      (Directive.applyText world (p.atLine line) text =
          (p', .ok (if stop then Effect.stop else .next)) ∨
        ∃ p₁ path, Directive.applyText world (p.atLine line) text = (p₁, .ok (.includeFile path)) ∧
          r.includeFile nested p₁ path = .ok p' ∧ stop = false)) ∨
    ∃ text, Role.ofText line.text = .declaration text ∧
      r.declare (p.atLine line) text = (p', none) ∧ stop = false := by
  rw [step_eq] at done
  split at done
  next role =>
    obtain ⟨rfl, rfl⟩ := Prod.mk.inj (Except.ok.inj done)
    exact .inl ⟨role, rfl, rfl⟩
  next text role =>
    refine .inr (.inl ⟨text, role, ?_⟩)
    unfold direct at done
    split at done
    next => cases done
    next applied =>
      obtain ⟨rfl, rfl⟩ := Prod.mk.inj (Except.ok.inj done)
      exact .inl applied
    next applied =>
      obtain ⟨rfl, rfl⟩ := Prod.mk.inj (Except.ok.inj done)
      exact .inl applied
    next p₁ path applied =>
      cases taken : r.includeFile nested p₁ path with
      | error failure =>
        rw [taken] at done
        cases done
      | ok p₂ =>
        rw [taken] at done
        obtain ⟨rfl, rfl⟩ := Prod.mk.inj (Except.ok.inj done)
        exact .inr ⟨p₁, path, applied, taken, rfl⟩
  next text role =>
    refine .inr (.inr ⟨text, role, ?_⟩)
    unfold settle at done
    split at done
    next declared =>
      obtain ⟨rfl, rfl⟩ := Prod.mk.inj (Except.ok.inj done)
      exact ⟨declared, rfl⟩
    next => cases done

theorem step_directive_cases {line : Line} {directive : Directive} {stop : Bool}
    (given : line.directive? = some directive) (done : r.step nested world p line = .ok (p', stop)) :
    (Directive.Does world (p.atLine line) directive p' .next ∧ stop = false) ∨
      (Directive.Does world (p.atLine line) directive p' .stop ∧ stop = true) ∨
      ∃ p₁ path, Directive.Does world (p.atLine line) directive p₁ (.includeFile path) ∧
        r.includeFile nested p₁ path = .ok p' ∧ stop = false := by
  obtain ⟨text, role, read⟩ := Line.directive?_eq_some.mp given
  have does {q : Progress σ} {e : Effect}
      (applied : Directive.applyText world (p.atLine line) text = (q, .ok e)) :
      Directive.Does world (p.atLine line) directive q e := by
    obtain ⟨other, read', does⟩ := Directive.applyText_eq_ok.mp applied
    obtain rfl := Except.ok.inj (read.symm.trans read')
    exact does
  rcases step_cases done with ⟨role', -⟩ | ⟨text', role', applied⟩ | ⟨text', role', -⟩
  · simp [role] at role'
  · obtain rfl := Role.directive.inj (role.symm.trans role')
    rcases applied with applied | ⟨p₁, path, applied, taken, stopped⟩
    · cases stop with
      | false => exact .inl ⟨does applied, rfl⟩
      | true => exact .inr (.inl ⟨does applied, rfl⟩)
    · exact .inr (.inr ⟨p₁, path, does applied, taken, stopped⟩)
  · simp [role] at role'

theorem eq_of_stop {line : Line} (done : r.step nested world p line = .ok (p', true)) :
    line.directive? = some .stop ∧ p' = p.atLine line := by
  rcases step_cases done with ⟨-, -, stop⟩ | ⟨text, role, applied | ⟨-, -, -, -, stop⟩⟩ | ⟨-, -, -, stop⟩
  · cases stop
  · obtain ⟨directive, read, does⟩ := Directive.applyText_eq_ok.mp applied
    cases does
    exact ⟨Line.directive?_of_directive role read, rfl⟩
  · cases stop
  · cases stop

theorem step_error {line : Line} {failure : Failure} (failed : r.step nested world p line = .error failure) :
    (∃ text, Role.ofText line.text = .directive text ∧
      ((∃ p₁ fault, Directive.applyText world (p.atLine line) text = (p₁, .error fault) ∧
          failure = failAt p₁ fault) ∨
        ∃ p₁ path, Directive.applyText world (p.atLine line) text = (p₁, .ok (.includeFile path)) ∧
          r.includeFile nested p₁ path = .error failure)) ∨
    ∃ text p₁ fault, Role.ofText line.text = .declaration text ∧
      r.declare (p.atLine line) text = (p₁, some fault) ∧ failure = failAt p₁ fault := by
  rw [step_eq] at failed
  split at failed
  next => cases failed
  next text role =>
    refine .inl ⟨text, role, ?_⟩
    unfold direct at failed
    split at failed
    next p₁ fault applied => exact .inl ⟨p₁, fault, applied, (Except.error.inj failed).symm⟩
    next => cases failed
    next => cases failed
    next p₁ path applied =>
      refine .inr ⟨p₁, path, applied, ?_⟩
      cases taken : r.includeFile nested p₁ path with
      | error failure' => simpa [taken, Except.map] using failed
      | ok q => simp [taken, Except.map] at failed
  next text role =>
    unfold settle at failed
    split at failed
    next => cases failed
    next p₁ fault declared => exact .inr ⟨text, p₁, fault, role, declared, (Except.error.inj failed).symm⟩

theorem includeFile_error {path : Text} {failure : Failure}
    (failed : r.includeFile nested p path = .error failure) :
    (∃ error, (nested (r.forIncluded p.context) path).result = .error error ∧
        failure.error = .included p.context.location path error) ∨
      ∃ collision, failure.error = .inLine p.context.location (.collision collision) := by
  unfold includeFile at failed
  dsimp only at failed
  split at failed
  next error result =>
    obtain rfl := Except.error.inj failed
    exact .inl ⟨error, result, rfl⟩
  next =>
    split at failed
    next => cases failed
    next s collision _ =>
      obtain rfl := Except.error.inj failed
      exact .inr ⟨collision, rfl⟩

theorem includeFile_cases {path : Text} (done : r.includeFile nested p path = .ok p') :
    ∃ store topic, (nested (r.forIncluded p.context) path).result = .ok (store, topic) ∧
      p.store.merge store p.context.includesOverride = (p'.store, none) ∧
      p'.context = p.context ∧
      p'.warnings = p.warnings ++ (nested (r.forIncluded p.context) path).warnings := by
  unfold includeFile at done
  dsimp only at done
  split at done
  next => cases done
  next store topic result =>
    split at done
    next s' merged =>
      obtain rfl := Except.ok.inj done
      exact ⟨store, topic, result, merged, rfl, rfl⟩
    next => cases done

theorem declareHead_eq (p : Progress σ) (d : Declaration) :
    r.declareHead p d =
      match p.context.blocks.exhibits r.variants with
      | .error fault => (p.setContext { p.context with blocks := p.context.blocks.spendGuard }, some (.block fault))
      | .ok false => (p.setContext { p.context with blocks := p.context.blocks.spendGuard }, none)
      | .ok true =>
        r.exhibit (p.setContext { p.context with blocks := p.context.blocks.spendGuard }) d := rfl

theorem declare_eq (p : Progress σ) (text : Text) :
    r.declare p text =
      match Declaration.ofLine r.units p.context.realWithUnit text with
      | .error fault => (p.setContext p.context.start, some (.head fault))
      | .ok d => r.declareHead (p.setContext p.context.start) d := rfl

theorem declare_cases {text : Text} (done : r.declare p text = (p', none)) :
    ∃ d, Declaration.ofLine r.units p.context.realWithUnit text = .ok d ∧
      ((p.context.blocks.exhibits r.variants = .ok false ∧ p' = p.setContext p.context.spend) ∨
        (p.context.blocks.exhibits r.variants = .ok true ∧
          r.exhibit (p.setContext p.context.spend) d = (p', none))) := by
  unfold declare at done
  dsimp only at done
  split at done
  next => simp at done
  next d head =>
    refine ⟨d, head, ?_⟩
    unfold declareHead at done
    dsimp only at done
    split at done
    next => simp at done
    next passed =>
      obtain ⟨rfl, -⟩ := Prod.mk.inj done
      exact .inl ⟨passed, rfl⟩
    next exhibited => exact .inr ⟨exhibited, done⟩

theorem exhibit_eq (p : Progress σ) (d : Declaration) :
    r.exhibit p d =
      match r.segmentOf p.context d with
      | .error fault => (p.setContext p.context.undescribed, some fault)
      | .ok segment =>
        match Readout.ofSegment r.units p.context.realWithUnit d segment with
        | .error fault => (p.setContext p.context.undescribed, some (.values fault))
        | .ok readout =>
          storeDatum (trailingWarning (p.setContext p.context.undescribed) d readout.trailing) d
            (datumOf d readout.data p.context.description) := rfl

theorem storeDatum_error {d : Declaration} {datum : Datum} {fault : Fault}
    (refused : storeDatum p d datum = (p', some fault)) : p' = p ∧ ∃ collision, fault = .collision collision := by
  unfold storeDatum at refused
  split at refused
  next store collision put =>
    obtain ⟨rfl, same⟩ := Prod.mk.inj refused
    obtain rfl := Store.put_error put
    exact ⟨rfl, collision, (Option.some.inj same).symm⟩
  next => simp at refused

theorem exhibit_cases {d : Declaration} (done : r.exhibit p d = (p', none)) :
    ∃ segment readout store replaced, r.segmentOf p.context d = .ok segment ∧
      Readout.ofSegment r.units p.context.realWithUnit d segment = .ok readout ∧
      p.store.put d.key (datumOf d readout.data p.context.description) d.mode
        p.context.allowKeyOverride = (store, .ok replaced) ∧
      p'.store = store ∧ p'.context = p.context.undescribed ∧
      p'.warnings = p.warnings ++
        readout.trailing.toList.map (.trailing p.context.line d.key) ++
        (if replaced then [.overriding d.key] else []) := by
  rw [exhibit_eq] at done
  split at done
  next => simp at done
  next segment hs =>
    split at done
    next => simp at done
    next readout hv =>
      unfold storeDatum at done
      split at done
      next => simp at done
      next store replaced put =>
        obtain ⟨rfl, -⟩ := Prod.mk.inj done
        refine ⟨segment, readout, store, replaced, hs, hv, ?_, ?_, ?_, ?_⟩
        · cases ht : readout.trailing <;> simpa [trailingWarning, ht, Context.undescribed] using put
        · cases replaced <;> rfl
        · cases replaced <;> cases readout.trailing <;> rfl
        · cases replaced <;> cases readout.trailing <;>
            simp [trailingWarning, Context.line, Context.undescribed]

theorem exhibit_error {d : Declaration} {fault : Fault} (failed : r.exhibit p d = (p', some fault)) :
    (∃ f, fault = .parameters d.key f) ∨ (∃ f, fault = .values f) ∨ ∃ f, fault = .collision f := by
  rw [exhibit_eq] at failed
  split at failed
  next f segment =>
    obtain ⟨-, failed⟩ := Prod.mk.inj failed
    obtain rfl := Option.some.inj failed
    unfold segmentOf at segment
    split_ifs at segment
    split at segment
    next => cases segment
    next g _ => exact .inl ⟨g, (Except.error.inj segment).symm⟩
  next =>
    split at failed
    next f _ =>
      obtain ⟨-, failed⟩ := Prod.mk.inj failed
      exact .inr (.inl ⟨f, (Option.some.inj failed).symm⟩)
    next =>
      exact .inr (.inr (storeDatum_error failed).2)

theorem context_of_declare {text : Text} (done : r.declare p text = (p', none)) :
    (p.context.blocks.exhibits r.variants = .ok false ∧ p'.context = p.context.spend) ∨
      (p.context.blocks.exhibits r.variants = .ok true ∧ p'.context = p.context.spend.undescribed) := by
  obtain ⟨d, -, ⟨passed, rfl⟩ | ⟨exhibited, shown⟩⟩ := declare_cases done
  · exact .inl ⟨passed, rfl⟩
  · obtain ⟨-, -, -, -, -, -, -, -, context, -⟩ := exhibit_cases shown
    exact .inr ⟨exhibited, context⟩

theorem change_of_includeFile {path : Text} (done : r.includeFile nested p path = .ok p') :
    p.store.Change p'.store := by
  obtain ⟨store, topic, -, merged, -⟩ := includeFile_cases done
  exact .merged merged

theorem change_of_declare {text : Text} (done : r.declare p text = (p', none)) :
    p.store.Change p'.store := by
  obtain ⟨d, -, ⟨-, rfl⟩ | ⟨-, exhibited⟩⟩ := declare_cases done
  · exact .kept rfl
  · obtain ⟨segment, readout, store, replaced, -, -, put, rfl, -⟩ := exhibit_cases exhibited
    exact .put put

theorem change_of_step {line : Line} {stop : Bool}
    (done : r.step nested world p line = .ok (p', stop)) : p.store.Change p'.store := by
  rcases step_cases done with ⟨-, rfl, -⟩ | ⟨text, -, applied | ⟨p₁, path, applied, taken, -⟩⟩ |
    ⟨text, -, declared, -⟩
  · exact .kept rfl
  · obtain ⟨directive, -, does⟩ := Directive.applyText_eq_ok.mp applied
    exact .kept does.entries
  · obtain ⟨name, optional, -, -, -, rfl⟩ := Directive.applyText_eq_includeFile applied
    exact change_of_includeFile (p := p.setContext (p.context.atLine line.last).start) taken
  · exact change_of_declare (p := p.atLine line) declared

theorem step_invariant {P : Progress σ → Prop} {line : Line} {stop : Bool}
    (comment : Role.ofText line.text = .comment → P (p.atLine line))
    (directive : ∀ {text : Text} {q : Progress σ} {e : Effect}, Role.ofText line.text = .directive text →
      Directive.applyText world (p.atLine line) text = (q, .ok e) → P q)
    (included : ∀ {q q' : Progress σ} {path : Text}, P q → r.includeFile nested q path = .ok q' → P q')
    (declaration : ∀ {text : Text} {q : Progress σ}, Role.ofText line.text = .declaration text →
      r.declare (p.atLine line) text = (q, none) → P q)
    (done : r.step nested world p line = .ok (p', stop)) : P p' := by
  rcases step_cases done with ⟨role, rfl, -⟩ | ⟨text, role, applied | ⟨q, path, applied, taken, -⟩⟩ |
    ⟨text, role, declared, -⟩
  · exact comment role
  · exact directive role applied
  · exact included (directive role applied) taken
  · exact declaration role declared

/-- What the directive of a line makes of the context, if it has one, and else the line itself or the
declaration in it, the line makes of it. -/
theorem step_context_of {P : Context σ → Prop} {line : Line} {stop : Bool}
    (here : line.directive? = none → P (p.atLine line).context)
    (directive : ∀ {d : Directive} {q : Progress σ} {e : Effect}, line.directive? = some d →
      Directive.Does world (p.atLine line) d q e → P q.context)
    (passed : line.directive? = none → P (p.atLine line).context.spend)
    (exhibited : line.directive? = none → P (p.atLine line).context.spend.undescribed)
    (done : r.step nested world p line = .ok (p', stop)) : P p'.context := by
  refine step_invariant (P := fun q => P q.context) (fun role => here (Line.directive?_of_comment role))
    (fun role applied => ?_) (fun behind taken => ?_) (fun role declared => ?_) done
  · obtain ⟨d, read, does⟩ := Directive.applyText_eq_ok.mp applied
    exact directive (Line.directive?_of_directive role read) does
  · obtain ⟨-, -, -, -, same, -⟩ := includeFile_cases taken
    rw [same]
    exact behind
  · have none := Line.directive?_of_declaration role
    rcases context_of_declare declared with ⟨-, same⟩ | ⟨-, same⟩ <;> rw [same]
    · exact passed none
    · exact exhibited none

/-- What holds of the context at a line, and behind any directive or declaration there, holds behind
the line. -/
theorem step_context {P : Context σ → Prop} {line : Line} {stop : Bool} (here : P (p.atLine line).context)
    (directive : ∀ {d : Directive} {q : Progress σ} {e : Effect},
      Directive.Does world (p.atLine line) d q e → P q.context)
    (passed : P (p.atLine line).context.spend) (exhibited : P (p.atLine line).context.spend.undescribed)
    (done : r.step nested world p line = .ok (p', stop)) : P p'.context :=
  step_context_of (fun _ => here) (fun _ does => directive does) (fun _ => passed) (fun _ => exhibited) done

/-- Lines that are read one after the other without a stop or a failure, and what they lead to. -/
inductive Passes (nested : Reader ρ σ → Text → Outcome) (world : World) (r : Reader ρ σ) :
    Progress σ → List Line → Progress σ → Prop
  | none (p : Progress σ) : Passes nested world r p [] p
  | next {p q p' : Progress σ} {line : Line} {rest : List Line}
      (stepped : r.step nested world p line = .ok (q, false))
      (passed : Passes nested world r q rest p') : Passes nested world r p (line :: rest) p'

theorem Passes.append {p q p' : Progress σ} {before after : List Line}
    (first : r.Passes nested world p before q) (second : r.Passes nested world q after p') :
    r.Passes nested world p (before ++ after) p' := by
  induction first with
  | none p => exact second
  | next stepped _ ih => exact .next stepped (ih second)

theorem steps_of_passes {before : List Line} (passed : r.Passes nested world p before p')
    (broken : Bool) (after : List Line) :
    r.steps nested world broken p (before ++ after) = r.steps nested world broken p' after := by
  induction passed with
  | none p => rfl
  | next stepped _ ih => rw [List.cons_append, steps, stepped, ← ih]

theorem Passes.split {before after : List Line} (passed : r.Passes nested world p (before ++ after) p') :
    ∃ q, r.Passes nested world p before q ∧ r.Passes nested world q after p' := by
  induction before generalizing p with
  | nil => exact ⟨p, .none p, passed⟩
  | cons line before ih =>
    cases passed with
    | next stepped passed =>
      obtain ⟨q, first, second⟩ := ih passed
      exact ⟨q, .next stepped first, second⟩

theorem Passes.unique {q q' : Progress σ} {lines : List Line} (passed : r.Passes nested world p lines q)
    (passed' : r.Passes nested world p lines q') : q = q' := by
  induction passed with
  | none p =>
    cases passed'
    rfl
  | next stepped _ ih =>
    cases passed' with
    | next stepped' passed' =>
      obtain ⟨rfl, -⟩ := Prod.mk.inj (Except.ok.inj (stepped.symm.trans stepped'))
      exact ih passed'

/-- What holds at the start and is kept by one more line holds wherever a read has got to. Unlike in
`steps_invariant` it may speak of the lines read so far. -/
theorem Passes.history {start : Progress σ} {P : List Line → Progress σ → Prop} (first : P [] start)
    (next : ∀ {before : List Line} {p q : Progress σ} {line : Line}, r.Passes nested world start before p →
      P before p → r.step nested world p line = .ok (q, false) → P (before ++ [line]) q)
    {lines : List Line} (passed : r.Passes nested world start lines p) : P lines p := by
  induction lines using List.reverseRecOn generalizing p with
  | nil =>
    cases passed
    exact first
  | append_singleton before line ih =>
    obtain ⟨q, reached, last⟩ := passed.split
    cases last with
    | next stepped none =>
      cases none
      exact next reached (ih reached) stepped

/-- The lines that a read executes: all of them, or those in front of one that stops it. -/
inductive Executes (nested : Reader ρ σ → Text → Outcome) (world : World) (r : Reader ρ σ)
    (start : Progress σ) :
    List Line → List Line → Progress σ → Prop
  | whole {lines : List Line} {p : Progress σ} (passed : r.Passes nested world start lines p) :
    Executes nested world r start lines lines p
  | stopped {before after : List Line} {line : Line} {q p : Progress σ}
      (passed : r.Passes nested world start before q) (stop : r.step nested world q line = .ok (p, true)) :
    Executes nested world r start (before ++ line :: after) before p

theorem Executes.passes {start : Progress σ} {lines before : List Line}
    (executed : r.Executes nested world start lines before p) : ∃ q, r.Passes nested world start before q := by
  cases executed with
  | whole passed => exact ⟨_, passed⟩
  | stopped passed _ => exact ⟨_, passed⟩

theorem executes_of_steps {broken : Bool} {lines : List Line}
    (done : r.steps nested world broken p lines = .ok p') :
    ∃ before, r.Executes nested world p lines before p' := by
  induction lines generalizing p with
  | nil =>
    unfold steps at done
    split_ifs at done
    obtain rfl := Except.ok.inj done
    exact ⟨[], .whole (.none p)⟩
  | cons line rest ih =>
    unfold steps at done
    split at done
    next => cases done
    next q stepped =>
      obtain rfl := Except.ok.inj done
      exact ⟨[], .stopped (.none p) stepped⟩
    next q stepped =>
      obtain ⟨before, executed⟩ := ih done
      refine ⟨line :: before, ?_⟩
      cases executed with
      | whole passed => exact .whole (.next stepped passed)
      | stopped passed stop => exact .stopped (.next stepped passed) stop

theorem steps_cons {broken : Bool} {line : Line} {rest : List Line}
    (done : r.steps nested world broken p (line :: rest) = .ok p') :
    ∃ q stop, r.step nested world p line = .ok (q, stop) ∧
      (stop = false → r.steps nested world broken q rest = .ok p') := by
  rw [steps] at done
  cases stepped : r.step nested world p line with
  | error failure => simp [stepped] at done
  | ok reached =>
    obtain ⟨q, stop⟩ := reached
    refine ⟨q, stop, rfl, ?_⟩
    rintro rfl
    rw [stepped] at done
    exact done

/-- Lines are passed on the way to those behind them, or the read stops within them, whatever comes
behind. -/
theorem steps_append {broken : Bool} {before after : List Line}
    (done : r.steps nested world broken p (before ++ after) = .ok p') :
    (∃ q, r.Passes nested world p before q ∧ r.steps nested world broken q after = .ok p') ∨
      ((∀ q, ¬ r.Passes nested world p before q) ∧
        ∀ after', r.steps nested world broken p (before ++ after') = .ok p') := by
  induction before generalizing p with
  | nil => exact .inl ⟨p, .none p, done⟩
  | cons line before ih =>
    obtain ⟨q, stop, stepped, behind⟩ := steps_cons done
    cases stop with
    | true =>
      refine .inr ⟨fun q' passed => ?_, fun after' => ?_⟩
      · cases passed with
        | next passed _ =>
          rw [stepped] at passed
          cases passed
      · rw [List.cons_append, steps, stepped] at done ⊢
        exact done
    | false =>
      rcases ih (behind rfl) with ⟨q', passed, behind⟩ | ⟨stopped, same⟩
      · exact .inl ⟨q', .next stepped passed, behind⟩
      · refine .inr ⟨fun q' passed => ?_, fun after' => ?_⟩
        · cases passed with
          | next stepped' passed =>
            obtain ⟨rfl, -⟩ := Prod.mk.inj (Except.ok.inj (stepped.symm.trans stepped'))
            exact stopped q' passed
        · rw [List.cons_append, steps, stepped]
          exact same after'

theorem steps_error {broken : Bool} {lines : List Line} {failure : Failure}
    (failed : r.steps nested world broken p lines = .error failure) :
    (∃ q : Progress σ, failure.error = .access (inputName q.context) .notText) ∨
      ∃ before line after q, lines = before ++ line :: after ∧ r.Passes nested world p before q ∧
        r.step nested world q line = .error failure := by
  induction lines generalizing p with
  | nil =>
    unfold steps at failed
    split_ifs at failed
    obtain rfl := Except.error.inj failed
    exact .inl ⟨p, rfl⟩
  | cons line rest ih =>
    unfold steps at failed
    split at failed
    next stepped =>
      obtain rfl := Except.error.inj failed
      exact .inr ⟨[], line, rest, p, rfl, .none p, stepped⟩
    next => cases failed
    next q stepped =>
      rcases ih failed with access | ⟨before, last, after, q', rfl, passed, stepped'⟩
      · exact .inl access
      · exact .inr ⟨line :: before, last, after, q', rfl, .next stepped passed, stepped'⟩

theorem run_eq_ok {file : Option Text} {destination store : Store} {bytes : Bytes} {topic : Option Text} :
    (r.run nested world file destination bytes).result = .ok (store, topic) ↔
      ∃ p', r.steps nested world (Lines.ofBytes bytes).broken (r.begin file destination)
          (Lines.ofBytes bytes).complete = .ok p' ∧
        p'.context.blocks.rules = [] ∧ p'.store = store ∧ p'.context.topic = topic := by
  unfold run
  dsimp only
  cases r.steps nested world (Lines.ofBytes bytes).broken (r.begin file destination)
      (Lines.ofBytes bytes).complete with
  | error failure => simp
  | ok p' =>
    unfold finish Blocks.innermost
    cases left : p'.context.blocks.rules <;> simp [left]

theorem run_of_passes {file : Option Text} {destination : Store} {bytes : Bytes}
    {before after : List Line} (lines : (Lines.ofBytes bytes).complete = before ++ after)
    (passed : r.Passes nested world (r.begin file destination) before p) {store : Store}
    {topic : Option Text}
    (done : (r.run nested world file destination bytes).result = .ok (store, topic)) :
    ∃ p', r.steps nested world (Lines.ofBytes bytes).broken p after = .ok p' ∧ p'.store = store ∧
      p'.context.topic = topic := by
  obtain ⟨p', stepped, -, same⟩ := run_eq_ok.mp done
  rw [lines, steps_of_passes passed] at stepped
  exact ⟨p', stepped, same⟩

theorem run_error_of_passes {file : Option Text} {destination : Store} {bytes : Bytes}
    {before after : List Line} {line : Line} {failure : Failure}
    (lines : (Lines.ofBytes bytes).complete = before ++ line :: after)
    (passed : r.Passes nested world (r.begin file destination) before p)
    (failed : r.step nested world p line = .error failure) :
    (r.run nested world file destination bytes).result = .error failure.error := by
  simp only [run, lines, steps_of_passes passed, steps, failed]

theorem steps_invariant {P : Progress σ → Prop} {broken : Bool} {lines : List Line}
    (keep : ∀ {p p' : Progress σ} {line : Line} {stop : Bool}, line ∈ lines → P p →
      r.step nested world p line = .ok (p', stop) → P p')
    (start : P p) (done : r.steps nested world broken p lines = .ok p') : P p' := by
  induction lines generalizing p with
  | nil =>
    unfold steps at done
    split_ifs at done
    obtain rfl := Except.ok.inj done
    exact start
  | cons line rest ih =>
    unfold steps at done
    split at done
    next => cases done
    next p₁ stepped =>
      obtain rfl := Except.ok.inj done
      exact keep (by simp) start stepped
    next p₁ stepped =>
      exact ih (fun h => keep (by simp [h])) (keep (by simp) start stepped) done

end Reader
end TypedProperties
