import TypedProperties.Proofs.Line.Layout
import TypedProperties.Proofs.Reading.Steps

/-! Reads without their line numbers: no line of a read depends on the numbers, so two reads of the
same logical lines agree up to them. -/
namespace TypedProperties

variable {ρ σ : Type} [Variants ρ] [Searches σ]

namespace Warning

def unnumbered : Warning → Warning
  | .trailing _ key text => .trailing 0 key text
  | .overriding key => .overriding key
  | .emptyTopic _ => .emptyTopic 0
  | .topicAlreadySet _ seen ignored => .topicAlreadySet 0 seen ignored
  | .descriptionAlreadySet _ => .descriptionAlreadySet 0
  | .includeSkipped _ path reason => .includeSkipped 0 path reason

@[simp] theorem unnumbered_unnumbered (w : Warning) : w.unnumbered.unnumbered = w.unnumbered := by
  cases w <;> rfl

end Warning

def Location.unnumbered (l : Location) : Location := { l with line := 0 }

/-- Without the line that the error is reported at; errors inside of included files stay whole. -/
def ReadError.unnumbered : ReadError → ReadError
  | .inLine location fault => .inLine location.unnumbered fault
  | .access path fault => .access path fault
  | .included location path error => .included location.unnumbered path error

def Outcome.unnumbered (o : Outcome) : Outcome where
  warnings := o.warnings.map Warning.unnumbered
  result := o.result.mapError ReadError.unnumbered

def Progress.unnumbered (p : Progress σ) : Progress σ where
  context := p.context.atLine 0
  store := p.store
  warnings := p.warnings.map Warning.unnumbered

namespace Progress

@[simp] theorem store_unnumbered (p : Progress σ) : p.unnumbered.store = p.store := rfl

@[simp] theorem context_unnumbered (p : Progress σ) :
    p.unnumbered.context = p.context.atLine 0 := rfl

@[simp] theorem unnumbered_unnumbered (p : Progress σ) : p.unnumbered.unnumbered = p.unnumbered := by
  simp [unnumbered, Context.atLine]

@[simp] theorem unnumbered_atLine (p : Progress σ) (line : Line) :
    (p.atLine line).unnumbered = p.unnumbered := rfl

theorem unnumbered_warn {p q : Progress σ} {w w' : Warning} (h : p.unnumbered = q.unnumbered)
    (hw : w.unnumbered = w'.unnumbered) : (p.warn w).unnumbered = (q.warn w').unnumbered := by
  obtain ⟨hc, hs, hws⟩ := Progress.mk.inj h
  simp [unnumbered, warn, hc, hs, hws, hw]

theorem unnumbered_setContext {p q : Progress σ} {c c' : Context σ} (h : p.unnumbered = q.unnumbered)
    (hc : c.atLine 0 = c'.atLine 0) :
    (p.setContext c).unnumbered = (q.setContext c').unnumbered := by
  obtain ⟨-, hs, hws⟩ := Progress.mk.inj h
  simp [unnumbered, setContext, hc, hs, hws]

end Progress

namespace Directive

def unnumber (a : Applied σ) : Applied σ := (a.1.unnumbered, a.2)

variable {world : World}

theorem unnumber_done (p : Progress σ) : unnumber (done p) = unnumber (done p.unnumbered) := by
  simp [unnumber, done]

theorem unnumber_refuse (p : Progress σ) (fault : Fault) :
    unnumber (refuse p fault) = unnumber (refuse p.unnumbered fault) := by
  simp [unnumber, refuse]

theorem unnumber_warn {p q : Progress σ} {w w' : Warning} (h : p.unnumbered = q.unnumbered)
    (hw : w.unnumbered = w'.unnumbered) : unnumber (done (p.warn w)) = unnumber (done (q.warn w')) :=
  Prod.ext (Progress.unnumbered_warn h hw) rfl

theorem unnumber_change (p : Progress σ) {c c' : Context σ} (h : c.atLine 0 = c'.atLine 0) :
    unnumber (change p c) = unnumber (change p.unnumbered c') :=
  Prod.ext (Progress.unnumbered_setContext p.unnumbered_unnumbered.symm h) rfl

theorem unnumber_beforeFirst (p : Progress σ) (name : String) {go go' : Applied σ}
    (h : unnumber go = unnumber go') :
    unnumber (beforeFirst p name go) = unnumber (beforeFirst p.unnumbered name go') := by
  have same : p.unnumbered.context.started = p.context.started := rfl
  rw [beforeFirst, beforeFirst, same]
  split_ifs
  · exact unnumber_refuse p _
  · exact h

theorem unnumber_inclusionEnabled (p : Progress σ) (name : String) {go go' : Applied σ}
    (h : unnumber go = unnumber go') :
    unnumber (inclusionEnabled p name go) = unnumber (inclusionEnabled p.unnumbered name go') := by
  have same : p.unnumbered.context.inclusion = p.context.inclusion := rfl
  rw [inclusionEnabled, inclusionEnabled, same]
  split_ifs
  · exact h
  · exact unnumber_refuse p _

theorem unnumber_applyTopic (p : Progress σ) (topic : Text) :
    unnumber (applyTopic p topic) = unnumber (applyTopic p.unnumbered topic) := by
  dsimp only [applyTopic, Progress.context_unnumbered, Context.atLine]
  split_ifs
  · exact unnumber_warn p.unnumbered_unnumbered.symm rfl
  · split
    · exact unnumber_warn p.unnumbered_unnumbered.symm rfl
    · split_ifs
      · exact unnumber_change p rfl
      · exact unnumber_refuse p _
    · exact unnumber_change p rfl

theorem unnumber_applyConfig (p : Progress σ) (text : Text) :
    unnumber (applyConfig p text) = unnumber (applyConfig p.unnumbered text) := by
  have same : p.unnumbered.context.configSeen = p.context.configSeen := rfl
  dsimp only [applyConfig]
  rw [same]
  split_ifs
  · exact unnumber_warn p.unnumbered_unnumbered.symm rfl
  · simp [unnumber, done, Progress.unnumbered, Context.atLine]

theorem unnumber_applyDescription (p : Progress σ) (text : Text) :
    unnumber (applyDescription p text) = unnumber (applyDescription p.unnumbered text) := by
  have same : p.unnumbered.context.started = p.context.started := rfl
  dsimp only [applyDescription]
  rw [same]
  split_ifs
  · exact unnumber_refuse p _
  · exact unnumber_done p
  · exact unnumber_change p rfl

theorem unnumber_applyEndif (p : Progress σ) (name : Option Text) :
    unnumber (applyEndif p name) = unnumber (applyEndif p.unnumbered name) := by
  dsimp only [applyEndif, Progress.context_unnumbered, Context.atLine]
  split
  · exact unnumber_change p rfl
  · exact unnumber_refuse p _

theorem unnumber_applyInclude (p : Progress σ) (path : Text) (optional : Bool) :
    unnumber (applyInclude world p path optional) =
      unnumber (applyInclude world p.unnumbered path optional) := by
  have begun : (p.setContext p.context.start).unnumbered =
      (p.unnumbered.setContext p.unnumbered.context.start).unnumbered :=
    Progress.unnumbered_setContext p.unnumbered_unnumbered.symm rfl
  refine unnumber_inclusionEnabled p _ ?_
  dsimp only [Progress.context_setContext, Progress.context_unnumbered, Context.start,
    Context.atLine]
  split
  · exact Prod.ext begun rfl
  · split_ifs
    · exact unnumber_warn begun rfl
    · exact Prod.ext begun rfl

theorem unnumber_applySearch (p : Progress σ) (name : String) (search : Except IncludeFault σ)
    (fault : IncludeFault → Fault) :
    unnumber (applySearch p name search fault) =
      unnumber (applySearch p.unnumbered name search fault) := by
  have same : p.unnumbered.context.searchFixed = p.context.searchFixed := rfl
  dsimp only [applySearch]
  rw [same]
  split_ifs
  · exact unnumber_done p
  · refine unnumber_inclusionEnabled p _ (unnumber_beforeFirst p _ ?_)
    split
    · exact unnumber_change p rfl
    · exact unnumber_refuse p _

theorem unnumber_apply (p : Progress σ) (directive : Directive) :
    unnumber (apply world p directive) = unnumber (apply world p.unnumbered directive) := by
  have same : variantFault p.unnumbered.context directive = variantFault p.context directive := by
    cases directive <;> rfl
  simp only [apply, same]
  split
  · exact unnumber_refuse p _
  · cases directive with
    | stop =>
      have same : p.unnumbered.context.propertyPending = p.context.propertyPending := rfl
      dsimp only
      rw [same]
      split_ifs
      · exact unnumber_refuse p _
      · simp [unnumber]
    | topic text => exact unnumber_beforeFirst p _ (unnumber_applyTopic p text)
    | config text => exact unnumber_beforeFirst p _ (unnumber_applyConfig p text)
    | description text => exact unnumber_applyDescription p text
    | enableVariants =>
      have same : p.unnumbered.context.variantsForbidden = p.context.variantsForbidden := rfl
      dsimp only
      rw [same]
      split_ifs
      · exact unnumber_refuse p _
      · exact unnumber_change p rfl
    | variantEndif name => exact unnumber_applyEndif p name
    | includeFile path optional => exact unnumber_applyInclude p path optional
    | includeDirectory dir => exact unnumber_applySearch p _ _ _
    | includePathVariable name => exact unnumber_applySearch p _ _ _
    | includeNoPropagate => exact unnumber_beforeFirst p _ (unnumber_change p rfl)
    | _ => exact unnumber_change p rfl

theorem unnumber_applyText (world : World) (p : Progress σ) (text : Text) :
    unnumber (applyText world p text) = unnumber (applyText world p.unnumbered text) := by
  simp only [applyText]
  split
  · exact unnumber_refuse p _
  · exact unnumber_apply p _

end Directive

namespace Reader

variable {nested : Reader ρ σ → Text → Outcome} {world : World} {r : Reader ρ σ}

def unnumber (a : Progress σ × Option Fault) : Progress σ × Option Fault := (a.1.unnumbered, a.2)

def Failure.unnumbered (f : Failure) : Failure where
  error := f.error.unnumbered
  warnings := f.warnings.map Warning.unnumbered

theorem unnumber_storeDatum {p q : Progress σ} (h : p.unnumbered = q.unnumbered) (d : Declaration)
    (datum : Datum) : unnumber (storeDatum p d datum) = unnumber (storeDatum q d datum) := by
  obtain ⟨hc, hs, hws⟩ := Progress.mk.inj h
  have allow : (p.context.atLine 0).allowKeyOverride = (q.context.atLine 0).allowKeyOverride := by
    rw [hc]
  change p.context.allowKeyOverride = q.context.allowKeyOverride at allow
  simp only [storeDatum, hs, allow]
  split
  next store collision _ =>
    have stored : Progress.unnumbered { p with store } = Progress.unnumbered { q with store } := by
      simp [Progress.unnumbered, hc, hws]
    exact Prod.ext stored rfl
  next store replaced _ =>
    have stored : Progress.unnumbered { p with store } = Progress.unnumbered { q with store } := by
      simp [Progress.unnumbered, hc, hws]
    refine Prod.ext ?_ rfl
    dsimp only [unnumber]
    split_ifs
    · exact Progress.unnumbered_warn stored rfl
    · exact stored

theorem unnumber_exhibit (p : Progress σ) (d : Declaration) :
    unnumber (r.exhibit p d) = unnumber (r.exhibit p.unnumbered d) := by
  have spent : (p.setContext p.context.undescribed).unnumbered =
      (p.unnumbered.setContext p.unnumbered.context.undescribed).unnumbered :=
    Progress.unnumbered_setContext p.unnumbered_unnumbered.symm rfl
  have segment : r.segmentOf p.unnumbered.context d = r.segmentOf p.context d := rfl
  have units : p.unnumbered.context.realWithUnit = p.context.realWithUnit := rfl
  rw [exhibit_eq, exhibit_eq, segment, units]
  split
  · exact Prod.ext spent rfl
  · split
    · exact Prod.ext spent rfl
    next readout _ =>
      refine unnumber_storeDatum ?_ d _
      cases readout.trailing with
      | none => exact spent
      | some text => exact Progress.unnumbered_warn spent rfl

theorem unnumber_declareHead (p : Progress σ) (d : Declaration) :
    unnumber (r.declareHead p d) = unnumber (r.declareHead p.unnumbered d) := by
  have spent : (p.setContext { p.context with blocks := p.context.blocks.spendGuard }).unnumbered =
      (p.unnumbered.setContext
        { p.unnumbered.context with blocks := p.context.blocks.spendGuard }).unnumbered :=
    Progress.unnumbered_setContext p.unnumbered_unnumbered.symm rfl
  have same : p.unnumbered.context.blocks = p.context.blocks := rfl
  dsimp only [declareHead]
  rw [same]
  split
  · exact Prod.ext spent rfl
  · exact Prod.ext spent rfl
  · rw [unnumber_exhibit, spent, ← unnumber_exhibit]

theorem unnumber_declare (p : Progress σ) (text : Text) :
    unnumber (r.declare p text) = unnumber (r.declare p.unnumbered text) := by
  have begun : (p.setContext p.context.start).unnumbered =
      (p.unnumbered.setContext p.unnumbered.context.start).unnumbered :=
    Progress.unnumbered_setContext p.unnumbered_unnumbered.symm rfl
  have same : p.unnumbered.context.start.realWithUnit = p.context.start.realWithUnit := rfl
  dsimp only [declare, Progress.context_setContext]
  rw [same]
  split
  · exact Prod.ext begun rfl
  · rw [unnumber_declareHead, begun, ← unnumber_declareHead]

theorem unnumbered_failAt {p q : Progress σ} (h : p.unnumbered = q.unnumbered) (fault : Fault) :
    (failAt p fault).unnumbered = (failAt q fault).unnumbered := by
  obtain ⟨hc, -, hws⟩ := Progress.mk.inj h
  have location : p.context.location.unnumbered = q.context.location.unnumbered :=
    congrArg Context.location hc
  simp [failAt, Failure.unnumbered, ReadError.unnumbered, location, hws]

def unnumberStep {β : Type} : Except Failure (Progress σ × β) → Except Failure (Progress σ × β)
  | .ok (p, b) => .ok (p.unnumbered, b)
  | .error f => .error f.unnumbered

def unnumberEnd : Except Failure (Progress σ) → Except Failure (Progress σ)
  | .ok p => .ok p.unnumbered
  | .error f => .error f.unnumbered

theorem unnumberEnd_includeFile (nested : Reader ρ σ → Text → Outcome) (r : Reader ρ σ) (p : Progress σ)
    (path : Text) :
    unnumberEnd (r.includeFile nested p path) =
      unnumberEnd (r.includeFile nested p.unnumbered path) := by
  have reader : r.forIncluded p.unnumbered.context = r.forIncluded p.context := rfl
  have allow : p.unnumbered.context.includesOverride = p.context.includesOverride := rfl
  simp only [includeFile, reader, allow, Progress.store_unnumbered]
  split
  · simp [unnumberEnd, Failure.unnumbered, ReadError.unnumbered, Progress.unnumbered,
      Location.unnumbered, Context.atLine]
  · split
    · simp [unnumberEnd, Progress.unnumbered, Context.atLine]
    · simp [unnumberEnd, failAt, Failure.unnumbered, ReadError.unnumbered, Progress.unnumbered,
        Location.unnumbered, Context.atLine]

theorem unnumberStep_direct (p : Progress σ) (text : Text) :
    unnumberStep (r.direct nested world p text) =
      unnumberStep (r.direct nested world p.unnumbered text) := by
  have applied := Directive.unnumber_applyText world p text
  unfold direct
  cases hp : Directive.applyText world p text with
  | mk p₁ effect =>
    cases hq : Directive.applyText world p.unnumbered text with
    | mk q₁ effect' =>
      rw [hp, hq] at applied
      obtain ⟨h, rfl⟩ : p₁.unnumbered = q₁.unnumbered ∧ effect = effect' := Prod.mk.inj applied
      cases effect with
      | error fault => exact congrArg Except.error (unnumbered_failAt h fault)
      | ok effect =>
        cases effect with
        | next => simp [unnumberStep, h]
        | stop => simp [unnumberStep, h]
        | includeFile path =>
          have taken := unnumberEnd_includeFile nested r p₁ path
          rw [h, ← unnumberEnd_includeFile] at taken
          dsimp only
          cases h₁ : r.includeFile nested p₁ path with
          | error f =>
            cases h₂ : r.includeFile nested q₁ path with
            | error g => simpa [h₁, h₂, unnumberEnd, unnumberStep, Except.map] using taken
            | ok q => simp [h₁, h₂, unnumberEnd] at taken
          | ok p =>
            cases h₂ : r.includeFile nested q₁ path with
            | error g => simp [h₁, h₂, unnumberEnd] at taken
            | ok q => simpa [h₁, h₂, unnumberEnd, unnumberStep, Except.map] using taken

theorem unnumberStep_settle {a b : Progress σ × Option Fault} (h : unnumber a = unnumber b) :
    unnumberStep (settle a) = unnumberStep (settle b) := by
  obtain ⟨p, fault⟩ := a
  obtain ⟨q, fault'⟩ := b
  obtain ⟨same, rfl⟩ : p.unnumbered = q.unnumbered ∧ fault = fault' := Prod.mk.inj h
  cases fault with
  | none => simp [settle, unnumberStep, same]
  | some fault => exact congrArg Except.error (unnumbered_failAt same fault)

theorem unnumberStep_step (nested : Reader ρ σ → Text → Outcome) (world : World) (r : Reader ρ σ)
    {p q : Progress σ} (line line' : Line) (h : p.unnumbered = q.unnumbered)
    (text : line.text = line'.text) :
    unnumberStep (r.step nested world p line) = unnumberStep (r.step nested world q line') := by
  have start : (p.atLine line).unnumbered = (q.atLine line').unnumbered := by simpa using h
  rw [step_eq, step_eq, text]
  split
  · simp [unnumberStep, h]
  · rw [unnumberStep_direct, start, ← unnumberStep_direct]
  · refine unnumberStep_settle ?_
    rw [unnumber_declare, start, ← unnumber_declare]

def bareLine (t : Text) : Line := ⟨t, 0, 0⟩

/-- The lines do the same without their numbers, and without the comments among them. -/
theorem unnumberEnd_steps (nested : Reader ρ σ → Text → Outcome) (world : World) (r : Reader ρ σ)
    {p q : Progress σ} (h : p.unnumbered = q.unnumbered) (broken : Bool)
    (lines : List Line) :
    unnumberEnd (r.steps nested world broken p lines) =
      unnumberEnd (r.steps nested world broken q
        (((lines.map Line.text).filter fun l => Role.ofText l ≠ .comment).map bareLine)) := by
  induction lines generalizing p q with
  | nil =>
    obtain ⟨hc, -, hws⟩ := Progress.mk.inj h
    have name : inputName p.context = inputName q.context :=
      congrArg (fun c => c.location.file.getD (Text.ofString "<input>")) hc
    cases broken <;> simp [steps, unnumberEnd, Failure.unnumbered, ReadError.unnumbered, h, name, hws]
  | cons line rest ih =>
    by_cases role : Role.ofText line.text = .comment
    · have stepped : r.step nested world p line = .ok (p.atLine line, false) := by
        rw [step_eq, role]
      rw [steps, stepped]
      simpa [role] using ih (p := p.atLine line) (by simpa using h)
    · have stepped := unnumberStep_step nested world r line (bareLine line.text) h rfl
      simp only [List.map_cons, ne_eq, role, not_false_eq_true, decide_true, List.filter_cons_of_pos, steps]
      revert stepped
      cases r.step nested world p line with
      | error f =>
        cases r.step nested world q (bareLine line.text) with
        | error g => simp [unnumberStep, unnumberEnd]
        | ok a => simp [unnumberStep]
      | ok a =>
        cases r.step nested world q (bareLine line.text) with
        | error g => simp [unnumberStep]
        | ok b =>
          obtain ⟨p', stop⟩ := a
          obtain ⟨q', stop'⟩ := b
          intro stepped
          obtain ⟨h', rfl⟩ : p'.unnumbered = q'.unnumbered ∧ stop = stop' := by
            simpa [unnumberStep] using stepped
          cases stop with
          | true => simp [unnumberEnd, h']
          | false => simpa using ih h'

/-- Lines are passed with their numbers, and with the comments among them, if they are without. -/
theorem Passes.numbered {p p' q : Progress σ} {lines : List Line} (h : p.unnumbered = p'.unnumbered)
    (passed : r.Passes nested world p
      (((lines.map Line.text).filter fun l => Role.ofText l ≠ .comment).map bareLine) q) :
    ∃ q', r.Passes nested world p' lines q' ∧ q.unnumbered = q'.unnumbered := by
  induction lines generalizing p p' with
  | nil =>
    cases passed
    exact ⟨p', .none p', h⟩
  | cons line rest ih =>
    by_cases role : Role.ofText line.text = .comment
    · have stepped : r.step nested world p' line = .ok (p'.atLine line, false) := by rw [step_eq, role]
      have here : p.unnumbered = (p'.atLine line).unnumbered := by simpa using h
      obtain ⟨q', passed, same⟩ := ih here (by simpa [role] using passed)
      exact ⟨q', .next stepped passed, same⟩
    · rw [List.map_cons, List.filter_cons_of_pos (by simpa using role), List.map_cons] at passed
      cases passed with
      | next stepped passed =>
        have same := unnumberStep_step nested world r (bareLine line.text) line h rfl
        rw [stepped] at same
        cases stepped' : r.step nested world p' line with
        | error failure => simp [stepped', unnumberStep] at same
        | ok reached =>
          obtain ⟨p₁, stop⟩ := reached
          obtain ⟨h₁, rfl⟩ : _ ∧ false = stop := by simpa [stepped', unnumberStep] using same
          obtain ⟨q', passed, same⟩ := ih h₁ passed
          exact ⟨q', .next stepped' passed, same⟩

theorem unnumberEnd_finish {p q : Progress σ} (h : p.unnumbered = q.unnumbered) :
    unnumberEnd (finish p) = unnumberEnd (finish q) := by
  have blocks : (p.context.atLine 0).blocks = (q.context.atLine 0).blocks := by
    rw [(Progress.mk.inj h).1]
  change p.context.blocks = q.context.blocks at blocks
  unfold finish
  rw [blocks]
  split
  · exact congrArg Except.error (unnumbered_failAt h _)
  · exact congrArg Except.ok h

def outcome : Except Failure (Progress σ) → Outcome
  | .error failure => ⟨failure.warnings, .error failure.error⟩
  | .ok p => ⟨p.warnings, .ok (p.store, p.context.topic)⟩

theorem unnumbered_outcome {a b : Except Failure (Progress σ)} (h : unnumberEnd a = unnumberEnd b) :
    (outcome a).unnumbered = (outcome b).unnumbered := by
  cases a <;> cases b <;> simp only [unnumberEnd, Except.ok.injEq, Except.error.injEq,
    reduceCtorEq] at h
  next f g =>
    obtain ⟨he, hw⟩ := Failure.mk.inj h
    simp [outcome, Outcome.unnumbered, Except.mapError, he, hw]
  next p q =>
    obtain ⟨hc, hs, hw⟩ := Progress.mk.inj h
    have topic : (p.context.atLine 0).topic = (q.context.atLine 0).topic := by rw [hc]
    change p.context.topic = q.context.topic at topic
    simp [outcome, Outcome.unnumbered, Except.mapError, hs, hw, topic]

theorem run_eq (file : Option Text) (destination : Store) (bytes : Bytes) :
    r.run nested world file destination bytes =
      outcome ((r.steps nested world (Lines.ofBytes bytes).broken (r.begin file destination)
        (Lines.ofBytes bytes).complete).bind finish) := by
  unfold run
  dsimp only
  split
  next f stepped =>
    rw [stepped]
    rfl
  next p stepped =>
    rw [stepped, Except.bind]
    split
    next f finished => rw [finished, outcome]
    next q finished => rw [finished, outcome]

/-- A text is read as its logical lines are that are no comments, up to line numbers. -/
theorem unnumbered_run (nested : Reader ρ σ → Text → Outcome) (world : World) (r : Reader ρ σ)
    (file : Option Text) (destination : Store) (t : Text) :
    (r.run nested world file destination (Text.encode t)).unnumbered =
      (outcome ((r.steps nested world false (r.begin file destination)
        ((Lines.significant t).map bareLine)).bind finish)).unnumbered := by
  obtain ⟨texts, whole⟩ := Lines.texts_ofBytes_encode t
  have stepped := unnumberEnd_steps nested world r
    (rfl : (r.begin file destination).unnumbered = _) false
    (Lines.ofBytes (Text.encode t)).complete
  rw [texts, ← Lines.significant] at stepped
  rw [run_eq, whole]
  refine unnumbered_outcome ?_
  revert stepped
  cases r.steps nested world false (r.begin file destination)
      (Lines.ofBytes (Text.encode t)).complete <;>
    cases r.steps nested world false (r.begin file destination)
      ((Lines.significant t).map bareLine) <;> intro stepped
  · exact stepped
  · cases stepped
  · cases stepped
  · exact unnumberEnd_finish (Except.ok.inj stepped)

@[simp] theorem result_unnumbered_eq_ok {o : Outcome} {read : Store × Option Text} :
    o.unnumbered.result = .ok read ↔ o.result = .ok read := by
  cases h : o.result <;> simp [Outcome.unnumbered, h, Except.mapError]

/-- A text is accepted if its logical lines lead to the end, less the comments, and leave no block open. -/
theorem result_encode_eq_ok {file : Option Text} {destination store : Store} {topic : Option Text}
    {t : Text} :
    (r.run nested world file destination (Text.encode t)).result = .ok (store, topic) ↔
      ∃ q, r.steps nested world false (r.begin file destination)
          ((Lines.significant t).map bareLine) = .ok q ∧
        q.context.blocks.rules = [] ∧ q.store = store ∧ q.context.topic = topic := by
  rw [← result_unnumbered_eq_ok, unnumbered_run, result_unnumbered_eq_ok]
  cases r.steps nested world false (r.begin file destination) ((Lines.significant t).map bareLine) with
  | error failure => simp [Except.bind, outcome]
  | ok q =>
    unfold Except.bind finish Blocks.innermost
    cases closed : q.context.blocks.rules <;> simp [outcome, closed]

/-- Texts whose lines lead to the same are read alike, if the first is accepted. -/
theorem run_encode_congr {file : Option Text} {destination store : Store} {topic : Option Text}
    {t t' : Text}
    (same : ∀ q, r.steps nested world false (r.begin file destination)
        ((Lines.significant t).map bareLine) = .ok q →
      r.steps nested world false (r.begin file destination)
        ((Lines.significant t').map bareLine) = .ok q)
    (done : (r.run nested world file destination (Text.encode t)).result = .ok (store, topic)) :
    (r.run nested world file destination (Text.encode t')).result = .ok (store, topic) ∧
      (r.run nested world file destination (Text.encode t')).warnings.map Warning.unnumbered =
        (r.run nested world file destination (Text.encode t)).warnings.map Warning.unnumbered := by
  obtain ⟨q, stepped, -⟩ := result_encode_eq_ok.mp done
  have alike : (r.run nested world file destination (Text.encode t')).unnumbered =
      (r.run nested world file destination (Text.encode t)).unnumbered := by
    rw [unnumbered_run, unnumbered_run, stepped, same q stepped]
  refine ⟨?_, congrArg Outcome.warnings alike⟩
  rw [← result_unnumbered_eq_ok, alike, result_unnumbered_eq_ok]
  exact done

/-- The layout of a text in physical lines does not matter: after any number of edits of it, a read
succeeds with the same store and topic or fails with the same error, and with the same warnings, up
to line numbers. -/
theorem layout_does_not_matter (nested : Reader ρ σ → Text → Outcome) (world : World) (r : Reader ρ σ)
    (file : Option Text) (destination : Store) {t t' : Text}
    (edits : Relation.ReflTransGen Text.Relaid t t') :
    let before := r.run nested world file destination (Text.encode t)
    let after := r.run nested world file destination (Text.encode t')
    ((∃ store topic, before.result = .ok (store, topic) ∧ after.result = .ok (store, topic)) ∨
      ∃ error error', before.result = .error error ∧ after.result = .error error' ∧
        error'.unnumbered = error.unnumbered) ∧
    after.warnings.map Warning.unnumbered = before.warnings.map Warning.unnumbered := by
  intro before after
  have same : after.unnumbered = before.unnumbered := by
    have lines := Lines.significant_of_edits edits
    rw [unnumbered_run, unnumbered_run, lines]
  obtain ⟨warnings, result⟩ := Outcome.mk.inj same
  refine ⟨?_, warnings⟩
  cases old : before.result with
  | ok read =>
    cases new : after.result with
    | ok read' =>
      rw [old, new] at result
      obtain rfl : read' = read := by simpa [Except.mapError] using result
      exact .inl ⟨read'.1, read'.2, rfl, rfl⟩
    | error error => simp [old, new, Except.mapError] at result
  | error error =>
    cases new : after.result with
    | ok read' => simp [old, new, Except.mapError] at result
    | error error' =>
      rw [old, new] at result
      exact .inr ⟨error, error', rfl, rfl, by simpa [Except.mapError] using result⟩

/-- A declaration that is continued within its type, gets a carriage return and a comment. -/
theorem layout_does_not_matter_to_a_declaration :
    let t := Text.ofString "a : integer = 1\n"
    let t' := Text.ofString "# one\na : inte\\\nger = 1\r\n"
    Relation.ReflTransGen Text.Relaid t t' ∧
      ∃ store topic, (Reader.standard.read World.empty (Text.encode t)).result = .ok (store, topic) ∧
        (Reader.standard.read World.empty (Text.encode t')).result = .ok (store, topic) := by
  intro t t'
  have idle : Text.IsIdle (Text.ofString "# one") :=
    .inr ⟨⟨Text.ofString " one", by decide, by decide⟩, by decide⟩
  have edits : Relation.ReflTransGen Text.Relaid t t' :=
    ((Relation.ReflTransGen.single (.broken (s := Text.ofString "a : inte")
      (t := Text.ofString "ger = 1\n") (by decide) fun marked => absurd marked (by decide))).tail
      (.returned (s := Text.ofString "a : inte\\\nger = 1") (t := []) (by decide))).tail
      (.idle (s := []) (.inl rfl) (by decide) idle)
  refine ⟨edits, ?_⟩
  obtain ⟨read | ⟨error, -, failed, -⟩, -⟩ := layout_does_not_matter
    (fun r path => runFile World.empty World.empty.nestingBound r .empty path)
    World.empty Reader.standard none .empty edits
  · exact read
  · exact absurd (failed.symm.trans (by decide +kernel : _ = Except.ok
      (Store.empty.insert ['a'] ⟨.integer [1], .scalar, false, []⟩, none))) (by simp)

end Reader
end TypedProperties
