import Mathlib.Tactic.SplitIfs
import TypedProperties.Reading.Run

/-! What directives do that are not refused, each with what it requires. -/
namespace TypedProperties

variable {σ : Type} [Searches σ]
namespace Progress

@[simp] theorem store_warn (p : Progress σ) (w : Warning) : (p.warn w).store = p.store := rfl

@[simp] theorem context_warn (p : Progress σ) (w : Warning) : (p.warn w).context = p.context := rfl

@[simp] theorem warnings_warn (p : Progress σ) (w : Warning) :
    (p.warn w).warnings = p.warnings ++ [w] := rfl

@[simp] theorem store_setContext (p : Progress σ) (c : Context σ) : (p.setContext c).store = p.store :=
  rfl

@[simp] theorem context_setContext (p : Progress σ) (c : Context σ) : (p.setContext c).context = c :=
  rfl

@[simp] theorem warnings_setContext (p : Progress σ) (c : Context σ) :
    (p.setContext c).warnings = p.warnings := rfl

def atLine (p : Progress σ) (line : Line) : Progress σ := p.setContext (p.context.atLine line.last)

@[simp] theorem store_atLine (p : Progress σ) (line : Line) : (p.atLine line).store = p.store := rfl

@[simp] theorem description_atLine (p : Progress σ) (line : Line) :
    (p.atLine line).context.description = p.context.description := rfl

@[simp] theorem blocks_atLine (p : Progress σ) (line : Line) :
    (p.atLine line).context.blocks = p.context.blocks := rfl

end Progress

namespace Directive

/-- The progress behind a directive that is not refused, and what the reader does next. -/
inductive Does (world : World) (p : Progress σ) : Directive → Progress σ → Effect → Prop
  | stop (idle : p.context.propertyPending = false) : Does world p .stop p .stop
  | emptyTopic (early : p.context.started = false) :
    Does world p (.topic []) (p.warn (.emptyTopic p.context.line)) .next
  | secondTopic {topic seen : Text} (early : p.context.started = false) (some : topic ≠ [])
      (set : p.context.topic = Option.some seen) :
    Does world p (.topic topic) (p.warn (.topicAlreadySet p.context.line seen topic)) .next
  | topic {topic : Text} (early : p.context.started = false) (some : topic ≠ [])
      (unset : p.context.topic = none) (expected : ∀ t ∈ p.context.expectedTopic, t = topic) :
    Does world p (.topic topic) (p.setContext { p.context with topic := Option.some topic }) .next
  | config {text : Text} (early : p.context.started = false) (unset : p.context.configSeen = false) :
    Does world p (.config text) { p with
      context := { p.context with configSeen := true },
      store := { p.store with description := text } } .next
  | secondConfig {text : Text} (early : p.context.started = false) (set : p.context.configSeen = true) :
    Does world p (.config text) (p.warn (.descriptionAlreadySet p.context.line)) .next
  | noDescription (early : p.context.started = false) : Does world p (.description []) p .next
  | description {text : Text} (some : text ≠ []) :
    Does world p (.description text)
      (p.setContext { p.context with description := Option.some text, started := true }) .next
  | allowKeyOverride (allow : Bool) :
    Does world p (.allowKeyOverride allow) (p.setContext { p.context with
      allowKeyOverride := allow, includesOverride := allow && p.context.includesOverride }) .next
  | forbidKeyOverride (forbid : Bool) :
    Does world p (.forbidKeyOverride forbid) (p.setContext { p.context with
      allowKeyOverride := !forbid, includesOverride := !forbid && p.context.includesOverride }) .next
  | enableVariants (allowed : p.context.variantsForbidden = false) :
    Does world p .enableVariants (p.setContext { p.context with variantsEnabled := true }) .next
  | disableVariants :
    Does world p .disableVariants (p.setContext { p.context with variantsEnabled := false }) .next
  | variantIf {rule : Text} (allowed : p.context.variantsForbidden = false)
      (enabled : p.context.variantsEnabled = true) :
    Does world p (.variantIf rule) (p.setContext { p.context with
      blocks := p.context.blocks.enter rule, started := true }) .next
  | variantOnly {rule : Text} (allowed : p.context.variantsForbidden = false)
      (enabled : p.context.variantsEnabled = true) :
    Does world p (.variantOnly rule) (p.setContext { p.context with
      blocks := p.context.blocks.setGuard rule, started := true }) .next
  | variantEndif {name : Option Text} {blocks : Blocks} (allowed : p.context.variantsForbidden = false)
      (enabled : p.context.variantsEnabled = true) (left : p.context.blocks.leave name = .ok blocks) :
    Does world p (.variantEndif name) (p.setContext { p.context with blocks }) .next
  | variantDevel {on : Bool} (allowed : p.context.variantsForbidden = false) :
    Does world p (.variantDevel on) (p.setContext { p.context with variantDevel := on }) .next
  | variantRemoveQuotes {on : Bool} (allowed : p.context.variantsForbidden = false) :
    Does world p (.variantRemoveQuotes on) (p.setContext { p.context with removeQuotes := on }) .next
  | realWithUnit (on : Bool) :
    Does world p (.realWithUnit on) (p.setContext { p.context with realWithUnit := on }) .next
  | includeFile {path found : Text} {optional : Bool} (enabled : p.context.inclusion = true)
      (resolved : Searches.resolve world p.context.search path = .ok found) :
    Does world p (.includeFile path optional) (p.setContext p.context.start) (.includeFile found)
  | includeSkipped {path : Text} {fault : IncludeFault} (enabled : p.context.inclusion = true)
      (missing : Searches.resolve world p.context.search path = .error fault) :
    Does world p (.includeFile path true)
      ((p.setContext p.context.start).warn (.includeSkipped p.context.line path fault)) .next
  | fixedDirectory {dir : Text} (fixed : p.context.searchFixed = true) :
    Does world p (.includeDirectory dir) p .next
  | includeDirectory {dir : Text} {search : σ} (unfixed : p.context.searchFixed = false)
      (enabled : p.context.inclusion = true) (early : p.context.started = false)
      (added : Searches.addDirectory world p.context.search dir = .ok search) :
    Does world p (.includeDirectory dir) (p.setContext { p.context with search }) .next
  | fixedPathVariable {name : Text} (fixed : p.context.searchFixed = true) :
    Does world p (.includePathVariable name) p .next
  | includePathVariable {name : Text} {search : σ} (unfixed : p.context.searchFixed = false)
      (enabled : p.context.inclusion = true) (early : p.context.started = false)
      (set : Searches.setPathVariable p.context.search name = .ok search) :
    Does world p (.includePathVariable name) (p.setContext { p.context with search }) .next
  | includeNoPropagate (early : p.context.started = false) :
    Does world p .includeNoPropagate (p.setContext { p.context with propagate := false }) .next
  | includeDebug :
    Does world p .includeDebug (p.setContext { p.context with
      includeDebug := true, search := Searches.setDebug p.context.search true }) .next
  | forbidInclude :
    Does world p .forbidInclude (p.setContext { p.context with inclusion := false }) .next
  | verboseParsing (on : Bool) :
    Does world p (.verboseParsing on) (p.setContext { p.context with verbose := on }) .next

variable {world : World} {p q : Progress σ} {e : Effect}

theorem refuse_ne_ok {fault : Fault} : refuse p fault ≠ (q, .ok e) := nofun

theorem done_eq_ok {p : Progress σ} : done p = (q, .ok e) ↔ p = q ∧ Effect.next = e := by
  simp [done]

theorem change_eq_ok {c : Context σ} : change p c = (q, .ok e) ↔ p.setContext c = q ∧ Effect.next = e :=
  done_eq_ok

theorem beforeFirst_eq_ok {name : String} {go : Applied σ} :
    beforeFirst p name go = (q, .ok e) ↔ p.context.started = false ∧ go = (q, .ok e) := by
  unfold beforeFirst
  cases p.context.started <;> simp [refuse_ne_ok]

theorem inclusionEnabled_eq_ok {name : String} {go : Applied σ} :
    inclusionEnabled p name go = (q, .ok e) ↔ p.context.inclusion = true ∧ go = (q, .ok e) := by
  unfold inclusionEnabled
  cases p.context.inclusion <;> simp [refuse_ne_ok]

theorem does_applyTopic {topic : Text} (early : p.context.started = false)
    (applied : applyTopic p topic = (q, .ok e)) : Does world p (.topic topic) q e := by
  unfold applyTopic at applied
  dsimp only at applied
  split_ifs at applied with empty
  · obtain ⟨rfl, rfl⟩ := done_eq_ok.mp applied
    subst empty
    exact .emptyTopic early
  · split at applied
    next seen set =>
      obtain ⟨rfl, rfl⟩ := done_eq_ok.mp applied
      exact .secondTopic early empty set
    next expected unset given =>
      split_ifs at applied with same
      · obtain ⟨rfl, rfl⟩ := change_eq_ok.mp applied
        exact .topic early empty unset (by simp [given, same])
      · exact absurd applied refuse_ne_ok
    next unset given =>
      obtain ⟨rfl, rfl⟩ := change_eq_ok.mp applied
      exact .topic early empty unset (by simp [given])

theorem does_applyConfig {text : Text} (early : p.context.started = false)
    (applied : applyConfig p text = (q, .ok e)) : Does world p (.config text) q e := by
  unfold applyConfig at applied
  dsimp only at applied
  split_ifs at applied with seen
  · obtain ⟨rfl, rfl⟩ := done_eq_ok.mp applied
    exact .secondConfig early seen
  · obtain ⟨rfl, rfl⟩ := done_eq_ok.mp applied
    exact .config early (by simpa using seen)

theorem does_applyDescription {text : Text} (applied : applyDescription p text = (q, .ok e)) :
    Does world p (.description text) q e := by
  unfold applyDescription at applied
  dsimp only at applied
  split_ifs at applied with empty started
  · exact absurd applied refuse_ne_ok
  · obtain ⟨rfl, rfl⟩ := done_eq_ok.mp applied
    subst empty
    exact .noDescription (by simpa using started)
  · obtain ⟨rfl, rfl⟩ := change_eq_ok.mp applied
    exact .description empty

theorem does_applyInclude {path : Text} {optional : Bool}
    (applied : applyInclude world p path optional = (q, .ok e)) :
    Does world p (.includeFile path optional) q e := by
  unfold applyInclude at applied
  obtain ⟨enabled, applied⟩ := inclusionEnabled_eq_ok.mp applied
  dsimp only at applied
  split at applied
  next found resolved =>
    obtain ⟨rfl, rfl⟩ : _ = q ∧ Effect.includeFile found = e := by simpa using applied
    exact .includeFile enabled resolved
  next fault missing =>
    split_ifs at applied with skipped
    · obtain ⟨rfl, rfl⟩ := done_eq_ok.mp applied
      subst skipped
      exact .includeSkipped enabled missing
    · exact absurd applied refuse_ne_ok

theorem applySearch_eq_ok {name : String} {search : Except IncludeFault σ}
    {fault : IncludeFault → Fault} (applied : applySearch p name search fault = (q, .ok e)) :
    e = .next ∧ ((p.context.searchFixed = true ∧ q = p) ∨
      (p.context.searchFixed = false ∧ p.context.inclusion = true ∧ p.context.started = false ∧
        ∃ changed, search = .ok changed ∧ q = p.setContext { p.context with search := changed })) := by
  unfold applySearch at applied
  split_ifs at applied with fixed
  · obtain ⟨rfl, rfl⟩ := done_eq_ok.mp applied
    exact ⟨rfl, .inl ⟨fixed, rfl⟩⟩
  · obtain ⟨enabled, applied⟩ := inclusionEnabled_eq_ok.mp applied
    obtain ⟨early, applied⟩ := beforeFirst_eq_ok.mp applied
    cases search with
    | error fault => exact absurd applied refuse_ne_ok
    | ok changed =>
      obtain ⟨rfl, rfl⟩ := change_eq_ok.mp applied
      exact ⟨rfl, .inr ⟨by simpa using fixed, enabled, early, changed, rfl, rfl⟩⟩

/-- Directives about blocks and guards, of which this is one, are refused unless variants are enabled. -/
theorem enabled_of_unrefused {c : Context σ} (unrefused : variantFault c (.variantEndif none) = none) :
    c.variantsForbidden = false ∧ c.variantsEnabled = true := by
  revert unrefused
  unfold variantFault
  cases c.variantsForbidden <;> cases c.variantsEnabled <;> simp

theorem allowed_of_unrefused {c : Context σ} (unrefused : variantFault c (.variantDevel true) = none) :
    c.variantsForbidden = false := by
  revert unrefused
  unfold variantFault
  cases c.variantsForbidden <;> simp

theorem does_of_apply {directive : Directive} (applied : apply world p directive = (q, .ok e)) :
    Does world p directive q e := by
  unfold apply at applied
  dsimp only at applied
  split at applied
  next => exact absurd applied refuse_ne_ok
  next unrefused =>
    cases directive with
    | stop =>
      dsimp only at applied
      split_ifs at applied with pending
      · exact absurd applied refuse_ne_ok
      · obtain ⟨rfl, rfl⟩ : p = q ∧ Effect.stop = e := by simpa using applied
        exact .stop (by simpa using pending)
    | topic text =>
      obtain ⟨early, applied⟩ := beforeFirst_eq_ok.mp applied
      exact does_applyTopic early applied
    | config text =>
      obtain ⟨early, applied⟩ := beforeFirst_eq_ok.mp applied
      exact does_applyConfig early applied
    | description text => exact does_applyDescription applied
    | allowKeyOverride allow =>
      obtain ⟨rfl, rfl⟩ := change_eq_ok.mp applied
      exact .allowKeyOverride allow
    | forbidKeyOverride forbid =>
      obtain ⟨rfl, rfl⟩ := change_eq_ok.mp applied
      exact .forbidKeyOverride forbid
    | enableVariants =>
      dsimp only at applied
      split_ifs at applied with forbidden
      · exact absurd applied refuse_ne_ok
      · obtain ⟨rfl, rfl⟩ := change_eq_ok.mp applied
        exact .enableVariants (by simpa using forbidden)
    | disableVariants =>
      obtain ⟨rfl, rfl⟩ := change_eq_ok.mp applied
      exact .disableVariants
    | variantIf rule =>
      obtain ⟨allowed, enabled⟩ := enabled_of_unrefused unrefused
      obtain ⟨rfl, rfl⟩ := change_eq_ok.mp applied
      exact .variantIf allowed enabled
    | variantOnly rule =>
      obtain ⟨allowed, enabled⟩ := enabled_of_unrefused unrefused
      obtain ⟨rfl, rfl⟩ := change_eq_ok.mp applied
      exact .variantOnly allowed enabled
    | variantEndif name =>
      obtain ⟨allowed, enabled⟩ := enabled_of_unrefused unrefused
      dsimp only [applyEndif] at applied
      split at applied
      next left =>
        obtain ⟨rfl, rfl⟩ := change_eq_ok.mp applied
        exact .variantEndif allowed enabled left
      next => exact absurd applied refuse_ne_ok
    | variantDevel on =>
      have allowed := allowed_of_unrefused unrefused
      obtain ⟨rfl, rfl⟩ := change_eq_ok.mp applied
      exact .variantDevel allowed
    | variantRemoveQuotes on =>
      have allowed := allowed_of_unrefused unrefused
      obtain ⟨rfl, rfl⟩ := change_eq_ok.mp applied
      exact .variantRemoveQuotes allowed
    | realWithUnit on =>
      obtain ⟨rfl, rfl⟩ := change_eq_ok.mp applied
      exact .realWithUnit on
    | includeFile path optional => exact does_applyInclude applied
    | includeDirectory dir =>
      obtain ⟨rfl, ⟨fixed, rfl⟩ | ⟨unfixed, enabled, early, search, added, rfl⟩⟩ := applySearch_eq_ok applied
      · exact .fixedDirectory fixed
      · exact .includeDirectory unfixed enabled early added
    | includePathVariable name =>
      obtain ⟨rfl, ⟨fixed, rfl⟩ | ⟨unfixed, enabled, early, search, set, rfl⟩⟩ := applySearch_eq_ok applied
      · exact .fixedPathVariable fixed
      · exact .includePathVariable unfixed enabled early set
    | includeNoPropagate =>
      obtain ⟨early, applied⟩ := beforeFirst_eq_ok.mp applied
      obtain ⟨rfl, rfl⟩ := change_eq_ok.mp applied
      exact .includeNoPropagate early
    | includeDebug =>
      obtain ⟨rfl, rfl⟩ := change_eq_ok.mp applied
      exact .includeDebug
    | forbidInclude =>
      obtain ⟨rfl, rfl⟩ := change_eq_ok.mp applied
      exact .forbidInclude
    | verboseParsing on =>
      obtain ⟨rfl, rfl⟩ := change_eq_ok.mp applied
      exact .verboseParsing on

theorem Does.apply_eq {directive : Directive} (does : Does world p directive q e) :
    apply world p directive = (q, .ok e) := by
  cases does with
  | topic early some unset expected =>
    cases given : p.context.expectedTopic with
    | none => simp [apply, variantFault, beforeFirst, early, applyTopic, some, unset, given, change, done]
    | some t =>
      obtain rfl := expected t given
      simp [apply, variantFault, beforeFirst, early, applyTopic, some, unset, given, change, done]
  | _ => simp_all [apply, variantFault, beforeFirst, inclusionEnabled, applyTopic, applyConfig, applyDescription,
      applyOverride, applyEndif, applyInclude, applySearch, change, done, Context.start, Context.line]

theorem apply_eq_ok {directive : Directive} :
    apply world p directive = (q, .ok e) ↔ Does world p directive q e :=
  ⟨does_of_apply, Does.apply_eq⟩

theorem applyText_eq_ok {text : Text} :
    applyText world p text = (q, .ok e) ↔ ∃ directive, ofText text = .ok directive ∧
      Does world p directive q e := by
  unfold applyText
  cases read : ofText text with
  | error fault => simp [refuse]
  | ok directive => simp [apply_eq_ok]

theorem Does.entries {directive : Directive} (does : Does world p directive q e) :
    q.store.entries = p.store.entries := by
  cases does <;> rfl

theorem Does.description_store {directive : Directive} (does : Does world p directive q e) :
    q.store.description = p.store.description ∨ directive = .config q.store.description := by
  cases does with
  | config => exact .inr rfl
  | _ => exact .inl rfl

/-- The description that a directive gives to the next declaration. -/
def described? : Directive → Option Text
  | .description text => if text = [] then none else some text
  | _ => none

def guard? : Directive → Option Text
  | .variantOnly rule => some rule
  | _ => none

theorem Does.description_context {directive : Directive} (does : Does world p directive q e) :
    q.context.description = directive.described?.or p.context.description := by
  cases does with
  | description some => simp [described?, some]
  | _ => rfl

theorem Does.guard {directive : Directive} (does : Does world p directive q e) :
    q.context.blocks.guard = directive.guard?.or p.context.blocks.guard := by
  cases does with
  | variantEndif _ _ left =>
    unfold Blocks.leave at left
    split at left
    · cases left
    · split at left
      · obtain rfl := Except.ok.inj left
        rfl
      · split_ifs at left
        obtain rfl := Except.ok.inj left
        rfl
  | _ => rfl

/-- A directive that asks for a file has found it, and changes nothing but that reading has begun. -/
theorem Does.includeFile_eq {directive : Directive} {found : Text}
    (does : Does world p directive q (.includeFile found)) :
    ∃ path optional, directive = .includeFile path optional ∧ p.context.inclusion = true ∧
      Searches.resolve world p.context.search path = .ok found ∧ q = p.setContext p.context.start := by
  cases does with
  | includeFile enabled resolved => exact ⟨_, _, rfl, enabled, resolved, rfl⟩

theorem applyText_eq_includeFile {text found : Text}
    (applied : applyText world p text = (q, .ok (.includeFile found))) :
    ∃ path optional, ofText text = .ok (.includeFile path optional) ∧
      p.context.inclusion = true ∧ Searches.resolve world p.context.search path = .ok found ∧
      q = p.setContext p.context.start := by
  obtain ⟨directive, read, does⟩ := applyText_eq_ok.mp applied
  obtain ⟨path, optional, rfl, rest⟩ := does.includeFile_eq
  exact ⟨path, optional, read, rest⟩

end Directive

namespace Line

def directive? (line : Line) : Option Directive :=
  match Role.ofText line.text with
  | .directive text => (Directive.ofText text).toOption
  | _ => none

def isDeclaration (line : Line) : Bool :=
  match Role.ofText line.text with
  | .declaration _ => true
  | _ => false

variable {line : Line} {text : Text}

theorem directive?_of_comment (role : Role.ofText line.text = .comment) : line.directive? = none := by
  simp [directive?, role]

theorem directive?_of_declaration (role : Role.ofText line.text = .declaration text) :
    line.directive? = none := by
  simp [directive?, role]

theorem isDeclaration_of_comment (role : Role.ofText line.text = .comment) : line.isDeclaration = false := by
  simp [isDeclaration, role]

theorem isDeclaration_of_directive (role : Role.ofText line.text = .directive text) :
    line.isDeclaration = false := by
  simp [isDeclaration, role]

theorem isDeclaration_of_declaration (role : Role.ofText line.text = .declaration text) :
    line.isDeclaration = true := by
  simp [isDeclaration, role]

theorem directive?_of_directive {directive : Directive} (role : Role.ofText line.text = .directive text)
    (read : Directive.ofText text = .ok directive) : line.directive? = some directive := by
  simp [directive?, role, read, Except.toOption]

theorem directive?_eq_some {directive : Directive} : line.directive? = some directive ↔
    ∃ text, Role.ofText line.text = .directive text ∧ Directive.ofText text = .ok directive := by
  constructor
  · intro h
    unfold directive? at h
    split at h
    next text role =>
      refine ⟨text, role, ?_⟩
      cases read : Directive.ofText text with
      | error fault => simp [read, Except.toOption] at h
      | ok given => simpa [read, Except.toOption] using h
    next => cases h
  · rintro ⟨text, role, read⟩
    exact directive?_of_directive role read

end Line
end TypedProperties
