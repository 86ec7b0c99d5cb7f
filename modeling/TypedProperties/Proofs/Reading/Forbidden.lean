import TypedProperties.Proofs.Reading.Bracketed
import TypedProperties.Proofs.Reading.Unnumbered

/-! What a read must not consult it does not depend on: the world where inclusion is forbidden, and the
variants where these are forbidden. -/
namespace TypedProperties

variable {ρ σ : Type} [Variants ρ] [Searches σ]

namespace Directive

variable {world world' : World} {p q : Progress σ} {e : Effect} {directive : Directive}

theorem Does.excluded (does : Does world p directive q e) (excluded : p.context.inclusion = false) :
    q.context.inclusion = false := by
  cases does with
  | forbidInclude => rfl
  | _ => exact excluded

theorem apply_of_excluded (excluded : p.context.inclusion = false) (directive : Directive) :
    apply world p directive = apply world' p directive := by
  cases directive with
  | includeFile path optional => simp [apply, variantFault, applyInclude, inclusionEnabled, excluded]
  | includeDirectory dir => simp [apply, variantFault, applySearch, inclusionEnabled, excluded]
  | _ => rfl

theorem applyText_of_excluded (excluded : p.context.inclusion = false) (text : Text) :
    applyText world p text = applyText world' p text := by
  unfold applyText
  cases ofText text with
  | error fault => rfl
  | ok directive => exact apply_of_excluded excluded directive

end Directive

namespace Reader

variable {r r' : Reader ρ σ} {p q : Progress σ} {line : Line}

section Lines

variable {nested nested' : Reader ρ σ → Text → Outcome} {world world' : World}

theorem direct_congr {text : Text}
    (same : Directive.applyText world p text = Directive.applyText world' p text)
    (taken : ∀ q path, Directive.applyText world p text = (q, .ok (.includeFile path)) →
      r.includeFile nested q path = r'.includeFile nested' q path) :
    r.direct nested world p text = r'.direct nested' world' p text := by
  rw [direct, direct, ← same]
  cases applied : Directive.applyText world p text with
  | mk q effect =>
    cases effect with
    | error fault => rfl
    | ok effect =>
      cases effect with
      | next => rfl
      | stop => rfl
      | includeFile path => exact congrArg (Except.map fun p => (p, false)) (taken q path applied)

theorem includeFile_congr {path : Text}
    (same : nested (r.forIncluded p.context) path = nested' (r'.forIncluded p.context) path) :
    r.includeFile nested p path = r'.includeFile nested' p path := by
  rw [includeFile, includeFile, same]

theorem steps_congr {broken : Bool} {lines : List Line}
    (same : ∀ before line after q, lines = before ++ line :: after → r.Passes nested world p before q →
      r.step nested world q line = r'.step nested' world' q line) :
    r.steps nested world broken p lines = r'.steps nested' world' broken p lines := by
  induction lines generalizing p with
  | nil => rfl
  | cons line rest ih =>
    have first := same [] line rest p rfl (.none p)
    rw [steps, steps, ← first]
    cases done : r.step nested world p line with
    | error failure => rfl
    | ok reached =>
      obtain ⟨q, stop⟩ := reached
      cases stop with
      | true => rfl
      | false =>
        refine ih fun before line' after q' lines passed => ?_
        exact same (line :: before) line' after q' (by rw [lines]; rfl) (.next done passed)

theorem step_of_excluded (excluded : p.context.inclusion = false) (line : Line) :
    r.step nested world p line = r.step nested' world' p line := by
  rw [step_eq, step_eq]
  cases Role.ofText line.text with
  | comment => rfl
  | declaration text => rfl
  | directive text =>
    refine direct_congr (Directive.applyText_of_excluded (p := p.atLine line) excluded text) fun q path applied => ?_
    obtain ⟨-, -, -, allowed, -⟩ := Directive.applyText_eq_includeFile applied
    have allowed : p.context.inclusion = true := allowed
    rw [excluded] at allowed
    cases allowed

theorem excluded_of_step {stop : Bool} (excluded : p.context.inclusion = false)
    (done : r.step nested world p line = .ok (q, stop)) : q.context.inclusion = false :=
  step_context (P := fun c => c.inclusion = false) excluded (fun does => does.excluded excluded) excluded
    excluded done

theorem excluded_of_forbidInclude {stop : Bool} (forbids : line.directive? = some .forbidInclude)
    (done : r.step nested world p line = .ok (q, stop)) : q.context.inclusion = false := by
  rcases step_directive_cases forbids done with ⟨does, -⟩ | ⟨does, -⟩ | ⟨p₁, path, does, -⟩
  · cases does
    rfl
  · cases does
  · cases does

theorem excluded_of_passes {start : Progress σ} {before : List Line}
    (passed : r.Passes nested world start before p)
    (forbids : ∃ line ∈ before, line.directive? = some .forbidInclude) : p.context.inclusion = false := by
  refine Passes.history (P := fun before p => (∃ line ∈ before, line.directive? = some .forbidInclude) →
    p.context.inclusion = false) (by simp) (fun _ earlier done => ?_) passed forbids
  rintro ⟨line, mem, forbids⟩
  rcases List.mem_append.mp mem with mem | last
  · exact excluded_of_step (earlier ⟨line, mem, forbids⟩) done
  · obtain rfl := List.mem_singleton.mp last
    exact excluded_of_forbidInclude forbids done

end Lines

/-- The lines up to one that stops or fails, each in the world as it is by then. -/
def stepsAmid (nested : World → Reader ρ σ → Text → Outcome) (r : Reader ρ σ) (broken : Bool) :
    Progress σ → List (World × Line) → Except Failure (Progress σ)
  | p, [] => if broken then .error ⟨.access (inputName p.context) .notText, p.warnings⟩ else .ok p
  | p, (world, line) :: rest =>
    match r.step (nested world) world p line with
    | .error failure => .error failure
    | .ok (p, true) => .ok p
    | .ok (p, false) => stepsAmid nested r broken p rest

variable {nested : World → Reader ρ σ → Text → Outcome} {broken : Bool}

theorem stepsAmid_still (world : World) (p : Progress σ) (lines : List Line) :
    r.stepsAmid nested broken p (lines.map (world, ·)) = r.steps (nested world) world broken p lines := by
  induction lines generalizing p with
  | nil => rfl
  | cons line rest ih =>
    rw [List.map_cons, stepsAmid, steps]
    cases r.step (nested world) world p line with
    | error failure => rfl
    | ok done =>
      obtain ⟨q, stop⟩ := done
      cases stop with
      | true => rfl
      | false => exact ih q

/-- Where inclusion is forbidden, the lines do the same however the world changes. -/
theorem stepsAmid_of_excluded (excluded : p.context.inclusion = false) (world : World)
    (lines : List (World × Line)) :
    r.stepsAmid nested broken p lines = r.steps (nested world) world broken p (lines.map Prod.snd) := by
  induction lines generalizing p with
  | nil => rfl
  | cons first rest ih =>
    obtain ⟨changed, line⟩ := first
    have same : r.step (nested changed) changed p line = r.step (nested world) world p line :=
      step_of_excluded excluded line
    rw [List.map_cons, stepsAmid, steps, same]
    cases done : r.step (nested world) world p line with
    | error failure => rfl
    | ok reached =>
      obtain ⟨q, stop⟩ := reached
      cases stop with
      | true => rfl
      | false => exact ih (excluded_of_step excluded done)

/-- Forbidden inclusion leaves no access to files or the environment. A reader that forbids it gives the
same outcome in every world. For any other reader, the world may change from line to line once a
directive has forbidden inclusion, without a change to the outcome. -/
theorem forbidden_inclusion_hides_the_world (r : Reader ρ σ) (destination : Store) (bytes : Bytes) :
    (r.options.forbidInclude = true → ∀ world world',
      r.readInto world destination bytes = r.readInto world' destination bytes) ∧
    ∀ (nested : World → Reader ρ σ → Text → Outcome) (world : World) (file : Option Text) (before : List Line)
      (after : List (World × Line)) (p : Progress σ),
      (Lines.ofBytes bytes).complete = before ++ after.map Prod.snd →
      r.Passes (nested world) world (r.begin file destination) before p →
      (∃ line ∈ before, line.directive? = some .forbidInclude) →
      r.run (nested world) world file destination bytes =
        outcome ((r.stepsAmid nested (Lines.ofBytes bytes).broken p after).bind finish) := by
  refine ⟨fun forbids world world' => ?_, fun nested world file before after p lines passed forbids => ?_⟩
  · have excluded : (r.begin none destination).context.inclusion = false := by
      simp [begin, Context.initial, forbids]
    let nested (world : World) (r : Reader ρ σ) (path : Text) := runFile world world.nestingBound r .empty path
    have still : r.steps (nested world) world (Lines.ofBytes bytes).broken (r.begin none destination)
        (Lines.ofBytes bytes).complete =
          r.steps (nested world') world' (Lines.ofBytes bytes).broken (r.begin none destination)
            (Lines.ofBytes bytes).complete := by
      rw [← stepsAmid_still world, stepsAmid_of_excluded excluded world']
      simp [Function.comp_def]
    rw [readInto, readInto, run_eq, run_eq]
    exact congrArg (fun s => deliver destination (outcome (s.bind finish))) still
  · have excluded := excluded_of_passes passed forbids
    rw [run_eq, lines, steps_of_passes passed, stepsAmid_of_excluded excluded world]

/-- An include, and the file gone behind the directive that forbids further ones. -/
theorem forbidden_inclusion_hides_a_file_that_goes :
    let bytes := Text.encode (Text.ofString "#@include i\n#@forbid_include\nb = 2\n")
    let world : World := ⟨⟨[([['i']], .file (Text.encode (Text.ofString "x = 1\n")))], [], []⟩, []⟩
    let gone := World.empty
    let nested := fun world r path => runFile world world.nestingBound r .empty path
    let r := Reader.standard
    let forbidding := { r with options := { r.options with forbidInclude := true } }
    let before : List Line := [⟨Text.ofString "#@include i", 1, 1⟩, ⟨Text.ofString "#@forbid_include", 2, 2⟩]
    let line : Line := ⟨Text.ofString "b = 2", 3, 3⟩
    let p : Progress := ⟨{ (r.begin none .empty).context with
      location := ⟨none, none, 2⟩, started := true, inclusion := false },
      Store.empty.insert ['x'] ⟨.string [['1']] false, .scalar, false, []⟩, []⟩
    forbidding.readInto world .empty bytes = forbidding.readInto gone .empty bytes ∧
      r.Passes (nested world) world (r.begin none .empty) before p ∧
      r.run (nested world) world none .empty bytes =
        outcome ((r.stepsAmid nested false p [(gone, line)]).bind finish) := by
  intro bytes world gone nested r forbidding before line p
  have lines : (Lines.ofBytes bytes).complete = before ++ [(gone, line)].map Prod.snd := by decide +kernel
  let included : Progress := { p with context := { p.context with
    location := ⟨none, none, 1⟩, inclusion := true } }
  have passed : r.Passes (nested world) world (r.begin none .empty) before p :=
    Passes.next (q := included) (by decide +kernel) (.next (by decide +kernel) (.none p))
  have forbids : ∃ line ∈ before, line.directive? = some .forbidInclude :=
    ⟨⟨Text.ofString "#@forbid_include", 2, 2⟩, by decide, by decide +kernel⟩
  have behind := (forbidden_inclusion_hides_the_world r .empty bytes).2 nested world none before
    [(gone, line)] p lines passed forbids
  have whole : (Lines.ofBytes bytes).broken = false := by decide +kernel
  rw [whole] at behind
  exact ⟨(forbidden_inclusion_hides_the_world forbidding .empty bytes).1 rfl world gone, passed, behind⟩

/-! A reader that forbids variants. -/

def withVariants (r : Reader ρ σ) (variants : ρ) : Reader ρ σ := { r with variants }

/-- Variants are forbidden, and none plays a part: no block is open, and no guard waits. -/
structure Unvaried (c : Context σ) : Prop where
  forbidden : c.variantsForbidden = true
  disabled : c.variantsEnabled = false
  blocks : c.blocks = Blocks.empty

theorem unvaried_begin (forbids : r.options.forbidVariants = true) (file : Option Text)
    (destination : Store) : Unvaried (r.begin file destination).context := by
  constructor <;> simp [begin, Context.initial, forbids]

end Reader

theorem Directive.Does.unvaried {world : World} {p q : Progress σ} {directive : Directive} {e : Effect}
    (does : Does world p directive q e) (h : Reader.Unvaried p.context) : Reader.Unvaried q.context := by
  obtain ⟨forbidden, disabled, blocks⟩ := h
  cases does with
  | enableVariants allowed => simp [forbidden] at allowed
  | variantIf allowed => simp [forbidden] at allowed
  | variantOnly allowed => simp [forbidden] at allowed
  | variantEndif allowed => simp [forbidden] at allowed
  | disableVariants => exact ⟨forbidden, rfl, blocks⟩
  | _ => exact ⟨forbidden, disabled, blocks⟩

namespace Reader

section Lines

variable {nested : Reader ρ σ → Text → Outcome} {world : World} {v : ρ} {r r' : Reader ρ σ}
  {p q : Progress σ} {line : Line}

theorem exhibit_of_disabled (disabled : p.context.variantsEnabled = false) (v : ρ)
    (d : Declaration) : r.exhibit p d = (r.withVariants v).exhibit p d := by
  have segment (r : Reader ρ σ) : r.segmentOf p.context d = .ok d.values := by
    rw [segmentOf, disabled]
    rfl
  rw [exhibit_eq, exhibit_eq, segment, segment]
  rfl

theorem declare_of_unvaried (h : Unvaried p.context) (v : ρ) (text : Text) :
    r.declare p text = (r.withVariants v).declare p text := by
  have units : (r.withVariants v).units = r.units := rfl
  rw [declare_eq, declare_eq, units]
  cases Declaration.ofLine r.units p.context.realWithUnit text with
  | error fault => rfl
  | ok d =>
    have shown (variants : ρ) :
        (p.setContext p.context.start).context.blocks.exhibits variants = .ok true := by
      have blocks : (p.setContext p.context.start).context.blocks = Blocks.empty := h.blocks
      rw [blocks]
      rfl
    dsimp only
    rw [declareHead_eq, declareHead_eq, shown, shown]
    exact exhibit_of_disabled (p := p.setContext p.context.spend) h.disabled v d

theorem step_of_unvaried (h : Unvaried p.context)
    (alike : ∀ r' path, r.Asks world p line r' path → nested r' path = nested (r'.withVariants v) path) :
    r.step nested world p line = (r.withVariants v).step nested world p line := by
  rw [step_eq, step_eq]
  cases role : Role.ofText line.text with
  | comment => rfl
  | declaration text =>
    have h : Unvaried (p.atLine line).context := ⟨h.forbidden, h.disabled, h.blocks⟩
    exact congrArg settle (declare_of_unvaried h v text)
  | directive text =>
    refine direct_congr rfl fun q path applied => includeFile_congr ?_
    exact alike _ path ⟨text, q, role, applied, rfl⟩

theorem unvaried_of_step {stop : Bool} (h : Unvaried p.context)
    (done : r.step nested world p line = .ok (q, stop)) : Unvaried q.context := by
  obtain ⟨forbidden, disabled, blocks⟩ := h
  have spent : (p.atLine line).context.spend.blocks = Blocks.empty := by
    change p.context.blocks.spendGuard = Blocks.empty
    rw [blocks]
    rfl
  have here : Unvaried (p.atLine line).context := ⟨forbidden, disabled, blocks⟩
  exact step_context here (fun does => does.unvaried here) ⟨forbidden, disabled, spent⟩
    ⟨forbidden, disabled, spent⟩ done

theorem unvaried_of_passes {start : Progress σ} {before : List Line} (first : Unvaried start.context)
    (passed : r.Passes nested world start before p) : Unvaried p.context :=
  Passes.history (P := fun _ p => Unvaried p.context) first (fun _ h done => unvaried_of_step h done) passed

end Lines

/-- Where variants are forbidden, the lines of an input do not consult them. The outcome can depend on
them only through an included file, which is read with standard options: it is the same with other
variants if every file that the lines ask for is read alike with these. -/
theorem forbidden_variants_matter_to_included_files_only (nested : Reader ρ σ → Text → Outcome)
    (world : World) (r : Reader ρ σ) (v : ρ) (file : Option Text) (destination : Store)
    (bytes : Bytes) (forbids : r.options.forbidVariants = true)
    (alike : ∀ before line after p r' path, (Lines.ofBytes bytes).complete = before ++ line :: after →
      r.Passes nested world (r.begin file destination) before p → r.Asks world p line r' path →
      nested r' path = nested (r'.withVariants v) path) :
    r.run nested world file destination bytes =
      (r.withVariants v).run nested world file destination bytes := by
  have same : r.steps nested world (Lines.ofBytes bytes).broken (r.begin file destination)
      (Lines.ofBytes bytes).complete = (r.withVariants v).steps nested world (Lines.ofBytes bytes).broken
        (r.begin file destination) (Lines.ofBytes bytes).complete :=
    steps_congr fun before line after p lines passed =>
      step_of_unvaried (unvaried_of_passes (unvaried_begin forbids file destination) passed)
        fun r' path => alike before line after p r' path lines passed
  rw [run_eq, run_eq, same]
  rfl

/-- The file that is included has no variants in it, and the reference in the text stays as it is. -/
theorem forbidden_variants_do_not_matter_to_a_plain_file :
    let bytes := Text.encode (Text.ofString "#@include i\nb = \"@variant(a:b)\"\n")
    let world : World := ⟨⟨[([['i']], .file (Text.encode (Text.ofString "x = 1\n")))], [], []⟩, []⟩
    let nested := fun r path => runFile world 1 r .empty path
    let r := { Reader.standard with options := { Options.standard with forbidVariants := true } }
    let v := Repository.empty.setParameter ⟨['a'], ['b']⟩ ['2']
    r.options.forbidVariants = true ∧
      r.run nested world none .empty bytes = (r.withVariants v).run nested world none .empty bytes := by
  intro bytes world nested r v
  let first : Line := ⟨Text.ofString "#@include i", 1, 1⟩
  let second : Line := ⟨Text.ofString "b = \"@variant(a:b)\"", 2, 2⟩
  have whole : (Lines.ofBytes bytes).complete = [first, second] := by decide +kernel
  have include_i : Role.ofText first.text = .directive (Text.ofString "@include i") := by decide +kernel
  have declares : Role.ofText second.text = .declaration second.text := by decide +kernel
  let begun := ((r.begin none .empty).atLine first).setContext ((r.begin none .empty).atLine first).context.start
  have finds : Directive.applyText world ((r.begin none .empty).atLine first) (Text.ofString "@include i") =
      (begun, .ok (.includeFile (Text.ofString "./i"))) := by decide +kernel
  have plain : nested (r.forIncluded begun.context) (Text.ofString "./i") =
      nested ((r.forIncluded begun.context).withVariants v) (Text.ofString "./i") :=
    congrArg₂ Outcome.mk (by decide +kernel) (by decide +kernel)
  refine ⟨rfl, forbidden_variants_matter_to_included_files_only nested world r v none .empty bytes rfl ?_⟩
  intro before line after p r' path lines passed asks
  obtain ⟨text, q, role, applied, rfl⟩ := asks
  rw [whole] at lines
  cases before with
  | nil =>
    obtain ⟨rfl, -⟩ := List.cons.inj lines
    cases passed
    obtain rfl := Role.directive.inj (include_i.symm.trans role)
    obtain ⟨rfl, e⟩ := Prod.mk.inj (finds.symm.trans applied)
    obtain rfl := Effect.includeFile.inj (Except.ok.inj e)
    exact plain
  | cons _ before =>
    have last : line = second := by
      cases before with
      | nil =>
        obtain ⟨-, lines⟩ := List.cons.inj lines
        exact (List.cons.inj lines).1.symm
      | cons _ before => simp at lines
    rw [last, declares] at role
    cases role

/-- An included file is read by a reader that does not forbid variants. -/
theorem forbidden_variants_matter_to_an_included_file :
    let bytes := Text.encode (Text.ofString "#@include i\n")
    let file := Text.encode (Text.ofString "x = \"@variant(a:b|1)\"\n")
    let world : World := ⟨⟨[([['i']], .file file)], [], []⟩, []⟩
    let r := { Reader.standard with options := { Options.standard with forbidVariants := true } }
    let v := Repository.empty.setParameter ⟨['a'], ['b']⟩ ['2']
    r.options.forbidVariants = true ∧
      (r.read world bytes).result =
        .ok (Store.empty.insert ['x'] ⟨.string [['1']] false, .scalar, false, []⟩, none) ∧
      ((r.withVariants v).read world bytes).result =
        .ok (Store.empty.insert ['x'] ⟨.string [['2']] false, .scalar, false, []⟩, none) := by
  decide +kernel

end Reader
end TypedProperties
