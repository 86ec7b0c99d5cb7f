import TypedProperties.Proofs.Fallible
import TypedProperties.Proofs.Lookup
import TypedProperties.Proofs.Variant.Template

/-! What references are replaced by: a segment falls into texts and references in one way, each reference is
replaced by its value, and the first one without a value is what a segment fails with. -/
namespace TypedProperties

/-- A name of a node: the registry and the path, with a colon between. -/
structure Target.Names (target : Target) (name : Text) : Prop where
  whole : name = target.registry ++ ':' :: target.path
  registry : target.registry ≠ [] ∧ ':' ∉ target.registry
  path : target.path ≠ [] ∧ ':' ∉ target.path

theorem Target.ofText_eq_ok {target : Target} {name : Text} : ofText name = .ok target ↔ target.Names name := by
  unfold ofText
  constructor
  · intro h
    split at h
    next registry path cut =>
      split_ifs at h with bad
      obtain rfl := Except.ok.inj h
      obtain ⟨whole, single⟩ := Text.cutAt_eq_some_iff.mp cut
      simp only [not_or] at bad
      exact ⟨whole, ⟨bad.1, single⟩, bad.2⟩
    next => cases h
  · rintro ⟨rfl, ⟨registry, single⟩, path, single'⟩
    rw [Text.cutAt_eq_some_iff.mpr ⟨rfl, single⟩]
    simp [registry, path, single']

theorem Target.ofText_eq_error {name : Text} {fault : VariantFault} :
    ofText name = .error fault ↔ fault = .badTarget name ∧ ∀ target : Target, ¬ target.Names name := by
  simp only [← ofText_eq_ok]
  unfold ofText
  split
  · split_ifs <;> simp [eq_comm]
  · simp [eq_comm]

namespace Template

variable {repository : Repository} {removeQuotes : Bool} {reference name value v : Text} {fallback : Option Text}
  {fault : VariantFault} {t : Template} {s : Text}

/-- References are as short as they can be, and the texts between them as long as they can be. -/
structure IsProper (t : Template) : Prop where
  start : ¬ openTag <:+: t.start
  reference : ∀ r ∈ t.references, closeTag ∉ r.1
  behind : ∀ r ∈ t.references, ¬ openTag <:+: r.2
  unclosed : ∀ rest ∈ t.unclosed, closeTag ∉ rest

theorem isProper_ofText (t : Text) : (ofText t).IsProper := by
  fun_induction ofText t with
  | case1 t absent =>
    exact ⟨Text.cutOn_eq_none_iff.mp absent, List.forall_mem_nil _, List.forall_mem_nil _, by simp⟩
  | case2 t before after cut absent =>
    exact ⟨Text.not_infix_of_cutOn (by decide) cut, List.forall_mem_nil _, List.forall_mem_nil _,
      by simpa using Text.cutAt_eq_none_iff.mp absent⟩
  | case3 t before after cut target rest close next ih =>
    refine ⟨Text.not_infix_of_cutOn (by decide) cut, ?_, ?_, ih.unclosed⟩
    · exact List.forall_mem_cons.mpr ⟨(Text.cutAt_eq_some_iff.mp close).2, ih.reference⟩
    · exact List.forall_mem_cons.mpr ⟨ih.start, ih.behind⟩

theorem source_cons (start : Text) (r : Text × Text) (references : List (Text × Text)) (unclosed : Option Text) :
    source ⟨start, r :: references, unclosed⟩ =
      start ++ (openTag ++ (r.1 ++ closeTag :: source ⟨r.2, references, unclosed⟩)) := by
  simp [source, sourceOf]

theorem ofText_source : t.IsProper → ofText t.source = t := by
  obtain ⟨start, references, unclosed⟩ := t
  intro proper
  have cut {s : Text} (absent : ¬ openTag <:+: s) (rest : Text) :
      Text.cutOn openTag (s ++ (openTag ++ rest)) = some (s, rest) :=
    Text.cutOn_of_not_infix (by decide) absent rest
  induction references generalizing start with
  | nil =>
    cases unclosed with
    | none =>
      rw [ofText_eq, show source ⟨start, [], none⟩ = start by simp [source, sourceOf],
        Text.cutOn_eq_none_iff.mpr proper.start]
    | some rest =>
      rw [ofText_eq, show source ⟨start, [], some rest⟩ = start ++ (openTag ++ rest) by simp [source, sourceOf],
        cut proper.start]
      dsimp only
      rw [Text.cutAt_eq_none_iff.mpr (proper.unclosed rest rfl)]
  | cons r references ih =>
    obtain ⟨bare, reference⟩ := List.forall_mem_cons.mp proper.reference
    obtain ⟨first, behind⟩ := List.forall_mem_cons.mp proper.behind
    rw [source_cons, ofText_eq, cut proper.start]
    dsimp only
    rw [Text.cutAt_eq_some_iff.mpr ⟨rfl, bare⟩]
    dsimp only
    rw [ih r.2 ⟨first, reference, behind, proper.unclosed⟩]

theorem source_eq_iff : t.source = s ∧ t.IsProper ↔ t = ofText s := by
  constructor
  · rintro ⟨rfl, proper⟩
    exact (ofText_source proper).symm
  · rintro rfl
    exact ⟨source_ofText s, isProper_ofText s⟩

/-- A reference is a name and, behind a bar, its default. -/
structure Reads (reference name : Text) (fallback : Option Text) : Prop where
  whole : reference = name ++ (fallback.map ('|' :: ·)).getD []
  front : '|' ∉ name

theorem exists_reads (reference : Text) : ∃ name fallback, Reads reference name fallback := by
  cases cut : Text.cutAt '|' reference with
  | none => exact ⟨reference, none, by simp, Text.cutAt_eq_none_iff.mp cut⟩
  | some r =>
    obtain ⟨whole, front⟩ := Text.cutAt_eq_some_iff.mp cut
    exact ⟨r.1, some r.2, whole, front⟩

theorem Reads.cutAt : Reads reference name fallback → Text.cutAt '|' reference = fallback.map (name, ·) := by
  rintro ⟨rfl, front⟩
  cases fallback with
  | none => simpa [Text.cutAt_eq_none_iff] using front
  | some value => exact Text.cutAt_eq_some_iff.mpr ⟨rfl, front⟩

/-- The value of a reference: while nothing is set it is the default as it stands, and else that of the parameter,
less its quotes if these are to be removed. -/
inductive Resolves (repository : Repository) (removeQuotes : Bool) (reference : Text) : Text → Prop
  | fallback {name value : Text} {target : Target} (reads : Reads reference name (some value))
      (names : target.Names name) (inactive : repository.isActive = false) :
      Resolves repository removeQuotes reference value
  | parameter {name stored value : Text} {fallback : Option Text} {target : Target}
      (reads : Reads reference name fallback) (names : target.Names name) (active : repository.isActive = true)
      (set : repository.parameters.lookup target = some stored)
      (quotes : if removeQuotes then Text.Unquoted stored value else value = stored) :
      Resolves repository removeQuotes reference value

inductive Refuses (repository : Repository) (reference : Text) : VariantFault → Prop
  | target {name : Text} {fallback : Option Text} (reads : Reads reference name fallback)
      (unnamed : ∀ target : Target, ¬ target.Names name) : Refuses repository reference (.badTarget name)
  | inactive {name : Text} {target : Target} (reads : Reads reference name none) (names : target.Names name)
      (inactive : repository.isActive = false) : Refuses repository reference (.inactive reference)
  | registry {name : Text} {fallback : Option Text} {target : Target} (reads : Reads reference name fallback)
      (names : target.Names name) (active : repository.isActive = true)
      (unknown : repository.hasRegistry target.registry = false) :
      Refuses repository reference (.unknownRegistry target.registry reference)
  | parameter {name : Text} {fallback : Option Text} {target : Target} (reads : Reads reference name fallback)
      (names : target.Names name) (active : repository.isActive = true)
      (known : repository.hasRegistry target.registry = true)
      (unset : repository.parameters.lookup target = none) :
      Refuses repository reference (.unknownParameter target.path target.registry)

theorem hasRegistry_of_lookup {target : Target} {stored : Text}
    (set : repository.parameters.lookup target = some stored) :
    repository.hasRegistry target.registry = true := by
  have mem := mem_of_lookup set
  simp only [Repository.hasRegistry, Bool.or_eq_true, List.any_eq_true, decide_eq_true_eq]
  exact .inr ⟨_, mem, rfl⟩

/-- The name and the default of a reference are what its value is made of. -/
theorem valueOf_of_reads : Reads reference name fallback →
    valueOf repository removeQuotes reference =
      match Target.ofText name with
      | .error fault => .error fault
      | .ok target =>
        if !repository.isActive then
          match fallback with
          | some value => .ok value
          | none => .error (.inactive reference)
        else if !repository.hasRegistry target.registry then
          .error (.unknownRegistry target.registry reference)
        else
          match repository.parameters.lookup target with
          | some value => .ok (if removeQuotes then Text.stripQuotes value else value)
          | none => .error (.unknownParameter target.path target.registry) := by
  intro reads
  unfold valueOf
  rw [reads.cutAt]
  cases fallback with
  | none =>
    obtain rfl : reference = name := by simpa using reads.whole
    rfl
  | some value => rfl

theorem valueOf_of_resolves (h : Resolves repository removeQuotes reference v) :
    valueOf repository removeQuotes reference = .ok v := by
  cases h with
  | fallback reads names inactive =>
    rw [valueOf_of_reads reads, Target.ofText_eq_ok.mpr names]
    simp [inactive]
  | parameter reads names active set quotes =>
    rw [valueOf_of_reads reads, Target.ofText_eq_ok.mpr names]
    simp only [active, hasRegistry_of_lookup set, set]
    cases removeQuotes with
    | false => simpa using quotes.symm
    | true => simpa [Text.stripQuotes_eq_iff] using quotes

theorem valueOf_of_refuses (h : Refuses repository reference fault) :
    valueOf repository removeQuotes reference = .error fault := by
  cases h with
  | target reads unnamed => rw [valueOf_of_reads reads, Target.ofText_eq_error.mpr ⟨rfl, unnamed⟩]
  | inactive reads names inactive =>
    rw [valueOf_of_reads reads, Target.ofText_eq_ok.mpr names]
    simp [inactive]
  | registry reads names active unknown =>
    rw [valueOf_of_reads reads, Target.ofText_eq_ok.mpr names]
    simp [active, unknown]
  | parameter reads names active known unset =>
    rw [valueOf_of_reads reads, Target.ofText_eq_ok.mpr names]
    simp [active, known, unset]

theorem resolves_or_refuses (repository : Repository) (removeQuotes : Bool) (reference : Text) :
    (∃ v, Resolves repository removeQuotes reference v) ∨ ∃ fault, Refuses repository reference fault := by
  obtain ⟨name, fallback, reads⟩ := exists_reads reference
  cases named : Target.ofText name with
  | error fault => exact .inr ⟨_, .target reads (Target.ofText_eq_error.mp named).2⟩
  | ok target =>
    have names := Target.ofText_eq_ok.mp named
    cases active : repository.isActive with
    | false =>
      cases fallback with
      | none => exact .inr ⟨_, .inactive reads names active⟩
      | some value => exact .inl ⟨value, .fallback reads names active⟩
    | true =>
      cases set : repository.parameters.lookup target with
      | some stored =>
        refine .inl ⟨if removeQuotes then Text.stripQuotes stored else stored, .parameter reads names active set ?_⟩
        cases removeQuotes with
        | false => rfl
        | true => exact Text.stripQuotes_eq_iff.mp rfl
      | none =>
        cases known : repository.hasRegistry target.registry with
        | false => exact .inr ⟨_, .registry reads names active known⟩
        | true => exact .inr ⟨_, .parameter reads names active known set⟩

theorem valueOf_eq_ok :
    valueOf repository removeQuotes reference = .ok v ↔ Resolves repository removeQuotes reference v := by
  refine ⟨fun h => ?_, valueOf_of_resolves⟩
  rcases resolves_or_refuses repository removeQuotes reference with ⟨v', resolves⟩ | ⟨fault, refuses⟩
  · rw [valueOf_of_resolves resolves] at h
    exact Except.ok.inj h ▸ resolves
  · rw [valueOf_of_refuses refuses] at h
    cases h

theorem valueOf_eq_error :
    valueOf repository removeQuotes reference = .error fault ↔ Refuses repository reference fault := by
  refine ⟨fun h => ?_, valueOf_of_refuses⟩
  rcases resolves_or_refuses repository removeQuotes reference with ⟨v, resolves⟩ | ⟨fault', refuses⟩
  · rw [valueOf_of_resolves resolves] at h
    cases h
  · rw [valueOf_of_refuses refuses] at h
    exact Except.error.inj h ▸ refuses

/-- References with a value in the place of each, and the texts behind them. -/
def replaced (references : List (Text × Text)) (values : List Text) : Text :=
  (List.zipWith (fun r v => v ++ r.2) references values).flatten

section
variable {value : Text → Except VariantFault Text} {references : List (Text × Text)}

theorem fill_eq (value : Text → Except VariantFault Text) (references : List (Text × Text)) :
    fill value references = (references.mapM fun r => value r.1).map (replaced references) := by
  induction references with
  | nil => rfl
  | cons r references ih =>
    rw [fill, ih, List.mapM_cons]
    cases value r.1 with
    | error fault => rfl
    | ok v => cases references.mapM fun r => value r.1 <;> rfl

theorem fill_eq_ok : fill value references = .ok s ↔
    ∃ values, List.Forall₂ (fun r v => value r.1 = .ok v) references values ∧ s = replaced references values := by
  simp only [fill_eq, map_eq_ok, mapM_eq_ok, eq_comm (a := s)]

theorem fill_eq_error : fill value references = .error fault ↔
    ∃ before r after, references = before ++ r :: after ∧ (∀ b ∈ before, ∃ v, value b.1 = .ok v) ∧
      value r.1 = .error fault := by
  rw [fill_eq, map_eq_error, mapM_eq_error]

theorem expand_eq_ok : t.expand value = .ok s ↔ t.unclosed = none ∧
    ∃ values, List.Forall₂ (fun r v => value r.1 = .ok v) t.references values ∧
      s = t.start ++ replaced t.references values := by
  have whole : t.expand value = .ok s ↔
      t.unclosed = none ∧ ∃ filled, fill value t.references = .ok filled ∧ s = t.start ++ filled := by
    unfold expand
    cases fill value t.references <;> cases t.unclosed <;> simp [eq_comm]
  simp only [whole, fill_eq_ok]
  constructor
  · rintro ⟨closed, _, ⟨values, each, rfl⟩, rfl⟩
    exact ⟨closed, values, each, rfl⟩
  · rintro ⟨closed, values, each, rfl⟩
    exact ⟨closed, _, ⟨values, each, rfl⟩, rfl⟩

/-- An opening that is never closed is told of only where every reference has its value. -/
theorem expand_eq_error : t.expand value = .error fault ↔
    (∃ before r after, t.references = before ++ r :: after ∧ (∀ b ∈ before, ∃ v, value b.1 = .ok v) ∧
      value r.1 = .error fault) ∨
    ((∀ r ∈ t.references, ∃ v, value r.1 = .ok v) ∧
      ∃ rest, t.unclosed = some rest ∧ fault = .unclosedReference (openTag ++ rest)) := by
  rw [← fill_eq_error]
  unfold expand
  cases done : fill value t.references with
  | error refused =>
    -- The opening comes last: it is not told of where a reference has no value.
    obtain ⟨before, r, after, whole, -, stopped⟩ := fill_eq_error.mp done
    have not : ¬ ∀ r ∈ t.references, ∃ v, value r.1 = .ok v := fun every => by
      obtain ⟨v, here⟩ := every r (by simp [whole])
      rw [stopped] at here
      cases here
    simp only [not, false_and, or_false, Except.error.injEq]
  | ok filled =>
    obtain ⟨values, each, -⟩ := fill_eq_ok.mp done
    have every : ∀ r ∈ t.references, ∃ v, value r.1 = .ok v :=
      exists_mapM_eq_ok.mp ⟨values, mapM_eq_ok.mpr each⟩
    rw [iff_true_intro every]
    cases t.unclosed <;> simp [eq_comm]

end

end Template

namespace Repository

/-- A segment is taken apart in one way into texts and references, and an opening that nothing closes may come
behind. Preprocessing replaces every reference by its value, as it stands, and keeps the texts; the first reference
without a value is what it fails with, and only if all have one the opening. -/
theorem references_are_replaced_once (repository : Repository) (removeQuotes : Bool) (segment : Text) :
    ∃ t : Template, (∀ t' : Template, t'.source = segment ∧ t'.IsProper ↔ t' = t) ∧
      (∀ filled, repository.preprocess removeQuotes segment = .ok filled ↔ t.unclosed = none ∧
        ∃ values, List.Forall₂ (fun r v => Template.Resolves repository removeQuotes r.1 v) t.references values ∧
          filled = t.start ++ Template.replaced t.references values) ∧
      ∀ fault, repository.preprocess removeQuotes segment = .error fault ↔
        (∃ before r after, t.references = before ++ r :: after ∧
          (∀ b ∈ before, ∃ v, Template.Resolves repository removeQuotes b.1 v) ∧
          Template.Refuses repository r.1 fault) ∨
        ((∀ r ∈ t.references, ∃ v, Template.Resolves repository removeQuotes r.1 v) ∧
          ∃ rest, t.unclosed = some rest ∧ fault = .unclosedReference (Template.openTag ++ rest)) := by
  refine ⟨Template.ofText segment, fun t' => Template.source_eq_iff, fun filled => ?_, fun fault => ?_⟩
  · simp only [preprocess, Template.expand_eq_ok, Template.valueOf_eq_ok]
  · simp only [preprocess, Template.expand_eq_error, Template.valueOf_eq_ok, Template.valueOf_eq_error]

end Repository
end TypedProperties
