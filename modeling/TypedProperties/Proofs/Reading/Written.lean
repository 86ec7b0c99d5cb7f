import TypedProperties.Proofs.Reading.Unnumbered
import TypedProperties.Proofs.Writing.Lines

/-! Reading what has been written: each line of a written datum does its part, and the lines together
store the datum. -/
namespace TypedProperties

namespace Declaration.Shape

def restated (s : Shape) : Datum := { s.datum with data := s.reread }

end Declaration.Shape

namespace Reader

open Declaration

variable {nested : Reader → Text → Outcome} {world : World} {r : Reader} {p : Progress}

/-- A read outside of blocks: its store and topic, and the description that waits for a declaration. -/
structure Stands (p : Progress) (store : Store) (topic : Option Text) (description : Option Text) :
    Prop where
  store : p.store = store
  topic : p.context.topic = topic
  description : p.context.description = description
  blocks : p.context.blocks = Blocks.empty

variable {store : Store} {topic description : Option Text}

theorem step_directive {t : Text} {directive : Directive} {q : Progress}
    (understood : Directive.ofText (Role.directiveMark :: t) = .ok directive)
    (applied : Directive.apply world
      (p.atLine (bareLine (Role.commentMark :: Role.directiveMark :: t))) directive = (q, .ok .next)) :
    r.step nested world p (bareLine (Role.commentMark :: Role.directiveMark :: t)) = .ok (q, false) := by
  rw [step_eq]
  simp only [bareLine, Role.ofText_directive]
  simp only [bareLine] at applied
  rw [direct, Directive.applyText, Directive.ofText_trimEnd, understood]
  simp only [applied]

theorem step_enable (nested : Reader → Text → Outcome) (world : World) (r : Reader)
    (stands : Stands p store topic description) :
    ∃ q, r.step nested world p (bareLine Shape.enableLine) = .ok (q, false) ∧
      Stands q store topic description ∧ q.context.realWithUnit = true := by
  refine ⟨_, step_directive (t := Text.ofString "enable_real_with_unit")
    (by decide +kernel : _ = Except.ok (Directive.realWithUnit true)) rfl, ?_, rfl⟩
  exact ⟨stands.store, stands.topic, stands.description, stands.blocks⟩

theorem step_disable (stands : Stands p store topic description) :
    ∃ q, r.step nested world p (bareLine Shape.disableLine) = .ok (q, false) ∧
      Stands q store topic description := by
  refine ⟨_, step_directive (t := Text.ofString "disable_real_with_unit")
    (by decide +kernel : _ = Except.ok (Directive.realWithUnit false)) rfl, ?_⟩
  exact ⟨stands.store, stands.topic, stands.description, stands.blocks⟩

theorem step_description (stands : Stands p store topic none) {text : Text}
    (argument : text.IsArgument) (shown : text ≠ []) :
    ∃ q, r.step nested world p (bareLine (Text.ofString "#@description " ++ text)) = .ok (q, false) ∧
      Stands q store topic (some text) ∧ q.context.realWithUnit = p.context.realWithUnit := by
  have understood : Directive.ofText (Role.directiveMark :: (Text.ofString "description " ++ text)) =
      .ok (.description text) := by
    have name := Directive.ofText_name (Text.ofString "@description") (by decide) (by decide) text
    rw [argument.trimmed] at name
    exact name
  have applied (p : Progress) : Directive.apply world p (.description text) =
      (p.setContext { p.context with description := some text, started := true }, .ok .next) := by
    change Directive.applyDescription p text = _
    rw [Directive.applyDescription, if_neg shown]
    rfl
  refine ⟨_, step_directive understood (applied _), ?_, rfl⟩
  exact ⟨stands.store, stands.topic, rfl, stands.blocks⟩

def configured (p : Progress) (text : Text) : Progress where
  context := { p.context.atLine 0 with configSeen := true }
  store := { p.store with description := text }
  warnings := p.warnings

theorem step_config (nested : Reader → Text → Outcome) (world : World) (r : Reader)
    (first : p.context.started = false) (unseen : p.context.configSeen = false) (text : Text) :
    r.step nested world p (bareLine (Text.ofString "#@configuration " ++ text)) =
      .ok (configured p (Text.stripQuotes (Text.trim text)), false) := by
  have understood : Directive.ofText (Role.directiveMark :: (Text.ofString "configuration " ++ text)) =
      .ok (.config (Text.stripQuotes (Text.trim text))) :=
    Directive.ofText_name (Text.ofString "@configuration") (by decide) (by decide) text
  have applied (q : Progress) (text : Text) (first : q.context.started = false)
      (unseen : q.context.configSeen = false) :
      Directive.apply world q (.config text) =
        ({ q with
            context := { q.context with configSeen := true }
            store := { q.store with description := text } }, .ok .next) := by
    change Directive.beforeFirst q "@config" (Directive.applyConfig q text) = _
    simp [Directive.beforeFirst, Directive.applyConfig, first, unseen, Directive.done]
  exact step_directive understood (applied _ _ first unseen)

theorem step_topic (nested : Reader → Text → Outcome) (world : World) (r : Reader)
    (stands : Stands p store none none) (first : p.context.started = false)
    (any : p.context.expectedTopic = none) {text : Text} (argument : text.IsArgument)
    (bare : Text.stripQuotes text = text) :
    ∃ q, r.step nested world p (bareLine (Text.ofString "#@topic " ++ text)) = .ok (q, false) ∧
      Stands q store (if text = [] then none else some text) none := by
  have understood : Directive.ofText (Role.directiveMark :: (Text.ofString "topic " ++ text)) =
      .ok (.topic text) := by
    have name := Directive.ofText_name (Text.ofString "@topic") (by decide) (by decide) text
    rw [argument.trimmed] at name
    exact name.trans (congrArg (fun t => Except.ok (Directive.topic t)) bare)
  have applied (q : Progress) (first : q.context.started = false) (noTopic : q.context.topic = none)
      (any : q.context.expectedTopic = none) : Directive.apply world q (.topic text) =
        if text = [] then Directive.done (q.warn (.emptyTopic q.context.line))
        else Directive.change q { q.context with topic := some text } := by
    change Directive.beforeFirst q "@topic" (Directive.applyTopic q text) = _
    simp [Directive.beforeFirst, Directive.applyTopic, first, noTopic, any]
  have here := applied (p.atLine (bareLine (Text.ofString "#@topic " ++ text))) first stands.topic any
  split_ifs at here ⊢
  · refine ⟨_, step_directive understood here, ?_⟩
    exact ⟨stands.store, stands.topic, stands.description, stands.blocks⟩
  · refine ⟨_, step_directive understood here, ?_⟩
    exact ⟨stands.store, rfl, stands.description, stands.blocks⟩

theorem segmentOf_of_not_infix (c : Context) {d : Declaration}
    (h : ¬ Template.openTag <:+: d.values) : r.segmentOf c d = .ok d.values := by
  unfold segmentOf
  split_ifs
  · simp only [Variants.preprocess, r.variants.preprocess_of_not_infix c.removeQuotes h]
  · rfl

theorem put_new {key : Text} (fresh : store.get? key = none) (datum : Datum) (allow : Bool) :
    store.put key datum .declare allow = (store.insert key datum, .ok false) := by
  simp [Store.put, fresh]

variable {s : Shape} {key : Text}

theorem datumOf_declaration (values : Text) (description : Option Text)
    (same : description.getD [] = s.datum.description) :
    datumOf (s.declaration key values) s.reread description = s.restated := by
  have cardinality : (s.declaration key values).cardinality = s.datum.cardinality := by
    cases h : s.datum.cardinality <;>
      simp [Declaration.cardinality, Shape.declaration, Shape.size, Datum.isVector, h]
  rw [datumOf, cardinality, same]
  rfl

/-- What a written declaration needs to be stored. -/
structure Storable (s : Shape) (key row : Text) (r : Reader) (p : Progress) : Prop where
  valid : s.Valid r.units p.context.realWithUnit
  isKey : key.IsKey
  single : s.datum.data.SingleLine
  bare : s.datum.data.Unreferenced
  row : ValueToken.Row s.texts row
  same : p.context.description.getD [] = s.datum.description
  fresh : p.store.get? key = none
  blocks : p.context.blocks = Blocks.empty

def stored (s : Shape) (key : Text) (p : Progress) : Progress where
  context := p.context.spend.undescribed
  store := p.store.insert key s.restated
  warnings := p.warnings

theorem exhibit_written {row : Text} {q : Progress} (h : Storable s key row r q) :
    r.exhibit q (s.declaration key (Text.trim row)) =
      ({ q with context := q.context.undescribed, store := q.store.insert key s.restated }, none) := by
  have solid := Shape.isSolid_texts h.valid h.single
  have bare : ¬ Template.openTag <:+: Text.trim row := fun inside =>
    (Shape.openTag_infix_iff h.valid h.row).mp inside h.bare
  have values : Readout.ofSegment r.units q.context.realWithUnit
      (s.declaration key (Text.trim row)) (Text.trim row) = .ok ⟨s.reread, none⟩ := by
    rw [← Shape.ofSegment_written key (Text.trim row) h.valid h.row,
      Readout.ofSegment, Readout.ofSegment, Shape.scan_trim h.row solid]
  have segment : r.segmentOf q.context (s.declaration key (Text.trim row)) = .ok (Text.trim row) :=
    segmentOf_of_not_infix _ bare
  rw [exhibit_eq, segment]
  simp only [values, trailingWarning, datumOf_declaration _ _ h.same, storeDatum]
  have put := put_new h.fresh s.restated q.context.allowKeyOverride
  simp only [Progress.store_setContext, Shape.declaration, Context.undescribed,
    Progress.context_setContext, put]
  rfl

theorem declare_written {row : Text} {q : Progress} (h : Storable s key row r q) :
    r.declare q (s.line key row) = (stored s key q, none) := by
  have head := ofLine_written h.valid h.isKey.isWord
    (fun mem => (h.isKey.word _ mem).2 rfl) row
  have exhibited : q.context.blocks.exhibits r.variants = .ok true := by
    rw [h.blocks]
    rfl
  have spent : Storable s key row r (q.setContext q.context.spend) :=
    ⟨h.valid, h.isKey, h.single, h.bare, h.row, h.same, h.fresh, by
      change q.context.blocks.spendGuard = _
      rw [h.blocks]
      rfl⟩
  rw [declare_eq, Shape.line, head]
  simp only [declareHead_eq, Progress.context_setContext, Context.start, exhibited]
  exact exhibit_written spent

theorem step_declaration (stands : Stands p store topic description)
    (valid : s.Valid r.units p.context.realWithUnit) (isKey : key.IsKey)
    (single : s.datum.data.SingleLine) (bare : s.datum.data.Unreferenced)
    (same : description.getD [] = s.datum.description) (fresh : store.get? key = none) {row : Text} (isRow : ValueToken.Row s.texts row) :
    ∃ q, r.step nested world p (bareLine (s.line key row)) = .ok (q, false) ∧
      Stands q (store.insert key s.restated) topic none := by
  obtain ⟨rfl, rfl, rfl, blocks⟩ := stands
  have role := (Shape.isLine_line isKey valid single isRow).2
  have storable : Storable s key row r (p.atLine (bareLine (s.line key row))) :=
    ⟨valid, isKey, single, bare, isRow, same, fresh, blocks⟩
  refine ⟨stored s key (p.atLine (bareLine (s.line key row))), ?_, rfl, rfl, rfl, ?_⟩
  · have declared := declare_written storable
    rw [step_eq]
    simp only [bareLine] at declared ⊢
    simp only [role, declared, settle]
  · change p.context.blocks.spendGuard = _
    rw [blocks]
    rfl

theorem valid_of_bare {units : UnitSystem} {realWithUnit : Bool} (valid : s.Valid units realWithUnit)
    (bare : s.unit = none) (other : Bool) : s.Valid units other where
  size := valid.size
  single := valid.single
  bare := valid.bare
  unit u hu := by simp [bare] at hu

theorem passes_description (stands : Stands p store topic none) {d : Datum}
    (argument : d.description.IsArgument) :
    ∃ q description, r.Passes nested world p ((Shape.descriptionLines d).map bareLine) q ∧
      Stands q store topic description ∧ description.getD [] = d.description ∧
      q.context.realWithUnit = p.context.realWithUnit := by
  unfold Shape.descriptionLines
  split_ifs with none
  · exact ⟨p, .none, .none p, stands, none.symm, rfl⟩
  · obtain ⟨q, step, described, unit⟩ := step_description stands argument none
    exact ⟨q, .some d.description, .next step (.none q), described, rfl, unit⟩

theorem passes_lines (stands : Stands p store topic none) (valid : s.Valid r.units true)
    (isKey : key.IsKey) (single : s.datum.data.SingleLine) (bare : s.datum.data.Unreferenced)
    (argument : s.datum.description.IsArgument) (fresh : store.get? key = none) {row : Text}
    (isRow : ValueToken.Row s.texts row) :
    ∃ q, r.Passes nested world p ((s.lines key row).map bareLine) q ∧
      Stands q (store.insert key s.restated) topic none := by
  unfold Shape.lines Shape.toggleLines
  cases unit : s.unit with
  | none =>
    obtain ⟨q, description, described, stands, same, -⟩ := passes_description stands argument
    obtain ⟨q', declared, stands⟩ :=
      step_declaration stands (valid_of_bare valid unit _) isKey single bare same fresh isRow
    exact ⟨q', by simpa using described.append (.next declared (.none q')), stands⟩
  | some u =>
    obtain ⟨q₁, enabled, stands, on⟩ := step_enable nested world r stands
    obtain ⟨q₂, description, described, stands, same, kept⟩ := passes_description stands argument
    obtain ⟨q₃, declared, stands⟩ :=
      step_declaration stands (by rwa [kept, on]) isKey single bare same fresh isRow
    obtain ⟨q₄, disabled, stands⟩ := step_disable stands
    refine ⟨q₄, ?_, stands⟩
    simpa using Passes.next enabled (described.append (.next declared (.next disabled (.none q₄))))

theorem result_of_passes {file : Option Text} {destination : Store} {t : Text}
    (passed : r.Passes nested world (r.begin file destination) ((Lines.significant t).map bareLine) p)
    (stands : Stands p store topic description) :
    (r.run nested world file destination (Text.encode t)).result = .ok (store, topic) := by
  have stepped := steps_of_passes passed false []
  rw [List.append_nil, steps] at stepped
  exact result_encode_eq_ok.mpr ⟨p, stepped, by rw [stands.blocks]; rfl, stands.store, stands.topic⟩

end Reader
end TypedProperties
