import TypedProperties.Proofs.Reading.Steps

/-! Reads that go on from the same context and the same store: they agree up to their warnings, also
where a line is replaced by one that says the same. -/
namespace TypedProperties

variable {ρ σ : Type} [Variants ρ] [Searches σ]

/-- Two reads have got equally far, whatever they have warned about. -/
structure Progress.Agree (p q : Progress σ) : Prop where
  context : p.context = q.context
  store : p.store = q.store

namespace Progress

variable {p q : Progress σ}

theorem Agree.refl (p : Progress σ) : p.Agree p := ⟨rfl, rfl⟩

theorem Agree.atLine (agree : p.Agree q) {line line' : Line} (last : line.last = line'.last) :
    (p.atLine line).Agree (q.atLine line') :=
  ⟨by simp [Progress.atLine, agree.context, last], agree.store⟩

theorem Agree.setContext (agree : p.Agree q) {c c' : Context σ} (same : c = c') :
    (p.setContext c).Agree (q.setContext c') :=
  ⟨same, agree.store⟩

end Progress

theorem Directive.Does.agree {world : World} {p p' q : Progress σ} {directive : Directive} {e : Effect}
    (does : Does world p directive q e) (agree : p.Agree p') :
    ∃ q', Does world p' directive q' e ∧ q.Agree q' := by
  obtain ⟨context, store, warnings⟩ := p'
  obtain ⟨rfl, rfl⟩ := agree
  have warned : ∃ w, Does world ⟨p.context, p.store, warnings⟩ directive ⟨q.context, q.store, w⟩ e := by
    cases does <;> exact ⟨_, by constructor <;> assumption⟩
  obtain ⟨w, does⟩ := warned
  exact ⟨_, does, rfl, rfl⟩

namespace Reader

variable {nested : Reader ρ σ → Text → Outcome} {world : World} {r : Reader ρ σ} {p p' q : Progress σ}

/-- The segment of a declaration reads as some data. -/
def Tells (r : Reader ρ σ) (c : Context σ) (d : Declaration) (data : Data) : Prop :=
  ∃ segment readout, r.segmentOf c d = .ok segment ∧
    Readout.ofSegment r.units c.realWithUnit d segment = .ok readout ∧ readout.data = data

/-- A text reads as the same declaration as another one, up to values that tell the same where the
declaration is exhibited. -/
def SaysAs (r : Reader ρ σ) (c : Context σ) (text text' : Text) : Prop :=
  ∀ d, Declaration.ofLine r.units c.realWithUnit text = .ok d →
    ∃ values, Declaration.ofLine r.units c.realWithUnit text' = .ok { d with values } ∧
      (c.blocks.exhibits r.variants = .ok true →
        ∀ data, r.Tells c d data → r.Tells c { d with values } data)

theorem SaysAs.refl (c : Context σ) (text : Text) : r.SaysAs c text text :=
  fun d head => ⟨d.values, head, fun _ _ told => told⟩

theorem storeDatum_of_put {p : Progress σ} {d : Declaration} {datum : Datum} {store : Store}
    {replaced : Bool} (put : p.store.put d.key datum d.mode p.context.allowKeyOverride = (store, .ok replaced)) :
    ∃ q, storeDatum p d datum = (q, none) ∧ q.store = store ∧ q.context = p.context := by
  rw [storeDatum, put]
  cases replaced <;> exact ⟨_, rfl, rfl, rfl⟩

theorem exhibit_agree {d : Declaration} {values : Text} (done : r.exhibit p d = (q, none))
    (agree : p.Agree p')
    (told : ∀ data, r.Tells p.context d data → r.Tells p.context { d with values } data) :
    ∃ q', r.exhibit p' { d with values } = (q', none) ∧ q.Agree q' := by
  obtain ⟨segment, readout, store, replaced, taken, read, put, rfl, context, -⟩ := exhibit_cases done
  obtain ⟨segment', readout', taken', read', same⟩ :=
    told readout.data ⟨segment, readout, taken, read, rfl⟩
  rw [agree.context] at taken' read' put context
  rw [agree.store] at put
  have stored : ∃ q', storeDatum (trailingWarning (p'.setContext p'.context.undescribed) { d with values }
      readout'.trailing) { d with values } (datumOf { d with values } readout'.data p'.context.description) =
        (q', none) ∧ q'.store = q.store ∧ q'.context = p'.context.undescribed := by
    rw [same]
    cases readout'.trailing <;> exact storeDatum_of_put put
  obtain ⟨q', stored, store, context'⟩ := stored
  refine ⟨q', ?_, context.trans context'.symm, store.symm⟩
  rw [exhibit_eq, taken']
  dsimp only
  rw [read']
  exact stored

theorem declare_agree {text text' : Text} (done : r.declare p text = (q, none)) (agree : p.Agree p')
    (alike : r.SaysAs p.context text text') : ∃ q', r.declare p' text' = (q', none) ∧ q.Agree q' := by
  obtain ⟨d, head, shown⟩ := declare_cases done
  obtain ⟨values, head', told⟩ := alike d head
  have spent : (p.setContext p.context.spend).Agree (p'.setContext p'.context.spend) :=
    agree.setContext (by rw [agree.context])
  have declared : r.declare p' text' =
      r.declareHead (p'.setContext p'.context.start) { d with values } := by
    rw [declare_eq, ← agree.context, head']
  rw [declared, declareHead_eq]
  have asked : (p'.setContext p'.context.start).context.blocks.exhibits r.variants =
      p.context.blocks.exhibits r.variants := by
    rw [agree.context]
    rfl
  rw [asked]
  rcases shown with ⟨passed, rfl⟩ | ⟨exhibited, done⟩
  · rw [passed]
    exact ⟨_, rfl, spent⟩
  · rw [exhibited]
    exact exhibit_agree done spent (told exhibited)

theorem includeFile_agree {path : Text} (done : r.includeFile nested p path = .ok q)
    (agree : p.Agree p') : ∃ q', r.includeFile nested p' path = .ok q' ∧ q.Agree q' := by
  obtain ⟨store, topic, result, merged, context, -⟩ := includeFile_cases done
  rw [agree.context] at result context merged
  rw [agree.store] at merged
  simp only [includeFile, result, merged]
  exact ⟨_, rfl, context, rfl⟩

theorem step_agree {line line' : Line} {stop : Bool} (done : r.step nested world p line = .ok (q, stop))
    (agree : p.Agree p') (last : line.last = line'.last)
    (role : Role.ofText line'.text = Role.ofText line.text ∨
      ∃ text text', Role.ofText line.text = .declaration text ∧
        Role.ofText line'.text = .declaration text' ∧ r.SaysAs (p.atLine line).context text text') :
    ∃ q', r.step nested world p' line' = .ok (q', stop) ∧ q.Agree q' := by
  have agree := agree.atLine last
  rw [step_eq]
  rcases step_cases done with ⟨comment, rfl, rfl⟩ | ⟨text, directive, applied⟩ |
    ⟨text, declaration, declared, rfl⟩
  · obtain same | ⟨text, text', other, -⟩ := role
    · rw [same, comment]
      exact ⟨_, rfl, agree⟩
    · rw [comment] at other
      cases other
  · obtain same | ⟨text, text', other, -⟩ := role
    · rw [same, directive]
      dsimp only
      rw [direct]
      rcases applied with applied | ⟨p₁, path, applied, taken, rfl⟩
      · obtain ⟨d, read, does⟩ := Directive.applyText_eq_ok.mp applied
        obtain ⟨q', does, agree⟩ := does.agree agree
        rw [Directive.applyText_eq_ok.mpr ⟨d, read, does⟩]
        cases stop <;> exact ⟨q', rfl, agree⟩
      · obtain ⟨d, read, does⟩ := Directive.applyText_eq_ok.mp applied
        obtain ⟨p₁', does, agree⟩ := does.agree agree
        rw [Directive.applyText_eq_ok.mpr ⟨d, read, does⟩]
        obtain ⟨q', taken, agree⟩ := includeFile_agree taken agree
        dsimp only
        rw [taken]
        exact ⟨q', rfl, agree⟩
    · rw [directive] at other
      cases other
  · have alike : ∃ text', Role.ofText line'.text = .declaration text' ∧
        r.SaysAs (p.atLine line).context text text' := by
      obtain same | ⟨own, text', role, role', alike⟩ := role
      · exact ⟨text, same.trans declaration, .refl _ _⟩
      · obtain rfl := Role.declaration.inj (declaration.symm.trans role)
        exact ⟨text', role', alike⟩
    obtain ⟨text', role', alike⟩ := alike
    obtain ⟨q', declared, agree⟩ := declare_agree declared agree alike
    rw [role']
    dsimp only
    rw [declared]
    exact ⟨q', rfl, agree⟩

theorem steps_cons_agree {broken : Bool} {line line' : Line} {rest : List Line}
    (done : r.steps nested world broken p (line :: rest) = .ok q)
    (same : ∀ q₁ stop, r.step nested world p line = .ok (q₁, stop) →
      ∃ q', r.step nested world p' line' = .ok (q', stop) ∧ q₁.Agree q')
    (behind : ∀ q₁ q', q₁.Agree q' → r.steps nested world broken q₁ rest = .ok q →
      ∃ q'', r.steps nested world broken q' rest = .ok q'' ∧ q.Agree q'') :
    ∃ q', r.steps nested world broken p' (line' :: rest) = .ok q' ∧ q.Agree q' := by
  rw [steps] at done ⊢
  split at done
  next => cases done
  next q₁ stepped =>
    obtain rfl := Except.ok.inj done
    obtain ⟨q', stepped', agree⟩ := same q₁ true stepped
    exact ⟨q', by rw [stepped'], agree⟩
  next q₁ stepped =>
    obtain ⟨q', stepped', agree⟩ := same q₁ false stepped
    rw [stepped']
    exact behind q₁ q' agree done

theorem steps_agree {broken : Bool} {lines : List Line}
    (done : r.steps nested world broken p lines = .ok q) (agree : p.Agree p') :
    ∃ q', r.steps nested world broken p' lines = .ok q' ∧ q.Agree q' := by
  induction lines generalizing p p' with
  | nil =>
    unfold steps at done ⊢
    split_ifs at done ⊢
    obtain rfl := Except.ok.inj done
    exact ⟨p', rfl, agree⟩
  | cons line rest ih =>
    exact steps_cons_agree done (fun _ _ stepped => step_agree stepped agree rfl (.inl rfl))
      fun _ _ agree behind => ih behind agree

/-- Lines lead to the same where one of them is replaced by one that does the same there. -/
theorem steps_replace {broken : Bool} {before after : List Line} {line line' : Line}
    (done : r.steps nested world broken p (before ++ line :: after) = .ok q)
    (same : ∀ p₁ q₁ stop, r.Passes nested world p before p₁ →
      r.step nested world p₁ line = .ok (q₁, stop) →
      ∃ q', r.step nested world p₁ line' = .ok (q', stop) ∧ q₁.Agree q') :
    ∃ q', r.steps nested world broken p (before ++ line' :: after) = .ok q' ∧ q.Agree q' := by
  induction before generalizing p with
  | nil =>
    exact steps_cons_agree done (fun q₁ stop => same p q₁ stop (.none p))
      fun _ _ agree behind => steps_agree behind agree
  | cons first before ih =>
    rw [List.cons_append, steps] at done ⊢
    split at done
    next => cases done
    next q₁ stepped =>
      obtain rfl := Except.ok.inj done
      exact ⟨q₁, rfl, .refl q₁⟩
    next q₁ stepped =>
      exact ih done fun p₁ q₂ stop passed => same p₁ q₂ stop (.next stepped passed)

/-- What a read gives depends on the lines only as far as they say something. -/
theorem run_replace {file : Option Text} {destination : Store} {bytes bytes' : Bytes}
    {before after : List Line} {line line' : Line} {store : Store} {topic : Option Text}
    (lines : (Lines.ofBytes bytes).complete = before ++ line :: after)
    (lines' : (Lines.ofBytes bytes').complete = before ++ line' :: after)
    (broken : (Lines.ofBytes bytes').broken = (Lines.ofBytes bytes).broken)
    (same : ∀ p q stop, r.Passes nested world (r.begin file destination) before p →
      r.step nested world p line = .ok (q, stop) →
      ∃ q', r.step nested world p line' = .ok (q', stop) ∧ q.Agree q')
    (done : (r.run nested world file destination bytes).result = .ok (store, topic)) :
    (r.run nested world file destination bytes').result = .ok (store, topic) := by
  obtain ⟨p', stepped, closed, rfl, rfl⟩ := run_eq_ok.mp done
  rw [lines] at stepped
  obtain ⟨q', stepped, agree⟩ := steps_replace stepped same
  refine run_eq_ok.mpr ⟨q', ?_, ?_, agree.store.symm, ?_⟩
  · rw [lines', broken]
    exact stepped
  · rw [← agree.context]
    exact closed
  · rw [agree.context]

end Reader
end TypedProperties
