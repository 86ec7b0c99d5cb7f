import TypedProperties.Proofs.Reading.Sound
import TypedProperties.Proofs.Store.WellFormed

/-! Reads of any kind leave well-formed stores, which a writer can write. -/
namespace TypedProperties

variable {ρ σ : Type} [Variants ρ] [Searches σ]

theorem Declaration.known_ofLine {units : UnitSystem} {realWithUnit : Bool} {line : Text} {d : Declaration}
    (h : ofLine units realWithUnit line = .ok d) : UnitClause.Known units d.unit := by
  unfold ofLine at h
  split at h
  · cases h
  · exact (ofHead_eq h).2.1

theorem Readout.size_of_scalar {units : UnitSystem} {realWithUnit : Bool} {line segment : Text}
    {d : Declaration} {readout : Readout} (head : Declaration.ofLine units realWithUnit line = .ok d)
    (values : ofSegment units realWithUnit d segment = .ok readout) (scalar : d.cardinality = .scalar) :
    readout.data.size = 1 := by
  have size := (fits_of_ofSegment (Declaration.known_ofLine head) values).1.size
  cases declared : d.size with
  | none => simpa [declared] using size
  | some n => simp [Declaration.cardinality, declared] at scalar

/-- A read that has left nothing ill-formed so far. -/
structure Progress.WellFormed (units : UnitSystem) (p : Progress σ) : Prop where
  store : p.store.WellFormed units
  pending : ∀ text ∈ p.context.description, text.IsTrimmed

namespace Reader

variable {nested : Reader ρ σ → Text → Outcome} {world : World} {r : Reader ρ σ} {p p' : Progress σ}

theorem wellFormed_declare {line text : Text} (h : p.WellFormed r.units)
    (role : Role.ofText line = .declaration text) (done : r.declare p text = (p', none)) :
    p'.WellFormed r.units := by
  obtain ⟨rfl, first⟩ := Role.ofText_eq_declaration role
  obtain ⟨d, head, ⟨-, rfl⟩ | ⟨-, exhibited⟩⟩ := declare_cases done
  · exact ⟨h.store, h.pending⟩
  · obtain ⟨isKey, known, -⟩ := Declaration.sound_ofLine first head
    obtain ⟨segment, readout, store, replaced, -, values, put, rfl, context, -⟩ := exhibit_cases exhibited
    obtain ⟨fits, -⟩ := Readout.fits_of_ofSegment known values
    have new : (datumOf d readout.data p.context.description).WellFormed r.units :=
      ⟨Readout.size_of_scalar head values, fits.unit, by
        cases pending : p.context.description with
        | none => exact ⟨rfl, nofun⟩
        | some text => exact h.pending text pending⟩
    refine ⟨h.store.put isKey.isPlainKey new put, ?_⟩
    rw [context]
    exact nofun

theorem wellFormed_applyText {text : Text} {e : Effect} (h : p.WellFormed r.units) (single : '\n' ∉ text)
    (applied : Directive.applyText world p text = (p', .ok e)) : p'.WellFormed r.units := by
  obtain ⟨directive, read, does⟩ := Directive.applyText_eq_ok.mp applied
  exact ⟨h.store.of_entries does.entries, does.isTrimmed_description read single h.pending⟩

def NestedWellFormed (nested : Reader ρ σ → Text → Outcome) : Prop :=
  ∀ (r : Reader ρ σ) (path : Text) (store : Store) (topic : Option Text),
    (nested r path).result = .ok (store, topic) → store.WellFormed r.units

theorem wellFormed_includeFile {path : Text} (files : NestedWellFormed nested) (h : p.WellFormed r.units)
    (done : r.includeFile nested p path = .ok p') : p'.WellFormed r.units := by
  obtain ⟨store, topic, read, merged, context, -⟩ := includeFile_cases done
  refine ⟨h.store.merge (files (r.forIncluded p.context) path store topic read) merged, ?_⟩
  rw [context]
  exact h.pending

theorem wellFormed_step {line : Line} {stop : Bool} (files : NestedWellFormed nested)
    (single : '\n' ∉ line.text) (h : p.WellFormed r.units)
    (done : r.step nested world p line = .ok (p', stop)) : p'.WellFormed r.units := by
  have here : (p.atLine line).WellFormed r.units := ⟨h.store, h.pending⟩
  refine step_invariant (P := fun p => p.WellFormed r.units) (fun _ => here) (fun role applied => ?directive)
    (wellFormed_includeFile files) (wellFormed_declare here) done
  case directive =>
    exact wellFormed_applyText here (fun mem => single ((Role.ofText_eq_directive role).subset mem)) applied

theorem wellFormed_run {file : Option Text} {destination store : Store} {topic : Option Text}
    {bytes : Bytes} (files : NestedWellFormed nested)
    (start : r.options.dontClear = true → destination.WellFormed r.units)
    (done : (r.run nested world file destination bytes).result = .ok (store, topic)) :
    store.WellFormed r.units := by
  have begun : (r.begin file destination).WellFormed r.units := by
    refine ⟨?_, nofun⟩
    unfold begin
    dsimp only
    split_ifs with keep
    · exact start keep
    · exact Store.wellFormed_empty
  obtain ⟨p', stepped, -, rfl, -⟩ := run_eq_ok.mp done
  exact (steps_invariant (P := fun p => p.WellFormed r.units)
    (fun mem h stepped => wellFormed_step files (Lines.single_of_ofBytes bytes _ mem) h stepped)
    begun stepped).store

theorem wellFormed_runFile (world : World) (depth : Nat) :
    NestedWellFormed fun (r : Reader ρ σ) path => runFile world depth r .empty path := by
  induction depth with
  | zero =>
    intro r path store topic done
    cases done
  | succ depth ih =>
    intro r path store topic done
    unfold runFile at done
    dsimp only at done
    split at done
    next => cases done
    next => exact wellFormed_run ih (fun _ => Store.wellFormed_empty) done

/-- A read of any input into a destination that is replaced or well formed: a scalar declaration always
reads one value; and if the read succeeds, then its store is well formed, and every writer with the same
units that prefers known ones can write it. Files may be included, nested to any depth. -/
theorem stores_are_wellFormed (world : World) (depth : Nat) (r : Reader ρ σ) (file : Option Text)
    (destination : Store) (bytes : Bytes)
    (start : r.options.dontClear = true → destination.WellFormed r.units) :
    let nested := fun r path => runFile world depth r .empty path
    (∀ line d c segment readout, Declaration.ofLine r.units c.realWithUnit line = .ok d →
      r.segmentOf c d = .ok segment →
      Readout.ofSegment r.units c.realWithUnit d segment = .ok readout →
      d.cardinality = .scalar → readout.data.size = 1) ∧
    ∀ store topic, (r.run nested world file destination bytes).result = .ok (store, topic) →
      store.WellFormed r.units ∧ ∀ o : WriteOptions, o.Known r.units → ∃ t, store.write r.units o = .ok t := by
  refine ⟨fun line d c segment readout head _ values => Readout.size_of_scalar head values,
    fun store topic done => ?_⟩
  have h := wellFormed_run (wellFormed_runFile world depth) start done
  exact ⟨h, fun o known => h.write_ok known⟩

/-- Over a store that is kept, with a vector in a known unit, a vector is declared and changed, and
all can be written. -/
theorem stores_are_wellFormed_over_a_vector :
    let world := World.empty
    let r : Reader := { Reader.standard with
      options := { Options.standard with dontClear := true, allowKeyOverride := true } }
    let lengths : Datum := ⟨.real [] (some ['c', 'm']), .vector, false, []⟩
    let destination := Store.empty.insert ['l'] lengths
    let store := destination.insert ['n'] ⟨.integer [1, 7], .vector, false, ['s']⟩
    let bytes := Text.encode (Text.ofString "#@description s\nn : integer[2] = 1 2\nn[1] : integer = 7\n")
    (r.options.dontClear = true → destination.WellFormed r.units) ∧
      (r.run (fun r path => runFile world 0 r .empty path) world none destination bytes).result =
        .ok (store, none) ∧
      store.WellFormed r.units ∧ ∃ t, store.write r.units .standard = .ok t := by
  intro world r lengths destination store bytes
  have start : r.options.dontClear = true → destination.WellFormed r.units := fun _ =>
    Store.wellFormed_iff_each.mpr (.insert .empty ⟨⟨by decide, by decide, by decide⟩,
      ⟨nofun, by decide +kernel, ⟨by decide, by decide⟩⟩⟩)
  obtain ⟨-, written⟩ := stores_are_wellFormed world 0 r none destination bytes start
  have done : (r.run (fun r path => runFile world 0 r .empty path) world none destination bytes).result =
      .ok (store, none) := by decide +kernel
  obtain ⟨h, writable⟩ := written store none done
  exact ⟨start, done, h, writable .standard nofun⟩

end Reader
end TypedProperties
