import TypedProperties.Proofs.Declaration.Sound
import TypedProperties.Proofs.Directive.Line
import TypedProperties.Proofs.Line.Cut
import TypedProperties.Proofs.Reading.Steps
import TypedProperties.Proofs.Variant.Template

/-! Reads without variants leave sound stores. -/
namespace TypedProperties

namespace Directive

/-- A description is what stands behind the name of its directive, less quotes if it is of the store. -/
theorem ofParts_eq_description {name rest : Text} {directive : Directive}
    (h : ofParts name rest = .ok directive) :
    (∀ text, directive = .description text → text = rest) ∧
      ∀ text, directive = .config text → text = Text.stripQuotes rest := by
  unfold ofParts at h
  split at h
  all_goals first
    | obtain rfl := Except.ok.inj h
      simp [eq_comm]
    | obtain ⟨-, -, rfl⟩ := map_eq_ok.mp h
      simp
    | cases h

theorem ofText_eq_description {t text : Text} (h : ofText t = .ok (.description text)) :
    Text.trim text = text ∧ text <:+: t := by
  obtain rfl := (ofParts_eq_description h).1 text rfl
  refine ⟨Text.trim_trim _, ?_⟩
  exact (Text.isInfix_trim _).trans ((List.dropWhile_suffix _).isInfix.trans (Text.isInfix_trim t))

theorem ofText_eq_config {t text : Text} (h : ofText t = .ok (.config text)) : text <:+: t := by
  obtain rfl := (ofParts_eq_description h).2 text rfl
  exact (Text.isInfix_stripQuotes _).trans
    ((Text.isInfix_trim _).trans ((List.dropWhile_suffix _).isInfix.trans (Text.isInfix_trim t)))

/-- A description that waits behind a directive did so before, or is the text of the directive. -/
theorem Does.isTrimmed_description {σ : Type} [Searches σ] {world : World} {p q : Progress σ} {e : Effect}
    {directive : Directive} {t : Text} (does : Does world p directive q e) (read : ofText t = .ok directive) (single : '\n' ∉ t)
    (before : ∀ text ∈ p.context.description, text.IsTrimmed) :
    ∀ text ∈ q.context.description, text.IsTrimmed := by
  intro text pending
  rw [does.description_context] at pending
  rcases Option.or_eq_some_iff.mp pending with given | ⟨-, kept⟩
  · unfold described? at given
    split at given
    · split_ifs at given
      obtain rfl := Option.some.inj given
      obtain ⟨trimmed, inside⟩ := ofText_eq_description read
      exact ⟨trimmed, fun mem => single (inside.subset mem)⟩
    · cases given
  · exact before text kept

end Directive

/-- A read that has left nothing unsound so far. -/
structure Progress.Sound (units : UnitSystem) (p : Progress) : Prop where
  store : p.store.Sound units
  pending : ∀ text ∈ p.context.description, text.IsTrimmed

namespace Reader

variable {nested : Reader → Text → Outcome} {world : World} {r : Reader} {p p' : Progress}

theorem segmentOf_empty {d : Declaration} {segment : Text} (inactive : r.variants = .empty)
    (h : r.segmentOf p.context d = .ok segment) : segment.Sublist d.values := by
  unfold segmentOf at h
  split_ifs at h
  · split at h
    next replaced =>
      obtain rfl := Except.ok.inj h
      rw [inactive] at replaced
      exact (Repository.preprocess_empty replaced).1
    next => cases h
  · obtain rfl := Except.ok.inj h
    exact .refl _

theorem sound_datumOf {units : UnitSystem} {d : Declaration} {data : Data} {description : Option Text}
    (fits : Readout.Fits units d data) (single : data.SingleLine)
    (trimmed : ∀ text ∈ description, text.IsTrimmed) : (datumOf d data description).Sound units where
  single scalar := by
    cases size : d.size with
    | none => simpa [datumOf, size] using fits.size
    | some n => simp [datumOf, Declaration.cardinality, size] at scalar
  unit := fits.unit
  strings := single
  description := by
    cases description with
    | none => exact ⟨rfl, nofun⟩
    | some text => exact trimmed text rfl

theorem sound_exhibit {d : Declaration} (inactive : r.variants = .empty) (sound : p.Sound r.units)
    (isKey : d.key.IsKey) (known : Declaration.UnitClause.Known r.units d.unit) (single : '\n' ∉ d.values)
    (done : r.exhibit p d = (p', none)) : p'.Sound r.units := by
  obtain ⟨segment, readout, store, replaced, hs, hv, put, rfl, context, -⟩ := exhibit_cases done
  obtain ⟨fits, strings⟩ := Readout.fits_of_ofSegment known hv
  have inside := strings.trans (segmentOf_empty inactive hs)
  have data : readout.data.SingleLine := fun v hv mem =>
    single (inside.subset (List.mem_flatten.mpr ⟨v, hv, mem⟩))
  refine ⟨sound.store.put isKey (sound_datumOf fits data sound.pending) put, ?_⟩
  rw [context]
  exact nofun

theorem sound_declare {line text : Text} (inactive : r.variants = .empty) (sound : p.Sound r.units)
    (single : '\n' ∉ line) (role : Role.ofText line = .declaration text)
    (done : r.declare p text = (p', none)) : p'.Sound r.units := by
  obtain ⟨rfl, first⟩ := Role.ofText_eq_declaration role
  obtain ⟨d, head, ⟨-, rfl⟩ | ⟨-, exhibited⟩⟩ := declare_cases done
  · exact ⟨sound.store, sound.pending⟩
  · obtain ⟨isKey, known, values⟩ := Declaration.sound_ofLine first head
    refine sound_exhibit (p := p.setContext p.context.spend) inactive ⟨sound.store, sound.pending⟩ isKey known
      (fun mem => single ?_) exhibited
    exact (Text.isInfix_trim line).subset (values.subset mem)

theorem sound_applyText {text : Text} {e : Effect} (sound : p.Sound r.units) (single : '\n' ∉ text)
    (applied : Directive.applyText world p text = (p', .ok e)) : p'.Sound r.units := by
  obtain ⟨directive, read, does⟩ := Directive.applyText_eq_ok.mp applied
  refine ⟨⟨?keys, ?data, ?description⟩, does.isTrimmed_description read single sound.pending⟩
  case keys =>
    rw [does.entries]
    exact sound.store.keys
  case data =>
    rw [does.entries]
    exact sound.store.data
  case description =>
    rcases does.description_store with same | new
    · rw [same]
      exact sound.store.description
    · rw [new] at read
      exact fun mem => single ((Directive.ofText_eq_config read).subset mem)

def NestedSound (nested : Reader → Text → Outcome) : Prop :=
  ∀ (r : Reader) (path : Text) (store : Store) (topic : Option Text), r.variants = .empty →
    (nested r path).result = .ok (store, topic) → store.Sound r.units

theorem sound_includeFile {path : Text} (inactive : r.variants = .empty) (files : NestedSound nested)
    (sound : p.Sound r.units) (done : r.includeFile nested p path = .ok p') : p'.Sound r.units := by
  obtain ⟨store, topic, read, merged, context, -⟩ := includeFile_cases done
  have taken := files (r.forIncluded p.context) path store topic inactive read
  refine ⟨Store.Sound.mergeEntries taken.keys taken.data sound.store merged, ?_⟩
  rw [context]
  exact sound.pending

theorem sound_step {line : Line} {stop : Bool} (inactive : r.variants = .empty)
    (files : NestedSound nested) (single : '\n' ∉ line.text) (sound : p.Sound r.units)
    (done : r.step nested world p line = .ok (p', stop)) : p'.Sound r.units := by
  have here : (p.atLine line).Sound r.units := ⟨sound.store, sound.pending⟩
  refine step_invariant (P := fun p => p.Sound r.units) (fun _ => here) (fun role applied => ?directive)
    (sound_includeFile inactive files) (fun role => sound_declare inactive here single role) done
  case directive =>
    exact sound_applyText here (fun mem => single ((Role.ofText_eq_directive role).subset mem)) applied

/-- A read without variants into a sound store leaves a sound store, if so do the reads of the files
that it includes. -/
theorem sound_run {file : Option Text} {destination store : Store} {topic : Option Text} {bytes : Bytes}
    (inactive : r.variants = .empty) (files : NestedSound nested) (start : destination.Sound r.units)
    (done : (r.run nested world file destination bytes).result = .ok (store, topic)) :
    store.Sound r.units := by
  have begun : (r.begin file destination).Sound r.units := by
    refine ⟨?_, nofun⟩
    unfold begin
    dsimp only
    split_ifs
    · exact start
    · exact Store.sound_empty
  obtain ⟨p', stepped, -, rfl, -⟩ := run_eq_ok.mp done
  exact (steps_invariant (P := fun p => p.Sound r.units)
    (fun mem sound stepped => sound_step inactive files (Lines.single_of_ofBytes bytes _ mem) sound stepped)
    begun stepped).store

/-- So does the read of a file, with the files that it includes, by induction on how deep these are
nested. -/
theorem sound_runFile (world : World) (depth : Nat) (r : Reader) (path : Text) {destination store : Store}
    {topic : Option Text} (inactive : r.variants = .empty) (start : destination.Sound r.units)
    (done : (runFile world depth r destination path).result = .ok (store, topic)) :
    store.Sound r.units := by
  induction depth generalizing r path destination store topic with
  | zero => cases done
  | succ depth ih =>
    unfold runFile at done
    split at done
    next => cases done
    next bytes _ =>
      exact sound_run inactive (fun r' path' _ _ inactive' done' =>
        ih r' path' inactive' Store.sound_empty done') start done

theorem sound_read {bytes : Bytes} {store : Store} {topic : Option Text} (inactive : r.variants = .empty)
    (done : (r.read world bytes).result = .ok (store, topic)) : store.Sound r.units :=
  sound_run inactive (fun r' path _ _ inactive' done' =>
    sound_runFile world world.nestingBound r' path inactive' Store.sound_empty done') Store.sound_empty done

end Reader
end TypedProperties
