import TypedProperties.Proofs.Reading.Override
import TypedProperties.Proofs.Reading.Tree

/-! What becomes of the entries of a store while it is filled: a declaration that replaces one is pointed
out, and an include that does is not. -/
namespace TypedProperties

variable {ρ σ : Type} [Variants ρ] [Searches σ]

/-- A vector with values that have been added to it or put in place of others, and any datum as it is. -/
inductive Datum.Grown (old : Datum) : Datum → Prop
  | same : Grown old old
  | more {mid new datum : Datum} {mode : Mode} (prior : Grown old mid) (vector : mid.isVector = true)
      (part : mode ≠ .declare) (made : Store.changed mid datum mode = .ok new) : Grown old new

namespace Datum

theorem Grown.trans {a b c : Datum} (first : a.Grown b) (second : b.Grown c) : a.Grown c := by
  induction second with
  | same => exact first
  | more _ vector part made ih => exact ih.more vector part made

theorem Grown.eq_of_scalar {old new : Datum} (grown : old.Grown new) (scalar : old.isVector = false) :
    new = old := by
  induction grown with
  | same => rfl
  | more _ vector _ _ ih =>
    subst ih
    simp [scalar] at vector

end Datum

theorem Store.grown_of_put {s s' : Store} {key other : Text} {datum old : Datum} {mode : Mode}
    {allow replaced : Bool} (done : s.put key datum mode allow = (s', .ok replaced))
    (present : s.get? other = some old) :
    (∃ new, s'.get? other = some new ∧ old.Grown new) ∨ (other = key ∧ replaced = true) := by
  by_cases same : other = key
  · subst same
    rcases put_cases done with ⟨absent, -⟩ | ⟨old', present', -, -,
      ⟨-, -, rfl⟩ | ⟨new, part, vector, -, made, rfl, -⟩⟩
    · simp [absent] at present
    · exact .inr ⟨rfl, rfl⟩
    · obtain rfl : old' = old := by simpa [present'] using present
      exact .inl ⟨new, get?_update_self present new, .more .same vector part made⟩
  · exact .inl ⟨old, (get?_of_put done same).trans present, .same⟩

namespace Reader

variable {nested : Reader ρ σ → Text → Outcome} {world : World} {r : Reader ρ σ} {p q : Progress σ}
  {line : Line} {key : Text} {old : Datum}

/-- A line includes a file that has an entry for a key. -/
def BringsKey (nested : Reader ρ σ → Text → Outcome) (world : World) (r : Reader ρ σ) (p : Progress σ)
    (line : Line) (key : Text) (store : Store) (warnings : List Warning) : Prop :=
  ∃ r' path topic, r.Asks world p line r' path ∧ (nested r' path).result = .ok (store, topic) ∧
    (nested r' path).warnings = warnings ∧ store.contains key = true

theorem entry_of_declare {text : Text} (done : r.declare p text = (q, none))
    (present : p.store.get? key = some old) :
    (∃ new, q.store.get? key = some new ∧ old.Grown new) ∨ .overriding key ∈ q.warnings := by
  obtain ⟨d, -, ⟨-, rfl⟩ | ⟨-, shown⟩⟩ := declare_cases done
  · exact .inl ⟨old, present, .same⟩
  · obtain ⟨segment, readout, store, replaced, -, -, put, rfl, -, warnings⟩ := exhibit_cases shown
    rcases Store.grown_of_put put present with grown | ⟨rfl, rfl⟩
    · exact .inl grown
    · exact .inr (by simp [warnings])

/-- A line lets an entry grow at most, or a declaration replaces it and says so, or the line includes a
file with an entry for the key. -/
theorem entry_of_step {stop : Bool} (done : r.step nested world p line = .ok (q, stop))
    (present : p.store.get? key = some old) :
    (∃ new, q.store.get? key = some new ∧ old.Grown new) ∨
      (line.isDeclaration = true ∧ .overriding key ∈ q.warnings) ∨
      ∃ store warnings, r.BringsKey nested world p line key store warnings := by
  rcases step_cases done with ⟨-, rfl, -⟩ | ⟨text, role, applied | ⟨p₁, path, applied, taken, -⟩⟩ |
    ⟨text, role, declared, -⟩
  · exact .inl ⟨old, present, .same⟩
  · obtain ⟨directive, -, does⟩ := Directive.applyText_eq_ok.mp applied
    have same : q.store.get? key = p.store.get? key := Store.get?_of_entries does.entries key
    exact .inl ⟨old, same.trans present, .same⟩
  · obtain ⟨store, topic, read, merged, -⟩ := includeFile_cases taken
    obtain ⟨-, -, -, -, -, rfl⟩ := Directive.applyText_eq_includeFile applied
    cases shared : store.contains key with
    | true =>
      exact .inr (.inr ⟨store, _, _, path, topic, ⟨text, _, role, applied, rfl⟩, read, rfl, shared⟩)
    | false => exact .inl ⟨old, (Store.get?_of_merge_of_absent merged shared).trans present, .same⟩
  · rcases entry_of_declare (p := p.atLine line) declared present with grown | told
    · exact .inl grown
    · exact .inr (.inl ⟨Line.isDeclaration_of_declaration role, told⟩)

/-- An include puts the entry of its file in place of another, and the only warnings are those of the
file. -/
theorem BringsKey.silent {store : Store} {warnings : List Warning} {stop : Bool}
    (brings : r.BringsKey nested world p line key store warnings)
    (done : r.step nested world p line = .ok (q, stop)) :
    q.store.get? key = store.get? key ∧ q.warnings = p.warnings ++ warnings := by
  obtain ⟨r', path, topic, asks, read, rfl, shared⟩ := brings
  obtain ⟨new, present⟩ := Option.isSome_iff_exists.mp shared
  have merged := Store.get?_of_merge (merge_of_asks asks read done) key
  have raised := raised_step_of_asks nested asks
  rw [done] at raised
  exact ⟨by simp [merged, present], raised⟩

theorem entry_of_steps {broken : Bool} {lines : List Line}
    (done : r.steps nested world broken p lines = .ok q) (present : p.store.get? key = some old) :
    (∃ new, q.store.get? key = some new ∧ old.Grown new) ∨ .overriding key ∈ q.warnings ∨
      ∃ front line rest p' store warnings, lines = front ++ line :: rest ∧ r.Passes nested world p front p' ∧
        r.BringsKey nested world p' line key store warnings := by
  induction lines generalizing p old with
  | nil =>
    unfold steps at done
    split_ifs at done
    obtain rfl := Except.ok.inj done
    exact .inl ⟨old, present, .same⟩
  | cons line rest ih =>
    have told {q₁ : Progress σ} {stop : Bool} (stepped : r.step nested world p line = .ok (q₁, stop)) :
        q₁.warnings <+: q.warnings := by
      have raised := raised_steps_cons nested world r p broken line rest
      rwa [stepped, done] at raised
    unfold steps at done
    split at done
    next => cases done
    next q₁ stepped =>
      obtain rfl := Except.ok.inj done
      rcases entry_of_step stepped present with grown | ⟨-, warned⟩ | ⟨store, warnings, brings⟩
      · exact .inl grown
      · exact .inr (.inl warned)
      · exact .inr (.inr ⟨[], line, rest, p, store, warnings, rfl, .none p, brings⟩)
    next q₁ stepped =>
      rcases entry_of_step stepped present with ⟨mid, present₁, grown⟩ | ⟨-, warned⟩ | ⟨store, warnings, brings⟩
      · rcases ih done present₁ with ⟨new, present₂, grown₂⟩ | warned |
          ⟨front, line', rest', p', store, warnings, split, passed, brings⟩
        · exact .inl ⟨new, present₂, grown.trans grown₂⟩
        · exact .inr (.inl warned)
        · exact .inr (.inr ⟨line :: front, line', rest', p', store, warnings,
            congrArg (line :: ·) split, .next stepped passed, brings⟩)
      · exact .inr (.inl ((told stepped).subset warned))
      · exact .inr (.inr ⟨[], line, rest, p, store, warnings, rfl, .none p, brings⟩)

end Reader

namespace Reading

variable {world : World} {x : Reading ρ σ} {before : List Line} {p : Progress σ}

theorem steps_of_outcome {after : List Line} {store : Store} {topic : Option Text}
    (lines : x.lines = before ++ after) (passed : x.Passes world before p)
    (done : (x.outcome world).result = .ok (store, topic)) :
    ∃ q, x.reader.steps (x.nested world) world (Lines.ofBytes x.bytes).broken p after = .ok q ∧
      q.store = store ∧ q.warnings = (x.outcome world).warnings := by
  have lines : (Lines.ofBytes x.bytes).complete = before ++ after := lines
  obtain ⟨q, stepped, same, -⟩ := Reader.run_of_passes lines passed done
  refine ⟨q, stepped, same, ?_⟩
  rw [outcome, Reader.warnings_run, lines, Reader.steps_of_passes passed, stepped]
  rfl

/-- Only includes override silently. Take an entry of the store at some point of a read, or of the read of a
file that it includes at any depth. The next line leaves the entry or lets it grow; or it is a declaration
and the whole read warns that the key is overridden; or it includes a file with an entry for the key, which
takes the place of the other while nothing is raised but the warnings of the file. So where the read succeeds
without a warning for the key, and no include behind the point brings an entry for it, the entry is still
there at the end, grown at most. -/
theorem only_includes_override_silently (world : World) {root y : Reading ρ σ} (within : root.Within world y)
    {before : List Line} {p : Progress σ} (passed : y.Passes world before p) {key : Text} {old : Datum}
    (present : p.store.get? key = some old) :
    (∀ line, y.Meets world before line p → ∀ q stop, y.step world p line = .ok (q, stop) →
      (∃ new, q.store.get? key = some new ∧ old.Grown new) ∨
      (line.isDeclaration = true ∧ .overriding key ∈ (root.outcome world).warnings) ∨
      ∃ store warnings, y.reader.BringsKey (y.nested world) world p line key store warnings ∧
        q.store.get? key = store.get? key ∧ q.warnings = p.warnings ++ warnings) ∧
    (∀ after, y.lines = before ++ after →
      ∀ store topic, (y.outcome world).result = .ok (store, topic) →
        .overriding key ∉ (root.outcome world).warnings →
        (∀ front line p' brought warnings, y.Meets world (before ++ front) line p' →
          ¬ y.reader.BringsKey (y.nested world) world p' line key brought warnings) →
        ∃ new, store.get? key = some new ∧ old.Grown new) := by
  have above := warnings_of_within within
  refine ⟨fun line met q stop stepped => ?_, fun after lines store topic done quiet apart => ?_⟩
  · rcases Reader.entry_of_step stepped present with grown | ⟨declares, warned⟩ | ⟨store, warnings, brings⟩
    · exact .inl grown
    · have raised := met.raised
      rw [stepped] at raised
      exact .inr (.inl ⟨declares, above (raised.subset warned)⟩)
    · exact .inr (.inr ⟨store, warnings, brings, brings.silent stepped⟩)
  · obtain ⟨q, stepped, rfl, warnings⟩ := steps_of_outcome lines passed done
    rcases Reader.entry_of_steps stepped present with grown | warned |
      ⟨front, line, rest, p', brought, warnings, rfl, reached, brings⟩
    · exact grown
    · exact absurd (above (warnings ▸ warned)) quiet
    · refine absurd brings (apart front line p' brought warnings ⟨⟨rest, ?_⟩, passed.append reached⟩)
      rw [lines, List.append_assoc]

/-- A file replaces a datum, and the read warns about nothing. -/
theorem only_includes_override_silently_without_a_warning :
    let world : World := ⟨⟨[([['i']], .file (Text.encode (Text.ofString "x = 2\n")))], [], []⟩, []⟩
    let root : Reading := ⟨1, .standard, none, .empty, Text.encode (Text.ofString "x = 1\n#@include \"i\"\n")⟩
    let datum (c : Char) : Datum := ⟨.string [[c]] false, .scalar, false, []⟩
    let p : Progress := ⟨{ root.start.context with location := ⟨none, none, 1⟩, started := true },
      Store.empty.insert ['x'] (datum '1'), []⟩
    let line : Line := ⟨Text.ofString "#@include \"i\"", 2, 2⟩
    (root.outcome world).result = .ok (Store.empty.insert ['x'] (datum '2'), none) ∧
      (root.outcome world).warnings = [] ∧
      root.Meets world [⟨Text.ofString "x = 1", 1, 1⟩] line p ∧ p.store.get? ['x'] = some (datum '1') ∧
      ¬ (datum '1').Grown (datum '2') ∧
      ∃ store, root.reader.BringsKey (root.nested world) world p line ['x'] store [] := by
  intro world root datum p line
  have done : (root.outcome world).result = .ok (Store.empty.insert ['x'] (datum '2'), none) := by decide +kernel
  have quiet : (root.outcome world).warnings = [] := by decide +kernel
  have met : root.Meets world [⟨Text.ofString "x = 1", 1, 1⟩] line p :=
    ⟨⟨[], by decide +kernel⟩, .next (by decide +kernel) (.none p)⟩
  have present : p.store.get? ['x'] = some (datum '1') := by decide +kernel
  have apart : ¬ (datum '1').Grown (datum '2') := fun grown => by
    have same := grown.eq_of_scalar rfl
    simp [datum] at same
  obtain ⟨next, -⟩ := only_includes_override_silently world (.refl : root.Within world root) met.passed present
  let q : Progress := ⟨{ p.context with location := ⟨none, none, 2⟩ }, Store.empty.insert ['x'] (datum '2'), []⟩
  refine ⟨done, quiet, met, present, apart, ?_⟩
  rcases next line met q false (by decide +kernel) with ⟨new, replaced, grown⟩ | ⟨declares, -⟩ |
    ⟨store, warnings, brings, -, raised⟩
  · have two : q.store.get? ['x'] = some (datum '2') := by decide +kernel
    obtain rfl := Option.some.inj (two.symm.trans replaced)
    exact absurd grown apart
  · have no : line.isDeclaration = false := by decide +kernel
    simp [no] at declares
  · obtain rfl : warnings = [] := by simpa [q, p] using raised.symm
    exact ⟨store, brings⟩

end Reading
end TypedProperties
