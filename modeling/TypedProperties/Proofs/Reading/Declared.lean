import TypedProperties.Proofs.Reading.Agree
import TypedProperties.Proofs.Reading.Unnumbered
import TypedProperties.Proofs.Store.Puts

/-! Texts without directives: what their lines declare is put into the store, one after another, and nothing
else becomes of it. -/
namespace TypedProperties

variable {ρ σ : Type} [Variants ρ] [Searches σ]

theorem toOption_eq_some {ε α : Type} {x : Except ε α} {a : α} : x.toOption = some a ↔ x = .ok a := by
  cases x <;> simp [Except.toOption]

/-- The key whose datum has given way to another whole datum. -/
def Warning.overridden? : Warning → Option Text
  | .overriding key => some key
  | _ => none

theorem Warning.overridden?_unnumbered (w : Warning) : w.unnumbered.overridden? = w.overridden? := by
  cases w <;> rfl

namespace Reader

variable {nested : Reader ρ σ → Text → Outcome} {world : World} {r : Reader ρ σ} {p q : Progress σ}
  {line : Text} {e : Declared}

/-- What a line declares that is read as at the start, if it can be read. -/
def declared? (r : Reader ρ σ) (line : Text) : Option Declared :=
  match Role.ofText line with
  | .declaration text => do
    let d ← (Declaration.ofLine r.units true text).toOption
    let segment ← (r.segmentOf (Context.initial r.options r.includes none) d).toOption
    let readout ← (Readout.ofSegment r.units true d segment).toOption
    return ⟨d.key, d.mode, datumOf d readout.data none⟩
  | _ => none

theorem declared?_eq_some : r.declared? line = some e ↔
    ∃ text d segment readout, Role.ofText line = .declaration text ∧
      Declaration.ofLine r.units true text = .ok d ∧
      r.segmentOf (Context.initial r.options r.includes none) d = .ok segment ∧
      Readout.ofSegment r.units true d segment = .ok readout ∧
      e = ⟨d.key, d.mode, datumOf d readout.data none⟩ := by
  unfold declared?
  cases Role.ofText line <;> simp [Option.bind_eq_some_iff, toOption_eq_some, @eq_comm Declared e]

/-- No directive has set anything that matters to a declaration, and none waits for one. -/
structure Untouched (r : Reader ρ σ) (c : Context σ) : Prop where
  blocks : c.blocks = .empty
  description : c.description = none
  realWithUnit : c.realWithUnit = true
  variantsEnabled : c.variantsEnabled = !r.options.forbidVariants
  removeQuotes : c.removeQuotes = true
  allowKeyOverride : c.allowKeyOverride = r.options.allowKeyOverride
  topic : c.topic = none

namespace Untouched

variable {c : Context σ}

theorem begin (r : Reader ρ σ) (file : Option Text) (destination : Store) :
    r.Untouched (r.begin file destination).context := ⟨rfl, rfl, rfl, rfl, rfl, rfl, rfl⟩

theorem atLine (h : r.Untouched c) (line : Nat) : r.Untouched (c.atLine line) :=
  ⟨h.blocks, h.description, h.realWithUnit, h.variantsEnabled, h.removeQuotes, h.allowKeyOverride, h.topic⟩

theorem spend (h : r.Untouched c) : r.Untouched c.spend := by
  refine ⟨?_, h.description, h.realWithUnit, h.variantsEnabled, h.removeQuotes, h.allowKeyOverride, h.topic⟩
  change c.blocks.spendGuard = .empty
  rw [h.blocks]
  rfl

theorem undescribed (h : r.Untouched c) : r.Untouched c.undescribed :=
  ⟨h.blocks, rfl, h.realWithUnit, h.variantsEnabled, h.removeQuotes, h.allowKeyOverride, h.topic⟩

theorem exhibits (h : r.Untouched c) : c.blocks.exhibits r.variants = .ok true := by
  rw [h.blocks]
  rfl

theorem segmentOf (h : r.Untouched c) (d : Declaration) :
    r.segmentOf c d = r.segmentOf (Context.initial r.options r.includes none) d := by
  unfold Reader.segmentOf
  rw [h.variantsEnabled, h.removeQuotes]
  rfl

end Untouched

theorem put_of_step (here : r.Untouched p.context) {stop : Bool} {text : Text}
    (role : Role.ofText line = .declaration text)
    (done : r.step nested world p (bareLine line) = .ok (q, stop)) :
    stop = false ∧ r.Untouched q.context ∧ ∃ e replaced, r.declared? line = some e ∧
      p.store.put e.key e.datum e.mode r.options.allowKeyOverride = (q.store, .ok replaced) ∧
      q.warnings.filterMap Warning.overridden? =
        p.warnings.filterMap Warning.overridden? ++ if replaced then [e.key] else [] := by
  have here : r.Untouched (p.atLine (bareLine line)).context := here.atLine _
  have spent := here.spend
  rcases step_cases done with ⟨role', -⟩ | ⟨text', role', -⟩ | ⟨text', role', declared, rfl⟩
  · simp [bareLine, role] at role'
  · simp [bareLine, role] at role'
  · obtain rfl := Role.declaration.inj (role.symm.trans role')
    obtain ⟨d, head, ⟨passed, -⟩ | ⟨-, shown⟩⟩ := declare_cases declared
    · exact absurd (passed.symm.trans here.exhibits) (by simp)
    · obtain ⟨segment, readout, store, replaced, taken, read, put, rfl, context, warnings⟩ := exhibit_cases shown
      rw [here.realWithUnit] at head
      rw [Progress.context_setContext, spent.segmentOf] at taken
      rw [Progress.context_setContext, spent.realWithUnit] at read
      rw [Progress.context_setContext, spent.description, spent.allowKeyOverride] at put
      refine ⟨rfl, context ▸ spent.undescribed, _, replaced,
        declared?_eq_some.mpr ⟨text, d, segment, readout, role, head, taken, read, rfl⟩, put, ?_⟩
      have trailing (n : Nat) : (readout.trailing.toList.map (Warning.trailing n d.key)).filterMap
          Warning.overridden? = [] := by cases readout.trailing <;> rfl
      rw [warnings, List.filterMap_append, List.filterMap_append, trailing, List.append_nil]
      cases replaced <;> rfl

theorem exhibit_of_put (here : r.Untouched p.context) {d : Declaration} {segment : Text} {readout : Readout}
    (taken : r.segmentOf (Context.initial r.options r.includes none) d = .ok segment)
    (read : Readout.ofSegment r.units true d segment = .ok readout) {s : Store} {replaced : Bool}
    (put : p.store.put d.key (datumOf d readout.data none) d.mode r.options.allowKeyOverride = (s, .ok replaced)) :
    ∃ q, r.exhibit p d = (q, none) ∧ q.store = s ∧ r.Untouched q.context := by
  have told : ∃ q, storeDatum (trailingWarning (p.setContext p.context.undescribed) d readout.trailing) d
      (datumOf d readout.data none) = (q, none) ∧ q.store = s ∧ q.context = p.context.undescribed := by
    rw [← here.undescribed.allowKeyOverride] at put
    cases readout.trailing <;> exact storeDatum_of_put put
  obtain ⟨q, stored, same, context⟩ := told
  refine ⟨q, ?_, same, context ▸ here.undescribed⟩
  rw [exhibit_eq, here.segmentOf, taken]
  dsimp only
  rw [here.realWithUnit, read, here.description]
  exact stored

theorem step_of_put (here : r.Untouched p.context) (declares : r.declared? line = some e) {s : Store}
    {replaced : Bool} (put : p.store.put e.key e.datum e.mode r.options.allowKeyOverride = (s, .ok replaced)) :
    ∃ q, r.step nested world p (bareLine line) = .ok (q, false) ∧ q.store = s ∧ r.Untouched q.context := by
  obtain ⟨text, d, segment, readout, role, head, taken, read, rfl⟩ := declared?_eq_some.mp declares
  have here : r.Untouched (p.atLine (bareLine line)).context := here.atLine _
  have spent : r.Untouched ((p.atLine (bareLine line)).setContext (p.atLine (bareLine line)).context.spend).context :=
    here.spend
  obtain ⟨q, shown, same, behind⟩ := exhibit_of_put spent taken read put
  have declared : r.declare (p.atLine (bareLine line)) text = (q, none) := by
    have exhibited := here.exhibits
    rw [declare_eq, here.realWithUnit, head]
    dsimp only
    rw [declareHead_eq, Progress.context_setContext, Context.start, exhibited]
    exact shown
  refine ⟨q, ?_, same, behind⟩
  have role : Role.ofText (bareLine line).text = .declaration text := role
  rw [step_eq, role]
  dsimp only
  rw [declared]
  rfl

/-! Whole texts. -/

/-- No line of a text is a directive, be it well-formed or not. -/
def Undirected (t : Text) : Prop := ∀ line ∈ Lines.significant t, ∀ text, Role.ofText line ≠ .directive text

theorem role_of_undirected {t : Text} (undirected : Undirected t) {line : Text} (mem : line ∈ Lines.significant t) :
    ∃ text, Role.ofText line = .declaration text := by
  have visible : Role.ofText line ≠ .comment := by simpa using (List.mem_filter.mp mem).2
  cases role : Role.ofText line with
  | comment => exact absurd role visible
  | directive text => exact absurd role (undirected line mem text)
  | declaration text => exact ⟨text, rfl⟩

theorem puts_of_steps {lines : List Text} (roles : ∀ line ∈ lines, ∃ text, Role.ofText line = .declaration text)
    (here : r.Untouched p.context) (done : r.steps nested world false p (lines.map bareLine) = .ok q) :
    r.Untouched q.context ∧ ∃ declared keys, lines.map r.declared? = declared.map some ∧
      Store.Puts r.options.allowKeyOverride p.store declared q.store keys ∧
      q.warnings.filterMap Warning.overridden? = p.warnings.filterMap Warning.overridden? ++ keys := by
  -- Every line leaves the settings untouched, so the next one is read as at the start, too.
  induction lines generalizing p with
  | nil =>
    obtain rfl : p = q := by simpa [steps] using done
    exact ⟨here, [], [], rfl, .none _, by simp⟩
  | cons line rest ih =>
    obtain ⟨text, role⟩ := roles line List.mem_cons_self
    obtain ⟨p₁, stop, stepped, behind⟩ := steps_cons done
    obtain ⟨rfl, here, e, replaced, declares, put, told⟩ := put_of_step here role stepped
    obtain ⟨there, declared, keys, same, puts, told'⟩ :=
      ih (fun line mem => roles line (List.mem_cons_of_mem _ mem)) here (behind rfl)
    refine ⟨there, e :: declared, _, ?_, .next put puts, ?_⟩
    · rw [List.map_cons, List.map_cons, declares, same]
    · rw [told', told, List.append_assoc]

theorem steps_of_puts {lines : List Text} {declared : List Declared} {s : Store} {keys : List Text}
    (same : lines.map r.declared? = declared.map some) (here : r.Untouched p.context)
    (puts : Store.Puts r.options.allowKeyOverride p.store declared s keys) :
    ∃ q, r.steps nested world false p (lines.map bareLine) = .ok q ∧ q.store = s ∧ r.Untouched q.context := by
  induction lines generalizing p declared keys with
  | nil =>
    obtain rfl := List.map_eq_nil_iff.mp same.symm
    cases puts
    exact ⟨p, rfl, rfl, here⟩
  | cons line rest ih =>
    cases puts with
    | none => simp at same
    | next put behind =>
      obtain ⟨declares, same⟩ := List.cons.inj same
      obtain ⟨p₁, stepped, rfl, here⟩ := step_of_put here declares put
      obtain ⟨q, done, stored, there⟩ := ih same here behind
      refine ⟨q, ?_, stored, there⟩
      rw [List.map_cons, steps, stepped]
      exact done

def startStore (r : Reader ρ σ) (destination : Store) : Store :=
  if r.options.dontClear then destination else .empty

/-- A text without directives that is read has put what it declares, and the keys whose data gave way to
others are told. -/
theorem puts_of_run {t : Text} (undirected : Undirected t) {file : Option Text} {destination store : Store}
    {topic : Option Text}
    (done : (r.run nested world file destination (Text.encode t)).result = .ok (store, topic)) :
    topic = none ∧ ∃ declared keys, (Lines.significant t).map r.declared? = declared.map some ∧
      Store.Puts r.options.allowKeyOverride (r.startStore destination) declared store keys ∧
      (r.run nested world file destination (Text.encode t)).warnings.filterMap Warning.overridden? = keys := by
  obtain ⟨q, stepped, closed, rfl, rfl⟩ := result_encode_eq_ok.mp done
  obtain ⟨there, declared, keys, same, puts, told⟩ :=
    puts_of_steps (fun line mem => role_of_undirected undirected mem) (.begin r file destination) stepped
  refine ⟨there.topic, declared, keys, same, puts, ?_⟩
  have alike := congrArg Outcome.warnings (unnumbered_run nested world r file destination t)
  rw [stepped, Except.bind, finish, Blocks.innermost, closed] at alike
  have overridden (warnings : List Warning) : (warnings.map Warning.unnumbered).filterMap Warning.overridden? =
      warnings.filterMap Warning.overridden? := by
    rw [List.filterMap_map]
    exact List.filterMap_congr fun w _ => w.overridden?_unnumbered
  calc (r.run nested world file destination (Text.encode t)).warnings.filterMap Warning.overridden?
      = (q.warnings.map Warning.unnumbered).filterMap Warning.overridden? := by
        rw [← overridden]
        exact congrArg _ alike
    _ = keys := by
        rw [overridden, told]
        rfl

theorem run_of_puts {t : Text} {file : Option Text} {destination store : Store} {declared : List Declared}
    {keys : List Text} (same : (Lines.significant t).map r.declared? = declared.map some)
    (puts : Store.Puts r.options.allowKeyOverride (r.startStore destination) declared store keys) :
    (r.run nested world file destination (Text.encode t)).result = .ok (store, none) := by
  have read : ∃ q, r.steps nested world false (r.begin file destination)
      ((Lines.significant t).map bareLine) = .ok q ∧ q.store = store ∧ r.Untouched q.context :=
    steps_of_puts same (.begin r file destination) puts
  obtain ⟨q, done, rfl, there⟩ := read
  exact result_encode_eq_ok.mpr ⟨q, done, by rw [there.blocks]; rfl, rfl, there.topic⟩

/-! Texts that declare whole data only. -/

section Whole

variable {file : Option Text} {destination : Store} {t : Text} {entries : List (Text × Datum)}

/-- The lines of a text declare these whole data, in this order. -/
def DeclaresWhole (r : Reader ρ σ) (t : Text) (entries : List (Text × Datum)) : Prop :=
  (Lines.significant t).map r.declared? = entries.map fun e => some (.whole e)

theorem DeclaresWhole.undirected (declares : r.DeclaresWhole t entries) : Undirected t := by
  intro line mem text role
  have known : r.declared? line ∈ entries.map fun e => some (.whole e) :=
    declares ▸ List.mem_map_of_mem mem
  obtain ⟨e, -, known⟩ := List.mem_map.mp known
  obtain ⟨text', -, -, -, role', -⟩ := declared?_eq_some.mp known.symm
  simp [role] at role'

theorem DeclaresWhole.unique (declares : r.DeclaresWhole t entries) {declared : List Declared}
    (same : (Lines.significant t).map r.declared? = declared.map some) : declared = entries.map .whole := by
  have whole : declared.map some = (entries.map Declared.whole).map some := by
    rw [← same, declares, List.map_map]
    rfl
  exact List.map_injective_iff.mpr (fun _ _ => Option.some.inj) whole

theorem DeclaresWhole.read_iff (declares : r.DeclaresWhole t entries) :
    (∃ read, (r.run nested world file destination (Text.encode t)).result = .ok read) ↔
      ∀ before e after, entries = before ++ e :: after →
        ((r.startStore destination).inserts before).yields r.options.allowKeyOverride e.1 = true := by
  rw [← Store.Puts.whole_iff]
  constructor
  · rintro ⟨⟨store, topic⟩, done⟩
    obtain ⟨-, declared, keys, same, puts, -⟩ := puts_of_run declares.undirected done
    obtain rfl := declares.unique same
    exact ⟨store, keys, puts⟩
  · rintro ⟨store, keys, puts⟩
    exact ⟨_, run_of_puts (declares.trans List.map_map.symm) puts⟩

theorem DeclaresWhole.eq_of_read (declares : r.DeclaresWhole t entries) {store : Store} {topic : Option Text}
    (done : (r.run nested world file destination (Text.encode t)).result = .ok (store, topic)) :
    topic = none ∧ store = (r.startStore destination).inserts entries ∧
      (r.run nested world file destination (Text.encode t)).warnings.filterMap Warning.overridden? =
        repeats (r.startStore destination).keys (entries.map Prod.fst) := by
  obtain ⟨rfl, declared, keys, same, puts, told⟩ := puts_of_run declares.undirected done
  obtain rfl := declares.unique same
  obtain ⟨rfl, rfl⟩ := puts.whole_eq
  exact ⟨rfl, rfl, told⟩

end Whole

/-- What becomes of a text that declares whole data and has no directives. Without overriding it is read if and
only if their keys are distinct and new, and its data come behind those that are there. With overriding it is
read if and only if no datum meets a locked one, be this from the start or declared in front of it; then come
first the entries for keys that are not declared, and then each declared key once, with its last datum, in the
order of these, and whenever a key is declared that has an entry, this is told. -/
theorem collisions_of_whole_data (nested : Reader ρ σ → Text → Outcome) (world : World) (r : Reader ρ σ)
    (file : Option Text) (destination : Store) {t : Text} {entries : List (Text × Datum)}
    (declares : r.DeclaresWhole t entries) :
    let start := r.startStore destination
    let keys := entries.map Prod.fst
    let o := r.run nested world file destination (Text.encode t)
    (r.options.allowKeyOverride = false →
      ((∃ read, o.result = .ok read) ↔ keys.Nodup ∧ ∀ key ∈ keys, key ∉ start.keys) ∧
      ∀ store topic, o.result = .ok (store, topic) → store.entries = start.entries ++ entries) ∧
    (r.options.allowKeyOverride = true →
      ((∃ read, o.result = .ok read) ↔ ∀ before e after, entries = before ++ e :: after →
        ∀ old, (before.reverse.lookup e.1).or (start.get? e.1) = some old → old.locked = false) ∧
      ∀ store topic, o.result = .ok (store, topic) →
        store.entries = start.entries.filter (fun e => e.1 ∉ keys) ++ lasting entries ∧
        o.warnings.filterMap Warning.overridden? = repeats start.keys keys) ∧
    ∀ store topic, o.result = .ok (store, topic) → store.description = start.description ∧ topic = none := by
  intro start keys o
  have read_iff : (∃ read, o.result = .ok read) ↔ ∀ before e after, entries = before ++ e :: after →
      (start.inserts before).yields r.options.allowKeyOverride e.1 = true := declares.read_iff
  refine ⟨fun off => ?off, fun on => ?on, fun store topic done => ?_⟩
  case off =>
    rw [off] at read_iff
    refine ⟨read_iff.trans Store.yields_false_iff, fun store topic done => ?_⟩
    obtain ⟨-, rfl, -⟩ := declares.eq_of_read done
    exact Store.entries_inserts_of_fresh fun before e after split =>
      Store.yields_false.mp (read_iff.mp ⟨_, done⟩ before e after split)
  case on =>
    rw [on] at read_iff
    refine ⟨read_iff.trans ?_, fun store topic done => ?_⟩
    · simp only [Store.yields_true, Store.get?_inserts]
    · obtain ⟨-, rfl, told⟩ := declares.eq_of_read done
      exact ⟨Store.entries_inserts start entries, told⟩
  · obtain ⟨none, rfl, -⟩ := declares.eq_of_read done
    exact ⟨Store.description_inserts start entries, none⟩

/-- A key of the store and a key of the text are declared again where that is allowed, and new keys where it
is not. -/
theorem collisions_of_whole_data_with_and_without_overriding :
    let reader (allowKeyOverride : Bool) : Reader :=
      { Reader.standard with options := { Options.standard with allowKeyOverride, dontClear := true } }
    let world := World.empty
    let nested := fun r path => runFile world 0 r .empty path
    let number (n : Int32) : Datum := .scalar (.integer [n])
    let start : Store := (Store.empty.insert ['b'] (number 1)).insert ['c'] (number 2)
    let again := Text.ofString "b : integer = 3\na : integer = 4\nb : integer = 5\n"
    let new := Text.ofString "a : integer = 3\n"
    (∃ store topic, ((reader true).run nested world none start (Text.encode again)).result = .ok (store, topic) ∧
      store.entries = [(['c'], number 2), (['a'], number 4), (['b'], number 5)] ∧
      ((reader true).run nested world none start (Text.encode again)).warnings.filterMap
        Warning.overridden? = [['b'], ['b']]) ∧
    ∃ store topic, ((reader false).run nested world none start (Text.encode new)).result = .ok (store, topic) ∧
      store.entries = [(['b'], number 1), (['c'], number 2), (['a'], number 3)] := by
  intro reader world nested number start again new
  refine ⟨?again, ?new⟩
  case again =>
    have declares : (reader true).DeclaresWhole again
        [(['b'], number 3), (['a'], number 4), (['b'], number 5)] := by
      unfold DeclaresWhole
      decide +kernel
    obtain ⟨-, on, -⟩ := collisions_of_whole_data nested world (reader true) none start declares
    obtain ⟨read_iff, read⟩ := on rfl
    have free : ∀ before e after, [(['b'], number 3), (['a'], number 4), (['b'], number 5)] = before ++ e :: after →
        ∀ old, (before.reverse.lookup e.1).or (start.get? e.1) = some old → old.locked = false := by
      refine forall_splits_cons.mpr ⟨?_, forall_splits_cons.mpr ⟨?_, forall_splits_cons.mpr ⟨?_, by simp⟩⟩⟩
      · rintro old ⟨⟩
        rfl
      · rintro old ⟨⟩
      · rintro old ⟨⟩
        rfl
    obtain ⟨⟨store, topic⟩, done⟩ := read_iff.mpr free
    obtain ⟨stored, told⟩ := read store topic done
    refine ⟨store, topic, done, ?_, ?_⟩
    · rw [stored]
      decide
    · rw [told]
      decide
  case new =>
    have declares : (reader false).DeclaresWhole new [(['a'], number 3)] := by
      unfold DeclaresWhole
      decide +kernel
    obtain ⟨off, -, -⟩ := collisions_of_whole_data nested world (reader false) none start declares
    obtain ⟨read_iff, read⟩ := off rfl
    obtain ⟨⟨store, topic⟩, done⟩ := read_iff.mpr (by decide)
    refine ⟨store, topic, done, ?_⟩
    rw [read store topic done]
    rfl

/-! One text behind another. -/

theorem Undirected.append {a b : Text} (whole : a.AtLineStart) (first : Undirected a) (second : Undirected b) :
    Undirected (a ++ b) := by
  intro line mem
  rw [Lines.says_significant whole b] at mem
  exact (List.mem_append.mp mem).elim (first line) (second line)

end Reader
end TypedProperties
