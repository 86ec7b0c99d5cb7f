import TypedProperties.Proofs.Reading.Written
import TypedProperties.Proofs.Unit.Symbol
import TypedProperties.Writing.Store

/-! A store that is written reads back. -/
namespace TypedProperties

namespace UnitSystem

def labelOf (units : UnitSystem) (symbol : Text) : Option Text := (units.find? symbol).map Measure.label

/-- The first preferred symbol of the same label, or else the symbol itself. -/
def chosen (units : UnitSystem) (preferred : List Text) (symbol : Text) : Text :=
  (preferred.find? fun other => units.labelOf other = units.labelOf symbol).getD symbol

def rounded (units : UnitSystem) (symbol : Text) (v : Float) : Float :=
  match units.find? symbol with
  | some unit => v / unit.factor * unit.factor
  | none => v

end UnitSystem

namespace Datum

/-- The datum that stands in a written form: reals with a unit are written in the chosen one. -/
def rewritten (units : UnitSystem) (preferred : List Text) (d : Datum) : Datum :=
  match d.data with
  | .real vs (some symbol) =>
    let chosen := units.chosen preferred symbol
    { d with data := .real (vs.map (units.rounded chosen)) (some chosen) }
  | _ => d

/-- Nothing in the datum is read as more than it says: no mark ends its description, and no string
opens a reference. -/
structure Restorable (d : Datum) : Prop where
  unmarked : d.description.getLast? ≠ some Lines.continuation
  bare : d.data.Unreferenced

end Datum

namespace Store

/-- Nothing in the store is read as more than it says. -/
structure Restorable (s : Store) : Prop where
  description : s.description.IsArgument ∧ Text.stripQuotes s.description = s.description
  data : ∀ e ∈ s.entries, e.2.Restorable

/-- No vector has more elements than fit into memory. -/
def FitsMemory (s : Store) : Prop := ∀ e ∈ s.entries, e.2.data.size < Nat.pow 2 63

end Store

/-- The topic reads back, and the preferred units are known. -/
structure WriteOptions.Valid (units : UnitSystem) (o : WriteOptions) : Prop where
  topic : ∀ topic ∈ o.topic, topic.IsArgument ∧ Text.stripQuotes topic = topic
  preferred : ∀ symbol ∈ o.preferredUnits, (units.find? symbol).isSome

namespace Datum

open Declaration

variable {units : UnitSystem} {o : WriteOptions} {d : Datum} {key : Text}

theorem preferredUnit_eq {label : Text} {preferred : List Text}
    (known : ∀ symbol ∈ preferred, (units.find? symbol).isSome) :
    preferredUnit units key label preferred =
      .ok ((preferred.find? fun other => units.labelOf other = some label).bind fun symbol =>
        (units.find? symbol).map fun unit => (symbol, unit.factor)) := by
  induction preferred with
  | nil => rfl
  | cons symbol rest ih =>
    obtain ⟨unit, hu⟩ := Option.isSome_iff_exists.mp (known symbol List.mem_cons_self)
    have rest := ih fun other h => known other (List.mem_cons_of_mem _ h)
    simp only [preferredUnit, hu, List.find?_cons, UnitSystem.labelOf, Option.map_some,
      Option.some.injEq]
    by_cases same : unit.label = label
    · simp [same, hu]
    · simp [same, rest, UnitSystem.labelOf]

theorem outputUnit_eq (key : Text) {symbol : Text} (unit : (units.find? symbol).isSome)
    (known : ∀ symbol ∈ o.preferredUnits, (units.find? symbol).isSome) :
    ∃ measure, units.find? (units.chosen o.preferredUnits symbol) = some measure ∧
      outputUnit units o.preferredUnits key symbol =
        .ok (units.chosen o.preferredUnits symbol, measure.factor) := by
  obtain ⟨measure, hm⟩ := Option.isSome_iff_exists.mp unit
  have label : units.labelOf symbol = some measure.label := by simp [UnitSystem.labelOf, hm]
  unfold outputUnit UnitSystem.chosen
  simp only [hm, preferredUnit_eq known, label]
  cases found : o.preferredUnits.find? fun other => units.labelOf other = some measure.label with
  | none => exact ⟨measure, by simpa using hm, rfl⟩
  | some other =>
    obtain ⟨chosen, hc⟩ := Option.isSome_iff_exists.mp (known other (List.mem_of_find?_eq_some found))
    exact ⟨chosen, by simpa using hc, by simp [hc]⟩

theorem rewritten_of_bare {preferred : List Text} (bare : d.data.unit = none) :
    d.rewritten units preferred = d := by
  unfold rewritten
  split
  next data => simp [data, Data.unit] at bare
  · rfl

theorem data_of_unit {symbol : Text} (unit : d.data.unit = some symbol) :
    ∃ vs, d.data = .real vs (some symbol) := by
  revert unit
  cases d.data <;> simp [Data.unit]

theorem exists_shape (sound : d.Sound StandardUnits.system) (size : d.data.size < Nat.pow 2 63)
    (known : ∀ symbol ∈ o.preferredUnits, (StandardUnits.system.find? symbol).isSome) (key : Text) :
    ∃ s : Shape, s.datum = d ∧ s.Valid StandardUnits.system true ∧
      s.restated = d.rewritten StandardUnits.system o.preferredUnits ∧
      d.write StandardUnits.system o key = .ok (d.text o.wrap key s.unit) := by
  cases unit : d.data.unit with
  | none =>
    refine ⟨⟨d, none⟩, rfl, ⟨size, sound.single, fun _ => unit, nofun⟩, ?_, ?_⟩
    · rw [rewritten_of_bare unit, Shape.restated, Shape.reread_of_none rfl]
    · rw [write, unit]
  | some symbol =>
    obtain ⟨vs, data⟩ := data_of_unit unit
    obtain ⟨measure, found, output⟩ :=
      outputUnit_eq key (sound.unit symbol unit) known
    refine ⟨⟨d, some (StandardUnits.system.chosen o.preferredUnits symbol, measure.factor)⟩, rfl,
      ⟨size, sound.single, nofun, ?_⟩, ?_, ?_⟩
    · rintro u ⟨⟩
      exact ⟨StandardUnits.isPlain_of_find? found, ⟨measure, found, rfl⟩, by rw [data]; rfl, rfl⟩
    · simp [Shape.restated, Shape.reread, rewritten, data, UnitSystem.rounded, found]
    · rw [write, unit]
      simp only [output]

end Datum

namespace Store

variable {o : WriteOptions} {nested : Reader → Text → Outcome} {world : World}

/-- The entries that are written, as they read back. -/
def rewritten (units : UnitSystem) (o : WriteOptions) (entries : List (Text × Datum)) :
    List (Text × Datum) :=
  (entries.filter fun e => !(o.skipPrivate && isPrivate e.1)).map fun e =>
    (e.1, e.2.rewritten units o.preferredUnits)

/-- Whole lines that add entries to the store of a read outside of blocks. -/
structure Adds (nested : Reader → Text → Outcome) (world : World) (r : Reader) (t : Text)
    (lines : List Text) (entries : List (Text × Datum)) : Prop where
  text : Lines.Says t lines
  passes {p : Progress} {store : Store} {topic : Option Text} (stands : Reader.Stands p store topic none)
    (fresh : ∀ e ∈ entries, store.get? e.1 = none) :
    ∃ q store', r.Passes nested world p (lines.map Reader.bareLine) q ∧
      Reader.Stands q store' topic none ∧ store'.description = store.description ∧
      store'.entries = store.entries ++ entries

theorem adds_datum (nested : Reader → Text → Outcome) (world : World) {d : Datum} {key : Text} (isKey : key.IsKey)
    (sound : d.Sound StandardUnits.system) (size : d.data.size < Nat.pow 2 63) (restorable : d.Restorable)
    (known : ∀ symbol ∈ o.preferredUnits, (StandardUnits.system.find? symbol).isSome) :
    ∃ t lines, d.write StandardUnits.system o key = .ok t ∧
      Adds nested world .standard (t ++ ['\n']) lines
        [(key, d.rewritten StandardUnits.system o.preferredUnits)] := by
  obtain ⟨s, rfl, valid, restated, written⟩ := Datum.exists_shape sound size known key
  have argument : s.datum.description.IsArgument := ⟨sound.description, restorable.unmarked⟩
  obtain ⟨row, isRow, text⟩ :=
    Declaration.Shape.says_text isKey valid sound.strings argument o.wrap
  refine ⟨_, _, written, text, fun {p store topic} stands fresh => ?_⟩
  have absent : store.get? key = none := fresh _ (List.mem_singleton.mpr rfl)
  obtain ⟨q, passed, stands⟩ := Reader.passes_lines (r := .standard) stands valid isKey sound.strings
    restorable.bare argument absent isRow
  rw [restated] at stands
  exact ⟨q, _, passed, stands, rfl, entries_insert_of_fresh absent _⟩

theorem Adds.append {r : Reader} {t t' : Text} {lines lines' : List Text}
    {entries entries' : List (Text × Datum)} (h : Adds nested world r t lines entries)
    (h' : Adds nested world r t' lines' entries')
    (distinct : ((entries ++ entries').map Prod.fst).Nodup) :
    Adds nested world r (t ++ t') (lines ++ lines') (entries ++ entries') where
  text := h.text.append h'.text
  passes {p store topic} stands fresh := by
    obtain ⟨q, store', first, stands, description, entries_eq⟩ :=
      h.passes stands fun e he => fresh e (List.mem_append_left _ he)
    have fresh' : ∀ e ∈ entries', store'.get? e.1 = none := fun e he => by
      have absent := fresh e (List.mem_append_right _ he)
      rw [get?, entries_eq, List.lookup_append, ← get?, absent, Option.none_or,
        List.lookup_eq_none_iff]
      intro e' he'
      rw [List.map_append, List.nodup_append] at distinct
      have apart := distinct.2.2 e'.1 (List.mem_map_of_mem he') e.1 (List.mem_map_of_mem he)
      simpa using apart.symm
    obtain ⟨q', store'', second, stands, description', entries_eq'⟩ := h'.passes stands fresh'
    refine ⟨q', store'', ?_, stands, description'.trans description, ?_⟩
    · rw [List.map_append]
      exact first.append second
    · rw [entries_eq', entries_eq, List.append_assoc]

theorem adds_entries (nested : Reader → Text → Outcome) (world : World)
    (known : ∀ symbol ∈ o.preferredUnits, (StandardUnits.system.find? symbol).isSome)
    {entries : List (Text × Datum)} (keys : ∀ e ∈ entries, e.1.IsKey)
    (data : ∀ e ∈ entries, e.2.Sound StandardUnits.system) (size : ∀ e ∈ entries, e.2.data.size < Nat.pow 2 63)
    (restorable : ∀ e ∈ entries, e.2.Restorable) (distinct : (entries.map Prod.fst).Nodup) :
    ∃ t lines, writeEntries StandardUnits.system o entries = .ok t ∧
      Adds nested world .standard t lines (rewritten StandardUnits.system o entries) := by
  induction entries with
  | nil => exact ⟨[], [], rfl, Lines.says_nil, fun {p store _} stands _ =>
      ⟨p, store, .none p, stands, rfl, (List.append_nil _).symm⟩⟩
  | cons e entries ih =>
    obtain ⟨key, d⟩ := e
    rw [List.map_cons, List.nodup_cons] at distinct
    obtain ⟨t', lines', written', adds'⟩ := ih (fun e he => keys e (List.mem_cons_of_mem _ he))
      (fun e he => data e (List.mem_cons_of_mem _ he)) (fun e he => size e (List.mem_cons_of_mem _ he))
      (fun e he => restorable e (List.mem_cons_of_mem _ he)) distinct.2
    by_cases skipped : o.skipPrivate ∧ isPrivate key
    · refine ⟨t', lines', ?_, ?_⟩
      · rw [writeEntries, if_pos skipped, written']
      · simpa [rewritten, skipped] using adds'
    · obtain ⟨t, lines, written, adds⟩ := adds_datum nested world
        (keys _ List.mem_cons_self) (data _ List.mem_cons_self) (size _ List.mem_cons_self)
        (restorable _ List.mem_cons_self) known
      have shown : rewritten StandardUnits.system o ((key, d) :: entries) =
          [(key, d.rewritten StandardUnits.system o.preferredUnits)] ++
            rewritten StandardUnits.system o entries := by
        simp only [rewritten, List.singleton_append]
        rw [List.filter_cons_of_pos (by simpa [← Bool.not_eq_true, imp_iff_not_or] using skipped), List.map_cons]
      have apart : (([(key, d.rewritten StandardUnits.system o.preferredUnits)] ++
          rewritten StandardUnits.system o entries).map Prod.fst).Nodup := by
        have sub : ((rewritten StandardUnits.system o entries).map Prod.fst).Sublist
            (entries.map Prod.fst) := by
          rw [rewritten, List.map_map]
          exact List.filter_sublist.map Prod.fst
        rw [List.singleton_append, List.map_cons, List.nodup_cons]
        exact ⟨fun mem => distinct.1 (sub.subset mem), distinct.2.sublist sub⟩
      refine ⟨t ++ ['\n'] ++ t', lines ++ lines', ?_, ?_⟩
      · rw [writeEntries, if_neg skipped, written, written']
        simp
      · rw [shown]
        exact adds.append adds' apart

def preambleLines (o : WriteOptions) (s : Store) : List Text :=
  (if s.description = [] then [] else [Text.ofString "#@configuration " ++ s.description]) ++
    match o.topic with
    | some topic => [Text.ofString "#@topic " ++ topic]
    | none => []

variable {s : Store}

theorem says_preamble (restorable : s.Restorable) (valid : o.Valid StandardUnits.system) :
    Lines.Says (preamble o s) (preambleLines o s) := by
  refine Lines.Says.append ?_ ?_
  · split_ifs
    · exact Lines.says_nil
    · have single : '\n' ∉ Text.ofString "configuration" := by decide
      have line := Lines.says_line (Lines.isLine_argument single restorable.description.1)
      simpa [Text.ofString] using line.append Lines.says_blank
  · cases topic : o.topic with
    | none => exact Lines.says_nil
    | some topic =>
      have single : '\n' ∉ Text.ofString "topic" := by decide
      exact Lines.says_line (Lines.isLine_argument single (valid.topic _ ‹_›).1)

theorem passes_preamble (nested : Reader → Text → Outcome) (world : World)
    (restorable : s.Restorable) (valid : o.Valid StandardUnits.system) :
    ∃ q, Reader.standard.Passes nested world (Reader.standard.begin none empty)
        ((preambleLines o s).map Reader.bareLine) q ∧
      Reader.Stands q { empty with description := s.description } (o.topic.filter (· ≠ [])) none := by
  have start : Reader.Stands (Reader.standard.begin none empty) empty none none := ⟨rfl, rfl, rfl, rfl⟩
  have described : ∃ q, Reader.standard.Passes nested world (Reader.standard.begin none empty)
      ((if s.description = [] then [] else [Text.ofString "#@configuration " ++ s.description]).map
        Reader.bareLine) q ∧
      Reader.Stands q { empty with description := s.description } none none ∧
      q.context.started = false ∧ q.context.expectedTopic = none := by
    split_ifs with silent
    · refine ⟨_, .none _, ?_, rfl, rfl⟩
      rw [silent]
      exact start
    · have step := Reader.step_config (p := Reader.standard.begin none empty) nested world .standard
        rfl rfl s.description
      rw [restorable.description.1.trimmed, restorable.description.2] at step
      exact ⟨_, .next step (.none _), ⟨rfl, rfl, rfl, rfl⟩, rfl, rfl⟩
  obtain ⟨q, passed, stands, first, any⟩ := described
  unfold preambleLines
  cases named : o.topic with
  | none => exact ⟨q, by simpa using passed, stands⟩
  | some topic =>
    obtain ⟨argument, bare⟩ := valid.topic topic named
    obtain ⟨q', step, stands⟩ := Reader.step_topic nested world .standard stands first any
      argument bare
    refine ⟨q', ?_, ?_⟩
    · rw [List.map_append]
      exact passed.append (.next step (.none q'))
    · simpa [Option.filter, ite_not] using stands

/-- What has been written reads back: the topic unless it is empty, and the store, less the private
entries if these are skipped, with reals in the units they were written in. -/
theorem read_write (world : World) {o : WriteOptions} {s : Store} (sound : s.Sound StandardUnits.system)
    (restorable : s.Restorable) (fits : s.FitsMemory) (valid : o.Valid StandardUnits.system) :
    ∃ t read topic, s.write StandardUnits.system o = .ok t ∧
      (Reader.standard.read world (Text.encode t)).result = .ok (read, topic) ∧
      topic = o.topic.filter (· ≠ []) ∧ read.description = s.description ∧
      read.entries = rewritten StandardUnits.system o s.entries := by
  let nested (r : Reader) (path : Text) : Outcome := Reader.runFile world world.nestingBound r empty path
  obtain ⟨entries, lines, written, adds⟩ :=
    adds_entries nested world valid.preferred sound.keys sound.data fits restorable.data s.distinct
  obtain ⟨p, opened, stands⟩ := passes_preamble nested world restorable valid
  obtain ⟨q, read, passed, stands, description, entries_eq⟩ := adds.passes stands fun _ _ => rfl
  have comment (line : Text) (single : '\n' ∉ line) (idle : Text.IsIdle line) :
      Lines.Says (line ++ ['\n']) [] := Lines.says_idle single idle
  have opening : Lines.Says (if o.headerFooter then header else []) [] := by
    split_ifs
    · exact (comment (Text.ofString "# List of configuration properties") (by decide)
        (.inr ⟨⟨_, rfl, by decide⟩, by decide⟩)).append Lines.says_blank
    · exact Lines.says_nil
  have closing : Lines.Says (if o.headerFooter then footer else []) [] := by
    split_ifs
    · exact comment (Text.ofString "# End of list of configuration properties") (by decide)
        (.inr ⟨⟨_, rfl, by decide⟩, by decide⟩)
    · exact Lines.says_nil
  have whole := (((opening.append (says_preamble restorable valid)).append adds.text).append closing).significant_eq
  refine ⟨_, read, _, by rw [write, written], ?_, rfl, description, entries_eq⟩
  refine Reader.result_of_passes (p := q) ?_ stands
  rw [whole, List.nil_append, List.append_nil, List.map_append]
  exact opened.append passed

/-- A store with a length in millimetres that is written in metres, and a private vector of strings. -/
theorem read_write_sizes :
    let length : Datum := ⟨.real [1.5] (some (Text.ofString "mm")), .scalar, true, Text.ofString "how long"⟩
    let names : Datum := ⟨.string [Text.ofString "a \"b\"", []] false, .vector, false, []⟩
    let s : Store := ⟨Text.ofString "sizes", [(Text.ofString "length", length), (Text.ofString "__names", names)],
      by decide⟩
    let o : WriteOptions := ⟨true, true, false, some (Text.ofString "demo"), [Text.ofString "m"]⟩
    s.Sound StandardUnits.system ∧ s.Restorable ∧ s.FitsMemory ∧ o.Valid StandardUnits.system ∧
      ∃ t read topic, s.write StandardUnits.system o = .ok t ∧
        (Reader.standard.read World.empty (Text.encode t)).result = .ok (read, topic) ∧
        topic = some (Text.ofString "demo") ∧ read.description = s.description ∧
        read.entries = rewritten StandardUnits.system o s.entries := by
  intro length names s o
  have sound : s.Sound StandardUnits.system := by
    refine ⟨?_, ?_, by decide⟩
    · simp only [s, List.forall_mem_cons]
      exact ⟨⟨by decide, by decide, by decide⟩, ⟨by decide, by decide, by decide⟩, nofun⟩
    · simp only [s, List.forall_mem_cons]
      exact ⟨⟨fun _ => rfl, by decide +kernel, nofun, by decide, by decide⟩,
        ⟨nofun, by decide, by unfold Data.SingleLine; decide, rfl, by decide⟩, nofun⟩
  have restorable : s.Restorable := by
    refine ⟨⟨⟨⟨by decide, by decide⟩, by decide⟩, by decide⟩, ?_⟩
    simp only [s, List.forall_mem_cons]
    exact ⟨⟨by decide, nofun⟩, ⟨by decide, by unfold Data.Unreferenced; decide +kernel⟩, nofun⟩
  have fits : s.FitsMemory := by
    simp only [FitsMemory, s, List.forall_mem_cons]
    exact ⟨by decide, by decide, nofun⟩
  have valid : o.Valid StandardUnits.system := by
    refine ⟨?_, by decide +kernel⟩
    rintro topic ⟨⟩
    exact ⟨⟨⟨by decide, by decide⟩, by decide⟩, by decide⟩
  exact ⟨sound, restorable, fits, valid, read_write _ sound restorable fits valid⟩

end Store
end TypedProperties
