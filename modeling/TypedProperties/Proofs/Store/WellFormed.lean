import TypedProperties.Proofs.Store.Sound
import TypedProperties.Writing.Store

/-! Well-formed stores: what every read keeps, whatever its variants, and what a writer needs. -/
namespace TypedProperties

/-- A key that ends in front of a blank, a colon, a bracket or an assignment, and does not make its
line a comment. -/
structure Text.IsPlainKey (key : Text) : Prop where
  some : key ≠ []
  plain : ∀ c ∈ key, c ∉ [' ', '\t', '\r', '\n', '\x0c', ':', '[', ']', '=']
  first : key.head? ≠ Option.some Role.commentMark

theorem Text.IsKey.isPlainKey {key : Text} (h : key.IsKey) : key.IsPlainKey where
  some := h.some
  plain c hc := by
    obtain ⟨word, assign⟩ := h.word c hc
    simp only [HeadToken.isWordChar, isGap, Bool.not_or, Bool.and_eq_true, Bool.not_eq_true',
      decide_eq_false_iff_not, decide_eq_true_eq] at word
    simp only [List.mem_cons, List.not_mem_nil, or_false, not_or]
    exact ⟨word.1.1.1.1.1.1.1, word.1.1.1.1.1.1.2, word.1.1.1.1.1.2, word.1.1.1.1.2, word.1.1.1.2,
      word.1.1.2, word.1.2, word.2, assign⟩
  first mark := (h.first _ mark).1 rfl

/-- A datum that a writer can write: a scalar has one value, a unit is known, and the description is
one line. -/
structure Datum.WellFormed (units : UnitSystem) (d : Datum) : Prop where
  single : d.cardinality = .scalar → d.data.size = 1
  unit : ∀ symbol ∈ d.data.unit, (units.find? symbol).isSome
  description : d.description.IsTrimmed

structure Store.WellFormed (units : UnitSystem) (s : Store) : Prop where
  distinct : s.keys.Nodup
  keys : ∀ e ∈ s.entries, e.1.IsPlainKey
  data : ∀ e ∈ s.entries, e.2.WellFormed units

variable {units : UnitSystem}

theorem Datum.WellFormed.changed {old datum new : Datum} {mode : Mode} (h : old.WellFormed units)
    (vector : old.isVector = true) (done : Store.changed old datum mode = .ok new) :
    new.WellFormed units := by
  obtain ⟨data, rfl, unit, -⟩ := Store.changed_eq done
  exact ⟨fun scalar => absurd scalar (not_scalar_of_isVector vector),
    fun symbol hs => h.unit symbol (unit ▸ hs), h.description⟩

namespace Store

variable {s s' : Store} {key : Text} {datum : Datum}

theorem wellFormed_iff_each :
    s.WellFormed units ↔ s.Each fun key d => key.IsPlainKey ∧ d.WellFormed units :=
  ⟨fun h e he => ⟨h.keys e he, h.data e he⟩,
    fun each => ⟨s.distinct, fun e he => (each e he).1, fun e he => (each e he).2⟩⟩

theorem wellFormed_empty : empty.WellFormed units := wellFormed_iff_each.mpr .empty

theorem WellFormed.of_entries (h : s.WellFormed units) (same : s'.entries = s.entries) :
    s'.WellFormed units :=
  wellFormed_iff_each.mpr ((wellFormed_iff_each.mp h).of_entries same)

theorem WellFormed.put (h : s.WellFormed units) (isKey : key.IsPlainKey) (new : datum.WellFormed units)
    {mode : Mode} {allow replaced : Bool} (done : s.put key datum mode allow = (s', .ok replaced)) :
    s'.WellFormed units :=
  wellFormed_iff_each.mpr ((wellFormed_iff_each.mp h).put ⟨isKey, new⟩
    (fun old vector made => ⟨old.1, old.2.changed vector made⟩) done)

theorem WellFormed.merge {other : Store} (h : s.WellFormed units) (more : other.WellFormed units)
    {allow : Bool} (done : s.merge other allow = (s', none)) : s'.WellFormed units :=
  wellFormed_iff_each.mpr
    ((wellFormed_iff_each.mp h).mergeEntries (wellFormed_iff_each.mp more) done)

end Store

/-! Writing. -/

/-- The symbols that a writer prefers are known. -/
def WriteOptions.Known (units : UnitSystem) (o : WriteOptions) : Prop :=
  ∀ symbol ∈ o.preferredUnits, (units.find? symbol).isSome

namespace Datum

theorem preferredUnit_ok (key label : Text) {preferred : List Text}
    (known : ∀ symbol ∈ preferred, (units.find? symbol).isSome) :
    ∃ chosen, preferredUnit units key label preferred = .ok chosen := by
  induction preferred with
  | nil => exact ⟨none, rfl⟩
  | cons symbol rest ih =>
    obtain ⟨unit, found⟩ := Option.isSome_iff_exists.mp (known symbol List.mem_cons_self)
    simp only [preferredUnit, found]
    split_ifs
    · exact ⟨_, rfl⟩
    · exact ih fun symbol hs => known symbol (List.mem_cons_of_mem _ hs)

theorem outputUnit_ok (key : Text) {symbol : Text} {preferred : List Text}
    (known : ∀ symbol ∈ preferred, (units.find? symbol).isSome)
    (own : (units.find? symbol).isSome) : ∃ unit, outputUnit units preferred key symbol = .ok unit := by
  obtain ⟨unit, found⟩ := Option.isSome_iff_exists.mp own
  obtain ⟨chosen, preferred⟩ := preferredUnit_ok key unit.label known
  simp only [outputUnit, found, preferred]
  cases chosen with
  | none => exact ⟨_, rfl⟩
  | some chosen => exact ⟨_, rfl⟩

theorem WellFormed.write_ok {d : Datum} (h : d.WellFormed units) {o : WriteOptions} (known : o.Known units)
    (key : Text) : ∃ t, d.write units o key = .ok t := by
  cases own : d.data.unit with
  | none => exact ⟨_, by rw [write, own]⟩
  | some symbol =>
    obtain ⟨unit, chosen⟩ := outputUnit_ok key known (h.unit symbol own)
    exact ⟨_, by rw [write, own]; dsimp only; rw [chosen]⟩

end Datum

namespace Store

theorem writeEntries_ok {o : WriteOptions} (known : o.Known units) {entries : List (Text × Datum)}
    (data : ∀ e ∈ entries, e.2.WellFormed units) : ∃ t, writeEntries units o entries = .ok t := by
  induction entries with
  | nil => exact ⟨[], rfl⟩
  | cons e rest ih =>
    obtain ⟨key, datum⟩ := e
    obtain ⟨more, written⟩ := ih fun e he => data e (List.mem_cons_of_mem _ he)
    obtain ⟨t, first⟩ := (data _ List.mem_cons_self).write_ok known key
    simp only [writeEntries, written, first]
    split_ifs
    · exact ⟨_, rfl⟩
    · exact ⟨_, rfl⟩

theorem WellFormed.write_ok {s : Store} (h : s.WellFormed units) {o : WriteOptions} (known : o.Known units) :
    ∃ t, s.write units o = .ok t := by
  obtain ⟨entries, written⟩ := writeEntries_ok known h.data
  exact ⟨_, by rw [write, written]⟩

end Store
end TypedProperties
