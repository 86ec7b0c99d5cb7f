import TypedProperties.Declaration.Head
import TypedProperties.Line.Logical
import TypedProperties.Line.Role
import TypedProperties.Proofs.Fallible
import TypedProperties.Proofs.Store.Change
import TypedProperties.Proofs.Text.Blank
import TypedProperties.Proofs.Token.Head
import TypedProperties.Variant.Template

/-! Sound stores: keys, values and descriptions as a read can bring them about. What is put into a sound
store or taken in by it leaves it sound. -/
namespace TypedProperties
namespace Text

/-- A key that is read as one word at the start of a declaration. -/
structure IsKey (key : Text) : Prop where
  some : key ≠ []
  word : ∀ c ∈ key, HeadToken.isWordChar c = true ∧ c ≠ Declaration.assignMark
  first : ∀ c ∈ key.head?, c ≠ Role.commentMark ∧ isSpace c = false

theorem IsKey.isWord {key : Text} (h : IsKey key) : HeadToken.IsWord key :=
  ⟨h.some, fun c hc => (h.word c hc).1⟩

theorem IsKey.not_mem {key : Text} (h : IsKey key) {c : Char} (other : HeadToken.isWordChar c = false) :
    c ∉ key := fun mem => by simp [(h.word c mem).1] at other

/-- One line without white space around it. -/
structure IsTrimmed (t : Text) : Prop where
  trimmed : trim t = t
  single : '\n' ∉ t

theorem IsTrimmed.tightEnd {t : Text} (h : IsTrimmed t) : TightEnd t := by
  rw [← h.trimmed]
  exact tightEnd_trim t

/-- A text that can be the argument of a directive: without a mark at its end, too. -/
structure IsArgument (t : Text) : Prop extends IsTrimmed t where
  unmarked : t.getLast? ≠ some Lines.continuation

end Text

namespace Data

def strings : Data → List Text
  | .string vs _ => vs
  | _ => []

def SingleLine (d : Data) : Prop := ∀ v ∈ d.strings, '\n' ∉ v

def Unreferenced (d : Data) : Prop := ∀ v ∈ d.strings, ¬ Template.openTag <:+: v

theorem append_eq {d e r : Data} (h : d.append e = .ok r) :
    r.unit = d.unit ∧ r.strings = d.strings ++ e.strings := by
  cases d <;> cases e <;> simp only [append, Except.ok.injEq, reduceCtorEq] at h <;> subst h <;>
    exact ⟨rfl, rfl⟩

theorem putFirst_eq {α : Type} {i : Nat} {vs ws r : List α} (h : putFirst i vs ws = .ok r) :
    ∃ w ∈ ws, r = vs.set i w := by
  cases ws with
  | nil => cases h
  | cons w ws => exact ⟨w, List.mem_cons_self, (Except.ok.inj h).symm⟩

theorem map_putFirst_eq {α : Type} {make : List α → Data} {i : Nat} {vs ws : List α} {r : Data}
    (h : (putFirst i vs ws).map make = .ok r) : ∃ w ∈ ws, r = make (vs.set i w) := by
  obtain ⟨new, put, rfl⟩ := map_eq_ok.mp h
  obtain ⟨w, mem, rfl⟩ := putFirst_eq put
  exact ⟨w, mem, rfl⟩

theorem replaceItem_eq {i : Nat} {d e r : Data} (h : d.replaceItem i e = .ok r) :
    r.unit = d.unit ∧ ∀ v ∈ r.strings, v ∈ d.strings ∨ v ∈ e.strings := by
  unfold replaceItem at h
  split_ifs at h
  split at h
  · obtain ⟨w, -, rfl⟩ := map_putFirst_eq h
    exact ⟨rfl, nofun⟩
  · obtain ⟨w, -, rfl⟩ := map_putFirst_eq h
    exact ⟨rfl, nofun⟩
  · obtain ⟨w, -, rfl⟩ := map_putFirst_eq h
    exact ⟨rfl, nofun⟩
  · obtain ⟨w, mem, rfl⟩ := map_putFirst_eq h
    refine ⟨rfl, fun v hv => ?_⟩
    rcases List.mem_or_eq_of_mem_set hv with old | rfl
    · exact .inl old
    · exact .inr mem
  · cases h

end Data

/-- A datum as a declaration can bring it about. -/
structure Datum.Sound (units : UnitSystem) (d : Datum) : Prop where
  single : d.cardinality = .scalar → d.data.size = 1
  unit : ∀ symbol ∈ d.data.unit, (units.find? symbol).isSome
  strings : d.data.SingleLine
  description : d.description.IsTrimmed

structure Store.Sound (units : UnitSystem) (s : Store) : Prop where
  keys : ∀ e ∈ s.entries, e.1.IsKey
  data : ∀ e ∈ s.entries, e.2.Sound units
  description : '\n' ∉ s.description

variable {units : UnitSystem}

/-- Changing a vector changes nothing but its values, to some that it had or that are new. -/
theorem Store.changed_eq {old datum new : Datum} {mode : Mode} (done : changed old datum mode = .ok new) :
    ∃ data : Data, new = { old with data } ∧ data.unit = old.data.unit ∧
      ∀ v ∈ data.strings, v ∈ old.data.strings ∨ v ∈ datum.data.strings := by
  unfold changed at done
  split at done
  · obtain ⟨data, put, rfl⟩ := map_eq_ok.mp done
    exact ⟨data, rfl, Data.replaceItem_eq put⟩
  · obtain ⟨data, put, rfl⟩ := map_eq_ok.mp done
    obtain ⟨unit, strings⟩ := Data.append_eq put
    exact ⟨data, rfl, unit, by simp [strings]⟩

theorem Datum.not_scalar_of_isVector {d : Datum} (vector : d.isVector = true) :
    d.cardinality ≠ .scalar := by
  simp only [isVector, decide_eq_true_eq] at vector
  simp [vector]

theorem Datum.Sound.changed {old datum new : Datum} {mode : Mode} (h : old.Sound units)
    (h' : datum.Sound units) (vector : old.isVector = true)
    (done : Store.changed old datum mode = .ok new) : new.Sound units := by
  obtain ⟨data, rfl, unit, strings⟩ := Store.changed_eq done
  refine ⟨fun scalar => absurd scalar (not_scalar_of_isVector vector),
    fun symbol hs => h.unit symbol (unit ▸ hs), fun v hv => ?_, h.description⟩
  exact (strings v hv).elim (h.strings v) (h'.strings v)

namespace Store

theorem sound_empty : empty.Sound units := ⟨nofun, nofun, by decide⟩

variable {s s' : Store} {key : Text} {datum : Datum}

theorem Sound.each (sound : s.Sound units) : s.Each fun key d => key.IsKey ∧ d.Sound units :=
  fun e he => ⟨sound.keys e he, sound.data e he⟩

theorem Sound.of_each (each : s'.Each fun key d => key.IsKey ∧ d.Sound units) (sound : s.Sound units)
    (description : s'.description = s.description) : s'.Sound units :=
  ⟨fun e he => (each e he).1, fun e he => (each e he).2, by rw [description]; exact sound.description⟩

theorem Sound.put (sound : s.Sound units) (isKey : key.IsKey) (h : datum.Sound units) {mode : Mode}
    {allow replaced : Bool} (done : s.put key datum mode allow = (s', .ok replaced)) :
    s'.Sound units :=
  .of_each (sound.each.put ⟨isKey, h⟩
    (fun old vector made => ⟨old.1, old.2.changed h vector made⟩) done) sound (description_of_put done)

theorem Sound.mergeEntries {entries : List (Text × Datum)} (keys : ∀ e ∈ entries, e.1.IsKey)
    (data : ∀ e ∈ entries, e.2.Sound units) (sound : s.Sound units) {allow : Bool}
    (done : mergeEntries allow s entries = (s', none)) : s'.Sound units :=
  .of_each (sound.each.mergeEntries (fun e he => ⟨keys e he, data e he⟩) done) sound
    (description_of_mergeEntries done)

end Store
end TypedProperties
