import TypedProperties.Proofs.Store.Order
import TypedProperties.Reading.Fault

/-! The collision policy as a table: when a datum can be put under its key, what it then makes of the store, and
that it makes nothing of it otherwise. -/
namespace TypedProperties

inductive Element where
  | boolean (value : Bool)
  | integer (value : Int32)
  | real (value : Float)
  | string (value : Text)
  deriving DecidableEq

namespace Data

variable {d e r : Data} {i : Nat}

def elements : Data → List Element
  | .boolean vs => vs.map .boolean
  | .integer vs => vs.map .integer
  | .real vs _ => vs.map .real
  | .string vs _ => vs.map .string

/-- Data of one kind, unit symbol and path flag. -/
structure Alike (d e : Data) : Prop where
  kind : d.kind = e.kind
  unit : d.unit = e.unit
  isPath : d.isPath = e.isPath

theorem compatible_iff : d.compatible e = true ↔ d.Alike e := by
  simp only [compatible, Bool.and_eq_true, decide_eq_true_eq]
  constructor
  · rintro ⟨⟨kind, unit⟩, isPath⟩
    exact ⟨kind, unit, isPath⟩
  · rintro ⟨kind, unit, isPath⟩
    exact ⟨⟨kind, unit⟩, isPath⟩

theorem exists_append_iff : (∃ r, d.append e = .ok r) ↔ d.kind = e.kind := by
  cases d <;> cases e <;> simp [append, kind]

theorem elements_append (done : d.append e = .ok r) : r.elements = d.elements ++ e.elements := by
  cases d <;> cases e <;> simp only [append, Except.ok.injEq, reduceCtorEq] at done <;> subst done <;>
    simp [elements]

theorem exists_map_putFirst_iff {α : Type} {make : List α → Data} {vs ws : List α} :
    (∃ r, (putFirst i vs ws).map make = .ok r) ↔ 0 < ws.length := by
  cases ws <;> simp [putFirst, Except.map]

theorem elements_map_putFirst {α : Type} {make : List α → Data} {wrap : α → Element} {vs ws : List α}
    (wraps : ∀ vs, (make vs).elements = vs.map wrap) (done : (putFirst i vs ws).map make = .ok r) :
    ∃ v, (ws.map wrap).head? = some v ∧ r.elements = (vs.map wrap).set i v := by
  cases ws with
  | nil => cases done
  | cons w ws =>
    obtain rfl := Except.ok.inj done
    exact ⟨wrap w, rfl, by rw [wraps, List.map_set]⟩

theorem exists_replaceItem_iff :
    (∃ r, d.replaceItem i e = .ok r) ↔ i < d.size ∧ d.kind = e.kind ∧ 0 < e.size := by
  unfold replaceItem
  split_ifs with outside
  · simp [Nat.not_lt.mpr outside]
  · simp only [Nat.lt_of_not_le outside, true_and]
    cases d <;> cases e <;>
      simp only [exists_map_putFirst_iff, kind, size, true_and, reduceCtorEq, exists_false, false_and]

theorem elements_replaceItem (done : d.replaceItem i e = .ok r) :
    ∃ v, e.elements.head? = some v ∧ r.elements = d.elements.set i v := by
  unfold replaceItem at done
  split_ifs at done
  cases d <;> cases e <;> first
    | exact elements_map_putFirst (fun _ => rfl) done
    | cases done

end Data

/-- A vector that takes in values like its own; as one of its items, the first of these. -/
structure Datum.Takes (old datum : Datum) (mode : Mode) : Prop where
  vector : old.cardinality = .vector
  alike : old.data.Alike datum.data
  inside : ∀ i, mode = .item i → i < old.data.size ∧ 0 < datum.data.size

namespace Store

variable {s s' : Store} {key : Text} {datum : Datum} {mode : Mode} {allow replaced : Bool}

/-- The rows of the policy: a new key can only be declared; over a datum that is not locked, if overriding is
allowed, another can be declared, and into a vector go values like its own. -/
def Admits (s : Store) (key : Text) (datum : Datum) (mode : Mode) (allow : Bool) : Prop :=
  (s.get? key = none ∧ mode = .declare) ∨
    ∃ old, s.get? key = some old ∧ old.locked = false ∧ allow = true ∧ (mode = .declare ∨ old.Takes datum mode)

/-- What becomes of a store: a whole datum comes behind all other entries, and further or other values of a
vector change nothing else. -/
inductive Enters (s : Store) (key : Text) (datum : Datum) : Mode → Store → Prop
  | whole {s' : Store} (entries : s'.entries = s.entries.filter (·.1 ≠ key) ++ [(key, datum)])
      (description : s'.description = s.description) : Enters s key datum .declare s'
  | further {s' : Store} {before after : List (Text × Datum)} {old : Datum} {data : Data}
      (there : s.entries = before ++ (key, old) :: after)
      (entries : s'.entries = before ++ (key, { old with data }) :: after)
      (description : s'.description = s.description) (alike : old.data.Alike data)
      (elements : data.elements = old.data.elements ++ datum.data.elements) : Enters s key datum .append s'
  | item {s' : Store} {before after : List (Text × Datum)} {old : Datum} {data : Data} {i : Nat} {v : Element}
      (there : s.entries = before ++ (key, old) :: after)
      (entries : s'.entries = before ++ (key, { old with data }) :: after)
      (description : s'.description = s.description) (alike : old.data.Alike data)
      (first : datum.data.elements.head? = some v)
      (elements : data.elements = old.data.elements.set i v) : Enters s key datum (.item i) s'

/-- Values like those of a vector go into it, unless there is no item to replace or nothing to replace it by. -/
theorem exists_changed_iff {old : Datum} (alike : old.data.Alike datum.data) :
    (∃ new, changed old datum mode = .ok new) ↔
      ∀ i, mode = .item i → i < old.data.size ∧ 0 < datum.data.size := by
  have exists_map {x : Except Data.Fault Data} :
      (∃ new, (x.map fun data => { old with data }) = .ok new) ↔ ∃ data, x = .ok data := by
    cases x <;> simp [Except.map]
  unfold changed
  split
  next i => simp [exists_map, Data.exists_replaceItem_iff, alike.kind]
  next noItem => simpa [exists_map, Data.exists_append_iff, alike.kind] using fun i item => (noItem i item).elim

theorem exists_put_iff :
    (∃ s' replaced, s.put key datum mode allow = (s', .ok replaced)) ↔ s.Admits key datum mode allow := by
  constructor
  · rintro ⟨s', replaced, done⟩
    rcases put_cases done with ⟨absent, whole, -⟩ |
      ⟨old, present, free, allowed, ⟨whole, -⟩ | ⟨new, -, vector, alike, made, -⟩⟩
    · exact .inl ⟨absent, whole⟩
    · exact .inr ⟨old, present, free, allowed, .inl whole⟩
    · have alike := Data.compatible_iff.mp alike
      exact .inr ⟨old, present, free, allowed,
        .inr ⟨by simpa [Datum.isVector] using vector, alike, (exists_changed_iff alike).mp ⟨new, made⟩⟩⟩
  · rintro (⟨absent, rfl⟩ | ⟨old, present, free, rfl, fits⟩)
    · exact ⟨_, _, by rw [put, absent]⟩
    · by_cases whole : mode = .declare
      · exact ⟨s.insert key datum, true, by simp [put, present, free, whole]⟩
      · have takes := fits.resolve_left whole
        have vector : old.isVector = true := by simp [Datum.isVector, takes.vector]
        have alike := Data.compatible_iff.mpr takes.alike
        obtain ⟨new, made⟩ := (exists_changed_iff takes.alike).mpr takes.inside
        exact ⟨s.update key new, false, by simp [put, present, free, whole, vector, alike, made]⟩

theorem changed_cases {old new : Datum} (part : mode ≠ .declare) (made : changed old datum mode = .ok new) :
    ∃ data, new = { old with data } ∧ old.data.Alike data ∧
      ((mode = .append ∧ data.elements = old.data.elements ++ datum.data.elements) ∨
        ∃ i v, mode = .item i ∧ datum.data.elements.head? = some v ∧
          data.elements = old.data.elements.set i v) := by
  cases mode with
  | declare => exact absurd rfl part
  | append =>
    obtain ⟨data, done, rfl⟩ := map_eq_ok.mp made
    exact ⟨data, rfl, Data.compatible_iff.mp (Data.compatible_append done), .inl ⟨rfl, Data.elements_append done⟩⟩
  | item i =>
    obtain ⟨data, done, rfl⟩ := map_eq_ok.mp made
    obtain ⟨v, first, elements⟩ := Data.elements_replaceItem done
    exact ⟨data, rfl, Data.compatible_iff.mp (Data.compatible_replaceItem done),
      .inr ⟨i, v, rfl, first, elements⟩⟩

theorem enters_of_put (done : s.put key datum mode allow = (s', .ok replaced)) :
    s.Enters key datum mode s' := by
  rcases put_cases done with ⟨-, rfl, rfl, -⟩ | ⟨old, present, -, -, ⟨rfl, rfl, -⟩ | ⟨new, part, -, -, made, rfl, -⟩⟩
  · exact .whole rfl rfl
  · exact .whole rfl rfl
  · obtain ⟨before, after, there, entries⟩ := entries_update present new
    obtain ⟨data, rfl, alike, ⟨rfl, elements⟩ | ⟨i, v, rfl, first, elements⟩⟩ := changed_cases part made
    · exact .further there entries rfl alike elements
    · exact .item there entries rfl alike first elements

/-- A datum gets under its key exactly where the policy admits it, and does to the store what the policy says.
Everywhere else that is forbidden, and leaves the store as it was. -/
theorem data_enter_by_the_policy (s : Store) (key : Text) (datum : Datum) (mode : Mode) (allow : Bool) :
    ((∃ s' replaced, s.put key datum mode allow = (s', .ok replaced)) ↔ s.Admits key datum mode allow) ∧
    (∀ s' replaced, s.put key datum mode allow = (s', .ok replaced) → s.Enters key datum mode s') ∧
    ∀ s' collision, s.put key datum mode allow = (s', .error collision) →
      (Fault.collision collision).kind = .forbidden ∧ s' = s :=
  ⟨exists_put_iff, fun _ _ => enters_of_put, fun _ _ refused => ⟨rfl, put_error refused⟩⟩

/-- An item of a vector is replaced; there is none behind the last. -/
theorem data_enter_by_the_policy_into_a_vector :
    let nine : Datum := .scalar (.integer [9])
    let s := empty.insert ['v'] (.vector (.integer [1, 2, 3]))
    let s' := empty.insert ['v'] (.vector (.integer [1, 9, 3]))
    s.put ['v'] nine (.item 1) true = (s', .ok false) ∧ s.Enters ['v'] nine (.item 1) s' ∧
      (s.put ['v'] nine (.item 3) true).2 = .error (.values (.itemRange 3 3)) ∧
      ¬ s.Admits ['v'] nine (.item 3) true ∧ (s.put ['v'] nine (.item 3) true).1 = s := by
  intro nine s s'
  have replaced : s.put ['v'] nine (.item 1) true = (s', .ok false) := by decide
  have outside : (s.put ['v'] nine (.item 3) true).2 = .error (.values (.itemRange 3 3)) := by decide
  obtain ⟨-, enters, -⟩ := data_enter_by_the_policy s ['v'] nine (.item 1) true
  obtain ⟨admits, -, fails⟩ := data_enter_by_the_policy s ['v'] nine (.item 3) true
  refine ⟨replaced, enters _ _ replaced, outside, fun admitted => ?_, (fails _ _ (Prod.ext rfl outside)).2⟩
  obtain ⟨_, _, done⟩ := admits.mpr admitted
  cases outside.symm.trans (congrArg Prod.snd done)

end Store
end TypedProperties
