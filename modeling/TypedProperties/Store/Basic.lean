import TypedProperties.Store.Data

/-! The property store: data by key, in the order in which they were last stored whole. -/
namespace TypedProperties

/-- A description, and the entries in order, one for each key. -/
@[ext]
structure Store where
  description : Text
  entries : List (Text × Datum)
  distinct : (entries.map Prod.fst).Nodup
  deriving DecidableEq

namespace Store

def others (key : Text) (entries : List (Text × Datum)) : List (Text × Datum) :=
  entries.filter (·.1 ≠ key)

theorem keys_others (key : Text) (entries : List (Text × Datum)) :
    (others key entries).map Prod.fst = (entries.map Prod.fst).filter (· ≠ key) := by
  simp [others, List.filter_map, Function.comp_def]

theorem distinct_others {entries : List (Text × Datum)} (key : Text)
    (h : (entries.map Prod.fst).Nodup) : ((others key entries).map Prod.fst).Nodup := by
  rw [keys_others]
  exact h.filter _

theorem distinct_concat {entries : List (Text × Datum)} (key : Text) (datum : Datum)
    (h : (entries.map Prod.fst).Nodup) :
    ((others key entries ++ [(key, datum)]).map Prod.fst).Nodup := by
  rw [List.map_append, List.Nodup, List.pairwise_append]
  refine ⟨distinct_others key h, by simp, fun k hk l hl => ?_⟩
  rw [keys_others] at hk
  obtain rfl : l = key := by simpa using hl
  simpa using (List.mem_filter.mp hk).2

def replaced (key : Text) (datum : Datum) (entries : List (Text × Datum)) :
    List (Text × Datum) :=
  entries.map fun e => if e.1 = key then (key, datum) else e

theorem keys_replaced (key : Text) (datum : Datum) (entries : List (Text × Datum)) :
    (replaced key datum entries).map Prod.fst = entries.map Prod.fst := by
  rw [replaced, List.map_map]
  refine List.map_congr_left fun e _ => ?_
  by_cases h : e.1 = key <;> simp [h]

def empty : Store := ⟨[], [], by simp⟩

def keys (s : Store) : List Text := s.entries.map Prod.fst

def get? (s : Store) (key : Text) : Option Datum := s.entries.lookup key

def contains (s : Store) (key : Text) : Bool := (s.get? key).isSome

def size (s : Store) : Nat := s.entries.length

def erase (s : Store) (key : Text) : Store where
  description := s.description
  entries := others key s.entries
  distinct := distinct_others key s.distinct

def insert (s : Store) (key : Text) (datum : Datum) : Store where
  description := s.description
  entries := others key s.entries ++ [(key, datum)]
  distinct := distinct_concat key datum s.distinct

def update (s : Store) (key : Text) (datum : Datum) : Store where
  description := s.description
  entries := replaced key datum s.entries
  distinct := by
    rw [keys_replaced]
    exact s.distinct

/-- Keys that are not meant for end users. -/
def isPrivate : Text → Bool
  | '_' :: '_' :: _ => true
  | _ => false

@[simp] theorem get?_insert_self (s : Store) (key : Text) (datum : Datum) :
    (s.insert key datum).get? key = some datum := by
  have h : (others key s.entries).lookup key = none := by
    rw [List.lookup_eq_none_iff]
    intro e he
    have hk : e.1 ≠ key := by simpa using (List.mem_filter.mp he).2
    simp [Ne.symm hk]
  simp only [get?, insert, List.lookup_append, h]
  simp

theorem keys_insert (s : Store) (key : Text) (datum : Datum) :
    (s.insert key datum).keys = s.keys.filter (· ≠ key) ++ [key] := by
  simp [keys, insert, keys_others]

@[simp] theorem keys_update (s : Store) (key : Text) (datum : Datum) :
    (s.update key datum).keys = s.keys :=
  keys_replaced key datum s.entries

/-! Reading one value, of a given kind and cardinality. -/

def data? (s : Store) (cardinality : Cardinality) (key : Text) : Option Data :=
  (s.get? key).bind fun d => if d.cardinality = cardinality then some d.data else none

def booleans? (s : Store) (cardinality : Cardinality) (key : Text) : Option (List Bool) :=
  match s.data? cardinality key with
  | some (.boolean vs) => some vs
  | _ => none

def integers? (s : Store) (cardinality : Cardinality) (key : Text) : Option (List Int32) :=
  match s.data? cardinality key with
  | some (.integer vs) => some vs
  | _ => none

def reals? (s : Store) (cardinality : Cardinality) (key : Text) : Option (List Float) :=
  match s.data? cardinality key with
  | some (.real vs _) => some vs
  | _ => none

def strings? (s : Store) (cardinality : Cardinality) (key : Text) : Option (List Text) :=
  match s.data? cardinality key with
  | some (.string vs _) => some vs
  | _ => none

def boolean? (s : Store) (key : Text) : Option Bool :=
  (s.booleans? .scalar key).bind List.head?

def integer? (s : Store) (key : Text) : Option Int32 :=
  (s.integers? .scalar key).bind List.head?

def real? (s : Store) (key : Text) : Option Float :=
  (s.reals? .scalar key).bind List.head?

def string? (s : Store) (key : Text) : Option Text :=
  (s.strings? .scalar key).bind List.head?

end Store
end TypedProperties
