import TypedProperties.Store.Basic

/-! What happens when a datum meets a store: by a declaration under one key, or by merging a whole
store into another. -/
namespace TypedProperties

/-- How a declaration meets its key: as a whole datum, as further values of a vector, or as one
item of a vector. -/
inductive Mode where
  | declare
  | append
  | item (index : Nat)
  deriving DecidableEq, Repr

inductive Collision where
  | appendToMissing (key : Text)
  | itemOfMissing (index : Nat) (key : Text)
  | locked (key : Text)
  | alreadyUsed (key : Text)
  | notVector (key : Text)
  | incompatible (new old : Kind) (key : Text)
  | values (fault : Data.Fault)
  | mergeUsed (key : Text)
  | mergeLocked (key : Text)
  deriving DecidableEq, Repr

namespace Store

def changed (old datum : Datum) : Mode → Except Data.Fault Datum
  | .item index => (Data.replaceItem index old.data datum.data).map fun d => { old with data := d }
  | _ => (Data.append old.data datum.data).map fun d => { old with data := d }

/-- Put `datum` under `key`. On success a flag tells whether a whole datum gave way. -/
def put (s : Store) (key : Text) (datum : Datum) (mode : Mode) (allowOverride : Bool) :
    Store × Except Collision Bool :=
  match s.get? key with
  | none =>
    match mode with
    | .declare => (s.insert key datum, .ok false)
    | .append => (s, .error (.appendToMissing key))
    | .item index => (s, .error (.itemOfMissing index key))
  | some old =>
    if old.locked then (s, .error (.locked key))
    else if !allowOverride then (s, .error (.alreadyUsed key))
    else if mode = .declare then (s.insert key datum, .ok true)
    else if !old.isVector then (s, .error (.notVector key))
    else if !old.data.compatible datum.data then
      (s, .error (.incompatible datum.data.kind old.data.kind key))
    else
      match changed old datum mode with
      | .ok new => (s.update key new, .ok false)
      | .error fault => (s, .error (.values fault))

/-- Take in `entries` one by one. On failure the store keeps what was taken in before. -/
def mergeEntries (allowOverride : Bool) : Store → List (Text × Datum) → Store × Option Collision
  | s, [] => (s, none)
  | s, (key, datum) :: rest =>
    match s.get? key with
    | none => mergeEntries allowOverride (s.insert key datum) rest
    | some old =>
      if !allowOverride then (s, some (.mergeUsed key))
      else if old.locked then (s, some (.mergeLocked key))
      else mergeEntries allowOverride (s.insert key datum) rest

def merge (s other : Store) (allowOverride : Bool) : Store × Option Collision :=
  mergeEntries allowOverride s other.entries

end Store
end TypedProperties
