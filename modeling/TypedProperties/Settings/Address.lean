import TypedProperties.Settings.Value
import TypedProperties.Text.Blank
import TypedProperties.Text.Integer

/-! Addresses of settings, such as `reader.include_dirs[0]`, and putting a value where one leads. -/
namespace TypedProperties

/-- One step into a setting: to the value of a key, or to a place of a list. A negative place counts
from the end. -/
inductive Step where
  | key (name : Text)
  | place (index : Int)
  deriving DecidableEq, Repr

abbrev Address := List Step

namespace Address

def isNameChar (c : Char) : Bool := c.isAlphanum || c = '_' || c = '-' || c = ' '

/-- The index between brackets: digits, with a minus sign in front if need be. -/
def indexOf (t : Text) : Option Int :=
  if t.head? = some '+' then none else Text.readSigned (Nat.pow 2 63) t

def placeOf (t : Text) : Option Step :=
  ((Text.dropMark ']' t).bind fun t => indexOf (Text.trimInline t)).map .place

def part (t : Text) : Option Address :=
  let (name, places) := t.span isNameChar
  match name, Text.splitAll '[' places with
  | [], _ => none
  | name, [] :: places => (places.mapM placeOf).map (.key name :: ·)
  | _, _ => none

def ofText (t : Text) : Option Address := ((Text.splitAll '.' t).mapM part).map List.flatten

end Address

namespace Setting

/-- The place in a list of `size` items that an index stands for. It may lie behind the end. -/
def placeIn (size : Nat) (index : Int) : Option Nat :=
  let place := if index < 0 then index + size else index
  if place < 0 then none else some place.toNat

/-- A list with `value` at a place. Places between the end and that one hold nothing. -/
def putItem (place : Nat) (value : Setting) (items : List Setting) : List Setting :=
  items.take place ++ List.replicate (place - items.length) .nothing ++
    value :: items.drop (place + 1)

/-- Put a value where an address leads. What is on the way becomes a table or a list as the address
has it, and a table is merged into the table of its key. Nothing stands in front of a list. -/
def putAt (value : Setting) : Address → Setting → Option Setting
  | [], _ => some value
  | [.key name], s => some (.table (overEntries s.entries [(name, value)]))
  | .key name :: rest, s =>
    let name := foldKey name
    (putAt value rest ((s.entries.lookup name).getD .nothing)).map fun inner =>
      .table (put name inner s.entries)
  | .place index :: rest, s =>
    (placeIn s.items.length index).bind fun place =>
      (putAt value rest (s.items[place]?.getD .nothing)).map fun inner =>
        .list (putItem place inner s.items)

def putAll : Setting → List (Address × Setting) → Option Setting
  | s, [] => some s
  | s, (address, value) :: rest =>
    match putAt value address s with
    | none => none
    | some s => putAll s rest

end Setting
end TypedProperties
