import TypedProperties.Settings.Value

/-! The tables of a settings file while they are being built: what may still be added to which. -/
namespace TypedProperties
namespace Toml

/-- How a table came to be: on the way to another, by a header, or by a key between dots. -/
inductive Origin where
  | implied
  | header
  | dotted
  deriving DecidableEq, Repr

inductive Node where
  | value (value : Setting)
  | table (origin : Origin) (entries : List (Text × Node))
  | tables (all : List (List (Text × Node)))

abbrev Nodes := List (Text × Node)

def putNode (key : Text) (node : Node) (nodes : Nodes) : Nodes :=
  nodes.filter (·.1 ≠ key) ++ [(key, node)]

/-- Change the table that a path leads to. Tables on the way are made as needed; a dotted path leads
through no table that has a header, and no path through a value. In a list of tables the last one is
on the way. -/
def within (dotted : Bool) (change : Origin → Nodes → Option Nodes) :
    List Text → Origin → Nodes → Option Nodes
  | [], origin, nodes => change origin nodes
  | key :: rest, _, nodes =>
    match nodes.lookup key with
    | none =>
      let origin := if dotted then .dotted else .implied
      (within dotted change rest origin []).map fun inner => putNode key (.table origin inner) nodes
    | some (.value _) => none
    | some (.table origin inner) =>
      if dotted ∧ origin = .header then none
      else (within dotted change rest origin inner).map fun inner =>
        putNode key (.table origin inner) nodes
    | some (.tables all) =>
      match all.getLast? with
      | some inner =>
        (within dotted change rest .header inner).map fun inner =>
          putNode key (.tables (all.dropLast ++ [inner])) nodes
      | none => none

/-- A value for a key between dots, in a table that has none for it. -/
def putEntry (path : List Text) (value : Node) (nodes : Nodes) : Option Nodes :=
  match path.getLast? with
  | none => none
  | some key =>
    within true (fun origin inner =>
      if path.length ≠ 1 ∧ origin ≠ .dotted then none
      else if (inner.lookup key).isSome then none
      else some (putNode key value inner)) path.dropLast .header nodes

/-- The table of a header, which no other header or value has named. -/
def openTable (path : List Text) (nodes : Nodes) : Option Nodes :=
  match path.getLast? with
  | none => none
  | some key =>
    within false (fun _ inner =>
      match inner.lookup key with
      | none => some (putNode key (.table .header []) inner)
      | some (.table .implied entries) => some (putNode key (.table .header entries) inner)
      | some _ => none) path.dropLast .header nodes

def openTables (path : List Text) (nodes : Nodes) : Option Nodes :=
  match path.getLast? with
  | none => none
  | some key =>
    within false (fun _ inner =>
      match inner.lookup key with
      | none => some (putNode key (.tables [[]]) inner)
      | some (.tables all) => some (putNode key (.tables (all ++ [[]])) inner)
      | some _ => none) path.dropLast .header nodes

mutual

def Node.setting : Node → Setting
  | .value v => v
  | .table _ entries => .table (settings entries)
  | .tables all => .list (settingLists all)

def settings : List (Text × Node) → List (Text × Setting)
  | [] => []
  | (key, node) :: rest => (key, node.setting) :: settings rest

def settingLists : List (List (Text × Node)) → List Setting
  | [] => []
  | nodes :: rest => .table (settings nodes) :: settingLists rest

end

end Toml
end TypedProperties
