import TypedProperties.Store.Basic
import TypedProperties.Writing.Datum

/-! The written form of a store. -/
namespace TypedProperties
namespace Store

def header : Text := Text.ofString "# List of configuration properties\n\n"
def footer : Text := Text.ofString "# End of list of configuration properties\n"

def writeEntries (units : UnitSystem) (o : WriteOptions) :
    List (Text × Datum) → Except WriteFault Text
  | [] => .ok []
  | (key, datum) :: rest =>
    if o.skipPrivate ∧ isPrivate key then writeEntries units o rest
    else
      match datum.write units o key with
      | .error fault => .error fault
      | .ok t =>
        match writeEntries units o rest with
        | .error fault => .error fault
        | .ok r => .ok (t ++ '\n' :: r)

/-- The lines in front of the entries: the description and the topic. -/
def preamble (o : WriteOptions) (s : Store) : Text :=
  let description :=
    if s.description = [] then []
    else Text.ofString "#@configuration " ++ s.description ++ ['\n', '\n']
  let topic := match o.topic with
    | some topic => Text.ofString "#@topic " ++ topic ++ ['\n']
    | none => []
  description ++ topic

def write (units : UnitSystem) (o : WriteOptions) (s : Store) : Except WriteFault Text :=
  match writeEntries units o s.entries with
  | .error fault => .error fault
  | .ok entries =>
    .ok ((if o.headerFooter then header else []) ++ preamble o s ++ entries ++
      if o.headerFooter then footer else [])

/-- Write a store to a file. Nothing is touched if the store cannot be written. -/
def writeFile (units : UnitSystem) (o : WriteOptions) (s : Store) (tree : FileTree) (path : Text) :
    FileTree × Option WriteFault :=
  match s.write units o with
  | .error fault => (tree, some fault)
  | .ok t =>
    let (tree, fault) := tree.write path (Text.encode t)
    (tree, fault.map .access)

end Store
end TypedProperties
