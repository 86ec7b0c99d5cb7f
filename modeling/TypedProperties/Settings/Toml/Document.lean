import TypedProperties.Settings.Toml.Moment
import TypedProperties.Settings.Toml.Number
import TypedProperties.Settings.Toml.Table

/-! Values and documents: settings files as nested tables of keys and values. -/
namespace TypedProperties
namespace Toml

mutual

def value : Nat → Nat → Text → Option (Setting × Text)
  | 0, _, _ => none
  | fuel + 1, depth, t =>
    match depth, t with
    | _, '"' :: _ => (string fuel t).map fun r => (.string r.1, r.2)
    | _, '\'' :: _ => (string fuel t).map fun r => (.string r.1, r.2)
    | depth + 1, '[' :: rest => (items fuel depth rest).map fun r => (.list r.1, r.2)
    | depth + 1, '{' :: rest =>
      match skipGaps rest with
      | '}' :: rest => some (.table [], rest)
      | rest => (inlineEntries fuel depth [] rest).map fun r => (.table (settings r.1), r.2)
    | _, t =>
      match moment t with
      | some (m, rest) => some (.string m, rest)
      | none => bare t

/-- The items of a list up to its closing bracket. Line ends and comments may stand between them. -/
def items : Nat → Nat → Text → Option (List Setting × Text)
  | 0, _, _ => none
  | fuel + 1, depth, t =>
    match skipLines (fuel + 1) t with
    | none => none
    | some (']' :: rest) => some ([], rest)
    | some rest =>
      match value fuel depth rest with
      | none => none
      | some (v, rest) =>
        match skipLines (fuel + 1) rest with
        | some (',' :: rest) => (items fuel depth rest).map fun r => (v :: r.1, r.2)
        | some (']' :: rest) => some ([v], rest)
        | _ => none

def inlineEntries : Nat → Nat → Nodes → Text → Option (Nodes × Text)
  | 0, _, _, _ => none
  | fuel + 1, depth, nodes, t =>
    match key fuel t with
    | some (path, '=' :: rest) =>
      match value fuel depth (skipGaps rest) with
      | none => none
      | some (v, rest) =>
        match putEntry path (.value v) nodes, skipGaps rest with
        | some nodes, ',' :: rest => inlineEntries fuel depth nodes rest
        | some nodes, '}' :: rest => some (nodes, rest)
        | _, _ => none
    | _ => none

end

/-- The path of a header and whether it opens one of a list of tables. -/
def header (fuel : Nat) : Text → Option (List Text × Bool × Text)
  | '[' :: '[' :: rest =>
    match key fuel rest with
    | some (path, ']' :: ']' :: rest) => some (path, true, rest)
    | _ => none
  | '[' :: rest =>
    match key fuel rest with
    | some (path, ']' :: rest) => some (path, false, rest)
    | _ => none
  | _ => none

/-- The lines of a document, in the table that the last header opened. -/
def document : Nat → List Text → Nodes → Text → Option Nodes
  | 0, _, _, _ => none
  | fuel + 1, path, nodes, t =>
    match skipLines (fuel + 1) t with
    | none => none
    | some [] => some nodes
    | some ('[' :: rest) =>
      match header fuel ('[' :: rest) with
      | none => none
      | some (path, many, rest) =>
        match (if many then openTables path nodes else openTable path nodes), endOfLine rest with
        | some nodes, some rest => document fuel path nodes rest
        | _, _ => none
    | some rest =>
      match key fuel rest with
      | some (name, '=' :: rest) =>
        match value fuel (depthLimit - 1) (skipGaps rest) with
        | none => none
        | some (v, rest) =>
          match within false (fun _ inner => putEntry name (.value v) inner) path .header nodes,
            endOfLine rest with
          | some nodes, some rest => document fuel path nodes rest
          | _, _ => none
      | _ => none

def read (t : Text) : Option (List (Text × Setting)) :=
  let t := match t with
    | '\ufeff' :: rest => rest
    | _ => t
  (document (t.length + 1) [] [] t).map settings

end Toml
end TypedProperties
