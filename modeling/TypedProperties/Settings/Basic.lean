import TypedProperties.Files.Tree
import TypedProperties.Include.Search
import TypedProperties.Reading.Context
import TypedProperties.Settings.Address
import TypedProperties.Settings.Toml.Document
import TypedProperties.Writing.Datum

/-! Settings, in layers: the defaults, then files in the order in which they are added, then single
values. A later layer wins key by key. -/
namespace TypedProperties

structure Settings where
  allowKeyOverride : Bool
  forbidVariants : Bool
  forbidInclude : Bool
  search : Search
  wrap : Bool
  headerFooter : Bool
  skipPrivate : Bool
  preferredUnits : List Text
  /-- Which log events are shown. -/
  logFilter : Text
  deriving DecidableEq, Repr

namespace Settings

def options (s : Settings) : Options :=
  { Options.standard with
    allowKeyOverride := s.allowKeyOverride
    forbidVariants := s.forbidVariants
    forbidInclude := s.forbidInclude }

def writeOptions (s : Settings) : WriteOptions where
  wrap := s.wrap
  headerFooter := s.headerFooter
  skipPrivate := s.skipPrivate
  topic := none
  preferredUnits := s.preferredUnits

def showsWarnings (s : Settings) : Bool :=
  !(["off", "error"].contains s.logFilter.str)

def table (entries : List (String × Setting)) : Setting :=
  .table (entries.map fun e => (Text.ofString e.1, e.2))

def defaults : Setting :=
  table
    [("reader", table
      [("allow_key_override", .boolean false),
        ("forbid_variants", .boolean false),
        ("forbid_include", .boolean false),
        ("include_current_dir", .boolean true),
        ("include_dirs", .list []),
        ("env_strategy", .string (Text.ofString "prepend"))]),
      ("writer", table
        [("smart_modulo", .boolean true),
          ("header_footer", .boolean false),
          ("skip_private", .boolean false),
          ("preferred_units", .list [])]),
      ("logging", table [("filter", .string (Text.ofString "warn"))])]

def strategies : List (String × EnvStrategy) :=
  [("prepend", .prepend), ("append", .append), ("clear", .clear)]

/-- A strategy by its name, as a word or as the only key of a table; case does not matter. -/
def strategyOf (s : Setting) : Option EnvStrategy :=
  let named (t : Text) := strategies.lookup (Text.toLower t).str
  match s with
  | .string t => named t
  | .table [(t, _)] => named t
  | _ => none

def groups : List (String × List String) :=
  [("reader",
    ["allow_key_override", "forbid_variants", "forbid_include", "include_current_dir",
      "include_dirs", "include_path_env", "env_strategy"]),
    ("writer", ["smart_modulo", "header_footer", "skip_private", "preferred_units"]),
    ("logging", ["filter"])]

/-- A setting of a group: a table has it by its key, a list by its place. -/
def entry (s : Setting) (group key : String) : Option Setting :=
  match s.get? (Text.ofString group) with
  | some (.list items) => items[((groups.lookup group).getD []).idxOf key]?
  | some g => g.get? (Text.ofString key)
  | none => none

def boolean (s : Setting) (group key : String) : Option Bool :=
  (entry s group key).bind Setting.toBoolean

/-- The settings of a merged value, if each one has the form that is expected. -/
def ofSetting (s : Setting) : Option Settings := do
  let pathVariable ← match entry s "reader" "include_path_env" with
    | none => some none
    | some .nothing => some none
    | some v => v.toText.map some
  let search : Search := {
    directories := ← (entry s "reader" "include_dirs").bind Setting.toTexts
    pathVariable
    strategy := ← (entry s "reader" "env_strategy").bind strategyOf
    currentDirectory := ← boolean s "reader" "include_current_dir"
    debug := false }
  return {
    allowKeyOverride := ← boolean s "reader" "allow_key_override"
    forbidVariants := ← boolean s "reader" "forbid_variants"
    forbidInclude := ← boolean s "reader" "forbid_include"
    search
    wrap := ← boolean s "writer" "smart_modulo"
    headerFooter := ← boolean s "writer" "header_footer"
    skipPrivate := ← boolean s "writer" "skip_private"
    preferredUnits := ← (entry s "writer" "preferred_units").bind Setting.toTexts
    logFilter := ← (entry s "logging" "filter").bind Setting.toText }

/-- A file of settings. An optional one is left out where no text can be read. -/
structure Layer where
  path : Text
  required : Bool
  deriving DecidableEq, Repr

namespace Layer

/-- The paths of the file, of which the first one that leads to a file counts. The name may be given
without its ending. -/
def candidates (layer : Layer) : List Text :=
  layer.path :: (Path.extend (Text.ofString ".toml") layer.path).toList

def content (world : World) (layer : Layer) : Option Text := do
  let path ← layer.candidates.find? world.tree.isFile
  match world.tree.read path with
  | .ok bytes => Text.decode bytes
  | .error _ => none

def entries (world : World) (layer : Layer) : Option (List (Text × Setting)) :=
  match layer.content world with
  | some t => Toml.read t
  | none => if layer.required then none else some []

end Layer

/-- The order in which maps give their entries. It may be any, and differ from map to map, these being told apart by
how many are still to come. -/
structure MapOrder where
  arrange : Nat → List (Address × Setting) → List (Address × Setting)
  perm (behind : Nat) (entries : List (Address × Setting)) : (arrange behind entries).Perm entries

def MapOrder.inserted : MapOrder := ⟨fun _ => id, fun _ _ => .refl _⟩

/-- Files in the order in which they were added, and a map of single values by their addresses. -/
structure Loader where
  layers : List Layer
  overrides : List (Address × Setting)

namespace Loader

def standard : Loader := ⟨[], []⟩

def addFile (l : Loader) (path : Text) : Loader :=
  { l with layers := l.layers ++ [⟨path, true⟩] }

def addOptionalFile (l : Loader) (path : Text) : Loader :=
  { l with layers := l.layers ++ [⟨path, false⟩] }

/-- Set a value that wins over every file, in place of what was set at the same address. Another spelling is another
address, and a text that is none is refused. -/
def setOverride (l : Loader) (address : Text) (value : Setting) : Option Loader :=
  (Address.ofText address).map fun address =>
    { l with overrides := l.overrides.filter (·.1 ≠ address) ++ [(address, value)] }

/-- Where an entry of a file goes: a key at the top that has the form of an address is one. -/
def target (entry : Text × Setting) : Address × Setting :=
  ((Address.ofText entry.1).getD [.key entry.1], entry.2)

/-- The files over what is below them. The entries of a file are a map, and so are the single values behind them. -/
def mergeLayers (order : MapOrder) (world : World) : Setting → List Layer → Option Setting
  | below, [] => some below
  | below, layer :: rest =>
    match layer.entries world with
    | none => none
    | some entries =>
      match below.putAll (order.arrange (rest.length + 1) (entries.map target)) with
      | none => none
      | some s => mergeLayers order world s rest

def merged (order : MapOrder) (world : World) (l : Loader) : Option Setting :=
  (mergeLayers order world defaults l.layers).bind fun s => s.putAll (order.arrange 0 l.overrides)

def load (world : World) (l : Loader) (order : MapOrder := .inserted) : Option Settings :=
  (l.merged order world).bind ofSetting

end Loader
end Settings
end TypedProperties
