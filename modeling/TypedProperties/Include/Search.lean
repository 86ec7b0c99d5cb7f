import TypedProperties.Include.Environment

/-! Where included files are looked for: the current directory, explicit directories, and the
entries of an environment variable. -/
namespace TypedProperties

inductive IncludeFault where
  | unsetVariable (name text : Text)
  | noSuchFile (path : Text)
  | notInSearchPath (path : Text)
  | noSuchDirectory (path : Text)
  | emptyVariableName
  /-- What something else than a search gives as its reason. -/
  | other (reason : Text)
  deriving DecidableEq, Repr

def IncludeFault.message : IncludeFault → String
  | .unsetVariable name text => s!"environment variable '{name.str}' is not set in '{text.str}'"
  | .noSuchFile path => s!"file '{path.str}' was not found"
  | .notInSearchPath path => s!"file '{path.str}' was not found in the include search path"
  | .noSuchDirectory path => s!"include dir path '{path.str}' does not correspond to a directory"
  | .emptyVariableName => "empty include path environment variable name"
  | .other reason => reason.str

/-- How the entries of the path variable join the explicit directories: in front of them, behind
them, or instead of them. -/
inductive EnvStrategy where
  | prepend
  | append
  | clear
  deriving DecidableEq, Repr

structure Search where
  directories : List Text
  /-- The environment variable that lists further directories. -/
  pathVariable : Option Text
  strategy : EnvStrategy
  /-- Look in the current directory first. -/
  currentDirectory : Bool
  /-- Lookups are traced. -/
  debug : Bool
  deriving DecidableEq, Repr

namespace Search

def standard : Search := ⟨[], none, .prepend, true, false⟩

def variableEntries (world : World) (s : Search) : List Text :=
  match s.pathVariable.bind world.value? with
  | some value => (Text.splitAll ':' value).filter (· ≠ [])
  | none => []

/-- Explicit directories and entries of the path variable in the order of the strategy. -/
def combine (strategy : EnvStrategy) (directories entries : List Text) : List Text :=
  if entries = [] then directories
  else
    match strategy with
    | .prepend => entries ++ directories
    | .append => directories ++ entries
    | .clear => entries

/-- The directories that a relative path is looked for in, in order. -/
def order (world : World) (s : Search) : List Text :=
  let listed := combine s.strategy s.directories (s.variableEntries world)
  if s.currentDirectory then ['.'] :: listed else listed

def expand (world : World) (t : Text) : Except IncludeFault Text :=
  match world.expand t with
  | .ok r => .ok r
  | .error name => .error (.unsetVariable name t)

/-- The file that an include path stands for: the first that exists in the order of search. -/
def resolve (world : World) (s : Search) (path : Text) : Except IncludeFault Text :=
  match expand world path with
  | .error fault => .error fault
  | .ok path =>
    if Path.isAbsolute path then
      if world.tree.isFile path then .ok path else .error (.noSuchFile path)
    else
      match (s.order world).find? fun dir => world.tree.isFile (Path.join dir path) with
      | some dir => .ok (Path.join dir path)
      | none => .error (.notInSearchPath path)

def addDirectory (world : World) (s : Search) (dir : Text) : Except IncludeFault Search :=
  match expand world dir with
  | .error fault => .error fault
  | .ok dir =>
    if world.tree.isDirectory dir then .ok { s with directories := s.directories ++ [dir] }
    else .error (.noSuchDirectory dir)

def setPathVariable (s : Search) (name : Text) : Except IncludeFault Search :=
  if name = [] then .error .emptyVariableName else .ok { s with pathVariable := some name }

def setDebug (s : Search) (debug : Bool) : Search := { s with debug }

end Search

/-- What a reader asks of what finds included files: where it starts if it is given nothing, the file
that an include path stands for, and what directives set. -/
class Searches (σ : Type) where
  standard : σ
  resolve : World → σ → Text → Except IncludeFault Text
  addDirectory : World → σ → Text → Except IncludeFault σ
  setPathVariable : σ → Text → Except IncludeFault σ
  setDebug : σ → Bool → σ

instance : Searches Search :=
  ⟨Search.standard, Search.resolve, Search.addDirectory, Search.setPathVariable, Search.setDebug⟩

end TypedProperties
