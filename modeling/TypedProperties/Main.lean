import TypedProperties.Command.Run

/-! The command line program. All that a run may consult is looked up first; the run itself is
`runArguments` on what was found. -/
namespace TypedProperties
namespace Survey

/-- Note what stands at a place, if it is there. `path` leads to it. -/
def noteAt (tree : FileTree) (place : Place) (path : String) : IO FileTree := do
  if place = [] ∨ path = "" then return tree
  let found := (← IO.currentDir) / path
  if ← found.isDir then return tree.put place .directory
  let .ok content ← (IO.FS.readBinFile found).toBaseIO | return tree
  return tree.put place (.file content.toList)

/-- Note what stands along the parts of a path, `before` them being the path so far. -/
def noteParts (tree : FileTree) (place : Place) (before : String) : List Text → IO FileTree
  | [] => return tree
  | part :: rest => do
    let path := before ++ part.str
    let place :=
      if part = [] ∨ part = ['.'] then place
      else if part = ['.', '.'] then place.dropLast
      else place ++ [part]
    noteParts (← noteAt tree place path) place (path ++ "/") rest

def notePath (world : World) (path : Text) : IO World := do
  let tree ← noteParts world.tree (world.tree.start path) "" (Path.parts path)
  return { world with tree }

def noteVariable (world : World) (name : Text) : IO World := do
  match ← IO.getEnv name.str with
  | some value =>
    let environment := (name, Text.encode (Text.ofString value)) :: world.environment
    return { world with environment }
  | none => return world

def variablesOf (path : Text) : List Text :=
  (PathPiece.scan path).filterMap fun
    | .braced name => some name
    | .bare name => some name
    | .char _ => none

def expand (world : World) (path : Text) : IO (World × List Text) := do
  let world ← (variablesOf path).foldlM noteVariable world
  return (world, (world.expand path).toOption.toList)

/-- What is known so far: files that have been looked into, paths that files include, and
directories that these may be found in. -/
structure State where
  world : World
  files : List Text
  paths : List Text
  directories : List Text

def learn (s : State) : Directive → IO State
  | .includeFile path _ => do
    let (world, expanded) ← expand s.world path
    return { s with world, paths := s.paths ++ expanded }
  | .includeDirectory path => do
    let (world, expanded) ← expand s.world path
    let world ← expanded.foldlM notePath world
    return { s with world, directories := s.directories ++ expanded }
  | .includePathVariable name => do
    let world ← noteVariable s.world name
    let search := { Search.standard with pathVariable := some name }
    return { s with world, directories := s.directories ++ search.variableEntries world }
  | _ => return s

def directivesOf (content : Bytes) : List Directive :=
  (Lines.ofBytes content).complete.filterMap fun line =>
    match Role.ofText line.text with
    | .directive text => (Directive.ofText text).toOption
    | _ => none

def lookInto (s : State) (path : Text) : IO State := do
  let world ← notePath s.world path
  let s := { s with world, files := path :: s.files }
  match world.tree.read path with
  | .ok content => (directivesOf content).foldlM learn s
  | .error _ => return s

def missing (s : State) : List Text :=
  (s.paths.flatMap fun path => s.directories.map fun dir => Path.join dir path).eraseDups.filter
    fun path => !s.files.contains path

partial def explore (s : State) : IO State := do
  match missing s with
  | [] => return s
  | paths => explore (← paths.foldlM lookInto s)

def surveyCommand (world : World) (o : CommonOptions) (command : Command) : IO World := do
  let loader := Request.loader o
  let layers := loader.elim [] (·.layers)
  let world ← (layers.flatMap Settings.Layer.candidates).foldlM notePath world
  let search := match loader.bind (·.load world) with
    | some settings => Request.searchOf settings o command.path
    | none => Search.standard
  let world ← search.pathVariable.toList.foldlM noteVariable world
  let world ← match command with
    | .format _ (some output) => notePath world output
    | _ => pure world
  let s : State := ⟨world, [], [], ['.'] :: search.directories ++ search.variableEntries world⟩
  return (← explore (← lookInto s command.path)).world

def survey (arguments : List Text) : IO World := do
  let here := Text.ofString (← IO.currentDir).toString
  let world : World := ⟨FileTree.ofFiles ((Path.parts here).filter (· ≠ [])) [], []⟩
  match Request.ofArguments arguments with
  | some (.run o command) => surveyCommand world o command
  | _ => return world

def writeOut (arguments : List Text) (result : RunResult) : IO Unit := do
  let some (.run _ (.format _ (some output))) := Request.ofArguments arguments | return ()
  if result.code ≠ 0 then return ()
  let .ok content := result.tree.read output | return ()
  IO.FS.writeBinFile output.str content.toByteArray

end Survey
end TypedProperties

open TypedProperties in
def main (arguments : List String) : IO UInt32 := do
  let arguments := arguments.map Text.ofString
  let result := runArguments (← Survey.survey arguments) arguments
  for warning in result.warnings do
    IO.eprintln s!"WARN {warning.fullMessage}"
  IO.print result.output.str
  IO.eprint result.errors.str
  Survey.writeOut arguments result
  return UInt32.ofNat result.code
