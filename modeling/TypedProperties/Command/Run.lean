import TypedProperties.Command.Arguments
import TypedProperties.Dump.Json
import TypedProperties.Dump.Yaml
import TypedProperties.Reading.Run
import TypedProperties.Settings.Basic
import TypedProperties.Writing.Store

/-! What a command line does: checking, formatting and dumping a file. -/
namespace TypedProperties

/-- What a run prints, its exit code, the files as it leaves them, and what its reader points
out. -/
structure RunResult where
  code : Nat
  output : Text
  errors : Text
  tree : FileTree
  warnings : List Warning
  deriving DecidableEq, Repr

namespace Request

def programName : String := "propconf"
def versionNumber : String := "0.1.0"

/-- The settings file that is read if there is one and no other is given. -/
def localSettings : Text := Text.ofString "propconf.toml"

def loader (o : CommonOptions) : Option Settings.Loader := do
  let files := match o.config with
    | some path => Settings.Loader.standard.addFile path
    | none => Settings.Loader.standard.addOptionalFile localSettings
  let files ←
    if o.allowOverride then
      files.setOverride (Text.ofString "reader.allow_key_override") (.boolean true)
    else some files
  if o.noWrap then files.setOverride (Text.ofString "writer.smart_modulo") (.boolean false)
  else some files

/-- The configured directories, then the given ones, then that of the file itself. -/
def searchOf (settings : Settings) (o : CommonOptions) (path : Text) : Search :=
  let own := ((Path.parent path).filter (· ≠ [])).toList
  { settings.search with
    directories := settings.search.directories ++ o.includeDirectories ++ own }

def applyAll (change : Repository → Text → Except VariantFault Repository) :
    Repository → List Text → Except VariantFault Repository
  | r, [] => .ok r
  | r, spec :: rest =>
    match change r spec with
    | .error fault => .error fault
    | .ok r => applyAll change r rest

def variantsOf (o : CommonOptions) : Except VariantFault Repository :=
  match applyAll Repository.activate Repository.empty o.activations with
  | .error fault => .error fault
  | .ok r => applyAll Repository.assign r o.parameters

def readerOf (settings : Settings) (o : CommonOptions) (variants : Repository) (path : Text) :
    Reader where
  options := settings.options
  variants := variants
  units := StandardUnits.system
  includes := .open (searchOf settings o path)

def writeOptionsOf (settings : Settings) (o : CommonOptions) : WriteOptions :=
  { settings.writeOptions with
    preferredUnits := settings.preferredUnits ++ o.preferredUnits }

def succeed (world : World) (output : Text) : RunResult :=
  ⟨0, output, [], world.tree, []⟩

def fail (world : World) (message : String) : RunResult :=
  ⟨1, [], Text.ofString message, world.tree, []⟩

def finish (world : World) (settings : Settings) (o : CommonOptions) (store : Store) :
    Command → RunResult
  | .check path =>
    succeed world (Text.ofString s!"{path.str}: ok ({store.size} properties)\n")
  | .format _ none =>
    match store.write StandardUnits.system (writeOptionsOf settings o) with
    | .ok text => succeed world text
    | .error fault => fail world s!"Error: {fault.message}\n"
  | .format _ (some output) =>
    match store.writeFile StandardUnits.system (writeOptionsOf settings o) world.tree output with
    | (tree, none) => succeed { world with tree } []
    | (tree, some fault) => fail { world with tree } s!"Error: {fault.message}\n"
  | .dump _ .json => succeed world (store.toJson ++ ['\n'])
  | .dump _ .yaml => succeed world store.toYaml

def readAndFinish (world : World) (settings : Settings) (o : CommonOptions) (variants : Repository)
    (command : Command) : RunResult :=
  let outcome := (readerOf settings o variants command.path).readFile world command.path
  let result := match outcome.result with
    | .error error => fail world s!"Error: {error.message}\n"
    | .ok (store, _) => finish world settings o store command
  if settings.showsWarnings then { result with warnings := outcome.warnings } else result

def runCommand (world : World) (o : CommonOptions) (command : Command) : RunResult :=
  match (loader o).bind (·.load world) with
  | none => fail world "Configuration error\n"
  | some settings =>
    match variantsOf o with
    | .error fault => fail world s!"Invalid variant setting: {fault.message}\n"
    | .ok variants => readAndFinish world settings o variants command

def usage : String :=
  "Usage: propconf [OPTIONS] <COMMAND>\n\nCommands:\n" ++
    "  check <path>                        read a file and report the first error\n" ++
    "  format <path> [-o <file>]           write a file in canonical form\n" ++
    "  dump <path> [-f json|yaml]          print the properties of a file\n\nOptions:\n" ++
    "  -c, --config <file>                 settings file\n" ++
    "  -I, --include-dir <dir>             directory searched for included files (repeatable)\n" ++
    "      --allow-override                allow keys to be declared more than once\n" ++
    "      --activate <registry:path>      activate a variant (repeatable)\n" ++
    "      --param <registry:path=value>   set a variant parameter (repeatable)\n" ++
    "      --prefer-unit <symbol>          unit to write reals in (repeatable)\n" ++
    "      --no-wrap                       write vectors on a single line\n" ++
    "  -h, --help                          print help\n" ++
    "  -V, --version                       print version\n"

def answer (world : World) : Request → RunResult
  | .version => succeed world (Text.ofString s!"{programName} {versionNumber}\n")
  | .help => succeed world (Text.ofString usage)
  | .run o command => runCommand world o command

end Request

def runArguments (world : World) (arguments : List Text) : RunResult :=
  match Request.ofArguments arguments with
  | some request => request.answer world
  | none =>
    ⟨2, [], Text.ofString s!"error: invalid arguments\n\n{Request.usage}", world.tree, []⟩

end TypedProperties
