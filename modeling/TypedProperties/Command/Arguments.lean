import TypedProperties.Text.Basic

/-! The command line: options that hold for every command, a command, and its own arguments. -/
namespace TypedProperties

inductive DumpFormat where
  | json
  | yaml
  deriving DecidableEq, Repr

def DumpFormat.ofName (name : Text) : Option DumpFormat :=
  [("json", DumpFormat.json), ("yaml", .yaml)].lookup name.str

inductive Command where
  | check (path : Text)
  | format (path : Text) (output : Option Text)
  | dump (path : Text) (format : DumpFormat)
  deriving DecidableEq, Repr

def Command.path : Command → Text
  | .check path => path
  | .format path _ => path
  | .dump path _ => path

/-- The options that every command takes. -/
structure CommonOptions where
  config : Option Text
  includeDirectories : List Text
  allowOverride : Bool
  activations : List Text
  parameters : List Text
  preferredUnits : List Text
  noWrap : Bool
  deriving DecidableEq, Repr

def CommonOptions.none : CommonOptions := ⟨.none, [], false, [], [], [], false⟩

inductive Request where
  | version
  | help
  | run (options : CommonOptions) (command : Command)
  deriving DecidableEq, Repr

namespace Arguments

/-- The options by name. Some stand alone, some take a value, and of these some may be repeated. -/
inductive Name where
  | config
  | includeDirectory
  | allowOverride
  | activate
  | param
  | preferUnit
  | noWrap
  | output
  | dumpFormat
  | version
  | help
  deriving DecidableEq, Repr

namespace Name

def takesValue : Name → Bool
  | .config | .includeDirectory | .activate | .param | .preferUnit | .output | .dumpFormat => true
  | _ => false

def repeatable : Name → Bool
  | .includeDirectory | .activate | .param | .preferUnit => true
  | _ => false

/-- Whether an option takes a value. Any text will do, but for the name of a format. -/
def accepts : Name → Text → Bool
  | .dumpFormat, value => (DumpFormat.ofName value).isSome
  | _, _ => true

end Name

/-- Where an argument stands: in front of the command, or behind it. -/
inductive Scope where
  | top
  | check
  | format
  | dump
  deriving DecidableEq, Repr

def commonLong : List (String × Name) :=
  [("config", .config), ("include-dir", .includeDirectory), ("allow-override", .allowOverride),
    ("activate", .activate), ("param", .param), ("prefer-unit", .preferUnit),
    ("no-wrap", .noWrap), ("help", .help)]

def longNames : Scope → List (String × Name)
  | .top => ("version", .version) :: commonLong
  | .check => commonLong
  | .format => ("output", .output) :: commonLong
  | .dump => ("format", .dumpFormat) :: commonLong

def commonShort : List (Char × Name) :=
  [('c', .config), ('I', .includeDirectory), ('h', .help)]

def shortNames : Scope → List (Char × Name)
  | .top => ('V', .version) :: commonShort
  | .check => commonShort
  | .format => ('o', .output) :: commonShort
  | .dump => ('f', .dumpFormat) :: commonShort

def scopeOf (word : Text) : Option Scope :=
  [("check", Scope.check), ("format", .format), ("dump", .dump)].lookup word.str

/-- What help can be asked for: the program as a whole, or one of its commands. -/
def isHelpTopic : List Text → Bool
  | [] => true
  | [word] => (scopeOf word).isSome || word.str = "help"
  | _ => false

abbrev Given := List (Name × Text)

def isGiven (given : Given) (name : Name) : Bool := given.any (·.1 = name)

/-- What the arguments of one scope amount to: a request for the version or for help, or the options
in order, with the path of a command or the arguments behind one. -/
inductive Scanned where
  | version
  | help
  | arguments (given : Given) (path : Option Text)
  | command (given : Given) (scope : Scope) (rest : List Text)
  deriving DecidableEq, Repr

/-- The options of a cluster of short ones, such as `-abvalue`. The last one may be waiting for its
value. -/
def cluster (scope : Scope) : Text → Option (List (Name × Option Text))
  | [] => some []
  | c :: cs =>
    match (shortNames scope).lookup c with
    | none => none
    | some name =>
      if name.takesValue then
        match cs with
        | [] => some [(name, none)]
        | '=' :: value => some [(name, some value)]
        | value => some [(name, some value)]
      else if name = .version ∨ name = .help then some [(name, some [])]
      else (cluster scope cs).map ((name, some []) :: ·)

/-- One argument of the form of an option: what it gives, or nothing if there is no such option. -/
def option (scope : Scope) : Text → Option (List (Name × Option Text))
  | '-' :: '-' :: long =>
    let (word, value) : Text × Option Text :=
      match long.span (· ≠ '=') with
      | (word, _ :: value) => (word, some value)
      | (word, []) => (word, none)
    match (longNames scope).lookup (Text.str word) with
    | none => none
    | some name =>
      if name.takesValue then some [(name, value)]
      else if value.isSome then none
      else some [(name, some [])]
  | '-' :: c :: cs => cluster scope (c :: cs)
  | _ => none

/-- Whether an argument has the form of an option. A single dash has not. -/
def isOption : Text → Bool
  | '-' :: _ :: _ => true
  | _ => false

/-- Take in options one by one. A value that waits is left for the next argument. An option that may
not be repeated is refused the second time, and so is a value that its option does not take. -/
inductive Taken where
  | version
  | help
  | refused
  | given (given : Given) (waiting : Option Name)
  deriving DecidableEq, Repr

def take (given : Given) : List (Name × Option Text) → Taken
  | [] => .given given none
  | (name, value) :: rest =>
    if name = .version then .version
    else if name = .help then .help
    else
      match value with
      | none => .given given (some name)
      | some value =>
        if isGiven given name ∧ !name.repeatable ∨ !name.accepts value then .refused
        else take (given ++ [(name, value)]) rest

/-- Go through the arguments of a scope. `waiting` is an option whose value comes next, and behind a
double dash nothing is an option. What breaks a rule counts before any request that stands behind
it, and a second path breaks one. -/
def scan (scope : Scope) (given : Given) (path : Option Text) (waiting : Option Name)
    (plain : Bool) : List Text → Option Scanned
  | [] => if waiting.isSome then none else some (.arguments given path)
  | argument :: rest =>
    if plain then
      if scope = .top ∨ path.isSome then none else scan scope given (some argument) none true rest
    else if argument = ['-', '-'] then
      if waiting.isSome then none else scan scope given path none true rest
    else if isOption argument then
      if waiting.isSome then none
      else
        match option scope argument with
        | none => none
        | some options =>
          match take given options with
          | .version => some .version
          | .help => some .help
          | .refused => none
          | .given given waiting => scan scope given path waiting false rest
    else
      match waiting with
      | some name =>
        match take given [(name, some argument)] with
        | .given given _ => scan scope given path none false rest
        | _ => none
      | none =>
        if scope = .top then
          if Text.str argument = "help" then if isHelpTopic rest then some .help else none
          else (scopeOf argument).map fun s => .command given s rest
        else if path.isSome then none
        else scan scope given (some argument) none false rest

def valueOf (given : Given) (name : Name) : Option Text := given.lookup name

def valuesOf (given : Given) (name : Name) : List Text :=
  (given.filter (·.1 = name)).map Prod.snd

/-- Values from behind the command, if there are any, else those in front of it. -/
def inner (outer inner : List Text) : List Text := if inner = [] then outer else inner

/-- The common options, given in front of the command and behind it. -/
def commonOptions (before behind : Given) : CommonOptions where
  config := (valueOf behind .config).or (valueOf before .config)
  includeDirectories :=
    inner (valuesOf before .includeDirectory) (valuesOf behind .includeDirectory)
  allowOverride := isGiven before .allowOverride || isGiven behind .allowOverride
  activations := inner (valuesOf before .activate) (valuesOf behind .activate)
  parameters := inner (valuesOf before .param) (valuesOf behind .param)
  preferredUnits := inner (valuesOf before .preferUnit) (valuesOf behind .preferUnit)
  noWrap := isGiven before .noWrap || isGiven behind .noWrap

def commandOf (scope : Scope) (given : Given) (path : Text) : Option Command :=
  match scope with
  | .top => none
  | .check => some (.check path)
  | .format => some (.format path (valueOf given .output))
  | .dump =>
    match valueOf given .dumpFormat with
    | none => some (.dump path .json)
    | some name => (DumpFormat.ofName name).map (.dump path)

end Arguments

def Request.ofArguments (arguments : List Text) : Option Request :=
  match Arguments.scan .top [] none none false arguments with
  | some .version => some .version
  | some .help => some .help
  | some (.command before scope rest) =>
    match Arguments.scan scope [] none none false rest with
    | some .help => some .help
    | some (.arguments behind (some path)) =>
      (Arguments.commandOf scope behind path).map fun command =>
        .run (Arguments.commonOptions before behind) command
    | _ => none
  | _ => none

end TypedProperties
