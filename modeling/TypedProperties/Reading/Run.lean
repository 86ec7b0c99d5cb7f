import TypedProperties.Line.Logical
import TypedProperties.Line.Role
import TypedProperties.Reading.Apply
import TypedProperties.Unit.Standard
import TypedProperties.Variant.Template

/-! Reading: the lines of an input, one after the other, into a store. -/
namespace TypedProperties

/-- What a read depends on, apart from its input and the world. A `ρ` is asked about variants, and a `σ`
finds included files. -/
structure Reader (ρ : Type := Repository) (σ : Type := Search) [Variants ρ] [Searches σ] where
  options : Options
  variants : ρ
  units : UnitSystem
  includes : IncludeSetup σ

structure Outcome where
  warnings : List Warning
  /-- The store and the topic. -/
  result : Except ReadError (Store × Option Text)

namespace Reader

variable {ρ σ : Type} [Variants ρ] [Searches σ]

def standard : Reader := ⟨Options.standard, Repository.empty, StandardUnits.system, .standard⟩

/-- The reader of an included file: standard options, the same variants and units, and the search of
the including file as it stands, unless that file keeps it to itself. -/
def forIncluded (r : Reader ρ σ) (c : Context σ) : Reader ρ σ where
  options := { Options.standard with verbose := c.includeDebug }
  variants := r.variants
  units := r.units
  includes := if c.propagate then .fixed c.search else .standard

def begin (r : Reader ρ σ) (file : Option Text) (destination : Store) : Progress σ where
  context := Context.initial r.options r.includes file
  store := if r.options.dontClear then destination else Store.empty
  warnings := []

def segmentOf (r : Reader ρ σ) (c : Context σ) (d : Declaration) : Except Fault Text :=
  if c.variantsEnabled then
    match Variants.preprocess r.variants c.removeQuotes d.values with
    | .ok segment => .ok segment
    | .error fault => .error (.parameters d.key fault)
  else .ok d.values

def datumOf (d : Declaration) (data : Data) (description : Option Text) : Datum where
  data := data
  cardinality := d.cardinality
  locked := d.locked
  description := description.getD []

def trailingWarning (p : Progress σ) (d : Declaration) (trailing : Option Text) : Progress σ :=
  match trailing with
  | some text => p.warn (.trailing p.context.line d.key text)
  | none => p

/-- Put a datum into the store. A whole datum that gives way is pointed out. -/
def storeDatum (p : Progress σ) (d : Declaration) (datum : Datum) : Progress σ × Option Fault :=
  match p.store.put d.key datum d.mode p.context.allowKeyOverride with
  | (store, .error collision) => ({ p with store }, some (.collision collision))
  | (store, .ok replaced) =>
    let p := { p with store }
    (if replaced then p.warn (.overriding d.key) else p, none)

def exhibit (r : Reader ρ σ) (p : Progress σ) (d : Declaration) : Progress σ × Option Fault :=
  let description := p.context.description
  let p := p.setContext { p.context with description := none }
  match r.segmentOf p.context d with
  | .error fault => (p, some fault)
  | .ok segment =>
    match Readout.ofSegment r.units p.context.realWithUnit d segment with
    | .error fault => (p, some (.values fault))
    | .ok readout =>
      storeDatum (trailingWarning p d readout.trailing) d (datumOf d readout.data description)

/-- A declaration whose head is read. It is passed over unless the blocks and the guard exhibit
it. -/
def declareHead (r : Reader ρ σ) (p : Progress σ) (d : Declaration) : Progress σ × Option Fault :=
  let blocks := p.context.blocks
  let p := p.setContext { p.context with blocks := blocks.spendGuard }
  match blocks.exhibits r.variants with
  | .error fault => (p, some (.block fault))
  | .ok false => (p, none)
  | .ok true => r.exhibit p d

def declare (r : Reader ρ σ) (p : Progress σ) (text : Text) : Progress σ × Option Fault :=
  let p := p.setContext p.context.start
  match Declaration.ofLine r.units p.context.realWithUnit text with
  | .error fault => (p, some (.head fault))
  | .ok d => r.declareHead p d

structure Failure where
  error : ReadError
  warnings : List Warning
  deriving DecidableEq

def failAt (p : Progress σ) (fault : Fault) : Failure :=
  ⟨.inLine p.context.location fault, p.warnings⟩

def includeFile (nested : Reader ρ σ → Text → Outcome) (r : Reader ρ σ) (p : Progress σ) (path : Text) :
    Except Failure (Progress σ) :=
  let outcome := nested (r.forIncluded p.context) path
  let p := { p with warnings := p.warnings ++ outcome.warnings }
  match outcome.result with
  | .error error => .error ⟨.included p.context.location path error, p.warnings⟩
  | .ok (store, _) =>
    match p.store.merge store p.context.includesOverride with
    | (store, none) => .ok { p with store }
    | (_, some collision) => .error (failAt p (.collision collision))

def direct (nested : Reader ρ σ → Text → Outcome) (world : World) (r : Reader ρ σ) (p : Progress σ)
    (text : Text) : Except Failure (Progress σ × Bool) :=
  match Directive.applyText world p text with
  | (p, .error fault) => .error (failAt p fault)
  | (p, .ok .next) => .ok (p, false)
  | (p, .ok .stop) => .ok (p, true)
  | (p, .ok (.includeFile path)) => (r.includeFile nested p path).map fun p => (p, false)

def step (nested : Reader ρ σ → Text → Outcome) (world : World) (r : Reader ρ σ) (p : Progress σ)
    (line : Line) : Except Failure (Progress σ × Bool) :=
  let p := p.setContext (p.context.atLine line.last)
  match Role.ofText line.text with
  | .comment => .ok (p, false)
  | .directive text => r.direct nested world p text
  | .declaration text =>
    match r.declare p text with
    | (p, none) => .ok (p, false)
    | (p, some fault) => .error (failAt p fault)

def inputName (c : Context σ) : Text := c.location.file.getD (Text.ofString "<input>")

def steps (nested : Reader ρ σ → Text → Outcome) (world : World) (r : Reader ρ σ) (broken : Bool) :
    Progress σ → List Line → Except Failure (Progress σ)
  | p, [] => if broken then .error ⟨.access (inputName p.context) .notText, p.warnings⟩ else .ok p
  | p, line :: rest =>
    match r.step nested world p line with
    | .error failure => .error failure
    | .ok (p, true) => .ok p
    | .ok (p, false) => steps nested world r broken p rest

def finish (p : Progress σ) : Except Failure (Progress σ) :=
  match p.context.blocks.innermost with
  | some rule => .error (failAt p (.unclosedBlock rule))
  | none => .ok p

/-- Read an input, with what `destination` holds as the start if the options keep it. -/
def run (nested : Reader ρ σ → Text → Outcome) (world : World) (r : Reader ρ σ) (file : Option Text)
    (destination : Store) (bytes : Bytes) : Outcome :=
  let lines := Lines.ofBytes bytes
  match r.steps nested world lines.broken (r.begin file destination) lines.complete with
  | .error failure => ⟨failure.warnings, .error failure.error⟩
  | .ok p =>
    match finish p with
    | .error failure => ⟨failure.warnings, .error failure.error⟩
    | .ok p => ⟨p.warnings, .ok (p.store, p.context.topic)⟩

def runFile (world : World) : Nat → Reader ρ σ → Store → Text → Outcome
  | 0, _, _, path => ⟨[], .error (.access path .nestedTooDeep)⟩
  | depth + 1, r, destination, path =>
    match world.tree.read path with
    | .error fault => ⟨[], .error (.access path fault)⟩
    | .ok bytes =>
      let nested := fun r path => runFile world depth r Store.empty path
      r.run nested world (some path) destination bytes

/-- What a destination holds in the end: the store that was read, if one was, in place of what it held. -/
def deliver (destination : Store) (o : Outcome) : Store × Outcome :=
  (match o.result with
    | .ok (store, _) => store
    | .error _ => destination, o)

/-- Read an input that is no file into a destination, and hand that back. -/
def readInto (world : World) (r : Reader ρ σ) (destination : Store) (bytes : Bytes) : Store × Outcome :=
  let nested := fun r path => runFile world world.nestingBound r Store.empty path
  deliver destination (r.run nested world none destination bytes)

/-- Read the file at a path into a destination, and hand that back. -/
def readFileInto (world : World) (r : Reader ρ σ) (destination : Store) (path : Text) : Store × Outcome :=
  deliver destination (runFile world world.nestingBound r destination path)

def read (world : World) (r : Reader ρ σ) (bytes : Bytes) : Outcome :=
  (r.readInto world Store.empty bytes).2

def readFile (world : World) (r : Reader ρ σ) (path : Text) : Outcome :=
  (r.readFileInto world Store.empty path).2

end Reader

end TypedProperties
