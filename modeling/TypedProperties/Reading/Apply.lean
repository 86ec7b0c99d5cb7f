import TypedProperties.Reading.Context

/-! What directives do to a read in progress. -/
namespace TypedProperties

/-- What the reader does once a directive has been applied. -/
inductive Effect where
  | next
  | stop
  /-- Read the file at `path` and merge it. -/
  | includeFile (path : Text)
  deriving DecidableEq, Repr

namespace Directive

variable {σ : Type} [Searches σ]

/-- The progress that a directive leaves behind, also when it fails. -/
abbrev Applied (σ : Type := Search) [Searches σ] := Progress σ × Except Fault Effect

def done (p : Progress σ) : Applied σ := (p, .ok .next)

def refuse (p : Progress σ) (fault : Fault) : Applied σ := (p, .error fault)

def change (p : Progress σ) (context : Context σ) : Applied σ := done (p.setContext context)

/-- Directives about variants are refused where these are forbidden, and those about blocks and
guards also where they are disabled. -/
def variantFault (c : Context σ) : Directive → Option Fault
  | .variantIf _ | .variantOnly _ | .variantEndif _ =>
    if c.variantsForbidden then some .variantsForbidden
    else if c.variantsEnabled then none
    else some .variantsDisabled
  | .variantDevel _ | .variantRemoveQuotes _ =>
    if c.variantsForbidden then some .variantsForbidden else none
  | _ => none

/-- Some directives have to come before the first property. -/
def beforeFirst (p : Progress σ) (name : String) (go : Applied σ) : Applied σ :=
  if p.context.started then refuse p (.tooLate (Text.ofString name)) else go

def inclusionEnabled (p : Progress σ) (name : String) (go : Applied σ) : Applied σ :=
  if p.context.inclusion then go else refuse p (.inclusionDisabled (Text.ofString name))

/-- The first topic that is not empty counts; it has to be the expected one, if there is one. -/
def applyTopic (p : Progress σ) (topic : Text) : Applied σ :=
  let c := p.context
  if topic = [] then done (p.warn (.emptyTopic c.line))
  else
    match c.topic, c.expectedTopic with
    | some seen, _ => done (p.warn (.topicAlreadySet c.line seen topic))
    | none, some expected =>
      if expected = topic then change p { c with topic := some topic }
      else refuse p (.wrongTopic topic expected)
    | none, none => change p { c with topic := some topic }

def applyConfig (p : Progress σ) (text : Text) : Applied σ :=
  let c := p.context
  if c.configSeen then done (p.warn (.descriptionAlreadySet c.line))
  else
    let store := { p.store with description := text }
    done { p with context := { c with configSeen := true }, store }

def applyDescription (p : Progress σ) (text : Text) : Applied σ :=
  let c := p.context
  if text = [] then if c.started then refuse p .noDescription else done p
  else change p { c with description := some text, started := true }

/-- Once overriding is off, included files may not override any more either. -/
def applyOverride (p : Progress σ) (allow : Bool) : Applied σ :=
  let c := p.context
  change p { c with allowKeyOverride := allow, includesOverride := allow && c.includesOverride }

def applyEndif (p : Progress σ) (name : Option Text) : Applied σ :=
  match p.context.blocks.leave name with
  | .ok blocks => change p { p.context with blocks }
  | .error fault => refuse p (.block fault)

def applyInclude (world : World) (p : Progress σ) (path : Text) (optional : Bool) : Applied σ :=
  inclusionEnabled p (if optional then "@include_try" else "@include") <|
    let p := p.setContext p.context.start
    match Searches.resolve world p.context.search path with
    | .ok found => (p, .ok (.includeFile found))
    | .error fault =>
      if optional then done (p.warn (.includeSkipped p.context.line path fault))
      else refuse p (.unresolvedInclude path fault)

/-- Change where included files are searched, unless that is fixed. -/
def applySearch (p : Progress σ) (name : String) (search : Except IncludeFault σ)
    (fault : IncludeFault → Fault) : Applied σ :=
  if p.context.searchFixed then done p
  else
    inclusionEnabled p name <| beforeFirst p name <|
      match search with
      | .ok search => change p { p.context with search }
      | .error f => refuse p (fault f)

def apply (world : World) (p : Progress σ) (directive : Directive) : Applied σ :=
  let c := p.context
  match variantFault c directive with
  | some fault => refuse p fault
  | none =>
    match directive with
    | .stop => if c.propertyPending then refuse p .endWhilePending else (p, .ok .stop)
    | .topic text => beforeFirst p "@topic" (applyTopic p text)
    | .config text => beforeFirst p "@config" (applyConfig p text)
    | .description text => applyDescription p text
    | .allowKeyOverride allow => applyOverride p allow
    | .forbidKeyOverride forbid => applyOverride p (!forbid)
    | .enableVariants =>
      if c.variantsForbidden then refuse p .cannotEnableVariants
      else change p { c with variantsEnabled := true }
    | .disableVariants => change p { c with variantsEnabled := false }
    | .variantIf rule => change p { c with blocks := c.blocks.enter rule, started := true }
    | .variantOnly rule => change p { c with blocks := c.blocks.setGuard rule, started := true }
    | .variantEndif name => applyEndif p name
    | .variantDevel on => change p { c with variantDevel := on }
    | .variantRemoveQuotes on => change p { c with removeQuotes := on }
    | .realWithUnit on => change p { c with realWithUnit := on }
    | .includeFile path optional => applyInclude world p path optional
    | .includeDirectory dir =>
      applySearch p "@include_dir" (Searches.addDirectory world c.search dir) .includeDirectory
    | .includePathVariable name =>
      applySearch p "@include_path_env" (Searches.setPathVariable c.search name) .includePathVariable
    | .includeNoPropagate =>
      beforeFirst p "@include_no_propagate" (change p { c with propagate := false })
    | .includeDebug =>
      change p { c with includeDebug := true, search := Searches.setDebug c.search true }
    | .forbidInclude => change p { c with inclusion := false }
    | .verboseParsing on => change p { c with verbose := on }

def applyText (world : World) (p : Progress σ) (text : Text) : Applied σ :=
  match ofText text with
  | .error fault => refuse p (.directive fault)
  | .ok directive => apply world p directive

end Directive
end TypedProperties
