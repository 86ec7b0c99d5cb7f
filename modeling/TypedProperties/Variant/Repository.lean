import TypedProperties.Text.Blank
import TypedProperties.Text.Boolean
import TypedProperties.Text.Cut

/-! Variants and their parameters, by registry and path, and the rules that ask for them. -/
namespace TypedProperties

inductive VariantFault where
  | badDefault (rule : Text)
  | badTarget (text : Text)
  | inactive (text : Text)
  | unknownRegistry (registry text : Text)
  | unknownVariant (path registry : Text)
  | unknownParameter (path registry : Text)
  | unclosedReference (text : Text)
  | noAssignment (spec : Text)
  /-- What something else than a repository gives as its reason. -/
  | other (reason : Text)
  deriving DecidableEq, Repr

def VariantFault.message : VariantFault → String
  | .badDefault rule => s!"invalid default boolean value in variant rule '{rule.str}'"
  | .badTarget text => s!"cannot parse variant path tokens from '{text.str}'"
  | .inactive text => s!"inactive variant repository while processing '{text.str}'"
  | .unknownRegistry registry text =>
    s!"unknown registry '{registry.str}' while processing '{text.str}'"
  | .unknownVariant path registry =>
    s!"unknown variant record '{path.str}' in registry '{registry.str}'"
  | .unknownParameter path registry =>
    s!"unknown variant parameter '{path.str}' in registry '{registry.str}'"
  | .unclosedReference text => s!"cannot find variant close tag in '{text.str}'"
  | .noAssignment spec => s!"missing '=' in variant parameter setting '{spec.str}'"
  | .other reason => reason.str

structure Target where
  registry : Text
  path : Text
  deriving DecidableEq, Repr

namespace Target

def ofText (t : Text) : Except VariantFault Target :=
  match Text.cutAt ':' t with
  | some (registry, path) =>
    if registry = [] ∨ path = [] ∨ ':' ∈ path then .error (.badTarget t) else .ok ⟨registry, path⟩
  | none => .error (.badTarget t)

end Target

/-- The variants and parameters that were set; of two settings of one node the later is first. -/
structure Repository where
  variants : List (Target × Bool)
  parameters : List (Target × Text)
  deriving DecidableEq, Repr

namespace Repository

def empty : Repository := ⟨[], []⟩

/-- Active as soon as anything is set. -/
def isActive (r : Repository) : Bool := !r.variants.isEmpty || !r.parameters.isEmpty

def hasRegistry (r : Repository) (registry : Text) : Bool :=
  r.variants.any (·.1.registry = registry) || r.parameters.any (·.1.registry = registry)

def setVariant (r : Repository) (target : Target) (active : Bool) : Repository :=
  { r with variants := (target, active) :: r.variants }

def setParameter (r : Repository) (target : Target) (value : Text) : Repository :=
  { r with parameters := (target, value) :: r.parameters }

def activate (r : Repository) (spec : Text) : Except VariantFault Repository :=
  (Target.ofText spec).map fun target => r.setVariant target true

def assign (r : Repository) (spec : Text) : Except VariantFault Repository :=
  match Text.cutAt '=' spec with
  | none => .error (.noAssignment spec)
  | some (target, value) => (Target.ofText target).map fun target => r.setParameter target value

end Repository

/-- A rule: a variant, reversed by a `!` in front, and the answer to give while no variant
repository is active. -/
structure Rule where
  target : Target
  reversed : Bool
  fallback : Option Bool
  /-- The rule as it was written. -/
  text : Text
  deriving DecidableEq, Repr

/-- The state of a variant, and whether the rule asks for the opposite. -/
structure Activation where
  active : Bool
  reversed : Bool
  deriving DecidableEq, Repr

def Activation.exhibits (a : Activation) : Bool := a.active ≠ a.reversed

/-- What a reader asks about variants: the answer to a rule, and a value segment with its references
replaced, without quotes around their values if these are to be removed. -/
class Variants (ρ : Type) where
  resolve : ρ → Text → Except VariantFault Activation
  preprocess : ρ → (removeQuotes : Bool) → Text → Except VariantFault Text

namespace Rule

def reversal : Text → Text × Bool
  | '!' :: rest => (rest, true)
  | t => (t, false)

def ofParts (text description : Text) (fallback : Option Bool) : Except VariantFault Rule :=
  let (name, reversed) := reversal description
  (Target.ofText name).map fun target => ⟨target, reversed, fallback, text⟩

/-- `[!]registry:path[|fallback]`, with white space around it or around the bar. -/
def ofText (t : Text) : Except VariantFault Rule :=
  let rule := Text.trim t
  match Text.cutAt '|' rule with
  | none => ofParts rule rule none
  | some (description, fallback) =>
    match Text.readBoolean (Text.trim fallback) with
    | none => .error (.badDefault rule)
    | some b => ofParts rule (Text.trim description) (some b)

def resolve (repository : Repository) (rule : Rule) : Except VariantFault Activation :=
  if !repository.isActive then
    match rule.fallback with
    | some active => .ok ⟨active, false⟩
    | none => .error (.inactive rule.text)
  else if !repository.hasRegistry rule.target.registry then
    .error (.unknownRegistry rule.target.registry rule.text)
  else
    match repository.variants.lookup rule.target with
    | some active => .ok ⟨active, rule.reversed⟩
    | none => .error (.unknownVariant rule.target.path rule.target.registry)

end Rule

def Repository.resolve (repository : Repository) (rule : Text) : Except VariantFault Activation :=
  match Rule.ofText rule with
  | .error fault => .error fault
  | .ok rule => rule.resolve repository

end TypedProperties
