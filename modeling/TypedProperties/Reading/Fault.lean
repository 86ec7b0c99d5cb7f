import TypedProperties.Declaration.Values
import TypedProperties.Directive.Basic
import TypedProperties.Include.Search
import TypedProperties.Variant.Blocks

/-! Everything that can make a read fail, and where it happened. -/
namespace TypedProperties

namespace Data.Fault

def message : Data.Fault → String
  | .appendKind more onto => s!"cannot append {more.label} values to {onto.label} values"
  | .itemRange index size => s!"invalid array index [{index}] for a vector of size {size}"
  | .itemKind new old => s!"type mismatch '{new.label}' vs '{old.label}' for array item override"
  | .itemMissing => "missing value for array item override"

end Data.Fault

def Collision.message : Collision → String
  | .appendToMissing key => s!"cannot append values to missing key '{key.str}'"
  | .itemOfMissing index key => s!"cannot override item [{index}] of missing key '{key.str}'"
  | .locked key => s!"key '{key.str}' is locked and cannot be overridden"
  | .alreadyUsed key => s!"key '{key.str}' is already used and override is not allowed"
  | .notVector key => s!"key '{key.str}' is not a vector"
  | .incompatible new old key =>
    s!"incompatible {new.label} values for existing {old.label} vector '{key.str}'"
  | .values fault => fault.message
  | .mergeUsed key => s!"key '{key.str}' is already used and property override is not allowed"
  | .mergeLocked key => s!"property '{key.str}' is locked and cannot be overridden"

/-- What is wrong with a line of the input. -/
inductive Fault where
  | head (fault : HeadFault)
  | values (fault : ValueFault)
  | directive (fault : DirectiveFault)
  | block (fault : BlockFault)
  | collision (fault : Collision)
  | variantsForbidden
  | variantsDisabled
  | cannotEnableVariants
  | endWhilePending
  | tooLate (name : Text)
  | wrongTopic (topic expected : Text)
  | noDescription
  | inclusionDisabled (name : Text)
  | unresolvedInclude (path : Text) (fault : IncludeFault)
  | includeDirectory (fault : IncludeFault)
  | includePathVariable (fault : IncludeFault)
  | parameters (key : Text) (fault : VariantFault)
  | unclosedBlock (rule : Text)
  deriving DecidableEq, Repr

namespace Fault

def kind : Fault → FaultKind
  | .head fault => fault.kind
  | .values fault => fault.kind
  | .directive _ => .malformed
  | .block fault => fault.kind
  | .collision _ => .forbidden
  | .variantsForbidden => .forbidden
  | .variantsDisabled => .forbidden
  | .cannotEnableVariants => .forbidden
  | .endWhilePending => .malformed
  | .tooLate _ => .malformed
  | .wrongTopic _ _ => .forbidden
  | .noDescription => .malformed
  | .inclusionDisabled _ => .forbidden
  | .unresolvedInclude _ _ => .unresolved
  | .includeDirectory _ => .unresolved
  | .includePathVariable _ => .malformed
  | .parameters _ _ => .unresolved
  | .unclosedBlock _ => .malformed

def message : Fault → String
  | .head fault => fault.message
  | .values fault => fault.message
  | .directive fault => fault.message
  | .block fault => fault.message
  | .collision fault => fault.message
  | .variantsForbidden => "variant directives are forbidden for this reader"
  | .variantsDisabled => "variant directives are disabled"
  | .cannotEnableVariants => "variants cannot be enabled: they are forbidden for this reader"
  | .endWhilePending => "unexpected end of stream while a property declaration is pending"
  | .tooLate name => s!"directive '{name.str}' is not allowed after the first property record"
  | .wrongTopic topic expected =>
    s!"topic '{topic.str}' does not match the expected topic '{expected.str}'"
  | .noDescription => "missing property description"
  | .inclusionDisabled name =>
    s!"directive '{name.str}' is not allowed: file inclusion is disabled"
  | .unresolvedInclude path fault =>
    s!"cannot resolve include path '{path.str}': {fault.message}"
  | .includeDirectory fault => fault.message
  | .includePathVariable fault => fault.message
  | .parameters key fault =>
    s!"cannot expand variant parameters for key '{key.str}': {fault.message}"
  | .unclosedBlock rule => s!"unclosed variant block '{rule.str}'"

def fullMessage (fault : Fault) : String := s!"{fault.kind.label} error: {fault.message}"

end Fault

/-- A place in an input: its file, the section that is being read, and a line. -/
structure Location where
  file : Option Text
  /-- The name of the section and the line it starts at. -/
  part : Option (Text × Nat)
  line : Nat
  deriving DecidableEq, Repr

def Location.message (l : Location) : String :=
  let file := match l.file with
    | some file => s!"in file '{file.str}': "
    | none => ""
  let part := match l.part with
    | some (name, start) => s!"in section '{name.str}' starting at line #{start}: "
    | none => ""
  s!"{file}{part}at line #{l.line}"

inductive ReadError where
  | inLine (location : Location) (fault : Fault)
  | access (path : Text) (fault : AccessFault)
  | included (location : Location) (path : Text) (error : ReadError)
  deriving DecidableEq, Repr

namespace ReadError

def message : ReadError → String
  | .inLine location fault => s!"{location.message}: {fault.fullMessage}"
  | .access path fault => s!"cannot read '{path.str}': {fault.message}"
  | .included location path error =>
    s!"{location.message}: in included file '{path.str}': {error.message}"

def fault? : ReadError → Option Fault
  | .inLine _ fault => some fault
  | .access _ _ => none
  | .included _ _ error => error.fault?

def line? : ReadError → Option Nat
  | .inLine location _ => some location.line
  | .access _ _ => none
  | .included location _ _ => some location.line

end ReadError

end TypedProperties
