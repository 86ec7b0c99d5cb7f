import TypedProperties.Text.Basic

/-! The three kinds of faults that a reader finds in its input. -/
namespace TypedProperties

inductive FaultKind where
  /-- Input that is not formed as it has to be. -/
  | malformed
  /-- Well formed input that breaks a rule. -/
  | forbidden
  /-- Something named in the input that cannot be found. -/
  | unresolved
  deriving DecidableEq, Repr

def FaultKind.label : FaultKind → String
  | .malformed => "syntax"
  | .forbidden => "semantic"
  | .unresolved => "resolution"

end TypedProperties
