import TypedProperties.Include.Search
import TypedProperties.Text.Integer

/-! What a reader points out without failing. -/
namespace TypedProperties

inductive Warning where
  | trailing (line : Nat) (key text : Text)
  | overriding (key : Text)
  | emptyTopic (line : Nat)
  | topicAlreadySet (line : Nat) (seen ignored : Text)
  | descriptionAlreadySet (line : Nat)
  | includeSkipped (line : Nat) (path : Text) (reason : IncludeFault)
  deriving DecidableEq, Repr

namespace Warning

def message : Warning → String
  | .trailing _ _ _ => "unused trailing characters"
  | .overriding _ => "overriding existing property"
  | .emptyTopic _ => "empty topic"
  | .topicAlreadySet _ _ _ => "topic already set"
  | .descriptionAlreadySet _ => "store description already set; ignoring"
  | .includeSkipped _ _ _ => "optional include skipped"

/-- The line of the input that gave rise to it, where it is known. -/
def line? : Warning → Option Nat
  | .trailing line _ _ => some line
  | .overriding _ => none
  | .emptyTopic line => some line
  | .topicAlreadySet line _ _ => some line
  | .descriptionAlreadySet line => some line
  | .includeSkipped line _ _ => some line

def details : Warning → List (String × Text)
  | .trailing _ key text => [("key", key), ("trailing", text)]
  | .overriding key => [("key", key)]
  | .emptyTopic _ => []
  | .topicAlreadySet _ seen ignored => [("seen", seen), ("ignored", ignored)]
  | .descriptionAlreadySet _ => []
  | .includeSkipped _ path reason =>
    [("path", path), ("reason", Text.ofString reason.message)]

def fullMessage (w : Warning) : String :=
  let line := w.line?.toList.map fun n => ("line", Text.ofNat n)
  let fields := (line ++ w.details).map fun field => s!" {field.1}={field.2.str}"
  w.message ++ String.join fields

end Warning
end TypedProperties
