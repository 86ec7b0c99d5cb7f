import TypedProperties.FaultKind
import TypedProperties.Variant.Repository

/-! Open variant blocks, and the guard that waits for the next declaration. -/
namespace TypedProperties

inductive BlockFault where
  | nothingToClose
  | wrongClosing (expected current : Text)
  | blockRule (rule : Text) (fault : VariantFault)
  | guardRule (rule : Text) (fault : VariantFault)
  deriving DecidableEq, Repr

namespace BlockFault

def kind : BlockFault → FaultKind
  | .nothingToClose => .malformed
  | .wrongClosing _ _ => .malformed
  | .blockRule _ _ => .unresolved
  | .guardRule _ _ => .unresolved

def message : BlockFault → String
  | .nothingToClose => "no conditional variant block to close"
  | .wrongClosing expected current =>
    s!"unmatching closing variant rule '{expected.str}' for block '{current.str}'"
  | .blockRule rule fault => s!"cannot resolve variant if block '{rule.str}': {fault.message}"
  | .guardRule rule fault =>
    s!"cannot resolve variant only directive '{rule.str}': {fault.message}"

end BlockFault

/-- The rules of the open blocks, the innermost first, and the rule of the guard. -/
structure Blocks where
  rules : List Text
  guard : Option Text
  deriving DecidableEq, Repr

namespace Blocks

def empty : Blocks := ⟨[], none⟩

def innermost (b : Blocks) : Option Text := b.rules.head?

def enter (b : Blocks) (rule : Text) : Blocks := { b with rules := rule :: b.rules }

def setGuard (b : Blocks) (rule : Text) : Blocks := { b with guard := some rule }

def closingName (rule : Text) : Text :=
  Text.trim (match Text.cutAt '|' rule with
    | some (name, _) => name
    | none => rule)

/-- Close the innermost block. A name that is given has to be that of the block. -/
def leave (b : Blocks) (name : Option Text) : Except BlockFault Blocks :=
  match b.rules with
  | [] => .error .nothingToClose
  | current :: rest =>
    match name with
    | none => .ok { b with rules := rest }
    | some expected =>
      if closingName current = Text.trim expected then .ok { b with rules := rest }
      else .error (.wrongClosing expected current)

/-- Whether all rules exhibit, asked in order up to the first that does not. -/
def allExhibit {ρ : Type} [Variants ρ] (variants : ρ) : List Text → Except BlockFault Bool
  | [] => .ok true
  | rule :: rest =>
    match Variants.resolve variants rule with
    | .error fault => .error (.blockRule rule fault)
    | .ok a => if a.exhibits then allExhibit variants rest else .ok false

def guardExhibits {ρ : Type} [Variants ρ] (variants : ρ) : Option Text → Except BlockFault Bool
  | none => .ok true
  | some rule =>
    match Variants.resolve variants rule with
    | .error fault => .error (.guardRule rule fault)
    | .ok a => .ok a.exhibits

/-- Whether the next declaration is exhibited: by every open block, the outermost first, and then by
the guard. -/
def exhibits {ρ : Type} [Variants ρ] (variants : ρ) (b : Blocks) : Except BlockFault Bool :=
  match allExhibit variants b.rules.reverse with
  | .error fault => .error fault
  | .ok false => .ok false
  | .ok true => guardExhibits variants b.guard

/-- The guard is spent on one declaration, exhibited or not. -/
def spendGuard (b : Blocks) : Blocks := { b with guard := none }

end Blocks
end TypedProperties
