import Mathlib.Data.List.TakeDrop
import TypedProperties.Command.Arguments
import TypedProperties.Proofs.Files.Write

/-! Command lines that name an output: without the arguments that name it, they ask for the same, printed. -/
namespace TypedProperties
namespace Arguments

variable {given behind : Given} {name : Name} {value path : Option Text} {argument output : Text}
  {arguments rest : List Text} {options : List (Name × Option Text)}

def others (given : Given) : Given := given.filter (·.1 ≠ .output)

def Taken.map (f : Given → Given) : Taken → Taken
  | .given given waiting => .given (f given) waiting
  | t => t

/-- How far the arguments of a command that formats have been gone through. -/
structure State where
  given : Given
  path : Option Text
  waiting : Option Name
  plain : Bool

namespace State

variable {s s' : State}

def scan (s : State) (arguments : List Text) : Option Scanned :=
  Arguments.scan .format s.given s.path s.waiting s.plain arguments

/-- The state behind an argument that gives options. -/
def after (s : State) : Taken → Option State
  | .given given waiting => some ⟨given, s.path, waiting, false⟩
  | _ => none

/-- The state behind an argument, unless that breaks a rule or asks for help. -/
def next (s : State) (argument : Text) : Option State :=
  if s.plain then
    if s.path.isSome then none else some ⟨s.given, some argument, none, true⟩
  else if argument = ['-', '-'] then
    if s.waiting.isSome then none else some ⟨s.given, s.path, none, true⟩
  else if isOption argument then
    if s.waiting.isSome then none
    else (option .format argument).bind fun options => s.after (take s.given options)
  else
    match s.waiting with
    | some name => s.after (take s.given [(name, some argument)])
    | none => if s.path.isSome then none else some ⟨s.given, some argument, none, false⟩

def SameOutput (s s' : State) : Prop :=
  valueOf s'.given .output = valueOf s.given .output ∧ isGiven s'.given .output = isGiven s.given .output

theorem SameOutput.refl (s : State) : s.SameOutput s := ⟨rfl, rfl⟩

end State

end Arguments

open Arguments

end TypedProperties
