import TypedProperties.Text.Basic

/-! Unit symbols. A unit has a factor, its size in base units, and a label, its dimension. -/
namespace TypedProperties

structure Measure where
  factor : Float
  label : Text
  deriving DecidableEq

/-- What can be asked about units: what a symbol measures, if it is known, and whether a label is
valid. -/
structure UnitSystem where
  find? : Text → Option Measure
  hasLabel : Text → Bool

/-- Symbols with their measures; of two entries with one symbol the first counts. -/
abbrev UnitTable := List (Text × Measure)

namespace UnitTable

def find? (units : UnitTable) (symbol : Text) : Option Measure := units.lookup symbol

def hasLabel (units : UnitTable) (label : Text) : Bool := units.any fun u => u.2.label = label

def system (units : UnitTable) : UnitSystem := ⟨units.find?, units.hasLabel⟩

instance : Coe UnitTable UnitSystem := ⟨system⟩

end UnitTable
end TypedProperties
