import TypedProperties.Proofs.Lookup
import TypedProperties.Proofs.Text.Plain
import TypedProperties.Unit.Standard

/-! The symbols of the standard units are plain words. -/
namespace TypedProperties
namespace UnitTable

theorem mem_of_find? {units : UnitTable} {symbol : Text} {measure : Measure}
    (h : units.find? symbol = some measure) : symbol ∈ units.map Prod.fst :=
  List.mem_map_of_mem (mem_of_lookup h)

end UnitTable

namespace StandardUnits

theorem isPlain_of_find? {symbol : Text} {measure : Measure}
    (h : system.find? symbol = some measure) : symbol.IsPlain := by
  have all : ∀ s ∈ table.map Prod.fst, s ≠ [] ∧ ∀ c ∈ s, Text.isPlain c = true := by decide +kernel
  exact all symbol (UnitTable.mem_of_find? h)

end StandardUnits
end TypedProperties
