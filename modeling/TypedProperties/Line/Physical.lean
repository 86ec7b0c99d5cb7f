import TypedProperties.Text.Bytes
import TypedProperties.Text.Cut

/-! Physical lines: the bytes of an input, cut after each line feed. -/
namespace TypedProperties

/-- The bytes of one line, less its line feed, and whether a line feed ended it. -/
structure RawLine where
  bytes : Bytes
  ended : Bool
  deriving DecidableEq, Repr

namespace RawLine

/-- Cut after each line feed. Behind a last line feed there is no further line. -/
def cut : Bytes → List RawLine
  | [] => []
  | b :: bs =>
    if b = 10 then ⟨[], true⟩ :: cut bs
    else
      match cut bs with
      | [] => [⟨[b], false⟩]
      | l :: ls => ⟨b :: l.bytes, l.ended⟩ :: ls

def join : List RawLine → Bytes
  | [] => []
  | l :: ls => l.bytes ++ (if l.ended then [10] else []) ++ join ls

@[simp] theorem join_cut (bytes : Bytes) : join (cut bytes) = bytes := by
  induction bytes with
  | nil => rfl
  | cons b bs ih =>
    by_cases h : b = 10
    · simp [cut, join, h, ih]
    · cases hc : cut bs with
      | nil => simp_all [cut, join]
      | cons l ls => simp_all [cut, join]

/-- The text of the line. A carriage return before the line feed belongs to the line end. -/
def text (line : RawLine) : Option Text :=
  (Text.decode line.bytes).map fun t =>
    if line.ended then (Text.dropMark '\r' t).getD t else t

end RawLine
end TypedProperties
