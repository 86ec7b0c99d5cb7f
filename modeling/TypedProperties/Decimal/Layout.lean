import TypedProperties.Decimal.Shortest
import TypedProperties.Text.Integer

/-! Floats as text: how the shortest digits are laid out. -/
namespace TypedProperties
namespace Decimal

structure Layout where
  /-- The exponents of the first digit that are written without an exponent: from here … -/
  plainFrom : Int
  /-- … to below here. -/
  plainBelow : Int
  /-- A whole number is written with `.0`. -/
  pointZero : Bool
  /-- A positive exponent has a `+`. -/
  plus : Bool
  tie : Tie
  nan : Text
  infinity : Text
  negativeInfinity : Text

def zeros (n : Nat) : Text := List.replicate n '0'

def plain (pointZero : Bool) (d : Decimal) : Text :=
  let ds := Text.ofNat d.digits
  if 0 ≤ d.exponent then
    ds ++ zeros d.exponent.toNat ++ if pointZero then ['.', '0'] else []
  else if 0 ≤ d.lead then
    let whole := (d.lead + 1).toNat
    ds.take whole ++ '.' :: ds.drop whole
  else '0' :: '.' :: zeros (-d.lead - 1).toNat ++ ds

def scientific (plus : Bool) (d : Decimal) : Text :=
  let ds := Text.ofNat d.digits
  let fraction := match ds.drop 1 with
    | [] => []
    | r => '.' :: r
  let sign := if plus ∧ 0 ≤ d.lead then ['+'] else []
  ds.take 1 ++ fraction ++ 'e' :: sign ++ Text.ofInt d.lead

/-- A finite value that is not zero, or zero itself, which is always written plainly. -/
def layOut (l : Layout) (d : Decimal) : Text :=
  if d.digits = 0 ∨ (l.plainFrom ≤ d.lead ∧ d.lead < l.plainBelow) then plain l.pointZero d
  else scientific l.plus d

def text (l : Layout) (x : Float) : Text :=
  let bits := Binary.magnitude x
  if Binary.infinity < bits then l.nan
  else if bits = Binary.infinity then
    if Binary.isNegative x then l.negativeInfinity else l.infinity
  else
    let t := layOut l (shortest l.tie bits)
    if Binary.isNegative x then '-' :: t else t

end Decimal
end TypedProperties
