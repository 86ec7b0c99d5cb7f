import TypedProperties.Decimal.Binary

/-! Decimal numbers `digits * 10 ^ exponent`, and the float nearest to one. -/
namespace TypedProperties

structure Decimal where
  digits : Nat
  exponent : Int
  deriving DecidableEq, Repr

namespace Decimal

def length (d : Decimal) : Nat := (Nat.toDigits 10 d.digits).length

/-- The exponent of ten of the first digit. -/
def lead (d : Decimal) : Int := d.exponent + d.length - 1

/-- The pattern of the nearest float. Below `10 ^ -324` that is zero, and from `10 ^ 309` on it is
infinity, so no large power is computed for these. -/
def toBits (d : Decimal) : Nat :=
  if d.digits = 0 then 0
  else if 309 ≤ d.lead then Binary.infinity
  else if d.lead < -324 then 0
  else Binary.nearest (d.digits * Nat.pow 10 d.exponent.toNat) (Nat.pow 10 (-d.exponent).toNat)

def normal (d : Decimal) : Decimal := go d.length d.digits d.exponent
where
  go : Nat → Nat → Int → Decimal
    | 0, n, e => ⟨n, e⟩
    | fuel + 1, n, e => if n ≠ 0 ∧ n % 10 = 0 then go fuel (n / 10) (e + 1) else ⟨n, e⟩

end Decimal
end TypedProperties
