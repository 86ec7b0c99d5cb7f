/-! Binary floating point of 64 bits, as natural numbers: the value of a bit pattern, and the
pattern nearest to a quotient. -/
namespace TypedProperties
namespace Binary

/-- The pattern of positive infinity. The finite patterns are those below it. -/
def infinity : Nat := 0x7ff * Nat.pow 2 52

def roundHalfEven (num den : Nat) : Nat :=
  let m := num / den
  let r := num % den
  if den < 2 * r ∨ (2 * r = den ∧ m % 2 = 1) then m + 1 else m

/-- The significand and the exponent of two of a finite pattern. -/
def decode (bits : Nat) : Nat × Int :=
  let e : Nat := bits / Nat.pow 2 52
  let f : Nat := bits % Nat.pow 2 52
  if e = 0 then (f, -1074) else (Nat.pow 2 52 + f, (e : Int) - 1075)

def quotient (m : Nat) (q : Int) : Nat × Nat := (m * Nat.pow 2 q.toNat, Nat.pow 2 (-q).toNat)

/-- The exponent of the last place of the pattern nearest to `num / den`: the significand has 53
binary places, or fewer at the least exponent. -/
def placeOf (num den : Nat) : Int :=
  let q : Int := max ((Nat.log2 num : Int) - Nat.log2 den - 53) (-1074)
  let m : Nat := num * Nat.pow 2 (-q).toNat / (den * Nat.pow 2 q.toNat)
  if Nat.pow 2 53 ≤ m then q + 1 else q

/-- The pattern nearest to `num / den`, of two equally near ones the even one. -/
def nearest (num den : Nat) : Nat :=
  if num = 0 then 0
  else
    let q := placeOf num den
    let m := roundHalfEven (num * Nat.pow 2 (-q).toNat) (den * Nat.pow 2 q.toNat)
    min ((q + 1074).toNat * Nat.pow 2 52 + m) infinity

def magnitude (x : Float) : Nat := x.toBits.toNat % Nat.pow 2 63

def isNegative (x : Float) : Bool := Nat.pow 2 63 ≤ x.toBits.toNat

def toFloat (negative : Bool) (bits : Nat) : Float :=
  Float.ofBits (UInt64.ofNat (if negative then Nat.pow 2 63 + bits else bits))

end Binary
end TypedProperties
