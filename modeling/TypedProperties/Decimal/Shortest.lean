import TypedProperties.Decimal.Basic

/-! The fewest decimal digits that read back as a given float. On each decimal grid, from coarse to
fine, the two neighbours of the value are tried; the first grid with a hit wins. -/
namespace TypedProperties
namespace Decimal

inductive Tie where
  | up
  | even
  deriving DecidableEq, Repr

/-- Whether `n / d` is nearer to the integer above it, or as near and the tie goes there. -/
def roundsUp (tie : Tie) (n d : Nat) : Bool :=
  let low : Nat := n / d
  let middle : Nat := (2 * low + 1) * d
  middle < 2 * n || (middle == 2 * n && (tie == .up || low % 2 == 1))

/-- The neighbour of `num / den` on the grid `10 ^ e` that reads back as `bits`, the nearer one if
both do. -/
def onGrid (tie : Tie) (bits num den : Nat) (e : Int) : Option Decimal :=
  let n : Nat := num * Nat.pow 10 (-e).toNat
  let d : Nat := den * Nat.pow 10 e.toNat
  let low : Decimal := ⟨n / d, e⟩
  let high : Decimal := ⟨n / d + 1, e⟩
  if low.toBits = bits ∧ high.toBits = bits then some (if roundsUp tie n d then high else low)
  else if low.toBits = bits then some low
  else if high.toBits = bits then some high
  else none

/-- The grids to try: from above the first digit of the value down past its seventeenth. -/
def grids (num den : Nat) : List Int :=
  let top := ((Nat.log2 num : Int) - Nat.log2 den) * 30103 / 100000 + 2
  (List.range 24).map fun i : Nat => top - i

def exact (m : Nat) (q : Int) : Decimal :=
  if 0 ≤ q then ⟨m * Nat.pow 2 q.toNat, 0⟩ else ⟨m * Nat.pow 5 (-q).toNat, q⟩

/-- The shortest decimal that reads back as the finite pattern `bits`. -/
def shortest (tie : Tie) (bits : Nat) : Decimal :=
  let (m, q) := Binary.decode bits
  if m = 0 then ⟨0, 0⟩
  else
    let (num, den) := Binary.quotient m q
    match (grids num den).findSome? (onGrid tie bits num den) with
    | some d => d.normal
    | none => exact m q

end Decimal
end TypedProperties
