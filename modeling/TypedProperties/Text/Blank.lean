import TypedProperties.Text.Basic

/-! White space: the 25 code points with the `White_Space` property, and trimming by it. -/
namespace TypedProperties
namespace Text

/-- The code points with the `White_Space` property, as closed ranges. -/
def spaceRanges : List (Nat × Nat) :=
  [(0x09, 0x0d), (0x20, 0x20), (0x85, 0x85), (0xa0, 0xa0), (0x1680, 0x1680), (0x2000, 0x200a),
    (0x2028, 0x2029), (0x202f, 0x202f), (0x205f, 0x205f), (0x3000, 0x3000)]

def isSpace (c : Char) : Bool :=
  spaceRanges.any fun r => r.1 ≤ c.toNat && c.toNat ≤ r.2

def trimStart (t : Text) : Text := t.dropWhile isSpace

def trimEnd : Text → Text
  | [] => []
  | c :: cs =>
    match trimEnd cs with
    | [] => if isSpace c then [] else [c]
    | d :: ds => c :: d :: ds

def trim (t : Text) : Text := trimEnd (trimStart t)

/-- A space or a tab, the blanks that stand between words of one line. -/
def isInlineSpace (c : Char) : Bool := c = ' ' || c = '\t'

def trimInline (t : Text) : Text :=
  ((t.dropWhile isInlineSpace).reverse.dropWhile isInlineSpace).reverse

def isBlank (t : Text) : Bool := t.all isSpace

@[simp] theorem trimEnd_eq_nil {t : Text} : trimEnd t = [] ↔ isBlank t = true := by
  induction t with
  | nil => simp [trimEnd, isBlank]
  | cons c t ih =>
    simp only [isBlank, List.all_cons] at ih ⊢
    cases h : trimEnd t with
    | nil => cases hc : isSpace c <;> simp [trimEnd, h, hc, ih.mp h]
    | cons d ds => simp [trimEnd, h, ← ih]

/-- The first word and what follows it: a cut at the first white space. -/
def cutWord (t : Text) : Text × Text :=
  (t.takeWhile fun c => !isSpace c, t.dropWhile fun c => !isSpace c)

end Text
end TypedProperties
