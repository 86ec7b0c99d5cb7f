import TypedProperties.Files.Tree

/-! References to environment variables in paths, `$NAME` and `${NAME}`. -/
namespace TypedProperties

/-- A character as it stands, or a reference in one of its two forms. -/
inductive PathPiece where
  | char (c : Char)
  | braced (name : Text)
  | bare (name : Text)
  deriving DecidableEq, Repr

namespace PathPiece

def isNameStart (c : Char) : Bool := c.isAlpha || c = '_'

def isNameChar (c : Char) : Bool := c.isAlphanum || c = '_'

def text : PathPiece → Text
  | .char c => [c]
  | .braced name => '$' :: '{' :: name ++ ['}']
  | .bare name => '$' :: name

def spanName : Text → Option (Text × Text)
  | [] => none
  | c :: cs =>
    if isNameStart c then some (c :: cs.takeWhile isNameChar, cs.dropWhile isNameChar) else none

def spanReference : Text → Option (PathPiece × Text)
  | '{' :: cs =>
    match spanName cs with
    | some (name, '}' :: rest) => some (.braced name, rest)
    | _ => none
  | cs => (spanName cs).map fun r => (.bare r.1, r.2)

theorem length_of_spanName {t name rest : Text} (h : spanName t = some (name, rest)) :
    rest.length < t.length := by
  cases t with
  | nil => simp [spanName] at h
  | cons c cs =>
    simp only [spanName] at h
    split at h
    · obtain ⟨-, rfl⟩ := Prod.mk.inj (Option.some.inj h)
      exact Nat.lt_succ_of_le (List.dropWhile_sublist _).length_le
    · simp at h

theorem length_of_spanReference {t : Text} {piece : PathPiece} {rest : Text}
    (h : spanReference t = some (piece, rest)) : rest.length < t.length := by
  unfold spanReference at h
  split at h
  · split at h
    next hn =>
      obtain ⟨-, rfl⟩ := Prod.mk.inj (Option.some.inj h)
      have := length_of_spanName hn
      simp only [List.length_cons] at this ⊢
      omega
    · simp at h
  · obtain ⟨⟨name, r⟩, hn, he⟩ := Option.map_eq_some_iff.mp h
    obtain ⟨-, rfl⟩ := Prod.mk.inj he
    exact length_of_spanName hn

/-- The pieces of a text. A dollar sign that starts no reference stands for itself. -/
def scan (t : Text) : List PathPiece :=
  match t with
  | [] => []
  | c :: cs =>
    if c = '$' then
      match h : spanReference cs with
      | some (piece, rest) =>
        have := length_of_spanReference h
        piece :: scan rest
      | none => .char c :: scan cs
    else .char c :: scan cs
termination_by t.length

/-- What a piece stands for; the error names a variable that is not set to a text. -/
def value (world : World) : PathPiece → Except Text Text
  | .char c => .ok [c]
  | .braced name => (world.value? name).elim (.error name) .ok
  | .bare name => (world.value? name).elim (.error name) .ok

/-- The values of the pieces, or the first variable that is not set to a text. -/
def values (world : World) : List PathPiece → Except Text Text
  | [] => .ok []
  | piece :: rest =>
    match value world piece with
    | .error name => .error name
    | .ok v =>
      match values world rest with
      | .error name => .error name
      | .ok r => .ok (v ++ r)

end PathPiece

/-- The text with each reference replaced by the value of its variable, which is not looked into
again; or the first variable that is not set to a text. -/
def World.expand (world : World) (t : Text) : Except Text Text :=
  PathPiece.values world (PathPiece.scan t)

end TypedProperties
