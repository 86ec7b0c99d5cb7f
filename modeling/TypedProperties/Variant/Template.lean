import TypedProperties.Variant.Repository

/-! Value segments with references to variant parameters, `@variant(registry:path|default)`. -/
namespace TypedProperties

/-- A segment, taken apart: the text in front, each reference with the text behind it, and what
follows an opening that is never closed. -/
structure Template where
  start : Text
  references : List (Text × Text)
  unclosed : Option Text
  deriving DecidableEq, Repr

namespace Template

def openTag : Text := ['@', 'v', 'a', 'r', 'i', 'a', 'n', 't', '(']
abbrev closeTag : Char := ')'

def ofText (t : Text) : Template :=
  match _hOpen : Text.cutOn openTag t with
  | none => ⟨t, [], none⟩
  | some (before, after) =>
    match _hClose : Text.cutAt closeTag after with
    | none => ⟨before, [], some after⟩
    | some (target, rest) =>
      let next := ofText rest
      ⟨before, (target, next.start) :: next.references, next.unclosed⟩
termination_by t.length
decreasing_by
  have ht := Text.append_of_cutOn _hOpen
  have ha := (Text.cutAt_eq_some_iff.mp _hClose).1
  simp only [ht, ha, List.length_append, List.length_cons]
  omega

/-- The value of a reference. While the repository is inactive it is the default as it stands, else
that of the parameter, without quotes around it if these are to be removed. -/
def valueOf (repository : Repository) (removeQuotes : Bool) (reference : Text) :
    Except VariantFault Text :=
  let (name, fallback) := match Text.cutAt '|' reference with
    | some (name, fallback) => (name, some fallback)
    | none => (reference, none)
  match Target.ofText name with
  | .error fault => .error fault
  | .ok target =>
    if !repository.isActive then
      match fallback with
      | some value => .ok value
      | none => .error (.inactive reference)
    else if !repository.hasRegistry target.registry then
      .error (.unknownRegistry target.registry reference)
    else
      match repository.parameters.lookup target with
      | some value => .ok (if removeQuotes then Text.stripQuotes value else value)
      | none => .error (.unknownParameter target.path target.registry)

/-- The references, each replaced by its value, and the texts behind them. -/
def fill (value : Text → Except VariantFault Text) : List (Text × Text) → Except VariantFault Text
  | [] => .ok []
  | (reference, after) :: rest =>
    match value reference with
    | .error fault => .error fault
    | .ok v =>
      match fill value rest with
      | .error fault => .error fault
      | .ok r => .ok (v ++ after ++ r)

def expand (value : Text → Except VariantFault Text) (t : Template) : Except VariantFault Text :=
  match fill value t.references with
  | .error fault => .error fault
  | .ok filled =>
    match t.unclosed with
    | some rest => .error (.unclosedReference (openTag ++ rest))
    | none => .ok (t.start ++ filled)

end Template

/-- Replace every reference in a segment by its value, which is not looked into again. -/
def Repository.preprocess (repository : Repository) (removeQuotes : Bool) (segment : Text) :
    Except VariantFault Text :=
  (Template.ofText segment).expand (Template.valueOf repository removeQuotes)

instance : Variants Repository := ⟨Repository.resolve, Repository.preprocess⟩

end TypedProperties
