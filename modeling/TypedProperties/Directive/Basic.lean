import TypedProperties.FaultKind
import TypedProperties.Text.Blank
import TypedProperties.Text.Cut

/-! Directives: comments whose first word starts with `@`. -/
namespace TypedProperties

inductive Directive where
  | stop
  | topic (text : Text)
  | config (text : Text)
  | description (text : Text)
  | allowKeyOverride (allow : Bool)
  | forbidKeyOverride (forbid : Bool)
  | enableVariants
  | disableVariants
  | variantIf (rule : Text)
  | variantOnly (rule : Text)
  | variantEndif (rule : Option Text)
  | variantDevel (on : Bool)
  | variantRemoveQuotes (on : Bool)
  | realWithUnit (on : Bool)
  | includeFile (path : Text) (optional : Bool)
  | includeDirectory (dir : Text)
  | includePathVariable (name : Text)
  | includeNoPropagate
  | includeDebug
  | forbidInclude
  | verboseParsing (on : Bool)
  deriving DecidableEq, Repr

inductive DirectiveFault where
  | unknown (name : Text)
  | badFlag (text name : Text)
  | noRule (name : Text)
  | textAfterRule (text name : Text)
  | noArgument (name : Text)
  | openQuote (name : Text)
  | textAfterArgument (text name : Text)
  deriving DecidableEq, Repr

def DirectiveFault.message : DirectiveFault → String
  | .unknown name => s!"unsupported meta directive '{name.str}'"
  | .badFlag text name => s!"invalid flag '{text.str}' for directive '{name.str}'"
  | .noRule name => s!"missing variant rule for directive '{name.str}'"
  | .textAfterRule text name =>
    s!"unsupported trailing text '{text.str}' after rule of directive '{name.str}'"
  | .noArgument name => s!"missing argument for directive '{name.str}'"
  | .openQuote name => s!"missing closing quote in argument of directive '{name.str}'"
  | .textAfterArgument text name =>
    s!"unsupported trailing text '{text.str}' after argument of directive '{name.str}'"

namespace Directive

/-- A flag; nothing at all stands for yes, and case does not matter. -/
def readFlag (name rest : Text) : Except DirectiveFault Bool :=
  let word := (Text.toLower rest).str
  if ["", "1", "true", "yes"].contains word then .ok true
  else if ["0", "false", "no"].contains word then .ok false
  else .error (.badFlag rest name)

def isIdle (t : Text) : Bool := t = [] || t.head? = some '#'

/-- The first word, if there is one in front of a comment; only a comment may follow it. -/
def readWord (name rest : Text) : Except DirectiveFault (Option Text) :=
  if isIdle rest then .ok none
  else
    let (word, tail) := Text.cutWord rest
    let tail := Text.trim tail
    if isIdle tail then .ok (some word) else .error (.textAfterRule tail name)

def readRule (name rest : Text) : Except DirectiveFault Text :=
  match readWord name rest with
  | .error fault => .error fault
  | .ok none => .error (.noRule name)
  | .ok (some rule) => .ok rule

/-- The argument in front of a text, quoted or a word, and what follows it. -/
def cutArgument (name : Text) : Text → Except DirectiveFault (Text × Text)
  | [] => .error (.noArgument name)
  | c :: cs =>
    if c = '"' ∨ c = '\'' then
      match Text.cutAt c cs with
      | some (value, tail) => .ok (value, tail)
      | none => .error (.openQuote name)
    else .ok (Text.cutWord (c :: cs))

def readArgument (name rest : Text) : Except DirectiveFault Text :=
  match cutArgument name rest with
  | .error fault => .error fault
  | .ok (value, tail) =>
    let tail := Text.trim tail
    if isIdle tail then .ok value else .error (.textAfterArgument tail name)

def ofParts (name rest : Text) : Except DirectiveFault Directive :=
  match name.str with
  | "@end" => .ok .stop
  | "@topic" => .ok (.topic (Text.stripQuotes rest))
  | "@config" => .ok (.config (Text.stripQuotes rest))
  | "@configuration" => .ok (.config (Text.stripQuotes rest))
  | "@description" => .ok (.description rest)
  | "@parameter" => .ok (.description rest)
  | "@allow_key_override" => (readFlag name rest).map .allowKeyOverride
  | "@forbid_key_override" => (readFlag name rest).map .forbidKeyOverride
  | "@enable_variants" => .ok .enableVariants
  | "@disable_variants" => .ok .disableVariants
  | "@variant_if" => (readRule name rest).map .variantIf
  | "@variant_only" => (readRule name rest).map .variantOnly
  | "@variant_endif" => (readWord name rest).map .variantEndif
  | "@variant_devel" => .ok (.variantDevel true)
  | "@variant_no_devel" => .ok (.variantDevel false)
  | "@variant_remove_quotes" => .ok (.variantRemoveQuotes true)
  | "@variant_preserve_quotes" => .ok (.variantRemoveQuotes false)
  | "@enable_real_with_unit" => .ok (.realWithUnit true)
  | "@disable_real_with_unit" => .ok (.realWithUnit false)
  | "@include" => (readArgument name rest).map fun path => .includeFile path false
  | "@include_try" => (readArgument name rest).map fun path => .includeFile path true
  | "@include_dir" => (readArgument name rest).map .includeDirectory
  | "@include_path_env" => (readArgument name rest).map .includePathVariable
  | "@include_no_propagate" => .ok .includeNoPropagate
  | "@include_debug" => .ok .includeDebug
  | "@forbid_include" => .ok .forbidInclude
  | "@verbose_parsing" => .ok (.verboseParsing true)
  | "@mute_parsing" => .ok (.verboseParsing false)
  | _ => .error (.unknown name)

def ofText (t : Text) : Except DirectiveFault Directive :=
  let (name, rest) := Text.cutWord (Text.trim t)
  ofParts name (Text.trim rest)

end Directive
end TypedProperties
