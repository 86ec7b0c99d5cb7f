import TypedProperties.Reading.Fault
import TypedProperties.Reading.Warning

/-! The state of a read: what directives have set so far, what waits for the next declaration, and
the store that is being filled. -/
namespace TypedProperties

structure Options where
  allowKeyOverride : Bool
  forbidVariants : Bool
  forbidInclude : Bool
  /-- Keep what is in the destination instead of replacing it. -/
  dontClear : Bool
  /-- The topic that the input has to have, if it has one. -/
  topic : Option Text
  part : Option (Text × Nat)
  verbose : Bool
  deriving DecidableEq, Repr

def Options.standard : Options := ⟨false, false, false, false, none, none, false⟩

/-- Where a reader starts to search for included files. Directives may extend an open setup, and
leave a fixed one as it is. -/
inductive IncludeSetup (σ : Type := Search) [Searches σ] where
  | standard
  | open (search : σ)
  | fixed (search : σ)
  deriving DecidableEq, Repr

namespace IncludeSetup

variable {σ : Type} [Searches σ]

def search : IncludeSetup σ → σ
  | .standard => Searches.standard
  | .open s => s
  | .fixed s => s

def isFixed : IncludeSetup σ → Bool
  | .fixed _ => true
  | _ => false

end IncludeSetup

structure Context (σ : Type := Search) [Searches σ] where
  location : Location
  allowKeyOverride : Bool
  realWithUnit : Bool
  inclusion : Bool
  variantsEnabled : Bool
  variantsForbidden : Bool
  /-- Included files search where this one does. -/
  propagate : Bool
  /-- Entries of included files may replace entries with the same key. -/
  includesOverride : Bool
  /-- The description for the next declaration. -/
  description : Option Text
  blocks : Blocks
  /-- A property, or something that belongs to one, has been seen. -/
  started : Bool
  search : σ
  searchFixed : Bool
  expectedTopic : Option Text
  topic : Option Text
  /-- The description of the store has been set. -/
  configSeen : Bool
  verbose : Bool
  variantDevel : Bool
  includeDebug : Bool
  removeQuotes : Bool
  deriving DecidableEq, Repr

namespace Context

variable {σ : Type} [Searches σ]

def initial (options : Options) (includes : IncludeSetup σ) (file : Option Text) :
    Context σ where
  location := ⟨file, options.part, 0⟩
  allowKeyOverride := options.allowKeyOverride
  realWithUnit := true
  inclusion := !options.forbidInclude
  variantsEnabled := !options.forbidVariants
  variantsForbidden := options.forbidVariants
  propagate := true
  includesOverride := true
  description := none
  blocks := Blocks.empty
  started := false
  search := includes.search
  searchFixed := includes.isFixed
  expectedTopic := options.topic
  topic := none
  configSeen := false
  verbose := options.verbose
  variantDevel := false
  includeDebug := false
  removeQuotes := true

/-- A description or a guard waits for its declaration. -/
def propertyPending (c : Context σ) : Bool := c.description.isSome || c.blocks.guard.isSome

def line (c : Context σ) : Nat := c.location.line

def atLine (c : Context σ) (line : Nat) : Context σ := { c with location := { c.location with line } }

def start (c : Context σ) : Context σ := { c with started := true }

end Context

structure Progress (σ : Type := Search) [Searches σ] where
  context : Context σ
  store : Store
  warnings : List Warning
  deriving DecidableEq

namespace Progress

variable {σ : Type} [Searches σ]

def warn (p : Progress σ) (warning : Warning) : Progress σ :=
  { p with warnings := p.warnings ++ [warning] }

def setContext (p : Progress σ) (context : Context σ) : Progress σ := { p with context }

end Progress
end TypedProperties
