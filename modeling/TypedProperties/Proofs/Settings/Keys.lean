import Mathlib.Logic.Basic
import TypedProperties.Settings.Basic

/-! The settings by their keys. Each key has a group, a word in it, and a form that its value has. -/
namespace TypedProperties
namespace Settings

inductive Held where
  | truth (value : Bool)
  | text (value : Text)
  | texts (values : List Text)
  /-- The variable of a search path, if one is named. -/
  | named (name : Option Text)
  | strategy (strategy : EnvStrategy)
  deriving DecidableEq, Repr

inductive Form where
  | truth | text | texts | name | strategy

/-- What a value in some form stands for. Only a variable may go without one. -/
def Form.read : Form → Option Setting → Option Held
  | .truth, v => (v.bind Setting.toBoolean).map .truth
  | .text, v => (v.bind Setting.toText).map .text
  | .texts, v => (v.bind Setting.toTexts).map .texts
  | .name, v =>
    (match v with
      | none => some none
      | some .nothing => some none
      | some v => v.toText.map some).map .named
  | .strategy, v => (v.bind strategyOf).map .strategy

inductive Key where
  | allowKeyOverride | forbidVariants | forbidInclude | currentDirectory | directories | pathVariable | strategy
  | wrap | headerFooter | skipPrivate | preferredUnits
  | logFilter
  deriving DecidableEq, Repr

namespace Key

def all : List Key :=
  [allowKeyOverride, forbidVariants, forbidInclude, currentDirectory, directories, pathVariable, strategy,
    wrap, headerFooter, skipPrivate, preferredUnits, logFilter]

theorem mem_all (key : Key) : key ∈ all := by
  cases key <;> decide

instance decidableForall (p : Key → Prop) [DecidablePred p] : Decidable (∀ key, p key) :=
  decidable_of_iff (∀ key ∈ all, p key) ⟨fun h key => h key (mem_all key), fun h key _ => h key⟩

def path : Key → String × String
  | allowKeyOverride => ("reader", "allow_key_override")
  | forbidVariants => ("reader", "forbid_variants")
  | forbidInclude => ("reader", "forbid_include")
  | currentDirectory => ("reader", "include_current_dir")
  | directories => ("reader", "include_dirs")
  | pathVariable => ("reader", "include_path_env")
  | strategy => ("reader", "env_strategy")
  | wrap => ("writer", "smart_modulo")
  | headerFooter => ("writer", "header_footer")
  | skipPrivate => ("writer", "skip_private")
  | preferredUnits => ("writer", "preferred_units")
  | logFilter => ("logging", "filter")

def group (key : Key) : Text := Text.ofString key.path.1

def word (key : Key) : Text := Text.ofString key.path.2

def text (key : Key) : Text := key.group ++ '.' :: key.word

def address (key : Key) : Address := [.key key.group, .key key.word]

def form : Key → Form
  | allowKeyOverride | forbidVariants | forbidInclude | currentDirectory => .truth
  | wrap | headerFooter | skipPrivate => .truth
  | directories | preferredUnits => .texts
  | pathVariable => .name
  | strategy => .strategy
  | logFilter => .text

def held (s : Settings) : Key → Held
  | allowKeyOverride => .truth s.allowKeyOverride
  | forbidVariants => .truth s.forbidVariants
  | forbidInclude => .truth s.forbidInclude
  | currentDirectory => .truth s.search.currentDirectory
  | directories => .texts s.search.directories
  | pathVariable => .named s.search.pathVariable
  | strategy => .strategy s.search.strategy
  | wrap => .truth s.wrap
  | headerFooter => .truth s.headerFooter
  | skipPrivate => .truth s.skipPrivate
  | preferredUnits => .texts s.preferredUnits
  | logFilter => .text s.logFilter

def value? (key : Key) (s : Setting) : Option Setting := (s.get? key.group).bind (Setting.get? key.word)

/-- A value that the key may have: it is in the form of the key, and no table. -/
def fits (key : Key) : Setting → Bool
  | .table _ => false
  | v => (key.form.read (some v)).isSome

@[simp] theorem foldKey_group (key : Key) : Setting.foldKey key.group = key.group := by
  revert key
  decide +kernel

@[simp] theorem foldKey_word (key : Key) : Setting.foldKey key.word = key.word := by
  revert key
  decide +kernel

theorem text_inj {key key' : Key} : key.text = key'.text ↔ key = key' := by
  revert key key'
  decide +kernel

theorem address_inj {key key' : Key} : key.address = key'.address ↔ key = key' := by
  revert key key'
  decide +kernel

theorem ofText_text (key : Key) : Address.ofText key.text = some key.address := by
  revert key
  decide +kernel

end Key

end Settings
end TypedProperties
