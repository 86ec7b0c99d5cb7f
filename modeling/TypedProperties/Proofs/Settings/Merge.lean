import Mathlib.Data.List.Nodup
import TypedProperties.Proofs.Settings.Document
import TypedProperties.Proofs.Settings.Keys

/-! What a value does to the keys when it is put where an address leads: a key that the address names has it, and
the other keys keep theirs. -/
namespace TypedProperties

open Setting

def Step.Forward : Step → Prop
  | .key _ => True
  | .place index => 0 ≤ index

instance (step : Step) : Decidable step.Forward := by
  cases step <;> unfold Step.Forward <;> infer_instance

namespace Setting

def isTable : Setting → Bool
  | .table _ => true
  | _ => false

variable {s s' value : Setting} {name : Text} {address : Address}

theorem get?_eq (key : Text) (s : Setting) : s.get? key = s.entries.lookup key := by
  cases s <;> rfl

def putInside (value : Setting) (below : Option Setting) : Address → Option Setting
  | [] => some (layOver below value)
  | address => putAt value address (below.getD .nothing)

theorem putAt_key (value : Setting) (name : Text) (rest : Address) (s : Setting) :
    putAt value (.key name :: rest) s =
      (putInside value (s.entries.lookup (foldKey name)) rest).map fun inner =>
        .table (put (foldKey name) inner s.entries) := by
  cases rest with
  | nil => rfl
  | cons step rest => rfl

theorem putAt_key_key (value : Setting) (group word : Text) (rest : Address) (s : Setting) :
    let below := (s.entries.lookup (foldKey group)).getD .nothing
    putAt value (.key group :: .key word :: rest) s =
      (putInside value (below.entries.lookup (foldKey word)) rest).map fun inner =>
        .table (put (foldKey group) (.table (put (foldKey word) inner below.entries)) s.entries) := by
  intro below
  have inside : putInside value (s.entries.lookup (foldKey group)) (.key word :: rest) =
      putAt value (.key word :: rest) below := rfl
  rw [putAt_key, inside, putAt_key, Option.map_map]
  rfl

end Setting

namespace Settings

variable {s s' s'' value : Setting} {name : Text} {key : Key} {address : Address}

theorem Key.value?_eq (key : Key) (s : Setting) :
    key.value? s = (s.entries.lookup key.group).bind fun t => t.entries.lookup key.word := by
  rw [Key.value?, get?_eq]
  exact congrArg _ (funext (get?_eq key.word))

theorem Key.value?_put (key : Key) (name : Text) (value : Setting) (entries : List (Text × Setting)) :
    key.value? (.table (put name value entries)) =
      if key.group = name then value.entries.lookup key.word else key.value? (.table entries) := by
  simp only [Key.value?_eq, Setting.entries]
  split
  next here => rw [here, lookup_put_self, Option.bind_some]
  next other => rw [lookup_put_of_ne value entries other]

theorem Key.value?_of_group (group : key.group = name) (s : Setting) :
    key.value? s = ((s.entries.lookup name).getD .nothing).entries.lookup key.word := by
  rw [Key.value?_eq, group]
  cases s.entries.lookup name <;> rfl

def Grouped (s : Setting) : Prop := ∀ key : Key, ∃ entries, s.get? key.group = some (.table entries)

/-- `s'` is `s` with the values that keys have in `above`. -/
structure Laid (s : Setting) (above : Key → Option Setting) (s' : Setting) : Prop where
  grouped : Grouped s'
  value (key : Key) : key.value? s' = (above key).or (key.value? s)

theorem Laid.refl (grouped : Grouped s) : Laid s (fun _ => none) s :=
  ⟨grouped, fun _ => rfl⟩

/-- Of what is laid one after the other, the last that has a value for a key counts. -/
theorem Laid.cons {α : Type} {f : Key → α → Option Setting} {a : α} {later : List α} (first : Laid s (f · a) s')
    (behind : Laid s' (fun key => later.reverse.findSome? (f key)) s'') :
    Laid s (fun key => (a :: later).reverse.findSome? (f key)) s'' := by
  refine ⟨behind.grouped, fun key => ?_⟩
  rw [behind.value, first.value, List.reverse_cons, List.findSome?_append, List.findSome?_singleton, Option.or_assoc]

/-- A value under a name of the top lays what it has inside, if it is a table or names no group. -/
theorem Grouped.laid_put {above : Key → Option Setting} (grouped : Grouped s)
    (group : ∀ key : Key, key.group = name → ∃ entries, value = .table entries)
    (inside : ∀ key : Key, key.group = name → value.entries.lookup key.word = (above key).or (key.value? s))
    (outside : ∀ key : Key, key.group ≠ name → above key = none) :
    Laid s above (.table (put name value s.entries)) := by
  refine ⟨fun key => ?_, fun key => ?_⟩
  · rw [get?_eq, Setting.entries]
    by_cases here : key.group = name
    · obtain ⟨entries, rfl⟩ := group key here
      exact ⟨entries, by rw [here, lookup_put_self]⟩
    · rw [lookup_put_of_ne value s.entries here, ← get?_eq]
      exact grouped key
  · rw [Key.value?_put]
    by_cases here : key.group = name
    · rw [if_pos here, inside key here]
    · rw [if_neg here, outside key here, Key.value?_eq, Key.value?_eq]
      rfl

/-- A value under two names is laid for the key of these names, if there is one. -/
theorem Grouped.laid_put_put {above : Key → Option Setting} {group word : Text} (grouped : Grouped s)
    (here : ∀ key : Key, above key = if key.group = group ∧ key.word = word then some value else none) :
    Laid s above (.table (put group (.table (put word value ((s.entries.lookup group).getD .nothing).entries))
      s.entries)) := by
  refine grouped.laid_put (fun _ _ => ⟨_, rfl⟩) (fun key same => ?_) fun key other => ?_
  · rw [here, Setting.entries, Key.value?_of_group same]
    by_cases it : key.word = word
    · rw [if_pos ⟨same, it⟩, it, lookup_put_self, Option.some_or]
    · rw [if_neg fun both => it both.2, lookup_put_of_ne value _ it, Option.none_or]
  · rw [here, if_neg fun both => other both.1]

theorem layOver_of_fits (fits : key.fits value) (below : Option Setting) : layOver below value = value := by
  cases value with
  | table entries => cases fits
  | _ => rfl

def Key.entry? (key : Key) (f : Text × Setting) : Option Setting := if foldKey f.1 = key.word then some f.2 else none

/-- The value that a key is given where a value is put at an address: at its own address, or in a table at that of its
group. Case does not matter to the names. -/
def Key.given (key : Key) : Address × Setting → Option Setting
  | ([.key group], value) => if foldKey group = key.group then value.entries.findSome? key.entry? else none
  | ([.key group, .key word], value) =>
    if foldKey group = key.group ∧ foldKey word = key.word then some value else none
  | _ => none

/-- What is put at an address suits the keys: those that are given a value are given one that fits, in a table under one
spelling only, and the address leads into no other value of a key. -/
def Suits : Address × Setting → Prop
  | ([.key group], value) => ∀ key : Key, foldKey group = key.group →
    value.isTable ∧ ∀ f ∈ value.entries, foldKey f.1 = key.word →
      key.fits f.2 ∧ ∀ other ∈ value.entries, foldKey other.1 = key.word → other.1 = f.1
  | ([.key group, .key word], value) => ∀ key : Key, foldKey group = key.group ∧ foldKey word = key.word →
    key.fits value
  | (.key group :: .key word :: rest, _) =>
    (∀ key : Key, ¬ (foldKey group = key.group ∧ foldKey word = key.word)) ∧ ∀ step ∈ rest, step.Forward
  | (.key group :: rest, _) => (∀ key : Key, foldKey group ≠ key.group) ∧ ∀ step ∈ rest, step.Forward
  | _ => False

instance (target : Address × Setting) : Decidable (Suits target) := by
  unfold Suits
  split <;> infer_instance

theorem Key.foldKey_address {key other : Key} :
    foldKey key.group = other.group ∧ foldKey key.word = other.word ↔ other = key := by
  rw [key.foldKey_group, key.foldKey_word]
  constructor
  · rintro ⟨group, word⟩
    exact address_inj.mp (by rw [address, address, group, word])
  · rintro rfl
    exact ⟨rfl, rfl⟩

theorem Key.given_address (key other : Key) (value : Setting) :
    key.given (other.address, value) = if key = other then some value else none := by
  simp only [given, address, foldKey_address]

theorem Key.address_of_given {o : Address × Setting} (known : ∃ other : Key, o.1 = other.address)
    (given : key.given o ≠ none) : o.1 = key.address := by
  obtain ⟨_, value⟩ := o
  obtain ⟨other, rfl⟩ := known
  rw [given_address] at given
  rw [(ite_ne_right_iff.mp given).1]

theorem Suits.fits {target : Address × Setting} (suits : Suits target) (given : key.given target = some value) :
    key.fits value := by
  unfold Key.given at given
  split at given
  next group v =>
    split_ifs at given with here
    obtain ⟨f, mem, found⟩ := List.exists_of_findSome?_eq_some given
    rw [Key.entry?] at found
    split_ifs at found with it
    cases found
    exact ((suits key here).2 f mem it).1
  next group word v =>
    split_ifs at given with here
    cases given
    exact suits key here
  next => cases given

/-- Entries that are for one key only under one spelling are not for one key twice where no name comes twice. -/
theorem pairwise_of_alike {α : Type} {entries : List (α × Setting)} {p : α × Setting → Option Setting}
    (once : (entries.map Prod.fst).Nodup)
    (alike : ∀ e ∈ entries, ∀ e' ∈ entries, p e ≠ none → p e' ≠ none → e.1 = e'.1) :
    entries.Pairwise fun e e' => p e = none ∨ p e' = none := by
  refine List.Pairwise.imp_of_mem (fun {e e'} mem mem' differ => ?_) (List.pairwise_map.mp once)
  by_contra both
  obtain ⟨some, some'⟩ := not_or.mp both
  exact differ (alike e mem e' mem' some some')

/-- A value at the address of a key is laid for it, and at that of no key for none. -/
theorem Grouped.laid_word {group word : Text} (grouped : Grouped s) (suits : Suits ([.key group, .key word], value)) :
    ∃ s', putAt value [.key group, .key word] s = some s' ∧
      Laid s (fun key => key.given ([.key group, .key word], value)) s' := by
  rw [putAt_key_key]
  refine ⟨_, rfl, grouped.laid_put_put fun key => ?_⟩
  by_cases here : foldKey group = key.group ∧ foldKey word = key.word
  · rw [Key.given, if_pos here, if_pos ⟨here.1.symm, here.2.symm⟩, layOver_of_fits (suits key here)]
  · rw [Key.given, if_neg here, if_neg fun both => here ⟨both.1.symm, both.2.symm⟩]

theorem Grouped.laid_key (grouped : Grouped s) (fits : key.fits value) :
    ∃ s', putAt value key.address s = some s' ∧ Laid s (fun other => other.given (key.address, value)) s' :=
  grouped.laid_word fun _ same => Key.foldKey_address.mp same ▸ fits

/-- Values that are put one after the other are laid over what the keys have: the last one that a key is given counts. -/
theorem Grouped.laid_all {targets : List (Address × Setting)} (grouped : Grouped s)
    (each : ∀ t ∈ targets, ∀ {s}, Grouped s → ∃ s', putAt t.2 t.1 s = some s' ∧ Laid s (fun key => key.given t) s') :
    ∃ s', putAll s targets = some s' ∧ Laid s (fun key => targets.reverse.findSome? key.given) s' := by
  induction targets generalizing s with
  | nil => exact ⟨s, rfl, .refl grouped⟩
  | cons t targets ih =>
    obtain ⟨first, others⟩ := List.forall_mem_cons.mp each
    obtain ⟨s₁, made, laid⟩ := first grouped
    obtain ⟨s₂, behind, upper⟩ := ih laid.grouped others
    exact ⟨s₂, by rw [putAll, made]; exact behind, laid.cons upper⟩

/-- Where no key is given a value twice, the order in which a map gives its entries does not count. -/
theorem Grouped.laid_perm {targets arranged : List (Address × Setting)} (grouped : Grouped s)
    (same : arranged.Perm targets)
    (each : ∀ t ∈ targets, ∀ {s}, Grouped s → ∃ s', putAt t.2 t.1 s = some s' ∧ Laid s (fun key => key.given t) s')
    (alone : ∀ key : Key, targets.Pairwise fun t t' => key.given t = none ∨ key.given t' = none) :
    ∃ s', putAll s arranged = some s' ∧ Laid s (fun key => targets.findSome? key.given) s' := by
  obtain ⟨s', made, laid⟩ := grouped.laid_all fun t mem => each t (same.mem_iff.mp mem)
  refine ⟨s', made, ?_⟩
  convert laid using 2 with key
  exact findSome?_perm (same.symm.trans (List.reverse_perm _).symm) (alone key)

end Settings
end TypedProperties
