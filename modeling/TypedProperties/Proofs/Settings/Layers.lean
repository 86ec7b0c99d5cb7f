import Mathlib.Data.List.Induction
import TypedProperties.Proofs.Settings.Merge

/-! Settings in layers: for each key the last single value counts, then the last file that has one, then the
default, in whatever order files and single values were given. -/
namespace TypedProperties
namespace Settings

open Setting

variable {world : World} {s s' value : Setting} {key : Key}

inductive Call where
  | file (path : Text)
  | optionalFile (path : Text)
  | override (address : Text) (value : Setting)

namespace Call

def apply (loader : Loader) : Call → Option Loader
  | file path => some (loader.addFile path)
  | optionalFile path => some (loader.addOptionalFile path)
  | override address value => loader.setOverride address value

def layer? : Call → Option Layer
  | file path => some ⟨path, true⟩
  | optionalFile path => some ⟨path, false⟩
  | override _ _ => none

def sets (key : Key) : Call → Option Setting
  | override address value => if address = key.text then some value else none
  | _ => none

end Call

/-- The loader after some calls, if none of them is refused. -/
def Loader.after (calls : List Call) : Option Loader := calls.foldlM Call.apply Loader.standard

namespace Layer

/-- The file can be read, or left out. What it gives keys suits them, and no two of its entries that are spelled in two
ways are for one key. -/
def Suits (world : World) (layer : Layer) : Prop :=
  ∃ entries ∈ layer.entries world, (∀ e ∈ entries, Settings.Suits (Loader.target e)) ∧
    ∀ key : Key, ∀ e ∈ entries, ∀ e' ∈ entries,
      key.given (Loader.target e) ≠ none → key.given (Loader.target e') ≠ none → e.1 = e'.1

instance (world : World) (layer : Layer) : Decidable (layer.Suits world) := by
  unfold Layer.Suits
  infer_instance

def value? (world : World) (key : Key) (layer : Layer) : Option Setting :=
  (layer.entries world).bind fun entries => (entries.map Loader.target).findSome? key.given

end Layer

namespace Call

/-- The file of the call suits, or its single value is for a key, spelled as it is written, and fits it. -/
def Suits (world : World) : Call → Prop
  | file path => Layer.Suits world ⟨path, true⟩
  | optionalFile path => Layer.Suits world ⟨path, false⟩
  | override address value => ∃ key : Key, address = key.text ∧ key.fits value

theorem Suits.layer {call : Call} {layer : Layer} (suits : call.Suits world) (is : call.layer? = some layer) :
    layer.Suits world := by
  cases call with
  | override => cases is
  | _ =>
    cases is
    exact suits

end Call

/-- The loader holds what the calls have told it: their files in order, and for each key the value that was set last. -/
structure Loader.Recalls (l : Loader) (calls : List Call) : Prop where
  layers : l.layers = calls.filterMap Call.layer?
  distinct : (l.overrides.map Prod.fst).Nodup
  known : ∀ o ∈ l.overrides, ∃ key : Key, o.1 = key.address ∧ key.fits o.2
  last (key : Key) : l.overrides.lookup key.address = calls.reverse.findSome? (·.sets key)

namespace Loader

variable {l : Loader} {calls : List Call}

theorem Recalls.step {call : Call} (recalls : l.Recalls calls) (suits : call.Suits world) :
    ∃ l', call.apply l = some l' ∧ l'.Recalls (calls ++ [call]) := by
  obtain ⟨layers, distinct, known, last⟩ := recalls
  cases call with
  | override address value =>
    obtain ⟨key, rfl, fits⟩ := suits
    refine ⟨_, by rw [Call.apply, setOverride, Key.ofText_text, Option.map_some], ?_, ?_, ?_, fun other => ?_⟩
    · simp [layers, Call.layer?]
    · rw [List.map_append]
      refine List.nodup_append.mpr ⟨distinct.sublist (List.filter_sublist.map _), List.nodup_singleton _, ?_⟩
      simp
    · intro o mem
      rcases List.mem_append.mp mem with kept | new
      · exact known o (List.mem_filter.mp kept).1
      · obtain rfl := List.mem_singleton.mp new
        exact ⟨key, rfl, fits⟩
    · rw [lookup_filter_concat, List.reverse_append, List.reverse_singleton, List.singleton_append,
        List.findSome?_cons, ← last, Call.sets]
      by_cases here : other = key
      · rw [if_pos (congrArg Key.address here), if_pos (congrArg Key.text here.symm)]
      · rw [if_neg fun same => here (Key.address_inj.mp same), if_neg fun same => here (Key.text_inj.mp same).symm]
  | _ => exact ⟨_, rfl, by simp [layers, addFile, addOptionalFile, Call.layer?], distinct, known,
      fun key => by simp [last, Call.sets, addFile, addOptionalFile]⟩

/-- Of values at the addresses of keys, the one at its address is for a key. -/
theorem findSome?_given {singles : List (Address × Setting)} (known : ∀ o ∈ singles, ∃ key : Key, o.1 = key.address)
    (key : Key) : singles.findSome? key.given = singles.lookup key.address := by
  induction singles with
  | nil => rfl
  | cons o singles ih =>
    obtain ⟨⟨named, here⟩, others⟩ := List.forall_mem_cons.mp known
    obtain ⟨address, value⟩ := o
    obtain rfl : address = named.address := here
    rw [List.findSome?_cons, List.lookup_cons, Key.given_address, ih others]
    by_cases same : key = named
    · subst same
      simp
    · have miss : (key.address == named.address) = false := by simpa [Key.address_inj] using same
      rw [if_neg same, miss]

/-- The single values are laid for the keys that calls have set, in whatever order they come. -/
theorem Recalls.laid (recalls : l.Recalls calls) (grouped : Grouped s) (order : MapOrder) :
    ∃ s', putAll s (order.arrange 0 l.overrides) = some s' ∧
      Laid s (fun key => calls.reverse.findSome? (·.sets key)) s' := by
  have known : ∀ o ∈ l.overrides, ∃ key : Key, o.1 = key.address := fun o mem => by
    obtain ⟨key, address, -⟩ := recalls.known o mem
    exact ⟨key, address⟩
  have alone (key : Key) :
      l.overrides.Pairwise fun o o' => key.given o = none ∨ key.given o' = none :=
    pairwise_of_alike recalls.distinct fun o mem o' mem' given given' =>
      (Key.address_of_given (known o mem) given).trans (Key.address_of_given (known o' mem') given').symm
  obtain ⟨s', made, laid⟩ := grouped.laid_perm (order.perm 0 _) (fun t mem _ grouped => by
    obtain ⟨key, address, fits⟩ := recalls.known t mem
    obtain ⟨_, value⟩ := t
    obtain rfl := address
    exact grouped.laid_key fits) alone
  refine ⟨s', made, ?_⟩
  convert laid using 2 with key
  rw [← recalls.last, ← findSome?_given known]

end Loader

end Settings
end TypedProperties
