import TypedProperties.Proofs.Store.Puts
import TypedProperties.Reading.Fault

/-! A store taken in by another: when that succeeds, what comes of it, and that it does not matter how several are
grouped. -/
namespace TypedProperties

theorem lasting_of_nodup {entries : List (Text × Datum)} (distinct : (entries.map Prod.fst).Nodup) :
    lasting entries = entries := by
  induction entries using List.reverseRecOn with
  | nil => rfl
  | append_singleton entries e ih =>
    rw [List.map_append, List.nodup_append] at distinct
    obtain ⟨front, -, apart⟩ := distinct
    have kept : Store.others e.1 entries = entries := List.filter_eq_self.mpr fun e' mem => by
      simpa using apart e'.1 (List.mem_map_of_mem mem) e.1 (by simp)
    rw [lasting_concat, ih front, kept]

namespace Store

variable {s other a b c : Store} {allow : Bool} {key : Text}

/-- The entries whose keys the other store does not have, and behind them all of its entries. -/
def overlaid (s other : Store) : Store := s.inserts other.entries

theorem description_overlaid (s other : Store) : (s.overlaid other).description = s.description :=
  description_inserts s other.entries

theorem entries_overlaid (s other : Store) :
    (s.overlaid other).entries = s.entries.filter (·.1 ∉ other.keys) ++ other.entries := by
  rw [overlaid, entries_inserts, lasting_of_nodup other.distinct, keys]

theorem mem_keys_iff : key ∈ s.keys ↔ s.get? key ≠ none := by
  rw [keys, ← contains_iff_mem, contains, Option.isSome_iff_ne_none]

theorem get?_overlaid (s other : Store) (key : Text) :
    (s.overlaid other).get? key = (other.get? key).or (s.get? key) := by
  rw [overlaid, get?_inserts, lookup_reverse other.distinct, ← get?]

theorem mem_keys_overlaid : key ∈ (s.overlaid other).keys ↔ key ∈ s.keys ∨ key ∈ other.keys := by
  simp only [mem_keys_iff, get?_overlaid, ne_eq, Option.or_eq_none_iff]
  tauto

def Free (s other : Store) (allow : Bool) : Prop := ∀ key ∈ other.keys, s.yields allow key = true

theorem free_iff : s.Free other allow ↔
    ∀ key old, s.get? key = some old → key ∈ other.keys → old.locked = false ∧ allow = true := by
  simp only [Free, yields_iff]
  exact ⟨fun free key old present there => free key there old present,
    fun free key there old present => free key old present there⟩

/-- A store is taken in whole, or its entries in front of the first one that meets one that may not give way. -/
theorem merge_cases (s other : Store) (allow : Bool) :
    (s.Free other allow ∧ s.merge other allow = (s.overlaid other, none)) ∨
      ∃ (front : Store) (key : Text) (datum : Datum) (after : List (Text × Datum)),
        other.entries = front.entries ++ (key, datum) :: after ∧ s.Free front allow ∧
        s.yields allow key = false ∧ s.merge other allow = (s.overlaid front, some (refusal allow key)) := by
  have free_of {entries : List (Text × Datum)} (each : ∀ e ∈ entries, s.yields allow e.1 = true) :
      ∀ key ∈ entries.map Prod.fst, s.yields allow key = true := List.forall_mem_map.mpr each
  rcases @mergeEntries_cases s allow other.entries other.distinct with
    ⟨each, done⟩ | ⟨before, e, after, split, each, refused, done⟩
  · exact .inl ⟨free_of each, done⟩
  · have distinct : (before.map Prod.fst).Nodup := by
      have whole := other.distinct
      rw [split, List.map_append] at whole
      exact whole.of_append_left
    exact .inr ⟨⟨[], before, distinct⟩, e.1, e.2, after, split, free_of each, refused, done⟩

theorem merge_eq_ok_iff {s' : Store} :
    s.merge other allow = (s', none) ↔ s.Free other allow ∧ s.overlaid other = s' := by
  rcases merge_cases s other allow with ⟨free, done⟩ | ⟨front, key, datum, after, split, -, refused, done⟩
  · simp [done, free]
  · have there : key ∈ other.keys := by simp [keys, split]
    have caught : ¬ s.Free other allow := fun free => by simp [free key there] at refused
    simp [done, caught]

theorem merge_refused {s' : Store} {collision : Collision} (failed : s.merge other allow = (s', some collision)) :
    ∃ (front : Store) (key : Text) (datum old : Datum) (after : List (Text × Datum)),
      other.entries = front.entries ++ (key, datum) :: after ∧ s.merge front allow = (s', none) ∧
      s.get? key = some old ∧ ((allow = false ∧ collision = .mergeUsed key) ∨
        (allow = true ∧ old.locked = true ∧ collision = .mergeLocked key)) := by
  rcases merge_cases s other allow with ⟨-, done⟩ | ⟨front, key, datum, after, split, free, refused, done⟩
  · simp [done] at failed
  · obtain ⟨rfl, rfl⟩ : s.overlaid front = s' ∧ refusal allow key = collision := by simpa [done] using failed
    obtain ⟨old, present, why⟩ := refusal_cases refused
    exact ⟨front, key, datum, old, after, split, merge_eq_ok_iff.mpr ⟨free, rfl⟩, present, why⟩

def merged? (s other : Store) (allow : Bool) : Option Store :=
  match s.merge other allow with
  | (s', none) => some s'
  | (_, some _) => none

theorem merged?_eq_some {s' : Store} :
    s.merged? other allow = some s' ↔ s.Free other allow ∧ s.overlaid other = s' := by
  rw [← merge_eq_ok_iff, merged?]
  split <;> simp [*]

theorem yields_overlaid : (s.overlaid other).yields allow key = true ↔
    (key ∈ other.keys → other.yields allow key = true) ∧ (key ∉ other.keys → s.yields allow key = true) := by
  simp only [yields_iff, get?_overlaid, mem_keys_iff]
  cases other.get? key <;> simp

/-- What a merge asks for does not depend on how three stores are grouped. -/
theorem free_assoc : a.Free b allow ∧ (a.overlaid b).Free c allow ↔ b.Free c allow ∧ a.Free (b.overlaid c) allow := by
  simp only [Free, yields_overlaid, mem_keys_overlaid]
  -- An entry of the third store meets that of the second one, and where there is none, that of the first.
  constructor
  · rintro ⟨first, second⟩
    refine ⟨fun key inC => ?_, fun key there => ?_⟩
    · by_cases inB : key ∈ b.keys
      · exact (second key inC).1 inB
      · have absent : b.get? key = none := not_not.mp fun present => inB (mem_keys_iff.mpr present)
        simp [yields, absent]
    · by_cases inB : key ∈ b.keys
      · exact first key inB
      · exact (second key (there.resolve_left inB)).2 inB
  · rintro ⟨second, first⟩
    exact ⟨fun key inB => first key (.inl inB),
      fun key inC => ⟨fun _ => second key inC, fun _ => first key (.inr inC)⟩⟩

theorem overlaid_assoc (a b c : Store) : (a.overlaid b).overlaid c = a.overlaid (b.overlaid c) := by
  refine Store.ext (by simp only [description_overlaid]) ?_
  simp only [entries_overlaid, List.filter_append, List.filter_filter, List.append_assoc, mem_keys_overlaid]
  refine congrArg (· ++ _) (List.filter_congr fun e _ => ?_)
  simp [Bool.and_comm]

/-- A store is taken in if all entries that it has keys of may give way, and then stands behind the others, in
its order. A merge that fails does so at the first entry that meets one that may not, and has taken in what is
in front of that. How three stores are grouped makes no difference. -/
theorem merges_are_exact (a b : Store) (allow : Bool) :
    ((a.merge b allow).2 = none ↔
      ∀ key old, a.get? key = some old → key ∈ b.keys → old.locked = false ∧ allow = true) ∧
    (∀ s, a.merge b allow = (s, none) → s.description = a.description ∧
      s.entries = a.entries.filter (·.1 ∉ b.keys) ++ b.entries) ∧
    (∀ s collision, a.merge b allow = (s, some collision) →
      (Fault.collision collision).kind = .forbidden ∧
      ∃ (front : Store) (key : Text) (datum old : Datum) (after : List (Text × Datum)),
        b.entries = front.entries ++ (key, datum) :: after ∧ a.merge front allow = (s, none) ∧
        a.get? key = some old ∧ ((allow = false ∧ collision = .mergeUsed key) ∨
          (allow = true ∧ old.locked = true ∧ collision = .mergeLocked key))) ∧
    ∀ c, (a.merged? b allow).bind (·.merged? c allow) = (b.merged? c allow).bind (a.merged? · allow) := by
  refine ⟨?_, fun s done => ?_, fun s collision failed => ⟨rfl, merge_refused failed⟩, fun c => ?_⟩
  · rw [← free_iff]
    exact ⟨fun none => (merge_eq_ok_iff.mp (Prod.ext rfl none)).1,
      fun free => congrArg Prod.snd (merge_eq_ok_iff.mpr ⟨free, rfl⟩)⟩
  · obtain ⟨-, rfl⟩ := merge_eq_ok_iff.mp done
    exact ⟨description_overlaid a b, entries_overlaid a b⟩
  · refine Option.ext fun s => ?_
    simp only [Option.bind_eq_some_iff, merged?_eq_some]
    constructor
    · rintro ⟨_, ⟨first, rfl⟩, second, rfl⟩
      obtain ⟨inner, outer⟩ := free_assoc.mp ⟨first, second⟩
      exact ⟨_, ⟨inner, rfl⟩, outer, (overlaid_assoc a b c).symm⟩
    · rintro ⟨_, ⟨inner, rfl⟩, outer, rfl⟩
      obtain ⟨first, second⟩ := free_assoc.mpr ⟨inner, outer⟩
      exact ⟨_, ⟨first, rfl⟩, second, overlaid_assoc a b c⟩

/-- A merge that meets a locked entry has taken in the one in front of it. -/
theorem merges_are_exact_up_to_a_locked_entry :
    let one : Datum := .scalar (.integer [1])
    let two : Datum := .scalar (.integer [2])
    let a := (empty.insert ['x'] { one with locked := true }).insert ['y'] one
    let b := ((empty.insert ['y'] two).insert ['x'] two).insert ['z'] two
    a.merge b true = (a.insert ['y'] two, some (.mergeLocked ['x'])) ∧
      ∃ (front : Store) (key : Text) (datum old : Datum) (after : List (Text × Datum)),
        b.entries = front.entries ++ (key, datum) :: after ∧ a.merge front true = (a.insert ['y'] two, none) ∧
        a.get? key = some old ∧ ((true = false ∧ Collision.mergeLocked ['x'] = .mergeUsed key) ∨
          (true = true ∧ old.locked = true ∧ Collision.mergeLocked ['x'] = .mergeLocked key)) := by
  intro one two a b
  have failed : a.merge b true = (a.insert ['y'] two, some (.mergeLocked ['x'])) := by decide
  obtain ⟨-, -, fails, -⟩ := merges_are_exact a b true
  exact ⟨failed, (fails _ _ failed).2⟩

end Store
end TypedProperties
