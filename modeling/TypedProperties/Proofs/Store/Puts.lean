import TypedProperties.Proofs.Store.Order

/-! Data that are put one after another: when they all meet a place, and what stands in the store behind them. -/
namespace TypedProperties

/-- A datum, the key that it goes under, and how it meets what is there. -/
structure Declared where
  key : Text
  mode : Mode
  datum : Datum
  deriving DecidableEq

def Declared.whole (e : Text × Datum) : Declared := ⟨e.1, .declare, e.2⟩

/-- The keys that stand behind equal ones, where others are in front. -/
def repeats (front : List Text) : List Text → List Text
  | [] => []
  | key :: rest => (if key ∈ front then [key] else []) ++ repeats (key :: front) rest

theorem repeats_congr {front front' keys : List Text} (same : ∀ key, key ∈ front ↔ key ∈ front') :
    repeats front keys = repeats front' keys := by
  induction keys generalizing front front' with
  | nil => rfl
  | cons key rest ih =>
    have behind : repeats (key :: front) rest = repeats (key :: front') rest := ih fun k => by simp [same]
    simp [repeats, same, behind]

/-- Every key once, with its last datum, in the order in which these come. -/
def lasting (entries : List (Text × Datum)) : List (Text × Datum) :=
  (entries.map Prod.fst).dedup.filterMap fun key => (entries.reverse.lookup key).map (key, ·)

theorem lasting_concat (entries : List (Text × Datum)) (key : Text) (datum : Datum) :
    lasting (entries ++ [(key, datum)]) = Store.others key (lasting entries) ++ [(key, datum)] := by
  -- Behind the entry, the other keys still have the data that they had.
  have front : (((entries.map Prod.fst).dedup.filter (· ≠ key)).filterMap fun k =>
      (((key, datum) :: entries.reverse).lookup k).map (k, ·)) = Store.others key (lasting entries) := by
    rw [Store.others, lasting, List.filter_filterMap, List.filterMap_filter]
    refine List.filterMap_congr fun k _ => ?_
    by_cases same : k = key
    · cases entries.reverse.lookup k <;> simp [same, Option.filter]
    · have other : (k == key) = false := by simpa using same
      cases found : entries.reverse.lookup k <;> simp [same, other, found, List.lookup_cons, Option.filter]
  rw [lasting, List.map_append, List.map_singleton, dedup_concat, List.filterMap_append, List.reverse_append,
    List.reverse_singleton, List.singleton_append, front]
  simp

theorem forall_splits_cons {α : Type} {P : List α → α → Prop} {a : α} {rest : List α} :
    (∀ before b after, a :: rest = before ++ b :: after → P before b) ↔
      P [] a ∧ ∀ before b after, rest = before ++ b :: after → P (a :: before) b := by
  constructor
  · intro each
    exact ⟨each [] a rest rfl, fun before b after split => each (a :: before) b after (by simp [split])⟩
  · rintro ⟨first, others⟩ before b after split
    cases before with
    | nil =>
      obtain ⟨rfl, -⟩ := List.cons.inj split
      exact first
    | cons c before =>
      obtain ⟨rfl, behind⟩ := List.cons.inj split
      exact others before b after behind

namespace Store

variable {s s' : Store} {allow replaced : Bool} {key : Text} {datum : Datum}

theorem mem_keys_insert {other : Text} : other ∈ (s.insert key datum).keys ↔ other = key ∨ other ∈ s.keys := by
  by_cases same : other = key <;> simp [keys_insert, same]

theorem put_whole : s.put key datum .declare allow = (s', .ok replaced) ↔
    s.yields allow key = true ∧ s' = s.insert key datum ∧ replaced = s.contains key := by
  unfold put yields contains
  cases s.get? key with
  | none => simp [@eq_comm Store s']
  | some old => cases locked : old.locked <;> cases allow <;> simp [locked, @eq_comm Store s']

/-! Entries that come one after another. -/

theorem entries_inserts (s : Store) (entries : List (Text × Datum)) :
    (s.inserts entries).entries =
      s.entries.filter (fun e => e.1 ∉ entries.map Prod.fst) ++ lasting entries := by
  induction entries using List.reverseRecOn with
  | nil => simp [lasting]
  | append_singleton entries e ih =>
    have front : others e.1 (s.entries.filter fun e => e.1 ∉ entries.map Prod.fst) =
        s.entries.filter fun e' => e'.1 ∉ (entries ++ [e]).map Prod.fst := by
      rw [others, List.filter_filter]
      refine List.filter_congr fun e' _ => ?_
      by_cases same : e'.1 = e.1 <;> simp [same]
    calc (s.inserts (entries ++ [e])).entries
        = others e.1 (s.inserts entries).entries ++ [e] := by rw [inserts_concat, insert]
      _ = others e.1 (s.entries.filter fun e => e.1 ∉ entries.map Prod.fst) ++
            others e.1 (lasting entries) ++ [e] := by
        rw [ih, others, List.filter_append, ← others, ← others]
      _ = _ := by rw [front, lasting_concat, List.append_assoc]

theorem entries_inserts_of_fresh {entries : List (Text × Datum)}
    (fresh : ∀ before e after, entries = before ++ e :: after → (s.inserts before).get? e.1 = none) :
    (s.inserts entries).entries = s.entries ++ entries := by
  induction entries using List.reverseRecOn with
  | nil => simp
  | append_singleton entries e ih =>
    rw [inserts_concat, entries_insert_of_fresh (fresh entries e [] rfl),
      ih fun before e' after split => fresh before e' (after ++ [e]) (by simp [split]), List.append_assoc]

/-- Data are put one after another without a collision. The keys are those of the whole data that give way. -/
inductive Puts (allow : Bool) : Store → List Declared → Store → List Text → Prop
  | none (s : Store) : Puts allow s [] s []
  | next {s s₁ s' : Store} {e : Declared} {rest : List Declared} {replaced : Bool} {keys : List Text}
      (put : s.put e.key e.datum e.mode allow = (s₁, .ok replaced)) (behind : Puts allow s₁ rest s' keys) :
      Puts allow s (e :: rest) s' ((if replaced then [e.key] else []) ++ keys)

namespace Puts

variable {s₁ : Store} {before after : List Declared} {entries : List (Text × Datum)} {keys keys' : List Text}

theorem append (first : Puts allow s before s₁ keys) (second : Puts allow s₁ after s' keys') :
    Puts allow s (before ++ after) s' (keys ++ keys') := by
  induction first with
  | none s => exact second
  | next put _ ih =>
    rw [List.cons_append, List.append_assoc]
    exact .next put (ih second)

theorem split (puts : Puts allow s (before ++ after) s' keys) :
    ∃ s₁ keys₁ keys₂, Puts allow s before s₁ keys₁ ∧ Puts allow s₁ after s' keys₂ := by
  induction before generalizing s keys with
  | nil => exact ⟨s, [], keys, .none s, puts⟩
  | cons e before ih =>
    cases puts with
    | next put behind =>
      obtain ⟨s₁, keys₁, keys₂, first, second⟩ := ih behind
      exact ⟨s₁, _, keys₂, .next put first, second⟩

theorem whole_eq (puts : Puts allow s (entries.map .whole) s' keys) :
    s' = s.inserts entries ∧ keys = repeats s.keys (entries.map Prod.fst) := by
  induction entries generalizing s keys with
  | nil =>
    cases puts
    exact ⟨rfl, rfl⟩
  | cons e rest ih =>
    cases puts with
    | next put behind =>
      obtain ⟨-, rfl, rfl⟩ := put_whole.mp put
      obtain ⟨rfl, rfl⟩ := ih behind
      have seen : repeats (s.insert e.1 e.2).keys (rest.map Prod.fst) =
          repeats (e.1 :: s.keys) (rest.map Prod.fst) := repeats_congr fun key => by
        rw [mem_keys_insert, List.mem_cons]
      refine ⟨rfl, ?_⟩
      have there : s.contains e.1 = decide (e.1 ∈ s.keys) := by
        rw [Bool.eq_iff_iff, contains_iff_mem, decide_eq_true_iff, Store.keys]
      simp [repeats, seen, Declared.whole, there]

/-- Whole data are all put if each of them meets no datum that may not give way. -/
theorem whole_iff : (∃ s' keys, Puts allow s (entries.map .whole) s' keys) ↔
    ∀ before e after, entries = before ++ e :: after → (s.inserts before).yields allow e.1 = true := by
  constructor
  · rintro ⟨s', keys, puts⟩ before e after rfl
    rw [List.map_append] at puts
    obtain ⟨s₁, keys₁, keys₂, first, second⟩ := puts.split
    obtain ⟨rfl, -⟩ := first.whole_eq
    cases second with
    | next put _ => exact (put_whole.mp put).1
  · intro free
    induction entries generalizing s with
    | nil => exact ⟨s, [], .none s⟩
    | cons e rest ih =>
      obtain ⟨first, others⟩ := forall_splits_cons.mp free
      obtain ⟨s', keys, behind⟩ := ih others
      exact ⟨s', _, .next (put_whole.mpr ⟨first, rfl, rfl⟩) behind⟩

end Puts

theorem yields_false : s.yields false key = true ↔ s.get? key = none := by
  unfold yields
  cases s.get? key <;> simp

theorem yields_true : s.yields true key = true ↔ ∀ old, s.get? key = some old → old.locked = false := by
  unfold yields
  cases s.get? key <;> simp

theorem yields_false_iff {entries : List (Text × Datum)} :
    (∀ before e after, entries = before ++ e :: after → (s.inserts before).yields false e.1 = true) ↔
      (entries.map Prod.fst).Nodup ∧ ∀ key ∈ entries.map Prod.fst, key ∉ s.keys := by
  induction entries generalizing s with
  | nil => simp
  | cons e rest ih =>
    have first : s.yields false e.1 = true ↔ e.1 ∉ s.keys := by
      rw [yields_false, keys, ← contains_iff_mem, contains]
      cases s.get? e.1 <;> simp
    rw [forall_splits_cons]
    simp only [inserts_nil, inserts_cons, first, ih, mem_keys_insert, List.map_cons, List.nodup_cons, List.forall_mem_cons,
      not_or]
    constructor
    · rintro ⟨new, distinct, others⟩
      exact ⟨⟨fun mem => (others _ mem).1 rfl, distinct⟩, new, fun key mem => (others key mem).2⟩
    · rintro ⟨⟨absent, distinct⟩, new, others⟩
      exact ⟨new, distinct, fun key mem => ⟨fun same => absent (same ▸ mem), others key mem⟩⟩

end Store
end TypedProperties
