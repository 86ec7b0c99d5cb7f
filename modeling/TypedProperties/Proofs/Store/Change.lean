import Mathlib.Data.List.Induction
import Mathlib.Tactic.SplitIfs
import TypedProperties.Proofs.Lookup
import TypedProperties.Store.Collision

/-! What may become of a store while a read fills it, and what a locked entry makes of it. -/
namespace TypedProperties
namespace Store

/-- Entries that stay, a datum that is put under its key, or a whole store that is taken in. -/
inductive Change (s : Store) : Store → Prop
  | kept {s' : Store} (same : s'.entries = s.entries) : Change s s'
  | put {s' : Store} {key : Text} {datum : Datum} {mode : Mode} {allow replaced : Bool}
      (done : s.put key datum mode allow = (s', .ok replaced)) : Change s s'
  | merged {s' other : Store} {allow : Bool} (done : s.merge other allow = (s', none)) : Change s s'

theorem get?_of_entries {s s' : Store} (h : s'.entries = s.entries) (key : Text) :
    s'.get? key = s.get? key := by
  rw [get?,get?,h]

theorem get?_insert_of_ne {s : Store} {key other : Text} (datum : Datum) (h : other ≠ key) :
    (s.insert key datum).get? other = s.get? other := by
  change (others key s.entries ++ [(key, datum)]).lookup other = s.entries.lookup other
  rw [others, lookup_filter_concat, if_neg h]

theorem entries_insert_of_fresh {s : Store} {key : Text} (fresh : s.get? key = none) (datum : Datum) :
    (s.insert key datum).entries = s.entries ++ [(key, datum)] := by
  have kept : others key s.entries = s.entries := by
    rw [others, List.filter_eq_self]
    intro e he
    have other : key ≠ e.1 := by simpa using List.lookup_eq_none_iff.mp fresh e he
    simp [Ne.symm other]
  exact congrArg (· ++ [(key, datum)]) kept

theorem lookup_replaced_of_ne {key other : Text} (h : other ≠ key) (datum : Datum)
    (entries : List (Text × Datum)) :
    (replaced key datum entries).lookup other = entries.lookup other := by
  induction entries with
  | nil => rfl
  | cons e entries ih =>
    obtain ⟨k, d⟩ := e
    have ih : (replaced key datum entries).lookup other = entries.lookup other := ih
    by_cases hk : k = key
    · have hne : (other == key) = false := by simpa using h
      simpa [replaced, hk, List.lookup_cons, hne] using ih
    · simp only [replaced, List.map_cons, hk, if_false, List.lookup_cons]
      split
      · rfl
      · exact ih

theorem lookup_replaced_self {key : Text} {old : Datum} (datum : Datum) {entries : List (Text × Datum)}
    (present : entries.lookup key = some old) : (replaced key datum entries).lookup key = some datum := by
  induction entries with
  | nil => cases present
  | cons e entries ih =>
    obtain ⟨k, d⟩ := e
    by_cases same : k = key
    · simp [replaced, same]
    · have other : (key == k) = false := by simpa using Ne.symm same
      have later : entries.lookup key = some old := by simpa [List.lookup_cons, other] using present
      simpa [replaced, same, List.lookup_cons, other] using ih later

theorem get?_update_self {s : Store} {key : Text} {old : Datum} (present : s.get? key = some old)
    (datum : Datum) : (s.update key datum).get? key = some datum :=
  lookup_replaced_self datum present

theorem get?_update_of_ne {s : Store} {key other : Text} (datum : Datum) (h : other ≠ key) :
    (s.update key datum).get? other = s.get? other :=
  lookup_replaced_of_ne h datum s.entries

/-- A datum gets under its key as a new entry, in place of one that is neither locked nor protected,
or as further or other values of a vector. -/
theorem put_cases {s s' : Store} {key : Text} {datum : Datum} {mode : Mode}
    {allow replaced : Bool} (done : s.put key datum mode allow = (s', .ok replaced)) :
    (s.get? key = none ∧ mode = .declare ∧ s' = s.insert key datum ∧ replaced = false) ∨
    ∃ old, s.get? key = some old ∧ old.locked = false ∧ allow = true ∧
      ((mode = .declare ∧ s' = s.insert key datum ∧ replaced = true) ∨
        ∃ new, mode ≠ .declare ∧ old.isVector = true ∧ old.data.compatible datum.data = true ∧
          changed old datum mode = .ok new ∧ s' = s.update key new ∧ replaced = false) := by
  unfold put at done
  split at done
  next absent =>
    split at done <;> cases done
    exact .inl ⟨absent, rfl, rfl, rfl⟩
  next old present =>
    split_ifs at done with hl ha hm hv hc <;> try cases done
    · exact .inr ⟨old, present, by simpa using hl, by simpa using ha, .inl ⟨hm, rfl, rfl⟩⟩
    · split at done <;> cases done
      next new hn =>
        exact .inr ⟨old, present, by simpa using hl, by simpa using ha,
          .inr ⟨new, hm, by simpa using hv, by simpa using hc, hn, rfl, rfl⟩⟩

theorem put_error {s s' : Store} {key : Text} {datum : Datum} {mode : Mode} {allow : Bool} {collision : Collision}
    (refused : s.put key datum mode allow = (s', .error collision)) : s' = s := by
  unfold put at refused
  split at refused
  next => split at refused <;> cases refused <;> rfl
  next =>
    split_ifs at refused <;> try cases refused
    · rfl
    · rfl
    · rfl
    · rfl
    · split at refused <;> cases refused
      rfl

theorem get?_of_put_declare {s s' : Store} {key : Text} {datum : Datum} {allow replaced : Bool}
    (done : s.put key datum .declare allow = (s', .ok replaced)) : s'.get? key = some datum := by
  rcases put_cases done with ⟨-, -, rfl, -⟩ | ⟨old, -, -, -, ⟨-, rfl, -⟩ | ⟨new, part, -⟩⟩
  · exact get?_insert_self s key datum
  · exact get?_insert_self s key datum
  · exact absurd rfl part

theorem description_of_put {s s' : Store} {key : Text} {datum : Datum} {mode : Mode}
    {allow replaced : Bool} (done : s.put key datum mode allow = (s', .ok replaced)) :
    s'.description = s.description := by
  rcases put_cases done with ⟨-, -, rfl, -⟩ | ⟨old, -, -, -, ⟨-, rfl, -⟩ | ⟨new, -, -, -, -, rfl, -⟩⟩ <;>
    rfl

theorem get?_of_put {s s' : Store} {key other : Text} {datum : Datum} {mode : Mode}
    {allow replaced : Bool} (done : s.put key datum mode allow = (s', .ok replaced))
    (h : other ≠ key) : s'.get? other = s.get? other := by
  rcases put_cases done with ⟨-, -, rfl, -⟩ | ⟨old, -, -, -, ⟨-, rfl, -⟩ | ⟨new, -, -, -, -, rfl, -⟩⟩
  · exact get?_insert_of_ne datum h
  · exact get?_insert_of_ne datum h
  · exact get?_update_of_ne new h

theorem put_of_locked {s : Store} {key : Text} {old : Datum} (h : s.get? key = some old)
    (locked : old.locked = true) (datum : Datum) (mode : Mode) (allow : Bool) :
    s.put key datum mode allow = (s, .error (.locked key)) := by
  simp [put, h, locked]

def yields (s : Store) (allow : Bool) (key : Text) : Bool :=
  (s.get? key).all fun old => allow && !old.locked

theorem yields_iff {s : Store} {allow : Bool} {key : Text} :
    s.yields allow key = true ↔ ∀ old, s.get? key = some old → old.locked = false ∧ allow = true := by
  unfold yields
  cases s.get? key <;> simp [and_comm]

def inserts (s : Store) (entries : List (Text × Datum)) : Store :=
  entries.foldl (fun s e => s.insert e.1 e.2) s

@[simp] theorem inserts_nil (s : Store) : s.inserts [] = s := rfl

@[simp] theorem inserts_cons (s : Store) (e : Text × Datum) (rest : List (Text × Datum)) :
    s.inserts (e :: rest) = (s.insert e.1 e.2).inserts rest := rfl

theorem inserts_append (s : Store) (before after : List (Text × Datum)) :
    s.inserts (before ++ after) = (s.inserts before).inserts after := List.foldl_append

theorem inserts_concat (s : Store) (entries : List (Text × Datum)) (e : Text × Datum) :
    s.inserts (entries ++ [e]) = (s.inserts entries).insert e.1 e.2 := inserts_append s entries [e]

theorem description_inserts (s : Store) (entries : List (Text × Datum)) :
    (s.inserts entries).description = s.description := by
  induction entries generalizing s with
  | nil => rfl
  | cons e rest ih => exact ih _

/-- The last entry for a key counts, and where there is none, what was there before. -/
theorem get?_inserts (s : Store) (entries : List (Text × Datum)) (key : Text) :
    (s.inserts entries).get? key = (entries.reverse.lookup key).or (s.get? key) := by
  induction entries using List.reverseRecOn with
  | nil => simp
  | append_singleton entries e ih =>
    obtain ⟨k, datum⟩ := e
    rw [inserts_concat, List.reverse_append, List.reverse_singleton, List.singleton_append, List.lookup_cons]
    by_cases same : key = k
    · subst same
      simp
    · have other : (key == k) = false := by simpa using same
      rw [get?_insert_of_ne datum same, ih, other]

section
variable {s s' : Store} {allow : Bool} {key : Text} {datum : Datum} {entries rest : List (Text × Datum)}

/-- Why an entry cannot be taken in where it meets one that may not give way. -/
def refusal (allow : Bool) (key : Text) : Collision := if allow then .mergeLocked key else .mergeUsed key

theorem refusal_cases (refused : s.yields allow key = false) :
    ∃ old, s.get? key = some old ∧ ((allow = false ∧ refusal allow key = .mergeUsed key) ∨
      (allow = true ∧ old.locked = true ∧ refusal allow key = .mergeLocked key)) := by
  obtain ⟨old, present, kept⟩ : ∃ old, s.get? key = some old ∧ (allow && !old.locked) = false := by
    simpa [yields, Option.all_eq_false] using refused
  refine ⟨old, present, ?_⟩
  cases allow <;> simp_all [refusal]

theorem mergeEntries_of_yields (free : s.yields allow key = true) :
    mergeEntries allow s ((key, datum) :: rest) = mergeEntries allow (s.insert key datum) rest := by
  rw [mergeEntries]
  cases present : s.get? key with
  | none => rfl
  | some old => simp_all [yields]

theorem mergeEntries_of_refused (refused : s.yields allow key = false) :
    mergeEntries allow s ((key, datum) :: rest) = (s, some (refusal allow key)) := by
  rw [mergeEntries]
  cases present : s.get? key with
  | none => simp [yields, present] at refused
  | some old => cases allow <;> simp_all [yields, refusal]

theorem mergeEntries_eq (done : mergeEntries allow s entries = (s', none)) : s' = s.inserts entries := by
  induction entries generalizing s with
  | nil =>
    obtain ⟨rfl, -⟩ := Prod.mk.inj done
    rfl
  | cons e rest ih =>
    cases here : s.yields allow e.1 with
    | true =>
      rw [mergeEntries_of_yields here] at done
      exact ih done
    | false =>
      rw [mergeEntries_of_refused here] at done
      cases done

/-- All entries are taken in, or those in front of the first one that meets one that may not give way. -/
theorem mergeEntries_cases (distinct : (entries.map Prod.fst).Nodup) :
    ((∀ e ∈ entries, s.yields allow e.1 = true) ∧ mergeEntries allow s entries = (s.inserts entries, none)) ∨
      ∃ before e after, entries = before ++ e :: after ∧ (∀ e ∈ before, s.yields allow e.1 = true) ∧
        s.yields allow e.1 = false ∧
        mergeEntries allow s entries = (s.inserts before, some (refusal allow e.1)) := by
  induction entries generalizing s with
  | nil => exact .inl ⟨nofun, rfl⟩
  | cons e rest ih =>
    obtain ⟨absent, distinct⟩ := List.nodup_cons.mp distinct
    cases here : s.yields allow e.1 with
    | false => exact .inr ⟨[], e, rest, rfl, nofun, here, mergeEntries_of_refused here⟩
    | true =>
      -- The keys are distinct, so no entry behind meets the one that has just been taken in.
      have kept : ∀ e' ∈ rest, (s.insert e.1 e.2).yields allow e'.1 = s.yields allow e'.1 := fun e' mem => by
        have other : e'.1 ≠ e.1 := fun same => absent (List.mem_map.mpr ⟨e', mem, same⟩)
        rw [yields, yields, get?_insert_of_ne e.2 other]
      rw [mergeEntries_of_yields here]
      rcases @ih (s.insert e.1 e.2) distinct with ⟨free, done⟩ | ⟨before, e', after, rfl, free, refused, done⟩
      · exact .inl ⟨List.forall_mem_cons.mpr ⟨here, fun e' mem => (kept e' mem).symm.trans (free e' mem)⟩, done⟩
      · refine .inr ⟨e :: before, e', after, rfl, List.forall_mem_cons.mpr ⟨here, fun e'' mem => ?_⟩, ?_, done⟩
        · exact (kept e'' (List.mem_append_left _ mem)).symm.trans (free e'' mem)
        · exact (kept e' (by simp)).symm.trans refused

theorem description_of_mergeEntries (done : mergeEntries allow s entries = (s', none)) :
    s'.description = s.description := by
  rw [mergeEntries_eq done, description_inserts]

end

theorem merge_of_entries_eq_nil {other : Store} (none : other.entries = []) (s : Store) (allow : Bool) :
    s.merge other allow = (s, .none) := by
  rw [merge, none, mergeEntries]

theorem get?_of_merge {s s' other : Store} {allow : Bool} (done : s.merge other allow = (s', none))
    (key : Text) : s'.get? key = (other.get? key).or (s.get? key) := by
  rw [mergeEntries_eq done, get?_inserts, lookup_reverse other.distinct, ← get?]

theorem mem_of_get? {s : Store} {key : Text} {datum : Datum} (present : s.get? key = some datum) :
    (key, datum) ∈ s.entries :=
  mem_of_lookup present

def Each (P : Text → Datum → Prop) (s : Store) : Prop := ∀ e ∈ s.entries, P e.1 e.2

namespace Each

variable {P : Text → Datum → Prop} {s s' : Store} {key : Text} {datum : Datum}

theorem empty : Store.empty.Each P := nofun

theorem of_entries (each : s.Each P) (same : s'.entries = s.entries) : s'.Each P := by
  rw [Each, same]
  exact each

theorem insert (each : s.Each P) (new : P key datum) : (s.insert key datum).Each P := by
  intro e he
  rcases List.mem_append.mp he with old | last
  · exact each e (List.mem_filter.mp old).1
  · obtain rfl := List.mem_singleton.mp last
    exact new

theorem update (each : s.Each P) (new : P key datum) : (s.update key datum).Each P := by
  intro e he
  obtain ⟨old, mem, rfl⟩ := List.mem_map.mp he
  split_ifs
  · exact new
  · exact each old mem

theorem put (each : s.Each P) {mode : Mode} {allow replaced : Bool} (new : P key datum)
    (keeps : ∀ {old more : Datum}, P key old → old.isVector = true → changed old datum mode = .ok more →
      P key more)
    (done : s.put key datum mode allow = (s', .ok replaced)) : s'.Each P := by
  rcases put_cases done with ⟨-, -, rfl, -⟩ |
    ⟨old, present, -, -, ⟨-, rfl, -⟩ | ⟨more, -, vector, -, made, rfl, -⟩⟩
  · exact each.insert new
  · exact each.insert new
  · exact each.update (keeps (each _ (mem_of_get? present)) vector made)

theorem inserts (each : s.Each P) {entries : List (Text × Datum)} (new : ∀ e ∈ entries, P e.1 e.2) :
    (s.inserts entries).Each P := by
  induction entries generalizing s with
  | nil => exact each
  | cons e rest ih =>
    obtain ⟨first, others⟩ := List.forall_mem_cons.mp new
    exact ih (each.insert first) others

theorem mergeEntries (each : s.Each P) {entries : List (Text × Datum)} (new : ∀ e ∈ entries, P e.1 e.2) {allow : Bool}
    (done : mergeEntries allow s entries = (s', none)) : s'.Each P :=
  mergeEntries_eq done ▸ each.inserts new

end Each

theorem contains_iff_mem {s : Store} {key : Text} :
    s.contains key = true ↔ key ∈ s.entries.map Prod.fst := by
  rw [contains, get?, Option.isSome_iff_ne_none, ne_eq, List.lookup_eq_none_iff]
  simp

theorem merge_free {s s' other : Store} {allow : Bool} (done : s.merge other allow = (s', none))
    {key : Text} {old : Datum} (present : s.get? key = some old) (shared : other.contains key = true) :
    allow = true ∧ old.locked = false := by
  rcases @mergeEntries_cases s allow other.entries other.distinct with ⟨free, -⟩ | ⟨_, _, _, -, -, -, failed⟩
  · obtain ⟨e, mem, rfl⟩ := List.mem_map.mp (contains_iff_mem.mp shared)
    exact (yields_iff.mp (free e mem) old present).symm
  · rw [merge, failed] at done
    cases done

/-- A store that cannot be taken in has an entry for the key of one that may not give way. -/
theorem merge_error {s s' other : Store} {allow : Bool} {collision : Collision}
    (failed : s.merge other allow = (s', some collision)) :
    ∃ key old, s.get? key = some old ∧ other.contains key = true ∧
      ((allow = false ∧ collision = .mergeUsed key) ∨
        (allow = true ∧ old.locked = true ∧ collision = .mergeLocked key)) := by
  rcases @mergeEntries_cases s allow other.entries other.distinct with
    ⟨-, done⟩ | ⟨before, e, after, split, -, refused, stopped⟩
  · rw [merge, done] at failed
    cases failed
  · rw [merge, stopped] at failed
    obtain rfl := Option.some.inj (congrArg Prod.snd failed)
    obtain ⟨old, present, why⟩ := refusal_cases refused
    exact ⟨e.1, old, present, contains_iff_mem.mpr (by simp [split]), why⟩

/-- Where a store is taken in, the entries for keys that it does not have stay. -/
theorem get?_of_merge_of_absent {s s' other : Store} {allow : Bool}
    (done : s.merge other allow = (s', none)) {key : Text} (absent : other.contains key = false) :
    s'.get? key = s.get? key := by
  have none : other.get? key = none := by simpa [contains] using absent
  rw [get?_of_merge done, none, Option.none_or]

theorem merge_of_locked {s other : Store} {key : Text} {old : Datum} (h : s.get? key = some old)
    (locked : old.locked = true) (clash : other.contains key = true) (allow : Bool) :
    ∃ s' collision, s.merge other allow = (s', some collision) := by
  cases done : s.merge other allow with
  | mk s' fault =>
    cases fault with
    | some collision => exact ⟨s', collision, rfl⟩
    | none => simpa [locked] using (merge_free done h clash).2

theorem Change.get?_of_locked {s s' : Store} {key : Text} {old : Datum} (change : s.Change s')
    (h : s.get? key = some old) (locked : old.locked = true) : s'.get? key = some old := by
  cases change with
  | kept same => rw [get?_of_entries same, h]
  | @put k datum mode allow replaced done =>
    have hk : key ≠ k := by
      rintro rfl
      rw [put_of_locked h locked] at done
      cases done
    rw [get?_of_put done hk, h]
  | @merged other allow done =>
    have absent : other.contains key = false := Bool.eq_false_iff.mpr fun clash => by
      simpa [locked] using (merge_free done h clash).2
    rw [get?_of_merge_of_absent done absent, h]

end Store
end TypedProperties
