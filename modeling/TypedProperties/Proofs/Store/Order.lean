import Mathlib.Data.List.Dedup
import Mathlib.Data.List.Perm.Basic
import Mathlib.Data.List.TakeWhile
import TypedProperties.Proofs.Store.Sound

/-! The order of a store: whatever a program does to it, its keys stand in the order in which they were last
written whole, and what is added to a vector or put into it stays in its place. -/
namespace TypedProperties

namespace Data

theorem compatible_append {d e r : Data} (done : d.append e = .ok r) : d.compatible r = true := by
  cases d <;> cases e <;> simp only [append, Except.ok.injEq, reduceCtorEq] at done <;> subst done <;>
    simp [compatible, kind, unit, isPath]

theorem compatible_replaceItem {i : Nat} {d e r : Data} (done : d.replaceItem i e = .ok r) :
    d.compatible r = true := by
  unfold replaceItem at done
  split_ifs at done
  split at done
  case h_5 => cases done
  all_goals
    obtain ⟨w, -, rfl⟩ := map_putFirst_eq done
    simp [compatible, kind, unit, isPath]

end Data

theorem dedup_concat (log : List Text) (key : Text) :
    (log ++ [key]).dedup = log.dedup.filter (· ≠ key) ++ [key] := by
  induction log with
  | nil => simp
  | cons k log ih =>
    by_cases again : k ∈ log
    · rw [List.cons_append, List.dedup_cons_of_mem (by simp [again]), ih, List.dedup_cons_of_mem again]
    · by_cases same : k = key
      · subst same
        rw [List.cons_append, List.dedup_cons_of_mem (by simp), ih, List.dedup_cons_of_notMem again]
        simp
      · rw [List.cons_append, List.dedup_cons_of_notMem (by simp [again, same]), ih,
          List.dedup_cons_of_notMem again]
        simp [same]

namespace Store

variable {s s' : Store} {key : Text} {datum : Datum} {mode : Mode} {allow replaced : Bool}

/-- What is taken in, also before a fault, is what stands in front of the first entry that meets one that may
not give way. -/
theorem mergeEntries_fst {entries : List (Text × Datum)} (distinct : (entries.map Prod.fst).Nodup) :
    (mergeEntries allow s entries).1 =
      s.inserts (entries.takeWhile fun e => s.yields allow e.1) := by
  rcases @mergeEntries_cases s allow entries distinct with
    ⟨free, done⟩ | ⟨before, e, after, rfl, free, refused, done⟩
  · rw [done, List.takeWhile_eq_self_iff.mpr free]
  · rw [done, List.takeWhile_append_of_pos free, List.takeWhile_cons_of_neg (by simp [refused]), List.append_nil]

theorem compatible_of_changed {old new : Datum} (done : changed old datum mode = .ok new) :
    ∃ data, new = { old with data } ∧ old.data.compatible data = true := by
  unfold changed at done
  split at done
  · obtain ⟨data, put, rfl⟩ := map_eq_ok.mp done
    exact ⟨data, rfl, Data.compatible_replaceItem put⟩
  · obtain ⟨data, put, rfl⟩ := map_eq_ok.mp done
    exact ⟨data, rfl, Data.compatible_append put⟩

theorem entries_update {old : Datum} (present : s.get? key = some old) (new : Datum) :
    ∃ before after, s.entries = before ++ (key, old) :: after ∧
      (s.update key new).entries = before ++ (key, new) :: after := by
  -- The lookup stops at the first entry for the key; that there is no other one is what `distinct` says.
  obtain ⟨before, after, split, front⟩ := List.lookup_eq_some_iff.mp present
  have kept {entries : List (Text × Datum)} (absent : ∀ e ∈ entries, e.1 ≠ key) :
      Store.replaced key new entries = entries := by
    refine (List.map_congr_left fun e he => ?_).trans (List.map_id entries)
    exact if_neg (absent e he)
  have behind : ∀ e ∈ after, e.1 ≠ key := by
    intro e he same
    have distinct := s.distinct
    simp only [split, List.map_append, List.map_cons, List.nodup_append, List.nodup_cons] at distinct
    exact distinct.2.1.1 (List.mem_map.mpr ⟨e, he, same⟩)
  have before' : Store.replaced key new before = before :=
    kept fun e he => Ne.symm (bne_iff_ne.mp (front e he))
  refine ⟨before, after, split, ?_⟩
  calc (s.update key new).entries
      = Store.replaced key new (before ++ (key, old) :: after) := congrArg _ split
    _ = Store.replaced key new before ++ (key, new) :: Store.replaced key new after := by
      simp [Store.replaced]
    _ = before ++ (key, new) :: after := by rw [before', kept behind]

/-- A vector that gets further or other values stays where it is, among the same other entries, and is the
same but for its values. -/
theorem entries_of_put_part (part : mode ≠ .declare)
    (done : s.put key datum mode allow = (s', .ok replaced)) :
    ∃ before old data after, s.entries = before ++ (key, old) :: after ∧
      s'.entries = before ++ (key, { old with data }) :: after ∧ s'.description = s.description ∧
      old.data.compatible data = true := by
  rcases put_cases done with ⟨-, whole, -⟩ | ⟨old, present, -, -, ⟨whole, -⟩ | ⟨new, -, -, -, made, rfl, -⟩⟩
  · exact absurd whole part
  · exact absurd whole part
  · obtain ⟨data, rfl, same⟩ := compatible_of_changed made
    obtain ⟨before, after, split, split'⟩ := entries_update present { old with data }
    exact ⟨before, old, data, after, split, split', rfl, same⟩

inductive Operation where
  | insert (key : Text) (datum : Datum)
  | erase (key : Text)
  | clear
  | merge (other : Store) (allow : Bool)
  | put (key : Text) (datum : Datum) (mode : Mode) (allow : Bool)

namespace Operation

def result (s : Store) : Operation → Store
  | .insert key datum => s.insert key datum
  | .erase key => s.erase key
  | .clear => .empty
  | .merge other allow => (s.merge other allow).1
  | .put key datum mode allow => (s.put key datum mode allow).1

def writes (s : Store) : Operation → List Text
  | .insert key _ => [key]
  | .merge other allow => (other.entries.takeWhile fun e => s.yields allow e.1).map Prod.fst
  | .put key datum .declare allow =>
    match (s.put key datum .declare allow).2 with
    | .ok _ => [key]
    | .error _ => []
  | _ => []

def results : Store → List Operation → Store :=
  List.foldl result

def log : Store → List Operation → List Text
  | _, [] => []
  | s, operation :: rest => operation.writes s ++ log (operation.result s) rest

end Operation

/-- The keys stand in the order of their last occurrences in a log. -/
def Follows (s : Store) (log : List Text) : Prop := s.keys.Sublist log.dedup

namespace Follows

variable {log : List Text}

theorem insert (h : s.Follows log) (key : Text) (datum : Datum) :
    (s.insert key datum).Follows (log ++ [key]) := by
  rw [Follows, keys_insert, dedup_concat]
  exact (h.filter _).append (List.Sublist.refl _)

theorem erase (h : s.Follows log) (key : Text) : (s.erase key).Follows log := by
  rw [Follows, keys, Store.erase, keys_others]
  exact List.filter_sublist.trans h

theorem inserts (h : s.Follows log) (entries : List (Text × Datum)) :
    (s.inserts entries).Follows (log ++ entries.map Prod.fst) := by
  induction entries generalizing s log with
  | nil => simpa using h
  | cons e rest ih => simpa using ih (h.insert e.1 e.2)

/-- A datum that is put moves its key to the end, or leaves all keys where they are. -/
theorem put (h : s.Follows log) (done : s.put key datum mode allow = (s', .ok replaced)) :
    s'.Follows (log ++ if mode = .declare then [key] else []) := by
  rcases put_cases done with ⟨-, rfl, rfl, -⟩ | ⟨old, -, -, -, ⟨rfl, rfl, -⟩ | ⟨new, part, -, -, -, rfl, -⟩⟩
  · exact h.insert key datum
  · exact h.insert key datum
  · rw [if_neg part, List.append_nil, Follows, keys_update]
    exact h

theorem result (h : s.Follows log) (operation : Operation) :
    (operation.result s).Follows (log ++ operation.writes s) := by
  cases operation with
  | insert key datum => exact h.insert key datum
  | erase key => simpa [Operation.writes, Operation.result] using h.erase key
  | clear => exact List.nil_sublist _
  | merge other allow =>
    rw [Operation.result, merge, mergeEntries_fst other.distinct]
    exact h.inserts _
  | put key datum mode allow =>
    rcases done : s.put key datum mode allow with ⟨s', collision | replaced⟩
    · obtain rfl := put_error done
      cases mode <;> simpa [Operation.writes, Operation.result, done] using h
    · have follows := h.put done
      cases mode <;> simpa [Operation.writes, Operation.result, done] using follows

theorem results (h : s.Follows log) (operations : List Operation) :
    (Operation.results s operations).Follows (log ++ Operation.log s operations) := by
  induction operations generalizing s log with
  | nil => simpa [Operation.log, Operation.results] using h
  | cons operation rest ih => simpa [Operation.log, Operation.results] using ih (h.result operation)

/-- The keys are those of the log that are there, each where it occurs last. -/
theorem keys_eq (h : s.Follows log) : s.keys = log.dedup.filter s.contains := by
  have distinct := log.nodup_dedup
  refine (List.Nodup.perm_iff_eq_of_sublist distinct h List.filter_sublist).mp ?_
  refine (List.perm_ext_iff_of_nodup s.distinct (distinct.filter _)).mpr fun key => ?_
  rw [List.mem_filter, contains_iff_mem]
  exact ⟨fun mem => ⟨h.subset mem, mem⟩, And.right⟩

end Follows

/-- Whatever is done to a store that is empty at first, successful or not: no key is there twice, and the keys
stand in the order in which they were last written whole. Further values of a vector and other ones in place
of its items leave it where it is, with its cardinality, lock, description, kind, unit and path flag, and all
other entries as they are. -/
theorem keys_in_order_of_last_writes (operations : List Operation) :
    let s := Operation.results .empty operations
    s.keys.Nodup ∧ s.keys = (Operation.log .empty operations).dedup.filter s.contains ∧
      ∀ {s' : Store} {key : Text} {datum : Datum} {mode : Mode} {allow replaced : Bool}, mode ≠ .declare →
        s.put key datum mode allow = (s', .ok replaced) →
        ∃ before old data after, s.entries = before ++ (key, old) :: after ∧
          s'.entries = before ++ (key, { old with data }) :: after ∧ s'.description = s.description ∧
          old.data.compatible data = true := by
  intro s
  have follows : s.Follows (Operation.log .empty operations) :=
    @Follows.results .empty [] (List.nil_sublist _) operations
  exact ⟨s.distinct, follows.keys_eq, entries_of_put_part⟩

/-- A key moves to the end where it is declared again or taken in again, also by a merge that fails behind it,
and stays where it is while its vector grows. -/
theorem keys_in_order_of_last_writes_through_a_failed_merge :
    let one : Datum := .vector (.integer [1])
    let other : Store := (Store.empty.insert ['b'] one).insert ['a'] { one with locked := true }
    let operations : List Operation :=
      [.insert ['a'] one, .insert ['b'] one, .put ['a'] one .declare true, .merge other true, .merge other true]
    let s := Operation.results .empty operations
    Operation.log .empty operations = [['a'], ['b'], ['a'], ['b'], ['a'], ['b']] ∧ s.keys = [['a'], ['b']] ∧
      ∃ s', s.put ['b'] one .append true = (s', .ok false) ∧
        ∃ before old data after, s.entries = before ++ (['b'], old) :: after ∧
          s'.entries = before ++ (['b'], { old with data }) :: after ∧ s'.description = s.description ∧
          old.data.compatible data = true := by
  intro one other operations s
  obtain ⟨-, order, stays⟩ := keys_in_order_of_last_writes operations
  have log : Operation.log .empty operations = [['a'], ['b'], ['a'], ['b'], ['a'], ['b']] := by decide
  have grown : s.put ['b'] one .append true = (s.update ['b'] (.vector (.integer [1, 1])), .ok false) := by
    decide
  refine ⟨log, ?_, _, grown, stays (by decide) grown⟩
  rw [order, log]
  decide

end Store
end TypedProperties
