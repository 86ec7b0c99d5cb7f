/-! What is found in a list of entries. -/
namespace TypedProperties

/-- Where something is found at one member at most, the order of the members does not count. -/
theorem findSome?_perm {α β : Type} {f : α → Option β} {members members' : List α} (same : members.Perm members')
    (alone : members.Pairwise fun a b => f a = none ∨ f b = none) : members.findSome? f = members'.findSome? f := by
  induction same with
  | nil => rfl
  | cons a _ ih =>
    rw [List.findSome?_cons, List.findSome?_cons, ih (List.pairwise_cons.mp alone).2]
  | swap a b members =>
    have one : f b = none ∨ f a = none := (List.pairwise_cons.mp alone).1 a List.mem_cons_self
    simp only [List.findSome?_cons]
    rcases one with none | none <;> rw [none]
  | trans first _ ih ih' => exact (ih alone).trans (ih' (first.pairwise alone Or.symm))

variable {α β : Type} [BEq α] [LawfulBEq α] {key other : α} {v : β} {entries : List (α × β)}

theorem mem_of_lookup (h : entries.lookup key = some v) : (key, v) ∈ entries := by
  obtain ⟨front, behind, rfl, -⟩ := List.lookup_eq_some_iff.mp h
  simp

theorem lookup_reverse (distinct : (entries.map Prod.fst).Nodup) :
    entries.reverse.lookup key = entries.lookup key := by
  induction entries with
  | nil => rfl
  | cons e entries ih =>
    obtain ⟨k, v⟩ := e
    obtain ⟨absent, distinct⟩ := List.nodup_cons.mp distinct
    rw [List.reverse_cons, List.lookup_append, ih distinct, List.lookup_cons]
    by_cases here : key = k
    · subst here
      have later : entries.lookup key = none := List.lookup_eq_none_iff.mpr fun e mem => by
        simpa using fun same : key = e.1 => absent (List.mem_map.mpr ⟨e, mem, same.symm⟩)
      simp [later]
    · have miss : (key == k) = false := by simpa using here
      simp [List.lookup_cons, miss]

/-- Of the entries with some keys, those are found whose key is one of them. -/
theorem lookup_filter (p : α → Bool) (entries : List (α × β)) :
    (entries.filter fun e => p e.1).lookup key = if p key then entries.lookup key else none := by
  induction entries with
  | nil => simp
  | cons e entries ih =>
    obtain ⟨k, v⟩ := e
    by_cases here : key = k
    · subst here
      cases kept : p key <;> simp [kept, ih]
    · have miss : (key == k) = false := by simpa using here
      cases kept : p k <;> simp [kept, ih, List.lookup_cons, miss]

theorem lookup_filter_ne [DecidableEq α] (different : other ≠ key) (entries : List (α × β)) :
    (entries.filter (·.1 ≠ key)).lookup other = entries.lookup other := by
  rw [lookup_filter fun k => decide (k ≠ key), if_pos (decide_eq_true different)]

/-- What is found where a value comes in place of the one for its key, behind all others. -/
theorem lookup_filter_concat [DecidableEq α] (key other : α) (v : β) (entries : List (α × β)) :
    (entries.filter (·.1 ≠ key) ++ [(key, v)]).lookup other = if other = key then some v else entries.lookup other := by
  rw [List.lookup_append]
  by_cases here : other = key
  · subst here
    rw [lookup_filter fun k => decide (k ≠ other)]
    simp
  · have miss : (other == key) = false := by simpa using here
    rw [lookup_filter_ne here, if_neg here]
    simp [List.lookup_cons, miss]

end TypedProperties
