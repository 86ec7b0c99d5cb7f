import TypedProperties.Proofs.Text.Cut
import TypedProperties.Variant.Template

/-! References in segments: a segment without one stays as it is, and without any variants set each is
replaced by its default, so that the segment loses the brackets of its references. -/
namespace TypedProperties

namespace Template

def sourceOf (references : List (Text × Text)) : Text :=
  references.flatMap fun r => openTag ++ r.1 ++ closeTag :: r.2

def source (t : Template) : Text :=
  t.start ++ sourceOf t.references ++ (t.unclosed.map (openTag ++ ·)).getD []

theorem source_ofText (t : Text) : (ofText t).source = t := by
  fun_induction ofText t with
  | case1 t none => simp [source, sourceOf]
  | case2 t before after cut none =>
    rw [Text.append_of_cutOn cut]
    simp [source, sourceOf]
  | case3 t before after cut target rest close next ih =>
    rw [Text.append_of_cutOn cut, (Text.cutAt_eq_some_iff.mp close).1]
    simp only [source, sourceOf, next, List.flatMap_cons, List.append_assoc, List.cons_append] at ih ⊢
    rw [ih]

theorem ofText_eq (t : Text) : ofText t =
    match Text.cutOn openTag t with
    | none => ⟨t, [], none⟩
    | some (before, after) =>
      match Text.cutAt closeTag after with
      | none => ⟨before, [], some after⟩
      | some (target, rest) =>
        ⟨before, (target, (ofText rest).start) :: (ofText rest).references, (ofText rest).unclosed⟩ := by
  rw [ofText]
  split
  next cut => rw [cut]
  next cut =>
    rw [cut]
    dsimp only
    split
    next close => rw [close]
    next close => rw [close]

theorem references_of_isInfix {t : Text} (h : openTag <:+: t) :
    (ofText t).references ≠ [] ∨ (ofText t).unclosed ≠ none := by
  rw [ofText_eq]
  split
  next none => exact absurd h (Text.cutOn_eq_none_iff.mp none)
  next =>
    split
    · exact .inr (by simp)
    · exact .inl (by simp)

theorem valueOf_empty {removeQuotes : Bool} {reference v : Text}
    (h : valueOf .empty removeQuotes reference = .ok v) : ∃ name, reference = name ++ '|' :: v := by
  have inactive : Repository.empty.isActive = false := rfl
  unfold valueOf at h
  cases cut : Text.cutAt '|' reference with
  | none =>
    simp only [cut, inactive] at h
    split at h <;> cases h
  | some r =>
    obtain ⟨name, fallback⟩ := r
    simp only [cut, inactive] at h
    split at h
    · cases h
    · obtain rfl := Except.ok.inj h
      exact ⟨name, (Text.cutAt_eq_some_iff.mp cut).1⟩

theorem fill_empty {removeQuotes : Bool} {references : List (Text × Text)} {t : Text}
    (h : fill (valueOf .empty removeQuotes) references = .ok t) :
    t.Sublist (sourceOf references) ∧ t.count '(' + references.length ≤ (sourceOf references).count '(' := by
  induction references generalizing t with
  | nil =>
    obtain rfl := Except.ok.inj h
    exact ⟨.slnil, by simp [sourceOf]⟩
  | cons r rest ih =>
    obtain ⟨reference, after⟩ := r
    unfold fill at h
    split at h
    · cases h
    next v value =>
      split at h
      · cases h
      next filled done =>
        obtain rfl := Except.ok.inj h
        obtain ⟨name, rfl⟩ := valueOf_empty value
        obtain ⟨kept, brackets⟩ := ih done
        have e : sourceOf ((name ++ '|' :: v, after) :: rest) =
            (openTag ++ (name ++ ['|'])) ++ (v ++ ([closeTag] ++ (after ++ sourceOf rest))) := by
          simp [sourceOf]
        have opening : openTag.count '(' = 1 := by decide
        rw [e]
        constructor
        · rw [List.append_assoc]
          exact (((kept.append_left after).trans (List.sublist_append_right _ _)).append_left v).trans
            (List.sublist_append_right _ _)
        · simp only [List.count_append, opening, List.length_cons]
          omega

theorem expand_empty {removeQuotes : Bool} {template : Template} {t : Text}
    (h : template.expand (valueOf .empty removeQuotes) = .ok t) :
    template.unclosed = none ∧ t.Sublist template.source ∧
      t.count '(' + template.references.length ≤ template.source.count '(' := by
  unfold expand at h
  split at h
  · cases h
  next filled done =>
    split at h
    · cases h
    next closed =>
      obtain rfl := Except.ok.inj h
      obtain ⟨kept, brackets⟩ := fill_empty done
      have e : template.source = template.start ++ sourceOf template.references := by
        simp [source, closed]
      refine ⟨closed, ?_, ?_⟩
      · rw [e]
        exact kept.append_left _
      · simp only [e, List.count_append]
        omega

end Template

namespace Repository

/-- While nothing is set, preprocessing takes away what makes up references, among that brackets. -/
theorem preprocess_empty {removeQuotes : Bool} {segment t : Text}
    (h : empty.preprocess removeQuotes segment = .ok t) :
    t.Sublist segment ∧ (Template.openTag <:+: segment → t.count '(' < segment.count '(') := by
  obtain ⟨closed, kept, brackets⟩ := Template.expand_empty h
  rw [Template.source_ofText] at kept brackets
  refine ⟨kept, fun inside => ?_⟩
  have some := (Template.references_of_isInfix inside).resolve_right (absurd closed)
  have := List.length_pos_iff.mpr some
  omega

variable {repository : Repository} {removeQuotes : Bool} {s t filled : Text}

theorem preprocess_eq (repository : Repository) (removeQuotes : Bool) (t : Text) :
    repository.preprocess removeQuotes t =
      match Text.cutOn Template.openTag t with
      | none => .ok t
      | some (before, after) =>
        match Text.cutAt Template.closeTag after with
        | none => .error (.unclosedReference (Template.openTag ++ after))
        | some (reference, rest) =>
          match Template.valueOf repository removeQuotes reference with
          | .error fault => .error fault
          | .ok v => (repository.preprocess removeQuotes rest).map fun r => before ++ v ++ r := by
  rw [preprocess, Template.ofText_eq]
  cases Text.cutOn Template.openTag t with
  | none => simp [Template.expand, Template.fill]
  | some r =>
    obtain ⟨before, after⟩ := r
    dsimp only
    cases Text.cutAt Template.closeTag after with
    | none => rfl
    | some r =>
      obtain ⟨reference, rest⟩ := r
      simp only [preprocess, Template.expand, Template.fill]
      cases Template.valueOf repository removeQuotes reference with
      | error fault => rfl
      | ok v =>
        dsimp only
        cases Template.fill (Template.valueOf repository removeQuotes) (Template.ofText rest).references with
        | error fault => rfl
        | ok r => cases (Template.ofText rest).unclosed <;> simp [Except.map]

theorem preprocess_of_not_infix (repository : Repository) (removeQuotes : Bool)
    {segment : Text} (h : ¬ Template.openTag <:+: segment) :
    repository.preprocess removeQuotes segment = .ok segment := by
  rw [preprocess_eq, Text.cutOn_eq_none_iff.mpr h]

theorem preprocess_nil (repository : Repository) (removeQuotes : Bool) :
    repository.preprocess removeQuotes [] = .ok [] :=
  preprocess_of_not_infix repository removeQuotes (by decide)

theorem length_lt_of_cut {before after reference rest : Text}
    (cut : Text.cutOn Template.openTag s = some (before, after))
    (close : Text.cutAt Template.closeTag after = some (reference, rest)) : rest.length < s.length := by
  rw [Text.append_of_cutOn cut, (Text.cutAt_eq_some_iff.mp close).1]
  simp only [List.length_append, List.length_cons]
  omega

/-- Text behind a closed segment is preprocessed by itself, if something stands between that is no part
of an opening. -/
theorem preprocess_append (h : repository.preprocess removeQuotes s = .ok filled) {c : Char}
    (absent : c ∉ Template.openTag) (t : Text) :
    repository.preprocess removeQuotes (s ++ c :: t) =
      (repository.preprocess removeQuotes t).map fun r => filled ++ c :: r := by
  induction n : s.length using Nat.strongRecOn generalizing s filled with
  | ind n ih =>
    rw [preprocess_eq] at h
    split at h
    next cut =>
      obtain rfl := Except.ok.inj h
      rw [preprocess_eq, Text.cutOn_append_cons absent cut, preprocess_eq repository removeQuotes t]
      cases Text.cutOn Template.openTag t with
      | none => rfl
      | some r =>
        obtain ⟨before, after⟩ := r
        simp only [Option.map_some]
        cases Text.cutAt Template.closeTag after with
        | none => rfl
        | some r =>
          obtain ⟨reference, rest⟩ := r
          dsimp only
          cases Template.valueOf repository removeQuotes reference with
          | error fault => rfl
          | ok v => cases repository.preprocess removeQuotes rest <;> simp [Except.map]
    next before after cut =>
      split at h
      next => cases h
      next reference rest close =>
        split at h
        next => cases h
        next v value =>
          cases done : repository.preprocess removeQuotes rest with
          | error fault => simp [done, Except.map] at h
          | ok inner =>
            obtain rfl : before ++ v ++ inner = filled := by simpa [done, Except.map] using h
            have shorter := n ▸ length_lt_of_cut cut close
            rw [preprocess_eq, Text.cutOn_append cut]
            simp only [Text.cutAt_append close, value, ih rest.length shorter done rfl]
            cases repository.preprocess removeQuotes t <;> simp [Except.map]

theorem preprocess_of_append_blank (h : repository.preprocess removeQuotes (s ++ t) = .ok filled)
    (blank : Text.isBlank t = true) : ∃ r, repository.preprocess removeQuotes s = .ok r := by
  induction n : s.length using Nat.strongRecOn generalizing s filled with
  | ind n ih =>
    rw [preprocess_eq]
    split
    next => exact ⟨_, rfl⟩
    next before after cut =>
      rw [preprocess_eq, Text.cutOn_append cut] at h
      dsimp only at h
      split
      next close =>
        have closing : Text.isSpace Template.closeTag = false := by decide
        have close' : Text.cutAt Template.closeTag (after ++ t) = none := by
          rw [Text.cutAt_eq_none_iff] at close ⊢
          intro mem
          rcases List.mem_append.mp mem with mem | mem
          · exact close mem
          · simp [List.all_eq_true.mp blank _ mem] at closing
        rw [close'] at h
        cases h
      next reference rest close =>
        rw [Text.cutAt_append close] at h
        dsimp only at h
        split at h
        next => cases h
        next v value =>
          cases done : repository.preprocess removeQuotes (rest ++ t) with
          | error fault => simp [done, Except.map] at h
          | ok inner =>
            obtain ⟨r, done⟩ := ih rest.length (n ▸ length_lt_of_cut cut close) done rfl
            exact ⟨_, by simp only [done]; rfl⟩

end Repository
end TypedProperties
