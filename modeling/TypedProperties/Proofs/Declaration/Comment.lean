import TypedProperties.Proofs.Declaration.Sound
import TypedProperties.Proofs.Token.Comment

/-! A comment behind a declaration: the head is read as before, and so are the values in front of the
comment. -/
namespace TypedProperties

namespace Text

/-- A text without and with a comment behind it. A text without anything in it begins with the
comment. -/
def Annotated (blank c s s' : Text) : Prop :=
  s' = s ++ (blank ++ ' ' :: '#' :: c) ∨ s = [] ∧ s' = '#' :: c

theorem isSpace_mark : isSpace '#' = false := by decide

theorem trimEnd_comment (blank c : Text) :
    trimEnd (blank ++ ' ' :: '#' :: c) = blank ++ ' ' :: '#' :: trimEnd c := by
  have e (c : Text) : blank ++ ' ' :: '#' :: c = (blank ++ [' ']) ++ '#' :: c := by simp
  rw [e, trimEnd_append, if_neg (by simp [isSpace_mark]), trimEnd_cons_solid isSpace_mark, ← e]

theorem trim_append_comment {t : Text} (solid : isBlank t = false) (c : Text) :
    ∃ blank, isBlank blank = true ∧ blank <:+ t ∧
      trim (t ++ ' ' :: '#' :: c) = trim t ++ (blank ++ ' ' :: '#' :: trimEnd c) := by
  obtain ⟨blank, spaces, e⟩ := trimEnd_append_rest t
  refine ⟨blank, spaces, ⟨_, e⟩, ?_⟩
  have some : isBlank (trimEnd t) = false := by
    rw [← e, isBlank_append, spaces, Bool.and_true] at solid
    exact solid
  calc trim (t ++ ' ' :: '#' :: c)
    _ = trim (trimEnd t ++ (blank ++ ' ' :: '#' :: c)) := by rw [← List.append_assoc, e]
    _ = trimEnd (trim t ++ (blank ++ ' ' :: '#' :: c)) := by
      rw [trim, trimStart_append, if_neg (by simp [some]), trimStart_trimEnd]
    _ = trim t ++ (blank ++ ' ' :: '#' :: trimEnd c) := by
      rw [trimEnd_append, if_neg (by simp [isSpace_mark]), trimEnd_comment]

/-- Trimming leaves a comment where it is, but for the white space in front of it where nothing else
stands there. -/
theorem annotated_trim {t blank c : Text} (tight : TightEnd t) (spaces : isBlank blank = true)
    (last : TightEnd c) : Annotated blank c (trim t) (trim (t ++ (blank ++ ' ' :: '#' :: c))) := by
  by_cases none : isBlank t = true
  · refine .inr ⟨by rw [trim, trimStart_of_blank none]; rfl, ?_⟩
    have lead : isBlank (t ++ (blank ++ [' '])) = true := by
      simp [none, spaces, (by decide : isSpace ' ' = true)]
    have e : t ++ (blank ++ ' ' :: '#' :: c) = t ++ (blank ++ [' ']) ++ '#' :: c := by simp
    rw [e, trim_blank_append lead, trim, trimStart_cons_solid isSpace_mark,
      trimEnd_cons_solid isSpace_mark, last.trimEnd]
  · have bare : trim t = trimStart t := by rw [← trimStart_trimEnd, tight.trimEnd]
    refine .inl ?_
    rw [bare, trim, trimStart_append, if_neg none, trimEnd_append, if_neg (by simp [isSpace_mark]),
      trimEnd_comment, last.trimEnd]

end Text

open ValueToken (Commented)

namespace Readout

variable {α : Type} {kind : Kind} {key : Text} {read : ValueToken → Option α} {n : Nat}
  {ls ls' rest : Rest} {units : UnitSystem} {realWithUnit : Bool} {d : Declaration} {data : Data}

theorem takeValue_commented {v : α} (h : Commented ls ls') (taken : takeValue kind key read ls = .ok (v, rest)) :
    ∃ rest', takeValue kind key read ls' = .ok (v, rest') ∧ Commented rest rest' := by
  cases h with
  | comment => cases taken
  | commented => cases taken
  | broken => cases taken
  | next behind =>
    obtain ⟨l, e, found⟩ := takeValue_eq taken
    obtain ⟨rfl, rfl⟩ := List.cons.inj e
    refine ⟨_, ?_, behind⟩
    simp only [takeValue] at taken ⊢
    split at taken
    · cases taken
    · cases taken
    · simp_all

theorem takeValues_commented {vs : List α} (h : Commented ls ls')
    (taken : takeValues kind key read n ls = .ok (vs, rest)) :
    ∃ rest', takeValues kind key read n ls' = .ok (vs, rest') ∧ Commented rest rest' := by
  induction n generalizing ls ls' vs with
  | zero =>
    obtain ⟨rfl, rfl⟩ := Prod.mk.inj (Except.ok.inj taken)
    exact ⟨ls', rfl, h⟩
  | succ n ih =>
    unfold takeValues at taken
    split at taken
    next => cases taken
    next v more here =>
      split at taken
      next => cases taken
      next vs' rest' behind =>
        obtain ⟨rfl, rfl⟩ := Prod.mk.inj (Except.ok.inj taken)
        obtain ⟨more', here', h⟩ := takeValue_commented h here
        obtain ⟨rest'', behind', h⟩ := ih h behind
        exact ⟨rest'', by rw [takeValues, here']; dsimp only; rw [behind'], h⟩

theorem takeUnit_commented {clause : UnitClause} {unit : Option (Text × Float)} (h : Commented ls ls')
    (taken : takeUnit units realWithUnit key clause ls = .ok (unit, rest)) :
    ∃ rest', takeUnit units realWithUnit key clause ls' = .ok (unit, rest') := by
  cases h with
  | comment =>
    obtain ⟨rfl, -⟩ := Prod.mk.inj (Except.ok.inj taken)
    exact ⟨_, rfl⟩
  | commented =>
    obtain ⟨rfl, -⟩ := Prod.mk.inj (Except.ok.inj taken)
    exact ⟨_, rfl⟩
  | broken => cases taken
  | @next token _ _ _ _ _ ls' behind =>
    cases token with
    | comment =>
      obtain ⟨rfl, -⟩ := Prod.mk.inj (Except.ok.inj taken)
      exact ⟨_, rfl⟩
    | broken => cases taken
    | _ =>
      simp only [takeUnit] at taken ⊢
      split_ifs at taken ⊢
      split at taken
      · cases taken
      next label found =>
        split_ifs at taken with same
        obtain ⟨rfl, -⟩ := Prod.mk.inj (Except.ok.inj taken)
        exact ⟨ls', by simp [same]⟩
      next found plain =>
        obtain ⟨rfl, -⟩ := Prod.mk.inj (Except.ok.inj taken)
        exact ⟨ls', rfl⟩

theorem takeReals_commented (h : Commented ls ls') (taken : takeReals units realWithUnit d ls = .ok (data, rest)) :
    ∃ rest', takeReals units realWithUnit d ls' = .ok (data, rest') := by
  unfold takeReals at taken ⊢
  split at taken
  next => cases taken
  next vs more values =>
    obtain ⟨more', values', behind⟩ := takeValues_commented h values
    rw [values']
    dsimp only
    split at taken
    next =>
      obtain ⟨rfl, -⟩ := Prod.mk.inj (Except.ok.inj taken)
      exact ⟨_, rfl⟩
    next =>
      obtain ⟨rfl, -⟩ := Prod.mk.inj (Except.ok.inj taken)
      exact ⟨_, rfl⟩
    next =>
      split at taken
      next => cases taken
      next unit =>
        obtain ⟨rfl, -⟩ := Prod.mk.inj (Except.ok.inj taken)
        obtain ⟨rest', unit'⟩ := takeUnit_commented behind unit
        exact ⟨rest', by rw [unit']⟩
      next unit =>
        obtain ⟨rfl, -⟩ := Prod.mk.inj (Except.ok.inj taken)
        obtain ⟨rest', unit'⟩ := takeUnit_commented behind unit
        exact ⟨rest', by rw [unit']⟩

theorem takeData_commented (h : Commented ls ls') (taken : takeData units realWithUnit d ls = .ok (data, rest)) :
    ∃ rest', takeData units realWithUnit d ls' = .ok (data, rest') := by
  cases kind : d.kind with
  | real =>
    simp only [takeData, kind] at taken ⊢
    exact takeReals_commented h taken
  | _ =>
    simp only [takeData, kind] at taken ⊢
    obtain ⟨⟨vs, more⟩, values, made⟩ := map_eq_ok.mp taken
    obtain ⟨rfl, -⟩ := Prod.mk.inj made
    obtain ⟨more', values', -⟩ := takeValues_commented h values
    exact ⟨more', by rw [values']; rfl⟩

theorem ofSegment_annotated {segment segment' blank c : Text} {readout : Readout}
    (h : ofSegment units realWithUnit d segment = .ok readout)
    (gaps : ∀ x ∈ blank, isGap x = true) (annotated : Text.Annotated blank c segment segment') :
    ∃ readout', ofSegment units realWithUnit d segment' = .ok readout' ∧ readout'.data = readout.data := by
  have commented : Commented (ValueToken.scan segment) (ValueToken.scan segment') := by
    obtain rfl | ⟨rfl, rfl⟩ := annotated
    · have gap : ∀ x ∈ blank ++ [' '], isGap x = true := by
        intro x mem
        rcases List.mem_append.mp mem with mem | mem
        · exact gaps x mem
        · obtain rfl := List.mem_singleton.mp mem
          rfl
      simpa using ValueToken.commented_scan segment (by simp) gap c
    · obtain ⟨raw, rest, e⟩ := ValueToken.scan_comment c
      rw [e, ValueToken.scan]
      exact .comment
  obtain ⟨⟨data, rest⟩, taken, rfl⟩ := map_eq_ok.mp h
  obtain ⟨rest', taken'⟩ := takeData_commented commented taken
  exact ⟨⟨data, trailingOf rest'⟩, by rw [ofSegment, taken']; rfl, rfl⟩

end Readout

namespace Declaration

variable {units : UnitSystem} {realWithUnit append : Bool} {line values : Text} {ls : Rest} {d : Declaration}

theorem ofHead_values (h : ofHead units realWithUnit line append values ls = .ok d) (line' values' : Text) :
    ofHead units realWithUnit line' append values' ls = .ok { d with values := Text.trim values' } := by
  unfold ofHead at h ⊢
  split at h
  · obtain ⟨⟨index, behind⟩, indexed, h⟩ := bind_eq_ok.mp h
    obtain ⟨⟨typing, behind⟩, typed, h⟩ := bind_eq_ok.mp h
    dsimp only at h
    split at h
    · cases h
    next =>
      obtain ⟨mode, moded, h⟩ := bind_eq_ok.mp h
      obtain rfl := Except.ok.inj h
      simp only [indexed, typed, moded, bind, Except.bind]
      rfl
  · cases h

/-- A comment behind a declaration belongs to its values, and to these only. -/
theorem ofLine_annotated {blank c : Text} (tight : Text.TightEnd line)
    (h : ofLine units realWithUnit line = .ok d) (spaces : Text.isBlank blank = true)
    (last : Text.TightEnd c) :
    ∃ values, ofLine units realWithUnit (line ++ (blank ++ ' ' :: '#' :: c)) = .ok { d with values } ∧
      Text.Annotated blank c d.values values := by
  unfold ofLine at h
  split at h
  next => cases h
  next head behind cut =>
    obtain ⟨e, noMark⟩ := Text.cutAt_eq_some_iff.mp cut
    have cut' : Text.cutAt assignMark (line ++ (blank ++ ' ' :: '#' :: c)) =
        some (head, behind ++ (blank ++ ' ' :: '#' :: c)) :=
      Text.cutAt_eq_some_iff.mpr ⟨by rw [e]; simp, noMark⟩
    refine ⟨_, by rw [ofLine, cut']; exact ofHead_values h _ _, ?_⟩
    rw [(ofHead_eq h).2.2]
    have tight : Text.TightEnd behind := fun x hx => tight x (by
      rw [e, List.getLast?_append, List.getLast?_cons, hx]
      rfl)
    exact Text.annotated_trim tight spaces last

end Declaration
end TypedProperties
