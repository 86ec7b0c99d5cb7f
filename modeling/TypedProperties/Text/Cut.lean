import TypedProperties.Text.Basic

/-! Cutting text at a mark, at a given piece of text, or at its quotes. -/
namespace TypedProperties
namespace Text

def cutAt (mark : Char) : Text → Option (Text × Text)
  | [] => none
  | c :: cs =>
    if c = mark then some ([], cs)
    else (cutAt mark cs).map fun r => (c :: r.1, r.2)

theorem cutAt_eq_some_iff {mark : Char} {t a b : Text} :
    cutAt mark t = some (a, b) ↔ t = a ++ mark :: b ∧ mark ∉ a := by
  induction t generalizing a with
  | nil => simp [cutAt]
  | cons c t ih =>
    by_cases hc : c = mark
    · subst hc
      cases a with
      | nil => simp [cutAt, eq_comm]
      | cons d a => simp +contextual [cutAt]
    · cases a with
      | nil => simp [cutAt, hc]
      | cons d a =>
        simp only [cutAt, hc, if_false, Option.map_eq_some_iff, Prod.mk.injEq, List.cons_append,
          List.cons.injEq, List.mem_cons, not_or]
        constructor
        · rintro ⟨⟨a', b'⟩, h, ⟨rfl, rfl⟩, rfl⟩
          have := ih.mp h
          exact ⟨⟨rfl, this.1⟩, fun h => hc h.symm, this.2⟩
        · rintro ⟨⟨rfl, h⟩, -, ha⟩
          exact ⟨(a, b), ih.mpr ⟨h, ha⟩, ⟨rfl, rfl⟩, rfl⟩

theorem cutAt_eq_none_iff {mark : Char} {t : Text} : cutAt mark t = none ↔ mark ∉ t := by
  induction t with
  | nil => simp [cutAt]
  | cons c t ih =>
    by_cases hc : c = mark
    · simp [cutAt, hc]
    · simp [cutAt, hc, ih, Ne.symm hc]

def dropLead : Text → Text → Option Text
  | [], t => some t
  | _ :: _, [] => none
  | p :: ps, c :: cs => if p = c then dropLead ps cs else none

theorem dropLead_eq_some_iff {lead t r : Text} : dropLead lead t = some r ↔ t = lead ++ r := by
  induction lead generalizing t with
  | nil => simp [dropLead]
  | cons p ps ih =>
    cases t with
    | nil => simp [dropLead]
    | cons c cs =>
      by_cases h : p = c
      · simp [dropLead, h, ih]
      · simp [dropLead, h, Ne.symm h]

def cutOn (piece : Text) : Text → Option (Text × Text)
  | [] => (dropLead piece []).map fun r => ([], r)
  | c :: cs =>
    match dropLead piece (c :: cs) with
    | some r => some ([], r)
    | none => (cutOn piece cs).map fun r => (c :: r.1, r.2)

theorem append_of_cutOn {piece t a b : Text} (h : cutOn piece t = some (a, b)) :
    t = a ++ piece ++ b := by
  induction t generalizing a with
  | nil =>
    obtain ⟨r, hr, he⟩ := Option.map_eq_some_iff.mp h
    have := dropLead_eq_some_iff.mp hr
    simp_all
  | cons c t ih =>
    rw [cutOn] at h
    split at h
    next r hr =>
      have := dropLead_eq_some_iff.mp hr
      simp_all
    next hr =>
      obtain ⟨⟨a', b'⟩, hc, he⟩ := Option.map_eq_some_iff.mp h
      obtain ⟨rfl, rfl⟩ := Prod.mk.inj he
      simpa using ih hc

def dropMark (mark : Char) : Text → Option Text
  | [] => none
  | [c] => if c = mark then some [] else none
  | c :: d :: cs => (dropMark mark (d :: cs)).map (c :: ·)

theorem dropMark_eq_some_iff {mark : Char} {t r : Text} :
    dropMark mark t = some r ↔ t = r ++ [mark] := by
  fun_induction dropMark mark t generalizing r with
  | case1 => simp
  | case2 => rcases r with _ | ⟨e, r⟩ <;> simp
  | case3 c h => rcases r with _ | ⟨e, r⟩ <;> simp [h]
  | case4 c d t ih =>
    rcases r with _ | ⟨e, r⟩
    · simp
    · simp only [Option.map_eq_some_iff, ih, List.cons_append, List.cons.injEq]
      constructor
      · rintro ⟨a, ha, rfl, rfl⟩
        exact ⟨rfl, ha⟩
      · rintro ⟨rfl, ha⟩
        exact ⟨r, ha, rfl, rfl⟩

/-- The parts between the marks; a text without a mark is one part. -/
def splitAll (mark : Char) : Text → List Text
  | [] => [[]]
  | c :: cs =>
    if c = mark then [] :: splitAll mark cs
    else
      match splitAll mark cs with
      | [] => [[c]]
      | p :: ps => (c :: p) :: ps

/-- The text without one pair of equal quotes around it, double or single. -/
def stripQuotes : Text → Text
  | [] => []
  | q :: t =>
    if q = '"' ∨ q = '\'' then (dropMark q t).getD (q :: t) else q :: t

end Text
end TypedProperties
