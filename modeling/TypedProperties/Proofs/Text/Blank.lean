import Mathlib.Tactic.SplitIfs
import TypedProperties.Text.Blank

/-! Trimming: what it takes away and what it leaves. -/
namespace TypedProperties
namespace Text

/-- What holds of the characters of a text is decided on these, not on all characters. -/
instance (priority := high) decidableForallMem (p : Char → Prop) [DecidablePred p] (t : Text) :
    Decidable (∀ c ∈ t, p c) :=
  List.decidableBAll p t

instance (priority := high) decidableForallMemOption (p : Char → Prop) [DecidablePred p]
    (c? : Option Char) : Decidable (∀ c ∈ c?, p c) :=
  Option.decidableForallMem c?

@[simp] theorem isBlank_nil : isBlank [] = true := rfl

@[simp] theorem isBlank_cons (c : Char) (t : Text) : isBlank (c :: t) = (isSpace c && isBlank t) := rfl

@[simp] theorem isBlank_append (s t : Text) : isBlank (s ++ t) = (isBlank s && isBlank t) := by
  simp [isBlank]

@[simp] theorem trimStart_nil : trimStart [] = [] := rfl

@[simp] theorem trimEnd_nil : trimEnd [] = [] := rfl

theorem trimEnd_cons (c : Char) (t : Text) :
    trimEnd (c :: t) = if isBlank (c :: t) then [] else c :: trimEnd t := by
  rw [trimEnd]
  cases h : trimEnd t with
  | nil =>
    have blank := trimEnd_eq_nil.mp h
    cases hc : isSpace c <;> simp [hc, blank]
  | cons d ds =>
    have blank : isBlank t = false := by
      rw [← Bool.not_eq_true, ← trimEnd_eq_nil, h]
      simp
    simp [blank]

theorem trimEnd_cons_solid {c : Char} (solid : isSpace c = false) (t : Text) :
    trimEnd (c :: t) = c :: trimEnd t := by
  rw [trimEnd_cons, if_neg (by simp [solid])]

theorem trimEnd_append (s t : Text) :
    trimEnd (s ++ t) = if isBlank t then trimEnd s else s ++ trimEnd t := by
  induction s with
  | nil => by_cases h : isBlank t = true <;> simp [h]
  | cons c s ih =>
    rw [List.cons_append, trimEnd_cons, trimEnd_cons, ih]
    by_cases h : isBlank t = true <;> simp [h]

theorem trimEnd_append_blank {t : Text} (s : Text) (h : isBlank t = true) :
    trimEnd (s ++ t) = trimEnd s := by
  rw [trimEnd_append, if_pos h]

theorem trimEnd_of_getLast? {t : Text} (h : ∀ c ∈ t.getLast?, isSpace c = false) : trimEnd t = t := by
  induction t with
  | nil => rfl
  | cons c t ih =>
    cases t with
    | nil => simp [trimEnd, h c (by simp)]
    | cons d t =>
      have tail := ih fun e he => h e (by simpa [List.getLast?_cons_cons] using he)
      rw [trimEnd, tail]

/-- The end of a text is no white space. -/
def TightEnd (t : Text) : Prop := ∀ c ∈ t.getLast?, isSpace c = false

theorem TightEnd.append {s t : Text} (hs : TightEnd s) (ht : TightEnd t) : TightEnd (s ++ t) := by
  intro c hc
  rw [List.getLast?_append] at hc
  cases last : t.getLast? with
  | none => exact hs c (by simpa [last] using hc)
  | some d => exact ht c (by simpa [last] using hc)

theorem TightEnd.append_of_ne_nil {t : Text} (s : Text) (ht : TightEnd t) (some : t ≠ []) :
    TightEnd (s ++ t) := by
  intro c hc
  rw [List.getLast?_append, List.getLast?_eq_some_getLast some] at hc
  exact ht c (by rw [List.getLast?_eq_some_getLast some]; exact hc)

theorem TightEnd.trimEnd {t : Text} (h : TightEnd t) : Text.trimEnd t = t := trimEnd_of_getLast? h

theorem tightEnd_trimEnd (t : Text) : TightEnd (Text.trimEnd t) := by
  induction t with
  | nil => rintro c ⟨⟩
  | cons c t ih =>
    rw [trimEnd_cons]
    split_ifs with blank
    · rintro d ⟨⟩
    · intro d hd
      cases rest : Text.trimEnd t with
      | nil =>
        obtain rfl : c = d := by simpa [rest] using hd
        simpa [trimEnd_eq_nil.mp rest] using blank
      | cons e r =>
        rw [rest, List.getLast?_cons_cons] at hd
        exact ih d (rest ▸ hd)

theorem trimStart_cons (c : Char) (t : Text) :
    trimStart (c :: t) = if isSpace c then trimStart t else c :: t := by
  rw [trimStart, List.dropWhile_cons]
  rfl

theorem trimStart_cons_solid {c : Char} (solid : isSpace c = false) (t : Text) :
    trimStart (c :: t) = c :: t := by
  rw [trimStart_cons, if_neg (by simp [solid])]

theorem trimStart_blank_append {s : Text} (h : isBlank s = true) (t : Text) :
    trimStart (s ++ t) = trimStart t := by
  induction s with
  | nil => rfl
  | cons c s ih =>
    obtain ⟨hc, hs⟩ : isSpace c = true ∧ isBlank s = true := by simpa using h
    rw [List.cons_append, trimStart_cons, if_pos hc, ih hs]

theorem trimStart_of_head? {t : Text} (h : ∀ c ∈ t.head?, isSpace c = false) : trimStart t = t := by
  cases t with
  | nil => rfl
  | cons c t => exact trimStart_cons_solid (h c rfl) t

theorem head?_trimStart {t : Text} : ∀ c ∈ (trimStart t).head?, isSpace c = false := by
  intro c hc
  have := List.head?_dropWhile_not isSpace t
  rw [trimStart] at hc
  cases h : (List.dropWhile isSpace t).head? with
  | none => simp [h] at hc
  | some d =>
    obtain rfl : d = c := by simpa [h] using hc
    simpa [h] using this

theorem trimStart_append (s t : Text) :
    trimStart (s ++ t) = if isBlank s then trimStart t else trimStart s ++ t := by
  induction s with
  | nil => simp
  | cons c s ih =>
    rw [List.cons_append, trimStart_cons, trimStart_cons, ih]
    by_cases hc : isSpace c = true <;> by_cases hs : isBlank s = true <;> simp [hc, hs]

theorem trimStart_of_blank {t : Text} (h : isBlank t = true) : trimStart t = [] := by
  rw [← List.append_nil t, trimStart_blank_append h]
  rfl

theorem trimStart_trimEnd (t : Text) : trimStart (trimEnd t) = trim t := by
  rw [trim]
  induction t with
  | nil => rfl
  | cons c t ih =>
    rw [trimEnd_cons, trimStart_cons]
    by_cases hc : isSpace c = true
    · by_cases ht : isBlank t = true
      · simp [hc, ht, trimStart_of_blank]
      · simp [hc, ht, trimStart_cons, ih]
    · simp [hc, trimStart_cons, trimEnd_cons]

theorem head?_trim (t : Text) : (trim t).head? = (trimStart t).head? := by
  have first := head?_trimStart (t := t)
  rw [trim]
  cases h : trimStart t with
  | nil => rfl
  | cons c r =>
    have hc : isSpace c = false := first c (by simp [h])
    rw [trimEnd_cons_solid hc]
    rfl

theorem trim_eq_self {t : Text} (first : ∀ c ∈ t.head?, isSpace c = false)
    (last : ∀ c ∈ t.getLast?, isSpace c = false) : trim t = t := by
  rw [trim, trimStart_of_head? first, trimEnd_of_getLast? last]

theorem tightEnd_trim (t : Text) : TightEnd (trim t) := tightEnd_trimEnd _

theorem head?_trim_solid (t : Text) : ∀ c ∈ (trim t).head?, isSpace c = false := by
  rw [head?_trim]
  exact head?_trimStart

@[simp] theorem trim_trim (t : Text) : trim (trim t) = trim t :=
  trim_eq_self (head?_trim_solid t) (tightEnd_trim t)

@[simp] theorem trim_trimEnd (t : Text) : trim (Text.trimEnd t) = trim t := by
  rw [trim, trimStart_trimEnd]
  exact (tightEnd_trim t).trimEnd

theorem trim_append_blank {t : Text} (s : Text) (h : isBlank t = true) : trim (s ++ t) = trim s := by
  rw [trim, trim, trimStart_append]
  split_ifs with hs
  · rw [trimStart_of_blank h, trimStart_of_blank hs]
  · exact trimEnd_append_blank _ h

theorem trim_blank_append {s : Text} (h : isBlank s = true) (t : Text) : trim (s ++ t) = trim t := by
  rw [trim, trim, trimStart_blank_append h]

theorem trimEnd_append_rest (t : Text) : ∃ blank, isBlank blank = true ∧ trimEnd t ++ blank = t := by
  induction t with
  | nil => exact ⟨[], rfl, rfl⟩
  | cons c t ih =>
    rw [trimEnd_cons]
    split_ifs with h
    · exact ⟨c :: t, by simpa using h, rfl⟩
    · obtain ⟨blank, spaces, e⟩ := ih
      exact ⟨blank, spaces, by rw [List.cons_append, e]⟩

theorem isPrefix_trimEnd (t : Text) : trimEnd t <+: t := by
  obtain ⟨blank, -, e⟩ := trimEnd_append_rest t
  exact ⟨blank, e⟩

theorem isInfix_trim (t : Text) : trim t <:+: t :=
  (isPrefix_trimEnd _).isInfix.trans (List.dropWhile_suffix isSpace).isInfix

theorem infix_trim_iff {piece t : Text} (some : piece ≠ []) (solid : ∀ c ∈ piece, isSpace c = false) :
    piece <:+: trim t ↔ piece <:+: t := by
  refine ⟨fun h => h.trans (isInfix_trim t), ?_⟩
  rintro ⟨before, after, rfl⟩
  obtain ⟨first, rest, rfl⟩ := List.exists_cons_of_ne_nil some
  have shown (r : Text) : trimStart (first :: rest ++ r) = first :: rest ++ r :=
    trimStart_of_head? (by simpa using solid first List.mem_cons_self)
  have tight : TightEnd (first :: rest) := fun c hc => solid c (List.mem_of_getLast? hc)
  have front : ∃ lead, trimStart (before ++ first :: rest ++ after) = lead ++ (first :: rest) ++ after := by
    rw [List.append_assoc, trimStart_append, shown]
    split_ifs
    · exact ⟨[], rfl⟩
    · exact ⟨trimStart before, (List.append_assoc _ _ _).symm⟩
  obtain ⟨lead, front⟩ := front
  rw [trim, front, trimEnd_append]
  split_ifs
  · rw [(tight.append_of_ne_nil lead some).trimEnd]
    exact ⟨lead, [], by simp⟩
  · exact ⟨lead, trimEnd after, rfl⟩

end Text
end TypedProperties
