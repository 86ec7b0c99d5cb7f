import Mathlib.Data.List.Induction
import Mathlib.Logic.Relation
import TypedProperties.Line.Role
import TypedProperties.Proofs.Line.Cut
import TypedProperties.Proofs.Text.Blank
import TypedProperties.Proofs.Text.Cut

/-! Edits of a text that change how it is laid out in physical lines, and what they leave alone: the
logical lines that are no comments. -/
namespace TypedProperties
namespace Text

/-- Nothing but the end of a physical line, with or without a carriage return, comes next. -/
def AtLineEnd (t : Text) : Prop :=
  t = [] ∨ (∃ r, t = '\n' :: r) ∨ ∃ r, t = '\r' :: '\n' :: r

/-- No line is in the making behind a text: it is empty, or its last line ends without a mark. -/
def AtLineStart (t : Text) : Prop :=
  t = [] ∨ ∃ s, t = s ++ ['\n'] ∧ (chomp s).getLast? ≠ some Lines.continuation

/-- The content of a line that says nothing: it is blank, or a comment that is no directive and is
not continued. -/
def IsIdle (line : Text) : Prop :=
  isBlank line = true ∨
    (∃ rest, trimStart line = Role.commentMark :: rest ∧
      (trimStart rest).head? ≠ some Role.directiveMark) ∧
    (chomp line).getLast? ≠ some Lines.continuation

inductive Relaid : Text → Text → Prop
  /-- A line is continued on a new one, anywhere but within its end or behind its mark. -/
  | broken {s t : Text} (whole : ¬ (s.getLast? = some '\r' ∧ t.head? = some '\n'))
      (unmarked : s.getLast? = some Lines.continuation → ¬ AtLineEnd t) :
      Relaid (s ++ t) (s ++ Lines.continuation :: '\n' :: t)
  /-- A line feed gets a carriage return in front. -/
  | returned {s t : Text} (bare : s.getLast? ≠ some '\r') :
      Relaid (s ++ '\n' :: t) (s ++ '\r' :: '\n' :: t)
  /-- An idle line is put in where no line is in the making. -/
  | idle {s line t : Text} (start : AtLineStart s) (single : '\n' ∉ line) (idle : IsIdle line) :
      Relaid (s ++ t) (s ++ line ++ '\n' :: t)

theorem pieces_append {s t : Text} (h : ∀ c ∈ s.getLast?, c = '\n') :
    pieces (s ++ t) = pieces s ++ pieces t := by
  induction s using line_induction with
  | unended s one =>
    cases s using List.reverseRecOn with
    | nil => rfl
    | append_singleton s c =>
      obtain rfl : c = '\n' := h c (by simp)
      simp at one
  | line line rest one ih =>
    rw [List.append_assoc, List.cons_append, pieces_line one, pieces_line one, List.cons_append,
      ih fun c hc => h c ?_]
    cases rest with
    | nil => simp at hc
    | cons c' rest => simpa [List.getLast?_append, List.getLast?_cons_cons] using hc

theorem physical_append {s t : Text} (h : ∀ c ∈ s.getLast?, c = '\n') :
    physical (s ++ t) = physical s ++ physical t := by
  simp [physical, pieces_append h]

/-- The last line of a text, as far as it goes, and what stands in front of it. -/
theorem lastLine (t : Text) :
    ∃ s line, t = s ++ line ∧ '\n' ∉ line ∧ ∀ c ∈ s.getLast?, c = '\n' := by
  induction t using line_induction with
  | unended t one => exact ⟨[], t, rfl, one, by simp⟩
  | line line rest one ih =>
    obtain ⟨s, last, rfl, single, h⟩ := ih
    refine ⟨line ++ '\n' :: s, last, by simp, single, fun c hc => ?_⟩
    cases s with
    | nil => simpa using hc.symm
    | cons c' s => exact h c (by simpa [List.getLast?_append, List.getLast?_cons_cons] using hc)

theorem chomp_of_getLast? {t : Text} (h : t.getLast? ≠ some '\r') : chomp t = t := by
  rw [chomp, dropMark_eq_none_iff.mpr h]
  rfl

@[simp] theorem chomp_return (t : Text) : chomp (t ++ ['\r']) = t := by
  rw [chomp, dropMark_eq_some_iff.mpr rfl]
  rfl

theorem isPrefix_chomp (t : Text) : chomp t <+: t := by
  cases h : dropMark '\r' t with
  | none =>
    rw [chomp, h]
    exact List.prefix_rfl
  | some r =>
    obtain rfl := dropMark_eq_some_iff.mp h
    rw [chomp_return]
    exact List.prefix_append r _

theorem chomp_append (s : Text) {t : Text} (h : t ≠ [] ∨ s.getLast? ≠ some '\r') :
    chomp (s ++ t) = s ++ chomp t := by
  by_cases ht : t = []
  · subst ht
    rw [List.append_nil, chomp_of_getLast? (h.resolve_left fun ne => ne rfl)]
    exact (List.append_nil s).symm
  · rw [chomp, chomp, dropMark_append s ht]
    cases dropMark '\r' t <;> rfl

end Text

namespace Lines
open Text

/-- Cutting the content of a line in two, the first part with a mark, joins to the same. -/
theorem joined_cons_append {s c : Text} (h : c ≠ [] ∨ s.getLast? ≠ some continuation)
    (draft : Option Text) (rest : List Text) :
    joined draft ((s ++ c) :: rest) = joined draft ((s ++ [continuation]) :: c :: rest) := by
  have marked : dropMark continuation (s ++ [continuation]) = some s := dropMark_eq_some_iff.mpr rfl
  simp only [joined, marked, Option.getD_some]
  by_cases hc : c = []
  · subst hc
    have unmarked := dropMark_eq_none_iff.mpr (h.resolve_left fun ne => ne rfl)
    simp [unmarked, dropMark]
  · rw [dropMark_append s hc]
    cases dropMark continuation c <;> simp

theorem chomp_mark (s : Text) : chomp (s ++ [continuation]) = s ++ [continuation] :=
  chomp_of_getLast? (by simp [continuation])

theorem joined_broken {s t : Text} (whole : ¬ (s.getLast? = some '\r' ∧ t.head? = some '\n'))
    (unmarked : s.getLast? = some continuation → ¬ AtLineEnd t) :
    joined none (physical (s ++ continuation :: '\n' :: t)) = joined none (physical (s ++ t)) := by
  obtain ⟨before, line, rfl, single, ended⟩ := lastLine s
  simp only [List.append_assoc, physical_append ended]
  refine joined_congr (fun draft => ?_) _ none
  have marked : '\n' ∉ line ++ [continuation] := by simpa [continuation] using single
  have e : line ++ continuation :: '\n' :: t = (line ++ [continuation]) ++ '\n' :: t := by simp
  rw [e, physical_line marked, chomp_mark]
  -- What stands at the end of the line stands at the end of the text in front of the cut.
  have last : ∀ c, line.getLast? = some c → (before ++ line).getLast? = some c := fun c hc => by
    simp [List.getLast?_append, hc]
  rcases Text.line_cases t with one | ⟨rest, after, rfl, one⟩
  · by_cases ht : t = []
    · subst ht
      have unmarked : line.getLast? ≠ some continuation := fun h => unmarked (last _ h) (.inl rfl)
      by_cases hl : line = []
      · subst hl
        cases draft <;> simp [joined, dropMark, shown, isBlank]
      · rw [List.append_nil, physical_unended single hl, ← List.append_nil line,
          joined_cons_append (.inr unmarked)]
        simp [joined, dropMark_eq_some_iff.mpr (rfl : line ++ [continuation] = _), dropMark]
    · have both : '\n' ∉ line ++ t := by simp [single, one]
      rw [physical_unended one ht, physical_unended both (by simp [ht]),
        joined_cons_append (.inl ht)]
  · have both : '\n' ∉ line ++ rest := by simp [single, one]
    rw [physical_line one, ← List.append_assoc, physical_line both]
    have split : rest ≠ [] ∨ line.getLast? ≠ some '\r' := by
      by_cases hr : rest = []
      · exact .inr fun h => whole ⟨last _ h, by simp [hr]⟩
      · exact .inl hr
    rw [chomp_append line split]
    refine (joined_cons_append ?_ draft _).symm
    by_cases hc : chomp rest = []
    · refine .inr fun h => unmarked (last _ h) (.inr ?_)
      cases hd : dropMark '\r' rest with
      | none =>
        rw [chomp, hd] at hc
        exact .inl ⟨after, by simp [show rest = [] from hc]⟩
      | some r =>
        rw [chomp, hd] at hc
        obtain rfl : r = [] := hc
        exact .inr ⟨after, by simp [dropMark_eq_some_iff.mp hd]⟩
    · exact .inl hc

theorem physical_returned {s : Text} (bare : s.getLast? ≠ some '\r') (t : Text) :
    physical (s ++ '\r' :: '\n' :: t) = physical (s ++ '\n' :: t) := by
  obtain ⟨before, line, rfl, single, ended⟩ := lastLine s
  have bare : line.getLast? ≠ some '\r' := fun h => bare (by simp [List.getLast?_append, h])
  have returned : '\n' ∉ line ++ ['\r'] := by simpa using single
  have e : line ++ '\r' :: '\n' :: t = (line ++ ['\r']) ++ '\n' :: t := by simp
  simp only [List.append_assoc, physical_append ended, e]
  simp only [← List.append_assoc, physical_line returned, physical_line single, chomp_return,
    chomp_of_getLast? bare]

/-- The last line of a text is not continued, where none is in the making behind it. -/
theorem unmarked_of_atLineStart {s : Text} (start : AtLineStart s) :
    ∀ x ∈ (physical s).getLast?, dropMark continuation x = none := by
  intro x hx
  rcases start with rfl | ⟨r, rfl, unmarked⟩
  · simp at hx
  · obtain ⟨before, line, rfl, single, ended⟩ := lastLine r
    have e : physical (before ++ line ++ ['\n']) = physical before ++ [chomp line] := by
      rw [List.append_assoc, physical_append ended, physical_line single, physical_nil]
    rw [e] at hx
    obtain rfl : chomp line = x := by simpa using hx
    rw [dropMark_eq_none_iff]
    intro h
    by_cases hl : line = []
    · simp [hl, chomp, dropMark] at h
    · rw [chomp_append before (.inl hl), List.getLast?_append, h] at unmarked
      exact unmarked rfl

theorem joined_atLineStart {s : Text} (start : AtLineStart s) (ys : List Text) :
    joined none (physical s ++ ys) = joined none (physical s) ++ joined none ys :=
  joined_append (unmarked_of_atLineStart start) (fun _ => rfl) ys

theorem trim_chomp (t : Text) : trim (chomp t) = trim t := by
  cases h : dropMark '\r' t with
  | none => rw [chomp, h]; rfl
  | some r =>
    obtain rfl := dropMark_eq_some_iff.mp h
    rw [chomp_return, trim_append_blank r (by decide)]

theorem isBlank_chomp {t : Text} (h : isBlank t = true) : isBlank (chomp t) = true := by
  cases hd : dropMark '\r' t with
  | none => rwa [chomp, hd]
  | some r =>
    obtain rfl := dropMark_eq_some_iff.mp hd
    rw [chomp_return]
    exact (Bool.and_eq_true _ _ ▸ isBlank_append r ['\r'] ▸ h).1

theorem role_of_comment {line rest : Text} (first : trimStart line = Role.commentMark :: rest)
    (next : (trimStart rest).head? ≠ some Role.directiveMark) : Role.ofText line = .comment := by
  have trimmed : trim line = Role.commentMark :: trimEnd rest := by
    rw [trim, first, trimEnd_cons_solid (by decide)]
  rw [← head?_trim, ← trimStart_trimEnd] at next
  simp [Role.ofText, trimmed, next]

/-- The logical lines of a text that are no comments. -/
def significant (t : Text) : List Text :=
  (joined none (physical t)).filter fun l => Role.ofText l ≠ .comment

theorem joined_idle {line : Text} (idle : IsIdle line) (rest : List Text) :
    ∃ comments, joined none (chomp line :: rest) = comments ++ joined none rest ∧
      ∀ c ∈ comments, Role.ofText c = .comment := by
  rcases idle with blank | ⟨⟨tail, first, next⟩, unmarked⟩
  · have unmarked : dropMark continuation (chomp line) = none := by
      rw [dropMark_eq_none_iff]
      intro h
      have := List.all_eq_true.mp (isBlank_chomp blank) _ (List.mem_of_getLast? h)
      revert this
      decide
    refine ⟨[], ?_, by simp⟩
    simp [joined, unmarked, shown, isBlank_chomp blank]
  · refine ⟨shown (chomp line), ?_, fun c hc => ?_⟩
    · simp [joined, dropMark_eq_none_iff.mpr unmarked]
    · obtain rfl : c = chomp line := by
        unfold shown at hc
        split_ifs at hc
        · cases hc
        · simpa using hc
      rw [Role.ofText, trim_chomp, ← Role.ofText]
      exact role_of_comment first next

theorem significant_of_relaid {t t' : Text} (h : Relaid t t') : significant t' = significant t := by
  cases h with
  | broken whole unmarked => rw [significant, joined_broken whole unmarked, ← significant]
  | returned bare => rw [significant, physical_returned bare, ← significant]
  | @idle s line t start single idle =>
    have ended : ∀ c ∈ s.getLast?, c = '\n' := by
      rcases start with rfl | ⟨r, rfl, -⟩ <;> simp
    obtain ⟨comments, e, h⟩ := joined_idle idle (physical t)
    have none : comments.filter (fun l => decide (Role.ofText l ≠ .comment)) = [] := by
      simpa [List.filter_eq_nil_iff] using h
    simp only [significant, List.append_assoc, physical_append ended, physical_line single,
      joined_atLineStart start, e, List.filter_append, none, List.nil_append]

/-- A line that says something, and is not continued. -/
structure IsLine (line : Text) : Prop where
  single : '\n' ∉ line
  last : ∀ c ∈ line.getLast?, c ≠ continuation ∧ c ≠ '\r'
  role : Role.ofText line ≠ .comment
  shown : isBlank line = false

/-- Whole lines, and what they say in front of any others. -/
def Says (t : Text) (lines : List Text) : Prop :=
  ∀ rest, significant (t ++ rest) = lines ++ significant rest

theorem Says.append {s t : Text} {lines lines' : List Text} (h : Says s lines) (h' : Says t lines') :
    Says (s ++ t) (lines ++ lines') := fun rest => by
  rw [List.append_assoc, h, h', List.append_assoc]

theorem Says.significant_eq {t : Text} {lines : List Text} (h : Says t lines) : significant t = lines := by
  have nothing : significant [] = [] := by simp [significant, joined]
  have whole := h []
  rwa [nothing, List.append_nil, List.append_nil] at whole

theorem says_nil : Says [] [] := fun _ => rfl

theorem says_significant {t : Text} (start : AtLineStart t) : Says t (significant t) := fun rest => by
  have ended : ∀ c ∈ t.getLast?, c = '\n' := by
    rcases start with rfl | ⟨r, rfl, -⟩ <;> simp
  rw [significant, physical_append ended, joined_atLineStart start, List.filter_append]
  rfl

theorem says_line {line : Text} (h : IsLine line) : Says (line ++ ['\n']) [line] := fun rest => by
  have whole : chomp line = line := chomp_of_getLast? fun e => (h.last _ e).2 rfl
  have unmarked : dropMark continuation line = none :=
    dropMark_eq_none_iff.mpr fun e => (h.last _ e).1 rfl
  rw [List.append_assoc, List.singleton_append, significant, physical_line h.single, whole, joined,
    unmarked]
  simp [Lines.shown, h.shown, h.role, significant]

/-- What a line says with a blank one behind it: a carriage return at its end and a mark in front of
that do not count. -/
def uncontinued (line : Text) : Text := (dropMark continuation (chomp line)).getD (chomp line)

theorem uncontinued_append {s : Text} (whole : s.getLast? ≠ some '\r')
    (unmarked : s.getLast? ≠ some continuation) (t : Text) :
    uncontinued (s ++ t) = s ++ uncontinued t := by
  rw [uncontinued, uncontinued, chomp_append s (.inr whole)]
  by_cases empty : chomp t = []
  · rw [empty, List.append_nil, dropMark_eq_none_iff.mpr unmarked]
    exact (List.append_nil s).symm
  · rw [dropMark_append s empty]
    cases dropMark continuation (chomp t) <;> rfl

theorem isPrefix_uncontinued (t : Text) : uncontinued t <+: t := by
  refine List.IsPrefix.trans ?_ (isPrefix_chomp t)
  cases h : dropMark continuation (chomp t) with
  | none =>
    rw [uncontinued, h]
    exact List.prefix_rfl
  | some r =>
    rw [uncontinued, h, dropMark_eq_some_iff.mp h]
    exact List.prefix_append r _

theorem unmarked_of_uncontinued {t : Text} (h : uncontinued t = t) : t.getLast? ≠ some continuation := by
  intro marked
  obtain ⟨r, rfl⟩ := List.getLast?_eq_some_iff.mp marked
  rw [uncontinued, chomp_mark, dropMark_eq_some_iff.mpr rfl] at h
  simp at h

theorem says_uncontinued {line : Text} (single : '\n' ∉ line) (role : Role.ofText (uncontinued line) ≠ .comment)
    (visible : isBlank (uncontinued line) = false) : Says (line ++ ['\n', '\n']) [uncontinued line] := by
  intro rest
  have blank : physical ([] ++ '\n' :: rest) = chomp [] :: physical rest := physical_line (by simp) rest
  change physical ('\n' :: rest) = [] :: physical rest at blank
  rw [List.append_assoc, List.cons_append, List.singleton_append, significant, physical_line single, blank]
  unfold uncontinued at role visible ⊢
  cases mark : dropMark continuation (chomp line) <;>
    simp_all [joined, dropMark, shown, significant]

theorem Says.broken {s t : Text} {lines : List Text} (h : Says (s ++ t) lines)
    (first : ∃ c ∈ t.head?, c ≠ '\n' ∧ c ≠ '\r') : Says (s ++ continuation :: '\n' :: t) lines := by
  obtain ⟨c, hc, noFeed, noReturn⟩ := first
  obtain ⟨t, rfl⟩ : ∃ r, t = c :: r := by
    cases t with
    | nil => cases hc
    | cons d t =>
      obtain rfl : d = c := Option.some.inj hc
      exact ⟨t, rfl⟩
  intro rest
  rw [← h rest, List.append_assoc, List.append_assoc]
  refine significant_of_relaid (.broken (fun whole => noFeed (Option.some.inj whole.2)) fun _ atEnd => ?_)
  rcases atEnd with none | ⟨r, e⟩ | ⟨r, e⟩
  · cases none
  · exact noFeed (List.cons.inj e).1
  · exact noReturn (List.cons.inj e).1

theorem says_idle {line : Text} (single : '\n' ∉ line) (idle : IsIdle line) :
    Says (line ++ ['\n']) [] := fun rest => by
  have edit : Relaid rest (line ++ '\n' :: rest) := .idle (s := []) (.inl rfl) single idle
  simpa using significant_of_relaid edit

theorem says_blank : Says ['\n'] [] :=
  (says_idle (by simp) (.inl rfl) : Says ([] ++ ['\n']) [])

theorem significant_of_edits {t t' : Text} (edits : Relation.ReflTransGen Relaid t t') :
    significant t' = significant t := by
  induction edits with
  | refl => rfl
  | tail _ edit ih => rw [significant_of_relaid edit, ih]

end Lines
end TypedProperties
