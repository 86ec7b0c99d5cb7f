import TypedProperties.Proofs.Text.Cut
import TypedProperties.Token.Head

/-! The tokens of a written head: words, marks and the blanks between them. -/
namespace TypedProperties
namespace HeadToken

@[simp] theorem scan_nil : scan [] = [] := by
  rw [scan]

theorem scan_gap {c : Char} (h : isGap c = true) (r : Text) : scan (c :: r) = scan r := by
  rw [scan, if_pos h]

@[simp] theorem scan_space (r : Text) : scan (' ' :: r) = scan r := scan_gap (by decide) r

theorem scan_mark {c : Char} {mark : HeadToken} (h : mark? c = some mark) (r : Text) :
    scan (c :: r) = ⟨mark, [c], c :: r⟩ :: scan r := by
  have blank : isGap c = false := by
    unfold mark? at h
    split at h <;> first | rfl | cases h
  rw [scan, if_neg (by simp [blank])]
  simp only [h]

def IsWord (t : Text) : Prop := t ≠ [] ∧ ∀ c ∈ t, isWordChar c = true

theorem mark?_of_isWordChar {c : Char} (h : isWordChar c = true) : mark? c = none := by
  unfold mark?
  split <;> first | rfl | cases h

theorem isWordChar_of_mark? {c : Char} (gap : isGap c = false) (h : mark? c = none) : isWordChar c = true := by
  have colon : c ≠ ':' := by
    rintro rfl
    cases h
  have opening : c ≠ '[' := by
    rintro rfl
    cases h
  have closing : c ≠ ']' := by
    rintro rfl
    cases h
  simp [isWordChar, gap, colon, opening, closing]

theorem scan_word {t r : Text} (word : IsWord t) (stop : ∀ c ∈ r.head?, isWordChar c = false) :
    scan (t ++ r) = ⟨.word t, t, t ++ r⟩ :: scan r := by
  obtain ⟨some, h⟩ := word
  cases t with
  | nil => exact absurd rfl some
  | cons c t =>
    have first : isWordChar c = true := h c List.mem_cons_self
    have blank : isGap c = false := by
      revert first
      simp +contextual [isWordChar]
    obtain ⟨taken, dropped⟩ := Text.span_run (fun d hd => h d (List.mem_cons_of_mem c hd)) stop
    rw [List.cons_append, scan, if_neg (by simp [blank])]
    simp only [mark?_of_isWordChar first, taken, dropped]

theorem scan_word_space {t : Text} (word : IsWord t) (r : Text) :
    scan (t ++ ' ' :: r) = ⟨.word t, t, t ++ ' ' :: r⟩ :: scan r := by
  rw [scan_word word (by rintro c ⟨⟩; decide), scan_space]

theorem scan_word_end {t : Text} (word : IsWord t) : scan t = [⟨.word t, t, t⟩] := by
  simpa using scan_word (r := []) word (by rintro c ⟨⟩)

end HeadToken
end TypedProperties
