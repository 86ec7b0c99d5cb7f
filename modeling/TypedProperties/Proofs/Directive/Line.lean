import TypedProperties.Directive.Basic
import TypedProperties.Line.Role
import TypedProperties.Proofs.Text.Blank
import TypedProperties.Proofs.Text.Cut

/-! Lines that are directives: a name behind `#`, and an argument behind a space. -/
namespace TypedProperties

namespace Role

theorem ofText_directive (t : Text) :
    ofText (commentMark :: directiveMark :: t) = .directive (Text.trimEnd (directiveMark :: t)) := by
  have mark : Text.isSpace commentMark = false := by decide
  have mark' : Text.isSpace directiveMark = false := by decide
  have trimmed : Text.trim (commentMark :: directiveMark :: t) =
      commentMark :: directiveMark :: Text.trimEnd t := by
    rw [Text.trim, Text.trimStart_cons_solid mark, Text.trimEnd_cons_solid mark,
      Text.trimEnd_cons_solid mark']
  have kept : Text.trimEnd (directiveMark :: t) = directiveMark :: Text.trimEnd t :=
    Text.trimEnd_cons_solid mark' t
  rw [ofText, trimmed, kept]
  simp [Text.trimStart_cons, mark']

theorem ofText_eq_directive {line text : Text} (h : ofText line = .directive text) : text <:+: line := by
  have inside := Text.isInfix_trim line
  unfold ofText at h
  split at h
  · cases h
  next c rest trimmed =>
    dsimp only at h
    split_ifs at h
    obtain rfl := Role.directive.inj h
    rw [trimmed] at inside
    exact ((List.dropWhile_suffix _).trans (List.suffix_cons c rest)).isInfix.trans inside

theorem ofText_eq_declaration {line text : Text} (h : ofText line = .declaration text) :
    text = Text.trim line ∧ ∀ c ∈ text.head?, c ≠ commentMark ∧ Text.isSpace c = false := by
  have first := Text.head?_trim_solid line
  unfold ofText at h
  split at h
  next empty =>
    obtain rfl := Role.declaration.inj h
    exact ⟨empty.symm, by simp⟩
  next c rest trimmed =>
    dsimp only at h
    split_ifs at h with mark
    obtain rfl := Role.declaration.inj h
    rw [trimmed] at first
    refine ⟨trimmed.symm, ?_⟩
    rintro _ ⟨⟩
    exact ⟨mark, first c rfl⟩

theorem declaration_append {line line' text more : Text} (h : ofText line = .declaration text)
    (some : text ≠ []) (trimmed : Text.trim line' = text ++ more) :
    ofText line' = .declaration (text ++ more) := by
  have first := (ofText_eq_declaration h).2
  cases text with
  | nil => exact absurd rfl some
  | cons c text =>
    have noMark : c ≠ commentMark := (first c rfl).1
    rw [ofText, trimmed]
    exact if_neg noMark

end Role

namespace Directive

theorem ofText_trimEnd (t : Text) : ofText (Text.trimEnd t) = ofText t := by
  rw [ofText, Text.trim_trimEnd, ← ofText]

theorem ofText_name (name : Text) (solid : ∀ c ∈ name, Text.isSpace c = false) (some : name ≠ [])
    (rest : Text) : ofText (name ++ ' ' :: rest) = ofParts name (Text.trim rest) := by
  have first : ∀ c ∈ (name ++ ' ' :: rest).head?, Text.isSpace c = false := by
    cases name with
    | nil => exact absurd rfl some
    | cons c name =>
      rintro d ⟨⟩
      exact solid c List.mem_cons_self
  have tight : Text.TightEnd name := fun c hc => solid c (List.mem_of_getLast? hc)
  rw [ofText, Text.trim, Text.trimStart_of_head? first, Text.trimEnd_append, Text.trimEnd_cons]
  by_cases blank : Text.isBlank rest = true
  · have word := Text.cutWord_word [] solid (by rintro c ⟨⟩)
    have none : Text.trim rest = [] := by rw [Text.trim, Text.trimStart_of_blank blank]; rfl
    rw [List.append_nil] at word
    rw [if_pos (by rw [Text.isBlank_cons, blank]; decide), tight.trimEnd, word, none]
    rfl
  · have word := Text.cutWord_word (' ' :: Text.trimEnd rest) solid (by rintro c ⟨⟩; decide)
    have behind : Text.trim (' ' :: Text.trimEnd rest) = Text.trim rest :=
      (Text.trim_blank_append (s := [' ']) (by decide) _).trans (Text.trim_trimEnd rest)
    have shown : ¬ Text.isBlank (' ' :: rest) = true := by simp [blank]
    rw [if_neg shown, if_neg shown, word]
    simp only [behind]

end Directive
end TypedProperties
