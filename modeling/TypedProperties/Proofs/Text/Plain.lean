import Mathlib
import TypedProperties.Proofs.Text.Blank
import TypedProperties.Proofs.Text.Integer
import TypedProperties.Proofs.Token.Head
import TypedProperties.Proofs.Token.Value
import TypedProperties.Text.Boolean

/-! Plain words: numbers, booleans and symbols, which are one token wherever they are written. -/
namespace TypedProperties
namespace Text

/-- A letter, a digit, or one of the marks in numbers and unit symbols. -/
def isPlain (c : Char) : Bool := c.isAlphanum || c = '/' || c = '.' || c = '-' || c = '+'

def IsPlain (t : Text) : Prop := t ≠ [] ∧ ∀ c ∈ t, isPlain c = true

theorem isPlain_of_isDigit {c : Char} (h : c.isDigit = true) : isPlain c = true := by
  simp [isPlain, Char.isAlphanum, h]

theorem isSpace_of_isPlain {c : Char} (h : isPlain c = true) : isSpace c = false := by
  rw [← Bool.not_eq_true]
  intro space
  simp only [isPlain, Char.isAlphanum, Char.isAlpha, Char.isUpper, Char.isLower, Char.isDigit,
    Bool.or_eq_true, Bool.and_eq_true, decide_eq_true_eq, ge_iff_le, UInt32.le_iff_toNat_le] at h
  rcases h with (((h | rfl) | rfl) | rfl) | rfl
  · simp only [isSpace, spaceRanges, List.any_cons, List.any_nil, Bool.or_eq_true, Bool.and_eq_true,
      decide_eq_true_eq, Char.toNat, Bool.or_false] at space
    revert h space
    simp
    omega
  all_goals exact absurd space (by decide)

theorem isSpace_of_isGap {c : Char} (h : isGap c = true) : isSpace c = true := by
  simp only [isGap, Bool.or_eq_true, decide_eq_true_eq] at h
  rcases h with (((rfl | rfl) | rfl) | rfl) | rfl <;> decide

theorem isGap_of_isPlain {c : Char} (h : isPlain c = true) : isGap c = false := by
  rw [← Bool.not_eq_true]
  intro gap
  have solid := isSpace_of_isPlain h
  simp [isSpace_of_isGap gap] at solid

namespace IsPlain

variable {t : Text}

theorem not_mem (h : IsPlain t) {c : Char} (other : isPlain c = false) : c ∉ t :=
  fun mem => by simp [h.2 c mem] at other

theorem append {s : Text} (hs : IsPlain s) (ht : ∀ c ∈ t, isPlain c = true) : IsPlain (s ++ t) :=
  ⟨by simp [hs.1], fun c hc => (List.mem_append.mp hc).elim (hs.2 c) (ht c)⟩

theorem tightEnd (h : IsPlain t) : TightEnd t := fun c hc =>
  isSpace_of_isPlain (h.2 c (List.mem_of_getLast? hc))

theorem isWord (h : IsPlain t) : HeadToken.IsWord t := by
  refine ⟨h.1, fun c hc => ?_⟩
  have blank := isGap_of_isPlain (h.2 c hc)
  have mark (d : Char) (other : isPlain d = false) : c ≠ d := ne_of_mem_of_not_mem hc (h.not_mem other)
  simp [HeadToken.isWordChar, blank, mark ':' (by decide), mark '[' (by decide), mark ']' (by decide)]

theorem spells (h : IsPlain t) : ValueToken.Spells t (.word t) := by
  have word : ∀ c ∈ t, ValueToken.isWordChar c = true ∧ c ≠ '#' := fun c hc => by
    have blank := isGap_of_isPlain (h.2 c hc)
    have mark (d : Char) (other : isPlain d = false) : c ≠ d := ne_of_mem_of_not_mem hc (h.not_mem other)
    simp [ValueToken.isWordChar, blank, mark '"' (by decide), mark '#' (by decide)]
  cases t with
  | nil => exact absurd rfl h.1
  | cons c t => exact ValueToken.spells_word (fun d hd => (word d hd).1) (word c List.mem_cons_self).2

end IsPlain

theorem isPlain_ofNat (n : Nat) : IsPlain (ofNat n) :=
  ⟨ofNat_ne_nil n, fun _ hc => isPlain_of_isDigit (isDigit_ofNat hc)⟩

theorem isPlain_ofInt (v : Int) : IsPlain (ofInt v) := by
  cases v with
  | ofNat n => exact isPlain_ofNat n
  | negSucc n => exact IsPlain.append (s := ['-']) (by unfold IsPlain; decide) (isPlain_ofNat _).2

theorem isPlain_ofBoolean (b : Bool) : IsPlain (ofBoolean b) := by
  unfold IsPlain
  cases b <;> decide

end Text
end TypedProperties
