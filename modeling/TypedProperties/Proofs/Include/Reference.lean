import Mathlib.Data.List.TakeWhile
import TypedProperties.Include.Search
import TypedProperties.Proofs.Include.Environment
import TypedProperties.Proofs.Text.Cut

/-! What references to environment variables are replaced by: a text falls into characters and references in one way,
each reference is replaced by the value of its variable, and the first variable that is not set to a text is what the
text fails with. -/
namespace TypedProperties
namespace PathPiece

/-- A letter or an underscore, with letters, digits and underscores behind it. -/
inductive IsName : Text → Prop
  | intro {c : Char} {further : Text} (first : c.isAlpha ∨ c = '_') (rest : ∀ d ∈ further, d.isAlphanum ∨ d = '_') :
      IsName (c :: further)

/-- A reference with a text behind it. Without braces, its name is the longest one there. -/
inductive Refers : PathPiece → Text → Prop
  | braced {name : Text} (behind : Text) (named : IsName name) : Refers (.braced name) behind
  | bare {name behind : Text} (named : IsName name)
      (longest : ∀ more rest, behind = more ++ rest → IsName (name ++ more) → more = []) : Refers (.bare name) behind

def source (pieces : List PathPiece) : Text := pieces.flatMap text

/-- Pieces as they are found from the left: a character stands for itself only where no reference starts. -/
inductive Divided : List PathPiece → Prop
  | nil : Divided []
  | literal {c : Char} {pieces : List PathPiece} (rest : Divided pieces)
      (plain : ∀ piece behind, Refers piece behind → piece.text ++ behind ≠ c :: source pieces) :
      Divided (.char c :: pieces)
  | reference {piece : PathPiece} {pieces : List PathPiece} (rest : Divided pieces)
      (refers : Refers piece (source pieces)) : Divided (piece :: pieces)

variable {piece : PathPiece} {pieces : List PathPiece} {name behind t : Text} {c : Char}

@[simp] theorem source_cons (piece : PathPiece) (pieces : List PathPiece) :
    source (piece :: pieces) = piece.text ++ source pieces := List.flatMap_cons

theorem isNameStart_iff : isNameStart c = true ↔ c.isAlpha ∨ c = '_' := by
  simp [isNameStart]

theorem isNameChar_iff : isNameChar c = true ↔ c.isAlphanum ∨ c = '_' := by
  simp [isNameChar]

theorem IsName.append_iff (named : IsName name) (more : Text) :
    IsName (name ++ more) ↔ ∀ d ∈ more, isNameChar d = true := by
  simp only [isNameChar_iff]
  obtain ⟨first, rest⟩ := named
  constructor
  · intro longer
    cases longer with
    | intro _ all => exact (List.forall_mem_append.mp all).2
  · intro all
    exact .intro first (List.forall_mem_append.mpr ⟨rest, all⟩)

theorem IsName.longest_iff (named : IsName name) :
    (∀ more rest, behind = more ++ rest → IsName (name ++ more) → more = []) ↔
      ∀ c ∈ behind.head?, isNameChar c = false := by
  constructor
  · intro longest
    cases behind with
    | nil => simp
    | cons c rest =>
      intro d head
      obtain rfl := Option.some.inj head
      by_contra further
      have longer : IsName (name ++ [c]) := (named.append_iff [c]).mpr (by simpa using further)
      cases longest [c] rest rfl longer
  · rintro stop (_ | ⟨d, more⟩) rest rfl longer
    · rfl
    · have further := (named.append_iff _).mp longer d List.mem_cons_self
      rw [stop d rfl] at further
      cases further

theorem spanName_eq_some {rest : Text} : spanName t = some (name, rest) ↔
    t = name ++ rest ∧ IsName name ∧ ∀ c ∈ rest.head?, isNameChar c = false := by
  constructor
  · intro found
    cases t with
    | nil => cases found
    | cons c cs =>
      rw [spanName] at found
      split_ifs at found with first
      obtain ⟨rfl, rfl⟩ := Prod.mk.inj (Option.some.inj found)
      have named : IsName (c :: cs.takeWhile isNameChar) :=
        .intro (isNameStart_iff.mp first) fun d mem => isNameChar_iff.mp (List.mem_takeWhile_imp mem)
      refine ⟨?_, named, Text.head?_dropWhile isNameChar cs⟩
      rw [List.cons_append, List.takeWhile_append_dropWhile]
  · rintro ⟨rfl, ⟨first, further⟩, stop⟩
    obtain ⟨taken, dropped⟩ := Text.span_run (fun d mem => isNameChar_iff.mpr (further d mem)) stop
    rw [List.cons_append, spanName, if_pos (isNameStart_iff.mpr first), taken, dropped]

theorem spanReference_eq_some : spanReference t = some (piece, behind) ↔
    Refers piece behind ∧ piece.text ++ behind = '$' :: t := by
  constructor
  · intro found
    unfold spanReference at found
    split at found
    · split at found
      next name rest span =>
        obtain ⟨rfl, rfl⟩ := Prod.mk.inj (Option.some.inj found)
        obtain ⟨rfl, named, -⟩ := spanName_eq_some.mp span
        exact ⟨.braced rest named, by simp [text]⟩
      next => cases found
    · obtain ⟨⟨name, rest⟩, span, same⟩ := Option.map_eq_some_iff.mp found
      obtain ⟨rfl, rfl⟩ := Prod.mk.inj same
      obtain ⟨rfl, named, stop⟩ := spanName_eq_some.mp span
      exact ⟨.bare named (named.longest_iff.mpr stop), rfl⟩
  · rintro ⟨refers, whole⟩
    cases refers with
    | @braced name _ named =>
      obtain rfl : '{' :: (name ++ '}' :: behind) = t := by simpa [text] using whole
      have span : spanName (name ++ '}' :: behind) = some (name, '}' :: behind) :=
        spanName_eq_some.mpr ⟨rfl, named, by simp; decide⟩
      simp only [spanReference, span]
    | @bare name _ named longest =>
      obtain rfl : name ++ behind = t := by simpa [text] using whole
      have span := spanName_eq_some.mpr ⟨rfl, named, named.longest_iff.mp longest⟩
      -- A name does not begin with a brace, so that the other form is not taken for this one.
      unfold spanReference
      split
      next cs brace =>
        rw [brace] at span
        cases span
      next => rw [span, Option.map_some]

theorem Refers.text_eq (refers : Refers piece behind) : ∃ t, piece.text ++ behind = '$' :: t := by
  cases refers <;> exact ⟨_, rfl⟩

theorem scan_reference (refers : Refers piece behind) : scan (piece.text ++ behind) = piece :: scan behind := by
  obtain ⟨t, whole⟩ := refers.text_eq
  have found := spanReference_eq_some.mpr ⟨refers, whole⟩
  rw [whole, scan, if_pos rfl]
  split
  next span =>
    obtain ⟨rfl, rfl⟩ := Prod.mk.inj (Option.some.inj (span.symm.trans found))
    rfl
  next none => cases none.symm.trans found

theorem scan_literal (plain : ∀ piece behind, Refers piece behind → piece.text ++ behind ≠ c :: t) :
    scan (c :: t) = .char c :: scan t := by
  rw [scan]
  split_ifs with dollar
  · split
    next piece behind span =>
      obtain ⟨refers, whole⟩ := spanReference_eq_some.mp span
      exact absurd (dollar ▸ whole) (plain piece behind refers)
    next => rw [dollar]
  · rfl

theorem divided_scan (t : Text) : source (scan t) = t ∧ Divided (scan t) := by
  fun_induction scan t with
  | case1 => exact ⟨rfl, .nil⟩
  | case2 cs piece rest span _ ih =>
    obtain ⟨refers, whole⟩ := spanReference_eq_some.mp span
    exact ⟨by rw [source_cons, ih.1, whole], .reference ih.2 (ih.1.symm ▸ refers)⟩
  | case3 cs none ih =>
    refine ⟨congrArg ('$' :: ·) ih.1, .literal ih.2 fun piece behind refers whole => ?_⟩
    rw [ih.1] at whole
    cases none.symm.trans (spanReference_eq_some.mpr ⟨refers, whole⟩)
  | case4 c cs other ih =>
    refine ⟨congrArg (c :: ·) ih.1, .literal ih.2 fun piece behind refers whole => ?_⟩
    obtain ⟨t, dollar⟩ := refers.text_eq
    exact other (List.cons.inj (whole.symm.trans dollar)).1

theorem scan_source (divided : Divided pieces) : scan (source pieces) = pieces := by
  induction divided with
  | nil => rw [source, List.flatMap_nil, scan]
  | literal rest plain ih =>
    rw [source_cons, text, List.singleton_append, scan_literal plain, ih]
  | reference rest refers ih => rw [source_cons, scan_reference refers, ih]

theorem source_eq_iff : source pieces = t ∧ Divided pieces ↔ pieces = scan t := by
  constructor
  · rintro ⟨rfl, divided⟩
    exact (scan_source divided).symm
  · rintro rfl
    exact divided_scan t

example : scan (Text.ofString "$$A${B}$1") = [.char '$', .bare ['A'], .braced ['B'], .char '$', .char '1'] := by
  decide +kernel

end PathPiece

namespace Search

variable {world : World} {t s : Text} {fault : IncludeFault}

theorem expand_eq_ok : expand world t = .ok s ↔ world.expand t = .ok s := by
  unfold expand
  cases world.expand t <;> simp

theorem expand_eq_error : expand world t = .error fault ↔
    ∃ name, world.expand t = .error name ∧ fault = .unsetVariable name t := by
  unfold expand
  cases world.expand t <;> simp [eq_comm]

end Search
end TypedProperties
