import TypedProperties.Proofs.Directive.Line
import TypedProperties.Proofs.Line.Append

/-! Another text behind a `=` of a line: what stands in front of it stays as it is. -/
namespace TypedProperties
namespace Lines
open Text

/-- Behind any physical lines, some logical lines are complete and one may be in the making. -/
theorem joined_behind (xs : List Text) (draft : Option Text) :
    ∃ whole draft', ∀ ys, joined draft (xs ++ ys) = whole ++ joined draft' ys := by
  induction xs generalizing draft with
  | nil => exact ⟨[], draft, fun _ => rfl⟩
  | cons x xs ih =>
    cases mark : dropMark continuation x with
    | some head =>
      obtain ⟨whole, draft', behind⟩ := ih (some (draft.getD [] ++ head))
      refine ⟨whole, draft', fun ys => ?_⟩
      rw [← behind ys, List.cons_append, joined, mark]
    | none =>
      obtain ⟨whole, draft', behind⟩ := ih none
      refine ⟨shown (draft.getD [] ++ x) ++ whole, draft', fun ys => ?_⟩
      rw [List.append_assoc, ← behind ys, List.cons_append, joined, mark]

theorem shown_assignment (h v : Text) : shown (h ++ '=' :: v) = [h ++ '=' :: v] := by
  have solid : isSpace '=' = false := by decide
  simp [shown, solid]

theorem joined_assignment (h v : Text) (ys : List Text) :
    ∃ more rest, joined (some (h ++ '=' :: v)) ys = (h ++ '=' :: more) :: rest := by
  induction ys generalizing v with
  | nil => exact ⟨v, [], by rw [joined, Option.map_some, shown_assignment]; rfl⟩
  | cons y ys ih =>
    rw [joined]
    cases dropMark continuation y with
    | some head => simpa using ih (v ++ head)
    | none =>
      refine ⟨v ++ y, joined none ys, ?_⟩
      simp only [Option.getD_some, List.append_assoc, List.cons_append]
      rw [shown_assignment]
      rfl

theorem joined_cons_assignment (draft : Option Text) (h v : Text) (ys : List Text) :
    ∃ more rest, joined draft ((h ++ '=' :: v) :: ys) = (draft.getD [] ++ h ++ '=' :: more) :: rest := by
  rw [joined]
  cases mark : dropMark continuation (h ++ '=' :: v) with
  | none =>
    refine ⟨v, joined none ys, ?_⟩
    dsimp only
    rw [← List.append_assoc, shown_assignment]
    rfl
  | some front =>
    have cut := dropMark_eq_some_iff.mp mark
    rcases List.eq_nil_or_concat' v with rfl | ⟨v, c, rfl⟩
    · have last := congrArg List.getLast? cut
      simp [continuation] at last
    · have cut : (h ++ '=' :: v) ++ [c] = front ++ [continuation] := by simpa using cut
      obtain ⟨rfl, -⟩ := List.append_inj' cut rfl
      dsimp only
      rw [← List.append_assoc]
      exact joined_assignment (draft.getD [] ++ h) v ys

theorem chomp_assignment (h v : Text) : chomp (h ++ '=' :: v) = h ++ '=' :: chomp v := by
  rw [chomp_append h (.inl (by simp))]
  exact congrArg (h ++ ·) (chomp_append ['='] (.inr (by simp)))

theorem unmarked_assignment {v : Text} (unmarked : v.getLast? ≠ some continuation) (h : Text) :
    (h ++ '=' :: v).getLast? ≠ some continuation := by
  rw [List.getLast?_append, List.getLast?_cons]
  cases last : v.getLast? with
  | none => simp [continuation]
  | some c => simpa [last] using unmarked

theorem physical_assignment {h : Text} (single : '\n' ∉ h) (values : Text) :
    ∃ v rest, physical (h ++ '=' :: values ++ ['\n']) = (h ++ '=' :: v) :: rest := by
  rcases line_cases values with one | ⟨v, rest, rfl, one⟩
  · refine ⟨chomp values, [], ?_⟩
    rw [← chomp_assignment]
    exact physical_line (by simp [single, one]) []
  · refine ⟨chomp v, physical (rest ++ ['\n']), ?_⟩
    have one : '\n' ∉ h ++ '=' :: v := by simp [single, one]
    rw [← chomp_assignment, ← physical_line one]
    simp

/-- A line keeps what stands in front of a `=` in it when it gets another text behind that. -/
theorem joined_replaced {head values new line : Text}
    (one : joined none (physical (head ++ '=' :: values ++ ['\n'])) = [line]) (single : '\n' ∉ new)
    (unmarked : (chomp new).getLast? ≠ some continuation) :
    ∃ h v, line = h ++ '=' :: v ∧
      joined none (physical (head ++ '=' :: new ++ ['\n'])) = [h ++ '=' :: chomp new] := by
  obtain ⟨front, last, rfl, singleLast, ended⟩ := lastLine head
  obtain ⟨whole, draft, behind⟩ := joined_behind (physical front) none
  have split (values : Text) : joined none (physical (front ++ last ++ '=' :: values ++ ['\n'])) =
      whole ++ joined draft (physical (last ++ '=' :: values ++ ['\n'])) := by
    rw [← behind, ← physical_append ended]
    simp
  rw [split] at one
  obtain ⟨v, rest, lines⟩ := physical_assignment singleLast values
  obtain ⟨more, others, finished⟩ := joined_cons_assignment draft last v rest
  rw [lines, finished] at one
  -- The line with the `=` is the only one, so nothing is complete in front of it.
  obtain ⟨rfl, one⟩ : whole = [] ∧ (draft.getD [] ++ last ++ '=' :: more) :: others = [line] := by
    cases whole with
    | nil => exact ⟨rfl, one⟩
    | cons w whole => simp at one
  refine ⟨draft.getD [] ++ last, more, (List.cons.inj one).1.symm, ?_⟩
  have new_line : physical (last ++ '=' :: new ++ ['\n']) = [last ++ '=' :: chomp new] := by
    rw [physical_line (by simp [singleLast, single]), chomp_assignment]
    rfl
  have unmarked : dropMark continuation (last ++ '=' :: chomp new) = none :=
    dropMark_eq_none_iff.mpr (unmarked_assignment unmarked last)
  rw [split, new_line, joined, unmarked]
  simp only [← List.append_assoc]
  rw [shown_assignment, joined]
  rfl

/-- Behind a text that ends in a line feed, one starts a line if it ends one. -/
theorem atLineStart_of_append {s t : Text} (start : AtLineStart (s ++ t)) : AtLineStart t := by
  by_cases none : t = []
  · exact .inl none
  · obtain ⟨t, c, rfl⟩ := (List.eq_nil_or_concat' t).resolve_left none
    rcases start with empty | ⟨r, e, unmarked⟩
    · simp at empty
    · have e : (s ++ t) ++ [c] = r ++ ['\n'] := by simpa using e
      obtain ⟨rfl, last⟩ := List.append_inj' e rfl
      obtain rfl := List.singleton_inj.mp last
      refine .inr ⟨t, rfl, fun marked => unmarked ?_⟩
      by_cases empty : t = []
      · simp [empty, chomp, dropMark] at marked
      · rw [chomp_append s (.inl empty), List.getLast?_append, marked]
        rfl

theorem trim_assignment (h v : Text) : trim (h ++ '=' :: v) = trimStart h ++ '=' :: trimEnd v := by
  have solid : isSpace '=' = false := by decide
  have front : trimStart (h ++ '=' :: v) = trimStart h ++ '=' :: v := by
    rw [trimStart_append]
    split_ifs with blank
    · rw [trimStart_of_blank blank, trimStart_cons_solid solid]
      rfl
    · rfl
  rw [trim, front, trimEnd_append, if_neg (by simp [solid]), trimEnd_cons_solid solid]

theorem role_assignment {h v text : Text} (declares : Role.ofText (h ++ '=' :: v) = .declaration text)
    (v' : Text) : text = trimStart h ++ '=' :: trimEnd v ∧
      Role.ofText (h ++ '=' :: v') = .declaration (trimStart h ++ '=' :: trimEnd v') := by
  obtain ⟨trimmed, first⟩ := Role.ofText_eq_declaration declares
  rw [trim_assignment] at trimmed
  subst trimmed
  refine ⟨rfl, ?_⟩
  rw [Role.ofText, trim_assignment]
  cases front : trimStart h with
  | nil => rfl
  | cons c rest =>
    have noMark : c ≠ Role.commentMark := (first c (by simp [front])).1
    exact if_neg noMark

end Lines
end TypedProperties
