import TypedProperties.Proofs.Token.Quoted

/-! A comment behind a value segment: it becomes one lexeme behind those of the segment, unless the
segment ends within a quote or a comment of its own. -/
namespace TypedProperties
namespace ValueToken

theorem Quotation.scan_append {t text raw rest : Text} (closed : scan t = .closed text raw rest) (more : Text) :
    scan (t ++ more) = .closed text raw (rest ++ more) := by
  obtain ⟨rfl, body⟩ := scan_eq_closed.mp closed
  rw [List.append_assoc, scan_body body]

/-- Lexemes without and with a comment behind their segment. What follows a comment or a quote that is
never closed does not matter. -/
inductive Commented : List (Lexeme ValueToken) → List (Lexeme ValueToken) → Prop
  | comment {raw onward : Text} {ls : List (Lexeme ValueToken)} : Commented [] (⟨.comment, raw, onward⟩ :: ls)
  | commented {raw onward raw' onward' : Text} {ls ls' : List (Lexeme ValueToken)} :
    Commented (⟨.comment, raw, onward⟩ :: ls) (⟨.comment, raw', onward'⟩ :: ls')
  | broken {raw onward : Text} {ls ls' : List (Lexeme ValueToken)} :
    Commented (⟨.broken, raw, onward⟩ :: ls) ls'
  | next {token : ValueToken} {raw onward raw' onward' : Text} {ls ls' : List (Lexeme ValueToken)}
      (behind : Commented ls ls') : Commented (⟨token, raw, onward⟩ :: ls) (⟨token, raw', onward'⟩ :: ls')

theorem scan_comment (c : Text) : ∃ raw rest, scan ('#' :: c) = ⟨.comment, raw, '#' :: c⟩ :: rest := by
  rw [scan, if_neg (by decide), if_neg (by decide), if_pos rfl]
  exact ⟨_, _, rfl⟩

/-- The characters that are taken from a text end in front of a gap behind it. -/
theorem span_append {p : Char → Bool} {g : Char} (stop : p g = false) (s t : Text) :
    (s ++ g :: t).takeWhile p = s.takeWhile p ∧ (s ++ g :: t).dropWhile p = s.dropWhile p ++ g :: t := by
  induction s with
  | nil => simp [stop]
  | cons c s ih => cases h : p c <;> simp [h, ih]

theorem commented_scan (s : Text) {gap : Text} (some : gap ≠ []) (blank : ∀ c ∈ gap, isGap c = true) (c : Text) :
    Commented (scan s) (scan (s ++ (gap ++ '#' :: c))) := by
  obtain ⟨g, gap, rfl⟩ := List.exists_cons_of_ne_nil some
  have end? : isWordChar g = false := by simp [isWordChar, blank g List.mem_cons_self]
  fun_induction scan s with
  | case1 =>
    obtain ⟨raw, rest, e⟩ := scan_comment c
    rw [List.nil_append, scan_gaps blank, e]
    exact .comment
  | case2 d ds gap ih =>
    rw [List.cons_append, scan_gap gap]
    exact ih
  | case3 ds text raw rest quotation _ ih =>
    rw [List.cons_append, scan, if_neg (by decide), if_pos rfl]
    split
    next text' raw' rest' closed =>
      rw [Quotation.scan_append quotation] at closed
      obtain ⟨rfl, rfl, rfl⟩ := Quotation.closed.inj closed
      exact .next ih
    next unclosed =>
      rw [Quotation.scan_append quotation] at unclosed
      cases unclosed
  | case4 ds raw rest quotation _ ih => exact .broken
  | case5 ds _ _ _ ih =>
    obtain ⟨raw, rest, e⟩ := scan_comment (ds ++ (g :: gap ++ '#' :: c))
    rw [List.cons_append, e]
    exact .commented
  | case6 d ds solid quote mark _ ih =>
    obtain ⟨taken, dropped⟩ := span_append end? ds (gap ++ '#' :: c)
    rw [List.cons_append, scan, if_neg solid, if_neg quote, if_neg mark]
    simp only [List.cons_append, taken, dropped]
    exact .next ih

end ValueToken
end TypedProperties
