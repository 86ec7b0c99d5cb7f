import TypedProperties.Proofs.Line.Layout

/-! Text put at the end of one physical line: which logical line gets it. -/
namespace TypedProperties
namespace Text

/-- Put `more` at the end of the line that `k` lines stand in front of, before its line feed and a
carriage return there. -/
def appendToLine (more : Text) : Nat → Text → Text
  | 0, t =>
    match cutAt '\n' t with
    | none => t ++ more
    | some (line, rest) =>
      match dropMark '\r' line with
      | some content => content ++ more ++ ['\r'] ++ '\n' :: rest
      | none => line ++ more ++ '\n' :: rest
  | k + 1, t =>
    match cutAt '\n' t with
    | none => t
    | some (line, rest) => line ++ '\n' :: appendToLine more k rest

theorem cutAt_line {line : Text} (h : '\n' ∉ line) (rest : Text) :
    cutAt '\n' (line ++ '\n' :: rest) = some (line, rest) :=
  cutAt_eq_some_iff.mpr ⟨rfl, h⟩

theorem chomp_cases (t : Text) : chomp t = t ∨ t = chomp t ++ ['\r'] := by
  unfold chomp
  cases mark : dropMark '\r' t with
  | none => exact .inl rfl
  | some r => exact .inr (dropMark_eq_some_iff.mp mark)

/-- A carriage return is part of the line end, also one that comes with the new text. -/
theorem physical_appendToLine {more t : Text} (some : more ≠ []) (single : '\n' ∉ more) {front behind : List Text}
    {piece : Text} (h : physical t = front ++ piece :: behind) :
    ∃ new, (new = more ∨ new = chomp more) ∧
      physical (appendToLine more front.length t) = front ++ (piece ++ new) :: behind := by
  induction front generalizing t with
  | nil =>
    rcases line_cases t with one | ⟨line, rest, rfl, one⟩
    · have ne : t ≠ [] := by
        rintro rfl
        simp at h
      obtain ⟨rfl, rfl⟩ := List.cons.inj ((physical_unended one ne).symm.trans h)
      refine ⟨more, .inl rfl, ?_⟩
      rw [List.length_nil, appendToLine, cutAt_eq_none_iff.mpr one]
      exact physical_unended (by simp [one, single]) (by simp [ne])
    · obtain ⟨rfl, rfl⟩ := List.cons.inj ((physical_line one rest).symm.trans h)
      rw [List.length_nil, appendToLine, cutAt_line one]
      cases mark : dropMark '\r' line with
      | some content =>
        obtain rfl := dropMark_eq_some_iff.mp mark
        have one' : '\n' ∉ content ++ more ++ ['\r'] := by
          simp only [List.mem_append, not_or] at one ⊢
          exact ⟨⟨one.1, single⟩, one.2⟩
        refine ⟨more, .inl rfl, ?_⟩
        simp only [mark]
        rw [chomp_return, physical_line one', chomp_return]
        rfl
      | none =>
        have bare : chomp line = line := by rw [chomp, mark]; rfl
        refine ⟨chomp more, .inr rfl, ?_⟩
        simp only [mark]
        rw [physical_line (by simp [one, single]), chomp_append line (.inl some), bare]
        rfl
  | cons first front ih =>
    rcases line_cases t with one | ⟨line, rest, rfl, one⟩
    · have short : (physical t).length ≤ 1 := by
        by_cases ne : t = []
        · simp [ne]
        · simp [physical_unended one ne]
      rw [h] at short
      simp at short
    · rw [physical_line one, List.cons_append] at h
      obtain ⟨rfl, behind⟩ := List.cons.inj h
      obtain ⟨new, which, ih⟩ := ih behind
      refine ⟨new, which, ?_⟩
      rw [List.length_cons, appendToLine, cutAt_line one]
      dsimp only
      rw [physical_line one, ih]
      rfl

end Text

def RawLine.texts (bytes : Bytes) : List (Option Text) := (cut bytes).map text

namespace Lines

theorem finish_cases (d : Draft) (last : Nat) :
    d.finish last = [] ∨ d.finish last = [⟨d.text, d.first, last⟩] := by
  unfold Draft.finish
  split_ifs
  · exact .inl rfl
  · exact .inr rfl

theorem finish_last {d : Draft} {last : Nat} {line : Line} (mem : line ∈ d.finish last) : line.last = last := by
  rcases finish_cases d last with none | one
  · simp [none] at mem
  · rw [one] at mem
    rw [List.mem_singleton.mp mem]

/-- Lines end within the pieces that are read; only one that was in the making may end in front of
them. -/
theorem last_of_assemble {number : Nat} {draft : Option Draft} {pieces : List (Option Text)} {line : Line}
    (mem : line ∈ (assemble number draft pieces).complete) :
    (number < line.last ∨ (number = line.last ∧ draft.isSome = true)) ∧ line.last ≤ number + pieces.length := by
  fun_induction assemble number draft pieces with
  | case1 number draft =>
    cases draft with
    | none => cases mem
    | some d => simp [finish_last mem]
  | case2 => cases mem
  | case3 number draft piece rest d head cut ih =>
    obtain ⟨first, last⟩ := ih mem
    simp only [List.length_cons]
    omega
  | case4 number draft piece rest d cut ih =>
    simp only [List.length_cons]
    rcases List.mem_append.mp mem with here | behind
    · rw [finish_last here]
      omega
    · obtain ⟨first, last⟩ := ih behind
      omega

/-- The lines up to a physical line that is not continued are the same whatever comes behind it, and all
others end behind it. -/
theorem complete_behind {number : Nat} {draft : Option Draft} {front : List (Option Text)} {piece : Option Text}
    (unmarked : ∀ t ∈ piece, Text.dropMark continuation t = none) :
    ∃ whole, ∀ rest, ∃ tail, (assemble number draft (front ++ piece :: rest)).complete = whole ++ tail ∧
      ∀ line ∈ tail, number + front.length + 1 < line.last := by
  induction front generalizing number draft with
  | nil =>
    cases piece with
    | none => exact ⟨[], fun rest => ⟨[], rfl, nofun⟩⟩
    | some t =>
      let d := draft.getD ⟨number + 1, []⟩
      refine ⟨Draft.finish ⟨d.first, d.text ++ t⟩ (number + 1), fun rest =>
        ⟨(assemble (number + 1) none rest).complete, ?_, fun line mem => ?_⟩⟩
      · rw [List.nil_append, assemble, unmarked t rfl]
        rfl
      · simpa using (last_of_assemble mem).1
  | cons first front ih =>
    cases first with
    | none => exact ⟨[], fun rest => ⟨[], rfl, nofun⟩⟩
    | some t =>
      have length : number + (front.length + 1) + 1 = number + 1 + front.length + 1 := by omega
      simp only [List.cons_append, assemble, List.length_cons, length]
      cases Text.dropMark continuation t with
      | some head => exact ih
      | none =>
        let d := draft.getD ⟨number + 1, []⟩
        obtain ⟨whole, behind⟩ := @ih (number + 1) none
        refine ⟨Draft.finish ⟨d.first, d.text ++ t⟩ (number + 1) ++ whole, fun rest => ?_⟩
        obtain ⟨tail, lines, further⟩ := behind rest
        exact ⟨tail, by simp only [prepend, lines, List.append_assoc, d], further⟩

theorem complete_assemble_append {xs : List Text} (ends : ∀ x ∈ xs.getLast?, Text.dropMark continuation x = none)
    (number : Nat) {draft : Option Draft} (start : xs = [] → draft = none) (ys : List Text) :
    (assemble number draft ((xs ++ ys).map some)).complete =
      (assemble number draft (xs.map some)).complete ++
        (assemble (number + xs.length) none (ys.map some)).complete := by
  induction xs generalizing number draft with
  | nil => simp [start rfl, assemble]
  | cons x xs ih =>
    have length : number + (x :: xs).length = number + 1 + xs.length := by
      rw [List.length_cons]
      omega
    simp only [List.cons_append, List.map_cons, assemble, length]
    cases mark : Text.dropMark continuation x with
    | some head =>
      have more : xs ≠ [] := by
        rintro rfl
        simp [mark] at ends
      refine ih (fun y hy => ends y ?_) _ fun none => absurd none more
      rwa [List.getLast?_cons_of_ne_nil more]
    | none =>
      rw [prepend, prepend, ih (fun y hy => ends y ?_) _ fun _ => rfl, List.append_assoc]
      rw [List.getLast?_cons_of_ne_nil]
      · exact hy
      · rintro rfl
        cases hy

theorem complete_append {t : Text} (whole : t.AtLineStart) (s : Text) :
    (ofBytes (Text.encode (t ++ s))).complete = (ofBytes (Text.encode t)).complete ++
      (assemble (Text.physical t).length none ((Text.physical s).map some)).complete := by
  have ended : ∀ c ∈ t.getLast?, c = '\n' := by
    rcases whole with rfl | ⟨r, rfl, -⟩ <;> simp
  rw [ofBytes, ofBytes, RawLine.text_cut_encode, RawLine.text_cut_encode, Text.physical_append ended,
    complete_assemble_append (unmarked_of_atLineStart whole) 0 (fun _ => rfl), Nat.zero_add]

theorem complete_of_same {bytes bytes' : Bytes} {before after : List Line} {line : Line}
    (lines : (ofBytes bytes).complete = before ++ line :: after)
    (ends : ∀ piece, (RawLine.texts bytes)[line.last - 1]? = some (some piece) → piece.getLast? ≠ some continuation)
    (same : (RawLine.texts bytes').take line.last = (RawLine.texts bytes).take line.last) :
    ∃ after', (ofBytes bytes').complete = before ++ line :: after' := by
  have mem : line ∈ (assemble 0 none (RawLine.texts bytes)).complete := by
    change line ∈ (ofBytes bytes).complete
    simp [lines]
  obtain ⟨first, inside⟩ := last_of_assemble mem
  obtain ⟨n, last⟩ : ∃ n, line.last = n + 1 := Nat.exists_eq_add_one.mpr (by simpa using first)
  have inside : n < (RawLine.texts bytes).length := by omega
  let front := (RawLine.texts bytes).take n
  let piece := (RawLine.texts bytes)[n]
  have length : 0 + front.length + 1 = line.last := by
    rw [Nat.zero_add, List.length_take_of_le inside.le, last]
  have taken : (RawLine.texts bytes).take line.last = front ++ [piece] := by
    rw [last, List.take_add_one, List.getElem?_eq_getElem inside]
    rfl
  have pieces {b : Bytes} (same : (RawLine.texts b).take line.last = front ++ [piece]) :
      RawLine.texts b = front ++ piece :: (RawLine.texts b).drop line.last := calc
    RawLine.texts b = (RawLine.texts b).take line.last ++ (RawLine.texts b).drop line.last :=
      (List.take_append_drop _ _).symm
    _ = front ++ piece :: (RawLine.texts b).drop line.last := by rw [same, List.append_assoc]; rfl
  have unmarked : ∀ t ∈ piece, Text.dropMark continuation t = none := by
    intro t ht
    refine Text.dropMark_eq_none_iff.mpr (ends t ?_)
    rw [last, Nat.add_sub_cancel, List.getElem?_eq_getElem inside]
    exact congrArg some ht
  obtain ⟨whole, behind⟩ := @complete_behind 0 none front piece unmarked
  have cut {b : Bytes} (same : (RawLine.texts b).take line.last = front ++ [piece]) :
      ∃ tail, (ofBytes b).complete = whole ++ tail ∧ ∀ l ∈ tail, line.last < l.last := by
    obtain ⟨tail, complete, further⟩ := behind ((RawLine.texts b).drop line.last)
    rw [← pieces same] at complete
    exact ⟨tail, complete, length ▸ further⟩
  obtain ⟨tail, complete, further⟩ := cut taken
  obtain ⟨tail', complete', -⟩ := cut (same.trans taken)
  rw [complete']
  rw [complete] at lines
  rcases List.append_eq_append_iff.mp lines with ⟨more, rfl, rfl⟩ | ⟨more, rfl, rest⟩
  · exact absurd (further line (by simp)) (lt_irrefl _)
  · cases more with
    | nil =>
      rw [List.nil_append] at rest
      exact absurd (further line (by simp [← rest])) (lt_irrefl _)
    | cons first more =>
      obtain ⟨rfl, -⟩ := List.cons.inj rest
      exact ⟨more ++ tail', by simp⟩

theorem assemble_append {number : Nat} {draft : Option Draft} {front behind : List Text} {piece new : Text}
    {before after : List Line} {line : Line} (unmarked : Text.dropMark continuation piece = none)
    (unmarked' : Text.dropMark continuation (piece ++ new) = none) (shown : Text.isBlank new = false)
    (last : line.last = number + front.length + 1)
    (lines : (assemble number draft ((front ++ piece :: behind).map some)).complete = before ++ line :: after) :
    (assemble number draft ((front ++ (piece ++ new) :: behind).map some)).complete =
      before ++ { line with text := line.text ++ new } :: after := by
  induction front generalizing number draft before with
  | nil =>
    simp only [List.nil_append, List.map_cons, assemble, unmarked, unmarked', prepend] at lines ⊢
    have elsewhere : line ∉ (assemble (number + 1) none (behind.map some)).complete := fun mem => by
      have := (last_of_assemble mem).1
      simp [last] at this
    rcases finish_cases ⟨(draft.getD ⟨number + 1, []⟩).first, (draft.getD ⟨number + 1, []⟩).text ++ piece⟩
      (number + 1) with none | one
    · rw [none, List.nil_append] at lines
      exact absurd (by simp [lines]) elsewhere
    · rw [one, List.singleton_append] at lines
      cases before with
      | nil =>
        obtain ⟨rfl, rfl⟩ := List.cons.inj lines
        simp [Draft.finish, shown]
      | cons first before =>
        rw [List.cons_append] at lines
        exact absurd (by simp [(List.cons.inj lines).2]) elsewhere
  | cons first front ih =>
    simp only [List.cons_append, List.map_cons, assemble] at lines ⊢
    cases mark : Text.dropMark continuation first with
    | some head =>
      simp only [mark] at lines
      exact ih (by rw [last, List.length_cons]; omega) lines
    | none =>
      simp only [mark, prepend] at lines ⊢
      have further : line.last = number + 1 + front.length + 1 := by
        rw [last, List.length_cons]
        omega
      rcases finish_cases ⟨(draft.getD ⟨number + 1, []⟩).first, (draft.getD ⟨number + 1, []⟩).text ++ first⟩
        (number + 1) with none | one
      · rw [none, List.nil_append] at lines ⊢
        exact ih further lines
      · rw [one, List.singleton_append] at lines ⊢
        cases before with
        | nil =>
          obtain ⟨rfl, -⟩ := List.cons.inj lines
          simp only at further
          omega
        | cons own before =>
          rw [List.cons_append] at lines
          obtain ⟨rfl, behind⟩ := List.cons.inj lines
          rw [ih further behind, List.cons_append]

/-- The logical line that ends with a physical line gets what is put at its end, less a carriage return
that becomes part of the line end. No other line changes. -/
theorem complete_appendToLine {t more : Text} {before after : List Line} {line : Line}
    (lines : (ofBytes (Text.encode t)).complete = before ++ line :: after)
    (ends : ∀ piece ∈ (Text.physical t)[line.last - 1]?, piece.getLast? ≠ some continuation)
    (single : '\n' ∉ more) (shown : Text.isBlank more = false)
    (unmarked : (Text.chomp more).getLast? ≠ some continuation) :
    ∃ new, (new = more ∨ new = Text.chomp more) ∧
      (ofBytes (Text.encode (Text.appendToLine more (line.last - 1) t))).complete =
        before ++ { line with text := line.text ++ new } :: after := by
  have assembled (t : Text) : ofBytes (Text.encode t) = assemble 0 none ((Text.physical t).map some) := by
    rw [ofBytes, RawLine.text_cut_encode]
  rw [assembled] at lines
  have mem : line ∈ (assemble 0 none ((Text.physical t).map some)).complete := by simp [lines]
  obtain ⟨first, last⟩ := last_of_assemble mem
  have first : 0 < line.last := by simpa using first
  rw [List.length_map] at last
  have inside : line.last - 1 < (Text.physical t).length := by omega
  let front := (Text.physical t).take (line.last - 1)
  let piece := (Text.physical t)[line.last - 1]
  have pieces : Text.physical t = front ++ piece :: (Text.physical t).drop (line.last - 1 + 1) := by
    rw [List.getElem_cons_drop, List.take_append_drop]
  have place : front.length = line.last - 1 := by
    rw [List.length_take]
    omega
  have blank : Text.isSpace '\r' = true := by decide
  -- only what is left of the carriage return and the mark at the end of the new text matters
  have kept : ∀ new, new = more ∨ new = Text.chomp more →
      Text.isBlank new = false ∧ new.getLast? ≠ some continuation := by
    rintro new (e | e) <;> rw [e]
    · refine ⟨shown, ?_⟩
      rcases Text.chomp_cases more with same | cut
      · rwa [same] at unmarked
      · rw [cut, List.getLast?_concat]
        decide
    · refine ⟨?_, unmarked⟩
      rcases Text.chomp_cases more with same | cut
      · rwa [same]
      · rw [cut] at shown
        simpa [blank] using shown
  have some : more ≠ [] := by
    rintro rfl
    cases shown
  obtain ⟨new, which, appended⟩ := Text.physical_appendToLine some single pieces
  rw [place] at appended
  obtain ⟨shown', unmarked'⟩ := kept new which
  have some' : new ≠ [] := by
    rintro rfl
    cases shown'
  refine ⟨new, which, ?_⟩
  rw [assembled, appended]
  rw [pieces] at lines
  refine assemble_append ?_ ?_ shown' (by rw [place]; omega) lines
  · exact Text.dropMark_eq_none_iff.mpr (ends piece (List.getElem?_eq_getElem inside))
  · rw [Text.dropMark_append _ some', Text.dropMark_eq_none_iff.mpr unmarked']
    rfl

end Lines
end TypedProperties
