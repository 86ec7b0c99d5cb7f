import Mathlib.Data.List.Infix
import TypedProperties.Text.Blank
import TypedProperties.Text.Cut

/-! Cutting text: runs of characters, first words, pieces that occur in a text, and quotes around it. -/
namespace TypedProperties
namespace Text

theorem span_run {p : Char → Bool} {s t : Text} (run : ∀ c ∈ s, p c = true)
    (stop : ∀ c ∈ t.head?, p c = false) :
    (s ++ t).takeWhile p = s ∧ (s ++ t).dropWhile p = t := by
  rw [List.takeWhile_append_of_pos run, List.dropWhile_append_of_pos run]
  cases t with
  | nil => simp
  | cons c t => simp [stop c rfl]

theorem head?_dropWhile (p : Char → Bool) (t : Text) : ∀ c ∈ (t.dropWhile p).head?, p c = false := by
  intro c head
  have stop := List.head?_dropWhile_not p t
  rw [Option.mem_def.mp head] at stop
  simpa using stop

theorem cutWord_word {word : Text} (rest : Text) (h : ∀ c ∈ word, isSpace c = false)
    (stop : ∀ c ∈ rest.head?, isSpace c = true) : cutWord (word ++ rest) = (word, rest) := by
  obtain ⟨taken, dropped⟩ := span_run (p := fun c => !isSpace c) (s := word) (t := rest)
    (fun c hc => by simp [h c hc]) (fun c hc => by simp [stop c hc])
  rw [cutWord, taken, dropped]

theorem dropMark_eq_none_iff {mark : Char} {t : Text} :
    dropMark mark t = none ↔ t.getLast? ≠ some mark := by
  rw [Option.eq_none_iff_forall_ne_some]
  simp only [ne_eq, dropMark_eq_some_iff]
  cases t using List.reverseRecOn with
  | nil => simp
  | append_singleton t c => simp

theorem dropMark_append {mark : Char} (s : Text) {t : Text} (h : t ≠ []) :
    dropMark mark (s ++ t) = (dropMark mark t).map (s ++ ·) := by
  cases t using List.reverseRecOn with
  | nil => exact absurd rfl h
  | append_singleton t c =>
    by_cases hc : c = mark
    · subst hc
      rw [← List.append_assoc, dropMark_eq_some_iff.mpr rfl, dropMark_eq_some_iff.mpr rfl]
      rfl
    · have none : ∀ r : Text, dropMark mark (r ++ [c]) = none := fun r => by
        rw [dropMark_eq_none_iff]
        simpa using hc
      rw [← List.append_assoc, none, none]
      rfl

theorem splitAll_eq_splitOn (mark : Char) (t : Text) : splitAll mark t = t.splitOn mark := by
  induction t with
  | nil => simp [splitAll]
  | cons c t ih =>
    obtain ⟨p, ps, e⟩ := List.exists_cons_of_ne_nil (List.splitOn_ne_nil mark t)
    rw [splitAll, ih, List.splitOn_cons_eq_if_modifyHead]
    simp [e]

theorem splitAll_ne_nil (mark : Char) (t : Text) : splitAll mark t ≠ [] :=
  splitAll_eq_splitOn mark t ▸ List.splitOn_ne_nil mark t

theorem not_mem_splitAll {mark : Char} {t : Text} : ∀ part ∈ splitAll mark t, mark ∉ part := by
  induction t with
  | nil => simp [splitAll]
  | cons c t ih =>
    rw [splitAll]
    split
    next h => simpa using ih
    next h =>
      split
      next => simpa using Ne.symm h
      next p ps e =>
        rw [e] at ih
        obtain ⟨first, others⟩ := List.forall_mem_cons.mp ih
        refine List.forall_mem_cons.mpr ⟨fun mem => ?_, others⟩
        exact (List.mem_cons.mp mem).elim (fun same => h same.symm) first

/-- The parts between the marks are those texts without a mark that make up the text when marks stand between
them. -/
theorem splitAll_eq_iff {mark : Char} {t : Text} {parts : List Text} :
    splitAll mark t = parts ↔ parts ≠ [] ∧ (∀ p ∈ parts, mark ∉ p) ∧ [mark].intercalate parts = t := by
  constructor
  · rintro rfl
    refine ⟨splitAll_ne_nil mark t, not_mem_splitAll, ?_⟩
    rw [splitAll_eq_splitOn]
    exact List.intercalate_splitOn mark
  · rintro ⟨some, unmarked, rfl⟩
    rw [splitAll_eq_splitOn]
    exact List.splitOn_intercalate mark unmarked some

theorem cutOn_eq_none_iff {piece t : Text} : cutOn piece t = none ↔ ¬ piece <:+: t := by
  induction t with
  | nil =>
    cases piece with
    | nil => simp [cutOn, dropLead]
    | cons p ps => simp [cutOn, dropLead]
  | cons c t ih =>
    rw [List.infix_cons_iff, not_or, ← ih, cutOn]
    cases lead : dropLead piece (c :: t) with
    | some r =>
      have : piece <+: c :: t := ⟨r, (dropLead_eq_some_iff.mp lead).symm⟩
      simp [this]
    | none =>
      have : ¬ piece <+: c :: t := by
        rintro ⟨r, e⟩
        rw [dropLead_eq_some_iff.mpr e.symm] at lead
        cases lead
      simp [this]

theorem prefix_of_append_cons {piece s t : Text} {c : Char} (h : c ∉ piece)
    (lead : piece <+: s ++ c :: t) : piece <+: s := by
  induction s generalizing piece with
  | nil =>
    cases piece with
    | nil => exact List.nil_prefix
    | cons p ps =>
      obtain ⟨rfl, -⟩ := List.cons_prefix_cons.mp lead
      exact absurd List.mem_cons_self h
  | cons d s ih =>
    cases piece with
    | nil => exact List.nil_prefix
    | cons p ps =>
      obtain ⟨rfl, rest⟩ := List.cons_prefix_cons.mp lead
      exact List.cons_prefix_cons.mpr ⟨rfl, ih (fun mem => h (List.mem_cons_of_mem _ mem)) rest⟩

theorem infix_append_cons {piece s t : Text} {c : Char} (h : c ∉ piece) :
    piece <:+: s ++ c :: t ↔ piece <:+: s ∨ piece <:+: t := by
  constructor
  · intro found
    induction s with
    | nil =>
      rcases List.infix_cons_iff.mp found with lead | behind
      · exact .inl (prefix_of_append_cons (s := []) h lead).isInfix
      · exact .inr behind
    | cons d s ih =>
      rcases List.infix_cons_iff.mp found with lead | behind
      · exact .inl (prefix_of_append_cons (s := d :: s) h lead).isInfix
      · exact (ih behind).imp_left fun found => List.infix_cons found
  · rintro (found | found)
    · exact found.trans (List.prefix_append s (c :: t)).isInfix
    · exact found.trans ⟨s ++ [c], [], by simp⟩

theorem infix_cons_of_not_mem {piece : Text} {c : Char} (h : c ∉ piece) (some : piece ≠ []) (t : Text) :
    piece <:+: c :: t ↔ piece <:+: t :=
  (infix_append_cons (s := []) h).trans (by simp [some])

theorem cutOn_append {piece s a b : Text} (h : cutOn piece s = some (a, b)) (t : Text) :
    cutOn piece (s ++ t) = some (a, b ++ t) := by
  induction s generalizing a with
  | nil =>
    obtain ⟨r, lead, same⟩ := Option.map_eq_some_iff.mp h
    obtain ⟨rfl, rfl⟩ := Prod.mk.inj same
    obtain ⟨rfl, rfl⟩ := List.append_eq_nil_iff.mp (dropLead_eq_some_iff.mp lead).symm
    cases t <;> simp [cutOn, dropLead]
  | cons c s ih =>
    rw [cutOn] at h
    rw [List.cons_append, cutOn]
    cases lead : dropLead piece (c :: s) with
    | some r =>
      obtain ⟨rfl, rfl⟩ : [] = a ∧ r = b := by simpa [lead] using h
      have lead' : dropLead piece (c :: (s ++ t)) = some (r ++ t) := by
        rw [dropLead_eq_some_iff] at lead ⊢
        rw [← List.cons_append, lead, List.append_assoc]
      rw [lead']
    | none =>
      rw [lead] at h
      obtain ⟨⟨a', b'⟩, cut, same⟩ := Option.map_eq_some_iff.mp h
      obtain ⟨rfl, rfl⟩ := Prod.mk.inj same
      have lead' : dropLead piece (c :: (s ++ t)) = none := by
        rw [Option.eq_none_iff_forall_ne_some]
        intro r found
        have long : piece.length ≤ (c :: s).length := by
          rw [append_of_cutOn cut]
          simp only [List.length_cons, List.length_append]
          omega
        obtain ⟨rest, same⟩ := List.prefix_of_prefix_length_le
          ⟨r, (dropLead_eq_some_iff.mp found).symm⟩ (List.prefix_append (c :: s) t) long
        rw [dropLead_eq_some_iff.mpr same.symm] at lead
        cases lead
      rw [lead']
      simp [ih cut]

/-- A piece that lacks a character occurs first behind it, if not in front of it. -/
theorem cutOn_append_cons {piece s : Text} {c : Char} (absent : c ∉ piece) (none : cutOn piece s = .none)
    (t : Text) : cutOn piece (s ++ c :: t) = (cutOn piece t).map fun r => (s ++ c :: r.1, r.2) := by
  have bare (s : Text) (lead : dropLead piece s = .none) : dropLead piece (s ++ c :: t) = .none := by
    rw [Option.eq_none_iff_forall_ne_some]
    intro r found
    obtain ⟨rest, same⟩ := prefix_of_append_cons absent ⟨r, (dropLead_eq_some_iff.mp found).symm⟩
    rw [dropLead_eq_some_iff.mpr same.symm] at lead
    cases lead
  induction s with
  | nil =>
    have lead : dropLead piece [] = .none := by simpa [cutOn] using none
    have := bare [] lead
    rw [List.nil_append] at this ⊢
    rw [cutOn, this]
    rfl
  | cons d s ih =>
    rw [cutOn] at none
    cases lead : dropLead piece (d :: s) with
    | some r => simp [lead] at none
    | none =>
      have lead' := bare (d :: s) lead
      rw [lead] at none
      rw [List.cons_append] at lead' ⊢
      rw [cutOn, lead', ih (by simpa using none)]
      cases cutOn piece t <;> rfl

/-- The first occurrence of a piece whose first character is not in it again stands behind a text without it. -/
theorem cutOn_of_not_infix {p : Char} {ps s : Text} (bare : p ∉ ps) (absent : ¬ p :: ps <:+: s) (rest : Text) :
    cutOn (p :: ps) (s ++ (p :: ps ++ rest)) = some (s, rest) := by
  have lead (rest : Text) : dropLead (p :: ps) (p :: ps ++ rest) = some rest := dropLead_eq_some_iff.mpr rfl
  induction s with
  | nil =>
    have here := lead rest
    rw [List.cons_append] at here
    rw [List.nil_append, List.cons_append, cutOn, here]
  | cons d s ih =>
    rw [List.infix_cons_iff, not_or] at absent
    obtain ⟨notHere, behind⟩ := absent
    have none : dropLead (p :: ps) (d :: (s ++ (p :: ps ++ rest))) = none := by
      rw [Option.eq_none_iff_forall_ne_some]
      intro r found
      obtain ⟨rfl, e⟩ := List.cons.inj (dropLead_eq_some_iff.mp found)
      rcases List.append_eq_append_iff.mp e with ⟨t, inside, e⟩ | ⟨t, inside, -⟩
      · cases t with
        | nil => exact notHere ⟨[], by simp [inside]⟩
        | cons c t =>
          -- An occurrence here would reach into the piece behind, and have its first character again.
          obtain ⟨rfl, -⟩ := List.cons.inj e
          exact bare (by simp [inside])
      · exact notHere ⟨t, by simp [inside]⟩
    rw [List.cons_append, cutOn, none]
    simp only [ih behind, Option.map_some]

theorem not_infix_of_cutOn {piece t a b : Text} (bare : piece ≠ []) (cut : cutOn piece t = some (a, b)) :
    ¬ piece <:+: a := by
  intro found
  cases earlier : cutOn piece a with
  | none => exact cutOn_eq_none_iff.mp earlier found
  | some r =>
    have again := cutOn_append earlier (piece ++ b)
    rw [← List.append_assoc, ← append_of_cutOn cut, cut] at again
    have same : a = r.1 := congrArg Prod.fst (Option.some.inj again)
    have whole := congrArg List.length (append_of_cutOn earlier)
    have := List.length_pos_iff.mpr bare
    simp only [same, List.length_append] at whole
    omega

theorem cutAt_append {mark : Char} {s a b : Text} (h : cutAt mark s = some (a, b)) (t : Text) :
    cutAt mark (s ++ t) = some (a, b ++ t) := by
  obtain ⟨rfl, absent⟩ := cutAt_eq_some_iff.mp h
  exact cutAt_eq_some_iff.mpr ⟨by simp, absent⟩

/-- A text with one pair of equal quotes around it, or one without. -/
inductive Unquoted : Text → Text → Prop
  | quoted {q : Char} {inner : Text} (quote : q = '"' ∨ q = '\'') : Unquoted (q :: inner ++ [q]) inner
  | bare {t : Text} (bare : ∀ q inner, q = '"' ∨ q = '\'' → t ≠ q :: inner ++ [q]) : Unquoted t t

theorem stripQuotes_eq_iff {t u : Text} : stripQuotes t = u ↔ Unquoted t u := by
  constructor
  · rintro rfl
    unfold stripQuotes
    split
    · exact .bare fun q inner _ => by simp
    next q t =>
      split_ifs with quote
      · cases mark : dropMark q t with
        | none =>
          refine .bare fun q' inner _ e => ?_
          obtain ⟨rfl, inside⟩ := List.cons.inj e
          rw [dropMark_eq_some_iff.mpr inside] at mark
          cases mark
        | some inner =>
          rw [dropMark_eq_some_iff.mp mark]
          exact .quoted quote
      · refine .bare fun q' inner quote' e => ?_
        obtain ⟨rfl, -⟩ := List.cons.inj e
        exact quote quote'
  · intro unquoted
    cases unquoted with
    | @quoted q inner quote => rw [List.cons_append, stripQuotes, if_pos quote, dropMark_eq_some_iff.mpr rfl]; rfl
    | bare bare =>
      unfold stripQuotes
      split
      · rfl
      next q t =>
        split_ifs with quote
        · cases mark : dropMark q t with
          | none => rfl
          | some inner =>
            rw [dropMark_eq_some_iff.mp mark] at bare
            exact absurd rfl (bare q inner quote)
        · rfl

theorem isInfix_stripQuotes (t : Text) : stripQuotes t <:+: t := by
  have unquoted := stripQuotes_eq_iff.mp (rfl : stripQuotes t = stripQuotes t)
  generalize stripQuotes t = u at unquoted
  cases unquoted with
  | @quoted q inner _ => exact ⟨[q], [q], by simp⟩
  | bare _ => exact List.infix_rfl

end Text
end TypedProperties
