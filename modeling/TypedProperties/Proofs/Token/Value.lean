import TypedProperties.Proofs.Text.Cut
import TypedProperties.Token.Value

/-! The tokens of written values: quoted strings and words, with blanks in front of each. -/
namespace TypedProperties

def AtGap (t : Text) : Prop := ∀ c ∈ t.head?, isGap c = true

theorem atGap_nil : AtGap [] := by
  rintro c ⟨⟩

theorem atGap_space (t : Text) : AtGap (' ' :: t) := by
  rintro c ⟨⟩
  decide

namespace ValueToken

/-- A text that stands for one token wherever a blank or the end follows it. -/
def Spells (t : Text) (token : ValueToken) : Prop :=
  ∀ r, AtGap r → scan (t ++ r) = ⟨token, t, t ++ r⟩ :: scan r

@[simp] theorem scan_nil : scan [] = [] := by
  rw [scan]

theorem scan_gap {c : Char} (h : isGap c = true) (r : Text) : scan (c :: r) = scan r := by
  rw [scan, if_pos h]

theorem scan_gaps {gap : Text} (blank : ∀ c ∈ gap, isGap c = true) (r : Text) : scan (gap ++ r) = scan r := by
  induction gap with
  | nil => rfl
  | cons c gap ih =>
    obtain ⟨hc, hs⟩ := List.forall_mem_cons.mp blank
    rw [List.cons_append, scan_gap hc, ih hs]

theorem scan_spaces {s : Text} (h : ∀ c ∈ s, c = ' ') (r : Text) : scan (s ++ r) = scan r :=
  scan_gaps (fun c hc => h c hc ▸ rfl) r

theorem Quotation.scan_escape (t r : Text) :
    Quotation.scan (escape t ++ '"' :: r) = .closed t (escape t ++ ['"']) r := by
  induction t with
  | nil => rfl
  | cons c t ih =>
    by_cases special : c = '"' ∨ c = '\\'
    · have line : c ≠ '\n' := by rcases special with rfl | rfl <;> decide
      simp [escape, special, Quotation.scan, line, ih, Quotation.behind]
    · obtain ⟨quote, slash⟩ := not_or.mp special
      simp [escape, Quotation.scan, quote, slash, ih, Quotation.behind]

theorem scan_quoted {cs text raw rest : Text} (closed : Quotation.scan cs = .closed text raw rest) :
    scan ('"' :: cs) = ⟨.quoted text, '"' :: raw, '"' :: cs⟩ :: scan rest := by
  rw [scan, if_neg (by decide), if_pos rfl]
  split
  next same =>
    rw [closed] at same
    cases same
    rfl
  next same =>
    rw [closed] at same
    cases same

theorem scan_broken {cs raw rest : Text} (unclosed : Quotation.scan cs = .unclosed raw rest) :
    scan ('"' :: cs) = ⟨.broken, '"' :: raw, '"' :: cs⟩ :: scan rest := by
  rw [scan, if_neg (by decide), if_pos rfl]
  split
  next same =>
    rw [unclosed] at same
    cases same
  next same =>
    rw [unclosed] at same
    cases same
    rfl

theorem scan_quote (t r : Text) : scan (quote t ++ r) = ⟨.quoted t, quote t, quote t ++ r⟩ :: scan r := by
  have e : quote t ++ r = '"' :: (escape t ++ '"' :: r) := by simp [quote]
  rw [e, scan_quoted (Quotation.scan_escape t r)]
  simp [quote]

theorem spells_quote (t : Text) : Spells (quote t) (.quoted t) := fun r _ => scan_quote t r

theorem spells_word {c : Char} {t : Text} (h : ∀ d ∈ c :: t, isWordChar d = true) (mark : c ≠ '#') :
    Spells (c :: t) (.word (c :: t)) := by
  intro r gap
  have first : isWordChar c = true := h c List.mem_cons_self
  obtain ⟨blank, quote⟩ : isGap c = false ∧ c ≠ '"' := by simpa [isWordChar] using first
  have rest : ∀ d ∈ t, isWordChar d = true := fun d hd => h d (List.mem_cons_of_mem _ hd)
  obtain ⟨taken, dropped⟩ := Text.span_run (t := r) rest fun d hd => by simp [isWordChar, gap d hd]
  rw [List.cons_append, scan, if_neg (by simp [blank]), if_neg quote, if_neg mark]
  simp only [taken, dropped]

/-- Texts in a row, with one or more spaces in front of each. -/
inductive Row : List Text → Text → Prop
  | nil : Row [] []
  | cons (gap : Text) {t : Text} {ts : List Text} {rest : Text} (some : gap ≠ [])
      (spaces : ∀ c ∈ gap, c = ' ') : Row ts rest → Row (t :: ts) (gap ++ (t ++ rest))

namespace Row

variable {ts : List Text} {t : Text}

theorem atGap (row : Row ts t) {r : Text} (gap : AtGap r) : AtGap (t ++ r) := by
  cases row with
  | nil => exact gap
  | @cons blanks _ _ _ some spaces _ =>
    cases blanks with
    | nil => exact absurd rfl some
    | cons c blanks =>
      obtain rfl := spaces c List.mem_cons_self
      rw [List.cons_append, List.cons_append]
      exact atGap_space _

theorem widen {first : Text} (row : Row (first :: ts) t) : Row (first :: ts) (' ' :: t) := by
  cases row with
  | @cons gap _ _ _ some spaces row =>
    exact Row.cons (' ' :: gap) (by simp) (by simpa using spaces) row

theorem mem {c : Char} (row : Row ts t) (h : c ∈ t) : c = ' ' ∨ ∃ first ∈ ts, c ∈ first := by
  induction row with
  | nil => cases h
  | cons _ _ spaces _ ih =>
    rcases List.mem_append.mp h with gap | h
    · exact .inl (spaces c gap)
    · rcases List.mem_append.mp h with here | behind
      · exact .inr ⟨_, List.mem_cons_self, here⟩
      · exact (ih behind).imp_right fun ⟨first, mem, h⟩ => ⟨first, List.mem_cons_of_mem _ mem, h⟩

theorem count_eq {c : Char} (row : Row ts t) (solid : c ≠ ' ') : t.count c = ts.flatten.count c := by
  induction row with
  | nil => rfl
  | @cons gap first ts rest _ spaces row ih =>
    have absent : gap.count c = 0 := List.count_eq_zero.mpr fun mem => solid (spaces c mem)
    rw [List.count_append, List.count_append, absent, ih, List.flatten_cons, List.count_append, Nat.zero_add]

theorem getLast? {P : Char → Prop} (row : Row ts t) (some : ∀ first ∈ ts, first ≠ [])
    (last : ∀ first ∈ ts, ∀ c ∈ first.getLast?, P c) : ∀ c ∈ t.getLast?, P c := by
  induction row with
  | nil => rintro c ⟨⟩
  | @cons gap first ts rest _ _ row ih =>
    intro c hc
    have here := some first List.mem_cons_self
    rw [List.getLast?_append, List.getLast?_append] at hc
    cases behind : rest.getLast? with
    | some d =>
      refine ih (fun t ht => some t (List.mem_cons_of_mem _ ht))
        (fun t ht => last t (List.mem_cons_of_mem _ ht)) c ?_
      simpa [behind] using hc
    | none =>
      refine last first List.mem_cons_self c ?_
      simpa [behind, List.getLast?_eq_some_getLast here] using hc

theorem infix_iff {piece : Text} (row : Row ts t) (some : piece ≠ []) (solid : ' ' ∉ piece) :
    piece <:+: t ↔ ∃ first ∈ ts, piece <:+: first := by
  have spaces {gap : Text} (h : ∀ c ∈ gap, c = ' ') (r : Text) : piece <:+: gap ++ r ↔ piece <:+: r := by
    induction gap with
    | nil => rfl
    | cons c gap ih =>
      obtain ⟨rfl, hs⟩ : c = ' ' ∧ ∀ c ∈ gap, c = ' ' := by simpa using h
      rw [List.cons_append, Text.infix_cons_of_not_mem solid some, ih hs]
  induction row with
  | nil => simp [some]
  | @cons gap first ts rest _ blank row ih =>
    rw [spaces blank, List.exists_mem_cons_iff]
    refine Iff.trans ?_ (or_congr_right ih)
    cases row with
    | nil => simp [some]
    | @cons gap' _ _ _ some' blank' row' =>
      cases gap' with
      | nil => exact absurd rfl some'
      | cons c gap' =>
        obtain rfl := blank' c List.mem_cons_self
        rw [List.cons_append, Text.infix_append_cons solid, Text.infix_cons_of_not_mem solid some]

end Row

/-- A character that needs no escape occurs in the quoted form as often as in the string. -/
theorem count_quote {c : Char} (bare : c ≠ '"') (slash : c ≠ '\\') (t : Text) :
    (quote t).count c = t.count c := by
  have inside : (escape t).count c = t.count c := by
    induction t with
    | nil => rfl
    | cons d t ih =>
      unfold escape
      split_ifs <;> simp [List.count_cons, ih, Ne.symm slash]
  simp [quote, inside, Ne.symm bare]

/-- A piece without quotes and backslashes occurs in the quoted form where it does in the string. -/
theorem infix_quote_iff {piece t : Text} (some : piece ≠ []) (bare : '"' ∉ piece) (slash : '\\' ∉ piece) :
    piece <:+: quote t ↔ piece <:+: t := by
  have lead {piece : Text} (bare : '"' ∉ piece) (slash : '\\' ∉ piece) (t : Text) :
      piece <+: escape t ↔ piece <+: t := by
    induction piece generalizing t with
    | nil => simp
    | cons p ps ih =>
      obtain ⟨hp, hps⟩ := not_or.mp (List.mem_cons.not.mp bare)
      obtain ⟨sp, sps⟩ := not_or.mp (List.mem_cons.not.mp slash)
      cases t with
      | nil => simp [escape]
      | cons c t =>
        by_cases special : c = '"' ∨ c = '\\'
        · have other : p ≠ c := by
            rintro rfl
            exact special.elim (fun e => hp e.symm) fun e => sp e.symm
          rw [escape, if_pos special, List.cons_prefix_cons, List.cons_prefix_cons]
          simp [Ne.symm sp, other]
        · rw [escape, if_neg special, List.cons_prefix_cons, List.cons_prefix_cons, ih hps sps]
  have inside (t : Text) : piece <:+: escape t ↔ piece <:+: t := by
    induction t with
    | nil => simp [escape]
    | cons c t ih =>
      by_cases special : c = '"' ∨ c = '\\'
      · have absent : c ∉ piece := special.elim (· ▸ bare) (· ▸ slash)
        rw [escape, if_pos special, Text.infix_cons_of_not_mem slash some,
          Text.infix_cons_of_not_mem absent some, Text.infix_cons_of_not_mem absent some, ih]
      · rw [List.infix_cons_iff, ← ih, ← lead bare slash, escape, if_neg special, List.infix_cons_iff]
  rw [quote, List.cons_append, Text.infix_cons_of_not_mem bare some, Text.infix_append_cons bare,
    inside]
  simp [some]

end ValueToken

end TypedProperties
