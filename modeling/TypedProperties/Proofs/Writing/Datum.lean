import TypedProperties.Proofs.Declaration.Values
import TypedProperties.Proofs.Line.Layout
import TypedProperties.Proofs.Store.Sound
import TypedProperties.Proofs.Variant.Template

/-! The logical lines of a written datum. -/
namespace TypedProperties
namespace Datum

open ValueToken Text

theorem relaid_lineBreak (before after : Text) :
    Relaid (before ++ ' ' :: after) (before ++ (lineBreak ++ after)) := by
  have edit : Relaid ((before ++ [' ']) ++ after) ((before ++ [' ']) ++ Lines.continuation :: '\n' :: after) :=
    .broken (by simp) fun marked => absurd marked (by simp [Lines.continuation])
  simpa [lineBreak] using edit

/-- A row of texts, and the same with breaks for some of its spaces. -/
def Breaks (ts : List Text) (t : Text) : Prop :=
  ∃ row, Row ts row ∧ ∀ before after,
    Relation.ReflTransGen Relaid (before ++ (row ++ after)) (before ++ (t ++ after))

theorem breaks_of_row {ts : List Text} {t : Text} (row : Row ts t) : Breaks ts t :=
  ⟨t, row, fun _ _ => .refl⟩

theorem Breaks.cons {ts : List Text} {t : Text} (first : Text) (h : Breaks ts t) :
    Breaks (first :: ts) (' ' :: first ++ t) := by
  obtain ⟨row, isRow, edits⟩ := h
  refine ⟨[' '] ++ (first ++ row), .cons [' '] (by simp) (by simp) isRow, fun before after => ?_⟩
  simpa using edits (before ++ ' ' :: first) after

theorem Breaks.lineBreak {first : Text} {ts : List Text} {t : Text} (h : Breaks (first :: ts) t) :
    Breaks (first :: ts) (Datum.lineBreak ++ t) := by
  obtain ⟨row, isRow, edits⟩ := h
  refine ⟨' ' :: row, isRow.widen, fun before after => ?_⟩
  have inner := edits (before ++ [' ']) after
  have outer := relaid_lineBreak before (t ++ after)
  simp only [List.append_assoc, List.cons_append] at inner outer ⊢
  exact inner.tail outer

theorem row_unwrapped (ts : List Text) : Row ts (unwrapped ts) := by
  induction ts with
  | nil => exact .nil
  | cons first ts ih =>
    exact Row.cons [' '] (by simp) (by simp) ih

theorem breaks_wrapped (n i : Nat) (ts : List Text) : Breaks ts (wrapped n i ts) := by
  fun_induction wrapped n i ts with
  | case1 => exact breaks_of_row .nil
  | case2 i v => simpa using (breaks_of_row .nil).cons v
  | case3 i v w rest full ih => simpa using ih.lineBreak.cons v
  | case4 i v w rest full ih => simpa using ih.cons v

theorem breaks_valueBlock (wrap : Bool) (n : Nat) (ts : List Text) : Breaks ts (valueBlock wrap n ts) := by
  unfold valueBlock
  split_ifs with long
  · cases ts with
    | nil => simp at long
    | cons first ts => exact (breaks_wrapped n 0 _).lineBreak
  · exact breaks_of_row (row_unwrapped ts)

end Datum

namespace Text

/-- A text on one line, without white space around it or a mark at its end. -/
structure IsSolid (t : Text) : Prop where
  some : t ≠ []
  single : '\n' ∉ t
  first : ∀ c ∈ t.head?, isSpace c = false
  last : ∀ c ∈ t.getLast?, isSpace c = false ∧ c ≠ Lines.continuation

theorem IsPlain.isSolid {t : Text} (h : IsPlain t) : IsSolid t where
  some := h.1
  single := h.not_mem (by decide)
  first c hc := isSpace_of_isPlain (h.2 c (List.mem_of_head? hc))
  last c hc := ⟨isSpace_of_isPlain (h.2 c (List.mem_of_getLast? hc)), by
    rintro rfl
    exact h.not_mem (by decide) (List.mem_of_getLast? hc)⟩

theorem IsSolid.append_space {s t : Text} (hs : IsSolid s) (ht : IsSolid t) :
    IsSolid (s ++ ' ' :: t) where
  some := by simp
  single := by simp [hs.single, ht.single]
  first c hc := by
    cases s with
    | nil => exact absurd rfl hs.some
    | cons d s => exact hs.first c hc
  last c hc := by
    rw [List.getLast?_append, List.getLast?_cons, List.getLast?_eq_some_getLast ht.some] at hc
    exact ht.last c (by simpa [List.getLast?_eq_some_getLast ht.some] using hc)

theorem isSolid_quote {t : Text} (single : '\n' ∉ t) : IsSolid (ValueToken.quote t) where
  some := by simp [ValueToken.quote]
  single := by
    have inside : '\n' ∉ ValueToken.escape t := by
      induction t with
      | nil => simp [ValueToken.escape]
      | cons c t ih =>
        obtain ⟨hc, ht⟩ := not_or.mp (List.mem_cons.not.mp single)
        unfold ValueToken.escape
        split_ifs <;> simp [hc, ih ht]
    simp [ValueToken.quote, inside]
  first c hc := by
    obtain rfl : '"' = c := by simpa [ValueToken.quote] using hc
    decide
  last c hc := by
    obtain rfl : '"' = c := by simpa [ValueToken.quote, List.getLast?_cons, List.getLast?_append] using hc
    decide

end Text

namespace Declaration.Shape

open ValueToken

variable {s : Shape} {units : UnitSystem} {realWithUnit : Bool}

theorem isSolid_valueTexts {d : Data} (single : d.SingleLine) (factor : Float) :
    ∀ t ∈ Datum.valueTexts factor d, t.IsSolid := by
  intro t ht
  cases d with
  | boolean vs =>
    obtain ⟨v, -, rfl⟩ := List.mem_map.mp ht
    exact (Text.isPlain_ofBoolean v).isSolid
  | integer vs =>
    obtain ⟨v, -, rfl⟩ := List.mem_map.mp ht
    exact (Text.isPlain_ofInt v.toInt).isSolid
  | real vs u =>
    obtain ⟨v, -, rfl⟩ := List.mem_map.mp ht
    exact (Readout.isPlain_realText _).isSolid
  | string vs path =>
    obtain ⟨v, hv, rfl⟩ := List.mem_map.mp ht
    exact Text.isSolid_quote (single v hv)

theorem isSolid_texts (valid : s.Valid units realWithUnit) (single : s.datum.data.SingleLine) :
    ∀ t ∈ s.texts, t.IsSolid := by
  have solid := isSolid_valueTexts single s.factor
  unfold texts
  split
  next symbol unit _ =>
    obtain ⟨u, hu, rfl⟩ := Option.map_eq_some_iff.mp unit
    intro t ht
    obtain ⟨value, hv, rfl⟩ := List.mem_map.mp ht
    exact (solid value hv).append_space (valid.unit u hu).1.isSolid
  · exact solid

/-- Written strings are quoted, and other values are plain, with a unit behind a space. -/
theorem texts_cases (valid : s.Valid units realWithUnit) :
    s.texts = s.datum.data.strings.map quote ∨
      s.datum.data.strings = [] ∧ ∀ t ∈ s.texts, ∀ c ∈ t, Text.isPlain c = true ∨ c = ' ' := by
  have plain {t : Text} (h : t.IsPlain) : ∀ c ∈ t, Text.isPlain c = true ∨ c = ' ' :=
    fun c hc => .inl (h.2 c hc)
  cases data : s.datum.data with
  | string vs path =>
    refine .inl ?_
    rw [texts_of_none (unit_eq_none valid (by simp [data, Data.kind])), data]
    rfl
  | _ =>
    refine .inr ⟨rfl, ?_⟩
    have values : ∀ t ∈ Datum.valueTexts s.factor s.datum.data, ∀ c ∈ t, Text.isPlain c = true ∨ c = ' ' := by
      rw [data]
      intro t ht
      obtain ⟨v, -, rfl⟩ := List.mem_map.mp ht
      first
        | exact plain (Text.isPlain_ofBoolean v)
        | exact plain (Text.isPlain_ofInt v.toInt)
        | exact plain (Readout.isPlain_realText _)
    unfold texts
    split
    next symbol unit _ =>
      obtain ⟨u, hu, rfl⟩ := Option.map_eq_some_iff.mp unit
      intro t ht c hc
      obtain ⟨value, hv, rfl⟩ := List.mem_map.mp ht
      rcases List.mem_append.mp hc with value' | symbol
      · exact values value hv c value'
      · rcases List.mem_cons.mp symbol with blank | symbol
        · exact .inr blank
        · exact plain (valid.unit u hu).1 c symbol
    · exact values

/-- A written row opens a reference to a variant parameter where a string does. -/
theorem openTag_infix_iff (valid : s.Valid units realWithUnit) {row : Text} (isRow : Row s.texts row) :
    Template.openTag <:+: Text.trim row ↔ ¬ s.datum.data.Unreferenced := by
  rw [Text.infix_trim_iff (by decide) (by decide), isRow.infix_iff (by decide) (by decide), Data.Unreferenced]
  push Not
  rcases texts_cases valid with quoted | ⟨none, plain⟩
  · simp only [quoted, List.mem_map, exists_exists_and_eq_and,
      infix_quote_iff (by decide : Template.openTag ≠ []) (by decide) (by decide)]
  · rw [none]
    refine ⟨fun ⟨t, ht, inside⟩ => ?_, by simp⟩
    exact absurd (plain t ht '@' (inside.subset (by decide))) (by decide)

theorem count_row (valid : s.Valid units realWithUnit) {row : Text} (isRow : Row s.texts row) :
    row.count '(' = s.datum.data.strings.flatten.count '(' := by
  rw [isRow.count_eq (by decide)]
  rcases texts_cases valid with quoted | ⟨none, plain⟩
  · rw [quoted, List.count_flatten, List.count_flatten, List.map_map]
    congr 2
    funext t
    exact count_quote (by decide) (by decide) t
  · rw [none, List.flatten_nil, List.count_nil, List.count_eq_zero]
    intro mem
    obtain ⟨t, ht, mem⟩ := List.mem_flatten.mp mem
    exact absurd (plain t ht _ mem) (by decide)

theorem scan_trim {ts : List Text} {row : Text} (isRow : Row ts row) (solid : ∀ t ∈ ts, t.IsSolid) :
    scan (Text.trim row) = scan row := by
  have last := isRow.getLast? (fun t ht => (solid t ht).some) fun t ht => (solid t ht).last
  cases isRow with
  | nil => rfl
  | @cons gap first ts rest _ spaces row =>
    have here := solid first List.mem_cons_self
    have blank : Text.isBlank gap = true := List.all_eq_true.mpr fun c hc => by
      rw [spaces c hc]
      decide
    have tight : Text.trim (first ++ rest) = first ++ rest := by
      refine Text.trim_eq_self (fun c hc => here.first c ?_) fun c hc => (last c ?_).1
      · cases e : first with
        | nil => exact absurd e here.some
        | cons d first => simpa [e] using hc
      · rw [List.getLast?_append, hc]
        rfl
    rw [Text.trim_blank_append blank, tight, scan_spaces spaces]

end Declaration.Shape
end TypedProperties
