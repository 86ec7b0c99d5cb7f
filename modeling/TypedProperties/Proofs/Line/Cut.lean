import Mathlib.Tactic.SplitIfs
import TypedProperties.Line.Logical

/-! The physical and logical lines of an input that is a text, said of its characters. -/
namespace TypedProperties
namespace Text

def chomp (t : Text) : Text := (dropMark '\r' t).getD t

/-- A text cut after each line feed: the lines, less their line feeds, and whether they had one. -/
def pieces : Text → List (Text × Bool)
  | [] => []
  | c :: cs =>
    if c = '\n' then ([], true) :: pieces cs
    else
      match pieces cs with
      | [] => [([c], false)]
      | l :: ls => (c :: l.1, l.2) :: ls

/-- The physical lines of a text, as the reader sees them. -/
def physical (t : Text) : List Text := (pieces t).map fun l => if l.2 then chomp l.1 else l.1

@[simp] theorem physical_nil : physical [] = [] := rfl

theorem pieces_unended {t : Text} (h : '\n' ∉ t) (ne : t ≠ []) : pieces t = [(t, false)] := by
  induction t with
  | nil => exact absurd rfl ne
  | cons c cs ih =>
    obtain ⟨hc, hcs⟩ : c ≠ '\n' ∧ '\n' ∉ cs := by simpa [eq_comm] using h
    cases cs with
    | nil => simp [pieces, hc]
    | cons c' cs => rw [pieces, if_neg hc, ih hcs (by simp)]

theorem pieces_line {line : Text} (h : '\n' ∉ line) (rest : Text) :
    pieces (line ++ '\n' :: rest) = (line, true) :: pieces rest := by
  induction line with
  | nil => simp [pieces]
  | cons c cs ih =>
    obtain ⟨hc, hcs⟩ : c ≠ '\n' ∧ '\n' ∉ cs := by simpa [eq_comm] using h
    rw [List.cons_append, pieces, if_neg hc, ih hcs]

theorem physical_unended {t : Text} (h : '\n' ∉ t) (ne : t ≠ []) : physical t = [t] := by
  simp [physical, pieces_unended h ne]

theorem physical_line {line : Text} (h : '\n' ∉ line) (rest : Text) :
    physical (line ++ '\n' :: rest) = chomp line :: physical rest := by
  simp [physical, pieces_line h]

theorem line_cases (t : Text) : '\n' ∉ t ∨ ∃ line rest, t = line ++ '\n' :: rest ∧ '\n' ∉ line := by
  cases h : cutAt '\n' t with
  | none => exact .inl (cutAt_eq_none_iff.mp h)
  | some r => exact .inr ⟨r.1, r.2, cutAt_eq_some_iff.mp h⟩

theorem line_induction {P : Text → Prop} (unended : ∀ t, '\n' ∉ t → P t)
    (line : ∀ line rest, '\n' ∉ line → P rest → P (line ++ '\n' :: rest)) (t : Text) : P t := by
  induction hn : t.length using Nat.strongRecOn generalizing t with
  | ind n ih =>
    rcases line_cases t with one | ⟨first, rest, rfl, one⟩
    · exact unended t one
    · exact line first rest one (ih rest.length (by simp [← hn]; omega) rest rfl)

end Text

namespace RawLine

theorem lineFeed_not_mem_encode {c : Char} (h : c ≠ '\n') : (10 : UInt8) ∉ String.utf8EncodeChar c := by
  have hv : c.val.toNat ≠ 10 := fun e => h (Char.ext (UInt32.toNat_inj.mp e))
  have h10 : (10 : UInt8).toNat = 10 := rfl
  simp only [String.utf8EncodeChar]
  split_ifs <;> simp only [List.mem_cons, List.not_mem_nil, or_false, not_or, ← UInt8.toNat_inj,
    UInt8.toNat_ofNat', h10] <;> omega

theorem lineFeed_not_mem_encode_text {t : Text} (h : '\n' ∉ t) : (10 : UInt8) ∉ Text.encode t := by
  rw [Text.encode, List.mem_flatMap]
  rintro ⟨c, hc, mem⟩
  exact lineFeed_not_mem_encode (fun e => h (e ▸ hc)) mem

theorem cut_unended {bytes : Bytes} (h : (10 : UInt8) ∉ bytes) (ne : bytes ≠ []) :
    cut bytes = [⟨bytes, false⟩] := by
  induction bytes with
  | nil => exact absurd rfl ne
  | cons b bs ih =>
    obtain ⟨hb, hbs⟩ : b ≠ 10 ∧ (10 : UInt8) ∉ bs := by simpa [eq_comm] using h
    cases bs with
    | nil => simp [cut, hb]
    | cons b' bs => rw [cut, if_neg hb, ih hbs (by simp)]

theorem cut_line {bytes : Bytes} (h : (10 : UInt8) ∉ bytes) (rest : Bytes) :
    cut (bytes ++ 10 :: rest) = ⟨bytes, true⟩ :: cut rest := by
  induction bytes with
  | nil => simp [cut]
  | cons b bs ih =>
    obtain ⟨hb, hbs⟩ : b ≠ 10 ∧ (10 : UInt8) ∉ bs := by simpa [eq_comm] using h
    rw [List.cons_append, cut, if_neg hb, ih hbs]

theorem text_cut_encode (t : Text) :
    (cut (Text.encode t)).map text = (Text.physical t).map some := by
  induction t using Text.line_induction with
  | unended t h =>
    by_cases ne : t = []
    · subst ne
      rfl
    · have ne' : Text.encode t ≠ [] := fun e => ne (by simpa [e, Text.decode] using Text.decode_encode t)
      rw [cut_unended (lineFeed_not_mem_encode_text h) ne', Text.physical_unended h ne]
      simp [text]
  | line line rest h ih =>
    have e : Text.encode (line ++ '\n' :: rest) = Text.encode line ++ 10 :: Text.encode rest := by
      rw [Text.encode_append]
      rfl
    rw [e, cut_line (lineFeed_not_mem_encode_text h), Text.physical_line h, List.map_cons,
      List.map_cons, ih]
    simp [text, Text.chomp]

theorem encode_of_decode {bytes : Bytes} {t : Text} (h : Text.decode bytes = some t) :
    Text.encode t = bytes := by
  have valid : bytes.toByteArray.IsValidUTF8 := by
    obtain ⟨chars, decoded, -⟩ := Option.map_eq_some_iff.mp h
    exact ByteArray.isSome_utf8Decode?_iff.mp (by simp [decoded])
  obtain ⟨s, hs⟩ := valid
  have same : Text.encode s = bytes := by
    have data := congrArg (fun b => b.data.toList) hs
    simpa [List.utf8Encode, Text.encode] using data.symm
  rw [← same, Text.decode_encode] at h
  rw [← same, Option.some.inj h]

theorem lineFeed_not_mem_cut (bytes : Bytes) : ∀ line ∈ cut bytes, (10 : UInt8) ∉ line.bytes := by
  induction bytes with
  | nil => exact nofun
  | cons b bs ih =>
    unfold cut
    split_ifs with hb
    · exact List.forall_mem_cons.mpr ⟨by simp, ih⟩
    · split
      · simpa [eq_comm] using hb
      next l ls rest =>
        rw [rest] at ih
        obtain ⟨first, others⟩ := List.forall_mem_cons.mp ih
        exact List.forall_mem_cons.mpr ⟨by simp [first, Ne.symm hb], others⟩

theorem single_of_text {line : RawLine} {t : Text} (single : (10 : UInt8) ∉ line.bytes)
    (h : line.text = some t) : '\n' ∉ t := by
  obtain ⟨whole, decoded, rfl⟩ := Option.map_eq_some_iff.mp h
  have none : '\n' ∉ whole := fun mem => single (by
    rw [← encode_of_decode decoded, Text.encode, List.mem_flatMap]
    exact ⟨'\n', mem, by decide⟩)
  split_ifs
  · cases cut : Text.dropMark '\r' whole with
    | none => exact none
    | some r =>
      rw [Text.dropMark_eq_some_iff.mp cut, List.mem_append, not_or] at none
      exact none.1
  · exact none

end RawLine

namespace Lines

/-- A logical line, unless it is blank. -/
def shown (t : Text) : List Text := if Text.isBlank t then [] else [t]

/-- The logical lines of physical ones; `draft` is the text of the line in the making. -/
def joined : Option Text → List Text → List Text
  | draft, [] => (draft.map shown).getD []
  | draft, piece :: rest =>
    match Text.dropMark continuation piece with
    | some head => joined (some (draft.getD [] ++ head)) rest
    | none => shown (draft.getD [] ++ piece) ++ joined none rest

theorem finish_text (d : Draft) (last : Nat) : (d.finish last).map Line.text = shown d.text := by
  unfold Draft.finish shown
  split_ifs <;> rfl

theorem single_of_assemble {number : Nat} {draft : Option Draft} {pieces : List (Option Text)}
    (start : ∀ d ∈ draft, '\n' ∉ d.text) (single : ∀ piece, some piece ∈ pieces → '\n' ∉ piece) :
    ∀ line ∈ (assemble number draft pieces).complete, '\n' ∉ line.text := by
  have finished {d : Draft} {last : Nat} (h : '\n' ∉ d.text) : ∀ line ∈ d.finish last, '\n' ∉ line.text := by
    unfold Draft.finish
    split_ifs
    · exact nofun
    · simpa using h
  have joined {number : Nat} {draft : Option Draft} {piece : Text}
      (start : ∀ d ∈ draft, '\n' ∉ d.text) (h : '\n' ∉ piece) :
      '\n' ∉ (draft.getD ⟨number + 1, []⟩).text ++ piece := by
    rw [List.mem_append, not_or]
    refine ⟨?_, h⟩
    cases draft with
    | none => exact nofun
    | some d => exact start d rfl
  fun_induction assemble number draft pieces with
  | case1 number draft =>
    cases draft with
    | none => exact nofun
    | some d => exact finished (start d rfl)
  | case2 => exact nofun
  | case3 number draft piece rest d head cut ih =>
    have here := single piece List.mem_cons_self
    rw [Text.dropMark_eq_some_iff.mp cut, List.mem_append, not_or] at here
    refine ih ?_ fun other mem => single other (List.mem_cons_of_mem _ mem)
    rintro _ ⟨⟩
    exact joined start here.1
  | case4 number draft piece rest d cut ih =>
    refine List.forall_mem_append.mpr ⟨finished (joined start (single piece List.mem_cons_self)), ?_⟩
    exact ih nofun fun other mem => single other (List.mem_cons_of_mem _ mem)

theorem single_of_ofBytes (bytes : Bytes) : ∀ line ∈ (ofBytes bytes).complete, '\n' ∉ line.text := by
  refine single_of_assemble nofun fun piece mem => ?_
  obtain ⟨line, raw, text⟩ := List.mem_map.mp mem
  exact RawLine.single_of_text (RawLine.lineFeed_not_mem_cut bytes line raw) text

theorem texts_assemble (number : Nat) (draft : Option Draft) (pieces : List Text) :
    ((assemble number draft (pieces.map some)).complete.map Line.text =
      joined (draft.map Draft.text) pieces) ∧
    (assemble number draft (pieces.map some)).broken = false := by
  induction pieces generalizing number draft with
  | nil => cases draft <;> simp [assemble, joined, finish_text]
  | cons piece rest ih =>
    have text : (draft.getD ⟨number + 1, []⟩).text = (draft.map Draft.text).getD [] := by
      cases draft <;> rfl
    simp only [List.map_cons, assemble, joined]
    cases Text.dropMark continuation piece with
    | some head => simpa [text] using ih (number + 1) (some ⟨_, _⟩)
    | none => simpa [prepend, finish_text, text] using ih (number + 1) none

theorem texts_ofBytes_encode (t : Text) :
    (ofBytes (Text.encode t)).complete.map Line.text = joined none (Text.physical t) ∧
      (ofBytes (Text.encode t)).broken = false := by
  rw [ofBytes, RawLine.text_cut_encode]
  exact texts_assemble 0 none (Text.physical t)

theorem joined_congr {ys zs : List Text} (h : ∀ draft, joined draft ys = joined draft zs)
    (xs : List Text) (draft : Option Text) : joined draft (xs ++ ys) = joined draft (xs ++ zs) := by
  induction xs generalizing draft with
  | nil => exact h draft
  | cons x xs ih =>
    simp only [List.cons_append, joined]
    cases Text.dropMark continuation x with
    | some head => exact ih _
    | none => simp only [ih none]

/-- Where no line is in the making, the lines behind are joined by themselves. -/
theorem joined_append {xs : List Text} (h : ∀ x ∈ xs.getLast?, Text.dropMark continuation x = none)
    {draft : Option Text} (start : xs = [] → draft = none) (ys : List Text) :
    joined draft (xs ++ ys) = joined draft xs ++ joined none ys := by
  induction xs generalizing draft with
  | nil => simp [start rfl, joined]
  | cons x xs ih =>
    simp only [List.cons_append, joined]
    cases mark : Text.dropMark continuation x with
    | some head =>
      refine ih (fun y hy => h y ?_) fun e => ?_
      · cases xs with
        | nil => simp at hy
        | cons x' xs => simpa [List.getLast?_cons_cons] using hy
      · simp [h x (by simp [e])] at mark
    | none =>
      simp only [List.append_assoc]
      rw [ih (fun y hy => h y ?_) fun _ => rfl]
      cases xs with
      | nil => simp at hy
      | cons x' xs => simpa [List.getLast?_cons_cons] using hy

end Lines
end TypedProperties
