import TypedProperties.Proofs.Line.Cut
import TypedProperties.Proofs.Text.Cut

/-! The logical lines of any input: its physical lines, cut into runs that go on up to a line without a mark. -/
namespace TypedProperties
namespace Text

variable {bytes : Bytes} {b : UInt8} {c : Char} {s t : Text}

theorem encodeChar_of_getLast? (last : (String.utf8EncodeChar c).getLast? = some b) (ascii : b.toNat < 128) :
    String.utf8EncodeChar c = [b] := by
  have h128 : (128 : UInt8).toNat = 128 := rfl
  simp only [String.utf8EncodeChar] at last ⊢
  split_ifs at last ⊢ <;> simp only [List.getLast?_cons_cons, List.getLast?_singleton, Option.some.injEq] at last <;>
    subst last
  · rfl
  all_goals
    simp only [UInt8.toNat_ofNat'] at ascii
    omega

theorem decode_concat (single : String.utf8EncodeChar c = [b]) (ascii : b.toNat < 128) (bytes : Bytes) :
    decode (bytes ++ [b]) = (decode bytes).map (· ++ [c]) := by
  have encoded (t : Text) : encode (t ++ [c]) = encode t ++ [b] := by simp [encode, single]
  cases decoded : decode bytes with
  | some t => rw [← RawLine.encode_of_decode decoded, ← encoded, decode_encode, Option.map_some]
  | none =>
    rw [Option.map_none, Option.eq_none_iff_forall_ne_some]
    intro t whole
    have e := RawLine.encode_of_decode whole
    rcases List.eq_nil_or_concat' t with rfl | ⟨t, d, rfl⟩
    · simp [encode] at e
    · have e : encode t ++ String.utf8EncodeChar d = bytes ++ [b] := by simpa [encode] using e
      have last : (String.utf8EncodeChar d).getLast? = some b := by
        have := congrArg List.getLast? e
        cases ending : (String.utf8EncodeChar d).getLast? with
        | none => simp [List.getLast?_eq_none_iff] at ending
        | some _ => simpa [List.getLast?_append, ending] using this
      rw [encodeChar_of_getLast? last ascii] at e
      rw [← (List.append_inj' e rfl).1, decode_encode] at decoded
      cases decoded

theorem dropMark_of_decode (single : String.utf8EncodeChar c = [b]) (ascii : b.toNat < 128)
    (decoded : decode bytes = some t) :
    dropMark c t = if bytes.getLast? = some b then decode bytes.dropLast else none := by
  split_ifs with last
  · obtain ⟨front, rfl⟩ := List.getLast?_eq_some_iff.mp last
    rw [decode_concat single ascii] at decoded
    obtain ⟨head, front, rfl⟩ := Option.map_eq_some_iff.mp decoded
    rw [List.dropLast_concat, front, dropMark_eq_some_iff]
  · rw [Option.eq_none_iff_forall_ne_some]
    intro head marked
    rw [← RawLine.encode_of_decode decoded, dropMark_eq_some_iff.mp marked] at last
    simp [encode, single] at last

end Text

namespace RawLine

variable {bytes : Bytes} {line : RawLine} {lines : List RawLine}

/-- How an input falls into lines: behind each line feed, and no further line behind the last one. -/
structure Divides (lines : List RawLine) (bytes : Bytes) : Prop where
  whole : join lines = bytes
  single : ∀ line ∈ lines, (10 : UInt8) ∉ line.bytes
  ended : ∀ line ∈ lines.dropLast, line.ended = true
  some : ∀ line ∈ lines, line.ended = true ∨ line.bytes ≠ []

theorem ended_of_mem_dropLast_cut (bytes : Bytes) : ∀ line ∈ (cut bytes).dropLast, line.ended = true := by
  induction bytes with
  | nil => exact List.forall_mem_nil _
  | cons b bs ih =>
    unfold cut
    split_ifs
    · cases rest : cut bs with
      | nil => exact List.forall_mem_nil _
      | cons l ls =>
        rw [rest] at ih
        exact List.forall_mem_cons.mpr ⟨rfl, ih⟩
    · cases rest : cut bs with
      | nil => exact List.forall_mem_nil _
      | cons l ls =>
        rw [rest] at ih
        cases ls with
        | nil => exact List.forall_mem_nil _
        | cons l' ls =>
          obtain ⟨first, others⟩ := List.forall_mem_cons.mp ih
          exact List.forall_mem_cons.mpr ⟨first, others⟩

theorem ended_or_ne_nil_of_mem_cut (bytes : Bytes) :
    ∀ line ∈ cut bytes, line.ended = true ∨ line.bytes ≠ [] := by
  induction bytes with
  | nil => exact List.forall_mem_nil _
  | cons b bs ih =>
    unfold cut
    split_ifs
    · exact List.forall_mem_cons.mpr ⟨.inl rfl, ih⟩
    · split
      · simp
      next l ls rest =>
        rw [rest] at ih
        exact List.forall_mem_cons.mpr ⟨.inr (by simp), (List.forall_mem_cons.mp ih).2⟩

theorem divides_cut (bytes : Bytes) : Divides (cut bytes) bytes :=
  ⟨join_cut bytes, lineFeed_not_mem_cut bytes, ended_of_mem_dropLast_cut bytes, ended_or_ne_nil_of_mem_cut bytes⟩

theorem Divides.eq_cut (divides : Divides lines bytes) : lines = cut bytes := by
  obtain ⟨rfl, single, ended, some⟩ := divides
  induction lines with
  | nil => rfl
  | cons l ls ih =>
    obtain ⟨bare, others⟩ := List.forall_mem_cons.mp single
    obtain ⟨here, behind⟩ := List.forall_mem_cons.mp some
    have rest : ls ≠ [] → l.ended = true ∧ ∀ line ∈ ls.dropLast, line.ended = true := fun ne => by
      rw [List.dropLast_cons_of_ne_nil ne] at ended
      exact List.forall_mem_cons.mp ended
    obtain ⟨line, feed⟩ := l
    cases feed with
    | true =>
      have ended : ∀ line ∈ ls.dropLast, line.ended = true := by
        by_cases none : ls = []
        · simp [none]
        · exact (rest none).2
      rw [join, if_pos rfl, List.append_assoc, List.singleton_append, cut_line bare, ← ih others ended behind]
    | false =>
      have none : ls = [] := not_not.mp fun ne => by simpa using (rest ne).1
      subst none
      simpa [join] using (cut_unended bare (by simpa using here)).symm

theorem divides_iff : Divides lines bytes ↔ lines = cut bytes :=
  ⟨Divides.eq_cut, fun e => e ▸ divides_cut bytes⟩

/-- The bytes of the line, less a carriage return in front of its line feed. -/
def content (line : RawLine) : Bytes :=
  if line.ended ∧ line.bytes.getLast? = some 13 then line.bytes.dropLast else line.bytes

theorem text_eq_decode (line : RawLine) : line.text = Text.decode line.content := by
  have encoded : String.utf8EncodeChar '\r' = [13] := by decide
  unfold text content
  cases ended : line.ended with
  | false => simp
  | true =>
    by_cases last : line.bytes.getLast? = some 13
    · obtain ⟨front, split⟩ := List.getLast?_eq_some_iff.mp last
      rw [if_pos ⟨rfl, last⟩, split, List.dropLast_concat, Text.decode_concat encoded (by decide)]
      cases Text.decode front with
      | none => rfl
      | some t => simp [Text.dropMark_eq_some_iff.mpr rfl]
    · rw [if_neg fun both => last both.2]
      cases decoded : Text.decode line.bytes with
      | none => rfl
      | some t => simp [Text.dropMark_of_decode encoded (by decide) decoded, last]

/-- The line goes on in the next one. -/
def IsContinued (line : RawLine) : Prop := line.content.getLast? = some 92

instance (line : RawLine) : Decidable line.IsContinued := inferInstanceAs (Decidable (_ = _))

/-- The line encodes a text. -/
def isText (line : RawLine) : Bool := (Text.decode line.content).isSome

def piece (line : RawLine) : Text :=
  (Text.decode (if line.IsContinued then line.content.dropLast else line.content)).getD []

theorem dropMark_text {t : Text} (h : line.text = some t) :
    Text.dropMark Lines.continuation t = if line.IsContinued then some line.piece else none := by
  have encoded : String.utf8EncodeChar Lines.continuation = [92] := by decide
  rw [text_eq_decode] at h
  have mark : Text.dropMark Lines.continuation t =
      if line.IsContinued then Text.decode line.content.dropLast else none :=
    Text.dropMark_of_decode encoded (by decide) h
  rw [mark, piece]
  split_ifs with here
  · obtain ⟨front, split⟩ := List.getLast?_eq_some_iff.mp here
    rw [split, Text.decode_concat encoded (by decide)] at h
    obtain ⟨head, decoded, -⟩ := Option.map_eq_some_iff.mp h
    simp [split, decoded]
  · rfl

theorem piece_of_ended {t : Text} (h : line.text = some t) (ended : ¬ line.IsContinued) : line.piece = t := by
  rw [piece, if_neg ended, ← text_eq_decode, h, Option.getD_some]

/-- How lines fall into runs: a run goes on up to a line that is not continued, or to the end of the input. -/
inductive FallInto : List RawLine → List (List RawLine) → Prop
  | none : FallInto [] []
  | unended {run : List RawLine} (some : run ≠ []) (continued : ∀ line ∈ run, line.IsContinued) : FallInto run [run]
  | next {front rest : List RawLine} {line : RawLine} {runs : List (List RawLine)}
      (continued : ∀ line ∈ front, line.IsContinued) (ended : ¬ line.IsContinued) (behind : FallInto rest runs) :
      FallInto (front ++ line :: rest) ((front ++ [line]) :: runs)

theorem exists_fallInto (lines : List RawLine) : ∃ runs, FallInto lines runs := by
  induction lines with
  | nil => exact ⟨[], .none⟩
  | cons line rest ih =>
    obtain ⟨runs, behind⟩ := ih
    by_cases here : line.IsContinued
    · cases behind with
      | none => exact ⟨_, .unended (by simp) (by simpa using here)⟩
      | unended _ continued => exact ⟨_, .unended (by simp) (List.forall_mem_cons.mpr ⟨here, continued⟩)⟩
      | next continued ended behind =>
        exact ⟨_, .next (List.forall_mem_cons.mpr ⟨here, continued⟩) ended behind⟩
    · exact ⟨_, @FallInto.next [] rest line runs (List.forall_mem_nil _) here behind⟩

theorem FallInto.cases {runs : List (List RawLine)} (h : FallInto lines runs) :
    (lines = [] ∧ runs = []) ∨
    (lines ≠ [] ∧ (∀ line ∈ lines, line.IsContinued) ∧ runs = [lines]) ∨
    ∃ front line rest others, lines = front ++ line :: rest ∧ (∀ line ∈ front, line.IsContinued) ∧
      ¬ line.IsContinued ∧ FallInto rest others ∧ runs = (front ++ [line]) :: others := by
  cases h with
  | none => exact .inl ⟨rfl, rfl⟩
  | unended some continued => exact .inr (.inl ⟨some, continued, rfl⟩)
  | next continued ended behind => exact .inr (.inr ⟨_, _, _, _, rfl, continued, ended, behind, rfl⟩)

theorem FallInto.unique {runs runs' : List (List RawLine)} (h : FallInto lines runs) (h' : FallInto lines runs') :
    runs = runs' := by
  induction h generalizing runs' with
  | none =>
    rcases h'.cases with ⟨-, rfl⟩ | ⟨some, -⟩ | ⟨front, line, rest, others, split, -⟩
    · rfl
    · exact absurd rfl some
    · simp at split
  | unended some continued =>
    rcases h'.cases with ⟨none, -⟩ | ⟨-, -, rfl⟩ | ⟨front, line, rest, others, rfl, -, ended, -⟩
    · exact absurd none some
    · rfl
    · exact absurd (continued line (by simp)) ended
  | @next front rest line runs continued ended behind ih =>
    rcases h'.cases with ⟨none, -⟩ | ⟨-, all, -⟩ |
      ⟨front', line', rest', others, split, continued', ended', behind', rfl⟩
    · simp at none
    · exact absurd (all line (by simp)) ended
    · -- A run ends at the first line that is not continued.
      have cut {front rest : List RawLine} {line : RawLine} (continued : ∀ line ∈ front, line.IsContinued)
          (ended : ¬ line.IsContinued) : (front ++ line :: rest).takeWhile (·.IsContinued) = front := by
        rw [List.takeWhile_append_of_pos (by simpa using continued), List.takeWhile_cons_of_neg (by simpa using ended),
          List.append_nil]
      have same : front = front' := by rw [← cut continued ended, split, cut continued' ended']
      subst same
      obtain ⟨rfl, rfl⟩ := List.cons.inj (List.append_cancel_left split)
      rw [ih behind']

end RawLine

namespace Lines
open RawLine (FallInto)

variable {number : Nat} {d : Draft} {front : List RawLine} {rest : List (Option Text)}

/-- The text of a run: that of its lines, one behind the other, less their marks. -/
def textOf (run : List RawLine) : Text := run.flatMap RawLine.piece

/-- The logical line of a run that `number` physical lines stand in front of, unless it is blank. -/
def lineOf (number : Nat) (run : List RawLine) : List Line :=
  if Text.isBlank (textOf run) then [] else [⟨textOf run, number + 1, number + run.length⟩]

/-- The logical lines of runs that `number` physical lines stand in front of. -/
def linesOf (number : Nat) : List (List RawLine) → List Line
  | [] => []
  | run :: rest => lineOf number run ++ linesOf (number + run.length) rest

theorem assemble_none (number : Nat) (pieces : List (Option Text)) :
    assemble number none pieces = assemble number (some ⟨number + 1, []⟩) pieces := by
  cases pieces with
  | nil => rfl
  | cons piece rest => cases piece <;> rfl

theorem assemble_continued (continued : ∀ line ∈ front, line.IsContinued)
    (texts : ∀ line ∈ front, line.isText = true) :
    assemble number (some d) (front.map RawLine.text ++ rest) =
      assemble (number + front.length) (some ⟨d.first, d.text ++ textOf front⟩) rest := by
  induction front generalizing number d with
  | nil => simp [textOf]
  | cons line front ih =>
    obtain ⟨here, continued⟩ := List.forall_mem_cons.mp continued
    obtain ⟨isText, texts⟩ := List.forall_mem_cons.mp texts
    obtain ⟨t, text⟩ := Option.isSome_iff_exists.mp isText
    rw [← RawLine.text_eq_decode] at text
    rw [List.map_cons, List.cons_append, text, assemble, RawLine.dropMark_text text, if_pos here]
    simp only [Option.getD_some, ih continued texts, textOf, List.flatMap_cons, List.length_cons, List.append_assoc]
    rw [Nat.add_right_comm, Nat.add_assoc]

theorem assemble_broken (continued : ∀ line ∈ front, line.IsContinued)
    (broken : ∃ line ∈ front, line.isText = false) :
    assemble number (some d) (front.map RawLine.text ++ rest) = ⟨[], true⟩ := by
  obtain ⟨bad, found⟩ : ∃ bad, front.find? (fun line => !line.isText) = some bad := by
    simpa [← Option.isSome_iff_exists] using broken
  obtain ⟨bad_isText, good, more, rfl, texts⟩ := List.find?_eq_some_iff_append.mp found
  have text : bad.text = none := by
    rw [RawLine.text_eq_decode]
    simpa [RawLine.isText] using bad_isText
  rw [List.map_append, List.append_assoc, assemble_continued (fun line mem => continued line (by simp [mem]))
    (by simpa using texts), List.map_cons, List.cons_append, text, assemble]

/-- The logical lines of lines that fall into runs are those of the runs in front of the first line that is no
text. -/
theorem assemble_runs {lines : List RawLine} {runs : List (List RawLine)} (h : FallInto lines runs) (number : Nat) :
    assemble number none (lines.map RawLine.text) =
      ⟨linesOf number (runs.takeWhile (·.all RawLine.isText)), !lines.all RawLine.isText⟩ := by
  -- Behind a run nothing is in the making, so that the runs behind it are assembled by themselves.
  induction h generalizing number with
  | none => rfl
  | @unended run some continued =>
    rw [assemble_none]
    by_cases texts : ∀ line ∈ run, line.isText = true
    · have all : run.all RawLine.isText = true := List.all_eq_true.mpr texts
      have whole := @assemble_continued number ⟨number + 1, []⟩ run [] continued texts
      rw [List.append_nil] at whole
      simp [whole, assemble, all, linesOf, lineOf, Draft.finish]
    · have broken : run.all RawLine.isText = false := by simpa using texts
      have whole := @assemble_broken number ⟨number + 1, []⟩ run [] continued (by simpa using texts)
      rw [List.append_nil] at whole
      simp [whole, broken, linesOf]
  | @next front rest line runs continued ended behind ih =>
    rw [assemble_none, List.map_append, List.map_cons]
    by_cases texts : ∀ line ∈ front, line.isText = true
    · rw [assemble_continued continued texts]
      have all : front.all RawLine.isText = true := List.all_eq_true.mpr texts
      cases text : line.text with
      | none =>
        have broken : line.isText = false := by simp [RawLine.isText, ← RawLine.text_eq_decode, text]
        simp [assemble, broken, linesOf]
      | some t =>
        have here : line.isText = true := by simp [RawLine.isText, ← RawLine.text_eq_decode, text]
        rw [assemble, RawLine.dropMark_text text, if_neg ended]
        have run : textOf (front ++ [line]) = textOf front ++ t := by
          simp [textOf, RawLine.piece_of_ended text ended]
        simp [all, here, linesOf, lineOf, Draft.finish, run, prepend, ih, Nat.add_assoc]
    · have broken : front.all RawLine.isText = false := by simpa using texts
      rw [assemble_broken continued (by simpa using texts)]
      simp [broken, linesOf]

/-- The physical lines of an input are the pieces behind and in front of its line feeds, and fall into runs in one
way. Its logical lines are the texts of these runs that are not blank, with the numbers of their first and last
physical lines; where a line is no text, those of the runs in front of it, and then the input is broken. -/
theorem logical_lines_are_runs (bytes : Bytes) :
    ∃ lines runs, (∀ others, RawLine.Divides others bytes ↔ others = lines) ∧
      (∀ others, FallInto lines others ↔ others = runs) ∧
      ofBytes bytes = ⟨linesOf 0 (runs.takeWhile (·.all RawLine.isText)), !lines.all RawLine.isText⟩ := by
  obtain ⟨runs, fall⟩ := RawLine.exists_fallInto (RawLine.cut bytes)
  exact ⟨RawLine.cut bytes, runs, fun _ => RawLine.divides_iff,
    fun _ => ⟨fun other => other.unique fall, fun e => e ▸ fall⟩, assemble_runs fall 0⟩

end Lines
end TypedProperties
