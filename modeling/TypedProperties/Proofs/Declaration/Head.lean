import TypedProperties.Proofs.Text.Blank
import TypedProperties.Proofs.Text.Plain
import TypedProperties.Writing.Datum

/-! The written head of a datum reads back as its declaration. -/
namespace TypedProperties
namespace Declaration

open HeadToken

variable {units : UnitSystem} {realWithUnit : Bool} {key : Text}

theorem isPlain_kind (k : Kind) : Text.IsPlain k.word := by
  unfold Text.IsPlain
  cases k <;> decide

theorem scan_path : scan (Text.ofString " as path") =
    [⟨.word asWord, asWord, Text.ofString "as path"⟩, ⟨.word pathWord, pathWord, pathWord⟩] := by
  decide +kernel

theorem scan_symbol {symbol : Text} (plain : symbol.IsPlain) :
    scan (Text.ofString " in " ++ symbol) =
      [⟨.word inWord, inWord, inWord ++ ' ' :: symbol⟩, ⟨.word symbol, symbol, symbol⟩] := by
  have inWord : IsWord inWord := by unfold IsWord; decide
  calc scan (Text.ofString " in " ++ symbol) = scan (Declaration.inWord ++ ' ' :: symbol) :=
        scan_space _
    _ = _ := by rw [scan_word_space inWord, scan_word_end plain.isWord]

theorem clauseOf_symbol (key : Text) {symbol : Text} {measure : Measure}
    (known : units.find? symbol = some measure) (n : Nat) :
    clauseOf units true key .real (some n) inWord symbol = .ok (.symbol symbol measure.factor) := by
  have other : inWord ≠ asWord := by decide
  simp [clauseOf, known, other]

/-- A datum and the unit that it is written in, if there is one: only reals have units, and these are
known. -/
structure Shape where
  datum : Datum
  unit : Option (Text × Float)

namespace Shape

variable (s : Shape)

def clause : UnitClause :=
  if s.datum.data.isPath then .path
  else
    match s.unit with
    | some (symbol, factor) => if s.datum.isVector then .symbol symbol factor else .none
    | none => .none

def size : Option Nat := if s.datum.isVector then some s.datum.data.size else none

def clauseText : Text :=
  (match s.unit with
    | some (symbol, _) => if s.datum.isVector then Text.ofString " in " ++ symbol else []
    | none => []) ++ if s.datum.data.isPath then Text.ofString " as path" else []

def sizeText : Text := if s.datum.isVector then '[' :: Text.ofNat s.datum.data.size ++ [']'] else []

def lockText : Text := if s.datum.locked then lockWord ++ [' '] else []

theorem typingText_eq : s.datum.typingText (s.unit.map Prod.fst) =
    s.lockText ++ (s.datum.data.kind.word ++ (s.sizeText ++ s.clauseText)) := by
  obtain ⟨d, unit⟩ := s
  cases h : d.isVector <;> cases unit <;> simp [Datum.typingText, lockText, sizeText, clauseText, h]

structure Valid (units : UnitSystem) (realWithUnit : Bool) : Prop where
  size : s.datum.data.size < Nat.pow 2 63
  single : s.datum.cardinality = .scalar → s.datum.data.size = 1
  bare : s.unit = none → s.datum.data.unit = none
  unit : ∀ u ∈ s.unit, u.1.IsPlain ∧ (∃ measure, units.find? u.1 = some measure ∧ measure.factor = u.2) ∧
    s.datum.data.kind = .real ∧ realWithUnit = true

variable {s}

theorem takeClause_written (key : Text) (valid : s.Valid units realWithUnit) :
    takeClause units realWithUnit key s.datum.data.kind s.size (scan s.clauseText) =
      .ok (s.clause, []) := by
  obtain ⟨d, unit⟩ := s
  cases unit with
  | none =>
    cases path : d.data.isPath with
    | false => simp [clauseText, clause, path, takeClause]
    | true =>
      have kind : d.data.kind = .string := by
        revert path
        cases d.data <;> simp [Data.isPath, Data.kind]
      simp only [clauseText, clause, path, kind, List.nil_append, if_true, scan_path]
      rfl
  | some unit =>
    obtain ⟨plain, ⟨measure, known, factor⟩, real, rfl⟩ := valid.unit unit rfl
    have path : d.data.isPath = false := by
      revert real
      cases d.data <;> simp [Data.isPath, Data.kind]
    cases vector : d.isVector with
    | false => simp [clauseText, clause, path, vector, takeClause]
    | true =>
      have clause := clauseOf_symbol key known d.data.size
      simp only [clauseText, Shape.clause, size, path, vector, real, if_true, Bool.false_eq_true,
        if_false, List.append_nil, scan_symbol plain, ← factor]
      simp only [takeClause, takeWord, or_true, if_true]
      change (clauseOf units true key .real (some d.data.size) inWord unit.1).bind _ = _
      rw [clause]
      rfl

theorem takeSize_written (key : Text) (valid : s.Valid units realWithUnit) :
    takeSize key (scan (s.sizeText ++ s.clauseText)) = .ok (s.size, scan s.clauseText) := by
  cases vector : s.datum.isVector with
  | true =>
    have digits := (Text.isPlain_ofNat s.datum.data.size).isWord
    have e : s.sizeText ++ s.clauseText =
        '[' :: (Text.ofNat s.datum.data.size ++ ']' :: s.clauseText) := by simp [sizeText, vector]
    rw [e, scan_mark rfl, scan_word digits (by rintro c ⟨⟩; decide), scan_mark rfl]
    simp [takeSize, Text.readSigned_ofNat valid.size, size, vector]
  | false =>
    have unit : s.clauseText = if s.datum.data.isPath then Text.ofString " as path" else [] := by
      simp only [clauseText, vector]
      cases s.unit <;> simp
    simp only [sizeText, size, vector, Bool.false_eq_true, if_false, List.nil_append]
    rw [unit]
    split_ifs
    · rw [scan_path]
      rfl
    · rw [scan_nil]
      rfl

theorem sizeText_clauseText_stop :
    ∀ c ∈ (s.sizeText ++ s.clauseText).head?, isWordChar c = false := by
  obtain ⟨d, unit⟩ := s
  intro c hc
  cases vector : d.isVector with
  | true =>
    obtain rfl : '[' = c := by simpa [sizeText, vector] using hc
    decide
  | false =>
    cases path : d.data.isPath with
    | true =>
      have first : (Text.ofString " as path").head? = some c := by
        cases unit <;> simpa [sizeText, clauseText, vector, path] using hc
      obtain rfl := Option.some.inj first
      decide
    | false => cases unit <;> simp [sizeText, clauseText, vector, path] at hc

theorem takeTyping_written (key : Text) (valid : s.Valid units realWithUnit) :
    takeTyping units realWithUnit key (scan (s.datum.typingText (s.unit.map Prod.fst))) =
      .ok (⟨s.datum.locked, s.datum.data.kind, s.size, s.clause⟩, []) := by
  have size := takeSize_written key valid
  have clause := takeClause_written key valid
  have kind := scan_word (isPlain_kind s.datum.data.kind).isWord (sizeText_clauseText_stop (s := s))
  rw [typingText_eq]
  cases locked : s.datum.locked with
  | false =>
    have other : s.datum.data.kind.word ≠ lockWord := by cases s.datum.data.kind <;> decide
    rw [lockText, if_neg (by simp [locked]), List.nil_append, kind]
    simp only [takeTyping, takeWord, bind, Except.bind, other, decide_false, Bool.false_eq_true,
      if_false, Kind.ofWord_word, size, clause]
    rfl
  | true =>
    have lock : IsWord lockWord := by unfold IsWord; decide
    rw [lockText, if_pos locked, List.append_assoc, List.singleton_append, scan_word_space lock, kind]
    simp only [takeTyping, takeWord, bind, Except.bind, decide_true, if_true, Kind.ofWord_word, size,
      clause]
    rfl

theorem tightEnd_typingText (valid : s.Valid units realWithUnit) :
    Text.TightEnd (s.datum.typingText (s.unit.map Prod.fst)) := by
  have kind := isPlain_kind s.datum.data.kind
  have size : Text.TightEnd s.sizeText := by
    unfold sizeText
    split_ifs
    · rintro c hc
      obtain rfl : ']' = c := by simpa [List.getLast?_cons] using hc
      decide
    · rintro c ⟨⟩
  have path : Text.TightEnd (if s.datum.data.isPath then Text.ofString " as path" else []) := by
    unfold Text.TightEnd
    split_ifs <;> decide
  have clause : Text.TightEnd s.clauseText := by
    refine Text.TightEnd.append ?_ path
    split
    next symbol factor unit =>
      split_ifs
      · exact Text.TightEnd.append_of_ne_nil _ (valid.unit _ unit).1.tightEnd (valid.unit _ unit).1.1
      · rintro c ⟨⟩
    · rintro c ⟨⟩
  rw [typingText_eq]
  exact (kind.tightEnd.append (size.append clause)).append_of_ne_nil _ (by simp [kind.1])

def isTypingChar (c : Char) : Bool := Text.isPlain c || c = ' ' || c = '[' || c = ']'

theorem isTypingChar_of_mem (valid : s.Valid units realWithUnit) {c : Char}
    (h : c ∈ s.datum.typingText (s.unit.map Prod.fst)) : isTypingChar c = true := by
  have plain {t : Text} (ht : t.IsPlain) (hc : c ∈ t) : isTypingChar c = true := by
    simp [isTypingChar, ht.2 c hc]
  have word {t : Text} (ht : ∀ d ∈ t, isTypingChar d = true) (hc : c ∈ t) := ht c hc
  rw [typingText_eq, List.mem_append, List.mem_append, List.mem_append] at h
  rcases h with lock | kind | size | clause
  · unfold lockText at lock
    split_ifs at lock
    · exact word (by decide) lock
    · cases lock
  · exact plain (isPlain_kind _) kind
  · unfold sizeText at size
    split_ifs at size
    · have digits := Text.isPlain_ofNat s.datum.data.size
      simp only [List.cons_append, List.mem_cons, List.mem_append, List.not_mem_nil, or_false] at size
      rcases size with rfl | size | rfl
      · decide
      · exact plain digits size
      · decide
    · cases size
  · rcases List.mem_append.mp clause with symbol | path
    · split at symbol
      next unit =>
        split_ifs at symbol
        · rcases List.mem_append.mp symbol with blank | symbol
          · exact word (by decide) blank
          · exact plain (valid.unit _ unit).1 symbol
        · cases symbol
      · cases symbol
    · split_ifs at path
      · exact word (by decide) path
      · cases path

end Shape

/-- The head of a written line ends at its mark, which no other part of it has. -/
theorem cutAt_written {s : Shape} (valid : s.Valid units realWithUnit) (noMark : assignMark ∉ key)
    (values : Text) :
    Text.cutAt assignMark (key ++ Text.ofString " : " ++ s.datum.typingText (s.unit.map Prod.fst) ++
      Text.ofString " =" ++ values) =
      some (key ++ Text.ofString " : " ++ s.datum.typingText (s.unit.map Prod.fst) ++ [' '], values) := by
  have noMark' : assignMark ∉ s.datum.typingText (s.unit.map Prod.fst) := fun mem => by
    have := Shape.isTypingChar_of_mem valid mem
    revert this
    decide
  refine Text.cutAt_eq_some_iff.mpr ⟨by simp [Text.ofString], ?_⟩
  simp only [List.mem_append, not_or]
  exact ⟨⟨⟨noMark, by decide⟩, noMark'⟩, by decide⟩

theorem ofLine_written {s : Shape} (valid : s.Valid units realWithUnit) (word : IsWord key)
    (noMark : assignMark ∉ key) (values : Text) :
    ofLine units realWithUnit (key ++ Text.ofString " : " ++
      s.datum.typingText (s.unit.map Prod.fst) ++ Text.ofString " =" ++ values) =
      .ok ⟨key, .declare, s.datum.locked, s.datum.data.kind, s.size, s.clause, Text.trim values⟩ := by
  have typing := Shape.takeTyping_written key valid
  have tight := Shape.tightEnd_typingText valid
  have cut := cutAt_written valid noMark values
  have some : s.datum.typingText (s.unit.map Prod.fst) ≠ [] := by
    rw [Shape.typingText_eq]
    simp [(isPlain_kind _).1]
  generalize s.datum.typingText (s.unit.map Prod.fst) = text at *
  have bare : Text.dropMark appendMark (key ++ Text.ofString " : " ++ text ++ [' ']) = none :=
    Text.dropMark_eq_none_iff.mpr (by simp [appendMark])
  have trimmed : Text.trimEnd (key ++ Text.ofString " : " ++ text ++ [' ']) =
      key ++ ' ' :: (':' :: ' ' :: text) := by
    rw [Text.trimEnd_append_blank _ (by decide), (tight.append_of_ne_nil _ some).trimEnd]
    simp [Text.ofString]
  rw [ofLine, cut]
  simp only [bare, Option.getD_none, Option.isSome_none, trimmed]
  rw [scan_word_space word, scan_mark rfl, scan_space]
  simp only [ofHead, takeIndex, takeColon, bind, Except.bind, typing, modeOf]
  rfl

end Declaration
end TypedProperties
