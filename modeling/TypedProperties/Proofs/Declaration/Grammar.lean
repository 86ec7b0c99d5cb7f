import Mathlib.Tactic.SplitIfs
import TypedProperties.Declaration.Head
import TypedProperties.Proofs.Text.Cut
import TypedProperties.Unit.Standard

/-! The grammar of declaration lines, and that reading a line follows it: which lines declare what, and which
ones ask for a unit that is not known. -/
namespace TypedProperties
namespace Declaration

variable {units : UnitSystem} {realWithUnit : Bool} {key line values : Text} {kind : Kind} {index size : Option Nat}
  {locked append : Bool} {clause : UnitClause} {typing : Typing} {mode : Mode} {d : Declaration}
  {ts part behind : List HeadToken} {ls rest : Rest}

inductive IndexPart : List HeadToken → Option Nat → Prop
  | none : IndexPart [] none
  | item {w : Text} {n : Nat} (reads : Text.readUnsigned (Nat.pow 2 64) w = some n) :
      IndexPart [.opening, .word w, .closing] (some n)

inductive SizePart : List HeadToken → Option Nat → Prop
  | scalar : SizePart [] none
  | vector {w : Text} {n : Nat} (reads : Text.readSigned (Nat.pow 2 63) w = some (n : Int)) :
      SizePart [.opening, .word w, .closing] (some n)

inductive LockPart : List HeadToken → Bool → Prop
  | free : LockPart [] false
  | locked : LockPart [.word lockWord] true

/-- A clause of a declaration of the given kind and size, or nothing. -/
inductive ClausePart (units : UnitSystem) (realWithUnit : Bool) :
    Kind → Option Nat → List HeadToken → UnitClause → Prop
  | none {kind : Kind} {size : Option Nat} : ClausePart units realWithUnit kind size [] .none
  | path {size : Option Nat} :
      ClausePart units realWithUnit .string size [.word asWord, .word pathWord] .path
  | label {label : Text} (on : realWithUnit = true) (valid : units.hasLabel label = true) :
      ClausePart units realWithUnit .real none [.word asWord, .word label] (.label label)
  | symbol {symbol : Text} {measure : Measure} {n : Nat} (on : realWithUnit = true)
      (known : units.find? symbol = some measure) :
      ClausePart units realWithUnit .real (some n) [.word inWord, .word symbol] (.symbol symbol measure.factor)

/-- What follows a key and its index: nothing, or a colon and a type. -/
inductive TypingPart (units : UnitSystem) (realWithUnit : Bool) : List HeadToken → Typing → Prop
  | bare : TypingPart units realWithUnit [] ⟨false, .string, none, .none⟩
  | typed {lock brackets part : List HeadToken} {locked : Bool} {kind : Kind} {size : Option Nat}
      {clause : UnitClause} (lockPart : LockPart lock locked) (sizePart : SizePart brackets size)
      (clausePart : ClausePart units realWithUnit kind size part clause) :
      TypingPart units realWithUnit (.colon :: (lock ++ .word kind.word :: (brackets ++ part)))
        ⟨locked, kind, size, clause⟩

/-- Which modes there are: only a vector is appended, and only a scalar is put at an index. -/
inductive ModePart : Bool → Option Nat → Option Nat → Mode → Prop
  | declare {size : Option Nat} : ModePart false none size .declare
  | append {n : Nat} : ModePart true none (some n) .append
  | item {i : Nat} : ModePart false (some i) none (.item i)

/-- The tokens of a head, and what they declare. -/
inductive HeadPart (units : UnitSystem) (realWithUnit append : Bool) (values : Text) :
    List HeadToken → Declaration → Prop
  | head {key : Text} {brackets part : List HeadToken} {index : Option Nat} {typing : Typing} {mode : Mode}
      (indexPart : IndexPart brackets index) (typingPart : TypingPart units realWithUnit part typing)
      (modePart : ModePart append index typing.size mode) :
      HeadPart units realWithUnit append values (.word key :: (brackets ++ part))
        ⟨key, mode, typing.locked, typing.kind, typing.size, typing.unit, Text.trim values⟩

/-- A clause that asks for a label or a symbol that there is not. -/
inductive UnknownClause (units : UnitSystem) : Option Nat → List HeadToken → Prop
  | label {label : Text} (unknown : units.hasLabel label = false) :
      UnknownClause units none [.word asWord, .word label]
  | symbol {symbol : Text} {n : Nat} (unknown : units.find? symbol = none) :
      UnknownClause units (some n) [.word inWord, .word symbol]

/-- A colon and a type that is right up to such a clause. -/
inductive UnknownTyping (units : UnitSystem) : List HeadToken → Prop
  | typed {lock brackets part behind : List HeadToken} {locked : Bool} {size : Option Nat}
      (lockPart : LockPart lock locked) (sizePart : SizePart brackets size)
      (clause : UnknownClause units size part) :
      UnknownTyping units (.colon :: (lock ++ .word Kind.real.word :: (brackets ++ (part ++ behind))))

/-- The tokens of a head that is right up to such a clause. -/
inductive UnknownHead (units : UnitSystem) : List HeadToken → Prop
  | head {key : Text} {brackets part : List HeadToken} {index : Option Nat} (indexPart : IndexPart brackets index)
      (typing : UnknownTyping units part) : UnknownHead units (.word key :: (brackets ++ part))

def tokens (ls : Rest) : List HeadToken := ls.map Lexeme.token

/-- A fault in what stands there, other than a unit that is not known. -/
def Malformed {β : Type} (x : Except HeadFault β) : Prop := ∃ fault, x = .error fault ∧ fault.kind = .malformed

def Unresolved {β : Type} (x : Except HeadFault β) : Prop := ∃ fault, x = .error fault ∧ fault.kind = .unresolved

/-! For each step of reading a head, `_part` says that it takes what the grammar gives it, `_unknown` that it
fails at a unit that is not known, and `_cases` that there is no more to it. -/

theorem exists_of_tokens {t : HeadToken} (h : tokens ls = t :: ts) :
    ∃ raw onward rest, ls = ⟨t, raw, onward⟩ :: rest ∧ tokens rest = ts := by
  cases ls with
  | nil => cases h
  | cons l rest =>
    obtain ⟨rfl, rfl⟩ := List.cons.inj h
    exact ⟨l.raw, l.onward, rest, rfl, rfl⟩

theorem word_of_ofWord {w : Text} (h : Kind.ofWord w = some kind) : kind.word = w := by
  simpa using List.find?_some h

theorem takeWord_cases (missing : HeadFault) (malformed : missing.kind = .malformed) (ls : Rest) :
    Malformed (takeWord missing ls) ∨
      ∃ w rest, tokens ls = .word w :: tokens rest ∧ takeWord missing ls = .ok (w, rest) := by
  unfold takeWord
  split
  next w _ _ rest => exact .inr ⟨w, rest, rfl, rfl⟩
  next => exact .inl ⟨missing, rfl, malformed⟩

-- An index that is not there is told from one that is by what follows, which therefore opens no bracket.
theorem takeIndex_part (key : Text) (brackets : IndexPart part index) (h : tokens ls = part ++ behind)
    (other : behind.head? ≠ some .opening) :
    ∃ rest, tokens rest = behind ∧ takeIndex key ls = .ok (index, rest) := by
  cases brackets with
  | none =>
    obtain rfl : tokens ls = behind := h
    refine ⟨ls, rfl, ?_⟩
    unfold takeIndex
    split
    · exact absurd rfl other
    · exact absurd rfl other
    · rfl
  | item reads =>
    obtain ⟨_, _, _, rfl, h₁⟩ := exists_of_tokens h
    obtain ⟨_, _, _, rfl, h₂⟩ := exists_of_tokens h₁
    obtain ⟨_, _, rest, rfl, h₃⟩ := exists_of_tokens h₂
    exact ⟨rest, h₃, by simp only [takeIndex, reads]⟩

theorem takeIndex_cases (key : Text) (ls : Rest) :
    Malformed (takeIndex key ls) ∨ ∃ part index rest,
      IndexPart part index ∧ tokens ls = part ++ tokens rest ∧ takeIndex key ls = .ok (index, rest) := by
  unfold takeIndex
  split
  next rest =>
    split
    next n reads => exact .inr ⟨_, some n, rest, .item reads, rfl, rfl⟩
    next => exact .inl ⟨_, rfl, rfl⟩
  next => exact .inl ⟨_, rfl, rfl⟩
  next => exact .inr ⟨[], none, ls, .none, rfl, rfl⟩

theorem takeSize_part (key : Text) (brackets : SizePart part size) (h : tokens ls = part ++ behind)
    (other : behind.head? ≠ some .opening) :
    ∃ rest, tokens rest = behind ∧ takeSize key ls = .ok (size, rest) := by
  cases brackets with
  | scalar =>
    obtain rfl : tokens ls = behind := h
    refine ⟨ls, rfl, ?_⟩
    unfold takeSize
    split
    · exact absurd rfl other
    · exact absurd rfl other
    · rfl
  | vector reads =>
    obtain ⟨_, _, _, rfl, h₁⟩ := exists_of_tokens h
    obtain ⟨_, _, _, rfl, h₂⟩ := exists_of_tokens h₁
    obtain ⟨_, _, rest, rfl, h₃⟩ := exists_of_tokens h₂
    exact ⟨rest, h₃, by simp [takeSize, reads]⟩

theorem takeSize_cases (key : Text) (ls : Rest) :
    Malformed (takeSize key ls) ∨ ∃ part size rest,
      SizePart part size ∧ tokens ls = part ++ tokens rest ∧ takeSize key ls = .ok (size, rest) := by
  unfold takeSize
  split
  next =>
    split
    next => exact .inl ⟨_, rfl, rfl⟩
    next n reads =>
      split_ifs with negative
      · exact .inl ⟨_, rfl, rfl⟩
      · split
        next rest =>
          obtain ⟨n, rfl⟩ := Int.eq_ofNat_of_zero_le (Int.not_lt.mp negative)
          exact .inr ⟨_, some n, rest, .vector reads, rfl, rfl⟩
        next => exact .inl ⟨_, rfl, rfl⟩
  next => exact .inl ⟨_, rfl, rfl⟩
  next => exact .inr ⟨[], none, ls, .scalar, rfl, rfl⟩

theorem clauseOf_part {word argument : Text}
    (part : ClausePart units realWithUnit kind size [.word word, .word argument] clause) :
    clauseOf units realWithUnit key kind size word argument = .ok clause := by
  cases part with
  | path => rfl
  | label on valid => simp [clauseOf, on, valid]
  | symbol on known =>
    have other : inWord ≠ asWord := by decide
    simp [clauseOf, on, known, other]

theorem clauseOf_unknown {word argument : Text} (key : Text) (on : realWithUnit = true)
    (part : UnknownClause units size [.word word, .word argument]) :
    Unresolved (clauseOf units realWithUnit key .real size word argument) := by
  cases part with
  | label unknown => exact ⟨.unknownLabel argument key, by simp [clauseOf, on, unknown], rfl⟩
  | symbol unknown =>
    have other : inWord ≠ asWord := by decide
    exact ⟨.unknownSymbol argument key, by simp [clauseOf, on, unknown, other], rfl⟩

theorem clauseOf_cases (units : UnitSystem) (realWithUnit : Bool) (key : Text) (kind : Kind) (size : Option Nat)
    {word : Text} (argument : Text) (asOrIn : word = asWord ∨ word = inWord) :
    Malformed (clauseOf units realWithUnit key kind size word argument) ∨
    (∃ clause, ClausePart units realWithUnit kind size [.word word, .word argument] clause ∧
      clauseOf units realWithUnit key kind size word argument = .ok clause) ∨
    (realWithUnit = true ∧ kind = .real ∧ UnknownClause units size [.word word, .word argument]) := by
  unfold clauseOf
  split
  case h_1 =>
    split_ifs with path
    · obtain ⟨rfl, rfl⟩ := path
      exact .inr (.inl ⟨_, .path, rfl⟩)
    · exact .inl ⟨_, rfl, rfl⟩
  case h_2 => exact .inl ⟨_, rfl, rfl⟩
  case h_3 => exact .inl ⟨_, rfl, rfl⟩
  case h_4 =>
    cases realWithUnit with
    | false => exact .inl ⟨_, rfl, rfl⟩
    | true =>
      rcases asOrIn with rfl | rfl
      · cases size with
        | some n => exact .inl ⟨_, rfl, rfl⟩
        | none =>
          cases valid : units.hasLabel argument with
          | true => exact .inr (.inl ⟨_, .label rfl valid, by simp⟩)
          | false => exact .inr (.inr ⟨rfl, rfl, .label valid⟩)
      · have other : inWord ≠ asWord := by decide
        cases size with
        | none => exact .inl ⟨.symbolOnScalar key, by simp [other], rfl⟩
        | some n =>
          cases known : units.find? argument with
          | some measure => exact .inr (.inl ⟨_, .symbol rfl known, by simp [other]⟩)
          | none => exact .inr (.inr ⟨rfl, rfl, .symbol known⟩)

theorem takeClause_words (units : UnitSystem) (realWithUnit : Bool) (key : Text) (kind : Kind) (size : Option Nat)
    {word argument : Text} (asOrIn : word = asWord ∨ word = inWord)
    (h : tokens ls = .word word :: .word argument :: behind) :
    ∃ rest, tokens rest = behind ∧ takeClause units realWithUnit key kind size ls =
      (clauseOf units realWithUnit key kind size word argument).map (·, rest) := by
  obtain ⟨_, _, _, rfl, h₁⟩ := exists_of_tokens h
  obtain ⟨_, _, rest, rfl, h₂⟩ := exists_of_tokens h₁
  refine ⟨rest, h₂, ?_⟩
  simp only [takeClause, if_pos asOrIn, takeWord]
  rfl

theorem takeClause_part (clausePart : ClausePart units realWithUnit kind size part clause) (h : tokens ls = part) :
    takeClause units realWithUnit key kind size ls = .ok (clause, []) := by
  have words {word argument : Text} (asOrIn : word = asWord ∨ word = inWord)
      (h : tokens ls = [.word word, .word argument])
      (part : ClausePart units realWithUnit kind size [.word word, .word argument] clause) :
      takeClause units realWithUnit key kind size ls = .ok (clause, []) := by
    obtain ⟨rest, none, taken⟩ := takeClause_words units realWithUnit key kind size asOrIn h
    obtain rfl := List.map_eq_nil_iff.mp none
    rw [taken, clauseOf_part part]
    rfl
  cases clausePart with
  | none =>
    obtain rfl := List.map_eq_nil_iff.mp h
    rfl
  | path => exact words (.inl rfl) h .path
  | label on valid => exact words (.inl rfl) h (.label on valid)
  | symbol on known => exact words (.inr rfl) h (.symbol on known)

theorem takeClause_unknown (key : Text) (on : realWithUnit = true) (clausePart : UnknownClause units size part)
    (h : tokens ls = part ++ behind) : Unresolved (takeClause units realWithUnit key .real size ls) := by
  have words {word argument : Text} (asOrIn : word = asWord ∨ word = inWord)
      (h : tokens ls = .word word :: .word argument :: behind)
      (part : UnknownClause units size [.word word, .word argument]) :
      Unresolved (takeClause units realWithUnit key .real size ls) := by
    obtain ⟨rest, -, taken⟩ := takeClause_words units realWithUnit key .real size asOrIn h
    obtain ⟨fault, failed, unresolved⟩ := clauseOf_unknown key on part
    exact ⟨fault, by rw [taken, failed]; rfl, unresolved⟩
  cases clausePart with
  | label unknown => exact words (.inl rfl) h (.label unknown)
  | symbol unknown => exact words (.inr rfl) h (.symbol unknown)

theorem takeClause_cases (units : UnitSystem) (realWithUnit : Bool) (key : Text) (kind : Kind) (size : Option Nat)
    (ls : Rest) :
    Malformed (takeClause units realWithUnit key kind size ls) ∨
    (∃ part clause rest, ClausePart units realWithUnit kind size part clause ∧ tokens ls = part ++ tokens rest ∧
      takeClause units realWithUnit key kind size ls = .ok (clause, rest)) ∨
    (realWithUnit = true ∧ kind = .real ∧
      ∃ part behind, UnknownClause units size part ∧ tokens ls = part ++ behind) := by
  have nothing (e : takeClause units realWithUnit key kind size ls = .ok (.none, ls)) :
      ∃ part clause rest, ClausePart units realWithUnit kind size part clause ∧ tokens ls = part ++ tokens rest ∧
        takeClause units realWithUnit key kind size ls = .ok (clause, rest) :=
    ⟨[], .none, ls, .none, rfl, e⟩
  match ls with
  | [] => exact .inr (.inl (nothing rfl))
  | ⟨.colon, _, _⟩ :: _ => exact .inr (.inl (nothing rfl))
  | ⟨.opening, _, _⟩ :: _ => exact .inr (.inl (nothing rfl))
  | ⟨.closing, _, _⟩ :: _ => exact .inr (.inl (nothing rfl))
  | ⟨.word word, raw, onward⟩ :: ls =>
    by_cases asOrIn : word = asWord ∨ word = inWord
    · rcases takeWord_cases (.noArgument word key) rfl ls with
        ⟨fault, failed, malformed⟩ | ⟨argument, rest, next, -⟩
      · exact .inl ⟨fault, by simp only [takeClause, if_pos asOrIn, failed]; rfl, malformed⟩
      · have words : tokens (⟨.word word, raw, onward⟩ :: ls) = .word word :: .word argument :: tokens rest :=
          congrArg (HeadToken.word word :: ·) next
        obtain ⟨rest', behind, taken⟩ := takeClause_words units realWithUnit key kind size asOrIn words
        rcases clauseOf_cases units realWithUnit key kind size argument asOrIn with
          ⟨fault, failed, malformed⟩ | ⟨clause, part, made⟩ | ⟨on, real, unknown⟩
        · exact .inl ⟨fault, by rw [taken, failed]; rfl, malformed⟩
        · exact .inr (.inl ⟨_, clause, rest', part, by rw [words, behind]; rfl, by rw [taken, made]; rfl⟩)
        · exact .inr (.inr ⟨on, real, _, _, unknown, words⟩)
    · exact .inr (.inl (nothing (by simp only [takeClause, if_neg asOrIn])))

def takeKind (units : UnitSystem) (realWithUnit : Bool) (key : Text) (locked : Bool) (w : Text) (ls : Rest) :
    Except HeadFault (Typing × Rest) :=
  match Kind.ofWord w with
  | none => .error (.unknownType w key)
  | some kind => do
    let (size, rest) ← takeSize key ls
    let (unit, rest) ← takeClause units realWithUnit key kind size rest
    return (⟨locked, kind, size, unit⟩, rest)

theorem takeKind_of_takeSize (units : UnitSystem) (realWithUnit : Bool) (locked : Bool) (kind : Kind)
    (sized : takeSize key ls = .ok (size, rest)) :
    takeKind units realWithUnit key locked kind.word ls =
      (takeClause units realWithUnit key kind size rest).map fun r => (⟨locked, kind, size, r.1⟩, r.2) := by
  simp only [takeKind, Kind.ofWord_word, bind, Except.bind, sized]
  cases takeClause units realWithUnit key kind size rest <;> rfl

theorem takeKind_cases (units : UnitSystem) (realWithUnit : Bool) (key : Text) (locked : Bool) (w : Text)
    (ls : Rest) :
    Malformed (takeKind units realWithUnit key locked w ls) ∨ ∃ brackets kind size rest,
      w = kind.word ∧ SizePart brackets size ∧ tokens ls = brackets ++ tokens rest ∧
      takeKind units realWithUnit key locked w ls =
        (takeClause units realWithUnit key kind size rest).map fun r => (⟨locked, kind, size, r.1⟩, r.2) := by
  cases known : Kind.ofWord w with
  | none => exact .inl ⟨.unknownType w key, by rw [takeKind, known], rfl⟩
  | some kind =>
    obtain rfl := word_of_ofWord known
    rcases takeSize_cases key ls with ⟨fault, failed, malformed⟩ | ⟨brackets, size, rest, sizePart, next, sized⟩
    · exact .inl ⟨fault, by rw [takeKind, known, failed]; rfl, malformed⟩
    · exact .inr ⟨brackets, kind, size, rest, rfl, sizePart, next,
        takeKind_of_takeSize units realWithUnit locked kind sized⟩

theorem takeTyping_free {w : Text} (units : UnitSystem) (realWithUnit : Bool) (free : w ≠ lockWord)
    (taken : takeWord (.noType key) ls = .ok (w, rest)) :
    takeTyping units realWithUnit key ls = takeKind units realWithUnit key false w rest := by
  simp only [takeTyping, taken, bind, Except.bind, free, decide_false, Bool.false_eq_true, if_false]
  rfl

theorem takeTyping_locked (units : UnitSystem) (realWithUnit : Bool)
    (taken : takeWord (.noType key) ls = .ok (lockWord, rest)) :
    takeTyping units realWithUnit key ls =
      (takeWord (.noType key) rest).bind fun r => takeKind units realWithUnit key true r.1 r.2 := by
  simp only [takeTyping, taken, bind, Except.bind, decide_true, if_true]
  rfl

theorem takeTyping_parts {lock brackets : List HeadToken} (units : UnitSystem) (realWithUnit : Bool) (key : Text)
    (lockPart : LockPart lock locked) (sizePart : SizePart brackets size)
    (h : tokens ls = lock ++ .word kind.word :: (brackets ++ behind)) (other : behind.head? ≠ some .opening) :
    ∃ rest, tokens rest = behind ∧ takeTyping units realWithUnit key ls =
      (takeClause units realWithUnit key kind size rest).map fun r => (⟨locked, kind, size, r.1⟩, r.2) := by
  cases lockPart with
  | free =>
    have free : kind.word ≠ lockWord := by cases kind <;> decide
    obtain ⟨_, _, _, rfl, h₁⟩ := exists_of_tokens h
    obtain ⟨rest, h₂, sized⟩ := takeSize_part key sizePart h₁ other
    refine ⟨rest, h₂, ?_⟩
    rw [takeTyping_free units realWithUnit free rfl, takeKind_of_takeSize units realWithUnit false kind sized]
  | locked =>
    obtain ⟨_, _, _, rfl, h₁⟩ := exists_of_tokens h
    obtain ⟨_, _, _, rfl, h₂⟩ := exists_of_tokens h₁
    obtain ⟨rest, h₃, sized⟩ := takeSize_part key sizePart h₂ other
    refine ⟨rest, h₃, ?_⟩
    rw [takeTyping_locked units realWithUnit rfl]
    exact takeKind_of_takeSize units realWithUnit true kind sized

theorem takeTyping_cases (units : UnitSystem) (realWithUnit : Bool) (key : Text) (ls : Rest) :
    Malformed (takeTyping units realWithUnit key ls) ∨ ∃ lock brackets locked kind size rest,
      LockPart lock locked ∧ SizePart brackets size ∧
      tokens ls = lock ++ .word kind.word :: (brackets ++ tokens rest) ∧
      takeTyping units realWithUnit key ls =
        (takeClause units realWithUnit key kind size rest).map fun r => (⟨locked, kind, size, r.1⟩, r.2) := by
  rcases takeWord_cases (.noType key) rfl ls with ⟨fault, failed, malformed⟩ | ⟨first, rest, next, taken⟩
  · exact .inl ⟨fault, by rw [takeTyping, failed]; rfl, malformed⟩
  by_cases lock : first = lockWord
  · subst lock
    have e := takeTyping_locked units realWithUnit taken
    rcases takeWord_cases (.noType key) rfl rest with ⟨fault, failed, malformed⟩ | ⟨w, rest, after, found⟩
    · exact .inl ⟨fault, by rw [e, failed]; rfl, malformed⟩
    · rw [found] at e
      rcases takeKind_cases units realWithUnit key true w rest with
        ⟨fault, failed, malformed⟩ | ⟨brackets, kind, size, rest, rfl, sizePart, more, same⟩
      · exact .inl ⟨fault, e.trans failed, malformed⟩
      · exact .inr ⟨_, brackets, true, kind, size, rest, .locked, sizePart, by rw [next, after, more]; rfl,
          e.trans same⟩
  · have e := takeTyping_free units realWithUnit lock taken
    rcases takeKind_cases units realWithUnit key false first rest with
      ⟨fault, failed, malformed⟩ | ⟨brackets, kind, size, rest, rfl, sizePart, more, same⟩
    · exact .inl ⟨fault, e.trans failed, malformed⟩
    · exact .inr ⟨[], brackets, false, kind, size, rest, .free, sizePart, by rw [next, more]; rfl, e.trans same⟩

theorem head?_clausePart (clausePart : ClausePart units realWithUnit kind size part clause) :
    part.head? ≠ some .opening := by
  cases clausePart <;> simp

theorem head?_typingPart (typingPart : TypingPart units realWithUnit part typing) :
    part.head? ≠ some .opening := by
  cases typingPart <;> simp

theorem takeColon_part (typingPart : TypingPart units realWithUnit part typing) (h : tokens ls = part) :
    takeColon units realWithUnit key ls = .ok (typing, []) := by
  cases typingPart with
  | bare =>
    obtain rfl := List.map_eq_nil_iff.mp h
    rfl
  | typed lockPart sizePart clausePart =>
    obtain ⟨_, _, _, rfl, h₁⟩ := exists_of_tokens h
    obtain ⟨rest, h₂, taken⟩ := takeTyping_parts units realWithUnit key lockPart sizePart h₁
      (head?_clausePart clausePart)
    rw [takeColon, taken, takeClause_part clausePart h₂]
    rfl

theorem takeColon_unknown (key : Text) (on : realWithUnit = true) (typingPart : UnknownTyping units part)
    (h : tokens ls = part) : Unresolved (takeColon units realWithUnit key ls) := by
  cases typingPart with
  | typed lockPart sizePart clause =>
    obtain ⟨_, _, _, rfl, h₁⟩ := exists_of_tokens h
    obtain ⟨rest, h₂, taken⟩ := takeTyping_parts units realWithUnit key lockPart sizePart h₁
      (by cases clause <;> simp)
    obtain ⟨fault, failed, unresolved⟩ := takeClause_unknown key on clause h₂
    exact ⟨fault, by rw [takeColon, taken, failed]; rfl, unresolved⟩

theorem takeColon_cases (units : UnitSystem) (realWithUnit : Bool) (key : Text) (ls : Rest) :
    Malformed (takeColon units realWithUnit key ls) ∨
    (∃ part typing rest, TypingPart units realWithUnit part typing ∧ tokens ls = part ++ tokens rest ∧
      takeColon units realWithUnit key ls = .ok (typing, rest)) ∨
    (realWithUnit = true ∧ UnknownTyping units (tokens ls)) := by
  unfold takeColon
  split
  case h_1 => exact .inr (.inl ⟨[], _, [], .bare, rfl, rfl⟩)
  case h_3 => exact .inl ⟨_, rfl, rfl⟩
  case h_2 ls =>
    rcases takeTyping_cases units realWithUnit key ls with
      ⟨fault, failed, malformed⟩ | ⟨lock, brackets, locked, kind, size, rest, lockPart, sizePart, next, taken⟩
    · exact .inl ⟨fault, failed, malformed⟩
    rcases takeClause_cases units realWithUnit key kind size rest with
      ⟨fault, failed, malformed⟩ | ⟨part, clause, rest', clausePart, more, made⟩ |
        ⟨on, rfl, part, behind, clause, more⟩
    · exact .inl ⟨fault, by rw [taken, failed]; rfl, malformed⟩
    · refine .inr (.inl ⟨_, _, rest', .typed lockPart sizePart clausePart, ?_, by rw [taken, made]; rfl⟩)
      change HeadToken.colon :: tokens ls = _
      rw [next, more]
      simp
    · refine .inr (.inr ⟨on, ?_⟩)
      change UnknownTyping units (HeadToken.colon :: tokens ls)
      rw [next, more]
      exact .typed lockPart sizePart clause

theorem modeOf_part (modePart : ModePart append index size mode) : modeOf key size index append = .ok mode := by
  cases modePart <;> rfl

theorem modeOf_cases (key : Text) (size index : Option Nat) (append : Bool) :
    Malformed (modeOf key size index append) ∨
      ∃ mode, ModePart append index size mode ∧ modeOf key size index append = .ok mode := by
  cases index with
  | some i =>
    cases append with
    | true => exact .inl ⟨_, rfl, rfl⟩
    | false =>
      cases size with
      | some n => exact .inl ⟨_, rfl, rfl⟩
      | none => exact .inr ⟨_, .item, rfl⟩
  | none =>
    cases append with
    | false => exact .inr ⟨_, .declare, rfl⟩
    | true =>
      cases size with
      | some n => exact .inr ⟨_, .append, rfl⟩
      | none => exact .inl ⟨_, rfl, rfl⟩

theorem ofHead_part (line : Text) (headPart : HeadPart units realWithUnit append values (tokens ls) d) :
    ofHead units realWithUnit line append values ls = .ok d := by
  generalize h : tokens ls = ts at headPart
  cases headPart with
  | @head key _ _ _ _ _ indexPart typingPart modePart =>
    obtain ⟨_, _, _, rfl, h₁⟩ := exists_of_tokens h
    obtain ⟨rest, h₂, indexed⟩ := takeIndex_part key indexPart h₁ (head?_typingPart typingPart)
    simp only [ofHead, bind, Except.bind, indexed, takeColon_part typingPart h₂, modeOf_part modePart]
    rfl

theorem ofHead_unknown (line : Text) (on : realWithUnit = true) (head : UnknownHead units (tokens ls)) :
    Unresolved (ofHead units realWithUnit line append values ls) := by
  generalize h : tokens ls = ts at head
  cases head with
  | @head key _ _ _ indexPart typing =>
    obtain ⟨_, _, _, rfl, h₁⟩ := exists_of_tokens h
    obtain ⟨rest, h₂, indexed⟩ := takeIndex_part key indexPart h₁ (by cases typing; simp)
    obtain ⟨fault, failed, unresolved⟩ := takeColon_unknown key on typing h₂
    exact ⟨fault, by simp only [ofHead, bind, Except.bind, indexed, failed], unresolved⟩

theorem ofHead_cases (units : UnitSystem) (realWithUnit : Bool) (line : Text) (append : Bool) (values : Text)
    (ls : Rest) :
    Malformed (ofHead units realWithUnit line append values ls) ∨
    (∃ d, HeadPart units realWithUnit append values (tokens ls) d ∧
      ofHead units realWithUnit line append values ls = .ok d) ∨
    (realWithUnit = true ∧ UnknownHead units (tokens ls)) := by
  unfold ofHead
  split
  case h_2 => exact .inl ⟨_, rfl, rfl⟩
  case h_1 key _ _ ls =>
    rcases takeIndex_cases key ls with
      ⟨fault, failed, malformed⟩ | ⟨brackets, index, rest, indexPart, next, indexed⟩
    · exact .inl ⟨fault, by simp only [bind, Except.bind, failed], malformed⟩
    rcases takeColon_cases units realWithUnit key rest with
      ⟨fault, failed, malformed⟩ | ⟨part, typing, rest', typingPart, more, taken⟩ | ⟨on, unknown⟩
    · exact .inl ⟨fault, by simp only [bind, Except.bind, indexed, failed], malformed⟩
    · simp only [bind, Except.bind, indexed, taken]
      cases rest' with
      | cons l rest' => exact .inl ⟨_, rfl, rfl⟩
      | nil =>
        rcases modeOf_cases key typing.size index append with ⟨fault, failed, malformed⟩ | ⟨mode, modePart, made⟩
        · exact .inl ⟨fault, by simp only [failed], malformed⟩
        · refine .inr (.inl ⟨_, ?_, by simp only [made]; rfl⟩)
          change HeadPart units realWithUnit append values (.word key :: tokens ls) _
          rw [next, more, show tokens [] = [] from rfl, List.append_nil]
          exact .head indexPart typingPart modePart
    · refine .inr (.inr ⟨on, ?_⟩)
      change UnknownHead units (.word key :: tokens ls)
      rw [next]
      exact .head indexPart unknown

theorem headPart_of_ofHead (h : ofHead units realWithUnit line append values ls = .ok d) :
    HeadPart units realWithUnit append values (tokens ls) d := by
  rcases ofHead_cases units realWithUnit line append values ls with
    ⟨fault, failed, -⟩ | ⟨d', headPart, read⟩ | ⟨on, unknown⟩
  · cases h.symm.trans failed
  · obtain rfl := Except.ok.inj (h.symm.trans read)
    exact headPart
  · obtain ⟨fault, failed, -⟩ := ofHead_unknown line on unknown
    cases h.symm.trans failed

/-- The parts of a line: what stands in front of its first `=`, if it appends also without the `+` that the `=`
follows, and what stands behind. -/
inductive Parts : Text → Text → Bool → Text → Prop
  | plain {head values : Text} (noMark : assignMark ∉ head) (noAppend : head.getLast? ≠ some appendMark) :
      Parts (head ++ assignMark :: values) head false values
  | append {head values : Text} (noMark : assignMark ∉ head) :
      Parts (head ++ appendMark :: assignMark :: values) head true values

theorem ofLine_parts {head : Text} (units : UnitSystem) (realWithUnit : Bool)
    (parts : Parts line head append values) :
    ofLine units realWithUnit line =
      ofHead units realWithUnit line append values (HeadToken.scan (Text.trimEnd head)) := by
  cases parts with
  | plain noMark noAppend =>
    rw [ofLine, Text.cutAt_eq_some_iff.mpr ⟨rfl, noMark⟩]
    simp only [Text.dropMark_eq_none_iff.mpr noAppend]
    rfl
  | append noMark =>
    have cut : Text.cutAt assignMark (head ++ appendMark :: assignMark :: values) =
        some (head ++ [appendMark], values) :=
      Text.cutAt_eq_some_iff.mpr ⟨by simp, by simp [noMark, assignMark, appendMark]⟩
    rw [ofLine, cut]
    simp only [Text.dropMark_eq_some_iff.mpr rfl]
    rfl

theorem exists_parts (h : assignMark ∈ line) : ∃ head append values, Parts line head append values := by
  obtain ⟨⟨head, values⟩, cut⟩ := Option.ne_none_iff_exists'.mp fun none => Text.cutAt_eq_none_iff.mp none h
  obtain ⟨rfl, noMark⟩ := Text.cutAt_eq_some_iff.mp cut
  cases mark : Text.dropMark appendMark head with
  | none => exact ⟨head, false, values, .plain noMark (Text.dropMark_eq_none_iff.mp mark)⟩
  | some bare =>
    obtain rfl := Text.dropMark_eq_some_iff.mp mark
    refine ⟨bare, true, values, ?_⟩
    rw [List.append_assoc]
    exact .append fun mem => noMark (List.mem_append_left _ mem)

/-- The declarations that a line stands for. The tokens of its head are those of the text that `shown` makes
of it. -/
def Declares (units : UnitSystem) (realWithUnit : Bool) (shown : Text → Text) (line : Text) (d : Declaration) :
    Prop :=
  ∃ head append values, Parts line head append values ∧
    HeadPart units realWithUnit append values (tokens (HeadToken.scan (shown head))) d

/-- A line with a head that is right up to a clause which asks for a unit that there is not. -/
def AsksUnknown (units : UnitSystem) (realWithUnit : Bool) (shown : Text → Text) (line : Text) : Prop :=
  realWithUnit = true ∧ ∃ head append values, Parts line head append values ∧
    UnknownHead units (tokens (HeadToken.scan (shown head)))

theorem ofLine_declares (h : Declares units realWithUnit Text.trimEnd line d) :
    ofLine units realWithUnit line = .ok d := by
  obtain ⟨head, append, values, parts, headPart⟩ := h
  rw [ofLine_parts units realWithUnit parts]
  exact ofHead_part line headPart

theorem declares_of_ofLine (h : ofLine units realWithUnit line = .ok d) :
    Declares units realWithUnit Text.trimEnd line d := by
  have mark : assignMark ∈ line := by
    by_contra none
    rw [ofLine, Text.cutAt_eq_none_iff.mpr none] at h
    cases h
  obtain ⟨head, append, values, parts⟩ := exists_parts mark
  rw [ofLine_parts units realWithUnit parts] at h
  exact ⟨head, append, values, parts, headPart_of_ofHead h⟩

theorem ofLine_asksUnknown (h : AsksUnknown units realWithUnit Text.trimEnd line) :
    Unresolved (ofLine units realWithUnit line) := by
  obtain ⟨on, head, append, values, parts, unknown⟩ := h
  rw [ofLine_parts units realWithUnit parts]
  exact ofHead_unknown line on unknown

theorem ofLine_cases (units : UnitSystem) (realWithUnit : Bool) (line : Text) :
    Malformed (ofLine units realWithUnit line) ∨
    (∃ d, Declares units realWithUnit Text.trimEnd line d ∧ ofLine units realWithUnit line = .ok d) ∨
    AsksUnknown units realWithUnit Text.trimEnd line := by
  by_cases mark : assignMark ∈ line
  · obtain ⟨head, append, values, parts⟩ := exists_parts mark
    rw [ofLine_parts units realWithUnit parts]
    rcases ofHead_cases units realWithUnit line append values (HeadToken.scan (Text.trimEnd head)) with
      malformed | ⟨d, headPart, read⟩ | ⟨on, unknown⟩
    · exact .inl malformed
    · exact .inr (.inl ⟨d, ⟨head, append, values, parts, headPart⟩, read⟩)
    · exact .inr (.inr ⟨on, head, append, values, parts, unknown⟩)
  · exact .inl ⟨.noAssignment line, by rw [ofLine, Text.cutAt_eq_none_iff.mpr mark], rfl⟩

/-- A declaration line is read by its grammar, where white space at the end of the head does not count: it
declares what the grammar says. If it stands for no declaration, the fault is a unit that is not known where
its head is right up to a clause which asks for one, and anything else is malformed. -/
theorem lines_are_read_by_their_grammar (units : UnitSystem) (realWithUnit : Bool) (line : Text) :
    (∀ d, ofLine units realWithUnit line = .ok d ↔ Declares units realWithUnit Text.trimEnd line d) ∧
    ((∃ fault, ofLine units realWithUnit line = .error fault ∧ fault.kind = .unresolved) ↔
      AsksUnknown units realWithUnit Text.trimEnd line) ∧
    ((∃ fault, ofLine units realWithUnit line = .error fault ∧ fault.kind = .malformed) ↔
      ¬ (∃ d, Declares units realWithUnit Text.trimEnd line d) ∧
        ¬ AsksUnknown units realWithUnit Text.trimEnd line) := by
  have cases := ofLine_cases units realWithUnit line
  refine ⟨fun d => ⟨declares_of_ofLine, ofLine_declares⟩, ⟨?asks, ofLine_asksUnknown⟩, ?other, ?malformed⟩
  case asks =>
    rintro ⟨fault, failed, unresolved⟩
    rcases cases with ⟨fault', failed', malformed⟩ | ⟨d, -, read⟩ | unknown
    · obtain rfl := Except.error.inj (failed.symm.trans failed')
      cases unresolved.symm.trans malformed
    · cases failed.symm.trans read
    · exact unknown
  case other =>
    rintro ⟨fault, failed, malformed⟩
    refine ⟨?_, fun unknown => ?_⟩
    · rintro ⟨d, declares⟩
      cases failed.symm.trans (ofLine_declares declares)
    · obtain ⟨fault', failed', unresolved⟩ := ofLine_asksUnknown unknown
      obtain rfl := Except.error.inj (failed.symm.trans failed')
      cases unresolved.symm.trans malformed
  case malformed =>
    rintro ⟨no, known⟩
    rcases cases with malformed | ⟨d, declares, -⟩ | unknown
    · exact malformed
    · exact absurd ⟨d, declares⟩ no
    · exact absurd unknown known

/-- White space that separates no tokens belongs to a key, but for that at the end of the head. -/
theorem white_space_at_the_end_is_no_part_of_a_key :
    let line := ['k', '\u00a0', '=', ' ', 'v']
    let declared (key : Text) : Declaration := ⟨key, .declare, false, .string, none, .none, ['v']⟩
    Declares StandardUnits.system true id line (declared ['k', '\u00a0']) ∧
      ofLine StandardUnits.system true line ≠ .ok (declared ['k', '\u00a0']) ∧
      ofLine StandardUnits.system true line = .ok (declared ['k']) := by
  intro line declared
  have read : ofLine StandardUnits.system true line = .ok (declared ['k']) := by decide +kernel
  have parts : Parts line ['k', '\u00a0'] false [' ', 'v'] :=
    .plain (by decide : assignMark ∉ ['k', '\u00a0']) (by decide)
  refine ⟨⟨_, _, _, parts, ?_⟩, ?_, read⟩
  · have word : tokens (HeadToken.scan ['k', '\u00a0']) = [.word ['k', '\u00a0']] := by decide +kernel
    rw [id, word]
    exact .head .none .bare .declare
  · rw [read]
    decide

end Declaration
end TypedProperties
