import TypedProperties.Declaration.Values
import TypedProperties.Proofs.Declaration.Grammar
import TypedProperties.Proofs.Store.Sound
import TypedProperties.Proofs.Text.Plain

/-! What a declaration line can declare: its key, and values of the size, the unit and the texts that it
gives. -/
namespace TypedProperties
namespace ValueToken

def Quotation.text : Quotation → Text
  | .closed t _ _ => t
  | .unclosed _ _ => []

theorem Quotation.sublist_behind (read value : Text) (q : Quotation) :
    ((q.behind read value).text ++ (q.behind read value).rest).Sublist (value ++ (q.text ++ q.rest)) := by
  cases q with
  | closed t raw rest => simp [behind, text, Quotation.rest]
  | unclosed raw rest => simp [behind, text, Quotation.rest]

/-- The string of a quotation and what follows stand in this order in the source. -/
theorem Quotation.sublist_scan (t : Text) : ((scan t).text ++ (scan t).rest).Sublist t := by
  fun_induction scan t with
  | case1 => exact .slnil
  | case2 rest => exact List.sublist_cons_self _ _
  | case3 => exact .refl _
  | case4 rest => exact .refl _
  | case5 c rest line ih =>
    exact (sublist_behind _ _ _).trans ((ih.cons_cons c).trans (List.sublist_cons_self _ _))
  | case6 c rest _ _ _ ih => exact (sublist_behind _ _ _).trans (ih.cons_cons c)

end ValueToken

namespace Readout

def texts (ls : Rest) : List Text := ls.filterMap fun l => textOf l.token

theorem sublist_scan (source : Text) : (texts (ValueToken.scan source)).flatten.Sublist source := by
  fun_induction ValueToken.scan source with
  | case1 => exact .slnil
  | case2 c cs gap ih => exact ih.cons c
  | case3 cs text raw rest quotation _ ih =>
    have inner := ValueToken.Quotation.sublist_scan cs
    rw [quotation] at inner
    exact ((ih.append_left text).trans inner).cons _
  | case4 cs raw rest quotation _ ih =>
    have inner := ValueToken.Quotation.sublist_scan cs
    rw [quotation] at inner
    exact (ih.trans inner).cons _
  | case5 cs _ _ _ ih => exact (ih.trans (List.dropWhile_sublist _)).cons _
  | case6 c cs _ _ _ _ ih =>
    have word := ih.append_left (cs.takeWhile ValueToken.isWordChar)
    rw [List.takeWhile_append_dropWhile] at word
    exact word.cons_cons c

variable {α : Type} {kind : Kind} {key : Text} {read : ValueToken → Option α} {n : Nat}
  {ls rest : Rest} {units : UnitSystem} {realWithUnit : Bool} {d : Declaration} {data : Data}
  {clause : UnitClause} {unit : Option (Text × Float)}

theorem takeValue_eq {v : α} (h : takeValue kind key read ls = .ok (v, rest)) :
    ∃ l, ls = l :: rest ∧ read l.token = some v := by
  cases ls with
  | nil => cases h
  | cons l ls =>
    simp only [takeValue] at h
    split at h
    · cases h
    · cases h
    · split at h
      next found =>
        obtain ⟨rfl, rfl⟩ := Prod.mk.inj (Except.ok.inj h)
        exact ⟨l, rfl, found⟩
      next => cases h

/-- The values that are taken are what the first lexemes read as, one each. -/
theorem takeValues_eq {vs : List α} (h : takeValues kind key read n ls = .ok (vs, rest)) :
    ∃ first, ls = first ++ rest ∧ vs.length = n ∧ List.Forall₂ (fun l v => read l.token = some v) first vs := by
  induction n generalizing ls vs with
  | zero =>
    obtain ⟨rfl, rfl⟩ := Prod.mk.inj (Except.ok.inj h)
    exact ⟨[], rfl, rfl, .nil⟩
  | succ n ih =>
    unfold takeValues at h
    split at h
    next => cases h
    next v more here =>
      split at h
      next => cases h
      next vs' rest' behind =>
        obtain ⟨rfl, rfl⟩ := Prod.mk.inj (Except.ok.inj h)
        obtain ⟨l, rfl, found⟩ := takeValue_eq here
        obtain ⟨first, rfl, length, all⟩ := ih behind
        exact ⟨l :: first, rfl, by simp [length], .cons found all⟩

theorem texts_of_takeValues {vs : List Text} (h : takeValues kind key textOf n ls = .ok (vs, rest)) :
    texts ls = vs ++ texts rest := by
  obtain ⟨first, rfl, -, all⟩ := takeValues_eq h
  rw [texts, List.filterMap_append, ← texts, ← texts]
  have own : texts first = vs := by
    clear h
    induction all with
    | nil => rfl
    | cons found _ ih => simpa [texts, List.filterMap_cons, found] using ih
  rw [own]

/-- What stands behind the value of a real scalar, the unit that it gives, and what is left: there may be
nothing, a comment or a unit. -/
inductive UnitBehind (units : UnitSystem) (realWithUnit : Bool) (clause : UnitClause) :
    Rest → Option (Text × Float) → Rest → Prop
  | nothing : UnitBehind units realWithUnit clause [] none []
  | comment {l : Lexeme ValueToken} {ls : Rest} (comment : l.token = .comment) :
      UnitBehind units realWithUnit clause (l :: ls) none (l :: ls)
  | unit {l : Lexeme ValueToken} {ls : Rest} {symbol : Text} {measure : Measure} (on : realWithUnit = true)
      (text : textOf l.token = some symbol) (known : units.find? symbol = some measure)
      (labelled : ∀ label, clause = .label label → measure.label = label) :
      UnitBehind units realWithUnit clause (l :: ls) (some (symbol, measure.factor)) ls

def unitOf (units : UnitSystem) (realWithUnit : Bool) (key : Text) (clause : UnitClause) (symbol : Text) :
    Except ValueFault (Text × Float) :=
  if !realWithUnit then .error (.unitsDisabled symbol key)
  else
    match units.find? symbol, clause with
    | none, _ => .error (.unknownUnit symbol key)
    | some unit, .label label =>
      if unit.label = label then .ok (symbol, unit.factor)
      else .error (.wrongLabel symbol key unit.label label)
    | some unit, _ => .ok (symbol, unit.factor)

theorem unitOf_iff {symbol : Text} {u : Text × Float} :
    unitOf units realWithUnit key clause symbol = .ok u ↔
      realWithUnit = true ∧ ∃ measure, units.find? symbol = some measure ∧
        (∀ label, clause = .label label → measure.label = label) ∧ u = (symbol, measure.factor) := by
  cases realWithUnit with
  | false => simp [unitOf]
  | true =>
    cases known : units.find? symbol with
    | none => simp [unitOf, known]
    | some measure =>
      cases clause with
      | label label =>
        by_cases same : measure.label = label
        · simp [unitOf, known, same, eq_comm]
        · simp [unitOf, known, same]
      | _ => simp [unitOf, known, eq_comm]

theorem takeUnit_text (units : UnitSystem) (realWithUnit : Bool) (key : Text) (clause : UnitClause)
    {l : Lexeme ValueToken} {symbol : Text} (text : textOf l.token = some symbol) (ls : Rest) :
    takeUnit units realWithUnit key clause (l :: ls) =
      (unitOf units realWithUnit key clause symbol).map fun u => (some u, ls) := by
  cases token : l.token with
  | comment => simp [token, textOf] at text
  | broken => simp [token, textOf] at text
  | _ =>
    obtain rfl : _ = symbol := by simpa [token, textOf] using text
    simp only [takeUnit, token, textOf, Option.getD_some, unitOf]
    cases realWithUnit with
    | false => rfl
    | true =>
      rw [if_neg (by decide), if_neg (by decide)]
      cases units.find? _ with
      | none => rfl
      | some measure =>
        cases clause with
        | label label => by_cases same : measure.label = label <;> simp [same, Except.map]
        | _ => rfl

theorem takeUnit_iff :
    takeUnit units realWithUnit key clause ls = .ok (unit, rest) ↔
      UnitBehind units realWithUnit clause ls unit rest := by
  constructor
  · intro taken
    cases ls with
    | nil =>
      obtain ⟨rfl, rfl⟩ := Prod.mk.inj (Except.ok.inj taken)
      exact .nothing
    | cons l ls =>
      cases text : textOf l.token with
      | some symbol =>
        rw [takeUnit_text units realWithUnit key clause text] at taken
        obtain ⟨u, made, e⟩ := map_eq_ok.mp taken
        obtain ⟨rfl, rfl⟩ := Prod.mk.inj e
        obtain ⟨on, measure, known, labelled, rfl⟩ := unitOf_iff.mp made
        exact .unit on text known labelled
      | none =>
        cases token : l.token with
        | comment =>
          simp only [takeUnit, token] at taken
          obtain ⟨rfl, rfl⟩ := Prod.mk.inj (Except.ok.inj taken)
          exact .comment token
        | broken =>
          simp only [takeUnit, token] at taken
          cases taken
        | _ => simp [token, textOf] at text
  · intro unitBehind
    cases unitBehind with
    | nothing => rfl
    | comment comment => simp only [takeUnit, comment]
    | unit on text known labelled =>
      rw [takeUnit_text units realWithUnit key clause text,
        unitOf_iff.mpr ⟨on, _, known, labelled, rfl⟩]
      rfl

theorem known_of_takeUnit {symbol : Text} {factor : Float}
    (h : takeUnit units realWithUnit key clause ls = .ok (some (symbol, factor), rest)) :
    (units.find? symbol).isSome := by
  cases takeUnit_iff.mp h with
  | unit _ _ known _ => simp [known]

/-- What data come from a declaration: as many values as it gives, in a known unit. -/
structure Fits (units : UnitSystem) (d : Declaration) (data : Data) : Prop where
  size : data.size = d.size.getD 1
  unit : ∀ symbol ∈ data.unit, (units.find? symbol).isSome

theorem fits_of_takeReals (known : ∀ symbol factor, d.unit = .symbol symbol factor → (units.find? symbol).isSome)
    (h : takeReals units realWithUnit d ls = .ok (data, rest)) : Fits units d data ∧ data.strings = [] := by
  unfold takeReals at h
  split at h
  next => cases h
  next vs behind taken =>
    obtain ⟨-, -, size, -⟩ := takeValues_eq taken
    split at h
    next symbol factor unit =>
      obtain ⟨rfl, -⟩ := Prod.mk.inj (Except.ok.inj h)
      refine ⟨⟨by simpa [Data.size] using size, ?_⟩, rfl⟩
      rintro _ ⟨⟩
      exact known symbol factor unit
    next =>
      obtain ⟨rfl, -⟩ := Prod.mk.inj (Except.ok.inj h)
      exact ⟨⟨size, nofun⟩, rfl⟩
    next =>
      split at h
      · cases h
      · obtain ⟨rfl, -⟩ := Prod.mk.inj (Except.ok.inj h)
        exact ⟨⟨size, nofun⟩, rfl⟩
      next found =>
        obtain ⟨rfl, -⟩ := Prod.mk.inj (Except.ok.inj h)
        refine ⟨⟨by simpa [Data.size] using size, ?_⟩, rfl⟩
        rintro _ ⟨⟩
        exact known_of_takeUnit found

/-- What is read from a segment fits its declaration, and its strings stand in the segment. -/
theorem fits_of_ofSegment
    (known : ∀ symbol factor, d.unit = .symbol symbol factor → (units.find? symbol).isSome)
    {segment : Text} {readout : Readout} (h : ofSegment units realWithUnit d segment = .ok readout) :
    Fits units d readout.data ∧ readout.data.strings.flatten.Sublist segment := by
  unfold ofSegment at h
  cases taken : takeData units realWithUnit d (ValueToken.scan segment) with
  | error fault => simp [taken, Except.map] at h
  | ok r =>
    obtain ⟨data, rest⟩ := r
    obtain rfl : readout = ⟨data, trailingOf rest⟩ := by simpa [taken, Except.map, eq_comm] using h
    unfold takeData at taken
    dsimp only at taken ⊢
    split at taken
    · obtain ⟨⟨vs, more⟩, values, made⟩ := map_eq_ok.mp taken
      obtain ⟨rfl, -⟩ := Prod.mk.inj made
      obtain ⟨-, -, size, -⟩ := takeValues_eq values
      exact ⟨⟨size, nofun⟩, List.nil_sublist _⟩
    · obtain ⟨⟨vs, more⟩, values, made⟩ := map_eq_ok.mp taken
      obtain ⟨rfl, -⟩ := Prod.mk.inj made
      obtain ⟨-, -, size, -⟩ := takeValues_eq values
      exact ⟨⟨size, nofun⟩, List.nil_sublist _⟩
    · obtain ⟨fits, strings⟩ := fits_of_takeReals known taken
      rw [strings]
      exact ⟨fits, List.nil_sublist _⟩
    · obtain ⟨⟨vs, more⟩, values, made⟩ := map_eq_ok.mp taken
      obtain ⟨rfl, -⟩ := Prod.mk.inj made
      obtain ⟨-, -, size, -⟩ := takeValues_eq values
      refine ⟨⟨size, nofun⟩, ?_⟩
      have inside := sublist_scan segment
      rw [texts_of_takeValues values, List.flatten_append] at inside
      exact (List.sublist_append_left _ _).trans inside

end Readout

namespace Declaration

variable {units : UnitSystem} {realWithUnit : Bool} {key line values : Text} {kind : Kind}
  {size : Option Nat} {ls rest : Rest} {d : Declaration}

/-- A unit symbol in a clause is known. -/
def UnitClause.Known (units : UnitSystem) (clause : UnitClause) : Prop :=
  ∀ symbol factor, clause = .symbol symbol factor → (units.find? symbol).isSome

theorem known_clausePart {part : List HeadToken} {clause : UnitClause}
    (clausePart : ClausePart units realWithUnit kind size part clause) : UnitClause.Known units clause := by
  rintro symbol factor rfl
  cases clausePart with
  | symbol _ known => simp [known]

theorem known_typingPart {part : List HeadToken} {typing : Typing}
    (typingPart : TypingPart units realWithUnit part typing) : UnitClause.Known units typing.unit := by
  cases typingPart with
  | bare => exact nofun
  | typed _ _ clausePart => exact known_clausePart clausePart

theorem ofHead_eq {append : Bool} (h : ofHead units realWithUnit line append values ls = .ok d) :
    (∃ raw onward rest, ls = ⟨.word d.key, raw, onward⟩ :: rest) ∧ UnitClause.Known units d.unit ∧
      d.values = Text.trim values := by
  have headPart := headPart_of_ofHead h
  generalize head : tokens ls = ts at headPart
  cases headPart with
  | head _ typingPart _ =>
    obtain ⟨raw, onward, rest, rfl, -⟩ := exists_of_tokens head
    exact ⟨⟨raw, onward, rest, rfl⟩, known_typingPart typingPart, rfl⟩

theorem isWord_of_scan {t word raw onward : Text} {rest : Rest} (first : ∀ c ∈ t.head?, isGap c = false)
    (h : HeadToken.scan t = ⟨.word word, raw, onward⟩ :: rest) : HeadToken.IsWord word ∧ word <+: t := by
  cases t with
  | nil => simp at h
  | cons c cs =>
    have gap : isGap c = false := first c rfl
    rw [HeadToken.scan, if_neg (by simp [gap])] at h
    split at h
    next mark found =>
      obtain ⟨⟨rfl, -⟩, -⟩ := List.cons.inj h
      unfold HeadToken.mark? at found
      split at found <;> cases found
    next none =>
      obtain ⟨⟨rfl, -⟩, -⟩ := List.cons.inj h
      refine ⟨⟨by simp, fun d hd => ?_⟩, ?_⟩
      · rcases List.mem_cons.mp hd with rfl | hd
        · exact HeadToken.isWordChar_of_mark? gap none
        · exact List.mem_takeWhile_imp hd
      · exact (List.prefix_cons_inj c).mpr (List.takeWhile_prefix _)

theorem values_of_ofLine {head : Text} (cut : Text.cutAt assignMark line = some (head, values))
    (h : ofLine units realWithUnit line = .ok d) : d.values = Text.trim values := by
  rw [ofLine, cut] at h
  exact (ofHead_eq h).2.2

/-- The key, the unit and the values that the line of a declaration gives. -/
theorem sound_ofLine (first : ∀ c ∈ line.head?, c ≠ Role.commentMark ∧ Text.isSpace c = false)
    (h : ofLine units realWithUnit line = .ok d) :
    d.key.IsKey ∧ UnitClause.Known units d.unit ∧ d.values.Sublist line := by
  unfold ofLine at h
  split at h
  · cases h
  next head values cut =>
    obtain ⟨rfl, noMark⟩ := Text.cutAt_eq_some_iff.mp cut
    obtain ⟨⟨raw, onward, rest, scanned⟩, known, values_eq⟩ := ofHead_eq h
    have bare : (Text.dropMark appendMark head).getD head <+: head := by
      cases mark : Text.dropMark appendMark head with
      | none => exact List.prefix_rfl
      | some r => exact ⟨_, (Text.dropMark_eq_some_iff.mp mark).symm⟩
    have lead := (Text.isPrefix_trimEnd _).trans bare
    have first (t : Text) (lead : t <+: head) :
        ∀ c ∈ t.head?, c ≠ Role.commentMark ∧ Text.isSpace c = false := fun c hc => by
      obtain ⟨more, rfl⟩ := lead
      refine first c ?_
      rw [List.append_assoc, List.head?_append, hc]
      rfl
    have shown : ∀ c ∈ (Text.trimEnd ((Text.dropMark appendMark head).getD head)).head?,
        isGap c = false := fun c hc => by
      by_contra gap
      have space := Text.isSpace_of_isGap (Bool.eq_true_of_not_eq_false gap)
      simp [(first _ lead c hc).2] at space
    obtain ⟨isWord, here⟩ := isWord_of_scan shown scanned
    have lead := here.trans lead
    refine ⟨⟨isWord.1, fun c hc => ⟨isWord.2 c hc, ?_⟩, first _ lead⟩, known, ?_⟩
    · rintro rfl
      exact noMark (lead.subset hc)
    · rw [values_eq]
      exact ((Text.isInfix_trim values).sublist.trans (List.sublist_cons_self _ _)).trans
        (List.sublist_append_right _ _)

end Declaration
end TypedProperties
