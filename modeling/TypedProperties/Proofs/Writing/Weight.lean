import TypedProperties.Proofs.Declaration.Sound
import TypedProperties.Proofs.Writing.Store

/-! What a written store can bring back at most. Each line adds at most one entry, with at most the
brackets of its values. Where a line is read as more than it says, less comes back. -/
namespace TypedProperties

/-- One for the entry, and one for each opening bracket in its strings. -/
def Datum.weight (d : Datum) : Nat := d.data.strings.flatten.count '(' + 1

def Store.weightOf (entries : List (Text × Datum)) : Nat := (entries.map fun e => e.2.weight).sum

/-- Variants are looked for, and nothing may be overridden. -/
structure Progress.Steady (p : Progress) : Prop where
  variants : p.context.variantsEnabled = true
  override : p.context.allowKeyOverride = false

/-- The store, the variants and overriding are left alone. -/
structure Progress.Quiet (p q : Progress) : Prop where
  store : q.store = p.store
  variants : q.context.variantsEnabled = p.context.variantsEnabled
  override : q.context.allowKeyOverride = p.context.allowKeyOverride

/-- Lines lead on, and add at most so much to the weight of the store. -/
structure Progress.Grows (n : Nat) (p q : Progress) : Prop where
  steady : q.Steady
  description : q.store.description = p.store.description
  weight : Store.weightOf q.store.entries ≤ Store.weightOf p.store.entries + n

theorem Progress.Grows.trans {m n : Nat} {p q s : Progress} (first : Grows m p q) (second : Grows n q s) :
    Grows (m + n) p s where
  steady := second.steady
  description := second.description.trans first.description
  weight := by
    have := first.weight
    have := second.weight
    omega

theorem Progress.Grows.mono {m n : Nat} {p q : Progress} (h : Grows m p q) (le : m ≤ n) : Grows n p q :=
  ⟨h.steady, h.description, h.weight.trans (by omega)⟩

namespace Reader

open Progress Declaration

variable {nested : Reader → Text → Outcome} {world : World} {r : Reader}

/-- A line that adds at most so much, wherever it is read. -/
def Charges (nested : Reader → Text → Outcome) (world : World) (r : Reader) (line : Text) (n : Nat) : Prop :=
  ∀ (p q : Progress) (stop : Bool), p.Steady → r.step nested world p (bareLine line) = .ok (q, stop) →
    Grows n p q

/-- Lines that together add at most so much. -/
inductive Costs (nested : Reader → Text → Outcome) (world : World) (r : Reader) : List Text → Nat → Prop
  | nil : Costs nested world r [] 0
  | cons {line : Text} {lines : List Text} {m n : Nat} (here : Charges nested world r line m)
      (rest : Costs nested world r lines n) : Costs nested world r (line :: lines) (m + n)

theorem Costs.append {lines lines' : List Text} {m n : Nat} (h : Costs nested world r lines m)
    (h' : Costs nested world r lines' n) : Costs nested world r (lines ++ lines') (m + n) := by
  induction h with
  | nil => simpa using h'
  | cons here _ ih =>
    rw [Nat.add_assoc]
    exact .cons here ih

theorem Costs.single {line : Text} {n : Nat} (h : Charges nested world r line n) :
    Costs nested world r [line] n := .cons h .nil

/-- A read adds at most what its lines cost, also if it stops before the last of them. -/
theorem grows_of_steps {broken : Bool} {lines : List Text} {n : Nat} {p q : Progress}
    (costs : Costs nested world r lines n) (steady : p.Steady)
    (done : r.steps nested world broken p (lines.map bareLine) = .ok q) : Grows n p q := by
  induction costs generalizing p with
  | nil =>
    rw [List.map_nil, steps] at done
    split_ifs at done
    obtain rfl := Except.ok.inj done
    exact ⟨steady, rfl, Nat.le_refl _⟩
  | cons here _ ih =>
    rw [List.map_cons, steps] at done
    split at done
    next => cases done
    next stepped =>
      obtain rfl := Except.ok.inj done
      exact (here _ _ _ steady stepped).mono (Nat.le_add_right _ _)
    next stepped =>
      have first := here _ _ _ steady stepped
      exact first.trans (ih first.steady done)

theorem charges_directive {t : Text} {directive : Directive}
    (understood : Directive.ofText (Role.directiveMark :: t) = .ok directive)
    (noFile : ∀ path optional, directive ≠ .includeFile path optional)
    (quiet : ∀ p, Quiet p (Directive.apply world p directive).1) :
    Charges nested world r (Role.commentMark :: Role.directiveMark :: t) 0 := by
  intro p q stop steady done
  have read : Directive.ofText (Text.trimEnd (Role.directiveMark :: t)) = .ok directive := by
    rw [Directive.ofText_trimEnd, understood]
  have role' := Role.ofText_directive t
  rcases step_cases done with ⟨role, -⟩ | ⟨text, role, applied⟩ | ⟨text, role, -⟩
  · simp [bareLine, role'] at role
  · obtain rfl : Text.trimEnd (Role.directiveMark :: t) = text :=
      Role.directive.inj (role'.symm.trans role)
    rcases applied with applied | ⟨p₁, path, applied, -⟩
    · have same := quiet (p.atLine (bareLine (Role.commentMark :: Role.directiveMark :: t)))
      simp only [Directive.applyText, read] at applied
      rw [applied] at same
      refine ⟨⟨same.variants.trans steady.variants, same.override.trans steady.override⟩, ?_, ?_⟩
      · rw [same.store]
        rfl
      · rw [same.store]
        rfl
    · obtain ⟨name, optional, asked, -⟩ := Directive.applyText_eq_includeFile applied
      exact absurd (Except.ok.inj (read.symm.trans asked)) (noFile name optional)
  · simp [bareLine, role'] at role

theorem charges_unit {t : Text} {on : Bool}
    (understood : Directive.ofText (Role.directiveMark :: t) = .ok (.realWithUnit on)) :
    Charges nested world r (Role.commentMark :: Role.directiveMark :: t) 0 :=
  charges_directive understood nofun fun _ => ⟨rfl, rfl, rfl⟩

theorem charges_description (text : Text) :
    Charges nested world r (Text.ofString "#@description " ++ text) 0 := by
  have understood := Directive.ofText_name (Text.ofString "@description") (by decide) (by decide) text
  have line : Charges nested world r
      (Role.commentMark :: Role.directiveMark :: (Text.ofString "description " ++ text)) 0 := by
    refine charges_directive understood nofun fun p => ?_
    change Quiet p (Directive.applyDescription p (Text.trim text)).1
    dsimp only [Directive.applyDescription]
    split_ifs <;> exact ⟨rfl, rfl, rfl⟩
  exact line

/-- What a declaration adds at most: a reference loses at least its bracket. -/
def charge (values : Text) : Nat :=
  values.count '(' + if Template.openTag <:+: values then 0 else 1

theorem count_segmentOf {c : Context} {d : Declaration} {segment : Text} (inactive : r.variants = .empty)
    (on : c.variantsEnabled = true) (h : r.segmentOf c d = .ok segment) :
    segment.count '(' + 1 ≤ charge d.values := by
  unfold segmentOf at h
  rw [if_pos on] at h
  split at h
  next replaced =>
    obtain rfl := Except.ok.inj h
    rw [inactive] at replaced
    obtain ⟨kept, fewer⟩ := Repository.preprocess_empty replaced
    unfold charge
    split_ifs with reference
    · exact fewer reference
    · have := kept.count_le '('
      omega
  next => cases h

theorem weightOf_insert_of_fresh {s : Store} {key : Text} (fresh : s.get? key = none) (datum : Datum) :
    Store.weightOf (s.insert key datum).entries = Store.weightOf s.entries + datum.weight := by
  simp [Store.entries_insert_of_fresh fresh, Store.weightOf]

theorem grows_exhibit {d : Declaration} {p q : Progress} (inactive : r.variants = .empty)
    (steady : p.Steady) (known : UnitClause.Known r.units d.unit) (done : r.exhibit p d = (q, none)) :
    Grows (charge d.values) p q := by
  obtain ⟨segment, readout, store, replaced, hs, hv, put, stored, context, -⟩ := exhibit_cases done
  have inside := (Readout.fits_of_ofSegment known hv).2.count_le '('
  have segment := count_segmentOf inactive steady.variants hs
  rcases Store.put_cases put with ⟨fresh, -, rfl, -⟩ | ⟨old, -, -, allowed, -⟩
  · refine ⟨?_, by rw [stored]; rfl, ?_⟩
    · exact ⟨by rw [context]; exact steady.variants, by rw [context]; exact steady.override⟩
    · rw [stored, weightOf_insert_of_fresh fresh, Datum.weight]
      simp only [datumOf]
      omega
  · simp [steady.override] at allowed

variable {s : Shape} {units : UnitSystem} {realWithUnit : Bool} {key row : Text}

theorem charges_line (inactive : r.variants = .empty) (isKey : key.IsKey)
    (valid : s.Valid units realWithUnit) (single : s.datum.data.SingleLine)
    (isRow : ValueToken.Row s.texts row) :
    Charges nested world r (s.line key row) (charge (Text.trim row)) := by
  intro p q stop steady done
  have role' := (Shape.isLine_line isKey valid single isRow).2
  have first := (Role.ofText_eq_declaration role').2
  have cut := cutAt_written valid (fun mem => (isKey.word _ mem).2 rfl) row
  rcases step_cases done with ⟨role, -⟩ | ⟨text, role, -⟩ | ⟨text, role, declared, -⟩
  · simp [bareLine, role'] at role
  · simp [bareLine, role'] at role
  · obtain rfl : s.line key row = text := Role.declaration.inj (role'.symm.trans role)
    obtain ⟨d, head, ⟨-, rfl⟩ | ⟨-, exhibited⟩⟩ := declare_cases declared
    · exact ⟨⟨steady.variants, steady.override⟩, rfl, Nat.le_add_right _ _⟩
    · have known := (sound_ofLine first head).2.1
      have spent : ((p.atLine (bareLine (s.line key row))).setContext
          (p.atLine (bareLine (s.line key row))).context.spend).Steady := ⟨steady.variants, steady.override⟩
      have grows := grows_exhibit inactive spent known exhibited
      rw [values_of_ofLine cut head] at grows
      exact ⟨grows.steady, grows.description, grows.weight⟩

/-- A row with a reference to a variant parameter adds less than its datum weighs. -/
theorem charge_row (valid : s.Valid units realWithUnit) (isRow : ValueToken.Row s.texts row) :
    charge (Text.trim row) ≤ s.datum.weight ∧
      (¬ s.datum.data.Unreferenced → charge (Text.trim row) < s.datum.weight) := by
  have brackets := (Text.isInfix_trim row).sublist.count_le '('
  rw [Shape.count_row valid isRow] at brackets
  unfold charge Datum.weight
  rw [← Shape.openTag_infix_iff valid isRow]
  split_ifs with reference
  · exact ⟨by omega, fun _ => by omega⟩
  · exact ⟨by omega, fun h => absurd h reference⟩

theorem costs_toggle {line : Text} (h : Charges nested world r line 0) :
    Costs nested world r (s.toggleLines line) 0 := by
  unfold Shape.toggleLines
  split_ifs
  · exact .single h
  · exact .nil

theorem costs_descriptionLines (nested : Reader → Text → Outcome) (world : World) (r : Reader) (d : Datum) : Costs nested world r (Shape.descriptionLines d) 0 := by
  unfold Shape.descriptionLines
  split_ifs
  · exact .nil
  · exact .single (charges_description _)

theorem costs_within_toggles {middle : List Text} {n : Nat} (h : Costs nested world r middle n) :
    Costs nested world r (s.toggleLines Shape.enableLine ++ (middle ++ s.toggleLines Shape.disableLine)) n := by
  have enable : Charges nested world r Shape.enableLine 0 :=
    charges_unit (t := Text.ofString "enable_real_with_unit")
      (by decide +kernel : _ = Except.ok (Directive.realWithUnit true))
  have disable : Charges nested world r Shape.disableLine 0 :=
    charges_unit (t := Text.ofString "disable_real_with_unit")
      (by decide +kernel : _ = Except.ok (Directive.realWithUnit false))
  have whole := (costs_toggle (s := s) enable).append (h.append (costs_toggle (s := s) disable))
  rwa [Nat.add_zero, Nat.zero_add] at whole

end Reader

namespace Store

variable {nested : Reader → Text → Outcome} {world : World}

/-- Whole lines that bring back at most what the entries weigh, and less where an entry cannot be
restored. -/
structure Weighs (nested : Reader → Text → Outcome) (world : World) (t : Text) (lines : List Text) (n : Nat)
    (entries : List (Text × Datum)) : Prop where
  text : Lines.Says t lines
  costs : Reader.Costs nested world .standard lines n
  le : n ≤ weightOf entries
  lt : ∀ e ∈ entries, ¬ e.2.Restorable → n < weightOf entries

theorem Weighs.append {t t' : Text} {lines lines' : List Text} {m n : Nat}
    {entries entries' : List (Text × Datum)} (h : Weighs nested world t lines m entries)
    (h' : Weighs nested world t' lines' n entries') :
    Weighs nested world (t ++ t') (lines ++ lines') (m + n) (entries ++ entries') := by
  have sum : weightOf (entries ++ entries') = weightOf entries + weightOf entries' := by simp [weightOf]
  have le := h.le
  have le' := h'.le
  refine ⟨h.text.append h'.text, h.costs.append h'.costs, by omega, fun e he lost => ?_⟩
  rcases List.mem_append.mp he with here | behind
  · have := h.lt e here lost
    omega
  · have := h'.lt e behind lost
    omega

theorem weighs_datum (nested : Reader → Text → Outcome) (world : World) {d : Datum} {key : Text}
    (isKey : key.IsKey) (sound : d.Sound StandardUnits.system) (size : d.data.size < Nat.pow 2 63) :
    ∃ t lines n, d.write StandardUnits.system .standard key = .ok t ∧
      Weighs nested world (t ++ ['\n']) lines n [(key, d)] := by
  obtain ⟨s, rfl, valid, -, written⟩ := Datum.exists_shape (o := .standard) sound size nofun key
  have weight : weightOf [(key, s.datum)] = s.datum.weight := by simp [weightOf]
  by_cases marked : s.datum.description.getLast? = some Lines.continuation
  · obtain ⟨description, ends⟩ := List.getLast?_eq_some_iff.mp marked
    have oneLine : '\n' ∉ description := fun mem => sound.description.single (by simp [ends, mem])
    obtain ⟨row, isRow, text⟩ :=
      Declaration.Shape.says_text_of_marked isKey valid sound.strings oneLine ends true
    refine ⟨_, _, 0, written, text, Reader.costs_within_toggles (.single ?_), Nat.zero_le _, fun _ _ _ => ?_⟩
    · rw [List.append_assoc]
      exact Reader.charges_description _
    · rw [weight]
      exact Nat.succ_pos _
  · obtain ⟨row, isRow, text⟩ :=
      Declaration.Shape.says_text isKey valid sound.strings ⟨sound.description, marked⟩ true
    obtain ⟨le, lt⟩ := Reader.charge_row valid isRow
    refine ⟨_, _, Reader.charge (Text.trim row), written, text, Reader.costs_within_toggles ?_, ?_,
      fun e he lost => ?_⟩
    · have declared := (Reader.costs_descriptionLines nested world .standard s.datum).append (.single (Reader.charges_line rfl isKey valid sound.strings isRow))
      rwa [Nat.zero_add] at declared
    · rw [weight]
      exact le
    · obtain rfl := List.mem_singleton.mp he
      rw [weight]
      exact lt fun bare => lost ⟨marked, bare⟩

theorem weighs_entries (nested : Reader → Text → Outcome) (world : World) {entries : List (Text × Datum)}
    (keys : ∀ e ∈ entries, e.1.IsKey) (data : ∀ e ∈ entries, e.2.Sound StandardUnits.system)
    (size : ∀ e ∈ entries, e.2.data.size < Nat.pow 2 63) :
    ∃ t lines n, writeEntries StandardUnits.system .standard entries = .ok t ∧
      Weighs nested world t lines n entries := by
  induction entries with
  | nil => exact ⟨[], [], 0, rfl, Lines.says_nil, .nil, Nat.le_refl _, nofun⟩
  | cons e entries ih =>
    obtain ⟨key, d⟩ := e
    obtain ⟨isKey, keys⟩ := List.forall_mem_cons.mp keys
    obtain ⟨sound, data⟩ := List.forall_mem_cons.mp data
    obtain ⟨small, size⟩ := List.forall_mem_cons.mp size
    obtain ⟨t, lines, m, written, weighs⟩ := weighs_datum nested world isKey sound small
    obtain ⟨t', lines', n, written', weighs'⟩ := ih keys data size
    refine ⟨t ++ ['\n'] ++ t', lines ++ lines', m + n, ?_, weighs.append weighs'⟩
    have shown : ¬ ((WriteOptions.standard.skipPrivate = true) ∧ isPrivate key = true) := fun h =>
      Bool.false_ne_true h.1
    rw [writeEntries, if_neg shown, written, written']
    simp

theorem weightOf_rewritten (units : UnitSystem) (entries : List (Text × Datum)) :
    weightOf (rewritten units .standard entries) = weightOf entries := by
  have same (d : Datum) : (d.rewritten units []).weight = d.weight := by
    unfold Datum.rewritten
    split
    next data => simp [Datum.weight, Data.strings, data]
    · rfl
  have all : rewritten units .standard entries = entries.map fun e => (e.1, e.2.rewritten units []) := by
    simp [rewritten, WriteOptions.standard]
  rw [all, weightOf, weightOf, List.map_map]
  congr 1
  exact List.map_congr_left fun e _ => same e.2

end Store
end TypedProperties
