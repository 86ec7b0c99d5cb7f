import TypedProperties.Proofs.Reading.Bracketed

/-! What waits for the next declaration: which lines a guard and a description at a declaration come
from, and what they do to it. -/
namespace TypedProperties

variable {ρ σ : Type} [Variants ρ] [Searches σ]

open Blocks (Open)

namespace Blocks

def answer (variants : ρ) (blame : VariantFault → BlockFault) (rule : Text) :
    Except BlockFault Bool :=
  match Variants.resolve variants rule with
  | .ok activation => .ok activation.exhibits
  | .error fault => .error (blame fault)

/-- The first answer that does not exhibit, of the rules of the open blocks and then of the guard. -/
def refusal (variants : ρ) (rules : List Text) (guard : Option Text) :
    Option (Except BlockFault Bool) :=
  (rules.map (fun rule => answer variants (.blockRule rule) rule) ++
    guard.toList.map (fun rule => answer variants (.guardRule rule) rule)).find? (· ≠ .ok true)

theorem allExhibit_eq (variants : ρ) (rules : List Text) :
    allExhibit variants rules = ((rules.map fun rule => answer variants (.blockRule rule) rule).find?
      (· ≠ .ok true)).getD (.ok true) := by
  induction rules with
  | nil => rfl
  | cons rule rest ih =>
    rw [allExhibit, List.map_cons, List.find?_cons, answer]
    cases Variants.resolve variants rule with
    | error fault => rfl
    | ok activation => cases h : activation.exhibits <;> simp [h, ih]

theorem guardExhibits_eq (variants : ρ) (guard : Option Text) :
    guardExhibits variants guard = ((guard.toList.map fun rule => answer variants (.guardRule rule) rule).find?
      (· ≠ .ok true)).getD (.ok true) := by
  cases guard with
  | none => rfl
  | some rule =>
    rw [guardExhibits, Option.toList_some, List.map_singleton, answer]
    cases Variants.resolve variants rule with
    | error fault => rfl
    | ok activation => cases h : activation.exhibits <;> simp [h]

theorem exhibits_eq (variants : ρ) (b : Blocks) :
    b.exhibits variants = (refusal variants b.rules.reverse b.guard).getD (.ok true) := by
  rw [exhibits, allExhibit_eq, guardExhibits_eq, refusal, List.find?_append]
  cases h : (b.rules.reverse.map fun rule => answer variants (.blockRule rule) rule).find? (· ≠ .ok true) with
  | none => rfl
  | some a =>
    have refuses : a ≠ .ok true := by simpa using List.find?_some h
    cases a with
    | error fault => rfl
    | ok shown => cases shown <;> simp_all

theorem refusal_ne {variants : ρ} {rules : List Text} {guard : Option Text} :
    refusal variants rules guard ≠ some (.ok true) := fun h => by
  simpa using List.find?_some h

theorem exhibits_eq_true {variants : ρ} {b : Blocks} :
    b.exhibits variants = .ok true ↔ refusal variants b.rules.reverse b.guard = none := by
  rw [exhibits_eq]
  cases h : refusal variants b.rules.reverse b.guard with
  | none => simp
  | some a =>
    have refuses : some a ≠ some (.ok true) := h ▸ refusal_ne
    simp_all

end Blocks

/-! What the lines since some declaration set. -/
namespace Line

def guard? (line : Line) : Option Text := line.directive?.bind Directive.guard?

def described? (line : Line) : Option Text := line.directive?.bind Directive.described?

/-- The lines since the last declaration that counts, given what stands in front of it; all lines, if
none counts. -/
inductive Since (counts : List Line → Prop) : List Line → List Line → Prop
  | start : Since counts [] []
  | spent {before : List Line} {line : Line} (declaration : line.isDeclaration = true)
      (counted : counts before) : Since counts (before ++ [line]) []
  | next {before recent : List Line} {line : Line} (since : Since counts before recent)
      (uncounted : line.isDeclaration = true → ¬ counts before) :
      Since counts (before ++ [line]) (recent ++ [line])

variable {counts : List Line → Prop} {before recent recent' : List Line}

theorem Since.unique (h : Since counts before recent) (h' : Since counts before recent') :
    recent = recent' := by
  induction h generalizing recent' with
  | start =>
    generalize e : ([] : List Line) = before at h'
    cases h' with
    | start => rfl
    | spent => simp at e
    | next => simp at e
  | @spent before line declaration counted =>
    generalize e : before ++ [line] = whole at h'
    cases h' with
    | start => simp at e
    | spent => rfl
    | next _ uncounted =>
      obtain ⟨rfl, same⟩ := List.append_inj' e rfl
      obtain rfl := List.singleton_inj.mp same
      exact absurd counted (uncounted declaration)
  | @next before recent line _ uncounted ih =>
    generalize e : before ++ [line] = whole at h'
    cases h' with
    | start => simp at e
    | spent declaration counted =>
      obtain ⟨rfl, same⟩ := List.append_inj' e rfl
      obtain rfl := List.singleton_inj.mp same
      exact absurd counted (uncounted declaration)
    | next since =>
      obtain ⟨rfl, same⟩ := List.append_inj' e rfl
      rw [ih since, same]

/-- The last value that lines give since the last declaration that counts. -/
def LastSince (value : Line → Option Text) (counts : List Line → Prop) (before : List Line)
    (last : Option Text) : Prop :=
  ∃ recent, Since counts before recent ∧ last = (recent.filterMap value).getLast?

namespace LastSince

variable {value : Line → Option Text} {line : Line} {last last' : Option Text}

theorem start : LastSince value counts [] none := ⟨[], .start, rfl⟩

theorem spent (declaration : line.isDeclaration = true) (counted : counts before) :
    LastSince value counts (before ++ [line]) none :=
  ⟨[], .spent declaration counted, rfl⟩

theorem next (h : LastSince value counts before last)
    (uncounted : line.isDeclaration = true → ¬ counts before) :
    LastSince value counts (before ++ [line]) ((value line).or last) := by
  obtain ⟨recent, since, rfl⟩ := h
  refine ⟨recent ++ [line], .next since uncounted, ?_⟩
  cases h : value line <;> simp [h]

theorem unique (h : LastSince value counts before last) (h' : LastSince value counts before last') :
    last = last' := by
  obtain ⟨recent, since, rfl⟩ := h
  obtain ⟨recent', since', rfl⟩ := h'
  rw [since.unique since']

end LastSince

/-- The guard that waits behind some lines: the last since any declaration. -/
def Guarded (before : List Line) (guard : Option Text) : Prop :=
  LastSince guard? (fun _ => True) before guard

/-- A declaration behind some lines is exhibited: neither the blocks that are open there nor the guard
that waits refuse it. -/
def Shown (variants : ρ) (before : List Line) : Prop :=
  ∃ rules guard, Open rules (marks before) ∧ Guarded before guard ∧
    Blocks.refusal variants rules guard = none

/-- The description that waits behind some lines: the last since an exhibited declaration. -/
def Described (variants : ρ) (before : List Line) (description : Option Text) : Prop :=
  LastSince described? (Shown variants) before description

end Line

namespace Reader

variable {nested : Reader ρ σ → Text → Outcome} {world : World} {r : Reader ρ σ} {p q : Progress σ}
  {before : List Line} {line : Line}

/-- What the context tells about the lines so far. -/
structure Recalls (variants : ρ) (before : List Line) (p : Progress σ) : Prop where
  blocks : Open p.context.blocks.rules.reverse (Line.marks before)
  guard : Line.Guarded before p.context.blocks.guard
  description : Line.Described variants before p.context.description

/-- Whether a declaration is exhibited depends on the lines in front of it, and on nothing else. -/
theorem Recalls.shown_iff (h : Recalls r.variants before p) :
    p.context.blocks.exhibits r.variants = .ok true ↔ Line.Shown r.variants before := by
  rw [Blocks.exhibits_eq_true]
  constructor
  · exact fun shown => ⟨_, _, h.blocks, h.guard, shown⟩
  · rintro ⟨rules, guard, blocks, guarded, shown⟩
    rwa [h.blocks.unique blocks, h.guard.unique guarded]

theorem Recalls.keep {variants : ρ} (h : Recalls variants before p)
    (idle : line.isDeclaration = false)
    (blocks : Open q.context.blocks.rules.reverse (Line.marks (before ++ [line])))
    (guard : q.context.blocks.guard = line.guard?.or p.context.blocks.guard)
    (description : q.context.description = line.described?.or p.context.description) :
    Recalls variants (before ++ [line]) q where
  blocks := blocks
  guard := by
    rw [guard]
    exact h.guard.next (by simp [idle])
  description := by
    rw [description]
    exact h.description.next (by simp [idle])

theorem Recalls.declare {text : Text} (h : Recalls r.variants before p)
    (role : Role.ofText line.text = .declaration text)
    (blocks : Open q.context.blocks.rules.reverse (Line.marks (before ++ [line])))
    (declared : r.declare (p.atLine line) text = (q, none)) : Recalls r.variants (before ++ [line]) q := by
  have declaration := Line.isDeclaration_of_declaration role
  have none : line.described? = none := by simp [Line.described?, Line.directive?_of_declaration role]
  refine ⟨blocks, ?_, ?_⟩
  · have spent : q.context.blocks.guard = .none := by
      rcases context_of_declare declared with ⟨-, same⟩ | ⟨-, same⟩ <;> rw [same] <;> rfl
    rw [spent]
    exact .spent declaration trivial
  · rcases context_of_declare declared with ⟨passed, same⟩ | ⟨exhibited, same⟩
    · have hidden : ¬ Line.Shown r.variants before := fun shown => by
        have exhibited := h.shown_iff.mpr shown
        rw [← Progress.blocks_atLine p line, passed] at exhibited
        cases exhibited
      have kept := h.description.next (fun _ : line.isDeclaration = true => hidden)
      rw [none, Option.none_or] at kept
      rw [same]
      exact kept
    · rw [same]
      exact .spent declaration (h.shown_iff.mp exhibited)

theorem Recalls.step (h : Recalls r.variants before p) (done : r.step nested world p line = .ok (q, false)) :
    Recalls r.variants (before ++ [line]) q := by
  have blocks := step_open h.blocks done
  rw [← Line.marks_concat] at blocks
  refine step_invariant (P := fun q => Open q.context.blocks.rules.reverse (Line.marks (before ++ [line])) →
      Recalls r.variants (before ++ [line]) q)
    (fun role blocks => ?comment) (fun role applied blocks => ?directive) (fun behind taken blocks => ?included)
    (fun role declared blocks => ?declaration) done blocks
  case comment =>
    refine h.keep (Line.isDeclaration_of_comment role) blocks ?_ ?_
    · simp [Line.guard?, Line.directive?_of_comment role]
    · simp [Line.described?, Line.directive?_of_comment role]
  case directive =>
    obtain ⟨directive, read, does⟩ := Directive.applyText_eq_ok.mp applied
    refine h.keep (Line.isDeclaration_of_directive role) blocks ?_ ?_
    · simp [does.guard, Line.guard?, Line.directive?_of_directive role read]
    · simp [does.description_context, Line.described?, Line.directive?_of_directive role read]
  case included =>
    obtain ⟨-, -, -, -, same, -⟩ := includeFile_cases taken
    rw [same] at blocks
    obtain ⟨blocks, guard, description⟩ := behind blocks
    exact ⟨same ▸ blocks, same ▸ guard, same ▸ description⟩
  case declaration => exact h.declare role blocks declared

theorem recalls_of_passes {file : Option Text} {destination : Store}
    (passed : r.Passes nested world (r.begin file destination) before p) : Recalls r.variants before p := by
  have start : Recalls r.variants [] (r.begin file destination) := ⟨.none .none, .start, .start⟩
  exact Passes.history start (fun _ h done => h.step done) passed

theorem step_of_head {text : Text} {d : Declaration} (role : Role.ofText line.text = .declaration text)
    (head : Declaration.ofLine r.units p.context.realWithUnit text = .ok d) :
    let spent := (p.atLine line).setContext (p.atLine line).context.spend
    r.step nested world p line =
      match Blocks.refusal r.variants p.context.blocks.rules.reverse p.context.blocks.guard with
      | some (.error fault) => .error (failAt spent (.block fault))
      | some (.ok _) => .ok (spent, false)
      | none => settle (r.exhibit spent d) := by
  intro spent
  have head' : Declaration.ofLine r.units (p.atLine line).context.realWithUnit text = .ok d := head
  have asked : ((p.atLine line).setContext (p.atLine line).context.start).context.blocks.exhibits r.variants =
      (Blocks.refusal r.variants p.context.blocks.rules.reverse p.context.blocks.guard).getD (.ok true) :=
    Blocks.exhibits_eq r.variants p.context.blocks
  simp only [step_eq, role, declare_eq, head', declareHead_eq, asked]
  cases refused : Blocks.refusal r.variants p.context.blocks.rules.reverse p.context.blocks.guard with
  | none => rfl
  | some a =>
    cases a with
    | error fault => rfl
    | ok shown =>
      cases shown with
      | false => rfl
      | true => exact absurd refused Blocks.refusal_ne

theorem description_of_exhibit {d : Declaration} {stop : Bool} (done : settle (r.exhibit p d) = .ok (q, stop)) :
    q.context = p.context.undescribed ∧ (d.mode = .declare →
      ∃ datum, q.store.get? d.key = some datum ∧ datum.description = p.context.description.getD []) := by
  cases shown : r.exhibit p d with
  | mk p₁ fault =>
    rw [shown] at done
    cases fault with
    | some fault => cases done
    | none =>
      obtain ⟨rfl, -⟩ := Prod.mk.inj (Except.ok.inj done)
      obtain ⟨segment, readout, store, replaced, -, -, put, rfl, context, -⟩ := exhibit_cases shown
      refine ⟨context, fun whole => ⟨datumOf d readout.data p.context.description, ?_, rfl⟩⟩
      rw [whole] at put
      exact Store.get?_of_put_declare put

theorem settle_exhibit_ne {d : Declaration} {failure : Failure} {location : Location} {fault : BlockFault}
    (failed : settle (r.exhibit p d) = .error failure) : failure.error ≠ .inLine location (.block fault) := by
  cases shown : r.exhibit p d with
  | mk p₁ why =>
    rw [shown] at failed
    cases why with
    | none => cases failed
    | some why =>
      obtain rfl := Except.error.inj failed
      rcases exhibit_error shown with ⟨f, rfl⟩ | ⟨f, rfl⟩ | ⟨f, rfl⟩ <;> simp [failAt]

/-- The blocks and the guard decide a declaration, and a description reaches it, in one shot each. At a
declaration that a read gets to, the stack holds the open blocks, the guard is the last one since the
declaration before, and the description the last one since the declaration before that was exhibited.
The declaration is exhibited if none of the open rules and then the guard refuses; the read fails with
a rule that cannot be resolved if that is the first to refuse. It leaves the store and the description
as they are if it is not exhibited, and takes the description if it is. The guard is spent on it. -/
theorem guard_and_description_reach_their_declaration (nested : Reader ρ σ → Text → Outcome) (world : World)
    (r : Reader ρ σ) (file : Option Text) (destination : Store) (bytes : Bytes) {before after : List Line}
    {line : Line} {p : Progress σ} {text : Text} {d : Declaration}
    (lines : (Lines.ofBytes bytes).complete = before ++ line :: after)
    (reached : r.Passes nested world (r.begin file destination) before p)
    (role : Role.ofText line.text = .declaration text)
    (head : Declaration.ofLine r.units p.context.realWithUnit text = .ok d) :
    let refusal := Blocks.refusal r.variants p.context.blocks.rules.reverse p.context.blocks.guard
    let location := { p.context.location with line := line.last }
    let spent := (p.atLine line).setContext (p.atLine line).context.spend
    (Open p.context.blocks.rules.reverse (Line.marks before) ∧
      Line.Guarded before p.context.blocks.guard ∧
      Line.Described r.variants before p.context.description) ∧
    (p.context.blocks.exhibits r.variants = .ok true ↔ refusal = none) ∧
    (∀ fault, (∃ failure, r.step nested world p line = .error failure ∧
      failure.error = .inLine location (.block fault)) ↔ refusal = some (.error fault)) ∧
    (∀ fault, refusal = some (.error fault) → fault.kind = .unresolved ∧
      (r.run nested world file destination bytes).result = .error (.inLine location (.block fault))) ∧
    (∀ shown, refusal = some (.ok shown) → ∃ q, r.step nested world p line = .ok (q, false) ∧
      q.store = p.store ∧ q.context.description = p.context.description ∧
      q.context.blocks.guard = none) ∧
    (refusal = none → r.step nested world p line = settle (r.exhibit spent d) ∧
      ∀ q stop, r.step nested world p line = .ok (q, stop) →
        q.context.description = none ∧ q.context.blocks.guard = none ∧
        (d.mode = .declare → ∃ datum, q.store.get? d.key = some datum ∧
          datum.description = p.context.description.getD [])) := by
  intro refusal location spent
  have recalls := recalls_of_passes reached
  have step : r.step nested world p line =
      match refusal with
      | some (.error fault) => .error (failAt spent (.block fault))
      | some (.ok _) => .ok (spent, false)
      | none => settle (r.exhibit spent d) := step_of_head role head
  have asked : p.context.blocks.exhibits r.variants = refusal.getD (.ok true) := Blocks.exhibits_eq _ _
  have refused_of_fault (fault : BlockFault) (refused : refusal = some (.error fault)) :
      r.step nested world p line = .error (failAt spent (.block fault)) := by rw [step, refused]
  refine ⟨⟨recalls.blocks, recalls.guard, recalls.description⟩, Blocks.exhibits_eq_true,
    fun fault => ⟨?_, fun refused => ⟨_, refused_of_fault fault refused, rfl⟩⟩,
    fun fault refused => ⟨?_, run_error_of_passes lines reached (refused_of_fault fault refused)⟩,
    fun shown refused => ?_, fun exhibited => ?_⟩
  · rintro ⟨failure, failed, why⟩
    rw [step] at failed
    cases refused : refusal with
    | none =>
      rw [refused] at failed
      exact absurd why (settle_exhibit_ne failed)
    | some a =>
      rw [refused] at failed
      cases a with
      | ok shown => cases failed
      | error other =>
        obtain rfl := Except.error.inj failed
        rw [Fault.block.inj (ReadError.inLine.inj why).2]
  · have failed : p.context.blocks.exhibits r.variants = .error fault := by
      rw [asked, refused]
      rfl
    rcases Blocks.exhibits_error failed with ⟨rule, f, rfl⟩ | ⟨rule, f, rfl⟩ <;> rfl
  · exact ⟨spent, by rw [step, refused], rfl, rfl, rfl⟩
  · have shown : r.step nested world p line = settle (r.exhibit spent d) := by rw [step, exhibited]
    refine ⟨shown, fun q stop done => ?_⟩
    obtain ⟨context, stored⟩ := description_of_exhibit (shown.symm.trans done)
    exact ⟨by rw [context]; rfl, by rw [context]; rfl, stored⟩

/-- The guard hides the first declaration, and the description reaches the second. -/
theorem guard_and_description_reach_two_declarations :
    let bytes := Text.encode (Text.ofString "#@description d\n#@variant_only r:a|false\na = 1\nb = 2\n")
    let nested : Reader → Text → Outcome := fun _ _ => ⟨[], .error (.access [] .notFound)⟩
    let world := World.empty
    let start := (Reader.standard.begin none .empty).context
    let front : List Line := [⟨Text.ofString "#@description d", 1, 1⟩,
      ⟨Text.ofString "#@variant_only r:a|false", 2, 2⟩]
    let hidden : Line := ⟨Text.ofString "a = 1", 3, 3⟩
    let p : Progress := ⟨{ start with location := ⟨none, none, 3⟩, started := true, description := some ['d'] },
      .empty, []⟩
    let line : Line := ⟨Text.ofString "b = 2", 4, 4⟩
    (Lines.ofBytes bytes).complete = front ++ hidden :: [line] ∧
      Reader.standard.Passes nested world (Reader.standard.begin none .empty) (front ++ [hidden]) p ∧
      Line.Guarded (front ++ [hidden]) none ∧ Line.Described Repository.empty (front ++ [hidden]) (some ['d']) ∧
      ∃ q datum, Reader.standard.step nested world p line = .ok (q, false) ∧
        q.store.get? ['b'] = some datum ∧ datum.description = ['d'] := by
  intro bytes nested world start front hidden p line
  have lines : (Lines.ofBytes bytes).complete = (front ++ [hidden]) ++ line :: [] := by decide +kernel
  let described : Progress := ⟨{ start with
    location := ⟨none, none, 1⟩, started := true, description := some ['d'] }, .empty, []⟩
  let guarded : Progress := ⟨{ described.context with
    location := ⟨none, none, 2⟩, blocks := ⟨[], some (Text.ofString "r:a|false")⟩ }, .empty, []⟩
  have reached : Reader.standard.Passes nested world (Reader.standard.begin none .empty) (front ++ [hidden]) p :=
    Passes.next (q := described) (by decide +kernel)
      (Passes.next (q := guarded) (by decide +kernel) (.next (by decide +kernel) (.none p)))
  have role : Role.ofText line.text = .declaration (Text.ofString "b = 2") := by decide +kernel
  have head : Declaration.ofLine Reader.standard.units p.context.realWithUnit (Text.ofString "b = 2") =
      .ok ⟨['b'], .declare, false, .string, none, .none, ['2']⟩ := by decide +kernel
  obtain ⟨⟨-, guard, description⟩, -, -, -, -, shown⟩ := guard_and_description_reach_their_declaration
    nested world Reader.standard none .empty bytes lines reached role head
  obtain ⟨-, taken⟩ := shown rfl
  let q : Progress := ⟨{ p.context with location := ⟨none, none, 4⟩, description := none },
    Store.empty.insert ['b'] ⟨.string [['2']] false, .scalar, false, ['d']⟩, []⟩
  have done : Reader.standard.step nested world p line = .ok (q, false) := by decide +kernel
  obtain ⟨datum, present, text⟩ := (taken q false done).2.2 rfl
  exact ⟨lines, reached, guard, description, q, datum, done, present, text⟩

end Reader
end TypedProperties
