import TypedProperties.Proofs.Reading.Steps
import TypedProperties.Proofs.Variant.Bracket

/-! Variant blocks over a whole read: it succeeds on well-bracketed blocks only, blames blocks only where
they are not well bracketed, and knows at each line which blocks are open. -/
namespace TypedProperties

variable {ρ σ : Type} [Variants ρ] [Searches σ]

open Blocks (Mark Balanced Open)

/-- What a directive is in the bracketing of blocks. -/
def Directive.mark? : Directive → Option Mark
  | .variantIf rule => some (.opening rule)
  | .variantEndif name => some (.closing name)
  | _ => none

namespace Line

def mark? (line : Line) : Option Mark := line.directive?.bind Directive.mark?

def marks (lines : List Line) : List Mark := lines.filterMap mark?

@[simp] theorem marks_nil : marks [] = [] := rfl

@[simp] theorem marks_concat (lines : List Line) (line : Line) :
    marks (lines ++ [line]) = marks lines ++ line.mark?.toList := by
  cases h : line.mark? <;> simp [marks, h]

end Line

def Fault.isBracketing : Fault → Bool
  | .block .nothingToClose => true
  | .block (.wrongClosing _ _) => true
  | .unclosedBlock _ => true
  | _ => false

/-! Which directives fail because of a block. -/
namespace Directive

variable {world : World} {p q : Progress σ} {e : Effect} {fault : Fault}

theorem Does.open_marks {directive : Directive} {marks : List Mark} (does : Does world p directive q e)
    (h : Open p.context.blocks.rules.reverse marks) :
    Open q.context.blocks.rules.reverse (marks ++ directive.mark?.toList) := by
  cases does with
  | @variantIf rule => simpa [Blocks.enter, mark?] using h.enter rule
  | variantEndif _ _ left =>
    obtain ⟨rule, outer, rules, closes, rfl⟩ := Blocks.leave_eq_ok left
    rw [rules, List.reverse_cons] at h
    exact h.leave closes
  | _ => simpa [mark?, Blocks.setGuard, Context.start] using h

/-- What a directive that is refused leaves behind, and why it is refused. It has changed nothing, though an
include that finds no file has begun the properties. -/
inductive Refuses (p : Progress σ) : Directive → Progress σ → Fault → Prop
  | closing {name : Option Text} {f : BlockFault} (left : p.context.blocks.leave name = .error f) :
    Refuses p (.variantEndif name) p (.block f)
  | here {directive : Directive} {fault : Fault} (harmless : fault.isBracketing = false) :
    Refuses p directive p fault
  | unresolved {path : Text} {optional : Bool} {fault : Fault} (harmless : fault.isBracketing = false) :
    Refuses p (.includeFile path optional) (p.setContext p.context.start) fault

theorem isBracketing_variantFault {c : Context σ} {directive : Directive}
    (refused : variantFault c directive = some fault) : fault.isBracketing = false := by
  unfold variantFault at refused
  split at refused <;> (try split_ifs at refused) <;> cases refused <;> rfl

/-- Where a directive leads to this, it is refused in one of these ways, if it is refused. -/
def RefusesAt (p : Progress σ) (directive : Directive) (a : Applied σ) : Prop :=
  ∀ q fault, a = (q, .error fault) → Refuses p directive q fault

namespace RefusesAt

variable {directive : Directive} {name : String} {go : Applied σ}

theorem ok (q : Progress σ) (e : Effect) : RefusesAt p directive (q, .ok e) := fun _ _ same => by
  cases (Prod.mk.inj same).2

theorem here {fault : Fault} (harmless : fault.isBracketing = false) :
    RefusesAt p directive (refuse p fault) := by
  rintro _ _ ⟨⟩
  exact .here harmless

theorem beforeFirst (h : RefusesAt p directive go) : RefusesAt p directive (beforeFirst p name go) := by
  unfold Directive.beforeFirst
  split_ifs
  · exact here rfl
  · exact h

theorem inclusionEnabled (h : RefusesAt p directive go) :
    RefusesAt p directive (inclusionEnabled p name go) := by
  unfold Directive.inclusionEnabled
  split_ifs
  · exact h
  · exact here rfl

theorem applySearch {search : Except IncludeFault σ} {blame : IncludeFault → Fault}
    (harmless : ∀ f, (blame f).isBracketing = false) :
    RefusesAt p directive (applySearch p name search blame) := by
  unfold Directive.applySearch
  split_ifs
  · exact ok _ _
  · refine inclusionEnabled (beforeFirst ?_)
    cases search with
    | ok search => exact ok _ _
    | error f => exact here (harmless f)

end RefusesAt

theorem refusesAt_apply (directive : Directive) : RefusesAt p directive (apply world p directive) := by
  unfold apply
  dsimp only
  split
  next fault forbidden => exact .here (isBracketing_variantFault forbidden)
  next =>
    cases directive with
    | stop =>
      dsimp only
      split_ifs
      · exact .here rfl
      · exact .ok _ _
    | topic text =>
      refine .beforeFirst ?_
      dsimp only [applyTopic]
      split_ifs
      · exact .ok _ _
      · split
        · exact .ok _ _
        · split_ifs
          · exact .ok _ _
          · exact .here rfl
        · exact .ok _ _
    | config text =>
      refine .beforeFirst ?_
      dsimp only [applyConfig]
      split_ifs <;> exact .ok _ _
    | description text =>
      dsimp only [applyDescription]
      split_ifs
      · exact .here rfl
      · exact .ok _ _
      · exact .ok _ _
    | enableVariants =>
      dsimp only
      split_ifs
      · exact .here rfl
      · exact .ok _ _
    | variantEndif name =>
      dsimp only [applyEndif]
      split
      · exact .ok _ _
      next f left =>
        rintro _ _ ⟨⟩
        exact .closing left
    | includeFile path optional =>
      refine .inclusionEnabled ?_
      dsimp only
      split
      · exact .ok _ _
      · split_ifs
        · exact .ok _ _
        · rintro _ _ ⟨⟩
          exact .unresolved rfl
    | includeDirectory dir => exact .applySearch fun _ => rfl
    | includePathVariable name => exact .applySearch fun _ => rfl
    | includeNoPropagate => exact .beforeFirst (.ok _ _)
    | _ => exact .ok _ _

/-- A text that is refused is no directive, or a directive that is refused. -/
theorem refused_cases {text : Text} (refused : applyText world p text = (q, .error fault)) :
    (q = p ∧ fault.isBracketing = false) ∨
      ∃ directive, ofText text = .ok directive ∧ Refuses p directive q fault := by
  unfold applyText at refused
  split at refused
  next =>
    obtain ⟨rfl, unread⟩ := Prod.mk.inj refused
    obtain rfl := Except.error.inj unread
    exact .inl ⟨rfl, rfl⟩
  next directive read => exact .inr ⟨directive, read, refusesAt_apply directive q fault refused⟩

theorem applyText_bracketing {text : Text} (failed : applyText world p text = (q, .error fault))
    (blamed : fault.isBracketing = true) :
    ∃ name f, ofText text = .ok (.variantEndif name) ∧ p.context.blocks.leave name = .error f ∧
      fault = .block f ∧ q = p := by
  rcases refused_cases failed with ⟨-, harmless⟩ | ⟨directive, read, refuses⟩
  · simp [harmless] at blamed
  · cases refuses with
    | closing left => exact ⟨_, _, read, left, rfl, rfl⟩
    | here harmless => simp [harmless] at blamed
    | unresolved harmless => simp [harmless] at blamed

end Directive

namespace Blocks

variable {variants : ρ} {fault : BlockFault}

theorem allExhibit_error {rules : List Text} (failed : allExhibit variants rules = .error fault) :
    ∃ rule f, fault = .blockRule rule f := by
  induction rules with
  | nil => cases failed
  | cons rule rest ih =>
    unfold allExhibit at failed
    split at failed
    next f _ => exact ⟨rule, f, (Except.error.inj failed).symm⟩
    next =>
      split_ifs at failed
      exact ih failed

/-- Blocks and guards that do not tell have a rule that cannot be resolved. -/
theorem exhibits_error {b : Blocks} (failed : b.exhibits variants = .error fault) :
    (∃ rule f, fault = .blockRule rule f) ∨ ∃ rule f, fault = .guardRule rule f := by
  unfold exhibits at failed
  split at failed
  next f all =>
    obtain rfl := Except.error.inj failed
    exact .inl (allExhibit_error all)
  next => cases failed
  next =>
    unfold guardExhibits at failed
    split at failed
    next => cases failed
    next rule _ =>
      split at failed
      next f _ => exact .inr ⟨rule, f, (Except.error.inj failed).symm⟩
      next => cases failed

end Blocks

namespace Reader

variable {nested : Reader ρ σ → Text → Outcome} {world : World} {r : Reader ρ σ} {p q : Progress σ}
  {line : Line}

theorem declare_blameless {text : Text} {fault : Fault} (failed : r.declare p text = (q, some fault)) :
    fault.isBracketing = false := by
  rw [declare_eq] at failed
  split at failed
  next =>
    obtain ⟨-, failed⟩ := Prod.mk.inj failed
    obtain rfl := Option.some.inj failed
    rfl
  next d _ =>
    rw [declareHead_eq] at failed
    split at failed
    next f unresolved =>
      obtain ⟨-, failed⟩ := Prod.mk.inj failed
      obtain rfl := Option.some.inj failed
      rcases Blocks.exhibits_error unresolved with ⟨rule, f, rfl⟩ | ⟨rule, f, rfl⟩ <;> rfl
    next => simp at failed
    next =>
      rcases exhibit_error failed with ⟨f, rfl⟩ | ⟨f, rfl⟩ | ⟨c, rfl⟩ <;> rfl

theorem step_open {marks : List Mark} {stop : Bool} (h : Open p.context.blocks.rules.reverse marks)
    (done : r.step nested world p line = .ok (q, stop)) :
    Open q.context.blocks.rules.reverse (marks ++ line.mark?.toList) := by
  have idle (none : line.directive? = none) :
      Open p.context.blocks.rules.reverse (marks ++ line.mark?.toList) := by
    simpa [Line.mark?, none] using h
  refine step_context_of (P := fun c => Open c.blocks.rules.reverse (marks ++ line.mark?.toList))
    idle (fun given does => ?_) idle idle done
  simpa [Line.mark?, given] using does.open_marks h

/-- The stack holds the rules of the blocks that are open, wherever a read has got to. -/
theorem open_of_passes {file : Option Text} {destination : Store} {before : List Line}
    (passed : r.Passes nested world (r.begin file destination) before p) :
    Open p.context.blocks.rules.reverse (Line.marks before) := by
  have start : Open (r.begin file destination).context.blocks.rules.reverse (Line.marks []) := .none .none
  refine Passes.history (P := fun before p => Open p.context.blocks.rules.reverse (Line.marks before))
    start (fun _ h done => ?_) passed
  rw [Line.marks_concat]
  exact step_open h done

theorem mark?_of_stop (done : r.step nested world p line = .ok (q, true)) : line.mark? = none := by
  rw [Line.mark?, (eq_of_stop done).1]
  rfl

theorem open_of_executes {file : Option Text} {destination : Store} {lines before : List Line}
    (executed : r.Executes nested world (r.begin file destination) lines before p) :
    Open p.context.blocks.rules.reverse (Line.marks before) := by
  cases executed with
  | whole passed => exact open_of_passes passed
  | stopped passed stop => simpa [mark?_of_stop stop] using step_open (open_of_passes passed) stop

/-- A line that asks for the file at `path`, and the reader that the file is read with. -/
def Asks (world : World) (r : Reader ρ σ) (p : Progress σ) (line : Line) (r' : Reader ρ σ)
    (path : Text) : Prop :=
  ∃ text q, Role.ofText line.text = .directive text ∧
    Directive.applyText world (p.atLine line) text = (q, .ok (.includeFile path)) ∧
    r' = r.forIncluded q.context

/-- The lines that a read of an input executes are well bracketed, and the files that they ask for are
bracketed on their own. -/
def Bracketed (files : Reader ρ σ → Text → Prop) (nested : Reader ρ σ → Text → Outcome) (world : World)
    (r : Reader ρ σ) (file : Option Text) (destination : Store) (bytes : Bytes) : Prop :=
  ∃ before p, r.Executes nested world (r.begin file destination) (Lines.ofBytes bytes).complete before p ∧
    Balanced (Line.marks before) ∧
    ∀ front line rest q r' path, before = front ++ line :: rest →
      r.Passes nested world (r.begin file destination) front q → r.Asks world q line r' path → files r' path

/-- So is a file, with files nested up to a depth. -/
def FileBracketed (world : World) : Nat → Reader ρ σ → Text → Prop
  | 0, _, _ => False
  | depth + 1, r, path => ∃ bytes, world.tree.read path = .ok bytes ∧
    r.Bracketed (FileBracketed world depth) (fun r path => runFile world depth r .empty path) world
      (some path) .empty bytes

/-- An error that blames the bracketing is right: the closing directive that it points at closes no
block however the input goes on, or blocks are open at the end, or the file that it points into is not
bracketed. -/
def Misbracketed (files : Reader ρ σ → Text → ReadError → Prop) (nested : Reader ρ σ → Text → Outcome)
    (world : World) (r : Reader ρ σ) (file : Option Text) (destination : Store) (bytes : Bytes) :
    ReadError → Prop
  | .inLine _ (.unclosedBlock _) =>
    ∃ before p, r.Executes nested world (r.begin file destination) (Lines.ofBytes bytes).complete before p ∧
      ¬ Balanced (Line.marks before)
  | .inLine location _ =>
    ∃ before line after p name, (Lines.ofBytes bytes).complete = before ++ line :: after ∧
      r.Passes nested world (r.begin file destination) before p ∧ location.line = line.last ∧
      line.mark? = some (.closing name) ∧
      ∀ more, ¬ Balanced (Line.marks before ++ .closing name :: more)
  | .included location path error =>
    ∃ before line after p r', (Lines.ofBytes bytes).complete = before ++ line :: after ∧
      r.Passes nested world (r.begin file destination) before p ∧ location.line = line.last ∧
      r.Asks world p line r' path ∧ files r' path error
  | .access _ _ => False

def FileMisbracketed (world : World) : Nat → Reader ρ σ → Text → ReadError → Prop
  | 0, _, _, _ => False
  | depth + 1, r, path, error => ∃ bytes, world.tree.read path = .ok bytes ∧
    r.Misbracketed (FileMisbracketed world depth) (fun r path => runFile world depth r .empty path) world
      (some path) .empty bytes error

theorem Asks.includes {r' : Reader ρ σ} {path : Text} (nested : Reader ρ σ → Text → Outcome)
    (asks : r.Asks world p line r' path) :
    let begun := (p.atLine line).setContext (p.atLine line).context.start
    r' = r.forIncluded begun.context ∧
      r.step nested world p line = (r.includeFile nested begun path).map fun q => (q, false) := by
  obtain ⟨text, q, role, applied, rfl⟩ := asks
  obtain ⟨-, -, -, -, -, rfl⟩ := Directive.applyText_eq_includeFile applied
  refine ⟨rfl, ?_⟩
  rw [step_eq, role]
  dsimp only [direct]
  rw [applied]

theorem read_of_asks {r' : Reader ρ σ} {path : Text} {stop : Bool} (asks : r.Asks world p line r' path)
    (done : r.step nested world p line = .ok (q, stop)) :
    ∃ store topic, (nested r' path).result = .ok (store, topic) := by
  obtain ⟨rfl, step⟩ := asks.includes nested
  rw [step] at done
  cases taken : r.includeFile nested ((p.atLine line).setContext (p.atLine line).context.start) path with
  | error failure =>
    rw [taken] at done
    cases done
  | ok behind =>
    obtain ⟨store, topic, read, -⟩ := includeFile_cases taken
    exact ⟨store, topic, read⟩

theorem bracketed_run {files : Reader ρ σ → Text → Prop} {file : Option Text} {destination store : Store}
    {topic : Option Text} {bytes : Bytes}
    (inner : ∀ r path store topic, (nested r path).result = .ok (store, topic) → files r path)
    (done : (r.run nested world file destination bytes).result = .ok (store, topic)) :
    r.Bracketed files nested world file destination bytes := by
  obtain ⟨p, stepped, closed, -⟩ := run_eq_ok.mp done
  obtain ⟨before, executed⟩ := executes_of_steps stepped
  have left := open_of_executes executed
  rw [closed] at left
  refine ⟨before, p, executed, left.balanced, fun front line rest q r' path e passed asks => ?_⟩
  obtain ⟨p', through⟩ := executed.passes
  rw [e] at through
  obtain ⟨q', passed', next⟩ := through.split
  obtain rfl := passed.unique passed'
  cases next with
  | next stepped _ =>
    obtain ⟨store, topic, read⟩ := read_of_asks asks stepped
    exact inner r' path store topic read

theorem misbracketed_run {files : Reader ρ σ → Text → ReadError → Prop} {file : Option Text}
    {destination : Store} {bytes : Bytes} {error : ReadError} {fault : Fault}
    (inner : ∀ r path error fault, (nested r path).result = .error error → error.fault? = some fault →
      fault.isBracketing = true → files r path error)
    (failed : (r.run nested world file destination bytes).result = .error error)
    (given : error.fault? = some fault) (blamed : fault.isBracketing = true) :
    r.Misbracketed files nested world file destination bytes error := by
  unfold run at failed
  dsimp only at failed
  split at failed
  next failure stepped =>
    obtain rfl := Except.error.inj failed
    rcases steps_error stepped with ⟨q, access⟩ | ⟨before, line, after, q, lines, passed, step⟩
    · simp [access, ReadError.fault?] at given
    · rcases step_error step with
        ⟨text, role, ⟨p₁, f, applied, rfl⟩ | ⟨p₁, path, applied, taken⟩⟩ | ⟨text, p₁, f, role, declared, rfl⟩
      · obtain rfl : f = fault := by simpa [failAt, ReadError.fault?] using given
        obtain ⟨name, b, read, left, rfl, rfl⟩ := Directive.applyText_bracketing applied blamed
        refine ⟨before, line, after, q, name, lines, passed, rfl, ?_, ?_⟩
        · rw [Line.mark?, Line.directive?_of_directive role read]
          rfl
        · refine (open_of_passes passed).not_balanced_closing ?_
          rw [List.getLast?_reverse]
          exact Blocks.leave_eq_error left
      · obtain ⟨name, optional, -, -, -, rfl⟩ := Directive.applyText_eq_includeFile applied
        rcases includeFile_error taken with ⟨error, result, e⟩ | ⟨collision, e⟩
        · rw [e] at given ⊢
          exact ⟨before, line, after, q, _, lines, passed, rfl, ⟨text, _, role, applied, rfl⟩,
            inner _ path error fault result given blamed⟩
        · obtain rfl : .collision collision = fault := by simpa [e, ReadError.fault?] using given
          cases blamed
      · obtain rfl : f = fault := by simpa [failAt, ReadError.fault?] using given
        simp [declare_blameless declared] at blamed
  next p stepped =>
    obtain ⟨before, executed⟩ := executes_of_steps stepped
    unfold finish at failed
    cases left : p.context.blocks.innermost with
    | none => simp [left] at failed
    | some rule =>
      obtain rfl : .inLine p.context.location (.unclosedBlock rule) = error := by
        simpa [left, failAt] using failed
      refine ⟨before, p, executed, (open_of_executes executed).not_balanced fun none => ?_⟩
      simp [Blocks.innermost, List.reverse_eq_nil_iff.mp none] at left

theorem fileBracketed (world : World) (depth : Nat) (r : Reader ρ σ) (path : Text) (store : Store)
    (topic : Option Text) (done : (runFile world depth r .empty path).result = .ok (store, topic)) :
    FileBracketed world depth r path := by
  induction depth generalizing r path store topic with
  | zero => cases done
  | succ depth ih =>
    unfold runFile at done
    dsimp only at done
    split at done
    next => cases done
    next bytes read => exact ⟨bytes, read, bracketed_run ih done⟩

theorem fileMisbracketed (world : World) (depth : Nat) (r : Reader ρ σ) (path : Text) (error : ReadError)
    (fault : Fault) (failed : (runFile world depth r .empty path).result = .error error)
    (given : error.fault? = some fault) (blamed : fault.isBracketing = true) :
    FileMisbracketed world depth r path error := by
  induction depth generalizing r path error fault with
  | zero =>
    obtain rfl := Except.error.inj failed
    cases given
  | succ depth ih =>
    unfold runFile at failed
    dsimp only at failed
    split at failed
    next =>
      obtain rfl := Except.error.inj failed
      cases given
    next bytes read => exact ⟨bytes, read, misbracketed_run ih failed given blamed⟩

/-- Blocks are accepted exactly where they are well bracketed. A read that succeeds has executed
well-bracketed lines, up to the one that stopped it or all, and so have the reads of the files that it
included; a read that blames the bracketing has met blocks that are not well bracketed. And wherever a
read has got to, the stack holds the rules of the blocks around that place, the outermost first. -/
theorem blocks_are_bracketed (world : World) (depth : Nat) (r : Reader ρ σ) (file : Option Text)
    (destination : Store) (bytes : Bytes) :
    let nested := fun r path => runFile world depth r .empty path
    let outcome := r.run nested world file destination bytes
    (∀ store topic, outcome.result = .ok (store, topic) →
      r.Bracketed (FileBracketed world depth) nested world file destination bytes) ∧
    (∀ error fault, outcome.result = .error error → error.fault? = some fault →
      fault.isBracketing = true →
      r.Misbracketed (FileMisbracketed world depth) nested world file destination bytes error) ∧
    ∀ before after p, (Lines.ofBytes bytes).complete = before ++ after →
      r.Passes nested world (r.begin file destination) before p →
      Open p.context.blocks.rules.reverse (Line.marks before) :=
  ⟨fun _ _ => bracketed_run (fileBracketed world depth),
    fun _ _ => misbracketed_run (fileMisbracketed world depth),
    fun _ _ _ _ => open_of_passes⟩

/-- A block around an include of a file with a block, inside of it, and a block that is closed under
another name. -/
theorem blocks_are_bracketed_across_files :
    let file := Text.encode (Text.ofString "#@variant_if r:b|false\nx = 1\n#@variant_endif\n")
    let world : World := ⟨⟨[([['i']], .file file)], [], []⟩, []⟩
    let nested := fun r path => runFile world 1 r .empty path
    let bytes := Text.encode (Text.ofString "#@variant_if r:a|true\n#@include i\n#@variant_endif r:a\n")
    let wrong := Text.encode (Text.ofString "#@variant_if r:a|true\n#@variant_endif r:b\n")
    let r := Reader.standard
    let error : ReadError :=
      .inLine ⟨none, none, 2⟩ (.block (.wrongClosing (Text.ofString "r:b") (Text.ofString "r:a|true")))
    ((r.run nested world none .empty bytes).result = .ok (.empty, none) ∧
        r.Bracketed (FileBracketed world 1) nested world none .empty bytes) ∧
      ((r.run nested world none .empty wrong).result = .error error ∧
        r.Misbracketed (FileMisbracketed world 1) nested world none .empty wrong error) ∧
      Open [Text.ofString "r:a|true"] [.opening (Text.ofString "r:a|true")] := by
  intro file world nested bytes wrong r error
  have done : (r.run nested world none .empty bytes).result = .ok (.empty, none) := by decide +kernel
  have failed : (r.run nested world none .empty wrong).result = .error error := by decide +kernel
  have accepted := (blocks_are_bracketed world 1 r none .empty bytes).1 .empty none done
  obtain ⟨-, blamed, reached⟩ := blocks_are_bracketed world 1 r none .empty wrong
  let start := r.begin none .empty
  let p : Progress := { start with context := { start.context with
    location := ⟨none, none, 1⟩, started := true, blocks := ⟨[Text.ofString "r:a|true"], none⟩ } }
  have opened := reached [⟨Text.ofString "#@variant_if r:a|true", 1, 1⟩]
    [⟨Text.ofString "#@variant_endif r:b", 2, 2⟩] p (by decide +kernel) (.next (by decide +kernel) (.none p))
  exact ⟨⟨done, accepted⟩, ⟨failed, blamed error _ failed rfl rfl⟩, opened⟩

end Reader
end TypedProperties
