import TypedProperties.Proofs.Reading.Frozen
import TypedProperties.Proofs.Reading.Included
import TypedProperties.Proofs.Reading.Tree

/-! The search of a tree of included files: as long as no file keeps it to itself, all of them search as
the outermost read did when it came to its first include. -/
namespace TypedProperties

variable {ρ : Type} [Variants ρ]

def Line.request? (line : Line) : Option Text :=
  match line.directive? with
  | some (.includeFile path _) => some path
  | _ => none

theorem Line.request?_eq_some {line : Line} {path : Text} :
    line.request? = some path ↔ ∃ optional, line.directive? = some (.includeFile path optional) := by
  unfold request?
  split
  next given => simp [given]
  next other => exact ⟨nofun, fun ⟨optional, given⟩ => absurd given (other path optional)⟩

namespace Directive

variable {world : World} {p q : Progress} {e : Effect} {directive : Directive}

theorem Does.propagate_eq (does : Does world p directive q e) (keeps : directive ≠ .includeNoPropagate) :
    q.context.propagate = p.context.propagate := by
  cases does with
  | includeNoPropagate => exact absurd rfl keeps
  | _ => rfl

theorem Does.search_of_fixed (does : Does world p directive q e) (fixed : p.context.searchFixed = true) :
    q.context.searchFixed = true ∧ q.context.search.untraced = p.context.search.untraced := by
  cases does with
  | includeDirectory unfixed => simp [fixed] at unfixed
  | includePathVariable unfixed => simp [fixed] at unfixed
  | _ => exact ⟨fixed, rfl⟩

end Directive

namespace Reader

variable {nested : Reader ρ → Text → Outcome} {world : World} {r r' : Reader ρ} {p q : Progress} {line : Line}
  {before : List Line} {file : Option Text} {destination : Store} {path : Text}

theorem propagate_of_step {stop : Bool} (keeps : line.directive? ≠ some .includeNoPropagate)
    (done : r.step nested world p line = .ok (q, stop)) : q.context.propagate = p.context.propagate := by
  refine step_context_of (P := fun c => c.propagate = p.context.propagate) (fun _ => rfl)
    (fun given does => ?_) (fun _ => rfl) (fun _ => rfl) done
  rw [given] at keeps
  exact does.propagate_eq fun same => keeps (congrArg some same)

theorem propagate_of_passes (passed : r.Passes nested world (r.begin file destination) before p)
    (keeps : ∀ line ∈ before, line.directive? ≠ some .includeNoPropagate) : p.context.propagate = true := by
  refine Passes.history (P := fun before p =>
      (∀ line ∈ before, line.directive? ≠ some .includeNoPropagate) → p.context.propagate = true)
    (fun _ => rfl) (fun _ h done keeps => ?_) passed keeps
  rw [propagate_of_step (keeps _ (by simp)) done]
  exact h fun line mem => keeps line (by simp [mem])

theorem search_of_passes {search : Search} (fixed : r.includes = .fixed search)
    (passed : r.Passes nested world (r.begin file destination) before p) :
    p.context.searchFixed = true ∧ p.context.search.untraced = search.untraced := by
  have start : (r.begin file destination).context.searchFixed = true ∧
      (r.begin file destination).context.search.untraced = search.untraced := by
    simp [begin, Context.initial, fixed, IncludeSetup.search, IncludeSetup.isFixed]
  refine Passes.history
    (P := fun _ p => p.context.searchFixed = true ∧ p.context.search.untraced = search.untraced)
    start (fun _ h done => ?_) passed
  refine step_context (P := fun c : Context => c.searchFixed = true ∧ c.search.untraced = search.untraced) h
    (fun does => ?_) h h done
  obtain ⟨fixed, same⟩ := does.search_of_fixed h.1
  exact ⟨fixed, same.trans h.2⟩

/-- The file that an include asks for is the one that its path stands for where the read has got to. -/
theorem asks_iff {found : Text} (request : line.request? = some path) :
    (∃ r', r.Asks world p line r' found) ↔
      p.context.inclusion = true ∧ p.context.search.resolve world path = .ok found := by
  obtain ⟨optional, given⟩ := Line.request?_eq_some.mp request
  obtain ⟨text, role, read⟩ := Line.directive?_eq_some.mp given
  constructor
  · rintro ⟨r', text', q, role', applied, -⟩
    obtain rfl := Role.directive.inj (role.symm.trans role')
    obtain ⟨path', optional', read', enabled, resolved, -⟩ := Directive.applyText_eq_includeFile applied
    obtain ⟨rfl, -⟩ := Directive.includeFile.inj (Except.ok.inj (read.symm.trans read'))
    exact ⟨enabled, resolved⟩
  · rintro ⟨enabled, resolved⟩
    have does : Directive.Does world (p.atLine line) (.includeFile path optional)
        ((p.atLine line).setContext (p.atLine line).context.start) (.includeFile found) :=
      .includeFile enabled resolved
    exact ⟨_, text, _, role, Directive.applyText_eq_ok.mpr ⟨_, read, does⟩, rfl⟩

/-- Behind an include, the search that it has been resolved with stays, but for the tracing. -/
theorem search_behind_include {rest : List Line} (request : line.request? = some path)
    (passed : r.Passes nested world p (line :: rest) q) :
    q.context.search.untraced = p.context.search.untraced := by
  obtain ⟨optional, given⟩ := Line.request?_eq_some.mp request
  cases passed with
  | @next _ behind _ _ _ stepped passed =>
    obtain ⟨-, context, -⟩ := brings_of_step given stepped
    have started : behind.context.started = true := by
      rw [context]
      rfl
    have reached := steps_of_passes passed false []
    rw [List.append_nil] at reached
    obtain ⟨-, same⟩ := settings_of_steps started reached
    calc q.context.search.untraced
        = behind.context.search.untraced := congrArg StreamSettings.search same
      _ = p.context.search.untraced := by rw [context]; rfl

end Reader

def Node.lines : Node → List Line
  | .file content => (Lines.ofBytes content).complete
  | .directory => []

namespace Reading

variable {world : World} {root x y : Reading ρ} {before : List Line} {line : Line} {p : Progress}

def Executes (world : World) (x : Reading ρ) (directive : Directive) : Prop :=
  ∃ before line p q stop, x.Meets world before line p ∧ line.directive? = some directive ∧
    x.step world p line = .ok (q, stop)

theorem Meets.executes {earlier : Line} {directive : Directive} (met : x.Meets world before line p)
    (mem : earlier ∈ before) (given : earlier.directive? = some directive) : x.Executes world directive := by
  obtain ⟨after, lines⟩ := met.lines
  obtain ⟨front, rest, rfl⟩ := List.append_of_mem mem
  obtain ⟨q, passed, behind⟩ := met.passed.split
  cases behind with
  | next stepped _ =>
    exact ⟨front, earlier, q, _, false, ⟨⟨rest ++ line :: after, by simp [lines]⟩, passed⟩, given, stepped⟩

/-- A file is searched for as its includes are, where no directive forbids it to inherit that. -/
theorem includes_of_opens (keeps : ¬ x.Executes world .includeNoPropagate) (opened : Opens world x y) :
    ∃ before line p, x.Meets world before line p ∧ line.request?.isSome ∧
      y.reader.includes = .fixed p.context.search := by
  cases opened with
  | @file _ before line p _ _ _ _ met asks _ =>
    have propagate : p.context.propagate = true :=
      Reader.propagate_of_passes met.passed fun earlier mem given => keeps (met.executes mem given)
    obtain ⟨text, q, role, applied, rfl⟩ := asks
    obtain ⟨path, optional, read, -, -, rfl⟩ := Directive.applyText_eq_includeFile applied
    have request : line.request? = some path :=
      Line.request?_eq_some.mpr ⟨optional, Line.directive?_of_directive role read⟩
    refine ⟨before, line, p, met, by simp [request], ?_⟩
    have same : ((p.atLine line).setContext (p.atLine line).context.start).context.propagate = true := propagate
    simp only [Reader.forIncluded, same, if_true]
    rfl

def preface (x : Reading ρ) : List Line := x.lines.takeWhile fun line => line.request?.isNone

theorem preface_eq {front rest : List Line} {first : Line} (lines : x.lines = front ++ first :: rest)
    (request : first.request?.isSome) (idle : ∀ line ∈ front, line.request?.isNone) : x.preface = front := by
  rw [preface, lines, List.takeWhile_append_of_pos idle, List.takeWhile_cons_of_neg, List.append_nil]
  simpa [← Option.isNone_iff_eq_none] using request

def Shares (world : World) (root : Reading ρ) (search : Search) : Prop :=
  ∃ first p₀, root.Meets world root.preface first p₀ ∧ search.untraced = p₀.context.search.untraced

theorem shares_of_meets (met : root.Meets world before line p) (request : line.request?.isSome) :
    root.Shares world p.context.search := by
  obtain ⟨after, lines⟩ := met.lines
  by_cases idle : ∀ earlier ∈ before, earlier.request?.isNone
  · refine ⟨line, p, ⟨⟨after, ?_⟩, ?_⟩, rfl⟩ <;> rw [preface_eq lines request idle]
    · exact lines
    · exact met.passed
  · obtain ⟨front, first, rest, rfl, some, none⟩ : ∃ front first rest, before = front ++ first :: rest ∧
        first.request?.isSome ∧ ∀ line ∈ front, line.request?.isNone := by
      have found : (before.find? fun line => line.request?.isSome).isSome := by
        simpa [List.find?_isSome, Option.isSome_iff_ne_none] using idle
      obtain ⟨first, found⟩ := Option.isSome_iff_exists.mp found
      obtain ⟨some, front, rest, split, none⟩ := List.find?_eq_some_iff_append.mp found
      exact ⟨front, first, rest, split, some, by simpa using none⟩
    obtain ⟨p₀, reached, behind⟩ := met.passed.split
    obtain ⟨path, request₀⟩ := Option.isSome_iff_exists.mp some
    have split : root.lines = front ++ first :: (rest ++ line :: after) := by simp [lines]
    refine ⟨first, p₀, ⟨⟨rest ++ line :: after, ?_⟩, ?_⟩, Reader.search_behind_include request₀ behind⟩ <;>
      rw [preface_eq split some none]
    · exact split
    · exact reached

/-- By induction on how the file is included. Its own includes hand on a search that the whole tree
shares. -/
theorem shares_of_within (keeps : ∀ y, root.Within world y → ¬ y.Executes world .includeNoPropagate)
    (within : root.Within world y) (met : y.Meets world before line p) (request : line.request?.isSome) :
    root.Shares world p.context.search := by
  induction within generalizing before line p with
  | refl => exact shares_of_meets met request
  | @tail z y within opened ih =>
    obtain ⟨front, asking, q, met', request', fixed⟩ := includes_of_opens (keeps z within) opened
    obtain ⟨first, p₀, reached, same⟩ := ih met' request'
    obtain ⟨-, inherited⟩ := Reader.search_of_passes fixed met.passed
    exact ⟨first, p₀, reached, inherited.trans same⟩

theorem step_of_search_directive (keeps : ∀ y, root.Within world y → ¬ y.Executes world .includeNoPropagate)
    (included : root.Includes world y) (met : y.Meets world before line p)
    (given : (∃ dir, line.directive? = some (.includeDirectory dir)) ∨
      ∃ name, line.directive? = some (.includePathVariable name)) :
    y.step world p line = .ok (p.atLine line, false) := by
  obtain ⟨z, within, opened⟩ := Relation.TransGen.tail'_iff.mp included
  obtain ⟨_, _, _, -, -, fixed⟩ := includes_of_opens (keeps z within) opened
  obtain ⟨searchFixed, -⟩ := Reader.search_of_passes fixed met.passed
  have idle {directive : Directive} (given : line.directive? = some directive)
      (does : Directive.Does world (p.atLine line) directive (p.atLine line) .next) :
      y.step world p line = .ok (p.atLine line, false) := by
    obtain ⟨text, role, read⟩ := Line.directive?_eq_some.mp given
    have applied := Directive.applyText_eq_ok.mpr ⟨directive, read, does⟩
    rw [step, Reader.step_eq, role]
    dsimp only [Reader.direct]
    rw [applied]
  rcases given with ⟨dir, given⟩ | ⟨name, given⟩
  · exact idle given (.fixedDirectory searchFixed)
  · exact idle given (.fixedPathVariable searchFixed)

/-- A whole tree of includes searches as one. Take a read in which no file, at any depth, executes the
directive that keeps the search to itself. Then every include in it, at any depth, is resolved with the search
that the outermost read had when it came to its first include; only whether lookups are traced may differ. And
the directives that set up the search leave an included file as it is, and do not fail. -/
theorem include_tree_searches_as_one (world : World) (root : Reading ρ)
    (keeps : ∀ y, root.Within world y → ¬ y.Executes world .includeNoPropagate) :
    (∀ y before line p path, root.Within world y → y.Meets world before line p → line.request? = some path →
      (∃ first p₀, root.Meets world root.preface first p₀) ∧
      ∀ first p₀, root.Meets world root.preface first p₀ →
        p.context.search.untraced = p₀.context.search.untraced ∧
        ∀ found, (∃ r', y.reader.Asks world p line r' found) ↔
          p.context.inclusion = true ∧ p₀.context.search.resolve world path = .ok found) ∧
    ∀ y before line p, root.Includes world y → y.Meets world before line p →
      ((∃ dir, line.directive? = some (.includeDirectory dir)) ∨
        ∃ name, line.directive? = some (.includePathVariable name)) →
      y.step world p line = .ok (p.atLine line, false) := by
  refine ⟨fun y before line p path within met request => ?_,
    fun y before line p included met given => step_of_search_directive keeps included met given⟩
  obtain ⟨first, p₀, reached, same⟩ := shares_of_within keeps within met (by simp [request])
  refine ⟨⟨first, p₀, reached⟩, fun first' p₀' reached' => ?_⟩
  obtain rfl := reached.passed.unique reached'.passed
  refine ⟨same, fun found => ?_⟩
  rw [Reader.asks_iff request, Search.resolve_of_untraced same]

theorem not_executes_of_within {directive : Directive}
    (own : ∀ line ∈ root.lines, line.directive? ≠ some directive)
    (files : ∀ e ∈ world.tree.nodes, ∀ line ∈ e.2.lines, line.directive? ≠ some directive)
    (within : root.Within world y) : ¬ y.Executes world directive := by
  rintro ⟨before, line, p, q, stop, ⟨⟨after, lines⟩, -⟩, given, -⟩
  have mem : line ∈ y.lines := by simp [lines]
  cases within with
  | refl => exact own line mem given
  | tail _ opened =>
    cases opened with
    | file _ _ _ found =>
      obtain ⟨place, -, node⟩ := FileTree.mem_of_read found
      exact files _ node line mem given

/-- A file that sets up a search of its own, in vain, and includes another. -/
theorem include_tree_searches_as_one_two_files_deep :
    let a := Text.encode (Text.ofString "#@include_dir e\n#@include b\n")
    let b := Text.encode (Text.ofString "y = 1\n")
    let world : World := ⟨⟨[([['d']], .directory), ([['d'], ['a']], .file a), ([['d'], ['b']], .file b)], [], []⟩, []⟩
    let root : Reading := ⟨2, .standard, none, .empty, Text.encode (Text.ofString "#@include_dir d\n#@include a\n")⟩
    let search : Search := { Search.standard with directories := [['d']] }
    let y : Reading := ⟨1, { Reader.standard with includes := .fixed search }, some (Text.ofString "d/a"), .empty, a⟩
    let p₀ : Progress := ⟨{ root.start.context with location := ⟨none, none, 1⟩, search := search }, .empty, []⟩
    let p := y.start.atLine ⟨Text.ofString "#@include_dir e", 1, 1⟩
    root.Includes world y ∧ root.Meets world root.preface ⟨Text.ofString "#@include a", 2, 2⟩ p₀ ∧
      y.step world y.start ⟨Text.ofString "#@include_dir e", 1, 1⟩ = .ok (p, false) ∧
      p.context.search.untraced = p₀.context.search.untraced ∧
      ∃ r', y.reader.Asks world p ⟨Text.ofString "#@include b", 2, 2⟩ r' (Text.ofString "d/b") := by
  intro a b world root search y p₀ p
  have keeps (z : Reading) (within : root.Within world z) : ¬ z.Executes world .includeNoPropagate :=
    not_executes_of_within (by decide +kernel) (by decide +kernel) within
  obtain ⟨shared, fixed⟩ := include_tree_searches_as_one world root keeps
  have first : root.Meets world root.preface ⟨Text.ofString "#@include a", 2, 2⟩ p₀ := by
    have front : root.preface = [⟨Text.ofString "#@include_dir d", 1, 1⟩] := by decide +kernel
    rw [front]
    exact ⟨⟨[], by decide +kernel⟩, .next (by decide +kernel) (.none p₀)⟩
  have asks : root.reader.Asks world p₀ ⟨Text.ofString "#@include a", 2, 2⟩ y.reader (Text.ofString "d/a") :=
    ⟨Text.ofString "@include a", p₀.atLine ⟨Text.ofString "#@include a", 2, 2⟩ |>.setContext
      (p₀.atLine ⟨Text.ofString "#@include a", 2, 2⟩).context.start, by decide +kernel, by decide +kernel, rfl⟩
  have opened : Opens world root y := .file rfl first asks (by decide +kernel)
  have dir : y.Meets world [] ⟨Text.ofString "#@include_dir e", 1, 1⟩ y.start :=
    ⟨⟨[⟨Text.ofString "#@include b", 2, 2⟩], by decide +kernel⟩, .none y.start⟩
  have idle := fixed y _ _ _ (.single opened) dir (.inl ⟨['e'], by decide +kernel⟩)
  have met : y.Meets world [⟨Text.ofString "#@include_dir e", 1, 1⟩] ⟨Text.ofString "#@include b", 2, 2⟩ p :=
    ⟨⟨[], by decide +kernel⟩, .next idle (.none p)⟩
  obtain ⟨-, one⟩ := shared y _ _ _ ['b'] (.single opened) met (by decide +kernel)
  obtain ⟨same, found⟩ := one _ p₀ first
  exact ⟨.single opened, first, idle, same, (found _).mpr (by decide +kernel)⟩

end Reading
end TypedProperties
