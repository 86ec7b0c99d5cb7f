import TypedProperties.Include.Search
import TypedProperties.Proofs.Include.Environment
import TypedProperties.Proofs.Text.Cut

/-! Where an include path leads: the first directory of the order of search in which the file exists. The order
follows from the setup and from the calls that changed it. -/
namespace TypedProperties
namespace Search

/-- The search up to whether lookups are traced: directories, path variable, strategy and current
directory. -/
def untraced (s : Search) : Search := s.setDebug false

theorem resolve_of_untraced {s s' : Search} (same : s.untraced = s'.untraced) (world : World)
    (path : Text) : s.resolve world path = s'.resolve world path := by
  have quiet (s : Search) : s.untraced.resolve world path = s.resolve world path := rfl
  rw [← quiet s, same, quiet]

inductive Call where
  | directory (dir : Text)
  | pathVariable (name : Text)
  | tracing (debug : Bool)

namespace Call

def apply (world : World) (s : Search) : Call → Except IncludeFault Search
  | directory dir => s.addDirectory world dir
  | pathVariable name => s.setPathVariable name
  | tracing debug => .ok (s.setDebug debug)

/-- The directory that a call adds: what its text expands to, if that is one. -/
def directory? (world : World) : Call → Option Text
  | directory dir =>
    match world.expand dir with
    | .ok found => if world.tree.isDirectory found then some found else none
    | .error _ => none
  | _ => none

/-- The variable that a call names, which is not empty. -/
def name? : Call → Option Text
  | pathVariable name => if name = [] then none else some name
  | _ => none

def debug? : Call → Option Bool
  | tracing debug => some debug
  | _ => none

def result (world : World) (s : Search) (call : Call) : Search :=
  match call.apply world s with
  | .ok changed => changed
  | .error _ => s

end Call

/-- The search behind calls, each made in a world of its own. -/
def after (s : Search) (calls : List (World × Call)) : Search := calls.foldl (fun s c => c.2.result c.1 s) s

variable {world : World} {s start : Search} {call : Call} {calls : List (World × Call)} {path dir : Text}

theorem addDirectory_eq (world : World) (s : Search) (dir : Text) :
    (∃ fault, s.addDirectory world dir = .error fault ∧ (Call.directory dir).directory? world = none) ∨
      ∃ found, s.addDirectory world dir = .ok { s with directories := s.directories ++ [found] } ∧
        (Call.directory dir).directory? world = some found := by
  cases expanded : world.expand dir with
  | error name =>
    exact .inl ⟨.unsetVariable name dir, by simp [addDirectory, expand, expanded], by simp [Call.directory?, expanded]⟩
  | ok found =>
    cases here : world.tree.isDirectory found with
    | false =>
      exact .inl ⟨.noSuchDirectory found, by simp [addDirectory, expand, expanded, here],
        by simp [Call.directory?, expanded, here]⟩
    | true =>
      exact .inr ⟨found, by simp [addDirectory, expand, expanded, here], by simp [Call.directory?, expanded, here]⟩

theorem exists_addDirectory_eq_error :
    (∃ fault, s.addDirectory world dir = .error fault) ↔ (Call.directory dir).directory? world = none := by
  rcases addDirectory_eq world s dir with ⟨fault, failed, none⟩ | ⟨found, added, some⟩
  · simp [failed, none]
  · simp [added, some]

theorem result_eq (world : World) (s : Search) (call : Call) :
    call.result world s =
      { s with
        directories := s.directories ++ (call.directory? world).toList
        pathVariable := call.name?.or s.pathVariable
        debug := call.debug?.getD s.debug } := by
  cases call with
  | directory dir =>
    rcases addDirectory_eq world s dir with ⟨fault, failed, none⟩ | ⟨found, added, some⟩
    · simp [Call.result, Call.apply, failed, none, Call.name?, Call.debug?]
    · simp [Call.result, Call.apply, added, some, Call.name?, Call.debug?]
  | pathVariable name =>
    by_cases empty : name = []
    · simp [Call.result, Call.apply, setPathVariable, empty, Call.directory?, Call.name?, Call.debug?]
    · simp [Call.result, Call.apply, setPathVariable, empty, Call.directory?, Call.name?, Call.debug?]
  | tracing debug => simp [Call.result, Call.apply, setDebug, Call.directory?, Call.name?, Call.debug?]

/-- The search that calls lead to: the directories that they add follow in order, and the last variable and the
last flag count. -/
theorem after_eq (start : Search) (calls : List (World × Call)) :
    start.after calls =
      { start with
        directories := start.directories ++ calls.filterMap fun c => c.2.directory? c.1
        pathVariable := (calls.reverse.findSome? fun c => c.2.name?).or start.pathVariable
        debug := (calls.reverse.findSome? fun c => c.2.debug?).getD start.debug } := by
  induction calls generalizing start with
  | nil => simp [after]
  | cons c calls ih =>
    have behind : start.after (c :: calls) = (c.2.result c.1 start).after calls := rfl
    rw [behind, ih, result_eq]
    have first : (c :: calls).filterMap (fun c => c.2.directory? c.1) =
        (c.2.directory? c.1).toList ++ calls.filterMap fun c => c.2.directory? c.1 := by
      cases added : c.2.directory? c.1 <;> simp [added]
    simp only [first, List.reverse_cons, List.findSome?_append, List.findSome?_singleton, Option.getD_or,
      Option.or_assoc, List.append_assoc]

theorem order_after (start : Search) (calls : List (World × Call)) (world : World) :
    (start.after calls).order world =
      (if start.currentDirectory then [['.']] else []) ++
        combine start.strategy (start.directories ++ calls.filterMap fun c => c.2.directory? c.1)
          ((start.after calls).variableEntries world) := by
  rw [order]
  simp only [after_eq]
  split <;> rfl

/-- The entries of a path variable that are not empty: of the parts without a colon that make up its value when
colons stand between them. One that is not set to a text has none. -/
inductive Entries (world : World) : Option Text → List Text → Prop
  | unnamed : Entries world none []
  | unset {name : Text} (unset : world.value? name = none) : Entries world (some name) []
  | set {name value : Text} {parts : List Text} (set : world.value? name = some value)
      (joined : [':'].intercalate parts = value) (parted : parts ≠ []) (bare : ∀ p ∈ parts, ':' ∉ p) :
      Entries world (some name) (parts.filter (· ≠ []))

theorem entries_iff {entries : List Text} :
    Entries world s.pathVariable entries ↔ entries = s.variableEntries world := by
  unfold variableEntries
  constructor
  · intro h
    generalize s.pathVariable = named at h
    cases h with
    | unnamed => rfl
    | unset unset => simp [unset]
    | set set joined parted bare => simp [set, Text.splitAll_eq_iff.mpr ⟨parted, bare, joined⟩]
  · rintro rfl
    cases s.pathVariable with
    | none => exact .unnamed
    | some name =>
      cases set : world.value? name with
      | none => simpa [set] using Entries.unset set
      | some value =>
        obtain ⟨parted, bare, joined⟩ := Text.splitAll_eq_iff.mp (rfl : Text.splitAll ':' value = _)
        simpa [set] using Entries.set set joined parted bare

theorem resolve_eq {p : Text} (expanded : world.expand path = .ok p) (relative : Path.isAbsolute p = false) :
    s.resolve world path =
      match (s.order world).find? fun dir => world.tree.isFile (Path.join dir p) with
      | some dir => .ok (Path.join dir p)
      | none => .error (.notInSearchPath p) := by
  have below : ¬ Path.isAbsolute p = true := Bool.eq_false_iff.mp relative
  rw [resolve, expand, expanded]
  exact if_neg below

theorem resolve_eq_ok {found : Text} (relative : ∀ p, world.expand path = .ok p → Path.isAbsolute p = false) :
    s.resolve world path = .ok found ↔
      ∃ p before dir behind, world.expand path = .ok p ∧ s.order world = before ++ dir :: behind ∧
        (∀ d ∈ before, world.tree.isFile (Path.join d p) = false) ∧
        world.tree.isFile (Path.join dir p) = true ∧ found = Path.join dir p := by
  cases expanded : world.expand path with
  | error name => simp [resolve, expand, expanded]
  | ok p =>
    rw [resolve_eq expanded (relative p expanded)]
    constructor
    · intro h
      split at h
      next dir first =>
        obtain ⟨here, before, behind, split, none⟩ := List.find?_eq_some_iff_append.mp first
        exact ⟨p, before, dir, behind, rfl, split, by simpa using none, here, (Except.ok.inj h).symm⟩
      next => cases h
    · rintro ⟨p, before, dir, behind, ⟨⟩, split, none, here, rfl⟩
      have first : (s.order world).find? (fun dir => world.tree.isFile (Path.join dir p)) = some dir :=
        List.find?_eq_some_iff_append.mpr ⟨here, before, behind, split, by simpa using none⟩
      simp only [first]

theorem exists_resolve_eq_error (relative : ∀ p, world.expand path = .ok p → Path.isAbsolute p = false) :
    (∃ fault, s.resolve world path = .error fault) ↔
      (∃ name, world.expand path = .error name) ∨
        ∃ p, world.expand path = .ok p ∧ ∀ dir ∈ s.order world, world.tree.isFile (Path.join dir p) = false := by
  cases expanded : world.expand path with
  | error name => simp [resolve, expand, expanded]
  | ok p =>
    rw [resolve_eq expanded (relative p expanded)]
    cases first : (s.order world).find? fun dir => world.tree.isFile (Path.join dir p) with
    | some dir =>
      have mem := List.mem_of_find?_eq_some first
      have here := List.find?_some first
      simpa using ⟨dir, mem, here⟩
    | none => simpa using first

theorem result_setDebug (world : World) (s : Search) {call : Call} (call_debug : call.debug? = none) (debug : Bool) :
    call.result world (s.setDebug debug) = (call.result world s).setDebug debug := by
  simp only [result_eq, setDebug, call_debug, Option.getD_none]

theorem untraced_after (start : Search) (calls : List (World × Call)) (debug : Bool) :
    ((start.setDebug debug).after (calls.filter fun c => c.2.debug?.isNone)).untraced =
      (start.after calls).untraced := by
  induction calls generalizing start with
  | nil => rfl
  | cons c calls ih =>
    obtain ⟨world, call⟩ := c
    cases flag : call.debug? with
    | none =>
      have kept : (start.setDebug debug).after (((world, call) :: calls).filter fun c => c.2.debug?.isNone) =
          ((call.result world start).setDebug debug).after (calls.filter fun c => c.2.debug?.isNone) := by
        rw [List.filter_cons_of_pos (by simp [flag]), ← result_setDebug world start flag]
        rfl
      rw [kept, ih]
      rfl
    | some traced =>
      have dropped : call.result world start = start.setDebug traced := by
        cases call <;> cases flag
        rfl
      rw [List.filter_cons_of_neg (by simp [flag])]
      have behind : start.after ((world, call) :: calls) = (start.setDebug traced).after calls := by
        rw [← dropped]
        rfl
      rw [behind, ← ih (start.setDebug traced)]
      rfl

/-- A relative path leads to the first directory of the order of search in which it names a file, and nowhere if
there is none or it refers to a variable that is not set to a text. The order is the current directory, if that is allowed,
and then the entries of the path variable and the explicit directories: those of the start and, in the order of
the calls, those that calls have added. Tracing does not matter. -/
theorem first_file_of_the_search_order (start : Search) (calls : List (World × Call)) (world : World) (path : Text)
    (relative : ∀ p, world.expand path = .ok p → Path.isAbsolute p = false) :
    let s := start.after calls
    let here : List Text := if start.currentDirectory then [['.']] else []
    let explicit := start.directories ++ calls.filterMap fun c => c.2.directory? c.1
    let named := (calls.reverse.findSome? fun c => c.2.name?).or start.pathVariable
    (∃ entries, (∀ others, Entries world named others ↔ others = entries) ∧
      (entries = [] → s.order world = here ++ explicit) ∧
      (entries ≠ [] → start.strategy = .prepend → s.order world = here ++ (entries ++ explicit)) ∧
      (entries ≠ [] → start.strategy = .append → s.order world = here ++ (explicit ++ entries)) ∧
      (entries ≠ [] → start.strategy = .clear → s.order world = here ++ entries)) ∧
    (∀ s world dir, (∃ fault, addDirectory world s dir = .error fault) ↔
      (Call.directory dir).directory? world = none) ∧
    (∀ found, s.resolve world path = .ok found ↔
      ∃ p before dir behind, world.expand path = .ok p ∧ s.order world = before ++ dir :: behind ∧
        (∀ d ∈ before, world.tree.isFile (Path.join d p) = false) ∧
        world.tree.isFile (Path.join dir p) = true ∧ found = Path.join dir p) ∧
    ((∃ fault, s.resolve world path = .error fault) ↔
      (∃ piece ∈ PathPiece.scan path, ∃ name, piece.name? = some name ∧ world.value? name = none) ∨
        ∃ p, world.expand path = .ok p ∧ ∀ dir ∈ s.order world, world.tree.isFile (Path.join dir p) = false) ∧
    ∀ debug, ((start.setDebug debug).after (calls.filter fun c => c.2.debug?.isNone)).resolve world path =
      s.resolve world path := by
  intro s here explicit named
  have order : s.order world = here ++ combine start.strategy explicit (s.variableEntries world) :=
    order_after start calls world
  have variable_eq : s.pathVariable = named := congrArg pathVariable (after_eq start calls)
  refine ⟨⟨s.variableEntries world, fun others => variable_eq ▸ entries_iff, fun none => ?_, fun some strategy => ?_,
    fun some strategy => ?_, fun some strategy => ?_⟩, fun _ _ _ => exists_addDirectory_eq_error,
    fun _ => resolve_eq_ok relative, ?_, fun debug => resolve_of_untraced (untraced_after start calls debug) world path⟩
  · simp only [order, combine, if_pos none]
  · simp only [order, combine, if_neg some, strategy]
  · simp only [order, combine, if_neg some, strategy]
  · simp only [order, combine, if_neg some, strategy]
  · rw [exists_resolve_eq_error relative, World.exists_expand_eq_error]

/-- Calls of which two fail: the variable that is left replaces the directory that is left. -/
theorem first_file_of_the_search_order_behind_failed_calls :
    let world : World := ⟨FileTree.ofFiles [] [(Text.ofString "d/f", []), (Text.ofString "e/f", [])],
      [(['P'], Text.encode (Text.ofString ":e::")), (['D'], Text.encode ['d']), (['F'], Text.encode ['f'])]⟩
    let start : Search := { standard with strategy := .clear }
    let calls : List (World × Call) := [(world, .directory ['f']), (world, .pathVariable ['P']),
      (world, .directory (Text.ofString "${D}")), (world, .tracing true), (world, .pathVariable [])]
    (∀ p, world.expand (Text.ofString "$F") = .ok p → Path.isAbsolute p = false) ∧
      calls.filterMap (fun c => c.2.directory? c.1) = [['d']] ∧
      (start.after calls).order world = [['.'], ['e']] ∧
      (start.after calls).resolve world (Text.ofString "$F") = .ok (Text.ofString "e/f") := by
  intro world start calls
  have expanded : world.expand (Text.ofString "$F") = .ok ['f'] := by decide +kernel
  have relative : ∀ p, world.expand (Text.ofString "$F") = .ok p → Path.isAbsolute p = false := by
    intro p same
    cases expanded.symm.trans same
    rfl
  obtain ⟨⟨entries, only, -, -, -, clear⟩, -, found, -⟩ :=
    first_file_of_the_search_order start calls world (Text.ofString "$F") relative
  have parts : Entries world (some ['P']) ([[], ['e'], [], []].filter (· ≠ [])) :=
    .set (by decide +kernel) rfl (by decide) (by decide)
  obtain rfl : [['e']] = entries := (only _).mp parts
  have order : (start.after calls).order world = [['.'], ['e']] := clear (by decide) rfl
  refine ⟨relative, by decide +kernel, order, (found _).mpr ?_⟩
  exact ⟨['f'], [['.']], ['e'], [], expanded, order, by decide +kernel, by decide +kernel, by decide⟩

/-- Of a path variable that is set to bytes that are no text, no entry is searched, not even one that is a text. -/
theorem entries_of_no_text_are_not_searched :
    let world : World := ⟨FileTree.ofFiles [] [(Text.ofString "d/f", [])], [(['P'], Text.encode ['d', ':'] ++ [0xff])]⟩
    let s : Search := { standard with pathVariable := some ['P'], currentDirectory := false }
    world.tree.isFile (Path.join ['d'] ['f']) = true ∧ s.order world = [] ∧
      s.resolve world ['f'] = .error (.notInSearchPath ['f']) := by
  decide +kernel

end Search
end TypedProperties
