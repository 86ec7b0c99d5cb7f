import Mathlib.Logic.Relation
import TypedProperties.Proofs.Reading.Bracketed
import TypedProperties.Proofs.Reading.Unnumbered

/-! The reads that one read consists of: its own, and those of the files that are included, at any
depth. What one of them warns about, the whole warns about. -/
namespace TypedProperties

theorem FileTree.mem_of_read {tree : FileTree} {path : Text} {content : Bytes}
    (found : tree.read path = .ok content) :
    ∃ place, tree.locate path = .ok place ∧ (place, Node.file content) ∈ tree.nodes := by
  unfold read find nodeAt at found
  cases located : tree.locate path with
  | error fault => simp [located] at found
  | ok place =>
    rw [located] at found
    dsimp only at found
    split_ifs at found
    cases here : tree.nodes.lookup place with
    | none => simp [here] at found
    | some node =>
      rw [here] at found
      cases node with
      | directory => cases found
      | file bytes =>
        obtain rfl := Except.ok.inj found
        exact ⟨place, rfl, mem_of_lookup here⟩

variable {ρ σ : Type} [Variants ρ] [Searches σ]

/-- A read of one input: by which reader, from which file, into what, and how deep files may nest. -/
structure Reading (ρ : Type := Repository) (σ : Type := Search) [Variants ρ] [Searches σ] where
  depth : Nat
  reader : Reader ρ σ
  file : Option Text
  destination : Store
  bytes : Bytes

namespace Reading

abbrev nested (world : World) (x : Reading ρ σ) : Reader ρ σ → Text → Outcome :=
  fun r path => Reader.runFile world x.depth r .empty path

abbrev start (x : Reading ρ σ) : Progress σ := x.reader.begin x.file x.destination

abbrev lines (x : Reading ρ σ) : List Line := (Lines.ofBytes x.bytes).complete

def outcome (world : World) (x : Reading ρ σ) : Outcome :=
  x.reader.run (x.nested world) world x.file x.destination x.bytes

abbrev Passes (world : World) (x : Reading ρ σ) (before : List Line) (p : Progress σ) : Prop :=
  x.reader.Passes (x.nested world) world x.start before p

abbrev step (world : World) (x : Reading ρ σ) (p : Progress σ) (line : Line) :
    Except Reader.Failure (Progress σ × Bool) :=
  x.reader.step (x.nested world) world p line

structure Meets (world : World) (x : Reading ρ σ) (before : List Line) (line : Line)
    (p : Progress σ) : Prop where
  lines : ∃ after, x.lines = before ++ line :: after
  passed : x.Passes world before p

/-- A line of the read asks for a file, and the other read is that of the file. -/
inductive Opens (world : World) (x : Reading ρ σ) : Reading ρ σ → Prop
  | file {depth : Nat} {before : List Line} {line : Line} {p : Progress σ} {r : Reader ρ σ} {path : Text}
      {bytes : Bytes} (deeper : x.depth = depth + 1) (met : x.Meets world before line p)
      (asks : x.reader.Asks world p line r path) (found : world.tree.read path = .ok bytes) :
      Opens world x ⟨depth, r, some path, .empty, bytes⟩

/-- The other read is a part of the read: the read itself, or that of a file, included at any depth. -/
abbrev Within (world : World) : Reading ρ σ → Reading ρ σ → Prop := Relation.ReflTransGen (Opens world)

abbrev Includes (world : World) : Reading ρ σ → Reading ρ σ → Prop := Relation.TransGen (Opens world)

theorem outcome_of_file {world : World} {x : Reading ρ σ} {depth : Nat} {r : Reader ρ σ} {path : Text}
    {bytes : Bytes} (deeper : x.depth = depth + 1) (found : world.tree.read path = .ok bytes) :
    (Reading.mk depth r (some path) .empty bytes).outcome world = x.nested world r path := by
  simp only [nested, deeper, Reader.runFile, found]
  rfl

end Reading

namespace Directive

variable {world : World} {p q : Progress σ} {e : Effect}

theorem Does.warnings {directive : Directive} (does : Does world p directive q e) :
    p.warnings <+: q.warnings := by
  cases does with
  | emptyTopic | secondTopic | secondConfig | includeSkipped => exact List.prefix_append _ _
  | _ => exact List.prefix_rfl

theorem warnings_applyText (world : World) (p : Progress σ) (text : Text) :
    p.warnings <+: (applyText world p text).1.warnings := by
  rcases applied : applyText world p text with ⟨q, fault | e⟩
  · rcases refused_cases applied with ⟨rfl, -⟩ | ⟨directive, -, refuses⟩
    · exact List.prefix_rfl
    · cases refuses <;> exact List.prefix_rfl
  · obtain ⟨directive, -, does⟩ := applyText_eq_ok.mp applied
    exact does.warnings

end Directive

namespace Reader

variable {nested : Reader ρ σ → Text → Outcome} {world : World} {r r' : Reader ρ σ} {p : Progress σ}
  {line : Line} {path : Text}

def raised : Except Failure (Progress σ) → List Warning
  | .ok p => p.warnings
  | .error failure => failure.warnings

theorem warnings_exhibit (p : Progress σ) (d : Declaration) : p.warnings <+: (r.exhibit p d).1.warnings := by
  rw [exhibit_eq]
  split
  · exact List.prefix_rfl
  · split
    · exact List.prefix_rfl
    · next readout _ =>
      have trailing : p.warnings <+:
          (trailingWarning (p.setContext p.context.undescribed) d readout.trailing).warnings := by
        unfold trailingWarning
        split
        · exact List.prefix_append _ _
        · exact List.prefix_rfl
      refine trailing.trans ?_
      unfold storeDatum
      split
      · exact List.prefix_rfl
      · next replaced _ =>
        cases replaced
        · exact List.prefix_rfl
        · exact List.prefix_append _ _

theorem warnings_declare (p : Progress σ) (text : Text) : p.warnings <+: (r.declare p text).1.warnings := by
  rw [declare_eq]
  split
  · exact List.prefix_rfl
  · rw [declareHead_eq]
    split
    · exact List.prefix_rfl
    · exact List.prefix_rfl
    · exact warnings_exhibit (p.setContext p.context.spend) _

/-- An include adds the warnings of its file, whether the file can be taken in or not. -/
theorem raised_includeFile (nested : Reader ρ σ → Text → Outcome) (r : Reader ρ σ) (p : Progress σ)
    (path : Text) :
    raised (r.includeFile nested p path) = p.warnings ++ (nested (r.forIncluded p.context) path).warnings := by
  unfold includeFile
  dsimp only
  split
  · rfl
  · split <;> rfl

theorem raised_direct (p : Progress σ) (text : Text) :
    p.warnings <+: raised ((r.direct nested world p text).map Prod.fst) := by
  have applied := Directive.warnings_applyText world p text
  unfold direct
  split
  next applies => rwa [applies] at applied
  next applies => rwa [applies] at applied
  next applies => rwa [applies] at applied
  next q path applies =>
    rw [applies] at applied
    refine applied.trans ?_
    have included := raised_includeFile nested r q path
    cases taken : r.includeFile nested q path <;> rw [taken] at included <;>
      exact ⟨_, included.symm⟩

theorem raised_step (nested : Reader ρ σ → Text → Outcome) (world : World) (r : Reader ρ σ) (p : Progress σ)
    (line : Line) :
    p.warnings <+: raised ((r.step nested world p line).map Prod.fst) := by
  rw [step_eq]
  split
  · exact List.prefix_rfl
  · exact raised_direct (p.atLine line) _
  · next text _ =>
    have declared := warnings_declare (r := r) (p.atLine line) text
    unfold settle
    split
    next declares => rwa [declares] at declared
    next declares => rwa [declares] at declared

theorem raised_step_of_asks (nested : Reader ρ σ → Text → Outcome) (asks : r.Asks world p line r' path) :
    raised ((r.step nested world p line).map Prod.fst) = p.warnings ++ (nested r' path).warnings := by
  obtain ⟨rfl, step⟩ := asks.includes nested
  have included := raised_includeFile nested r
    ((p.atLine line).setContext (p.atLine line).context.start) path
  rw [step]
  cases taken : r.includeFile nested ((p.atLine line).setContext (p.atLine line).context.start) path <;>
    rw [taken] at included <;> exact included

theorem raised_steps (p : Progress σ) (broken : Bool) (lines : List Line) :
    p.warnings <+: raised (r.steps nested world broken p lines) := by
  induction lines generalizing p with
  | nil =>
    unfold steps
    split_ifs <;> exact List.prefix_rfl
  | cons line rest ih =>
    have here := raised_step nested world r p line
    rw [steps]
    split
    next stepped => rwa [stepped] at here
    next stepped => rwa [stepped] at here
    next q stepped =>
      rw [stepped] at here
      exact here.trans (ih q)

theorem raised_steps_cons (nested : Reader ρ σ → Text → Outcome) (world : World) (r : Reader ρ σ)
    (p : Progress σ) (broken : Bool) (line : Line) (rest : List Line) :
    raised ((r.step nested world p line).map Prod.fst) <+: raised (r.steps nested world broken p (line :: rest)) := by
  rw [steps]
  split
  next stepped =>
    rw [stepped]
    exact List.prefix_rfl
  next stepped =>
    rw [stepped]
    exact List.prefix_rfl
  next q stepped =>
    rw [stepped]
    exact raised_steps q broken rest

theorem warnings_run {file : Option Text} {destination : Store} {bytes : Bytes} :
    (r.run nested world file destination bytes).warnings =
      raised (r.steps nested world (Lines.ofBytes bytes).broken (r.begin file destination)
        (Lines.ofBytes bytes).complete) := by
  unfold run
  dsimp only
  split
  next stepped =>
    rw [stepped]
    rfl
  next stepped =>
    rw [stepped]
    unfold finish
    split
    next finished =>
      split at finished <;> cases finished
      rfl
    next finished =>
      split at finished <;> cases finished
      rfl

end Reader

namespace Reading

variable {world : World} {x y : Reading ρ σ} {before : List Line} {line : Line} {p : Progress σ}

theorem Meets.raised (met : x.Meets world before line p) :
    Reader.raised ((x.step world p line).map Prod.fst) <+: (x.outcome world).warnings := by
  obtain ⟨after, lines⟩ := met.lines
  have lines : (Lines.ofBytes x.bytes).complete = before ++ line :: after := lines
  rw [outcome, Reader.warnings_run, lines, Reader.steps_of_passes met.passed]
  exact Reader.raised_steps_cons _ world _ p _ line after

theorem warnings_of_opens (opened : Opens world x y) : (y.outcome world).warnings ⊆ (x.outcome world).warnings := by
  cases opened with
  | file deeper met asks found =>
    have raised := met.raised
    rw [Reader.raised_step_of_asks _ asks] at raised
    rw [outcome_of_file deeper found]
    exact List.Subset.trans (List.subset_append_right _ _) raised.subset

/-- A read warns about all that the files it includes warn about, at any depth. -/
theorem warnings_of_within (within : Within world x y) :
    (y.outcome world).warnings ⊆ (x.outcome world).warnings := by
  induction within with
  | refl => exact List.Subset.refl _
  | tail _ opened ih => exact List.Subset.trans (warnings_of_opens opened) ih

end Reading
end TypedProperties
