import TypedProperties.Proofs.Line.Append
import TypedProperties.Proofs.Reading.Pending

/-! The two ways in which an input ends: it runs out, or a line of it says so. Only the second one minds a guard
or a description that still waits for its declaration. -/
namespace TypedProperties

variable {ρ σ : Type} [Variants ρ] [Searches σ]
namespace Reader

variable {nested : Reader ρ σ → Text → Outcome} {world : World} {r : Reader ρ σ} {p q start : Progress σ}
  {lines : List Line} {line : Line}

def endLine : Text := Text.ofString "#@end"

theorem role_endLine : Role.ofText endLine = .directive (Text.ofString "@end") := by decide +kernel

theorem ofText_end : Directive.ofText (Text.ofString "@end") = .ok .stop := by decide +kernel

theorem step_endLine (isEnd : line.text = endLine) :
    r.step nested world p line =
      if p.context.propertyPending then .error (failAt (p.atLine line) .endWhilePending)
      else .ok (p.atLine line, true) := by
  have applied : Directive.applyText world (p.atLine line) (Text.ofString "@end") =
      if p.context.propertyPending then (p.atLine line, .error .endWhilePending)
      else (p.atLine line, .ok .stop) := by
    rw [Directive.applyText, ofText_end]
    rfl
  rw [step_eq, isEnd, role_endLine]
  simp only [direct, applied]
  cases p.context.propertyPending <;> rfl

def Unended (nested : Reader ρ σ → Text → Outcome) (world : World) (r : Reader ρ σ) (start : Progress σ)
    (lines : List Line) : Prop :=
  ∀ before line after p q, lines = before ++ line :: after → r.Passes nested world start before p →
    r.step nested world p line ≠ .ok (q, true)

theorem unended_of_directives (none : ∀ line ∈ lines, line.directive? ≠ some .stop) :
    r.Unended nested world start lines := by
  rintro before line after p q rfl - stop
  exact none line (by simp) (eq_of_stop stop).1

theorem steps_iff_passes (unended : r.Unended nested world start lines) :
    r.steps nested world false start lines = .ok p ↔ r.Passes nested world start lines p := by
  constructor
  · intro done
    obtain ⟨before, executed⟩ := executes_of_steps done
    cases executed with
    | whole passed => exact passed
    | stopped passed stop => exact absurd stop (unended _ _ _ _ _ rfl passed)
  · intro passed
    have read := steps_of_passes passed false []
    rwa [List.append_nil] at read

/-- With an end behind them the lines are read if and only if they are all passed and nothing waits there. -/
theorem steps_endLine (unended : r.Unended nested world start lines) (isEnd : line.text = endLine) :
    r.steps nested world false start (lines ++ [line]) = .ok q ↔
      ∃ p, r.Passes nested world start lines p ∧ p.context.propertyPending = false ∧ q = p.atLine line := by
  have behind {p : Progress σ} : r.steps nested world false p [line] = .ok q ↔
      p.context.propertyPending = false ∧ q = p.atLine line := by
    rw [steps, step_endLine isEnd]
    cases p.context.propertyPending <;> simp [eq_comm]
  constructor
  · intro done
    rcases steps_append done with ⟨p, passed, done⟩ | ⟨unpassed, same⟩
    · exact ⟨p, passed, behind.mp done⟩
    · have read := same []
      rw [List.append_nil] at read
      exact absurd ((steps_iff_passes unended).mp read) (unpassed q)
  · rintro ⟨p, passed, ended⟩
    rw [steps_of_passes passed]
    exact behind.mpr ended

/-- Nothing waits behind some lines: the last guard went to a declaration, and the last description to one
that was exhibited. -/
def NothingWaits (variants : ρ) (lines : List Line) : Prop :=
  Line.Guarded lines none ∧ Line.Described variants lines none

theorem Recalls.propertyPending_eq_false (h : Recalls r.variants lines p) :
    p.context.propertyPending = false ↔ NothingWaits r.variants lines := by
  have guard : p.context.blocks.guard = none ↔ Line.Guarded lines none :=
    ⟨fun e => e ▸ h.guard, h.guard.unique⟩
  have description : p.context.description = none ↔ Line.Described r.variants lines none :=
    ⟨fun e => e ▸ h.description, h.description.unique⟩
  rw [NothingWaits, ← guard, ← description, Context.propertyPending]
  simp [and_comm]

theorem complete_endLine {t : Text} (whole : t.AtLineStart) :
    ∃ number, (Lines.ofBytes (Text.encode (t ++ (endLine ++ ['\n'])))).complete =
      (Lines.ofBytes (Text.encode t)).complete ++ [⟨endLine, number, number⟩] := by
  have piece : Text.physical (endLine ++ ['\n']) = [endLine] := by decide +kernel
  refine ⟨(Text.physical t).length + 1, ?_⟩
  rw [Lines.complete_append whole, piece]
  rfl

theorem not_broken (t : Text) : (Lines.ofBytes (Text.encode t)).broken = false :=
  (Lines.texts_ofBytes_encode t).2

/-- An end that a line asks for minds what is pending, and the end of the input does not. Of a text without an
end that is accepted, put in front of such a line: if it is read, and no guard and no description waits for a
declaration behind its lines, the whole is read with the same store and topic, and only then. If one waits,
the text is read as it is, but with an end behind it the read fails. -/
theorem only_an_end_line_minds_what_is_pending (nested : Reader ρ σ → Text → Outcome) (world : World)
    (r : Reader ρ σ) (file : Option Text) (destination : Store) {t : Text} (whole : t.AtLineStart)
    (unended : r.Unended nested world (r.begin file destination) (Lines.ofBytes (Text.encode t)).complete) :
    let lines := (Lines.ofBytes (Text.encode t)).complete
    let bare := r.run nested world file destination (Text.encode t)
    let ended := r.run nested world file destination (Text.encode (t ++ (endLine ++ ['\n'])))
    (∀ store topic, ended.result = .ok (store, topic) ↔
      bare.result = .ok (store, topic) ∧ NothingWaits r.variants lines) ∧
    (∀ store topic, bare.result = .ok (store, topic) → ¬ NothingWaits r.variants lines →
      ∃ location, ended.result = .error (.inLine location .endWhilePending)) := by
  intro lines bare ended
  obtain ⟨number, lines'⟩ := complete_endLine whole
  let last : Line := ⟨endLine, number, number⟩
  have read {store : Store} {topic : Option Text} : bare.result = .ok (store, topic) ↔
      ∃ p, r.Passes nested world (r.begin file destination) lines p ∧ p.context.blocks.rules = [] ∧
        p.store = store ∧ p.context.topic = topic := by
    rw [run_eq_ok, not_broken]
    exact exists_congr fun p => and_congr_left fun _ => steps_iff_passes unended
  refine ⟨fun store topic => ?_, fun store topic done waits => ?_⟩
  · rw [run_eq_ok, not_broken, lines', read]
    constructor
    · rintro ⟨q, done, closed, stored, seen⟩
      obtain ⟨p, passed, settled, rfl⟩ := (steps_endLine unended rfl).mp done
      exact ⟨⟨p, passed, closed, stored, seen⟩, (recalls_of_passes passed).propertyPending_eq_false.mp settled⟩
    · rintro ⟨⟨p, passed, closed, stored, seen⟩, settled⟩
      have settled := (recalls_of_passes passed).propertyPending_eq_false.mpr settled
      exact ⟨p.atLine last, (steps_endLine unended rfl).mpr ⟨p, passed, settled, rfl⟩, closed, stored, seen⟩
  · obtain ⟨p, passed, -⟩ := read.mp done
    have pending : p.context.propertyPending = true := by
      by_contra settled
      exact waits ((recalls_of_passes passed).propertyPending_eq_false.mp (Bool.eq_false_iff.mpr settled))
    have failed : r.step nested world p last = .error (failAt (p.atLine last) .endWhilePending) := by
      rw [step_endLine rfl, pending, if_pos rfl]
    exact ⟨_, run_error_of_passes lines' passed failed⟩

/-- A description without a declaration is accepted where the input ends, and refused where a line ends it; one
with a declaration is accepted at both. -/
theorem only_an_end_line_minds_a_description :
    let world := World.empty
    let nested := fun r path => runFile world 0 r .empty path
    let read (t : Text) := (Reader.standard.run nested world none .empty (Text.encode t)).result
    let waiting := Text.ofString "#@description d\n"
    let taken := Text.ofString "#@description d\na = 1\n"
    let store := Store.empty.insert ['a'] ⟨.string [['1']] false, .scalar, false, ['d']⟩
    (read waiting = .ok (.empty, none) ∧
      ∃ location, read (waiting ++ (endLine ++ ['\n'])) = .error (.inLine location .endWhilePending)) ∧
    read taken = .ok (store, none) ∧ read (taken ++ (endLine ++ ['\n'])) = .ok (store, none) := by
  intro world nested read waiting taken store
  have unended {t : Text} (none : ∀ line ∈ (Lines.ofBytes (Text.encode t)).complete, line.directive? ≠ some .stop) :
      Reader.standard.Unended nested world (Reader.standard.begin .none .empty)
        (Lines.ofBytes (Text.encode t)).complete := unended_of_directives none
  refine ⟨?waiting, ?taken⟩
  case waiting =>
    have whole : waiting.AtLineStart := .inr ⟨Text.ofString "#@description d", by decide, by decide⟩
    have done : read waiting = .ok (.empty, none) := by decide +kernel
    have refused : read (waiting ++ (endLine ++ ['\n'])) ≠ .ok (.empty, none) := by decide +kernel
    obtain ⟨same, minds⟩ := only_an_end_line_minds_what_is_pending nested world Reader.standard none .empty whole
      (unended (by decide +kernel))
    exact ⟨done, minds _ _ done fun settled => refused ((same _ _).mpr ⟨done, settled⟩)⟩
  case taken =>
    have whole : taken.AtLineStart := .inr ⟨Text.ofString "#@description d\na = 1", by decide, by decide⟩
    have done : read (taken ++ (endLine ++ ['\n'])) = .ok (store, none) := by decide +kernel
    obtain ⟨same, -⟩ := only_an_end_line_minds_what_is_pending nested world Reader.standard none .empty whole
      (unended (by decide +kernel))
    exact ⟨((same _ _).mp done).1, done⟩

end Reader
end TypedProperties
