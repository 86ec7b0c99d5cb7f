import TypedProperties.Proofs.Line.Append
import TypedProperties.Proofs.Reading.Bracketed
import TypedProperties.Proofs.Reading.Included

/-! Where a read stops: at a line that fails, or at an accepted end. What stands behind that line does not
matter, be it text or not. -/
namespace TypedProperties

variable {ρ σ : Type} [Variants ρ] [Searches σ]

namespace Directive

theorem location_of_refused {world : World} {p q : Progress σ} {text : Text} {fault : Fault}
    (refused : applyText world p text = (q, .error fault)) : q.context.location = p.context.location := by
  rcases refused_cases refused with ⟨rfl, -⟩ | ⟨directive, -, refuses⟩
  · rfl
  · cases refuses <;> rfl

end Directive

namespace Reader

variable {nested : Reader ρ σ → Text → Outcome} {world : World} {r : Reader ρ σ} {p q : Progress σ}
  {line : Line}

theorem location_of_declare (p : Progress σ) (text : Text) :
    (r.declare p text).1.context.location = p.context.location := by
  rw [declare_eq]
  split
  · rfl
  · rw [declareHead_eq]
    split
    · rfl
    · rfl
    · rw [exhibit_eq]
      split
      · rfl
      · split
        · rfl
        next readout _ =>
          unfold storeDatum
          split
          · cases readout.trailing <;> rfl
          next replaced _ => cases readout.trailing <;> cases replaced <;> rfl

theorem line_of_step_error {failure : Failure} (failed : r.step nested world p line = .error failure) :
    failure.error.line? = some line.last := by
  rcases step_error failed with ⟨text, -, ⟨p₁, fault, refused, rfl⟩ | ⟨p₁, path, applied, taken⟩⟩ |
    ⟨text, p₁, fault, -, declared, rfl⟩
  · exact congrArg (fun l => some l.line) (Directive.location_of_refused refused)
  · obtain ⟨-, -, -, -, -, rfl⟩ := Directive.applyText_eq_includeFile applied
    rcases includeFile_error taken with ⟨error, -, blamed⟩ | ⟨collision, blamed⟩ <;> rw [blamed] <;> rfl
  · have stays := location_of_declare (r := r) (p.atLine line) text
    rw [declared] at stays
    exact congrArg (fun l => some l.line) stays

/-- Why a read does not get past a line. -/
inductive Stops (nested : Reader ρ σ → Text → Outcome) (world : World) (r : Reader ρ σ) (p : Progress σ)
    (line : Line) : Prop
  /-- The directive in it is not understood or is refused. -/
  | directive {text : Text} {q : Progress σ} {fault : Fault} (role : Role.ofText line.text = .directive text)
      (refused : Directive.applyText world (p.atLine line) text = (q, .error fault))
  /-- The file that it includes cannot be read or cannot be taken in. -/
  | included {text path : Text} {q : Progress σ} {failure : Failure} (role : Role.ofText line.text = .directive text)
      (applied : Directive.applyText world (p.atLine line) text = (q, .ok (.includeFile path)))
      (failed : r.includeFile nested q path = .error failure)
  /-- The declaration in it fails. -/
  | declaration {text : Text} {q : Progress σ} {fault : Fault} (role : Role.ofText line.text = .declaration text)
      (failed : r.declare (p.atLine line) text = (q, some fault))
  /-- It is an end that is accepted. -/
  | ended {text : Text} {q : Progress σ} (role : Role.ofText line.text = .directive text)
      (applied : Directive.applyText world (p.atLine line) text = (q, .ok .stop))

theorem stops_iff : r.Stops nested world p line ↔ ∀ q, r.step nested world p line ≠ .ok (q, false) := by
  constructor
  · intro stops q
    rw [step_eq]
    cases stops with
    | directive role refused => simp [role, direct, refused]
    | included role applied failed => simp [role, direct, applied, failed, Except.map]
    | declaration role failed => simp [role, failed, settle]
    | ended role applied => simp [role, direct, applied]
  · intro stuck
    cases done : r.step nested world p line with
    | error failure =>
      rcases step_error done with ⟨text, role, ⟨p₁, fault, refused, -⟩ | ⟨p₁, path, applied, taken⟩⟩ |
        ⟨text, p₁, fault, role, declared, -⟩
      · exact .directive role refused
      · exact .included role applied taken
      · exact .declaration role declared
    | ok reached =>
      obtain ⟨q, stop⟩ := reached
      cases stop with
      | false => exact absurd done (stuck q)
      | true =>
        rcases step_cases done with ⟨-, -, no⟩ | ⟨text, role, applied | ⟨-, -, -, -, no⟩⟩ | ⟨-, -, -, no⟩
        · cases no
        · exact .ended role applied
        · cases no
        · cases no

/-- The read gets to a line that ends with the physical line of this number, and not past it. -/
def StopsAt (nested : Reader ρ σ → Text → Outcome) (world : World) (r : Reader ρ σ) (start : Progress σ)
    (lines : List Line) (last : Nat) : Prop :=
  ∃ before line after p, lines = before ++ line :: after ∧ line.last = last ∧
    r.Passes nested world start before p ∧ r.Stops nested world p line

theorem steps_of_stops {before : List Line} (reached : r.Passes nested world p before q)
    (stops : r.Stops nested world q line) (broken : Bool) (after : List Line) :
    r.steps nested world broken p (before ++ line :: after) = (r.step nested world q line).map Prod.fst := by
  rw [steps_of_passes reached, steps]
  cases done : r.step nested world q line with
  | error failure => rfl
  | ok reached =>
    obtain ⟨q', stop⟩ := reached
    cases stop with
    | true => rfl
    | false => exact absurd done (stops_iff.mp stops q')

/-- The line that the read stops at is blamed for whatever makes it fail, a block that is left open
included. -/
theorem line_of_stops {error : ReadError}
    (failed : (outcome (((r.step nested world p line).map Prod.fst).bind finish)).result = .error error) :
    error.line? = some line.last := by
  cases done : r.step nested world p line with
  | error failure =>
    rw [done] at failed
    obtain rfl : failure.error = error := by simpa [Except.map, Except.bind, outcome] using failed
    exact line_of_step_error done
  | ok reached =>
    obtain ⟨q, stop⟩ := reached
    rw [done] at failed
    unfold Except.map Except.bind finish at failed
    dsimp only at failed
    split at failed
    next rule _ =>
      obtain rfl : .inLine q.context.location (.unclosedBlock rule) = error := by
        simpa [outcome, failAt] using failed
      exact congrArg (fun l => some l.line) (location_of_step done)
    next => cases failed

/-- A read depends on the lines up to where it stops only. If it stops at a line, and the physical line that
this ends with is not continued, then every input with the same physical lines up to there, whatever bytes
stand behind them, is read with the same outcome and the same warnings; and if it fails, that line is
blamed. -/
theorem unread_lines_do_not_matter (nested : Reader ρ σ → Text → Outcome) (world : World) (r : Reader ρ σ)
    (file : Option Text) (destination : Store) {bytes bytes' : Bytes} {last : Nat}
    (stops : r.StopsAt nested world (r.begin file destination) (Lines.ofBytes bytes).complete last)
    (unmarked : ∀ t, (RawLine.texts bytes)[last - 1]? = some (some t) → t.getLast? ≠ some Lines.continuation)
    (same : (RawLine.texts bytes').take last = (RawLine.texts bytes).take last) :
    r.run nested world file destination bytes' = r.run nested world file destination bytes ∧
      ∀ error, (r.run nested world file destination bytes).result = .error error → error.line? = some last := by
  obtain ⟨before, line, after, p, lines, rfl, reached, stops⟩ := stops
  obtain ⟨after', lines'⟩ := Lines.complete_of_same lines unmarked same
  have read {b : Bytes} {behind : List Line} (lines : (Lines.ofBytes b).complete = before ++ line :: behind) :
      r.run nested world file destination b =
        outcome (((r.step nested world p line).map Prod.fst).bind finish) := by
    rw [run_eq, lines, steps_of_stops reached stops]
  refine ⟨(read lines').trans (read lines).symm, fun error failed => ?_⟩
  rw [read lines] at failed
  exact line_of_stops failed

/-- An end is accepted, and a key is declared twice: bytes that are no text do not matter behind either. -/
theorem unread_lines_do_not_matter_behind_an_end_or_a_fault :
    let world := World.empty
    let nested := fun r path => runFile world 0 r .empty path
    let r := Reader.standard
    let start := r.begin none .empty
    let ended := Text.encode (Text.ofString "a = 1\n#@end\n")
    let faulty := Text.encode (Text.ofString "a = 1\na = 2\r\n")
    let store := Store.empty.insert ['a'] ⟨.string [['1']] false, .scalar, false, []⟩
    (r.StopsAt nested world start (Lines.ofBytes ended).complete 2 ∧
      (r.run nested world none .empty (ended ++ [255])).result = .ok (store, none)) ∧
    r.StopsAt nested world start (Lines.ofBytes faulty).complete 2 ∧
      ∃ error, (r.run nested world none .empty (faulty ++ [98, 10, 255])).result = .error error ∧
        error.line? = some 2 := by
  intro world nested r start ended faulty store
  let first : Line := ⟨Text.ofString "a = 1", 1, 1⟩
  let p : Progress := ⟨{ start.context with location := ⟨none, none, 1⟩, started := true }, store, []⟩
  let q : Progress := ⟨{ p.context with location := ⟨none, none, 2⟩ }, store, []⟩
  have reached : r.Passes nested world start [first] p := .next (by decide +kernel) (.none p)
  have last {bytes : Bytes} {t : Text} (second : (RawLine.texts bytes)[1]? = some (some t))
      (unmarked : t.getLast? ≠ some Lines.continuation) :
      ∀ t, (RawLine.texts bytes)[2 - 1]? = some (some t) → t.getLast? ≠ some Lines.continuation := by
    intro t' h
    obtain rfl : t = t' := by simpa [second] using h
    exact unmarked
  refine ⟨?ended, ?faulty⟩
  case ended =>
    let line : Line := ⟨Text.ofString "#@end", 2, 2⟩
    have role : Role.ofText line.text = .directive (Text.ofString "@end") := by decide +kernel
    have applied : Directive.applyText world (p.atLine line) (Text.ofString "@end") = (q, .ok .stop) := by
      decide +kernel
    have stops : r.StopsAt nested world start (Lines.ofBytes ended).complete 2 :=
      ⟨[first], line, [], p, by decide +kernel, rfl, reached, .ended role applied⟩
    have done : (r.run nested world none .empty ended).result = .ok (store, none) := by decide +kernel
    have agree : (RawLine.texts (ended ++ [255])).take 2 = (RawLine.texts ended).take 2 := by decide +kernel
    obtain ⟨same, -⟩ := unread_lines_do_not_matter nested world r none .empty stops
      (last (t := line.text) (by decide +kernel) (by decide)) agree
    exact ⟨stops, by rw [same, done]⟩
  case faulty =>
    let line : Line := ⟨Text.ofString "a = 2", 2, 2⟩
    let fault : Fault := .collision (.alreadyUsed ['a'])
    have role : Role.ofText line.text = .declaration line.text := by decide +kernel
    have failed : r.declare (p.atLine line) line.text = (q, some fault) := by decide +kernel
    have stops : r.StopsAt nested world start (Lines.ofBytes faulty).complete 2 :=
      ⟨[first], line, [], p, by decide +kernel, rfl, reached, .declaration role failed⟩
    have done : (r.run nested world none .empty faulty).result = .error (.inLine ⟨none, none, 2⟩ fault) := by
      decide +kernel
    have agree : (RawLine.texts (faulty ++ [98, 10, 255])).take 2 = (RawLine.texts faulty).take 2 := by
      decide +kernel
    obtain ⟨same, blamed⟩ := unread_lines_do_not_matter nested world r none .empty stops
      (last (t := line.text) (by decide +kernel) (by decide)) agree
    exact ⟨stops, _, by rw [same, done], blamed _ done⟩

end Reader
end TypedProperties
