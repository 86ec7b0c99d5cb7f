import TypedProperties.Proofs.Reading.Bracketed
import TypedProperties.Proofs.Reading.Agree
import TypedProperties.Proofs.Reading.Unnumbered

/-! Includes inside of blocks: blocks do not guard them, and they bring what they bring anywhere else. -/
namespace TypedProperties

variable {ρ σ : Type} [Variants ρ] [Searches σ]

open Blocks (Open)

namespace Directive

variable {world : World} {p q : Progress σ} {directive : Directive} {e : Effect}

theorem Does.location (does : Does world p directive q e) : q.context.location = p.context.location := by
  cases does <;> rfl

theorem Does.started (does : Does world p directive q e)
    (begun : p.context.blocks.rules ≠ [] → p.context.started = true) (inside : q.context.blocks.rules ≠ []) :
    q.context.started = true := by
  cases does with
  | variantEndif _ _ left =>
    obtain ⟨rule, outer, rules, -, -⟩ := Blocks.leave_eq_ok left
    exact begun (by simp [rules])
  | description => rfl
  | variantIf => rfl
  | variantOnly => rfl
  | includeFile => rfl
  | includeSkipped => rfl
  | _ => exact begun inside

end Directive

namespace Reader

variable {nested : Reader ρ σ → Text → Outcome} {world : World} {r : Reader ρ σ} {p q : Progress σ}
  {line : Line}

theorem location_of_step {stop : Bool} (done : r.step nested world p line = .ok (q, stop)) :
    q.context.location = { p.context.location with line := line.last } :=
  step_context (P := fun c => c.location = { p.context.location with line := line.last }) rfl
    (fun does => does.location) rfl rfl done

theorem started_of_step {stop : Bool} (begun : p.context.blocks.rules ≠ [] → p.context.started = true)
    (done : r.step nested world p line = .ok (q, stop)) :
    q.context.blocks.rules ≠ [] → q.context.started = true :=
  step_context (P := fun c => c.blocks.rules ≠ [] → c.started = true) begun (fun does => does.started begun)
    (fun _ => rfl) (fun _ => rfl) done

theorem started_of_passes {file : Option Text} {destination : Store} {before : List Line} {rules : List Text}
    (passed : r.Passes nested world (r.begin file destination) before p)
    (enclosed : Open rules (Line.marks before)) (inside : rules ≠ []) : p.context.started = true := by
  have begun : p.context.blocks.rules ≠ [] → p.context.started = true :=
    Passes.history (P := fun _ p => p.context.blocks.rules ≠ [] → p.context.started = true)
      (fun inside => absurd rfl inside) (fun _ h done => started_of_step h done) passed
  refine begun fun none => inside ?_
  rw [← (open_of_passes passed).unique enclosed, none]
  rfl

theorem line_of_passes {file : Option Text} {destination : Store} {ls : List Text}
    (passed : r.Passes nested world (r.begin file destination) (ls.map bareLine) p) :
    p.context.location.line = 0 := by
  refine Passes.history (P := fun before p => (∀ line ∈ before, line.last = 0) → p.context.location.line = 0)
    (fun _ => rfl) (fun _ _ done bare => ?_) passed ?_
  · rw [location_of_step done]
    exact bare _ (by simp)
  · simp [bareLine]

/-- What an include adds to the store: that of its file, or nothing, if it is optional and not found. -/
inductive Brings (nested : Reader ρ σ → Text → Outcome) (world : World) (r : Reader ρ σ) (c : Context σ)
    (path : Text) (optional : Bool) : Store → Prop
  | read {found : Text} {store : Store} {topic : Option Text} (resolved : Searches.resolve world c.search path = .ok found)
      (done : (nested (r.forIncluded c) found).result = .ok (store, topic)) :
      Brings nested world r c path optional store
  | skipped {fault : IncludeFault} (spare : optional = true)
      (missing : Searches.resolve world c.search path = .error fault) : Brings nested world r c path optional .empty

variable {path : Text} {optional : Bool} {brought : Store}

theorem Brings.atLine {c c' : Context σ} (same : c.atLine 0 = c'.atLine 0)
    (h : r.Brings nested world c path optional brought) : r.Brings nested world c' path optional brought := by
  have search : (c.atLine 0).search = (c'.atLine 0).search := by rw [same]
  have search : c.search = c'.search := search
  have reader : r.forIncluded (c.atLine 0) = r.forIncluded (c'.atLine 0) := by rw [same]
  have reader : r.forIncluded c = r.forIncluded c' := reader
  cases h with
  | read resolved done => exact .read (search ▸ resolved) (reader ▸ done)
  | skipped spare missing => exact .skipped spare (search ▸ missing)

/-- An include that does not fail takes in what it brings, and nothing else becomes of the read. -/
theorem brings_of_step {stop : Bool} (includes : line.directive? = some (.includeFile path optional))
    (done : r.step nested world p line = .ok (q, stop)) :
    stop = false ∧ q.context = (p.atLine line).context.start ∧ ∃ brought,
      r.Brings nested world p.context path optional brought ∧
      p.store.merge brought p.context.includesOverride = (q.store, none) := by
  rcases step_directive_cases includes done with ⟨does, rfl⟩ | ⟨does, -⟩ | ⟨p₁, found, does, taken, rfl⟩
  · cases does with
    | includeSkipped _ missing => exact ⟨rfl, rfl, .empty, .skipped rfl missing, rfl⟩
  · cases does
  · cases does with
    | includeFile _ resolved =>
      obtain ⟨store, topic, read, merged, context, -⟩ := includeFile_cases taken
      exact ⟨rfl, context, store, .read resolved read, merged⟩

theorem agree_of_step {text : Text} {stop : Bool}
    (includes : (bareLine text).directive? = some (.includeFile path optional))
    (bare : p.context.location.line = 0) (started : p.context.started = true)
    (nothing : ∀ brought, r.Brings nested world p.context path optional brought → brought.entries = [])
    (done : r.step nested world p (bareLine text) = .ok (q, stop)) : stop = false ∧ q.Agree p := by
  obtain ⟨stops, context, brought, brings, merged⟩ := brings_of_step includes done
  refine ⟨stops, ?_, ?_⟩
  · rw [context]
    exact congrArg₂ (fun line started => { p.context.atLine line with started := started }) bare.symm started.symm
  · rw [Store.merge_of_entries_eq_nil (nothing brought brings)] at merged
    exact (Prod.mk.inj merged).1.symm

/-- Blocks do not guard includes. Where a line in a block includes a file, be the block exhibited or
not, a read that gets to it takes in what the include brings, key by key in front of what is there; and
the text without the line is read to the same store and topic if the line is not reached, or what it
brings has no entries. -/
theorem includes_are_not_guarded (nested : Reader ρ σ → Text → Outcome) (world : World) (r : Reader ρ σ)
    (file : Option Text) (destination : Store) {before line after : Text} {front rest : List Line}
    {own : Line} {path : Text} {optional : Bool} {rules : List Text} {store : Store} {topic : Option Text}
    (start : Text.AtLineStart before) (whole : Text.AtLineStart line)
    (single : Lines.significant line = [own.text])
    (lines : (Lines.ofBytes (Text.encode (before ++ line ++ after))).complete = front ++ own :: rest)
    (here : (front.map Line.text).filter (fun l => Role.ofText l ≠ .comment) = Lines.significant before)
    (includes : own.directive? = some (.includeFile path optional))
    (enclosed : Open rules (Line.marks front)) (inside : rules ≠ [])
    (done : (r.run nested world file destination (Text.encode (before ++ line ++ after))).result =
      .ok (store, topic)) :
    (∀ p, r.Passes nested world (r.begin file destination) front p → ∃ brought q,
      r.Brings nested world p.context path optional brought ∧
      r.step nested world p own = .ok (q, false) ∧ q.store.description = p.store.description ∧
      ∀ key, q.store.get? key = (brought.get? key).or (p.store.get? key)) ∧
    ((∀ p brought, r.Passes nested world (r.begin file destination) front p →
        r.Brings nested world p.context path optional brought → brought.entries = []) →
      (r.run nested world file destination (Text.encode (before ++ after))).result = .ok (store, topic)) := by
  refine ⟨fun p reached => ?_, fun nothing => ?_⟩
  · obtain ⟨p', stepped, -⟩ := run_of_passes lines reached done
    obtain ⟨q, stop, stepped, -⟩ := steps_cons stepped
    obtain ⟨rfl, -, brought, brings, merged⟩ := brings_of_step includes stepped
    exact ⟨brought, q, brings, stepped, Store.description_of_mergeEntries merged, Store.get?_of_merge merged⟩
  · obtain ⟨q, stepped, closed, rfl, rfl⟩ := result_encode_eq_ok.mp done
    have first := Lines.says_significant start
    rw [List.append_assoc, first, Lines.says_significant whole, single, List.map_append] at stepped
    refine result_encode_eq_ok.mpr ?_
    rw [first, List.map_append]
    rcases steps_append stepped with ⟨p, passed, behind⟩ | ⟨-, stopped⟩
    · obtain ⟨q₁, stop, stepped, behind⟩ := steps_cons behind
      have bare := line_of_passes passed
      -- The read with numbers has got to the same point, where the include brings the same.
      have passed' := passed
      rw [← here] at passed'
      obtain ⟨p', reached, same⟩ := passed'.numbered rfl
      have same : p.context.atLine 0 = p'.context.atLine 0 := (Progress.mk.inj same).1
      have started : (p.context.atLine 0).started = true := by
        rw [same]
        exact started_of_passes reached enclosed inside
      obtain ⟨rfl, unchanged⟩ := agree_of_step includes bare started
        (fun brought brings => nothing p' brought reached (brings.atLine same)) stepped
      obtain ⟨q', stepped, agree⟩ := steps_agree (behind rfl) unchanged
      refine ⟨q', ?_, agree.context ▸ closed, agree.store.symm, by rw [agree.context]⟩
      rw [steps_of_passes passed]
      exact stepped
    · exact ⟨q, stopped _, closed, rfl, rfl⟩

/-- In a hidden block, a file is included that holds a comment only. -/
theorem includes_are_not_guarded_but_bring_nothing :
    let before := Text.ofString "#@variant_if r:a|false\n"
    let line := Text.ofString "#@include i\n"
    let after := Text.ofString "#@variant_endif\nb = 2\n"
    let world : World := ⟨⟨[([['i']], .file (Text.encode (Text.ofString "# x = 1\n")))], [], []⟩, []⟩
    let nested := fun r path => runFile world 1 r .empty path
    let r := Reader.standard
    let store := Store.empty.insert ['b'] ⟨.string [['2']] false, .scalar, false, []⟩
    let p : Progress := ⟨{ (r.begin none .empty).context with
      location := ⟨none, none, 1⟩, started := true, blocks := ⟨[Text.ofString "r:a|false"], none⟩ }, .empty, []⟩
    let own : Line := ⟨Text.ofString "#@include i", 2, 2⟩
    (∃ brought q, r.Brings nested world p.context ['i'] false brought ∧
      r.step nested world p own = .ok (q, false) ∧ ∀ key, q.store.get? key = (brought.get? key).or none) ∧
    (r.run nested world none .empty (Text.encode (before ++ line ++ after))).result = .ok (store, none) ∧
    (r.run nested world none .empty (Text.encode (before ++ after))).result = .ok (store, none) := by
  intro before line after world nested r store p own
  let opening : Line := ⟨Text.ofString "#@variant_if r:a|false", 1, 1⟩
  let rest : List Line := [⟨Text.ofString "#@variant_endif", 3, 3⟩, ⟨Text.ofString "b = 2", 4, 4⟩]
  have start : Text.AtLineStart before := .inr ⟨opening.text, rfl, by decide⟩
  have whole : Text.AtLineStart line := .inr ⟨own.text, rfl, by decide⟩
  have lines : (Lines.ofBytes (Text.encode (before ++ line ++ after))).complete = [opening] ++ own :: rest := by
    decide +kernel
  have includes : own.directive? = some (.includeFile ['i'] false) := by decide +kernel
  have marks : Line.marks [opening] = [] ++ .opening (Text.ofString "r:a|false") :: [] := by decide +kernel
  have enclosed : Open [Text.ofString "r:a|false"] (Line.marks [opening]) := by
    rw [marks]
    exact .block .none (.none .none)
  have done : (r.run nested world none .empty (Text.encode (before ++ line ++ after))).result =
      .ok (store, none) := by decide +kernel
  have reached : r.Passes nested world (r.begin none .empty) [opening] p := .next (by decide +kernel) (.none p)
  obtain ⟨taken, left_out⟩ := includes_are_not_guarded nested world r none .empty start whole
    (by decide +kernel) lines (by decide +kernel) includes enclosed (by simp) done
  refine ⟨?_, done, left_out fun p' brought reached' brings => ?_⟩
  · obtain ⟨brought, q, brings, stepped, -, merged⟩ := taken p reached
    exact ⟨brought, q, brings, stepped, merged⟩
  · obtain rfl := reached.unique reached'
    cases brings with
    | read resolved read =>
      have found : Searches.resolve world p.context.search ['i'] = .ok (Text.ofString "./i") := by decide +kernel
      obtain rfl := Except.ok.inj (found.symm.trans resolved)
      have empty : (nested (r.forIncluded p.context) (Text.ofString "./i")).result = .ok (.empty, none) := by
        decide +kernel
      obtain ⟨rfl, -⟩ := Prod.mk.inj (Except.ok.inj (empty.symm.trans read))
      rfl
    | skipped spare => cases spare

/-- What a file in a hidden block brings is there, and not without the line that includes it. -/
theorem hidden_include_brings_an_entry :
    let before := Text.ofString "#@variant_if r:a|false\n"
    let line := Text.ofString "#@include i\n"
    let after := Text.ofString "#@variant_endif\n"
    let world : World := ⟨⟨[([['i']], .file (Text.encode (Text.ofString "x = 1\n")))], [], []⟩, []⟩
    let run := fun t => (Reader.standard.read world (Text.encode t)).result
    Reader.standard.variants.resolve (Text.ofString "r:a|false") = .ok ⟨false, false⟩ ∧
      run (before ++ line ++ after) =
        .ok (Store.empty.insert ['x'] ⟨.string [['1']] false, .scalar, false, []⟩, none) ∧
      run (before ++ after) = .ok (.empty, none) := by
  decide +kernel

end Reader
end TypedProperties
