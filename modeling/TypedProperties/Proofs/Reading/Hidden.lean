import Mathlib.Data.List.Forall2
import TypedProperties.Proofs.Declaration.Comment
import TypedProperties.Proofs.Line.Segment
import TypedProperties.Proofs.Reading.Pending
import TypedProperties.Proofs.Reading.Unnumbered

/-! The body of a hidden block: a read passes over it and is left as it was, whatever its declarations
say behind their heads. -/
namespace TypedProperties

variable {ρ σ : Type} [Variants ρ] [Searches σ]

open Blocks (Open)

theorem Declaration.ofLine_assignment {units : UnitSystem} {realWithUnit : Bool} {h v : Text} {d : Declaration}
    (read : ofLine units realWithUnit (h ++ '=' :: v) = .ok d) (v' : Text) :
    ∃ values, ofLine units realWithUnit (h ++ '=' :: v') = .ok { d with values } := by
  have cut : ∃ a b b', Text.cutAt '=' (h ++ '=' :: v) = some (a, b) ∧
      Text.cutAt '=' (h ++ '=' :: v') = some (a, b') := by
    cases earlier : Text.cutAt '=' h with
    | none =>
      have absent := Text.cutAt_eq_none_iff.mp earlier
      exact ⟨h, v, v', Text.cutAt_eq_some_iff.mpr ⟨rfl, absent⟩, Text.cutAt_eq_some_iff.mpr ⟨rfl, absent⟩⟩
    | some parts => exact ⟨parts.1, _, _, Text.cutAt_append earlier _, Text.cutAt_append earlier _⟩
  obtain ⟨a, b, b', cut, cut'⟩ := cut
  unfold ofLine at read ⊢
  rw [cut] at read
  rw [cut']
  exact ⟨_, ofHead_values read _ _⟩

def Variants.Hides (variants : ρ) (rule : Text) : Prop :=
  ∃ a, Variants.resolve variants rule = .ok a ∧ a.exhibits = false

theorem Blocks.not_exhibits_of_mem {variants : ρ} {b : Blocks} {rule : Text} (mem : rule ∈ b.rules)
    (hides : Variants.Hides variants rule) : b.exhibits variants ≠ .ok true := by
  obtain ⟨a, resolved, hidden⟩ := hides
  intro shown
  have unrefused := List.find?_eq_none.mp (exhibits_eq_true.mp shown)
  have refusing : answer variants (.blockRule rule) rule = .ok false := by
    simp [answer, resolved, hidden]
  have exhibiting := unrefused (answer variants (.blockRule rule) rule)
    (List.mem_append_left _ (List.mem_map_of_mem (List.mem_reverse.mpr mem)))
  simp [refusing] at exhibiting

namespace Lines

/-- The body of a block, without its comments: declarations, and whole blocks of these. -/
inductive Body : List Text → Prop
  | none : Body []
  | declaration {line : Text} {rest : List Text} (declares : (Reader.bareLine line).isDeclaration = true)
      (behind : Body rest) : Body (line :: rest)
  | block {opening closing rule : Text} {name : Option Text} {inner rest : List Text}
      (opens : (Reader.bareLine opening).directive? = some (.variantIf rule)) (inside : Body inner)
      (closes : (Reader.bareLine closing).directive? = some (.variantEndif name)) (behind : Body rest) :
      Body (opening :: (inner ++ closing :: rest))

/-- The line `l'` may stand in place of `l`: it is the same, or both are declarations that differ behind
a `=` only. -/
def Alike (l' l : Text) : Prop :=
  l' = l ∨ (Reader.bareLine l).isDeclaration = true ∧ ∃ h v v', l = h ++ '=' :: v ∧ l' = h ++ '=' :: v'

theorem Alike.eq_of_directive {l l' : Text} {directive : Directive} (alike : Alike l' l)
    (given : (Reader.bareLine l).directive? = some directive) : l' = l := by
  rcases alike with same | ⟨declares, -⟩
  · exact same
  · obtain ⟨text, role, -⟩ := Line.directive?_eq_some.mp given
    rw [Line.isDeclaration_of_directive role] at declares
    cases declares

end Lines

namespace Reader

open Lines (Body Alike)

variable {nested : Reader ρ σ → Text → Outcome} {world : World} {r : Reader ρ σ} {p q : Progress σ}
  {rule : Text}

/-- Inside a hidden block, with no guard pending, and no line number told. -/
structure Still (variants : ρ) (p : Progress σ) : Prop where
  line : p.context.location.line = 0
  started : p.context.started = true
  unguarded : p.context.blocks.guard = none
  hidden : ∃ rule ∈ p.context.blocks.rules, Variants.Hides variants rule

def enterBlock (p : Progress σ) (rule : Text) : Progress σ :=
  p.setContext { p.context with blocks := p.context.blocks.enter rule, started := true }

namespace Still

variable {variants : ρ}

theorem atLine_eq (still : Still variants p) (l : Text) : p.atLine (bareLine l) = p :=
  congrArg (fun line => p.setContext (p.context.atLine line)) still.line.symm

theorem spend_eq (still : Still variants p) : p.setContext p.context.spend = p :=
  congrArg₂ (fun started guard => p.setContext { p.context with
    started := started, blocks := { p.context.blocks with guard := guard } })
    still.started.symm still.unguarded.symm

theorem enterBlock (still : Still variants p) (rule : Text) : Still variants (Reader.enterBlock p rule) where
  line := still.line
  started := rfl
  unguarded := still.unguarded
  hidden :=
    let ⟨rule, mem, hides⟩ := still.hidden
    ⟨rule, List.mem_cons_of_mem _ mem, hides⟩

theorem step_passed_over (still : Still r.variants p) {l text : Text} {d : Declaration}
    (role : Role.ofText l = .declaration text)
    (head : Declaration.ofLine r.units p.context.realWithUnit text = .ok d)
    (passed : p.context.blocks.exhibits r.variants = .ok false) :
    r.step nested world p (bareLine l) = .ok (p, false) := by
  have asked : (p.setContext p.context.start).context.blocks.exhibits r.variants = .ok false := passed
  have declared : r.declare p text = (p.setContext p.context.spend, none) := by
    rw [declare_eq, head]
    dsimp only
    rw [declareHead_eq, asked]
    rfl
  have role : Role.ofText (bareLine l).text = .declaration text := role
  rw [step_eq, still.atLine_eq, role]
  dsimp only
  rw [declared, still.spend_eq]
  rfl

theorem step_declaration (still : Still r.variants p) {l l' : Text} {stop : Bool}
    (declares : (bareLine l).isDeclaration = true) (alike : Alike l' l)
    (done : r.step nested world p (bareLine l) = .ok (q, stop)) :
    r.step nested world p (bareLine l') = .ok (p, false) := by
  obtain ⟨text, role⟩ : ∃ text, Role.ofText l = .declaration text := by
    unfold Line.isDeclaration at declares
    split at declares
    next text role => exact ⟨text, role⟩
    next => cases declares
  have declared : r.declare p text = (q, none) := by
    have role : Role.ofText (bareLine l).text = .declaration text := role
    rcases step_cases done with ⟨role', -⟩ | ⟨_, role', -⟩ | ⟨text', role', declared, -⟩
    · rw [role] at role'
      cases role'
    · rw [role] at role'
      cases role'
    · obtain rfl := Role.declaration.inj (role.symm.trans role')
      rwa [still.atLine_eq] at declared
  obtain ⟨d, head, ⟨passed, -⟩ | ⟨shown, -⟩⟩ := declare_cases declared
  · rcases alike with rfl | ⟨-, h, v, v', rfl, rfl⟩
    · exact still.step_passed_over role head passed
    · obtain ⟨rfl, role'⟩ := Lines.role_assignment role v'
      obtain ⟨values, head'⟩ := Declaration.ofLine_assignment head (Text.trimEnd v')
      exact still.step_passed_over role' head' passed
  · obtain ⟨rule, mem, hides⟩ := still.hidden
    exact absurd shown (Blocks.not_exhibits_of_mem mem hides)

theorem step_opening (still : Still variants p) {l : Text} {stop : Bool}
    (opens : (bareLine l).directive? = some (.variantIf rule))
    (done : r.step nested world p (bareLine l) = .ok (q, stop)) :
    r.step nested world p (bareLine l) = .ok (Reader.enterBlock p rule, false) := by
  rcases step_directive_cases opens done with ⟨does, rfl⟩ | ⟨does, -⟩ | ⟨p₁, path, does, -⟩
  · rw [still.atLine_eq] at does
    cases does
    exact done
  · cases does
  · cases does

theorem step_closing (still : Still variants p) {l : Text} {name : Option Text} {stop : Bool}
    (closes : (bareLine l).directive? = some (.variantEndif name))
    (done : r.step nested world (Reader.enterBlock p rule) (bareLine l) = .ok (q, stop)) :
    r.step nested world (Reader.enterBlock p rule) (bareLine l) = .ok (p, false) := by
  rcases step_directive_cases closes done with ⟨does, rfl⟩ | ⟨does, -⟩ | ⟨p₁, path, does, -⟩
  · rw [(still.enterBlock rule).atLine_eq] at does
    cases does with
    | variantEndif _ _ left =>
      obtain ⟨_, outer, rules, -, rfl⟩ := Blocks.leave_eq_ok left
      obtain ⟨-, rfl⟩ : _ ∧ p.context.blocks.rules = outer := List.cons.inj rules
      have back : p.setContext { p.context with started := true } = p :=
        congrArg (fun started => p.setContext { p.context with started := started }) still.started.symm
      exact done.trans (congrArg (fun p => Except.ok (p, false)) back)
  · cases does
  · cases does

end Still

theorem steps_cons_next {broken : Bool} {line : Line} {rest : List Line} {p' : Progress σ}
    (done : r.steps nested world broken p (line :: rest) = .ok q)
    (next : ∀ q₁ stop, r.step nested world p line = .ok (q₁, stop) →
      r.step nested world p line = .ok (p', false)) :
    r.step nested world p line = .ok (p', false) ∧ r.steps nested world broken p' rest = .ok q := by
  obtain ⟨q₁, stop, stepped, behind⟩ := steps_cons done
  have known := next q₁ stop stepped
  obtain ⟨rfl, stops⟩ := Prod.mk.inj (Except.ok.inj (stepped.symm.trans known))
  exact ⟨known, behind stops⟩

/-- A read passes over the body of a hidden block, and over one that is alike, and is left as it was.
By induction on the body: a block in it is hidden as well. -/
theorem passes_body {broken : Bool} {ls ls' : List Text} {rest : List Line} (inert : Body ls)
    (still : Still r.variants p) (alike : List.Forall₂ Alike ls' ls)
    (done : r.steps nested world broken p (ls.map bareLine ++ rest) = .ok q) :
    r.Passes nested world p (ls'.map bareLine) p := by
  induction inert generalizing p ls' rest with
  | none =>
    obtain rfl := List.forall₂_nil_right_iff.mp alike
    exact .none p
  | @declaration line behind declares _ ih =>
    obtain ⟨line', behind', alikeLine, alikeBehind, rfl⟩ := List.forall₂_cons_right_iff.mp alike
    obtain ⟨stepped, done⟩ := steps_cons_next done fun _ _ => still.step_declaration declares (.inl rfl)
    exact .next (still.step_declaration declares alikeLine stepped) (ih still alikeBehind done)
  | @block opening closing rule name inner behind opens _ closes _ ihInner ihBehind =>
    obtain ⟨opening', others', alikeOpening, alikeOthers, rfl⟩ := List.forall₂_cons_right_iff.mp alike
    have alikeInner := List.forall₂_take_append others' inner (closing :: behind) alikeOthers
    obtain ⟨closing', behind', alikeClosing, alikeBehind, e⟩ := List.forall₂_cons_right_iff.mp
      (List.forall₂_drop_append others' inner (closing :: behind) alikeOthers)
    obtain rfl := alikeOpening.eq_of_directive opens
    obtain rfl := alikeClosing.eq_of_directive closes
    rw [← List.take_append_drop inner.length others', e]
    simp only [List.map_cons, List.map_append, List.cons_append, List.append_assoc] at done ⊢
    obtain ⟨opened, done⟩ := steps_cons_next done fun _ _ => still.step_opening opens
    have within := still.enterBlock rule
    have passed := ihInner within (List.forall₂_same.mpr fun _ _ => .inl rfl) done
    have passed' := ihInner within alikeInner done
    rw [steps_of_passes passed] at done
    obtain ⟨closed, done⟩ := steps_cons_next done fun _ _ => still.step_closing closes
    exact .next opened (passed'.append (.next closed (ihBehind still alikeBehind done)))

theorem still_of_opening {file : Option Text} {destination : Store} {front : List Text} {opening : Text}
    {rules : List Text} (opens : (bareLine opening).directive? = some (.variantIf rule))
    (enclosed : Open rules (Line.marks (front.map bareLine)))
    (unguarded : Line.Guarded (front.map bareLine) none)
    (hidden : ∃ hides ∈ rules ++ [rule], Variants.Hides r.variants hides)
    (passed : r.Passes nested world (r.begin file destination) ((front ++ [opening]).map bareLine) p) :
    Still r.variants p := by
  rw [List.map_append] at passed
  obtain ⟨q, reached, last⟩ := passed.split
  have recalls := recalls_of_passes reached
  cases last with
  | next stepped none =>
    cases none
    rcases step_directive_cases opens stepped with ⟨does, -⟩ | ⟨does, -⟩ | ⟨p₁, path, does, -⟩
    · cases does
      refine ⟨rfl, rfl, recalls.guard.unique unguarded, ?_⟩
      obtain ⟨hides, mem, hidden⟩ := hidden
      refine ⟨hides, ?_, hidden⟩
      rw [← recalls.blocks.unique enclosed] at mem
      simpa [Blocks.enter, or_comm] using mem
    · cases does
    · cases does

end Reader

namespace Lines
open Text

/-- The body of a block is left out, or one of its declarations gets another text behind a `=`. The new
text goes on to the line feed, and a carriage return that it ends in belongs to the line end. -/
inductive Edited : Text → Text → Prop
  | deleted {body : Text} : Edited body []
  | replaced {front head values new behind line text : Text} (start : AtLineStart front)
      (whole : AtLineStart (head ++ '=' :: values ++ ['\n']))
      (one : joined none (physical (head ++ '=' :: values ++ ['\n'])) = [line])
      (declares : Role.ofText line = .declaration text) (single : '\n' ∉ new)
      (unmarked : (chomp new).getLast? ≠ some continuation) :
      Edited (front ++ (head ++ '=' :: values ++ ['\n']) ++ behind)
        (front ++ (head ++ '=' :: new ++ ['\n']) ++ behind)

theorem Edited.alike {body body' : Text} (edited : Edited body body') (ended : AtLineStart body) :
    body' = [] ∨ ∃ ls', Says body' ls' ∧ List.Forall₂ Alike ls' (significant body) := by
  cases edited with
  | deleted => exact .inl rfl
  | @replaced front head values new behind line text start whole one declares single unmarked =>
    obtain ⟨h, v, rfl, one'⟩ := joined_replaced one single unmarked
    obtain ⟨-, declares'⟩ := role_assignment declares (chomp new)
    have said : significant (head ++ '=' :: values ++ ['\n']) = [h ++ '=' :: v] := by
      rw [significant, one, List.filter_singleton, declares]
      rfl
    have said' : significant (head ++ '=' :: new ++ ['\n']) = [h ++ '=' :: chomp new] := by
      rw [significant, one', List.filter_singleton, declares']
      rfl
    have whole' : AtLineStart (head ++ '=' :: new ++ ['\n']) := by
      refine .inr ⟨_, rfl, ?_⟩
      rw [chomp_assignment]
      exact unmarked_assignment unmarked head
    have behindStart := atLineStart_of_append ended
    have old : significant (front ++ (head ++ '=' :: values ++ ['\n']) ++ behind) =
        significant front ++ [h ++ '=' :: v] ++ significant behind := by
      rw [← said]
      exact (((says_significant start).append (says_significant whole)).append
        (says_significant behindStart)).significant_eq
    refine .inr ⟨significant front ++ [h ++ '=' :: chomp new] ++ significant behind, ?_, ?_⟩
    · rw [← said']
      exact ((says_significant start).append (says_significant whole')).append (says_significant behindStart)
    · rw [old]
      have same (ls : List Text) : List.Forall₂ Alike ls ls := List.forall₂_same.mpr fun _ _ => .inl rfl
      have alike : Alike (h ++ '=' :: chomp new) (h ++ '=' :: v) :=
        .inr ⟨Line.isDeclaration_of_declaration declares, h, v, chomp new, rfl, rfl⟩
      exact List.rel_append (List.rel_append (same _) (.cons alike .nil)) (same _)

end Lines

namespace Reader

open Lines (significant Body Edited)

/-- The body of a hidden block does not matter. A block is opened, with no guard pending, where one of
the rules around it, or its own, does not exhibit; its body is made of declarations and such blocks. If
the text is accepted, so is the one without the body, and the one with another text behind a `=` of a
declaration in it, with the same store, topic and warnings, up to line numbers. -/
theorem hidden_body_is_inert (nested : Reader ρ σ → Text → Outcome) (world : World) (r : Reader ρ σ)
    (file : Option Text) (destination : Store) {before body body' after : Text} {front : List Text}
    {opening rule : Text} {rules : List Text} {store : Store} {topic : Option Text}
    (start : Text.AtLineStart before) (lines : significant before = front ++ [opening])
    (opens : (bareLine opening).directive? = some (.variantIf rule))
    (enclosed : Open rules (Line.marks (front.map bareLine)))
    (unguarded : Line.Guarded (front.map bareLine) none)
    (hidden : ∃ hides ∈ rules ++ [rule], Variants.Hides r.variants hides)
    (ended : Text.AtLineStart body) (inert : Body (significant body)) (edited : Edited body body')
    (done : (r.run nested world file destination (Text.encode (before ++ body ++ after))).result =
      .ok (store, topic)) :
    let old := r.run nested world file destination (Text.encode (before ++ body ++ after))
    let new := r.run nested world file destination (Text.encode (before ++ body' ++ after))
    new.result = .ok (store, topic) ∧
      new.warnings.map Warning.unnumbered = old.warnings.map Warning.unnumbered := by
  refine run_encode_congr (fun q stepped => ?_) done
  have first := Lines.says_significant start
  rw [List.append_assoc, first, Lines.says_significant ended, List.map_append] at stepped
  rw [List.append_assoc, first, List.map_append]
  rcases steps_append stepped with ⟨p, passed, behind⟩ | ⟨-, stopped⟩
  · rw [steps_of_passes passed]
    rw [lines] at passed
    have still := still_of_opening opens enclosed unguarded hidden passed
    rw [List.map_append] at behind
    have same := passes_body inert still (List.forall₂_same.mpr fun _ _ => .inl rfl) behind
    rcases edited.alike ended with rfl | ⟨ls', told, alike⟩
    · rwa [steps_of_passes same] at behind
    · have passed' := passes_body inert still alike behind
      rw [told, List.map_append, steps_of_passes passed', ← behind, steps_of_passes same]
  · exact stopped _

/-- A bracket is opened in a block inside of a hidden one. -/
theorem hidden_body_is_inert_with_a_block :
    let before := Text.ofString "#@variant_if r:a|false\n"
    let front := Text.ofString "a = 1\n#@variant_if r:b|true\n"
    let head := Text.ofString "b "
    let behind := Text.ofString "#@variant_endif\n"
    let body := front ++ (head ++ '=' :: Text.ofString " 2" ++ ['\n']) ++ behind
    let body' := front ++ (head ++ '=' :: Text.ofString " [" ++ ['\n']) ++ behind
    let after := Text.ofString "#@variant_endif\nc = 3\n"
    let nested : Reader → Text → Outcome := fun _ _ => ⟨[], .error (.access [] .notFound)⟩
    let run := fun t => Reader.standard.run nested World.empty none .empty (Text.encode t)
    let store := Store.empty.insert ['c'] ⟨.string [['3']] false, .scalar, false, []⟩
    Edited body body' ∧ (run (before ++ body ++ after)).result = .ok (store, none) ∧
      (run (before ++ body' ++ after)).result = .ok (store, none) := by
  intro before front head behind body body' after nested run store
  let opening := Text.ofString "#@variant_if r:a|false"
  let rule := Text.ofString "r:a|false"
  have start : Text.AtLineStart before := .inr ⟨opening, rfl, by decide⟩
  have ended : Text.AtLineStart body :=
    .inr ⟨front ++ (head ++ '=' :: Text.ofString " 2" ++ ['\n']) ++ Text.ofString "#@variant_endif",
      by decide, by decide⟩
  have lines : significant before = [] ++ [opening] := by decide +kernel
  have opens : (bareLine opening).directive? = some (.variantIf rule) := by decide +kernel
  have within : significant body = [Text.ofString "a = 1", Text.ofString "#@variant_if r:b|true",
      Text.ofString "b = 2", Text.ofString "#@variant_endif"] := by decide +kernel
  have inert : Body (significant body) := by
    rw [within]
    have opens : (bareLine (Text.ofString "#@variant_if r:b|true")).directive? =
        some (.variantIf (Text.ofString "r:b|true")) := by decide +kernel
    have closes : (bareLine (Text.ofString "#@variant_endif")).directive? = some (.variantEndif none) := by
      decide +kernel
    exact .declaration (by decide +kernel)
      (.block opens (.declaration (by decide +kernel) .none) closes .none)
  have edited : Edited body body' :=
    .replaced (.inr ⟨Text.ofString "a = 1\n#@variant_if r:b|true", by decide, by decide⟩)
      (.inr ⟨_, rfl, by decide⟩) (by decide +kernel : _ = [Text.ofString "b = 2"])
      (by decide +kernel : _ = Role.declaration (Text.ofString "b = 2")) (by decide) (by decide)
  have hides : Variants.Hides Reader.standard.variants rule := ⟨⟨false, false⟩, by decide +kernel, by decide⟩
  have done : (run (before ++ body ++ after)).result = .ok (store, none) := by decide +kernel
  exact ⟨edited, done, (hidden_body_is_inert nested World.empty Reader.standard none .empty start lines
    opens (.none .none) .start ⟨rule, by simp, hides⟩ ended inert edited done).1⟩

/-- A text that ends in a carriage return takes part in the line end: the mark in front of it continues
the declaration into the closing directive. -/
theorem hidden_body_swallows_its_end :
    let before := Text.ofString "#@variant_if r:a|false\n"
    let after := Text.ofString "#@variant_endif\n"
    let new : Text := ['\\', '\r']
    let run := fun t => (Reader.standard.read World.empty (Text.encode t)).result
    ('\n' ∉ new ∧ new.getLast? ≠ some Lines.continuation) ∧
      run (before ++ Text.ofString "a = 1\n" ++ after) = .ok (.empty, none) ∧
      run (before ++ (Text.ofString "a =" ++ new ++ ['\n']) ++ after) =
        .error (.inLine ⟨none, none, 3⟩ (.unclosedBlock (Text.ofString "r:a|false"))) := by
  decide +kernel

end Reader
end TypedProperties
