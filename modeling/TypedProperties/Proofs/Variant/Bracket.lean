import TypedProperties.Variant.Blocks
import TypedProperties.Proofs.Text.Cut

/-! Well-bracketed sequences of opening and closing block directives, and the rules that such a
sequence leaves open. -/
namespace TypedProperties
namespace Blocks

inductive Mark where
  | opening (rule : Text)
  | closing (name : Option Text)
  deriving DecidableEq, Repr

/-- A closing directive may name any block that it closes, or has to name its rule less the fallback. -/
def Closes (rule : Text) (name : Option Text) : Prop :=
  ∀ given ∈ name, Text.trim given = Text.trim (rule.takeWhile (· ≠ '|'))

instance (rule : Text) (name : Option Text) : Decidable (Closes rule name) :=
  Option.decidableForallMem name

/-- Every closing directive closes the last block that is open in front of it, and none is left
open. -/
inductive Balanced : List Mark → Prop
  | none : Balanced []
  | block {rule : Text} {name : Option Text} {inner after : List Mark} (closes : Closes rule name)
      (inside : Balanced inner) (behind : Balanced after) :
      Balanced (.opening rule :: inner ++ .closing name :: after)

/-- The rules of the blocks that a sequence leaves open, the outermost first. -/
inductive Open : List Text → List Mark → Prop
  | none {marks : List Mark} (balanced : Balanced marks) : Open [] marks
  | block {rule : Text} {rules : List Text} {front inner : List Mark} (before : Balanced front)
      (inside : Open rules inner) : Open (rule :: rules) (front ++ .opening rule :: inner)

theorem Balanced.append {front after : List Mark} (first : Balanced front) (second : Balanced after) :
    Balanced (front ++ after) := by
  induction first with
  | none => exact second
  | block closes inside _ _ ih =>
    rw [List.append_assoc, List.cons_append]
    exact .block closes inside ih

namespace Open

variable {rule : Text} {rules : List Text} {marks : List Mark}

theorem balanced (h : Open [] marks) : Balanced marks := by
  cases h with
  | none balanced => exact balanced

theorem enter (h : Open rules marks) (rule : Text) : Open (rules ++ [rule]) (marks ++ [.opening rule]) := by
  induction h with
  | none balanced => exact .block balanced (.none .none)
  | block before _ ih =>
    rw [List.append_assoc, List.cons_append]
    exact .block before ih

theorem leave {name : Option Text} (h : Open (rules ++ [rule]) marks) (closes : Closes rule name) :
    Open rules (marks ++ [.closing name]) := by
  induction rules generalizing marks with
  | nil =>
    cases h with
    | block before inside =>
      rw [List.append_assoc]
      exact .none (before.append (.block closes inside.balanced .none))
  | cons outer rules ih =>
    cases h with
    | block before inside =>
      rw [List.append_assoc, List.cons_append]
      exact .block before (ih inside)

end Open

/-! The stack of open rules while a sequence is read, the innermost first. -/

/-- The open rules behind a sequence, if every closing directive in it closes a block. -/
def follow : List Text → List Mark → Option (List Text)
  | rules, [] => some rules
  | rules, .opening rule :: rest => follow (rule :: rules) rest
  | [], .closing _ :: _ => none
  | rule :: rules, .closing name :: rest => if Closes rule name then follow rules rest else none

theorem follow_balanced {marks : List Mark} (h : Balanced marks) (rules : List Text) (rest : List Mark) :
    follow rules (marks ++ rest) = follow rules rest := by
  induction h generalizing rules rest with
  | none => rfl
  | @block rule name inner after closes _ _ first second =>
    calc follow rules (.opening rule :: inner ++ .closing name :: after ++ rest)
        = follow (rule :: rules) (inner ++ .closing name :: (after ++ rest)) := by
          rw [List.append_assoc]
          rfl
      _ = follow (rule :: rules) (.closing name :: (after ++ rest)) := first _ _
      _ = follow rules (after ++ rest) := by rw [follow, if_pos closes]
      _ = follow rules rest := second _ _

theorem follow_open {rules : List Text} {marks : List Mark} (h : Open rules marks) (outer : List Text)
    (rest : List Mark) : follow outer (marks ++ rest) = follow (rules.reverse ++ outer) rest := by
  induction h generalizing outer with
  | none balanced => exact follow_balanced balanced outer rest
  | @block rule rules front inner before _ ih =>
    calc follow outer (front ++ .opening rule :: inner ++ rest)
        = follow (rule :: outer) (inner ++ rest) := by
          rw [List.append_assoc, follow_balanced before]
          rfl
      _ = follow ((rule :: rules).reverse ++ outer) rest := by
          rw [ih, List.reverse_cons, List.append_assoc]
          rfl

namespace Open

variable {rules rules' : List Text} {marks : List Mark}

theorem unique (h : Open rules marks) (h' : Open rules' marks) : rules = rules' := by
  have same := (follow_open h [] []).symm.trans (follow_open h' [] [])
  simpa [follow] using same

/-- A closing directive that does not close the innermost block spoils the sequence for good. -/
theorem not_balanced_closing {name : Option Text} (h : Open rules marks)
    (wrong : ∀ rule ∈ rules.getLast?, ¬ Closes rule name) (more : List Mark) :
    ¬ Balanced (marks ++ .closing name :: more) := by
  intro balanced
  have followed := follow_balanced balanced [] []
  rw [List.append_assoc, follow_open h, List.append_nil] at followed
  cases innermost : rules.reverse with
  | nil => simp [innermost, follow] at followed
  | cons rule outer =>
    have last : rule ∈ rules.getLast? := by simp [← List.head?_reverse, innermost]
    simp [innermost, follow, wrong rule last] at followed

theorem not_balanced (h : Open rules marks) (left : rules ≠ []) : ¬ Balanced marks := fun balanced =>
  left (h.unique (.none balanced))

end Open

/-! The stack of the reader. -/

theorem closingName_eq (rule : Text) : closingName rule = Text.trim (rule.takeWhile (· ≠ '|')) := by
  have front (name rest : Text) (bare : '|' ∉ name) (stop : ∀ c ∈ rest.head?, c = '|') :
      (name ++ rest).takeWhile (· ≠ '|') = name :=
    (Text.span_run (fun c hc => by simpa using fun same : c = '|' => bare (same ▸ hc))
      (fun c hc => by simp [stop c hc])).1
  unfold closingName
  cases cut : Text.cutAt '|' rule with
  | none =>
    have whole := front rule [] (Text.cutAt_eq_none_iff.mp cut) nofun
    rw [List.append_nil] at whole
    rw [whole]
  | some parts =>
    obtain ⟨rfl, bare⟩ := Text.cutAt_eq_some_iff.mp cut
    rw [front parts.1 ('|' :: parts.2) bare (by simp)]

theorem closes_some {rule given : Text} :
    Closes rule (some given) ↔ closingName rule = Text.trim given := by
  rw [closingName_eq]
  simp [Closes, eq_comm]

variable {b b' : Blocks} {name : Option Text} {fault : BlockFault}

theorem leave_eq_ok (h : b.leave name = .ok b') :
    ∃ rule outer, b.rules = rule :: outer ∧ Closes rule name ∧ b' = { b with rules := outer } := by
  unfold leave at h
  split at h
  next => cases h
  next rule outer rules =>
    split at h
    next =>
      obtain rfl := Except.ok.inj h
      exact ⟨rule, outer, rules, nofun, rfl⟩
    next given =>
      split_ifs at h with closes
      obtain rfl := Except.ok.inj h
      exact ⟨rule, outer, rules, closes_some.mpr closes, rfl⟩

theorem leave_eq_error (h : b.leave name = .error fault) : ∀ rule ∈ b.rules.head?, ¬ Closes rule name := by
  unfold leave at h
  split at h
  next rules => simp [rules]
  next rule outer rules =>
    split at h
    next => cases h
    next given =>
      split_ifs at h with closes
      simpa [rules, closes_some] using closes

end Blocks
end TypedProperties
