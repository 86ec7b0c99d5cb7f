import Mathlib.Data.List.TakeWhile
import TypedProperties.Proofs.Token.Head
import TypedProperties.Proofs.Token.Quoted

/-! The spans of the lexemes of a source: they lie apart and in order, and nothing but blanks lies outside. -/
namespace TypedProperties

namespace Text

theorem byteLength_pos {t : Text} (some : t ≠ []) : 0 < byteLength t := by
  cases t with
  | nil => exact absurd rfl some
  | cons c t =>
    have := c.utf8Size_pos
    rw [byteLength]
    omega

theorem split_append {s t before after : Text} {c : Char} (split : s ++ t = before ++ c :: after) :
    (∃ inside, s = before ++ c :: inside ∧ after = inside ++ t) ∨
      ∃ further, before = s ++ further ∧ t = further ++ c :: after := by
  rcases List.append_eq_append_iff.mp split with ⟨further, rfl, behind⟩ | ⟨piece, rfl, more⟩
  · exact .inr ⟨further, rfl, behind⟩
  · cases piece with
    | nil => exact .inr ⟨[], by simp, more.symm⟩
    | cons d inside =>
      obtain ⟨rfl, rfl⟩ := List.cons.inj more
      exact .inl ⟨inside, rfl, rfl⟩

end Text

namespace Lexeme

variable {τ : Type} {Reads : τ → Text → Text → Prop} {source before after raw rest : Text} {token : τ}
  {l : Lexeme τ} {ls : List (Lexeme τ)}

/-- The lexeme has its characters between two parts of the source. -/
structure Between (l : Lexeme τ) (before after source : Text) : Prop where
  source_eq : source = before ++ (l.raw ++ after)
  onward_eq : l.onward = l.raw ++ after

theorem Between.behind (between : l.Between before after source) (front : Text) :
    l.Between (front ++ before) after (front ++ source) :=
  ⟨by rw [between.source_eq, List.append_assoc], between.onward_eq⟩

theorem Between.unique {before' after' : Text} (h : l.Between before after source)
    (h' : l.Between before' after' source) : before = before' ∧ after = after' := by
  have same : after = after' := List.append_cancel_left (h.onward_eq.symm.trans h'.onward_eq)
  subst same
  exact ⟨List.append_cancel_right (h.source_eq.symm.trans h'.source_eq), rfl⟩

theorem Between.span_eq (between : l.Between before after source) :
    l.span source = (Text.byteLength before, Text.byteLength (before ++ l.raw)) := by
  simp only [span, between.source_eq, between.onward_eq, Text.byteLength_append, Nat.add_sub_cancel]

/-- The lexeme reaches over the character that some text stands in front of. -/
def Reaches (l : Lexeme τ) (source before : Text) : Prop :=
  (l.span source).1 ≤ Text.byteLength before ∧ Text.byteLength before < (l.span source).2

/-- Lexemes one behind the other in a source, each one read where it stands, and nothing but blanks in front of
each and behind the last. -/
inductive Tiled (Reads : τ → Text → Text → Prop) : Text → List (Lexeme τ) → Prop
  | blank {gap : Text} (blank : ∀ c ∈ gap, isGap c = true) : Tiled Reads gap []
  | next {gap raw rest : Text} {token : τ} {ls : List (Lexeme τ)} (blank : ∀ c ∈ gap, isGap c = true)
      (some : raw ≠ []) (reads : Reads token raw rest) (behind : Tiled Reads rest ls) :
      Tiled Reads (gap ++ (raw ++ rest)) (⟨token, raw, raw ++ rest⟩ :: ls)

namespace Tiled

theorem gap {c : Char} (blank : isGap c = true) (tiled : Tiled Reads source ls) : Tiled Reads (c :: source) ls := by
  cases tiled with
  | blank blanks => exact .blank (List.forall_mem_cons.mpr ⟨blank, blanks⟩)
  | @next gap _ _ _ _ blanks some reads behind =>
    have blanks : ∀ d ∈ c :: gap, isGap d = true := List.forall_mem_cons.mpr ⟨blank, blanks⟩
    have tiled := Tiled.next blanks some reads behind
    exact tiled

theorem first (some : raw ≠ []) (reads : Reads token raw rest) (behind : Tiled Reads rest ls) :
    Tiled Reads (raw ++ rest) (⟨token, raw, raw ++ rest⟩ :: ls) := by
  have tiled := Tiled.next (List.forall_mem_nil fun c => isGap c = true) some reads behind
  exact tiled

theorem exists_between (tiled : Tiled Reads source ls) (mem : l ∈ ls) :
    ∃ before after, l.Between before after source ∧ l.raw ≠ [] ∧ Reads l.token l.raw after := by
  induction tiled with
  | blank => cases mem
  | @next gap raw rest token ls _ some reads _ ih =>
    rcases List.mem_cons.mp mem with rfl | mem
    · exact ⟨gap, rest, ⟨rfl, rfl⟩, some, reads⟩
    · obtain ⟨before, after, between, found⟩ := ih mem
      refine ⟨gap ++ (raw ++ before), after, ?_, found⟩
      simpa only [List.append_assoc] using between.behind (gap ++ raw)

theorem reads_of_between (tiled : Tiled Reads source ls) (mem : l ∈ ls) (between : l.Between before after source) :
    Reads l.token l.raw after := by
  obtain ⟨_, _, found, -, reads⟩ := tiled.exists_between mem
  obtain ⟨rfl, rfl⟩ := between.unique found
  exact reads

theorem span_append (tiled : Tiled Reads source ls) (mem : l ∈ ls) (front : Text) :
    l.span (front ++ source) =
      (Text.byteLength front + (l.span source).1, Text.byteLength front + (l.span source).2) := by
  obtain ⟨before, after, between, -⟩ := tiled.exists_between mem
  rw [between.span_eq, (between.behind front).span_eq]
  simp only [Text.byteLength_append, Nat.add_assoc]

theorem apart (tiled : Tiled Reads source ls) :
    ls.Pairwise fun l m => (l.span source).2 ≤ (m.span source).1 := by
  induction tiled with
  | blank => exact .nil
  | @next gap raw rest token ls _ some reads behind ih =>
    have here : Between ⟨token, raw, raw ++ rest⟩ gap rest (gap ++ (raw ++ rest)) := ⟨rfl, rfl⟩
    rw [← List.append_assoc] at here ⊢
    refine .cons (fun m mem => ?_) (ih.imp_of_mem fun {l m} meml memm before => ?_)
    · rw [here.span_eq, behind.span_append mem]
      exact Nat.le_add_right _ _
    · rw [behind.span_append meml, behind.span_append memm]
      exact Nat.add_le_add_left before _

theorem covered (tiled : Tiled Reads source ls) {c : Char} (split : source = before ++ c :: after) :
    isGap c = true ∨ ∃ l ∈ ls, l.Reaches source before := by
  induction tiled generalizing before with
  | blank blank => exact .inl (blank c (by simp [split]))
  | @next gap raw rest token ls blank some reads behind ih =>
    rcases Text.split_append split with ⟨inside, rfl, -⟩ | ⟨front, rfl, behind_gap⟩
    · exact .inl (blank c (by simp))
    · rcases Text.split_append behind_gap with ⟨inside, rfl, -⟩ | ⟨before, rfl, behind_raw⟩
      · have here : Between ⟨token, front ++ c :: inside, front ++ c :: inside ++ rest⟩ gap rest
            (gap ++ (front ++ c :: inside ++ rest)) := ⟨rfl, rfl⟩
        have reached : 0 < Text.byteLength (c :: inside) := Text.byteLength_pos (by simp)
        refine .inr ⟨_, List.mem_cons_self, ?_⟩
        rw [Reaches, here.span_eq]
        simp only [Text.byteLength_append]
        omega
      · refine (ih behind_raw).imp_right fun ⟨m, mem, first, last⟩ => ⟨m, List.mem_cons_of_mem _ mem, ?_⟩
        rw [Reaches, ← List.append_assoc, ← List.append_assoc, behind.span_append mem,
          Text.byteLength_append (gap ++ raw)]
        exact ⟨Nat.add_le_add_left first _, Nat.add_lt_add_left last _⟩

end Tiled

/-- Spans that cover a source: each is that of some characters and so begins and ends between characters, they
are in order and lie apart, and every character outside is blank. -/
structure Cover (source : Text) (ls : List (Lexeme τ)) : Prop where
  some : ∀ l ∈ ls, (l.span source).1 < (l.span source).2
  slice : ∀ l ∈ ls, ∃ before after, l.Between before after source ∧
    l.span source = (Text.byteLength before, Text.byteLength (before ++ l.raw))
  apart : ls.Pairwise fun l m => (l.span source).2 ≤ (m.span source).1
  blank : ∀ before c after, source = before ++ c :: after → (∀ l ∈ ls, ¬ l.Reaches source before) → isGap c = true

theorem Tiled.cover (tiled : Tiled Reads source ls) : Cover source ls where
  some l mem := by
    obtain ⟨before, after, between, some, -⟩ := tiled.exists_between mem
    have := Text.byteLength_pos some
    rw [between.span_eq, Text.byteLength_append]
    omega
  slice l mem := by
    obtain ⟨before, after, between, -⟩ := tiled.exists_between mem
    exact ⟨before, after, between, between.span_eq⟩
  apart := tiled.apart
  blank before c after split outside :=
    (tiled.covered split).resolve_right fun ⟨l, mem, reaches⟩ => outside l mem reaches

end Lexeme

open Lexeme (Tiled Cover)

namespace HeadToken

/-- What is read as a token of a head: its characters, and what follows them. -/
inductive Reads : HeadToken → Text → Text → Prop
  | mark {c : Char} {mark : HeadToken} {after : Text} (mark? : mark? c = some mark) : Reads mark [c] after
  | word {raw after : Text} (solid : ∀ c ∈ raw, isWordChar c = true)
      (stop : ∀ c ∈ after.head?, isWordChar c = false) : Reads (.word raw) raw after

theorem text_of_mark? {c : Char} {mark : HeadToken} (h : mark? c = some mark) :
    mark.text = [c] ∧ isGap c = false ∧ isWordChar c = false := by
  unfold mark? at h
  split at h <;> cases h <;> decide

theorem solid_of_reads {token : HeadToken} {raw after : Text} (reads : Reads token raw after) :
    token.text = raw ∧ ∀ c ∈ raw, isGap c = false := by
  cases reads with
  | mark mark =>
    obtain ⟨text, solid, -⟩ := text_of_mark? mark
    exact ⟨text, by simpa using solid⟩
  | word solid =>
    refine ⟨rfl, fun c mem => ?_⟩
    have := solid c mem
    simp only [isWordChar, Bool.and_eq_true, Bool.not_eq_true'] at this
    exact this.1.1.1

theorem word_of_reads {word raw after : Text} (reads : Reads (.word word) raw after) :
    raw = word ∧ (∀ c ∈ word, isWordChar c = true) ∧ ∀ c ∈ after.head?, isWordChar c = false := by
  cases reads with
  | @mark c _ _ mark =>
    unfold mark? at mark
    split at mark <;> cases mark
  | word solid stop => exact ⟨rfl, solid, stop⟩

theorem tiled_scan (source : Text) : Tiled Reads source (scan source) := by
  induction source using scan.induct with
  | case1 => exact scan_nil ▸ .blank (List.forall_mem_nil _)
  | case2 c cs gap ih => exact scan_gap gap cs ▸ ih.gap gap
  | case3 c cs _ mark h ih => exact scan_mark h cs ▸ .first (by simp) (.mark h) ih
  | case4 c cs solid unmarked ih =>
    have first : isWordChar c = true := isWordChar_of_mark? (by simpa using solid) unmarked
    have stop := Text.head?_dropWhile isWordChar cs
    have run : ∀ d ∈ c :: cs.takeWhile isWordChar, isWordChar d = true :=
      List.forall_mem_cons.mpr ⟨first, fun d => List.mem_takeWhile_imp⟩
    have tiled := Tiled.first (List.cons_ne_nil _ _) (.word run stop) ih
    rw [List.cons_append, List.takeWhile_append_dropWhile] at tiled
    have scanned := scan_word ⟨List.cons_ne_nil _ _, run⟩ stop
    rw [List.cons_append, List.takeWhile_append_dropWhile] at scanned
    exact scanned ▸ tiled

theorem unpreceded {source before after : Text} {ls : List (Lexeme HeadToken)} {l : Lexeme HeadToken} {word : Text}
    (tiled : Tiled Reads source ls) (mem : l ∈ ls) (token : l.token = .word word)
    (between : l.Between before after source) : ∀ c ∈ before.getLast?, isWordChar c = false := by
  -- In front of a word stands a blank, or the lexeme before it ends: at a mark, or as a word that stops.
  induction tiled generalizing before with
  | blank => cases mem
  | @next gap raw rest first ls blank _ reads behind ih =>
    intro c last
    rcases List.mem_cons.mp mem with rfl | mem
    · have front : Lexeme.Between ⟨first, raw, raw ++ rest⟩ gap rest (gap ++ (raw ++ rest)) := ⟨rfl, rfl⟩
      obtain ⟨rfl, -⟩ := between.unique front
      simp [isWordChar, blank c (List.mem_of_getLast? last)]
    · obtain ⟨front, after', within, some, readsWord⟩ := behind.exists_between mem
      have whole := within.behind (gap ++ raw)
      rw [List.append_assoc gap raw rest] at whole
      obtain ⟨rfl, rfl⟩ := between.unique whole
      cases front with
      | cons d front => exact ih mem within c (by simpa using last)
      | nil =>
        obtain ⟨d, word, begins⟩ := List.exists_cons_of_ne_nil some
        rw [token] at readsWord
        obtain ⟨rfl, solid, -⟩ := word_of_reads readsWord
        cases reads with
        | mark mark =>
          obtain rfl : _ = c := by simpa using last
          exact (text_of_mark? mark).2.2
        | word _ stop =>
          have first : isWordChar d = true := solid d (by simp [begins])
          have ended : isWordChar d = false := stop d (by simp [within.source_eq, begins])
          cases first.symm.trans ended

end HeadToken

namespace ValueToken

/-- What is read as a token of a value segment: its characters, and what follows them. -/
inductive Reads : ValueToken → Text → Text → Prop
  | quoted {text raw after : Text} (body : Body text raw) : Reads (.quoted text) ('"' :: raw) after
  | word {raw after : Text} (solid : ∀ c ∈ raw, isWordChar c = true) : Reads (.word raw) raw after
  | comment {line after : Text} (one : '\n' ∉ line) (stop : ∀ c ∈ after.head?, c = '\n') :
      Reads .comment ('#' :: line) after
  | broken {raw after : Text} (never : ∀ text body rest, raw ++ after = body ++ rest → ¬ Body text body) :
      Reads .broken ('"' :: raw) after

theorem tiled_scan (source : Text) : Tiled Reads source (scan source) := by
  induction source using scan.induct with
  | case1 => exact scan_nil ▸ .blank (List.forall_mem_nil _)
  | case2 c cs gap ih => exact scan_gap gap cs ▸ ih.gap gap
  | case3 cs text raw rest closed solid ih =>
    obtain ⟨rfl, body⟩ := Quotation.body_of_scan closed
    rw [scan_quoted closed]
    exact Tiled.first (List.cons_ne_nil _ _) (.quoted body) ih
  | case4 cs raw rest unclosed solid ih =>
    have whole : raw ++ rest = cs := by
      rw [← Quotation.raw_append_rest cs, unclosed]
      rfl
    have never : ∀ text body rest', raw ++ rest = body ++ rest' → ¬ Body text body := by
      intro text body rest' same closing
      rw [← whole, same, Quotation.scan_body closing] at unclosed
      cases unclosed
    rw [scan_broken unclosed, ← whole]
    exact Tiled.first (List.cons_ne_nil _ _) (.broken never) ih
  | case5 cs solid quote ih =>
    have one : '\n' ∉ cs.takeWhile (· ≠ '\n') := fun mem => by simpa using List.mem_takeWhile_imp mem
    have stop : ∀ c ∈ (cs.dropWhile (· ≠ '\n')).head?, c = '\n' := fun c head => by
      simpa using Text.head?_dropWhile (· ≠ '\n') cs c head
    have tiled := Tiled.first (List.cons_ne_nil _ _) (.comment one stop) ih
    rw [List.cons_append, List.takeWhile_append_dropWhile] at tiled
    rw [scan, if_neg solid, if_neg quote, if_pos rfl]
    exact tiled
  | case6 c cs solid quote mark ih =>
    have first : isWordChar c = true := by simp [isWordChar, solid, quote]
    have run : ∀ d ∈ c :: cs.takeWhile isWordChar, isWordChar d = true :=
      List.forall_mem_cons.mpr ⟨first, fun d => List.mem_takeWhile_imp⟩
    have tiled := Tiled.first (List.cons_ne_nil _ _) (.word run) ih
    rw [List.cons_append, List.takeWhile_append_dropWhile] at tiled
    rw [scan, if_neg solid, if_neg quote, if_neg mark]
    exact tiled

theorem word_of_reads {word raw after : Text} (reads : Reads (.word word) raw after) :
    raw = word ∧ ∀ c ∈ word, isGap c = false := by
  cases reads with
  | word solid =>
    refine ⟨rfl, fun c mem => ?_⟩
    have := solid c mem
    simp only [isWordChar, Bool.and_eq_true, Bool.not_eq_true'] at this
    exact this.1

end ValueToken

/-- Neither the tokens of a head nor those of a value segment lose anything: their spans cover the source, and
only quoted strings, comments and broken quotes hold blanks. In a head each token is its characters, and a word
is a maximal run of word characters. In a value segment a word is its characters, a quoted string is complete, a
comment reaches to the end of its line, and a broken quote begins where no complete quoted string stands. -/
theorem tokens_cover_their_source (source : Text) :
    (Cover source (HeadToken.scan source) ∧
      ∀ l ∈ HeadToken.scan source, l.token.text = l.raw ∧ (∀ c ∈ l.raw, isGap c = false) ∧
        ∀ word, l.token = .word word → ∀ before after, l.Between before after source →
          (∀ c ∈ before.getLast?, HeadToken.isWordChar c = false) ∧
          (∀ c ∈ word, HeadToken.isWordChar c = true) ∧ ∀ c ∈ after.head?, HeadToken.isWordChar c = false) ∧
    Cover source (ValueToken.scan source) ∧
      ∀ l ∈ ValueToken.scan source, ∀ before after, l.Between before after source →
        ValueToken.Reads l.token l.raw after ∧
          ∀ word, l.token = .word word → l.raw = word ∧ ∀ c ∈ word, isGap c = false := by
  have heads := HeadToken.tiled_scan source
  have values := ValueToken.tiled_scan source
  refine ⟨⟨heads.cover, fun l mem => ?_⟩, values.cover, fun l mem before after between => ?_⟩
  · obtain ⟨_, _, -, -, reads⟩ := heads.exists_between mem
    obtain ⟨text, solid⟩ := HeadToken.solid_of_reads reads
    refine ⟨text, solid, fun word token before after between => ?_⟩
    have here := token ▸ heads.reads_of_between mem between
    exact ⟨HeadToken.unpreceded heads mem token between, (HeadToken.word_of_reads here).2⟩
  · have reads := values.reads_of_between mem between
    exact ⟨reads, fun word token => ValueToken.word_of_reads (token ▸ reads)⟩

end TypedProperties
