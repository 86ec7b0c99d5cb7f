import TypedProperties.Proofs.Declaration.Comment
import TypedProperties.Proofs.Directive.Line
import TypedProperties.Proofs.Line.Append
import TypedProperties.Proofs.Reading.Agree
import TypedProperties.Proofs.Variant.Template

/-! A comment put behind a declaration: when it changes nothing that is read. -/
namespace TypedProperties

/-- The white space at the end of a text separates values. -/
def Text.GapEnd (t : Text) : Prop :=
  ∀ blank, blank <:+ t → Text.isBlank blank = true → ∀ x ∈ blank, isGap x = true

theorem isGap_not_mem_openTag {x : Char} (h : isGap x = true) : x ∉ Template.openTag := fun mem => by
  have solid : ∀ y ∈ Template.openTag, isGap y = false := by decide
  simp [solid x mem] at h

namespace Repository

variable {repository : Repository} {removeQuotes : Bool} {s s' filled blank c f : Text}

/-- A comment is preprocessed by itself, and the values in front of it stay in front. -/
theorem preprocess_annotated (h : repository.preprocess removeQuotes s = .ok filled)
    (comment : repository.preprocess removeQuotes c = .ok f) (gaps : ∀ x ∈ blank, isGap x = true)
    (annotated : Text.Annotated blank c s s') :
    ∃ filled', repository.preprocess removeQuotes s' = .ok filled' ∧
      Text.Annotated blank f filled filled' := by
  have nothing := preprocess_nil repository removeQuotes
  have marked : repository.preprocess removeQuotes ('#' :: c) = .ok ('#' :: f) := by
    have alone := preprocess_append nothing (by decide : '#' ∉ Template.openTag) c
    rw [comment] at alone
    exact alone
  obtain rfl | ⟨rfl, rfl⟩ := annotated
  · have behind : repository.preprocess removeQuotes (s ++ (blank ++ ' ' :: '#' :: c)) =
        .ok (filled ++ (blank ++ ' ' :: '#' :: f)) := by
      induction blank generalizing s filled with
      | nil =>
        rw [List.nil_append, preprocess_append h (by decide), marked]
        rfl
      | cons x blank ih =>
        obtain ⟨gap, gaps⟩ := List.forall_mem_cons.mp gaps
        have rest := ih nothing gaps
        rw [List.nil_append, List.nil_append] at rest
        rw [List.cons_append, preprocess_append h (isGap_not_mem_openTag gap), rest]
        rfl
    exact ⟨_, behind, .inl rfl⟩
  · obtain rfl : [] = filled := Except.ok.inj (nothing.symm.trans h)
    exact ⟨_, marked, .inr ⟨rfl, rfl⟩⟩

end Repository

namespace Reader

variable {σ : Type} [Searches σ] {nested : Reader Repository σ → Text → Outcome} {world : World}
  {r : Reader Repository σ} {p : Progress σ}

/-- A comment behind a declaration that is exhibited does not get into its values: these are separated
from it, and references in it can be replaced, as they are before a comment is looked for. -/
structure Separate (r : Reader Repository σ) (p : Progress σ) (line : Line) (c : Text) : Prop where
  gaps : line.text.GapEnd
  resolves : p.context.variantsEnabled = true →
    ∃ filled, r.variants.preprocess p.context.removeQuotes c = .ok filled

theorem Separate.of_append {line : Line} {c blank : Text} (h : r.Separate p line (c ++ blank))
    (white : Text.isBlank blank = true) : r.Separate p line c where
  gaps := h.gaps
  resolves enabled := by
    obtain ⟨filled, preprocessed⟩ := h.resolves enabled
    exact Repository.preprocess_of_append_blank preprocessed white

theorem tells_annotated {context : Context σ} {d : Declaration} {blank c values : Text} {data : Data}
    (told : r.Tells context d data) (gaps : ∀ x ∈ blank, isGap x = true)
    (resolves : context.variantsEnabled = true →
      ∃ filled, r.variants.preprocess context.removeQuotes c = .ok filled)
    (annotated : Text.Annotated blank c d.values values) : r.Tells context { d with values } data := by
  obtain ⟨segment, readout, taken, read, rfl⟩ := told
  have behind : ∃ segment' f, r.segmentOf context { d with values } = .ok segment' ∧
      Text.Annotated blank f segment segment' := by
    unfold segmentOf at taken ⊢
    split_ifs at taken ⊢ with enabled
    · split at taken
      next filled preprocessed =>
        obtain rfl := Except.ok.inj taken
        obtain ⟨f, comment⟩ := resolves enabled
        obtain ⟨filled', preprocessed', annotated⟩ :=
          Repository.preprocess_annotated preprocessed comment gaps annotated
        exact ⟨filled', f, by simp only [Variants.preprocess, preprocessed'], annotated⟩
      next => cases taken
    · obtain rfl := Except.ok.inj taken
      exact ⟨values, c, rfl, annotated⟩
  obtain ⟨segment', f, taken', annotated⟩ := behind
  obtain ⟨readout', read', same⟩ := Readout.ofSegment_annotated read gaps annotated
  exact ⟨segment', readout', taken', read', same⟩

theorem step_annotated {q : Progress σ} {line : Line} {text c : Text} {stop : Bool}
    (role : Role.ofText line.text = .declaration text)
    (separate : p.context.blocks.exhibits r.variants = .ok true → r.Separate p line c)
    (done : r.step nested world p line = .ok (q, stop)) :
    ∃ q', r.step nested world p { line with text := line.text ++ ' ' :: '#' :: c } = .ok (q', stop) ∧
      q.Agree q' := by
  have e := (Role.ofText_eq_declaration role).1
  have some : text ≠ [] := by
    rintro rfl
    rw [step_eq, role] at done
    cases done
  have solid : Text.isBlank line.text = false := by
    rw [← Bool.not_eq_true, ← Text.trimEnd_eq_nil]
    intro blank
    rw [e, ← Text.trimStart_trimEnd, blank] at some
    exact some rfl
  obtain ⟨blank, spaces, suffix, trimmed⟩ := Text.trim_append_comment solid c
  rw [← e] at trimmed
  have role' := Role.declaration_append role some trimmed
  refine step_agree done (.refl p) rfl (.inr ⟨text, _, role, role', ?_⟩)
  intro d head
  obtain ⟨values, head', annotated⟩ := Declaration.ofLine_annotated (e ▸ Text.tightEnd_trim _) head
    spaces (Text.tightEnd_trimEnd c)
  refine ⟨values, head', fun exhibited data told => ?_⟩
  obtain ⟨rest, white, split⟩ := Text.trimEnd_append_rest c
  have whole : r.Separate p line (Text.trimEnd c ++ rest) := by
    rw [split]
    exact separate exhibited
  obtain ⟨gaps, resolves⟩ := whole.of_append white
  exact tells_annotated told (gaps blank suffix spaces) resolves annotated

/-- A comment behind the last physical line of a declaration changes neither the store nor the topic that
a read gives, if the line does not go on behind it, and the comment stays apart from the values. -/
theorem trailing_comment_is_inert (nested : Reader Repository σ → Text → Outcome) (world : World)
    (r : Reader Repository σ)
    (file : Option Text) (destination : Store) (t c : Text) {before after : List Line} {line : Line}
    {text : Text} {store : Store} {topic : Option Text}
    (lines : (Lines.ofBytes (Text.encode t)).complete = before ++ line :: after)
    (role : Role.ofText line.text = .declaration text)
    (ended : ∀ piece ∈ (Text.physical t)[line.last - 1]?, piece.getLast? ≠ some Lines.continuation)
    (single : '\n' ∉ c) (unmarked : (Text.chomp c).getLast? ≠ some Lines.continuation)
    (separate : ∀ p, r.Passes nested world (r.begin file destination) before p →
      p.context.blocks.exhibits r.variants = .ok true → r.Separate p line c)
    (done : (r.run nested world file destination (Text.encode t)).result = .ok (store, topic)) :
    (r.run nested world file destination
      (Text.encode (Text.appendToLine (' ' :: '#' :: c) (line.last - 1) t))).result =
        .ok (store, topic) := by
  have cut : Text.chomp (' ' :: '#' :: c) = ' ' :: '#' :: Text.chomp c :=
    Text.chomp_append [' ', '#'] (.inr (by decide))
  have unmarked' : (Text.chomp (' ' :: '#' :: c)).getLast? ≠ some Lines.continuation := by
    rw [cut]
    cases shorter : Text.chomp c with
    | nil => decide
    | cons x rest => simpa [shorter, List.getLast?_cons_cons] using unmarked
  obtain ⟨new, which, lines'⟩ := Lines.complete_appendToLine lines ended
    (show '\n' ∉ ' ' :: '#' :: c by simp [single]) (by simp [Text.isSpace_mark]) unmarked'
  -- a carriage return at the end of the comment may become part of the line end
  have comment : ∃ c', new = ' ' :: '#' :: c' ∧ (c' = c ∨ c' = Text.chomp c) := by
    rcases which with rfl | rfl
    · exact ⟨c, rfl, .inl rfl⟩
    · exact ⟨Text.chomp c, cut, .inr rfl⟩
  obtain ⟨c', rfl, shorter⟩ := comment
  have separate' (p : Progress σ) (passed : r.Passes nested world (r.begin file destination) before p)
      (exhibited : p.context.blocks.exhibits r.variants = .ok true) : r.Separate p line c' := by
    have whole := separate p passed exhibited
    rcases shorter with rfl | rfl
    · exact whole
    · rcases Text.chomp_cases c with same | cut
      · rwa [same]
      · rw [cut] at whole
        exact whole.of_append (by decide)
  refine run_replace lines lines' ?_ (fun p q stop passed stepped => ?_) done
  · rw [(Lines.texts_ofBytes_encode _).2, (Lines.texts_ofBytes_encode _).2]
  · exact step_annotated role (separate' p passed) stepped

/-- The comment may hold references and quotes. -/
theorem trailing_comment_is_inert_behind_a_vector :
    let t := Text.ofString "#@config d\na : integer[2] = 1 \\\n 2 \n"
    let c := Text.ofString " @variant(r:p|v) \""
    let nested : Reader → Text → Outcome := fun _ _ => ⟨[], .error (.access [] .notFound)⟩
    let world := World.empty
    let store : Store := { Store.empty.insert ['a'] ⟨.integer [1, 2], .vector, false, []⟩ with
      description := ['d'] }
    (Reader.standard.run nested world none .empty (Text.encode t)).result = .ok (store, none) ∧
      Text.appendToLine (' ' :: '#' :: c) 2 t =
        Text.ofString "#@config d\na : integer[2] = 1 \\\n 2  # @variant(r:p|v) \"\n" ∧
      (Reader.standard.run nested world none .empty
        (Text.encode (Text.appendToLine (' ' :: '#' :: c) 2 t))).result = .ok (store, none) := by
  intro t c nested world store
  let front : Line := ⟨Text.ofString "#@config d", 1, 1⟩
  let line : Line := ⟨Text.ofString "a : integer[2] = 1  2 ", 2, 3⟩
  let start := (Reader.standard.begin none .empty).context
  let p : Progress := ⟨{ start with location := ⟨none, none, 1⟩, configSeen := true },
    { Store.empty with description := ['d'] }, []⟩
  have lines : (Lines.ofBytes (Text.encode t)).complete = [front] ++ line :: [] := by decide +kernel
  have role : Role.ofText line.text = .declaration (Text.ofString "a : integer[2] = 1  2") := by
    decide +kernel
  have reached : Reader.standard.Passes nested world (Reader.standard.begin none .empty) [front] p :=
    .next (by decide +kernel) (.none p)
  have gaps : ∀ x ∈ line.text, Text.isSpace x = true → isGap x = true := by decide +kernel
  have separate (q : Progress) (passed : Reader.standard.Passes nested world
      (Reader.standard.begin none .empty) [front] q)
      (_ : q.context.blocks.exhibits Reader.standard.variants = .ok true) :
      Reader.standard.Separate q line c := by
    obtain rfl := passed.unique reached
    refine ⟨fun blank suffix spaces x mem => ?_, fun _ => ⟨Text.ofString " v \"", by decide +kernel⟩⟩
    exact gaps x (suffix.subset mem) (List.all_eq_true.mp spaces x mem)
  have done : (Reader.standard.run nested world none .empty (Text.encode t)).result =
      .ok (store, none) := by decide +kernel
  have kept := trailing_comment_is_inert nested world Reader.standard none .empty t c lines role
    (by decide +kernel) (by decide +kernel) (by decide +kernel) separate done
  exact ⟨done, by decide +kernel, kept⟩

/-- A comment of one line that does not end in a mark changes what a standard reader makes of a text,
though it stands behind a declaration. -/
def SpoiledBy (t c : Text) : Prop :=
  let result (t : Text) := (Reader.standard.read World.empty (Text.encode t)).result
  '\n' ∉ c ∧ c.getLast? ≠ some Lines.continuation ∧ ∃ line after text store topic,
    (Lines.ofBytes (Text.encode t)).complete = line :: after ∧
      Role.ofText line.text = .declaration text ∧ result t = .ok (store, topic) ∧
      result (Text.appendToLine (' ' :: '#' :: c) (line.last - 1) t) ≠ .ok (store, topic)

/-- A comment may open a reference and not close it, continue the last line of the input, make white space
that the value ended in a part of it, and continue its line if a carriage return behind its mark goes to
the line end. -/
theorem trailing_comment_spoils :
    SpoiledBy (Text.ofString "a : integer = 1\n") (Text.ofString " @variant(") ∧
      SpoiledBy (Text.ofString "s = a\\") ['c'] ∧
      SpoiledBy (Text.ofString "s = a\x0b\n") ['c'] ∧
      SpoiledBy (Text.ofString "a : integer = 1\nb : integer = 2\n") ['c', Lines.continuation, '\r'] := by
  let string : Store := Store.empty.insert ['s'] ⟨.string [['a']] false, .scalar, false, []⟩
  let one : Store := Store.empty.insert ['a'] ⟨.integer [1], .scalar, false, []⟩
  let two : Store := one.insert ['b'] ⟨.integer [2], .scalar, false, []⟩
  refine ⟨⟨by decide +kernel, by decide +kernel, ?reference⟩, ⟨by decide, by decide, ?unended⟩,
    ⟨by decide, by decide, ?space⟩, ⟨by decide, by decide, ?swallowed⟩⟩
  case reference =>
    exact ⟨⟨Text.ofString "a : integer = 1", 1, 1⟩, [], Text.ofString "a : integer = 1", one, none,
      by decide +kernel, by decide +kernel, by decide +kernel, by decide +kernel⟩
  case unended =>
    exact ⟨⟨Text.ofString "s = a", 1, 1⟩, [], Text.ofString "s = a", string, none,
      by decide +kernel, by decide +kernel, by decide +kernel, by decide +kernel⟩
  case space =>
    exact ⟨⟨Text.ofString "s = a\x0b", 1, 1⟩, [], Text.ofString "s = a", string, none,
      by decide +kernel, by decide +kernel, by decide +kernel, by decide +kernel⟩
  case swallowed =>
    exact ⟨⟨Text.ofString "a : integer = 1", 1, 1⟩, [⟨Text.ofString "b : integer = 2", 2, 2⟩],
      Text.ofString "a : integer = 1", two, none,
      by decide +kernel, by decide +kernel, by decide +kernel, by decide +kernel⟩

end Reader
end TypedProperties
