import TypedProperties.Proofs.Token.Value

/-! Complete quoted strings, and rows of them: what is written in quotes is read back, however the quotes
are spaced. -/
namespace TypedProperties
namespace ValueToken

def Quotation.raw : Quotation → Text
  | .closed _ raw _ => raw
  | .unclosed raw _ => raw

theorem Quotation.raw_behind (read value : Text) (q : Quotation) : (q.behind read value).raw = read ++ q.raw := by
  cases q <;> rfl

theorem Quotation.raw_append_rest (t : Text) : (scan t).raw ++ (scan t).rest = t := by
  fun_induction scan t with
  | case1 => rfl
  | case2 => rfl
  | case3 => rfl
  | case4 => rfl
  | case5 c rest line ih => rw [raw_behind, rest_behind, List.append_assoc, ih]; rfl
  | case6 c rest _ _ _ ih => rw [raw_behind, rest_behind, List.append_assoc, ih]; rfl

variable {t text raw rest : Text}

/-- A string, and how it is written behind its opening quote: characters other than quotes and backslashes,
and backslashes each with the character that it takes, up to the closing quote. -/
inductive Body : Text → Text → Prop
  | close : Body [] ['"']
  | plain {c : Char} {text raw : Text} (quote : c ≠ '"') (slash : c ≠ '\\') (behind : Body text raw) :
      Body (c :: text) (c :: raw)
  | taken {c : Char} {text raw : Text} (line : c ≠ '\n') (behind : Body text raw) :
      Body (c :: text) ('\\' :: c :: raw)

namespace Quotation

theorem behind_eq_closed {read value : Text} {q : Quotation} (h : q.behind read value = .closed text raw rest) :
    ∃ text' raw', q = .closed text' raw' rest ∧ text = value ++ text' ∧ raw = read ++ raw' := by
  cases q with
  | closed text' raw' rest' =>
    obtain ⟨rfl, rfl, rfl⟩ := Quotation.closed.inj h
    exact ⟨text', raw', rfl, rfl, rfl⟩
  | unclosed => cases h

theorem scan_plain {c : Char} (quote : c ≠ '"') (slash : c ≠ '\\') (t : Text) :
    scan (c :: t) = (scan t).behind [c] [c] := by
  rw [scan]
  · exact quote
  · exact fun e => absurd e slash
  · exact fun _ _ e => absurd e slash

theorem scan_body (body : Body text raw) (rest : Text) : scan (raw ++ rest) = .closed text raw rest := by
  induction body with
  | close => rfl
  | plain quote slash _ ih => rw [List.cons_append, scan_plain quote slash, ih]; rfl
  | taken line _ ih => rw [List.cons_append, List.cons_append, scan, if_neg line, ih]; rfl

theorem body_of_scan (closed : scan t = .closed text raw rest) : t = raw ++ rest ∧ Body text raw := by
  fun_induction scan t generalizing text raw with
  | case1 => cases closed
  | case2 =>
    obtain ⟨rfl, rfl, rfl⟩ := Quotation.closed.inj closed
    exact ⟨rfl, .close⟩
  | case3 => cases closed
  | case4 => cases closed
  | case5 c r line ih =>
    obtain ⟨text', raw', inner, rfl, rfl⟩ := behind_eq_closed closed
    obtain ⟨rfl, body⟩ := ih inner
    exact ⟨rfl, .taken line body⟩
  | case6 c r quote last taken ih =>
    obtain ⟨text', raw', inner, rfl, rfl⟩ := behind_eq_closed closed
    obtain ⟨rfl, body⟩ := ih inner
    have slash : c ≠ '\\' := by
      rintro rfl
      cases h : raw' ++ rest with
      | nil => exact last rfl h
      | cons d r => exact taken d r rfl h
    exact ⟨rfl, .plain quote slash body⟩

theorem scan_eq_closed : scan t = .closed text raw rest ↔ t = raw ++ rest ∧ Body text raw :=
  ⟨body_of_scan, fun ⟨e, body⟩ => e ▸ scan_body body rest⟩

end Quotation

def spaced (strings : List (Text × Text)) : Text := strings.flatMap fun s => quote s.1 ++ s.2

def quotedLexemes : List (Text × Text) → List (Lexeme ValueToken)
  | [] => []
  | s :: rest => ⟨.quoted s.1, quote s.1, spaced (s :: rest)⟩ :: quotedLexemes rest

variable {lead : Text} {strings : List (Text × Text)}

theorem scan_spaced (blanks : ∀ s ∈ strings, ∀ c ∈ s.2, isGap c = true) :
    scan (spaced strings) = quotedLexemes strings := by
  induction strings with
  | nil => exact scan_nil
  | cons s rest ih =>
    obtain ⟨here, behind⟩ := List.forall_mem_cons.mp blanks
    have e : spaced (s :: rest) = quote s.1 ++ (s.2 ++ spaced rest) := by simp [spaced]
    rw [quotedLexemes, e, scan_quote, scan_gaps here, ih behind]

theorem tokens_quotedLexemes (strings : List (Text × Text)) :
    (quotedLexemes strings).map Lexeme.token = strings.map fun s => .quoted s.1 := by
  induction strings with
  | nil => rfl
  | cons s rest ih => rw [quotedLexemes, List.map_cons, List.map_cons, ih]

theorem getElem?_quotedLexemes (front : List (Text × Text)) (s : Text × Text) (back : List (Text × Text)) :
    (quotedLexemes (front ++ s :: back))[front.length]? =
      some ⟨.quoted s.1, quote s.1, spaced (s :: back)⟩ := by
  induction front with
  | nil => rfl
  | cons first front ih => simpa [quotedLexemes] using ih

/-- Strings in quotes are read back, one token for each, in order and with nothing else, however many blanks
stand before, between and behind them; and the span of each token is that of its quotes and what they hold. -/
theorem quoted_strings_are_read_back (blank : ∀ c ∈ lead, isGap c = true)
    (blanks : ∀ s ∈ strings, ∀ c ∈ s.2, isGap c = true) :
    let source := lead ++ spaced strings
    (scan source).map Lexeme.token = strings.map (fun s => .quoted s.1) ∧
      ∀ front s back, strings = front ++ s :: back → ∃ l, (scan source)[front.length]? = some l ∧
        l.token = .quoted s.1 ∧ l.raw = quote s.1 ∧
        l.span source =
          (Text.byteLength (lead ++ spaced front), Text.byteLength (lead ++ spaced front ++ quote s.1)) := by
  intro source
  have scanned : scan source = quotedLexemes strings := by rw [scan_gaps blank, scan_spaced blanks]
  rw [scanned]
  refine ⟨tokens_quotedLexemes strings, ?_⟩
  rintro front s back rfl
  refine ⟨_, getElem?_quotedLexemes front s back, rfl, rfl, ?_⟩
  have e : source = lead ++ spaced front ++ spaced (s :: back) := by simp [source, spaced]
  simp only [Lexeme.span, e, Text.byteLength_append, Nat.add_sub_cancel]

/-- Strings that end in a backslash and in a quote, one that is empty and one with the beginning of a comment,
without a blank between the first two. -/
theorem quoted_strings_are_read_back_side_by_side :
    let lead : Text := ['\t']
    let strings : List (Text × Text) := [(['\\'], []), (['a', '"'], [' ', '\n']), ([], ['\r']), (['\n', '#'], [])]
    (∀ c ∈ lead, isGap c = true) ∧ (∀ s ∈ strings, ∀ c ∈ s.2, isGap c = true) ∧
      lead ++ spaced strings = Text.ofString "\t\"\\\\\"\"a\\\"\" \n\"\"\r\"\n#\"" ∧
      (scan (lead ++ spaced strings)).map Lexeme.token =
        [.quoted ['\\'], .quoted ['a', '"'], .quoted [], .quoted ['\n', '#']] ∧
      ∃ l, (scan (lead ++ spaced strings))[1]? = some l ∧ l.span (lead ++ spaced strings) = (5, 10) := by
  intro lead strings
  have blank : ∀ c ∈ lead, isGap c = true := by decide
  have blanks : ∀ s ∈ strings, ∀ c ∈ s.2, isGap c = true := by decide
  obtain ⟨tokens, places⟩ := quoted_strings_are_read_back blank blanks
  obtain ⟨l, found, -, -, span⟩ := places [(['\\'], [])] (['a', '"'], [' ', '\n']) _ rfl
  exact ⟨blank, blanks, by decide, tokens, l, found, span.trans (by decide)⟩

end ValueToken
end TypedProperties
