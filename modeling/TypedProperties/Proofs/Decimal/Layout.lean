import Mathlib.Data.List.TakeDrop
import TypedProperties.Decimal.Layout
import TypedProperties.Decimal.Numeral
import TypedProperties.Proofs.Decimal.Float
import TypedProperties.Proofs.Decimal.Shortest
import TypedProperties.Proofs.Text.Plain

/-! The text of a float reads back as the float. -/
namespace TypedProperties
namespace Decimal

def Digits (t : Text) : Prop := ∀ c ∈ t, c.isDigit = true

theorem Digits.append {s t : Text} (hs : Digits s) (ht : Digits t) : Digits (s ++ t) := fun c hc =>
  (List.mem_append.mp hc).elim (hs c) (ht c)

theorem digits_ofNat (n : Nat) : Digits (Text.ofNat n) := fun _ => Text.isDigit_ofNat

theorem digits_zeros (n : Nat) : Digits (zeros n) := fun c hc => by
  rw [(List.mem_replicate.mp hc).2]
  decide

theorem spanDigits_append {s t : Text} (hs : Digits s) (ht : ∀ c ∈ t.head?, c.isDigit = false) :
    spanDigits (s ++ t) = (s, t) := by
  obtain ⟨taken, dropped⟩ := Text.span_run hs ht
  rw [spanDigits, List.span_eq_takeWhile_dropWhile, taken, dropped]

def valueOf (t : Text) : Nat := Nat.ofDigitChars 10 t 0

@[simp] theorem valueOf_ofNat (n : Nat) : valueOf (Text.ofNat n) = n := Nat.ofDigitChars_ten_toDigits

theorem valueOf_append_zeros (t : Text) (n : Nat) : valueOf (t ++ zeros n) = valueOf t * 10 ^ n := by
  rw [valueOf, Nat.ofDigitChars_append, zeros, Nat.ofDigitChars_replicate_zero, Nat.mul_comm]
  rfl

theorem valueOf_zeros_append (n : Nat) (t : Text) : valueOf (zeros n ++ t) = valueOf t := by
  rw [valueOf, Nat.ofDigitChars_append, zeros, Nat.ofDigitChars_replicate_zero, Nat.mul_zero]
  rfl

def IsTail (t : Text) : Prop := ∀ c ∈ t.head?, c.isDigit = false ∧ c ≠ '.'

theorem readUnsigned_whole {whole tail : Text} (hw : Digits whole) (some : whole ≠ [])
    (ht : IsTail tail) {e : Int} (he : readExponent tail = .some e) :
    readUnsigned (whole ++ tail) = .some ⟨valueOf whole, e⟩ := by
  have span := spanDigits_append hw fun c hc => (ht c hc).1
  have value := Text.readNat_eq hw some
  cases tail with
  | nil => simp_all [readUnsigned, valueOf]
  | cons c tail =>
    have point : c ≠ '.' := (ht c rfl).2
    simp_all [readUnsigned, valueOf]

theorem readUnsigned_point (whole fraction : Text) {tail : Text} (hw : Digits whole) (hf : Digits fraction)
    (some : whole ++ fraction ≠ []) (ht : IsTail tail) {e : Int} (he : readExponent tail = .some e) :
    readUnsigned (whole ++ '.' :: (fraction ++ tail)) =
      .some ⟨valueOf (whole ++ fraction), e - fraction.length⟩ := by
  have span := spanDigits_append (t := '.' :: (fraction ++ tail)) hw (by simp)
  have span' := spanDigits_append hf fun c hc => (ht c hc).1
  have value := Text.readNat_eq (hw.append hf) some
  simp only [readUnsigned, span, span', value, he, valueOf]

theorem readExponent_of_isDigit {c : Char} (cs : Text) (digit : c.isDigit = true) :
    readExponent ('e' :: c :: cs) = (Text.readNat (c :: cs)).map Int.ofNat := by
  simp only [readExponent, true_or, if_true]
  split
  next minus => cases Text.isDigit_of_cons_eq digit minus
  next plus => cases Text.isDigit_of_cons_eq digit plus
  · rfl

theorem readExponent_ofInt (plus : Bool) (lead : Int) :
    readExponent ('e' :: (if plus ∧ 0 ≤ lead then ['+'] else []) ++ Text.ofInt lead) = some lead := by
  cases lead with
  | ofNat n =>
    cases plus with
    | true => exact congrArg (Option.map Int.ofNat) (Text.readNat_ofNat n)
    | false =>
      obtain ⟨c, cs, e, digit⟩ := Text.ofNat_cons n
      have bare : 'e' :: (if false ∧ 0 ≤ Int.ofNat n then ['+'] else []) ++ Text.ofInt (.ofNat n) =
          'e' :: c :: cs := congrArg _ e
      rw [bare, readExponent_of_isDigit cs digit, ← e, Text.readNat_ofNat]
      rfl
  | negSucc n =>
    have bare : 'e' :: (if plus ∧ 0 ≤ Int.negSucc n then ['+'] else []) ++ Text.ofInt (.negSucc n) =
        'e' :: '-' :: Text.ofNat (n + 1) := by simp [Text.ofInt]
    simp only [bare, readExponent, true_or, if_true, Text.readNat_ofNat]
    rfl

theorem isTail_exponent (t : Text) : IsTail ('e' :: t) := by
  rintro c ⟨⟩
  exact ⟨by decide, by decide⟩

theorem isTail_nil : IsTail [] := by
  rintro c ⟨⟩

theorem length_ofNat (d : Decimal) : (Text.ofNat d.digits).length = d.length := rfl

theorem readUnsigned_plain (pointZero : Bool) (d : Decimal) :
    ∃ d', readUnsigned (plain pointZero d) = some d' ∧ d'.toBits = d.toBits := by
  have digits := digits_ofNat d.digits
  have some : Text.ofNat d.digits ≠ [] := Text.ofNat_ne_nil _
  have shown := length_pos d
  dsimp only [plain]
  split_ifs with whole point lead
  -- A whole number with a zero behind the point.
  · have value : valueOf (Text.ofNat d.digits ++ zeros d.exponent.toNat ++ ['0']) =
        d.digits * 10 ^ (d.exponent.toNat + 1) := by
      have more : zeros d.exponent.toNat ++ ['0'] = zeros (d.exponent.toNat + 1) :=
        List.replicate_succ'.symm
      rw [List.append_assoc, more, valueOf_append_zeros, valueOf_ofNat]
    have read := readUnsigned_point _ ['0'] (digits.append (digits_zeros d.exponent.toNat))
      (digits_zeros 1) (by simp) isTail_nil (e := 0) rfl
    rw [value] at read
    refine ⟨_, read, ?_⟩
    rw [toBits_mul_pow]
    congr 2
    simp
    omega
  -- A whole number.
  · have read := readUnsigned_whole (digits.append (digits_zeros d.exponent.toNat))
      (by simp) isTail_nil (e := 0) rfl
    rw [valueOf_append_zeros, valueOf_ofNat] at read
    refine ⟨_, read, ?_⟩
    rw [toBits_mul_pow]
    congr 2
    omega
  -- A point among the digits.
  · have read := readUnsigned_point ((Text.ofNat d.digits).take (d.lead + 1).toNat)
      ((Text.ofNat d.digits).drop (d.lead + 1).toNat)
      (fun c hc => digits c (List.mem_of_mem_take hc)) (fun c hc => digits c (List.mem_of_mem_drop hc))
      (by rwa [List.take_append_drop]) isTail_nil (e := 0) rfl
    rw [List.take_append_drop, valueOf_ofNat, List.append_nil, List.length_drop, length_ofNat] at read
    refine ⟨_, read, ?_⟩
    congr 2
    unfold Decimal.lead at lead ⊢
    omega
  -- Zeros behind the point.
  · have read := readUnsigned_point ['0'] (zeros (-d.lead - 1).toNat ++ Text.ofNat d.digits)
      (digits_zeros 1) ((digits_zeros _).append digits) (by simp) isTail_nil (e := 0) rfl
    have value : valueOf (['0'] ++ (zeros (-d.lead - 1).toNat ++ Text.ofNat d.digits)) = d.digits := by
      rw [← List.append_assoc]
      exact (valueOf_zeros_append (_ + 1) _).trans (valueOf_ofNat _)
    rw [value, List.append_nil, List.length_append, length_ofNat, zeros, List.length_replicate] at read
    refine ⟨_, read, ?_⟩
    congr 2
    unfold Decimal.lead at lead ⊢
    omega

theorem readUnsigned_scientific (plus : Bool) (d : Decimal) :
    readUnsigned (scientific plus d) = some d := by
  have digits := digits_ofNat d.digits
  have read := readExponent_ofInt plus d.lead
  have shown := length_pos d
  have first : (Text.ofNat d.digits).take 1 ≠ [] := by simp
  have firstDigit : Digits ((Text.ofNat d.digits).take 1) := fun c hc =>
    digits c (List.mem_of_mem_take hc)
  have parts : (Text.ofNat d.digits).take 1 ++ (Text.ofNat d.digits).drop 1 = Text.ofNat d.digits :=
    List.take_append_drop _ _
  have rest : ((Text.ofNat d.digits).drop 1).length = d.length - 1 := List.length_drop
  have lead : d.lead = d.exponent + d.length - 1 := rfl
  dsimp only [scientific]
  cases more : (Text.ofNat d.digits).drop 1 with
  | nil =>
    have whole := readUnsigned_whole firstDigit first (isTail_exponent _) read
    rw [more, List.append_nil] at parts
    rw [more, List.length_nil] at rest
    have exponent : d.lead = d.exponent := by omega
    rw [parts, valueOf_ofNat, exponent] at whole
    simpa [parts, exponent] using whole
  | cons c cs =>
    have point := readUnsigned_point _ ((Text.ofNat d.digits).drop 1) firstDigit
      (fun c hc => digits c (List.mem_of_mem_drop hc)) (by simp) (isTail_exponent _) read
    have exponent : d.lead - (d.length - 1 : Nat) = d.exponent := by omega
    rw [parts, valueOf_ofNat, rest, exponent, more] at point
    simpa using point

theorem readUnsigned_layOut (l : Layout) (d : Decimal) :
    ∃ d', readUnsigned (layOut l d) = some d' ∧ d'.toBits = d.toBits := by
  unfold layOut
  split_ifs
  · exact readUnsigned_plain l.pointZero d
  · exact ⟨d, readUnsigned_scientific l.plus d, rfl⟩

theorem layOut_cons (l : Layout) (d : Decimal) : ∃ c cs, layOut l d = c :: cs ∧ c.isDigit = true := by
  obtain ⟨c, cs, e, digit⟩ := Text.ofNat_cons d.digits
  unfold layOut
  split_ifs
  · dsimp only [plain]
    rw [e]
    split_ifs with whole point lead
    · exact ⟨c, _, rfl, digit⟩
    · exact ⟨c, _, rfl, digit⟩
    · obtain ⟨n, hn⟩ : ∃ n, (d.lead + 1).toNat = n + 1 := ⟨d.lead.toNat, by omega⟩
      rw [hn]
      exact ⟨c, _, rfl, digit⟩
    · exact ⟨'0', _, rfl, by decide⟩
  · dsimp only [scientific]
    rw [e]
    exact ⟨c, _, rfl, digit⟩

theorem readBits_of_isDigit {c : Char} (cs : Text) (digit : c.isDigit = true) :
    readBits (c :: cs) = (readUnsigned (c :: cs)).map toBits := by
  have low : c.toLower = c := by
    simp only [Char.isDigit, Bool.and_eq_true, decide_eq_true_eq, ge_iff_le] at digit
    rw [Char.toLower, dif_neg]
    exact fun upper => absurd (UInt32.le_trans upper.1 digit.2) (by decide)
  have head (t : Text) (ht : ∀ d ∈ t.head?, d.isDigit = false) : Text.toLower (c :: cs) ≠ t := by
    rintro rfl
    have := ht c (by simp [Text.toLower, low])
    simp [digit] at this
  unfold readBits
  rw [if_neg, if_neg]
  · exact head _ (by decide)
  · exact fun h => h.elim (head _ (by decide)) (head _ (by decide))

theorem readBits_layOut (l : Layout) {bits : Nat} (h : bits < Binary.infinity) :
    readBits (layOut l (shortest l.tie bits)) = some bits := by
  obtain ⟨c, cs, e, digit⟩ := layOut_cons l (shortest l.tie bits)
  obtain ⟨d, read, same⟩ := readUnsigned_layOut l (shortest l.tie bits)
  rw [e, readBits_of_isDigit cs digit, ← e, read, Option.map_some, same, toBits_shortest l.tie h]

theorem readFloat_of_isDigit {c : Char} (cs : Text) (digit : c.isDigit = true) :
    readFloat (c :: cs) = (readBits (c :: cs)).map (Binary.toFloat false) := by
  unfold readFloat
  split
  next minus => cases Text.isDigit_of_cons_eq digit minus
  next plus => cases Text.isDigit_of_cons_eq digit plus
  · rfl

/-- The names of a layout for the values that are not finite. -/
structure Layout.Readable (l : Layout) : Prop where
  nan : readFloat l.nan = some (Binary.toFloat false (Binary.infinity + Nat.pow 2 51))
  infinity : readFloat l.infinity = some (Binary.toFloat false Binary.infinity)
  negativeInfinity : readFloat l.negativeInfinity = some (Binary.toFloat true Binary.infinity)

theorem readFloat_text {l : Layout} (names : l.Readable) (x : Float) :
    readFloat (text l x) = some x := by
  have parts := Binary.toFloat_magnitude x
  dsimp only [text]
  split_ifs with nan infinite negative negative
  · rw [names.nan, Binary.toFloat_notANumber nan]
  · rw [names.negativeInfinity, ← infinite, ← negative, parts]
  · rw [names.infinity, ← infinite, ← Bool.eq_false_iff.mpr negative, parts]
  · have finite := readBits_layOut l (show Binary.magnitude x < Binary.infinity by omega)
    rw [readFloat, finite, Option.map_some, ← negative, parts]
  · have finite := readBits_layOut l (show Binary.magnitude x < Binary.infinity by omega)
    obtain ⟨c, cs, e, digit⟩ := layOut_cons l (shortest l.tie (Binary.magnitude x))
    rw [e, readFloat_of_isDigit cs digit, ← e, finite, Option.map_some,
      ← Bool.eq_false_iff.mpr negative, parts]

theorem isPlain_of_digits {t : Text} (h : Digits t) : ∀ c ∈ t, Text.isPlain c = true := fun c hc =>
  Text.isPlain_of_isDigit (h c hc)

theorem isPlain_layOut (l : Layout) (d : Decimal) : Text.IsPlain (layOut l d) := by
  obtain ⟨first, cs, e, -⟩ := layOut_cons l d
  refine ⟨by simp [e], fun c hc => ?_⟩
  have digits := isPlain_of_digits (digits_ofNat d.digits)
  have zeros (n : Nat) := isPlain_of_digits (digits_zeros n)
  unfold layOut at hc
  split_ifs at hc
  · dsimp only [plain] at hc
    split_ifs at hc <;> simp only [List.mem_append, List.mem_cons, List.not_mem_nil, or_false] at hc
    · rcases hc with (hc | hc) | rfl | rfl
      · exact digits c hc
      · exact zeros _ c hc
      · decide
      · decide
    · exact hc.elim (digits c) (zeros _ c)
    · rcases hc with hc | rfl | hc
      · exact digits c (List.mem_of_mem_take hc)
      · decide
      · exact digits c (List.mem_of_mem_drop hc)
    · rcases hc with (rfl | rfl | hc) | hc
      · decide
      · decide
      · exact zeros _ c hc
      · exact digits c hc
  · have exponent := (Text.isPlain_ofInt d.lead).2
    dsimp only [scientific] at hc
    simp only [List.mem_append, List.mem_cons] at hc
    rcases hc with ((hc | hc) | rfl | hc) | hc
    · exact digits c (List.mem_of_mem_take hc)
    · split at hc
      · cases hc
      · rcases List.mem_cons.mp hc with rfl | hc
        · decide
        · exact digits c (List.mem_of_mem_drop hc)
    · decide
    · split_ifs at hc
      · obtain rfl : c = '+' := by simpa using hc
        decide
      · cases hc
    · exact exponent c hc

theorem isPlain_text {l : Layout} (nan : l.nan.IsPlain) (infinity : l.infinity.IsPlain)
    (negativeInfinity : l.negativeInfinity.IsPlain) (x : Float) : (text l x).IsPlain := by
  dsimp only [text]
  split_ifs
  · exact nan
  · exact negativeInfinity
  · exact infinity
  · refine ⟨by simp, fun c hc => ?_⟩
    rcases List.mem_cons.mp hc with rfl | hc
    · decide
    · exact (isPlain_layOut l _).2 c hc
  · exact isPlain_layOut l _

end Decimal
end TypedProperties
