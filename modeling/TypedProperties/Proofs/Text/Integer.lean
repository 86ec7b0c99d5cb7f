import TypedProperties.Text.Integer

/-! Decimal integers: what is written reads back. -/
namespace TypedProperties
namespace Text

theorem readDigits_eq {t : Text} (h : ∀ c ∈ t, c.isDigit = true) (start : Nat) :
    readDigits start t = some (Nat.ofDigitChars 10 t start) := by
  induction t generalizing start with
  | nil => simp [readDigits]
  | cons c t ih =>
    have hc : digitValue c = some (c.toNat - '0'.toNat) := if_pos (h c List.mem_cons_self)
    rw [readDigits, hc, Nat.ofDigitChars_cons]
    exact ih (fun d hd => h d (List.mem_cons_of_mem _ hd)) _

theorem readNat_eq {t : Text} (h : ∀ c ∈ t, c.isDigit = true) (some : t ≠ []) :
    readNat t = .some (Nat.ofDigitChars 10 t 0) := by
  cases t with
  | nil => exact absurd rfl some
  | cons c t => exact readDigits_eq h 0

theorem isDigit_ofNat {n : Nat} {c : Char} (h : c ∈ ofNat n) : c.isDigit = true :=
  Nat.isDigit_of_mem_toDigits (by decide) (by decide) h

@[simp] theorem ofNat_ne_nil (n : Nat) : ofNat n ≠ [] := Nat.toDigits_ne_nil

theorem ofNat_cons (n : Nat) : ∃ c cs, ofNat n = c :: cs ∧ c.isDigit = true := by
  cases h : ofNat n with
  | nil => exact absurd h (ofNat_ne_nil n)
  | cons c cs => exact ⟨c, cs, rfl, isDigit_ofNat (h ▸ List.mem_cons_self)⟩

@[simp] theorem readNat_ofNat (n : Nat) : readNat (ofNat n) = some n := by
  rw [readNat_eq (fun _ => isDigit_ofNat) (ofNat_ne_nil n), ofNat, Nat.ofDigitChars_ten_toDigits]

/-- A text that begins with a digit begins with nothing else, such as a sign. -/
theorem isDigit_of_cons_eq {c d : Char} {cs ds : Text} (digit : c.isDigit = true) (same : c :: cs = d :: ds) :
    d.isDigit = true := by
  obtain rfl := (List.cons.inj same).1
  exact digit

theorem readSigned_of_isDigit (bound : Nat) {c : Char} (cs : Text) (h : c.isDigit = true) :
    readSigned bound (c :: cs) = ((readNat (c :: cs)).filter (· < bound)).map Int.ofNat := by
  unfold readSigned
  split
  next minus => cases isDigit_of_cons_eq h minus
  next plus => cases isDigit_of_cons_eq h plus
  · rfl

theorem readSigned_ofNat {bound n : Nat} (h : n < bound) :
    readSigned bound (ofNat n) = some (n : Int) := by
  obtain ⟨c, cs, e, digit⟩ := ofNat_cons n
  rw [e, readSigned_of_isDigit bound cs digit, ← e, readNat_ofNat, Option.filter_some,
    if_pos (decide_eq_true h)]
  rfl

theorem readSigned_ofInt (bound : Nat) {v : Int} (low : -bound ≤ v) (high : v < bound) :
    readSigned bound (ofInt v) = some v := by
  cases v with
  | ofNat n => exact readSigned_ofNat (Int.ofNat_lt.mp high)
  | negSucc n =>
    have h : n + 1 ≤ bound := by omega
    rw [ofInt, readSigned, readNat_ofNat, Option.filter_some, if_pos (decide_eq_true h)]
    rfl

end Text
end TypedProperties
