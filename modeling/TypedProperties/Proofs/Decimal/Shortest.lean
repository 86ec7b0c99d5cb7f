import TypedProperties.Decimal.Shortest
import TypedProperties.Proofs.Decimal.Nearest

/-! The shortest decimal of a pattern reads back as it. -/
namespace TypedProperties
namespace Decimal

theorem length_mul_ten {n : Nat} (pos : 0 < n) (e e' : Int) :
    length ⟨n * 10, e⟩ = length ⟨n, e'⟩ + 1 := by
  change (Nat.toDigits 10 (n * 10)).length = (Nat.toDigits 10 n).length + 1
  rw [Nat.toDigits_of_base_le (by decide) (by omega), Nat.mul_div_cancel _ (by decide)]
  simp

theorem toBits_mul_ten (n : Nat) (e : Int) : toBits ⟨n * 10, e⟩ = toBits ⟨n, e + 1⟩ := by
  rcases Nat.eq_zero_or_pos n with rfl | pos
  · rw [toBits, toBits, if_pos rfl, if_pos rfl]
  have lead : lead ⟨n * 10, e⟩ = lead ⟨n, e + 1⟩ := by
    rw [lead, lead, length_mul_ten pos e (e + 1)]
    push_cast
    ring
  simp only [toBits, lead]
  have digits : n * 10 ≠ 0 := by omega
  rw [if_neg digits, if_neg pos.ne']
  split_ifs
  · rfl
  · rfl
  refine Binary.nearest_congr (Nat.pow_pos (by decide)) (Nat.pow_pos (by decide)) ?_
  change n * 10 * 10 ^ e.toNat * 10 ^ (-(e + 1)).toNat = n * 10 ^ (e + 1).toNat * 10 ^ (-e).toNat
  have shifted : 1 + e.toNat + (-(e + 1)).toNat = (e + 1).toNat + (-e).toNat := by omega
  calc n * 10 * 10 ^ e.toNat * 10 ^ (-(e + 1)).toNat
      = n * 10 ^ (1 + e.toNat + (-(e + 1)).toNat) := by ring
    _ = n * 10 ^ (e + 1).toNat * 10 ^ (-e).toNat := by rw [shifted]; ring

theorem toBits_mul_pow (n k : Nat) (e : Int) : toBits ⟨n * 10 ^ k, e⟩ = toBits ⟨n, e + k⟩ := by
  induction k generalizing e with
  | zero => simp
  | succ k ih =>
    rw [Nat.pow_succ, ← Nat.mul_assoc, toBits_mul_ten, ih]
    congr 2
    push_cast
    ring

@[simp] theorem toBits_normal (d : Decimal) : d.normal.toBits = d.toBits := by
  have going (fuel n : Nat) (e : Int) : (normal.go fuel n e).toBits = toBits ⟨n, e⟩ := by
    induction fuel generalizing n e with
    | zero => rfl
    | succ fuel ih =>
      rw [normal.go]
      split_ifs with zero
      · rw [ih, ← toBits_mul_ten, Nat.div_mul_cancel (Nat.dvd_of_mod_eq_zero zero.2)]
      · rfl
  exact going _ _ _

theorem toBits_of_onGrid {tie : Tie} {bits num den : Nat} {e : Int} {d : Decimal}
    (h : onGrid tie bits num den e = some d) : d.toBits = bits := by
  dsimp only [onGrid] at h
  split_ifs at h with both up low high <;> obtain rfl := Option.some.inj h
  · exact both.2
  · exact both.1
  · exact low
  · exact high

theorem length_le_iff {n k : Nat} (e : Int) (pos : 0 < k) : length ⟨n, e⟩ ≤ k ↔ n < 10 ^ k :=
  Nat.length_toDigits_le_iff (by decide) pos

theorem length_pos (d : Decimal) : 0 < d.length := Nat.length_toDigits_pos

theorem ten_pow (k : Nat) : 10 ^ k = 5 ^ k * 2 ^ k := by
  rw [← Nat.mul_pow]

theorem lead_exact {m : Nat} {q : Int} (pos : 0 < m) (small : m < 2 ^ 53) (least : -1074 ≤ q)
    (greatest : q ≤ 971) : -324 ≤ (exact m q).lead ∧ (exact m q).lead < 309 := by
  have shown := length_pos (exact m q)
  unfold lead
  by_cases whole : 0 ≤ q
  · have e : exact m q = ⟨m * 2 ^ q.toNat, 0⟩ := if_pos whole
    rw [e] at shown ⊢
    have bound : m * 2 ^ q.toNat < 10 ^ 309 := by
      calc m * 2 ^ q.toNat < 2 ^ 53 * 2 ^ q.toNat := (Nat.mul_lt_mul_right (by positivity)).mpr small
        _ ≤ 2 ^ 53 * 2 ^ 971 := Nat.mul_le_mul_left _ (Nat.pow_le_pow_right (by decide) (by omega))
        _ ≤ 10 ^ 309 := by decide +kernel
    have := (length_le_iff 0 (by decide)).mpr bound
    dsimp only
    exact ⟨by omega, by omega⟩
  · have e : exact m q = ⟨m * 5 ^ (-q).toNat, q⟩ := if_neg whole
    obtain ⟨k, hk⟩ : ∃ k, (-q).toNat = k := ⟨_, rfl⟩
    rw [e, hk] at shown ⊢
    have upper : m * 5 ^ k < 10 ^ (16 + k) := by
      calc m * 5 ^ k < 2 ^ 53 * 5 ^ k := (Nat.mul_lt_mul_right (by positivity)).mpr small
        _ ≤ 10 ^ 16 * 10 ^ k := Nat.mul_le_mul (by decide) (Nat.pow_le_pow_left (by decide) k)
        _ = 10 ^ (16 + k) := (Nat.pow_add _ _ _).symm
    have lower (far : 324 < k) : 10 ^ (k - 324) ≤ m * 5 ^ k := by
      refine Nat.le_of_mul_le_mul_right ?_ (show 0 < 2 ^ k by positivity)
      calc 10 ^ (k - 324) * 2 ^ k ≤ 10 ^ (k - 324) * 2 ^ 1074 :=
            Nat.mul_le_mul_left _ (Nat.pow_le_pow_right (by decide) (by omega))
        _ ≤ 10 ^ (k - 324) * 10 ^ 324 := Nat.mul_le_mul_left _ (by decide +kernel)
        _ = 10 ^ k := by rw [← Nat.pow_add, Nat.sub_add_cancel far.le]
        _ = 1 * 5 ^ k * 2 ^ k := by rw [ten_pow, Nat.one_mul]
        _ ≤ m * 5 ^ k * 2 ^ k := Nat.mul_le_mul_right _ (Nat.mul_le_mul_right _ pos)
    have high := (length_le_iff q (by omega)).mpr upper
    have low (far : 324 < k) : ¬ length ⟨m * 5 ^ k, q⟩ ≤ k - 324 := by
      rw [length_le_iff q (by omega)]
      exact Nat.not_lt.mpr (lower far)
    dsimp only
    by_cases far : 324 < k
    · have := low far
      exact ⟨by omega, by omega⟩
    · exact ⟨by omega, by omega⟩

theorem toBits_exact {bits : Nat} (h : bits < Binary.infinity) {m : Nat} {q : Int}
    (d : Binary.decode bits = (m, q)) (pos : 0 < m) : (exact m q).toBits = bits := by
  obtain ⟨e, small, least, greatest, normal⟩ := Binary.decode_eq h d
  obtain ⟨low, high⟩ := lead_exact pos small least greatest
  have digits : (exact m q).digits ≠ 0 := by
    unfold exact
    split <;> exact Nat.mul_ne_zero pos.ne' (Nat.pow_pos (by decide)).ne'
  rw [toBits, if_neg digits, if_neg (by omega), if_neg (by omega), ← Binary.nearest_decode h d]
  refine Binary.nearest_congr (Nat.pow_pos (by decide)) (Nat.pow_pos (by decide)) ?_
  unfold exact
  split
  next h =>
    have none : (-q).toNat = 0 := by omega
    simp [none]
  next h =>
    have none : q.toNat = 0 := by omega
    simp only [none]
    change m * 5 ^ (-q).toNat * 1 * 2 ^ (-q).toNat = m * 1 * 10 ^ (-q).toNat
    rw [ten_pow]
    ring

theorem toBits_shortest (tie : Tie) {bits : Nat} (h : bits < Binary.infinity) :
    (shortest tie bits).toBits = bits := by
  cases d : Binary.decode bits with
  | mk m q =>
    obtain ⟨e, -, -, -, normal⟩ := Binary.decode_eq h d
    dsimp only [shortest]
    rw [d]
    dsimp only
    split_ifs with zero
    · subst zero
      change 0 = bits
      omega
    · cases q' : Binary.quotient m q with
      | mk num den =>
        dsimp only
        split
        next d found =>
          obtain ⟨e, -, hit⟩ := List.exists_of_findSome?_eq_some found
          rw [toBits_normal, toBits_of_onGrid hit]
        · exact toBits_exact h d (by omega)

end Decimal
end TypedProperties
