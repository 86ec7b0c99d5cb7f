import Mathlib.Algebra.Order.Ring.Nat
import Mathlib.Tactic.NormNum
import Mathlib.Tactic.Ring
import TypedProperties.Decimal.Binary

/-! The nearest pattern depends on the value of a quotient only, and a pattern is the nearest one to
its own value. -/
namespace TypedProperties
namespace Binary

/-- A quotient below a power of two. -/
def Below (num den : Nat) (e : Int) : Prop := num * 2 ^ (-e).toNat < den * 2 ^ e.toNat

instance (num den : Nat) (e : Int) : Decidable (Below num den e) := Nat.decLt _ _

section Places

variable {num den : Nat}

theorem Below.mono {e e' : Int} (h : e ≤ e') (below : Below num den e) : Below num den e' := by
  calc num * 2 ^ (-e').toNat ≤ num * 2 ^ (-e).toNat :=
        Nat.mul_le_mul_left _ (Nat.pow_le_pow_right (by decide) (by omega))
    _ < den * 2 ^ e.toNat := below
    _ ≤ den * 2 ^ e'.toNat := Nat.mul_le_mul_left _ (Nat.pow_le_pow_right (by decide) (by omega))

theorem below_add_iff {k : Nat} {q : Int} :
    Below num den (k + q) ↔ num * 2 ^ (-q).toNat < 2 ^ k * (den * 2 ^ q.toNat) := by
  obtain ⟨i, hi⟩ : ∃ i, (-q).toNat = (-(k + q)).toNat + i := ⟨_, (Nat.add_sub_cancel' (by omega)).symm⟩
  have shifted : (k + q : Int).toNat + i = k + q.toNat := by omega
  have left : num * 2 ^ (-q).toNat = num * 2 ^ (-(k + q)).toNat * 2 ^ i := by
    rw [hi, Nat.pow_add, Nat.mul_assoc]
  have right : 2 ^ k * (den * 2 ^ q.toNat) = den * 2 ^ (k + q : Int).toNat * 2 ^ i := by
    rw [Nat.mul_assoc den, ← Nat.pow_add, shifted, Nat.pow_add]
    ring
  rw [left, right, Nat.mul_lt_mul_right (by positivity), Below]

theorem below_mul_iff {k : Nat} (pos : 0 < k) {e : Int} :
    Below (k * num) (k * den) e ↔ Below num den e := by
  rw [Below, Below, Nat.mul_assoc, Nat.mul_assoc, Nat.mul_lt_mul_left pos]

/-- The exponent of the last place of the pattern nearest to a quotient. -/
structure IsPlace (num den : Nat) (p : Int) : Prop where
  least : -1074 ≤ p
  below : Below num den ((53 : Nat) + p)
  normal : p = -1074 ∨ ¬ Below num den ((52 : Nat) + p)

theorem IsPlace.unique {p p' : Int} (h : IsPlace num den p) (h' : IsPlace num den p') : p = p' := by
  have above {p p' : Int} (h : IsPlace num den p) (h' : IsPlace num den p') : p' ≤ p := by
    by_contra less
    rcases h'.normal with least | normal
    · have := h.least
      omega
    · exact normal (h.below.mono (by push_cast; omega))
  exact Int.le_antisymm (above h' h) (above h h')

/-- A quotient lies less than one power of two around that of its binary lengths. -/
theorem below_log2 (num : Nat) (hd : 0 < den) :
    Below num den ((num.log2 : Int) - den.log2 + 1) := by
  have upper : num < 2 ^ (num.log2 + 1) := Nat.lt_log2_self
  have lower : 2 ^ den.log2 ≤ den := Nat.log2_self_le (by omega)
  calc num * 2 ^ (-((num.log2 : Int) - den.log2 + 1)).toNat
      < 2 ^ (num.log2 + 1) * 2 ^ (-((num.log2 : Int) - den.log2 + 1)).toNat :=
        (Nat.mul_lt_mul_right (by positivity)).mpr upper
    _ = 2 ^ den.log2 * 2 ^ ((num.log2 : Int) - den.log2 + 1).toNat := by
        rw [← Nat.pow_add, ← Nat.pow_add]
        congr 1
        omega
    _ ≤ den * 2 ^ ((num.log2 : Int) - den.log2 + 1).toNat := Nat.mul_le_mul_right _ lower

theorem not_below_log2 (hn : 0 < num) (den : Nat) :
    ¬ Below num den ((num.log2 : Int) - den.log2 - 1) := by
  have upper : den < 2 ^ (den.log2 + 1) := Nat.lt_log2_self
  have lower : 2 ^ num.log2 ≤ num := Nat.log2_self_le (by omega)
  refine Nat.not_lt.mpr ?_
  calc den * 2 ^ ((num.log2 : Int) - den.log2 - 1).toNat
      ≤ 2 ^ (den.log2 + 1) * 2 ^ ((num.log2 : Int) - den.log2 - 1).toNat :=
        Nat.mul_le_mul_right _ upper.le
    _ = 2 ^ num.log2 * 2 ^ (-((num.log2 : Int) - den.log2 - 1)).toNat := by
        rw [← Nat.pow_add, ← Nat.pow_add]
        congr 1
        omega
    _ ≤ num * 2 ^ (-((num.log2 : Int) - den.log2 - 1)).toNat := Nat.mul_le_mul_right _ lower

theorem isPlace_placeOf (hn : 0 < num) (hd : 0 < den) : IsPlace num den (placeOf num den) := by
  have above := below_log2 num hd
  have under := not_below_log2 hn den
  have divided (q : Int) : Nat.pow 2 53 ≤ num * Nat.pow 2 (-q).toNat / (den * Nat.pow 2 q.toNat) ↔
      ¬ Below num den ((53 : Nat) + q) := by
    rw [below_add_iff, Nat.not_lt]
    exact Nat.le_div_iff_mul_le (Nat.mul_pos hd (Nat.pow_pos (by decide)))
  have eq (q : Int) (hq : q = max ((num.log2 : Int) - den.log2 - 53) (-1074)) :
      placeOf num den = if Below num den ((53 : Nat) + q) then q else q + 1 := by
    subst hq
    rw [← ite_not]
    exact if_congr (divided _) rfl rfl
  rw [eq _ rfl]
  split
  next fits =>
    refine ⟨by omega, fits, ?_⟩
    by_cases least : (num.log2 : Int) - den.log2 - 53 ≤ -1074
    · exact .inl (by omega)
    · refine .inr fun below => under (below.mono (by push_cast; omega))
  next full =>
    refine ⟨by omega, above.mono (by push_cast; omega), .inr fun below => full ?_⟩
    exact below.mono (by push_cast; omega)

end Places

theorem IsPlace.mul {num den k : Nat} (pos : 0 < k) {p : Int} (h : IsPlace num den p) :
    IsPlace (k * num) (k * den) p where
  least := h.least
  below := (below_mul_iff pos).mpr h.below
  normal := h.normal.imp_right fun above below => above ((below_mul_iff pos).mp below)

theorem roundHalfEven_mul {k : Nat} (pos : 0 < k) (num den : Nat) :
    roundHalfEven (k * num) (k * den) = roundHalfEven num den := by
  have less : k * den < 2 * (k * (num % den)) ↔ den < 2 * (num % den) := by
    rw [Nat.mul_left_comm, Nat.mul_lt_mul_left pos]
  have half : 2 * (k * (num % den)) = k * den ↔ 2 * (num % den) = den := by
    rw [Nat.mul_left_comm, Nat.mul_right_inj pos.ne']
  simp only [roundHalfEven, Nat.mul_div_mul_left _ _ pos, Nat.mul_mod_mul_left, less, half]

theorem nearest_mul {k num den : Nat} (pos : 0 < k) (hd : 0 < den) :
    nearest (k * num) (k * den) = nearest num den := by
  by_cases hn : num = 0
  · rw [hn, Nat.mul_zero, nearest, nearest, if_pos rfl, if_pos rfl]
  · have place : placeOf (k * num) (k * den) = placeOf num den :=
      (isPlace_placeOf (Nat.mul_pos pos (by omega)) (Nat.mul_pos pos hd)).unique
        ((isPlace_placeOf (by omega) hd).mul pos)
    have scaled : k * num ≠ 0 := Nat.mul_ne_zero pos.ne' hn
    rw [nearest, nearest, if_neg scaled, if_neg hn]
    simp only [place, Nat.mul_assoc k, roundHalfEven_mul pos]

theorem nearest_congr {num den num' den' : Nat} (hd : 0 < den) (hd' : 0 < den')
    (same : num * den' = num' * den) : nearest num den = nearest num' den' := by
  rw [← nearest_mul hd' hd, ← nearest_mul hd hd', Nat.mul_comm den' num, same, Nat.mul_comm num' den,
    Nat.mul_comm den' den]

theorem roundHalfEven_whole {m den : Nat} (hd : 0 < den) : roundHalfEven (m * den) den = m := by
  simp [roundHalfEven, Nat.mul_div_cancel _ hd, hd.ne]

theorem decode_eq {bits : Nat} (h : bits < infinity) {m : Nat} {q : Int} (d : decode bits = (m, q)) :
    bits = (q + 1074).toNat * 2 ^ 52 + m ∧ m < 2 ^ 53 ∧ -1074 ≤ q ∧ q ≤ 971 ∧
      (q = -1074 ∨ 2 ^ 52 ≤ m) := by
  change bits < 0x7ff * 2 ^ 52 at h
  dsimp only [decode] at d
  change (if bits / 2 ^ 52 = 0 then (bits % 2 ^ 52, (-1074 : Int))
    else (2 ^ 52 + bits % 2 ^ 52, ((bits / 2 ^ 52 : Nat) : Int) - 1075)) = _ at d
  split at d <;> obtain ⟨rfl, rfl⟩ := Prod.mk.inj d <;> omega

theorem nearest_decode {bits : Nat} (h : bits < infinity) {m : Nat} {q : Int}
    (d : decode bits = (m, q)) : nearest (m * 2 ^ q.toNat) (2 ^ (-q).toNat) = bits := by
  obtain ⟨e, small, least, -, normal⟩ := decode_eq h d
  by_cases hm : m = 0
  · subst hm
    rw [Nat.zero_mul, nearest, if_pos rfl]
    omega
  have pos : 0 < 2 ^ (-q).toNat * 2 ^ q.toNat := by positivity
  have value : m * 2 ^ q.toNat * 2 ^ (-q).toNat = m * (2 ^ (-q).toNat * 2 ^ q.toNat) := by ring
  have below (k : Nat) : Below (m * 2 ^ q.toNat) (2 ^ (-q).toNat) (k + q) ↔ m < 2 ^ k := by
    rw [below_add_iff, value, Nat.mul_lt_mul_right pos]
  have place : placeOf (m * 2 ^ q.toNat) (2 ^ (-q).toNat) = q := by
    refine (isPlace_placeOf (by positivity) (by positivity)).unique ⟨least, (below 53).mpr small, ?_⟩
    exact normal.imp_right fun normal => (below 52).not.mpr (by omega)
  rw [nearest, if_neg (by positivity), place]
  change min ((q + 1074).toNat * 2 ^ 52 +
    roundHalfEven (m * 2 ^ q.toNat * 2 ^ (-q).toNat) (2 ^ (-q).toNat * 2 ^ q.toNat)) infinity = bits
  rw [value, roundHalfEven_whole pos, ← e]
  omega

end Binary
end TypedProperties
