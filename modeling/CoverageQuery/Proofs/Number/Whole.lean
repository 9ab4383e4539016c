import CoverageQuery.Proofs.Number.Nearest

/-!
# Whole numbers are finite

The magnitude nearest to a whole number of sixty-four bits exists: scaled to a mantissa of fifty-three
bits the number rounds to one of these or to the next power of two, and its exponent is far below the
largest.
-/
namespace CoverageQuery

theorem roundHalfEven_cases (num den : Nat) :
    roundHalfEven num den = num / den ∨ roundHalfEven num den = num / den + 1 := by
  unfold roundHalfEven
  dsimp only
  split
  · exact .inr rfl
  · exact .inl rfl

namespace Magnitude

theorem exists_of? {mantissa exponent : Nat} (hlow : 2 ^ 52 ≤ mantissa) (hhigh : mantissa < 2 ^ 53)
    (hexponent : exponent ≤ 2045) : ∃ x, of? mantissa exponent = some x :=
  ⟨_, dif_pos ⟨hhigh, .inr hlow, hexponent⟩⟩

theorem exists_nearest?_of_log2 {num den e : Nat}
    (he : Nat.log2 (num * Nat.pow 2 1074 / den) = e + 52) (hmax : e < 2045) :
    ∃ x, nearest? num den = some x := by
  have hround := roundHalfEven_cases (num * Nat.pow 2 1074) (den * Nat.pow 2 e)
  rw [← Nat.div_div_eq_div_mul] at hround
  simp only [nearest?, he, Nat.add_sub_cancel]
  generalize roundHalfEven (num * Nat.pow 2 1074) (den * Nat.pow 2 e) = mantissa at hround ⊢
  generalize num * Nat.pow 2 1074 / den = scaled at he hround
  simp only [Nat.pow_eq] at hround ⊢
  have hne : scaled ≠ 0 := by
    rintro rfl
    simp at he
  have hlow : 2 ^ 52 ≤ scaled / 2 ^ e := by
    rw [Nat.le_div_iff_mul_le (by positivity), ← pow_add, Nat.add_comm, ← he]
    exact Nat.log2_self_le hne
  have hhigh : scaled / 2 ^ e < 2 ^ 53 := by
    rw [Nat.div_lt_iff_lt_mul (by positivity), ← pow_add, show 53 + e = e + 52 + 1 by omega, ← he]
    exact Nat.lt_log2_self
  split
  · exact exists_of? (Nat.le_refl _) (by decide) (by omega)
  · exact exists_of? (by omega) (by omega) (by omega)

theorem log2_mul_pow {n : Nat} (h : n ≠ 0) (k : Nat) :
    Nat.log2 (n * Nat.pow 2 k) = Nat.log2 n + k := by
  rw [Nat.pow_eq, Nat.log2_eq_iff (Nat.mul_ne_zero h (by positivity)), Nat.add_right_comm, pow_add,
    pow_add]
  exact ⟨Nat.mul_le_mul_right _ (Nat.log2_self_le h),
    Nat.mul_lt_mul_of_pos_right Nat.lt_log2_self (by positivity)⟩

theorem exists_nearest? {n : Nat} (hpos : 0 < n) (h : n < 2 ^ 64) :
    ∃ x, nearest? n 1 = some x := by
  have hlog : Nat.log2 n < 64 := (Nat.log2_lt hpos.ne').2 h
  refine exists_nearest?_of_log2 (e := Nat.log2 n + 1022) ?_ (by omega)
  simp only [Nat.div_one, log2_mul_pow hpos.ne']

theorem exists_ofDecimal? {n : Nat} (h : n < 2 ^ 64) : ∃ x, ofDecimal? n 0 = some x := by
  by_cases hzero : n = 0
  · exact ⟨zero, by rw [hzero, ofDecimal?_zero]⟩
  · have hcount : Digits.count n ≤ 20 := Digits.count_le_of_lt_pow (by decide) (by omega)
    obtain ⟨x, hx⟩ := exists_nearest? (Nat.pos_of_ne_zero hzero) h
    refine ⟨x, ?_⟩
    rw [ofDecimal?_eq, if_neg (by omega), if_neg (by omega)]
    simpa using hx

end Magnitude

theorem Binary64.isFinite_ofDecimal {n : Nat} (h : n < 2 ^ 64) (negative : Bool) :
    (ofDecimal negative n 0).isFinite = true := by
  obtain ⟨x, hx⟩ := Magnitude.exists_ofDecimal? h
  rw [ofDecimal, hx]
  rfl

end CoverageQuery
