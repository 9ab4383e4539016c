import CoverageQuery.Number.Shortest
import CoverageQuery.Proofs.Number.Digits

/-!
# The shortest decimal reads back

The magnitude nearest to a quotient depends on the value of the quotient alone, not on how it is
written, and a magnitude is nearest to its own value. So the magnitude of a decimal stays when zeros
are put at the end of its digits, and the shortest decimal of a magnitude reads back as it: a grid
only has an answer that reads back, and without one the exact value is written.
-/
namespace CoverageQuery

theorem roundHalfEven_mul {k : Nat} (hk : 0 < k) (num den : Nat) :
    roundHalfEven (num * k) (den * k) = roundHalfEven num den := by
  have hlt : den * k < 2 * (num % den * k) ↔ den < 2 * (num % den) := by
    rw [← Nat.mul_assoc]
    exact Nat.mul_lt_mul_right hk
  have heq : den * k = 2 * (num % den * k) ↔ den = 2 * (num % den) := by
    rw [← Nat.mul_assoc]
    exact Nat.mul_left_inj hk.ne'
  simp only [roundHalfEven, Nat.mul_div_mul_right _ _ hk, Nat.mul_mod_mul_right, hlt, heq]

theorem roundHalfEven_exact {den : Nat} (hd : 0 < den) (n : Nat) :
    roundHalfEven (n * den) den = n := by
  have hne : den ≠ 0 := hd.ne'
  simp [roundHalfEven, Nat.mul_div_cancel n hd, hne]

namespace Magnitude

theorem eq_of_mantissa_exponent {x y : Magnitude} (hm : x.mantissa = y.mantissa)
    (he : x.exponent = y.exponent) : x = y := by
  cases x
  cases y
  simp_all

theorem of?_self (x : Magnitude) : of? x.mantissa x.exponent = some x := by
  have h := And.intro x.mantissa_lt (And.intro x.normalized x.exponent_le)
  rw [of?, dif_pos h]

theorem nearest?_mul {k : Nat} (hk : 0 < k) (num den : Nat) :
    nearest? (num * k) (den * k) = nearest? num den := by
  have hquot : num * k * Nat.pow 2 1074 / (den * k) = num * Nat.pow 2 1074 / den := by
    rw [Nat.mul_right_comm, Nat.mul_div_mul_right _ _ hk]
  have hround (e : Nat) : roundHalfEven (num * k * Nat.pow 2 1074) (den * k * Nat.pow 2 e)
      = roundHalfEven (num * Nat.pow 2 1074) (den * Nat.pow 2 e) := by
    rw [Nat.mul_right_comm num, Nat.mul_right_comm den, roundHalfEven_mul hk]
  simp only [nearest?, hquot, hround]

theorem nearest?_congr {num den num' den' : Nat} (hd : 0 < den) (hd' : 0 < den')
    (h : num * den' = num' * den) : nearest? num den = nearest? num' den' := by
  rw [← nearest?_mul hd' num den, h, Nat.mul_comm den den', nearest?_mul hd]

theorem mul_pow_sub_mul_pow (m a b : Nat) :
    m * Nat.pow 2 (a - b) * Nat.pow 2 b = m * Nat.pow 2 a * Nat.pow 2 (b - a) := by
  simp only [Nat.pow_eq, Nat.mul_assoc, ← pow_add]
  congr 2
  omega

theorem num_eq (x : Magnitude) :
    x.num * Nat.pow 2 1074 = x.mantissa * Nat.pow 2 x.exponent * x.den :=
  mul_pow_sub_mul_pow x.mantissa x.exponent 1074

theorem exponent_of_mantissa_eq_zero {x : Magnitude} (h : x.mantissa = 0) : x.exponent = 0 := by
  have hn := x.normalized
  simp only [Nat.pow_eq] at hn
  omega

theorem log2_value (x : Magnitude) :
    Nat.log2 (x.mantissa * Nat.pow 2 x.exponent) - 52 = x.exponent := by
  have hlt : x.mantissa < 2 ^ 53 := x.mantissa_lt
  rw [Nat.pow_eq]
  by_cases he : x.exponent = 0
  · by_cases hm : x.mantissa = 0
    · simp [hm, he]
    · have hl := (Nat.log2_lt hm).2 hlt
      rw [he, pow_zero, Nat.mul_one]
      omega
  · have hge : 2 ^ 52 ≤ x.mantissa := x.normalized.resolve_left he
    have hpos : 0 < 2 ^ x.exponent := by positivity
    have hlog : Nat.log2 (x.mantissa * 2 ^ x.exponent) = 52 + x.exponent := by
      refine (Nat.log2_eq_iff (Nat.mul_ne_zero (by omega) hpos.ne')).2 ⟨?_, ?_⟩
      · rw [pow_add]
        exact Nat.mul_le_mul_right _ hge
      · rw [Nat.add_right_comm, pow_add]
        exact Nat.mul_lt_mul_of_pos_right hlt hpos
    omega

theorem nearest?_self (x : Magnitude) : nearest? x.num x.den = some x := by
  have hd := x.den_pos
  have hne : x.mantissa ≠ Nat.pow 2 53 := ne_of_lt x.mantissa_lt
  have hround : roundHalfEven (x.num * Nat.pow 2 1074) (x.den * Nat.pow 2 x.exponent)
      = x.mantissa := by
    rw [num_eq, Nat.mul_assoc, Nat.mul_comm (Nat.pow 2 x.exponent)]
    exact roundHalfEven_exact (Nat.mul_pos hd (Nat.two_pow_pos _)) _
  have hlog : Nat.log2 (x.num * Nat.pow 2 1074 / x.den) - 52 = x.exponent := by
    rw [num_eq, Nat.mul_div_cancel _ hd, log2_value]
  simp only [nearest?, hlog, hround]
  rw [if_neg hne, of?_self]

theorem ofDecimal?_eq (digits : Nat) (exponent : Int) :
    ofDecimal? digits exponent =
      if digits = 0 ∨ exponent + Digits.count digits < -324 then some zero
      else if 310 < exponent + Digits.count digits then none
      else nearest? (digits * 10 ^ exponent.toNat) (10 ^ (-exponent).toNat) := by
  unfold ofDecimal?
  simp only [Nat.pow_eq]
  split
  · rfl
  · split
    · rfl
    · by_cases h : 0 ≤ exponent
      · rw [if_pos h, show (-exponent).toNat = 0 by omega, pow_zero]
      · rw [if_neg h, show exponent.toNat = 0 by omega, pow_zero, Nat.mul_one]

theorem ofDecimal?_shift (digits k : Nat) (exponent : Int) :
    ofDecimal? (digits * 10 ^ k) (exponent - k) = ofDecimal? digits exponent := by
  by_cases h0 : digits = 0
  · simp [ofDecimal?_eq, h0]
  · have hne : digits * 10 ^ k ≠ 0 := Nat.mul_ne_zero h0 (by positivity)
    have hpoint : exponent - k + Digits.count (digits * 10 ^ k)
        = exponent + Digits.count digits := by
      rw [Digits.count_mul_pow h0]
      push_cast
      ring
    have hpow : 10 ^ k * 10 ^ (exponent - k).toNat * 10 ^ (-exponent).toNat
        = 10 ^ exponent.toNat * 10 ^ (-(exponent - k)).toNat := by
      simp only [← pow_add]
      congr 1
      omega
    have hcross : digits * 10 ^ k * 10 ^ (exponent - k).toNat * 10 ^ (-exponent).toNat
        = digits * 10 ^ exponent.toNat * 10 ^ (-(exponent - k)).toNat := by
      rw [Nat.mul_assoc digits, Nat.mul_assoc digits, hpow, Nat.mul_assoc digits]
    have hnear := nearest?_congr (by positivity) (by positivity) hcross
    simp only [ofDecimal?_eq, hpoint, h0, hne, hnear]

theorem ofDecimal?_zero (exponent : Int) : ofDecimal? 0 exponent = some zero := by
  simp [ofDecimal?_eq]

theorem eq_zero_of_mantissa {x : Magnitude} (h : x.mantissa = 0) : x = zero :=
  eq_of_mantissa_exponent h (exponent_of_mantissa_eq_zero h)

/-- The exact value of a magnitude lies between the bounds beyond which decimals are not looked at.
-/
theorem exact_point {x : Magnitude} (h : x.mantissa ≠ 0) :
    -324 ≤ x.exact.exponent + Digits.count x.exact.digits ∧
      x.exact.exponent + Digits.count x.exact.digits ≤ 310 := by
  have hlt : x.mantissa < 2 ^ 53 := x.mantissa_lt
  have hexp : x.exponent ≤ 2045 := x.exponent_le
  obtain ⟨s, hs⟩ : ∃ s, 1074 - x.exponent = s := ⟨_, rfl⟩
  obtain ⟨r, hr⟩ : ∃ r, x.exponent - 1074 = r := ⟨_, rfl⟩
  simp only [exact, num, Nat.pow_eq, hs, hr]
  have hcount : 1 ≤ Digits.count (x.mantissa * 2 ^ r * 5 ^ s) := Digits.count_pos _
  have hlow : s ≤ 325 ∨ 10 ^ (s - 325) ≤ x.mantissa * 2 ^ r * 5 ^ s := by
    by_cases hsmall : s ≤ 325
    · exact .inl hsmall
    · right
      have hfive : 2 ^ (s - 325) ≤ 5 ^ 325 :=
        (Nat.pow_le_pow_right (by decide) (show s - 325 ≤ 749 by omega)).trans (by decide +kernel)
      calc 10 ^ (s - 325) = 2 ^ (s - 325) * 5 ^ (s - 325) := by rw [← Nat.mul_pow]
        _ ≤ 5 ^ 325 * 5 ^ (s - 325) := Nat.mul_le_mul_right _ hfive
        _ = 1 * 5 ^ s := by rw [← pow_add, Nat.one_mul, Nat.add_sub_cancel' (by omega)]
        _ ≤ x.mantissa * 2 ^ r * 5 ^ s :=
          Nat.mul_le_mul_right _ (Nat.mul_pos (by omega) (by positivity))
  have hhigh : x.mantissa * 2 ^ r * 5 ^ s < 10 ^ (310 + s) := by
    have hr971 : r ≤ 971 := by omega
    have htwo : x.mantissa * 2 ^ r < 10 ^ 310 :=
      calc x.mantissa * 2 ^ r < 2 ^ 53 * 2 ^ r := Nat.mul_lt_mul_of_pos_right hlt (by positivity)
        _ ≤ 2 ^ 53 * 2 ^ 971 := Nat.mul_le_mul_left _ (Nat.pow_le_pow_right (by decide) hr971)
        _ ≤ 10 ^ 310 := by decide +kernel
    have hfive : 5 ^ s ≤ 10 ^ s := Nat.pow_le_pow_left (by decide) s
    rw [pow_add]
    exact Nat.mul_lt_mul_of_lt_of_le htwo hfive (by positivity)
  have hle := Digits.count_le_of_lt_pow (by omega) hhigh
  rcases hlow with hlow | hlow
  · omega
  · have hgt := Digits.lt_count_of_pow_le hlow
    omega

theorem readsBack_exact (x : Magnitude) : x.readsBack x.exact = true := by
  rw [readsBack, decide_eq_true_eq]
  by_cases h : x.mantissa = 0
  · have hdigits : x.exact.digits = 0 := by simp only [exact, num, h, Nat.zero_mul]
    rw [hdigits, ofDecimal?_zero, eq_zero_of_mantissa h]
  · have hdigits : x.exact.digits ≠ 0 := by
      simp only [exact, num, Nat.pow_eq]
      exact Nat.mul_ne_zero (Nat.mul_ne_zero h (by positivity)) (by positivity)
    obtain ⟨hlow, hhigh⟩ := exact_point h
    rw [ofDecimal?_eq, if_neg (by simp only [hdigits, false_or]; omega), if_neg (by omega)]
    refine (nearest?_congr (by positivity) x.den_pos ?_).trans x.nearest?_self
    simp only [exact, den, Nat.pow_eq, Int.neg_neg, Int.toNat_natCast]
    rw [show (-((1074 - x.exponent : Nat) : Int)).toNat = 0 by omega, pow_zero, Nat.mul_one,
      Nat.mul_assoc, ← Nat.mul_pow]

theorem readsBack_shortest (tie : Tie) (x : Magnitude) :
    x.readsBack (x.shortest tie) = true := by
  unfold shortest
  cases hgrid : (List.range 17).findSome? fun i => x.onGrid? tie (i + 1) with
  | none => exact x.readsBack_exact
  | some d =>
    obtain ⟨i, _, hi⟩ := List.exists_of_findSome?_eq_some hgrid
    exact readsBack_of_onGrid hi

theorem ofDecimal?_shortest (tie : Tie) (x : Magnitude) :
    ofDecimal? (x.shortest tie).digits (x.shortest tie).exponent = some x :=
  of_decide_eq_true (x.readsBack_shortest tie)

theorem shortest_digits_ne_zero {tie : Tie} {x : Magnitude} (h : x.mantissa ≠ 0) :
    (x.shortest tie).digits ≠ 0 := by
  intro h0
  have hback := x.ofDecimal?_shortest tie
  rw [h0, ofDecimal?_zero] at hback
  exact h (congrArg Magnitude.mantissa (Option.some.inj hback)).symm

end Magnitude
end CoverageQuery
