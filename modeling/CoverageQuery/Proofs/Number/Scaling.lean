import CoverageQuery.Number.Scaling
import CoverageQuery.Proofs.Number.Whole

/-!
# When scaling rounds only once

Whole numbers below `2 ^ 53` are magnitudes, and so are the powers of ten up to the twenty-second. The
product or the quotient of two such numbers is the magnitude nearest to its exact value, and scaling by
`10 ^ 0` changes nothing.
-/
namespace CoverageQuery.Magnitude

def IsWhole (x : Magnitude) (n : Nat) : Prop := x.num = n * x.den

theorem isWhole_powerOfTen {k : Nat} (h : k ≤ 22) : (powerOfTen k).IsWhole (10 ^ k) := by
  have hall : ∀ k < 23, (powerOfTen k).num = 10 ^ k * (powerOfTen k).den := by decide +kernel
  exact hall k (by omega)

theorem exists_isWhole {n : Nat} (h : n < 2 ^ 53) : ∃ x : Magnitude, x.IsWhole n := by
  by_cases hzero : n = 0
  · refine ⟨zero, ?_⟩
    rw [IsWhole, hzero, Nat.zero_mul]
    exact Nat.zero_mul _
  have hlog : Nat.log2 n < 53 := (Nat.log2_lt hzero).2 h
  obtain ⟨shift, hshift⟩ : ∃ shift, Nat.log2 n + shift = 52 := ⟨52 - Nat.log2 n, by omega⟩
  have hlow : 2 ^ 52 ≤ n * 2 ^ shift := by
    rw [← hshift, pow_add]
    exact Nat.mul_le_mul_right _ (Nat.log2_self_le hzero)
  have hhigh : n * 2 ^ shift < 2 ^ 53 := by
    rw [show 53 = Nat.log2 n + 1 + shift by omega, pow_add]
    exact Nat.mul_lt_mul_of_pos_right Nat.lt_log2_self (by positivity)
  refine ⟨⟨n * 2 ^ shift, 1074 - shift, hhigh, .inr hlow, by omega⟩, ?_⟩
  simp only [IsWhole, num, den, Nat.pow_eq, show 1074 - shift - 1074 = 0 by omega,
    show 1074 - (1074 - shift) = shift by omega, pow_zero, Nat.mul_one]

theorem nearest?_zero {den : Nat} (h : 0 < den) : nearest? 0 den = some zero := by
  rw [← zero.nearest?_self]
  refine nearest?_congr h zero.den_pos ?_
  rw [Nat.zero_mul]
  exact (Nat.mul_eq_zero.2 (.inl (Nat.zero_mul _))).symm

theorem IsWhole.nearest? {x : Magnitude} {n : Nat} (h : x.IsWhole n) :
    Magnitude.nearest? n 1 = some x := by
  rw [← x.nearest?_self]
  refine nearest?_congr Nat.one_pos x.den_pos ?_
  rw [h, Nat.mul_one]

theorem IsWhole.times? {x y : Magnitude} {m n : Nat} (hx : x.IsWhole m) (hy : y.IsWhole n) :
    x.times? y = Magnitude.nearest? (m * n) 1 := by
  refine nearest?_congr (Nat.mul_pos x.den_pos y.den_pos) Nat.one_pos ?_
  rw [hx, hy, Nat.mul_one, Nat.mul_mul_mul_comm]

theorem IsWhole.over? {x y : Magnitude} {m n : Nat} (hx : x.IsWhole m) (hy : y.IsWhole n)
    (hn : 0 < n) : x.over? y = Magnitude.nearest? m n := by
  have hpos : 0 < y.num := by
    rw [hy]
    exact Nat.mul_pos hn y.den_pos
  refine nearest?_congr (Nat.mul_pos x.den_pos hpos) hn ?_
  rw [hx, hy]
  ring

theorem scale?_of_nonneg {x : Magnitude} {exponent : Int} (h : 0 ≤ exponent)
    (hle : exponent.toNat ≤ greatestPower) :
    x.scale? exponent = x.times? (powerOfTen exponent.toNat) := by
  have habs : exponent.natAbs = exponent.toNat := by omega
  unfold scale?
  dsimp only
  rw [if_pos h, habs, if_pos hle]

theorem scale?_of_neg {x : Magnitude} {exponent : Int} (h : exponent < 0)
    (hle : (-exponent).toNat ≤ greatestPower) :
    x.scale? exponent = x.over? (powerOfTen (-exponent).toNat) := by
  have habs : exponent.natAbs = (-exponent).toNat := by omega
  have hsteps : ((-exponent).toNat - 1) / greatestPower = 0 :=
    Nat.div_eq_of_lt (by simp only [greatestPower] at hle ⊢; omega)
  unfold scale?
  dsimp only
  rw [if_neg (by omega), habs, hsteps, lower?, Option.bind_some, Nat.mul_zero, Nat.sub_zero]

theorem scale?_zero (x : Magnitude) : x.scale? 0 = some x := by
  have hone : (powerOfTen 0).IsWhole 1 := isWhole_powerOfTen (by decide)
  rw [scale?_of_nonneg (Int.le_refl 0) (by decide), ← x.nearest?_self]
  refine nearest?_congr (Nat.mul_pos x.den_pos (den_pos _)) x.den_pos ?_
  rw [show (0 : Int).toNat = 0 from rfl, hone]
  ring

theorem nearest?_scale? {n : Nat} {exponent : Int} (h : n < 2 ^ 53)
    (hexponent : exponent.natAbs ≤ 22) :
    ((nearest? n 1).bind fun x => x.scale? exponent) =
      nearest? (n * 10 ^ exponent.toNat) (10 ^ (-exponent).toNat) := by
  obtain ⟨x, hx⟩ := exists_isWhole h
  rw [hx.nearest?, Option.bind_some]
  by_cases hsign : 0 ≤ exponent
  · have hpower := isWhole_powerOfTen (show exponent.toNat ≤ 22 by omega)
    rw [scale?_of_nonneg hsign (by simp only [greatestPower]; omega), hx.times? hpower,
      show (-exponent).toNat = 0 by omega, pow_zero]
  · have hpower := isWhole_powerOfTen (show (-exponent).toNat ≤ 22 by omega)
    rw [scale?_of_neg (by omega) (by simp only [greatestPower]; omega),
      hx.over? hpower (by positivity), show exponent.toNat = 0 by omega, pow_zero, Nat.mul_one]

end CoverageQuery.Magnitude
