import CoverageQuery.Json.Reader
import CoverageQuery.Proofs.Number.Scaling

/-!
# When a numeral is read as the nearest number

A numeral without fraction and exponent is read as the nearest number if it has sixty-four bits, and so
is every numeral whose digits make a number below `2 ^ 53` that is scaled by no more than the
twenty-second power of ten. Beyond that the reader may give a neighbour of the nearest number.
-/
namespace CoverageQuery.Json.Numeral

def digits (n : Numeral) : List Char := n.whole ++ n.fraction.getD []

def scale (n : Numeral) : Int := n.exponent.getD 0 - (n.fraction.getD []).length

def nearest (n : Numeral) : Binary64 := .ofDecimal n.negative (Digits.read n.digits) n.scale

theorem le_foldl (n : Nat) (cs : List Char) :
    n ≤ cs.foldl (fun n c => 10 * n + Digits.value c) n := by
  have hpos : 0 < 10 ^ cs.length := by positivity
  rw [Digits.foldl_value]
  exact (Nat.le_mul_of_pos_right n hpos).trans (Nat.le_add_right _ _)

theorem absorb_of_lt {n : Nat} {cs : List Char}
    (h : cs.foldl (fun n c => 10 * n + Digits.value c) n < 2 ^ 64) :
    absorb n cs = (cs.foldl (fun n c => 10 * n + Digits.value c) n, cs.length) := by
  induction cs generalizing n with
  | nil => rfl
  | cons c cs ih =>
    have hnext : 10 * n + Digits.value c < Nat.pow 2 64 := (le_foldl _ cs).trans_lt h
    rw [absorb, if_pos hnext, ih h]
    rfl

theorem parts_of_lt {n : Numeral} (h : Digits.read n.digits < 2 ^ 64) :
    n.parts = (Digits.read n.digits, n.scale) := by
  rw [Digits.read, digits, List.foldl_append] at h
  have hwhole := absorb_of_lt ((le_foldl _ _).trans_lt h)
  have hfraction := absorb_of_lt h
  simp only [parts, hwhole, hfraction, Nat.sub_self, scale, Digits.read, digits, List.foldl_append]
  simp

theorem float_of_lt {n : Numeral} (h : Digits.read n.digits < 2 ^ 64)
    (hscale : ((Magnitude.nearest? (Digits.read n.digits) 1).bind fun x => x.scale? n.scale) =
      Magnitude.ofDecimal? (Digits.read n.digits) n.scale) : n.float = n.nearest := by
  simp only [float, parts_of_lt h, hscale, nearest, Binary64.ofDecimal]

theorem ofDecimal?_of_lt {n : Nat} (h : n < 2 ^ 64) :
    Magnitude.ofDecimal? n 0 = Magnitude.nearest? n 1 := by
  by_cases hzero : n = 0
  · rw [hzero, Magnitude.ofDecimal?_zero, Magnitude.nearest?_zero Nat.one_pos]
  · have hcount : Digits.count n ≤ 20 := Digits.count_le_of_lt_pow (by decide) (by omega)
    rw [Magnitude.ofDecimal?_eq, if_neg (by omega), if_neg (by omega)]
    simp only [Int.toNat_zero, Int.neg_zero, pow_zero, Nat.mul_one]

theorem float_of_whole {n : Numeral} (hf : n.fraction = none) (he : n.exponent = none)
    (h : Digits.read n.whole < 2 ^ 64) : n.float = n.nearest := by
  have hdigits : n.digits = n.whole := by rw [digits, hf, Option.getD_none, List.append_nil]
  have hscale : n.scale = 0 := by rw [scale, hf, he]; rfl
  refine float_of_lt (by rwa [hdigits]) ?_
  simp only [hdigits, hscale, ofDecimal?_of_lt h, Magnitude.scale?_zero, Option.bind_fun_some]

/-- Few digits and a small power of ten are rounded once. -/
theorem float_of_short {n : Numeral} (hdigits : Digits.read n.digits < 2 ^ 53)
    (hscale : n.scale.natAbs ≤ 22) : n.float = n.nearest := by
  refine float_of_lt (by omega) ?_
  rw [Magnitude.nearest?_scale? hdigits hscale]
  by_cases hzero : Digits.read n.digits = 0
  · rw [hzero, Nat.zero_mul, Magnitude.nearest?_zero (by positivity), Magnitude.ofDecimal?_zero]
  · have hcount : Digits.count (Digits.read n.digits) ≤ 16 :=
      Digits.count_le_of_lt_pow (by decide) (by omega)
    rw [Magnitude.ofDecimal?_eq, if_neg (by omega), if_neg (by omega)]

/-- More digits may be rounded twice. -/
example : (⟨false, "31".toList, some "245270191439438".toList, none⟩ : Numeral).float ≠
    (⟨false, "31".toList, some "245270191439438".toList, none⟩ : Numeral).nearest := by
  decide +kernel

end CoverageQuery.Json.Numeral
