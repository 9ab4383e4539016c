import CoverageQuery.Number.Integer
import Mathlib.Tactic.Linarith
import Mathlib.Tactic.Ring

/-!
# Digit texts and their values

A text of digits put before another counts as many powers of ten as the other has digits. A number
has one digit more than its tenth, so its digits can be counted by powers of ten. No number but zero
starts with the digit zero, and the digits of a number are those without the zeros at their end,
followed by these zeros.
-/
namespace CoverageQuery.Digits

theorem foldl_value (n : Nat) (cs : List Char) :
    cs.foldl (fun n c => 10 * n + value c) n = n * 10 ^ cs.length + read cs := by
  induction cs generalizing n with
  | nil => simp [read]
  | cons c cs ih =>
    simp only [read, List.foldl_cons, List.length_cons]
    rw [ih, ih (10 * 0 + value c), pow_succ]
    ring

theorem read_append (a b : List Char) : read (a ++ b) = read a * 10 ^ b.length + read b := by
  rw [read, List.foldl_append, foldl_value]
  rfl

theorem read_replicate_zero (k : Nat) : read (List.replicate k '0') = 0 := by
  induction k with
  | zero => rfl
  | succ k ih => simp [List.replicate_succ', read_append_singleton, ih, value]

theorem count_of_lt {n : Nat} (h : n < 10) : count n = 1 := by
  rw [count, write, if_pos h]
  rfl

theorem count_of_ge {n : Nat} (h : 10 ≤ n) : count n = count (n / 10) + 1 := by
  rw [count, write, if_neg (by omega), List.length_append]
  rfl

theorem count_pos (n : Nat) : 0 < count n :=
  List.length_pos_iff.2 (write_ne_nil n)

theorem count_mul_pow {n : Nat} (h : n ≠ 0) (k : Nat) : count (n * 10 ^ k) = count n + k := by
  induction k with
  | zero => simp
  | succ k ih =>
    have hne : n * 10 ^ k ≠ 0 := Nat.mul_ne_zero h (by positivity)
    rw [pow_succ, ← Nat.mul_assoc, count_of_ge (by omega), Nat.mul_div_cancel _ (by decide), ih]
    rfl

theorem lt_pow_count (n : Nat) : n < 10 ^ count n := by
  induction n using Nat.strong_induction_on with
  | _ n ih =>
    by_cases h : n < 10
    · rw [count_of_lt h]
      omega
    · have hd := ih (n / 10) (by omega)
      rw [count_of_ge (by omega), pow_succ]
      omega

theorem count_le_of_lt_pow {n k : Nat} (hk : 0 < k) (h : n < 10 ^ k) : count n ≤ k := by
  induction k generalizing n with
  | zero => omega
  | succ k ih =>
    by_cases hn : n < 10
    · rw [count_of_lt hn]
      omega
    · rw [pow_succ] at h
      have hk : 0 < k := by
        rcases Nat.eq_zero_or_pos k with rfl | hk
        · omega
        · exact hk
      have hd := ih hk (show n / 10 < 10 ^ k by omega)
      rw [count_of_ge (by omega)]
      omega

theorem lt_count_of_pow_le {n k : Nat} (h : 10 ^ k ≤ n) : k < count n :=
  (Nat.pow_lt_pow_iff_right (by decide)).1 (h.trans_lt (lt_pow_count n))

theorem char_ne_zero {d : Nat} (h : d < 10) (h0 : d ≠ 0) : char d ≠ '0' := by
  intro hc
  have hv := value_char h
  rw [hc] at hv
  exact h0 hv.symm

theorem head?_write_ne_zero {n : Nat} (h : n ≠ 0) : (write n).head? ≠ some '0' := by
  fun_induction write n with
  | case1 n hn =>
    intro hc
    exact char_ne_zero hn h (Option.some.inj hc)
  | case2 n hn ih =>
    have hhead := ih (by omega)
    cases hw : write (n / 10) with
    | nil => exact absurd hw (write_ne_nil _)
    | cons c cs => rwa [hw] at hhead

theorem dropEnd_append_replicate (c : Char) (cs : List Char) :
    ∃ k, (cs.reverse.dropWhile (· = c)).reverse ++ List.replicate k c = cs := by
  have hall : ∀ d ∈ cs.reverse.takeWhile (· = c), d = c := by
    intro d hd
    exact of_decide_eq_true (List.all_eq_true.1 List.all_takeWhile d hd)
  refine ⟨(cs.reverse.takeWhile (· = c)).length, ?_⟩
  rw [← List.reverse_replicate, ← List.eq_replicate_of_mem hall, ← List.reverse_append,
    List.takeWhile_append_dropWhile, List.reverse_reverse]

end CoverageQuery.Digits
