import CoverageQuery.Number.Layout
import CoverageQuery.Proofs.Number.Nearest

/-!
# How floating-point numbers are spelled

A layout spells a magnitude with digits before the point, digits after it if there is one, and an
exponent if there is one. The spelling begins with a digit, with no needless zero in front, and the
decimal that it stands for has the magnitude it was made from, in every layout. A layout that marks
whole numbers never spells a magnitude with digits alone.
-/
namespace CoverageQuery

structure Spelling where
  whole : List Char
  fraction : Option (List Char)
  exponent : Option Int

namespace Spelling

def fractionText (s : Spelling) : List Char :=
  match s.fraction with
  | none => []
  | some digits => '.' :: digits

def exponentSign (signs : Bool) (exponent : Int) : List Char :=
  if exponent < 0 then ['-'] else if signs then ['+'] else []

def exponentText (s : Spelling) (signs : Bool) : List Char :=
  match s.exponent with
  | none => []
  | some e => 'e' :: exponentSign signs e ++ Digits.write e.natAbs

def text (s : Spelling) (signs : Bool) : List Char :=
  s.whole ++ s.fractionText ++ s.exponentText signs

def magnitude? (s : Spelling) : Option Magnitude :=
  Magnitude.ofDecimal? (Digits.read (s.whole ++ s.fraction.getD []))
    (s.exponent.getD 0 - (s.fraction.getD []).length)

structure WellFormed (s : Spelling) : Prop where
  whole_digits : ∀ c ∈ s.whole, c.isDigit = true
  whole_ne_nil : s.whole ≠ []
  whole_head : s.whole = ['0'] ∨ s.whole.head? ≠ some '0'
  fraction_digits : ∀ f, s.fraction = some f → f ≠ [] ∧ ∀ c ∈ f, c.isDigit = true

end Spelling

structure Significant (digits : List Char) : Prop where
  isDigit : ∀ c ∈ digits, c.isDigit = true
  ne_nil : digits ≠ []
  head : digits.head? ≠ some '0'

theorem Significant.read_ne_zero {digits : List Char} (h : Significant digits) :
    Digits.read digits ≠ 0 := by
  cases digits with
  | nil => exact absurd rfl h.ne_nil
  | cons c cs =>
    have hdigit := h.isDigit c List.mem_cons_self
    have hzero : c ≠ '0' := fun hc => h.head (congrArg some hc)
    have hcode : c.toNat ≠ 48 := fun hc => hzero (Char.toNat_inj.1 hc)
    have hvalue : 0 < Digits.value c := by
      simp only [Char.isDigit, Bool.and_eq_true, decide_eq_true_eq] at hdigit
      have hlow : 48 ≤ c.toNat := hdigit.1
      simp only [Digits.value]
      omega
    have hread : Digits.read (c :: cs) =
        Digits.value c * 10 ^ cs.length + Digits.read cs := by
      rw [Digits.read, List.foldl_cons, Digits.foldl_value]
      simp
    have hpos : 0 < Digits.value c * 10 ^ cs.length := by positivity
    omega

namespace NumberLayout

def positionalSpelling (l : NumberLayout) (digits : List Char) (point : Int) : Spelling :=
  if point ≤ 0 then ⟨['0'], some (List.replicate (-point).toNat '0' ++ digits), none⟩
  else if digits.length ≤ point.toNat then
    ⟨digits ++ List.replicate (point.toNat - digits.length) '0',
      if l.marksWhole then some ['0'] else none, none⟩
  else ⟨digits.take point.toNat, some (digits.drop point.toNat), none⟩

def exponentSpelling (digits : List Char) (exponent : Int) : Spelling :=
  ⟨digits.take 1, if digits.length ≤ 1 then none else some (digits.drop 1), some exponent⟩

def decimalSpelling (l : NumberLayout) (d : Decimal) : Spelling :=
  let all := Digits.write d.digits
  let point := d.exponent + all.length
  if l.isPositional (point - 1) then l.positionalSpelling (significant all) point
  else exponentSpelling (significant all) (point - 1)

def spelling (l : NumberLayout) (x : Magnitude) : Spelling :=
  if x.mantissa = 0 then l.positionalSpelling ['0'] 1 else l.decimalSpelling (x.shortest l.tie)

theorem positionalText_eq (l : NumberLayout) (digits : List Char) (point : Int) :
    l.positionalText digits point = (l.positionalSpelling digits point).text l.signsExponent := by
  unfold positionalText positionalSpelling
  split
  · simp [Spelling.text, Spelling.fractionText, Spelling.exponentText]
  · split
    · cases l.marksWhole <;>
        simp [Spelling.text, Spelling.fractionText, Spelling.exponentText]
    · simp [Spelling.text, Spelling.fractionText, Spelling.exponentText]

theorem exponentText_eq (l : NumberLayout) (digits : List Char) (exponent : Int) :
    l.exponentText digits exponent = (exponentSpelling digits exponent).text l.signsExponent := by
  unfold exponentText exponentSpelling
  by_cases h : digits.length ≤ 1
  · simp [Spelling.text, Spelling.fractionText, Spelling.exponentText, Spelling.exponentSign, h]
  · simp [Spelling.text, Spelling.fractionText, Spelling.exponentText, Spelling.exponentSign, h]

theorem magnitudeText_eq (l : NumberLayout) (x : Magnitude) :
    l.magnitudeText x = (l.spelling x).text l.signsExponent := by
  simp only [magnitudeText, spelling, decimalText, decimalSpelling, positionalText_eq,
    exponentText_eq]
  split
  · rfl
  · split <;> rfl

theorem significant_append (digits : List Char) :
    ∃ k, significant digits ++ List.replicate k '0' = digits :=
  Digits.dropEnd_append_replicate '0' digits

theorem significant_write {n : Nat} (h : n ≠ 0) : Significant (significant (Digits.write n)) := by
  obtain ⟨k, hk⟩ := significant_append (Digits.write n)
  have hmem : ∀ c ∈ significant (Digits.write n), c.isDigit = true := by
    intro c hc
    refine Digits.isDigit_of_mem_write (n := n) ?_
    rw [← hk]
    exact List.mem_append_left _ hc
  have hne : significant (Digits.write n) ≠ [] := by
    intro hnil
    have hread := Digits.read_write n
    rw [← hk, hnil, List.nil_append, Digits.read_replicate_zero] at hread
    exact h hread.symm
  refine ⟨hmem, hne, ?_⟩
  have hhead := Digits.head?_write_ne_zero h
  rw [← hk] at hhead
  cases hs : significant (Digits.write n) with
  | nil => exact absurd hs hne
  | cons c cs => rwa [hs] at hhead

theorem ofDecimal?_significant (d : Decimal) :
    Magnitude.ofDecimal? (Digits.read (significant (Digits.write d.digits)))
      (d.exponent + (Digits.write d.digits).length - (significant (Digits.write d.digits)).length)
      = Magnitude.ofDecimal? d.digits d.exponent := by
  obtain ⟨k, hk⟩ := significant_append (Digits.write d.digits)
  have hlen : (Digits.write d.digits).length
      = (significant (Digits.write d.digits)).length + k := by
    conv_lhs => rw [← hk]
    rw [List.length_append, List.length_replicate]
  have hread : d.digits = Digits.read (significant (Digits.write d.digits)) * 10 ^ k := by
    conv_lhs => rw [← Digits.read_write d.digits, ← hk]
    rw [Digits.read_append, Digits.read_replicate_zero, List.length_replicate, Nat.add_zero]
  rw [← Magnitude.ofDecimal?_shift _ k, ← hread, hlen]
  congr 1
  push_cast
  ring

theorem positionalSpelling_magnitude? (l : NumberLayout) (digits : List Char) (point : Int) :
    (l.positionalSpelling digits point).magnitude?
      = Magnitude.ofDecimal? (Digits.read digits) (point - digits.length) := by
  unfold positionalSpelling Spelling.magnitude?
  split
  · rename_i h
    have hread : Digits.read (['0'] ++ (List.replicate (-point).toNat '0' ++ digits))
        = Digits.read digits := by
      rw [← List.append_assoc, Digits.read_append, ← List.replicate_one,
        List.replicate_append_replicate, Digits.read_replicate_zero, Nat.zero_mul, Nat.zero_add]
    simp only [Option.getD_some, Option.getD_none, hread, List.length_append,
      List.length_replicate]
    congr 1
    push_cast
    omega
  · split
    · rename_i h hlen
      obtain ⟨k, hk⟩ : ∃ k, point.toNat - digits.length = k := ⟨_, rfl⟩
      have hpoint : point = digits.length + k := by omega
      have hwhole : Digits.read (digits ++ List.replicate k '0') = Digits.read digits * 10 ^ k := by
        rw [Digits.read_append, Digits.read_replicate_zero, List.length_replicate, Nat.add_zero]
      cases l.marksWhole with
      | false =>
        simp only [Option.getD_none, Bool.false_eq_true, if_false, List.append_nil, hk, hwhole]
        rw [← Magnitude.ofDecimal?_shift (Digits.read digits) k, hpoint]
        congr 1
        simp
      | true =>
        have hzero : Digits.read (digits ++ List.replicate k '0' ++ ['0'])
            = Digits.read digits * 10 ^ (k + 1) := by
          rw [Digits.read_append, hwhole, pow_succ, Nat.mul_assoc]
          rfl
        simp only [Option.getD_some, Option.getD_none, if_true, hk, hzero]
        rw [← Magnitude.ofDecimal?_shift (Digits.read digits) (k + 1), hpoint]
        congr 1
        simp
    · rename_i h hlen
      simp only [Option.getD_some, Option.getD_none, List.take_append_drop, List.length_drop]
      congr 1
      omega

theorem exponentSpelling_magnitude? {digits : List Char} (h : digits ≠ []) (exponent : Int) :
    (exponentSpelling digits exponent).magnitude?
      = Magnitude.ofDecimal? (Digits.read digits) (exponent + 1 - digits.length) := by
  have hpos : 0 < digits.length := List.length_pos_iff.2 h
  unfold exponentSpelling Spelling.magnitude?
  by_cases hlen : digits.length ≤ 1
  · have htake : digits.take 1 = digits := List.take_of_length_le hlen
    simp only [hlen, if_true, Option.getD_none, Option.getD_some, List.append_nil, htake]
    congr 1
    simp only [List.length_nil]
    omega
  · simp only [hlen, if_false, Option.getD_some, List.take_append_drop, List.length_drop]
    congr 1
    omega

theorem positionalSpelling_wellFormed (l : NumberLayout) {digits : List Char}
    (h : Significant digits) (point : Int) :
    (l.positionalSpelling digits point).WellFormed := by
  have hpos : 0 < digits.length := List.length_pos_iff.2 h.ne_nil
  unfold positionalSpelling
  split
  · refine ⟨by simp, by simp, .inl rfl, ?_⟩
    intro f hf
    obtain rfl := Option.some.inj hf
    refine ⟨List.append_ne_nil_of_right_ne_nil _ h.ne_nil, ?_⟩
    intro c hc
    rcases List.mem_append.1 hc with hc | hc
    · rw [List.eq_of_mem_replicate hc]
      rfl
    · exact h.isDigit c hc
  · split
    · rename_i hlen
      refine ⟨?_, List.append_ne_nil_of_left_ne_nil h.ne_nil _, .inr ?_, ?_⟩
      · intro c hc
        rcases List.mem_append.1 hc with hc | hc
        · exact h.isDigit c hc
        · rw [List.eq_of_mem_replicate hc]
          rfl
      · have hhead := h.head
        cases digits with
        | nil => exact absurd rfl h.ne_nil
        | cons c cs => exact hhead
      · intro f hf
        cases hm : l.marksWhole with
        | false => simp [hm] at hf
        | true =>
          simp only [hm, if_true, Option.some.injEq] at hf
          subst hf
          simp
    · rename_i hneg hlen
      refine ⟨fun c hc => h.isDigit c (List.mem_of_mem_take hc), ?_, ?_, ?_⟩
      · rw [Ne, List.take_eq_nil_iff]
        rintro (hn | hn)
        · omega
        · exact h.ne_nil hn
      · right
        rw [List.head?_take, if_neg (by omega)]
        exact h.head
      · intro f hf
        obtain rfl := Option.some.inj hf
        refine ⟨?_, fun c hc => h.isDigit c (List.mem_of_mem_drop hc)⟩
        rw [Ne, List.drop_eq_nil_iff]
        exact hlen

theorem exponentSpelling_wellFormed {digits : List Char} (h : Significant digits)
    (exponent : Int) : (exponentSpelling digits exponent).WellFormed := by
  unfold exponentSpelling
  refine ⟨fun c hc => h.isDigit c (List.mem_of_mem_take hc), ?_, ?_, ?_⟩
  · rw [Ne, List.take_eq_nil_iff]
    rintro (hn | hn)
    · omega
    · exact h.ne_nil hn
  · right
    rw [List.head?_take, if_neg (by omega)]
    exact h.head
  · intro f hf
    by_cases hlen : digits.length ≤ 1
    · simp [hlen] at hf
    · simp only [hlen, if_false, Option.some.injEq] at hf
      subst hf
      refine ⟨?_, fun c hc => h.isDigit c (List.mem_of_mem_drop hc)⟩
      rw [Ne, List.drop_eq_nil_iff]
      exact hlen

theorem zeroSpelling_wellFormed (l : NumberLayout) :
    (l.positionalSpelling ['0'] 1).WellFormed := by
  refine ⟨?_, ?_, .inl rfl, ?_⟩
  · intro c hc
    obtain rfl := List.mem_singleton.1 hc
    rfl
  · exact List.cons_ne_nil _ _
  · intro f hf
    cases hm : l.marksWhole with
    | false => simp [positionalSpelling, hm] at hf
    | true =>
      simp only [positionalSpelling, hm] at hf
      obtain rfl := Option.some.inj hf
      simp

theorem decimalSpelling_wellFormed (l : NumberLayout) {d : Decimal} (h : d.digits ≠ 0) :
    (l.decimalSpelling d).WellFormed := by
  have hsig := significant_write h
  unfold decimalSpelling
  dsimp only
  split
  · exact l.positionalSpelling_wellFormed hsig _
  · exact exponentSpelling_wellFormed hsig _

theorem decimalSpelling_magnitude? (l : NumberLayout) {d : Decimal} (h : d.digits ≠ 0) :
    (l.decimalSpelling d).magnitude? = Magnitude.ofDecimal? d.digits d.exponent := by
  have hsig := significant_write h
  unfold decimalSpelling
  dsimp only
  split
  · rw [positionalSpelling_magnitude?, ofDecimal?_significant]
  · rw [exponentSpelling_magnitude? hsig.ne_nil, Int.sub_add_cancel, ofDecimal?_significant]

theorem spelling_wellFormed (l : NumberLayout) (x : Magnitude) : (l.spelling x).WellFormed := by
  unfold spelling
  split
  · exact l.zeroSpelling_wellFormed
  · rename_i hm
    exact l.decimalSpelling_wellFormed (Magnitude.shortest_digits_ne_zero hm)

/-- The spelling of a magnitude stands for it. -/
theorem spelling_magnitude? (l : NumberLayout) (x : Magnitude) :
    (l.spelling x).magnitude? = some x := by
  unfold spelling
  split
  · rename_i hm
    rw [positionalSpelling_magnitude?, Magnitude.eq_zero_of_mantissa hm]
    rfl
  · rename_i hm
    rw [decimalSpelling_magnitude? l (Magnitude.shortest_digits_ne_zero hm),
      Magnitude.ofDecimal?_shortest]

theorem spelling_marked {l : NumberLayout} (hl : l.marksWhole = true) (x : Magnitude) :
    (l.spelling x).fraction.isSome ∨ (l.spelling x).exponent.isSome := by
  unfold spelling decimalSpelling positionalSpelling exponentSpelling
  simp only [hl]
  grind

end NumberLayout
end CoverageQuery
