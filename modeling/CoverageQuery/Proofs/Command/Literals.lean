import CoverageQuery.Proofs.Command.Reading
import CoverageQuery.Proofs.Number.DecimalText
import CoverageQuery.Proofs.Stored.RoundTrip

/-!
# Numbers in flags and in documents

A decimal text is a literal when JSON takes it as a number: without a plus sign, without a needless
zero in front, and with digits on both sides of its point. Such a text is a whole number of
sixty-four bits if it has neither fraction nor exponent and lies in their range, and the nearest
floating-point number otherwise. Flags and documents both read it so, minus zero and what lies
beyond every finite number excepted. A document takes whole numbers up to twice the range, and these
become floating only when a coordinate or an expression is made of them.
-/
namespace CoverageQuery

open Document Text

namespace DecimalText

structure IsLiteral (n : DecimalText) : Prop where
  sign_ne_plus : n.sign ≠ .plus
  whole_ne_nil : n.whole ≠ []
  whole_head : n.whole = ['0'] ∨ n.whole.head? ≠ some '0'
  fraction_ne_nil : n.fraction ≠ some []

def literal (n : DecimalText) : String := String.ofList n.text

def signed (n : DecimalText) : Int :=
  if n.sign.isNegative then -(Digits.read n.whole : Int) else Digits.read n.whole

def whole64? (n : DecimalText) : Option Int64 :=
  if n.fraction.isNone ∧ n.exponent.isNone then Integer.toInt64? n.signed else none

def quantity (n : DecimalText) : Quantity := (n.whole64?.map .integer).getD (.float n.value)

theorem whole64?_eq_some_iff {n : DecimalText} {k : Int64} :
    n.whole64? = some k ↔ n.fraction = none ∧ n.exponent = none ∧ n.signed = k.toInt := by
  unfold whole64?
  split
  · rename_i h
    simp only [Option.isNone_iff_eq_none] at h
    rw [Integer.toInt64?_eq_some_iff]
    exact ⟨fun hk => ⟨h.1, h.2, hk⟩, fun hk => hk.2.2⟩
  · rename_i h
    simp only [Option.isNone_iff_eq_none] at h
    exact ⟨fun hk => absurd hk (by simp), fun hk => absurd ⟨hk.1, hk.2.1⟩ h⟩

theorem quantity_eq_integer_iff {n : DecimalText} {k : Int64} :
    n.quantity = .integer k ↔ n.fraction = none ∧ n.exponent = none ∧ n.signed = k.toInt := by
  rw [← whole64?_eq_some_iff, quantity]
  cases n.whole64? <;> simp

theorem quantity_eq_float_iff {n : DecimalText} {x : Binary64} :
    n.quantity = .float x ↔ x = n.value ∧ ¬(n.fraction = none ∧ n.exponent = none ∧
      -(2 ^ 63 : Int) ≤ n.signed ∧ n.signed < 2 ^ 63) := by
  have hwhole : (∃ k, n.whole64? = some k) ↔ n.fraction = none ∧ n.exponent = none ∧
      -(2 ^ 63 : Int) ≤ n.signed ∧ n.signed < 2 ^ 63 := by
    simp only [whole64?_eq_some_iff, exists_and_left, Integer.exists_toInt_iff]
  rw [← hwhole, quantity]
  cases n.whole64? <;> simp [eq_comm]

/-! ## In flags -/

theorem exists_mark (n : DecimalText) (h : ¬(n.fraction.isNone ∧ n.exponent.isNone)) :
    ∃ c ∈ n.unsignedText, c.isDigit = false := by
  cases hf : n.fraction with
  | some digits => exact ⟨'.', by simp [unsignedText, pointText, hf], rfl⟩
  | none =>
    cases he : n.exponent with
    | none => exact absurd ⟨by rw [hf]; rfl, by rw [he]; rfl⟩ h
    | some e =>
      refine ⟨e.mark, by simp [unsignedText, exponentText, Exponent.text, he], ?_⟩
      rcases e.mark_eq with hmark | hmark <;> rw [hmark] <;> rfl

theorem splitSign_text (n : DecimalText) :
    Integer.splitSign n.text = (n.sign.isNegative, n.unsignedText) :=
  n.sign.splitSign_append n.head?_unsignedText

theorem readInt64?_text (n : DecimalText) : Integer.readInt64? n.text = n.whole64? := by
  unfold whole64?
  split
  · rename_i h
    simp only [Option.isNone_iff_eq_none] at h
    have hdigits := n.isDigit
    have hne := n.digits_ne_nil
    simp only [h.1, Option.getD_none, List.append_nil] at hdigits hne
    have hunsigned : n.unsignedText = n.whole := by
      simp [unsignedText, pointText, exponentText, h.1, h.2]
    have hint : Integer.readInt? n.text = some n.signed := by
      rw [Integer.readInt?_eq_some_iff, splitSign_text, hunsigned]
      exact ⟨_, Integer.readNat?_eq_some_iff.2 ⟨hne, hdigits, rfl⟩, rfl⟩
    rw [Integer.readInt64?, hint, Option.bind_some]
  · rename_i h
    obtain ⟨c, hc, hdigit⟩ := n.exists_mark h
    have hnone : Integer.readInt? n.text = none :=
      Integer.readInt?_eq_none (by rwa [splitSign_text]) hdigit
    rw [Integer.readInt64?, hnone, Option.bind_none]

theorem read?_quantity {n : DecimalText} (h : n.value.isFinite = true) :
    Quantity.read? n.text = some n.quantity := by
  rw [Quantity.read?, readInt64?_text, Binary64.readFinite?, read?_text, quantity]
  cases n.whole64? <;> simp [h]

theorem isBlank_of_mem_text {n : DecimalText} {c : Char} (h : c ∈ n.text) : isBlank c = false := by
  rcases mem_text h with h | h
  · exact isBlank_of_isDigit h
  · have hmarks : ['.', '+', '-', 'e', 'E'].all (fun d => !isBlank d) = true := by decide
    simpa using List.all_eq_true.1 hmarks c h

theorem trim_text (n : DecimalText) : trim n.text = n.text :=
  trim_eq_self_of_forall fun _ hc => isBlank_of_mem_text hc

theorem notMem_text (n : DecimalText) {c : Char} (hdigit : c.isDigit = false)
    (hmark : c ∉ ['.', '+', '-', 'e', 'E']) : c ∉ n.text := by
  intro hc
  rcases mem_text hc with h | h
  · exact absurd (hdigit.symm.trans h) Bool.false_ne_true
  · exact hmark h

theorem coordinate_ofFlag {n : DecimalText} (h : n.value.isFinite = true) :
    Coordinate.ofFlag n.text = .ok (.ofQuantity n.quantity) :=
  Coordinate.ofFlag_of_quantity n.trim_text (n.notMem_text rfl (by decide)) (read?_quantity h)

theorem expression_ofFlag {n : DecimalText} (h : n.value.isFinite = true) :
    Expression.ofFlag n.literal = .ok (.ofQuantity n.quantity) := by
  refine Expression.ofFlag_of_quantity ?_
  rw [literal, String.toList_ofList, trim_text, read?_quantity h]

theorem subset_ofFlag {n : DecimalText} (h : n.value.isFinite = true) {axis : String}
    (hequals : '=' ∉ axis.toList) (haxis : trim axis.toList ≠ []) :
    Subset.ofFlag (axis ++ "=" ++ n.literal) =
      .ok (.point (String.ofList (trim axis.toList)) (.ofQuantity n.quantity)) := by
  have htext : (axis ++ "=" ++ n.literal).toList = axis.toList ++ '=' :: n.text := by
    simp [literal]
  have hclosed : Closed ':' n.text :=
    closed_of_notMem (n.notMem_text rfl (by decide)) (n.notMem_text rfl (by decide))
  have hempty : (trim axis.toList).isEmpty = false := List.isEmpty_eq_false_iff.2 haxis
  simp only [Subset.ofFlag, htext, splitOnce?_append hequals, hempty,
    splitOutsideQuotes_closed hclosed, coordinate_ofFlag h, Bool.false_eq_true, if_false]
  rfl

/-! ## In documents -/

def spelling (n : DecimalText) : Spelling :=
  ⟨n.whole, n.fraction, n.exponent.map Exponent.value⟩

theorem fractionText_spelling (n : DecimalText) :
    n.spelling.fractionText = pointText n.fraction := by
  cases hf : n.fraction <;> simp [Spelling.fractionText, spelling, pointText, hf]

theorem IsLiteral.wellFormed {n : DecimalText} (h : n.IsLiteral) : n.spelling.WellFormed where
  whole_digits c hc := n.isDigit c (List.mem_append_left _ hc)
  whole_ne_nil := h.whole_ne_nil
  whole_head := h.whole_head
  fraction_digits f hf := by
    have hfraction : n.fraction = some f := hf
    refine ⟨?_, fun c hc => n.isDigit c (List.mem_append_right _ ?_)⟩
    · rintro rfl
      exact h.fraction_ne_nil hfraction
    · rwa [hfraction]

theorem IsLiteral.head?_unsignedText {n : DecimalText} (h : n.IsLiteral) (rest : List Char) :
    ∀ c ∈ (n.unsignedText ++ rest).head?, c.isDigit = true := by
  intro c hc
  rw [unsignedText, List.append_assoc, List.append_assoc,
    Json.head?_append_of_ne_nil h.whole_ne_nil] at hc
  exact n.isDigit c (List.mem_append_left _ (List.mem_of_mem_head? hc))

def numeral (n : DecimalText) : Json.Numeral := Json.numeralOf n.sign.isNegative n.spelling

theorem readExponent_append (e : Option Exponent) {rest : List Char} (hrest : Json.Ends rest) :
    Json.readExponent (exponentText e ++ rest) = .ok (e.map Exponent.value, rest) := by
  cases e with
  | none => exact Json.readExponent_append ⟨[], none, none⟩ false hrest
  | some e =>
    have hhead : ∀ c ∈ (e.digits ++ rest).head?, c ≠ '+' ∧ c ≠ '-' := by
      rw [Json.head?_append_of_ne_nil e.digits_ne_nil]
      exact fun c hc => ne_sign_of_isDigit (e.isDigit c (List.mem_of_mem_head? hc))
    have hspan := Json.spanDigits_append e.isDigit fun c hc => (hrest c hc).1
    have hempty : e.digits.isEmpty = false := List.isEmpty_eq_false_iff.2 e.digits_ne_nil
    simp only [exponentText, Exponent.text, List.cons_append, List.append_assoc, Json.readExponent,
      e.mark_eq, if_true, e.sign.splitSign_append hhead, hspan, hempty, Bool.false_eq_true,
      if_false, Option.map_some, Exponent.value]

theorem IsLiteral.readUnsigned {n : DecimalText} (h : n.IsLiteral) {rest : List Char}
    (hrest : Json.Ends rest) :
    Json.readUnsigned n.sign.isNegative (n.unsignedText ++ rest) = .ok (n.numeral, rest) := by
  have hexponent : ∀ c ∈ (exponentText n.exponent ++ rest).head?, c.isDigit = false ∧ c ≠ '.' := by
    intro c hc
    cases he : n.exponent with
    | none =>
      rw [he] at hc
      exact ⟨(hrest c hc).1, (hrest c hc).2.1⟩
    | some e =>
      rw [he] at hc
      obtain rfl := Option.some.inj hc
      rcases e.mark_eq with hmark | hmark <;> rw [hmark] <;> decide
  have hpoint : ∀ c ∈ (pointText n.fraction ++ (exponentText n.exponent ++ rest)).head?,
      c.isDigit = false := by
    intro c hc
    cases hf : n.fraction with
    | none =>
      rw [hf] at hc
      exact (hexponent c hc).1
    | some digits =>
      rw [hf] at hc
      obtain rfl := Option.some.inj hc
      rfl
  have hwhole := Json.readWhole_append h.wellFormed hpoint
  have hfraction := Json.readFraction_of_head h.wellFormed hexponent
  rw [fractionText_spelling] at hfraction
  simp only [spelling] at hwhole hfraction
  simp only [Json.readUnsigned, unsignedText, List.append_assoc, hwhole, hfraction,
    readExponent_append n.exponent hrest, bind, Except.bind, pure, Except.pure]
  rfl

theorem IsLiteral.readNumeral {n : DecimalText} (h : n.IsLiteral) {rest : List Char}
    (hrest : Json.Ends rest) : Json.readNumeral (n.text ++ rest) = .ok (n.numeral, rest) := by
  have hread := h.readUnsigned hrest
  rw [text, List.append_assoc]
  cases hs : n.sign with
  | plus => exact absurd hs h.sign_ne_plus
  | minus =>
    rw [hs] at hread
    exact hread
  | absent =>
    rw [hs] at hread
    refine (Json.readNumeral_of_isDigit fun c hc => ?_).trans hread
    exact h.head?_unsignedText _ c hc

theorem nearest_numeral (n : DecimalText) : n.numeral.nearest = n.value := by
  rw [Json.Numeral.nearest, Json.Numeral.digits, Json.Numeral.scale, value]
  cases he : n.exponent <;> simp [numeral, Json.numeralOf, spelling, exponentValue, he]

/-- A literal with few digits and a small exponent is rounded once, so it is read as the nearest number. -/
theorem float_of_short {n : DecimalText} (hdigits : Digits.read n.numeral.digits < 2 ^ 53)
    (hscale : n.numeral.scale.natAbs ≤ 22) : n.numeral.float = n.value :=
  (Json.Numeral.float_of_short hdigits hscale).trans n.nearest_numeral

theorem IsLiteral.read_whole_ne_zero {n : DecimalText} (h : n.IsLiteral) (hf : n.fraction = none)
    (he : n.exponent = none) (hnegative : n.sign.isNegative = true) (hzero : n.text ≠ ['-', '0']) :
    Digits.read n.whole ≠ 0 := by
  rcases h.whole_head with hwhole | hwhole
  · refine absurd ?_ hzero
    cases hs : n.sign with
    | minus => simp [text, unsignedText, Sign.text, pointText, exponentText, hs, hf, he, hwhole]
    | absent | plus => exact absurd hnegative (by rw [hs]; exact Bool.false_ne_true)
  · refine Significant.read_ne_zero ⟨fun c hc => ?_, h.whole_ne_nil, hwhole⟩
    exact n.isDigit c (List.mem_append_left _ hc)

section Whole

variable {n : DecimalText} (hf : n.fraction = none) (he : n.exponent = none)
  (hne : n.sign.isNegative = true → Digits.read n.whole ≠ 0)

include hf he in
theorem whole64?_of_whole : n.whole64? = Integer.toInt64? n.signed :=
  if_pos (by rw [hf, he]; exact ⟨rfl, rfl⟩)

include hf he hne in
theorem ofInt_signed : Binary64.ofInt n.signed = n.value := by
  have hvalue : n.value = .ofDecimal n.sign.isNegative (Digits.read n.whole) 0 := by
    simp [value, exponentValue, hf, he]
  have hsign : decide (n.signed < 0) = n.sign.isNegative := by
    unfold signed
    cases hs : n.sign.isNegative with
    | false => simp
    | true =>
      have hpos := hne hs
      simp only [if_true, decide_eq_true_eq]
      omega
  have hsize : n.signed.natAbs = Digits.read n.whole := by
    unfold signed
    split <;> omega
  rw [hvalue, Binary64.ofInt, hsign, hsize]

include hf he hne in
theorem integer?_numeral_eq_some_iff {k : Int} :
    n.numeral.integer? = some k ↔ Json.Whole64 k ∧ n.signed = k := by
  have hunmarked : ¬(n.numeral.fraction.isSome = true ∨ n.numeral.exponent.isSome = true) := by
    simp [numeral, Json.numeralOf, spelling, hf, he]
  have hwhole : n.numeral.whole = n.whole := rfl
  have hnegative : n.numeral.negative = n.sign.isNegative := rfl
  rw [Json.Numeral.integer?, if_neg hunmarked, hwhole, hnegative]
  simp only [Json.Whole64, signed, Nat.pow_eq]
  cases hs : n.sign.isNegative with
  | false =>
    simp only [Bool.false_eq_true, if_false, Option.ite_none_right_eq_some, Option.some.injEq]
    omega
  | true =>
    have hpos := hne hs
    simp only [if_true, Option.ite_none_left_eq_some, Option.some.injEq]
    omega

end Whole

theorem IsLiteral.exists_scalar {n : DecimalText} (h : n.IsLiteral) (hzero : n.text ≠ ['-', '0'])
    (hfinite : n.value.isFinite = true) (hround : n.numeral.float = n.value) :
    ∃ v : Scalar, n.numeral.scalar? = some v ∧ v.quantity? = some n.quantity := by
  have hfloat (hinteger : n.numeral.integer? = none) (hwhole : n.whole64? = none) :
      ∃ v : Scalar, n.numeral.scalar? = some v ∧ v.quantity? = some n.quantity := by
    refine ⟨.float n.value, ?_, ?_⟩
    · rw [Json.Numeral.scalar?, hinteger, hround, if_pos hfinite]
    · rw [quantity, hwhole]
      rfl
  by_cases hmark : n.fraction.isNone ∧ n.exponent.isNone
  · simp only [Option.isNone_iff_eq_none] at hmark
    obtain ⟨hf, he⟩ := hmark
    have hne (hs : n.sign.isNegative = true) := h.read_whole_ne_zero hf he hs hzero
    by_cases hwhole : Json.Whole64 n.signed
    · -- Between the two ranges the whole number of the document becomes floating here.
      refine ⟨.integer n.signed, ?_, ?_⟩
      · rw [Json.Numeral.scalar?, (integer?_numeral_eq_some_iff hf he hne).2 ⟨hwhole, rfl⟩]
      · rw [Scalar.quantity?, quantity, whole64?_of_whole hf he, ofInt_signed hf he hne]
        cases Integer.toInt64? n.signed <;> rfl
    · refine hfloat (Option.eq_none_iff_forall_ne_some.2 fun k hk => ?_)
        (Option.eq_none_iff_forall_ne_some.2 fun k hk => ?_)
      · obtain ⟨hk, rfl⟩ := (integer?_numeral_eq_some_iff hf he hne).1 hk
        exact hwhole hk
      · rw [(whole64?_eq_some_iff.1 hk).2.2] at hwhole
        exact hwhole (whole64_toInt k)
  · have hsome : n.numeral.fraction.isSome ∨ n.numeral.exponent.isSome := by
      cases hf : n.fraction <;> cases he : n.exponent <;>
        simp_all [numeral, Json.numeralOf, spelling]
    exact hfloat (if_pos hsome) (if_neg hmark)

theorem IsLiteral.text_opens {n : DecimalText} (h : n.IsLiteral) (rest : List Char) :
    ∃ c cs, n.text ++ rest = c :: cs ∧ (c = '-' ∨ c.isDigit = true) := by
  cases hs : n.sign with
  | plus => exact absurd hs h.sign_ne_plus
  | minus => exact ⟨'-', n.unsignedText ++ rest, by simp [text, hs, Sign.text], .inl rfl⟩
  | absent =>
    have htext : n.text = n.unsignedText := by simp [text, hs, Sign.text]
    have hhead := h.head?_unsignedText rest
    rw [htext]
    cases hcs : n.unsignedText ++ rest with
    | nil => exact absurd (List.append_eq_nil_iff.1 hcs).1 (htext ▸ n.text_ne_nil)
    | cons c cs => exact ⟨c, cs, rfl, .inr (hhead c (by rw [hcs]; rfl))⟩

theorem IsLiteral.readValue_eq_readNumber {n : DecimalText} (h : n.IsLiteral) (fuel room : Nat)
    (rest : List Char) :
    Json.readValue (fuel + 1) room (n.text ++ rest) = Json.readNumber (n.text ++ rest) := by
  obtain ⟨c, cs, htext, hc⟩ := h.text_opens rest
  rw [htext, Json.readValue_number hc]

theorem IsLiteral.readValue {n : DecimalText} (h : n.IsLiteral) {v : Scalar}
    (hv : n.numeral.scalar? = some v) (fuel room : Nat) {rest : List Char}
    (hrest : Json.Ends rest) :
    Json.readValue (fuel + 1) room (n.text ++ rest) = (.scalar v none none, some rest) := by
  rw [h.readValue_eq_readNumber, Json.readNumber, h.readNumeral hrest]
  simp only [hv]

theorem IsLiteral.decode {n : DecimalText} (h : n.IsLiteral) {v : Scalar}
    (hv : n.numeral.scalar? = some v) {α : Type} (read : Node → Reading α) :
    Json.decode read n.literal = read (.scalar v none none) := by
  have hvalue := h.readValue hv (2 * n.text.length + 1) Json.room Json.ends_nil
  rw [List.append_nil] at hvalue
  refine Json.decode_of_document ?_ read
  simp only [Json.document, literal, String.toList_ofList, hvalue]
  rfl

/-- A literal other than minus zero, if it is not beyond every finite number and the reader of documents
rounds it correctly, means the same as a bound or a value in a flag and in a document, where it may stand
anywhere: a whole number exactly if it has neither fraction nor exponent and fits in sixty-four bits with
sign, and the nearest floating-point number otherwise. -/
theorem IsLiteral.read_alike {n : DecimalText} (h : n.IsLiteral) (hzero : n.text ≠ ['-', '0'])
    (hfinite : n.value.isFinite = true) (hround : n.numeral.float = n.value) :
    (∀ axis : String, '=' ∉ axis.toList → trim axis.toList ≠ [] →
      Subset.ofFlag (axis ++ "=" ++ n.literal) =
        .ok (.point (String.ofList (trim axis.toList)) (.ofQuantity n.quantity))) ∧
    Json.decode Coordinate.ofNode n.literal = .ok (.ofQuantity n.quantity) ∧
    Expression.ofFlag n.literal = .ok (.ofQuantity n.quantity) ∧
    Json.decode Expression.ofNode n.literal = .ok (.ofQuantity n.quantity) ∧
    (∃ v, (∀ fuel room rest, Json.Ends rest → Json.readValue (fuel + 1) room (n.text ++ rest) =
        (.scalar v none none, some rest)) ∧
      Coordinate.ofNode (.scalar v none none) = .ok (.ofQuantity n.quantity) ∧
      Expression.ofNode (.scalar v none none) = .ok (.ofQuantity n.quantity)) ∧
    (∀ k : Int64, n.quantity = .integer k ↔
      n.fraction = none ∧ n.exponent = none ∧ n.signed = k.toInt) ∧
    ∀ x, n.quantity = .float x ↔ x = n.value ∧ ¬(n.fraction = none ∧ n.exponent = none ∧
      -(2 ^ 63 : Int) ≤ n.signed ∧ n.signed < 2 ^ 63) := by
  obtain ⟨v, hv, hquantity⟩ := h.exists_scalar hzero hfinite hround
  have hcoordinate := Coordinate.untagged.read_scalar hquantity none none
  have hexpression := Expression.untagged.read_scalar hquantity none none
  exact ⟨fun _ => subset_ofFlag hfinite, (h.decode hv _).trans hcoordinate,
    expression_ofFlag hfinite, (h.decode hv _).trans hexpression,
    ⟨v, fun fuel room _ => h.readValue hv fuel room, hcoordinate, hexpression⟩,
    fun _ => quantity_eq_integer_iff, fun _ => quantity_eq_float_iff⟩

def firstBeyond : DecimalText where
  sign := .absent
  whole := "9223372036854775808".toList
  fraction := none
  exponent := none
  isDigit := List.all_eq_true.1 (by decide)
  digits_ne_nil := by decide

theorem IsLiteral.read_alike_firstBeyond :
    firstBeyond.IsLiteral ∧ firstBeyond.text ≠ ['-', '0'] ∧ firstBeyond.value.isFinite = true ∧
    firstBeyond.numeral.float = firstBeyond.value ∧
    firstBeyond.quantity = .float (.ofDecimal false (Nat.pow 2 63) 0) ∧
    Subset.ofFlag " Lat =9223372036854775808" =
      .ok (.point "Lat" (.ofQuantity firstBeyond.quantity)) ∧
    Json.decode Coordinate.ofNode "9223372036854775808" = .ok (.ofQuantity firstBeyond.quantity) ∧
    Expression.ofFlag "9223372036854775808" = .ok (.ofQuantity firstBeyond.quantity) ∧
    Json.decode Expression.ofNode "9223372036854775808" =
      .ok (.ofQuantity firstBeyond.quantity) := by
  have hliteral : firstBeyond.IsLiteral :=
    ⟨by simp [firstBeyond], by decide, by decide, by decide⟩
  have hzero : firstBeyond.text ≠ ['-', '0'] := by decide
  have hfinite : firstBeyond.value.isFinite = true := by decide +kernel
  have hround : firstBeyond.numeral.float = firstBeyond.value := by decide +kernel
  obtain ⟨hsubset, hcoordinate, hvalue, hexpression, -, -, hfloat⟩ :=
    hliteral.read_alike hzero hfinite hround
  exact ⟨hliteral, hzero, hfinite, hround, (hfloat _).2 (by decide +kernel),
    hsubset " Lat " (by decide) (by decide), hcoordinate, hvalue, hexpression⟩

end DecimalText
end CoverageQuery
