import CoverageQuery.Number.Float
import CoverageQuery.Proofs.Number.Spelling

/-!
# Written numbers read back

Reading a floating-point number takes the text of any layout back to the number, the infinite ones
and "not a number" included; so different numbers have different texts. The texts are made of
digits, signs, the point, the exponent mark and the letters of the words, and where whole numbers
are marked they are never those of whole numbers.
-/
namespace CoverageQuery

theorem isDigit_ne {c d : Char} (hc : c.isDigit = true) (hd : d.isDigit = false) : c ≠ d := by
  rintro rfl
  rw [hc] at hd
  exact Bool.noConfusion hd

theorem takeWhile_isDigit_append {digits rest : List Char} (h : ∀ c ∈ digits, c.isDigit = true)
    (hrest : ∀ c ∈ rest.head?, c.isDigit = false) :
    (digits ++ rest).takeWhile Char.isDigit = digits ∧
      (digits ++ rest).dropWhile Char.isDigit = rest := by
  rw [List.takeWhile_append_of_pos h, List.dropWhile_append_of_pos h]
  cases rest with
  | nil => simp
  | cons c cs => simp [hrest c rfl]

namespace Integer

theorem splitSign_of_isDigit {cs : List Char} (h : ∀ c ∈ cs.head?, c.isDigit = true) :
    splitSign cs = (false, cs) := by
  unfold splitSign
  split
  · exact absurd (h '-' rfl) (by decide)
  · exact absurd (h '+' rfl) (by decide)
  · rfl

theorem head?_write_isDigit (n : Nat) : ∀ c ∈ (Digits.write n).head?, c.isDigit = true := by
  intro c hc
  exact Digits.isDigit_of_mem_write (List.mem_of_mem_head? hc)

theorem readNat?_write (n : Nat) : readNat? (Digits.write n) = some n := by
  have hall : (Digits.write n).all Char.isDigit = true :=
    List.all_eq_true.2 fun c hc => Digits.isDigit_of_mem_write hc
  simp [readNat?, hall, Digits.write_ne_nil, Digits.read_write]

theorem mem_write {n : Int} {c : Char} (h : c ∈ write n) : c.isDigit = true ∨ c = '-' := by
  unfold write at h
  split at h
  · rcases List.mem_cons.1 h with rfl | h
    · exact .inr rfl
    · exact .inl (Digits.isDigit_of_mem_write h)
  · exact .inl (Digits.isDigit_of_mem_write h)

theorem readInt?_eq_none {cs : List Char} {c : Char} (hc : c ∈ (splitSign cs).2)
    (h : c.isDigit = false) : readInt? cs = none := by
  have hall : (splitSign cs).2.all Char.isDigit = false :=
    List.all_eq_false.2 ⟨c, hc, by simp [h]⟩
  simp [readInt?, readNat?, hall]

theorem toInt64?_toInt (n : Int64) : toInt64? n.toInt = some n := by
  have hfits : fits n.toInt = true := by
    have hlow := n.le_toInt
    have hhigh := n.toInt_lt
    simp only [fits, Nat.pow_eq, decide_eq_true_eq]
    omega
  rw [toInt64?, if_pos hfits, Int64.ofInt_toInt]

theorem toInt64?_eq_some_iff {m : Int} {k : Int64} : toInt64? m = some k ↔ m = k.toInt := by
  constructor
  · intro h
    unfold toInt64? at h
    split at h
    · rename_i hfits
      obtain rfl := Option.some.inj h
      simp only [fits, decide_eq_true_eq] at hfits
      exact (Int64.toInt_ofInt_of_le hfits.1 hfits.2).symm
    · exact absurd h (by simp)
  · rintro rfl
    exact toInt64?_toInt k

theorem exists_toInt_iff {m : Int} :
    (∃ k : Int64, m = k.toInt) ↔ -(2 ^ 63 : Int) ≤ m ∧ m < 2 ^ 63 := by
  constructor
  · rintro ⟨k, rfl⟩
    exact ⟨k.le_toInt, k.toInt_lt⟩
  · rintro ⟨hlow, hhigh⟩
    exact ⟨.ofInt m, (Int64.toInt_ofInt_of_le hlow hhigh).symm⟩

theorem readInt64?_write (n : Int64) : readInt64? (write n.toInt) = some n := by
  rw [readInt64?, readInt_write, Option.bind_some, toInt64?_toInt]

theorem write_injective {m n : Int} (h : write m = write n) : m = n := by
  have hm := readInt_write m
  rw [h, readInt_write] at hm
  exact (Option.some.inj hm).symm

end Integer

theorem Binary64.splitPoint_append {whole point digits rest : List Char}
    (hwhole : ∀ c ∈ whole, c.isDigit = true) (hdigits : ∀ c ∈ digits, c.isDigit = true)
    (hpoint : point = [] ∧ digits = [] ∨ point = '.' :: digits)
    (hrest : ∀ c ∈ rest.head?, c.isDigit = false ∧ c ≠ '.') :
    splitPoint (whole ++ point ++ rest) = (whole, digits, rest) := by
  have hend : ∀ c ∈ rest.head?, c.isDigit = false := fun c hc => (hrest c hc).1
  rcases hpoint with ⟨rfl, rfl⟩ | rfl
  · obtain ⟨htake, hdrop⟩ := takeWhile_isDigit_append hwhole hend
    simp only [List.append_nil, splitPoint, htake, hdrop]
    split
    · exact absurd rfl (hrest '.' rfl).2
    · rfl
  · have hmark : ∀ c ∈ ('.' :: (digits ++ rest)).head?, c.isDigit = false := by
      intro c hc
      obtain rfl := Option.some.inj hc
      rfl
    obtain ⟨htake, hdrop⟩ := takeWhile_isDigit_append hwhole hmark
    obtain ⟨hftake, hfdrop⟩ := takeWhile_isDigit_append hdigits hend
    simp only [List.append_assoc, List.cons_append, splitPoint, htake, hdrop, hftake, hfdrop]

namespace Spelling

theorem head?_text {s : Spelling} (h : s.WellFormed) (signs : Bool) :
    ∀ c ∈ (s.text signs).head?, c.isDigit = true := by
  intro c hc
  cases hw : s.whole with
  | nil => exact absurd hw h.whole_ne_nil
  | cons d ds =>
    rw [text, hw] at hc
    obtain rfl := Option.some.inj hc
    exact h.whole_digits d (by rw [hw]; exact List.mem_cons_self)

theorem text_ne_nil {s : Spelling} (h : s.WellFormed) (signs : Bool) : s.text signs ≠ [] := by
  simp [text, h.whole_ne_nil]

theorem head?_exponentText (s : Spelling) (signs : Bool) :
    ∀ c ∈ (s.exponentText signs).head?, c = 'e' := by
  intro c hc
  unfold exponentText at hc
  split at hc
  · exact absurd hc (by simp)
  · exact (Option.some.inj hc).symm

theorem exists_mark {s : Spelling} (h : s.fraction.isSome ∨ s.exponent.isSome) (signs : Bool) :
    ∃ c ∈ s.text signs, c.isDigit = false := by
  rcases h with h | h
  · obtain ⟨digits, hf⟩ := Option.isSome_iff_exists.1 h
    exact ⟨'.', by simp [text, fractionText, hf], by decide⟩
  · obtain ⟨e, he⟩ := Option.isSome_iff_exists.1 h
    exact ⟨'e', by simp [text, exponentText, he], by decide⟩

theorem readInt?_exponent (signs : Bool) (e : Int) :
    Integer.readInt? (exponentSign signs e ++ Digits.write e.natAbs) = some e := by
  unfold exponentSign
  split
  · rename_i h
    have hread := Integer.read_of_sign true e.natAbs
    simp only [if_true] at hread
    rw [hread]
    congr 1
    omega
  · rename_i h
    have habs : (e.natAbs : Int) = e := by omega
    cases signs with
    | true => simp [Integer.readInt?, Integer.splitSign, Integer.readNat?_write, habs]
    | false =>
      have hread := Integer.read_of_sign false e.natAbs
      simp only [Bool.false_eq_true, if_false] at hread ⊢
      rw [hread, habs]

theorem readExponent?_text (s : Spelling) (signs : Bool) :
    Binary64.readExponent? (s.exponentText signs) = some (s.exponent.getD 0) := by
  unfold exponentText
  cases s.exponent with
  | none => rfl
  | some e => simp [Binary64.readExponent?, readInt?_exponent]

theorem splitPoint_text {s : Spelling} (h : s.WellFormed) (signs : Bool) :
    Binary64.splitPoint (s.text signs) = (s.whole, s.fraction.getD [], s.exponentText signs) := by
  have hfraction : ∀ c ∈ s.fraction.getD [], c.isDigit = true := by
    cases hf : s.fraction with
    | none => simp
    | some digits => exact (h.fraction_digits digits hf).2
  refine Binary64.splitPoint_append h.whole_digits hfraction ?_ fun c hc => ?_
  · cases hf : s.fraction with
    | none => exact .inl ⟨by rw [fractionText, hf], rfl⟩
    | some digits => exact .inr (by rw [fractionText, hf]; rfl)
  · obtain rfl := s.head?_exponentText signs c hc
    exact ⟨by decide, by decide⟩

theorem readUnsigned?_text {s : Spelling} (h : s.WellFormed) (signs negative : Bool)
    {x : Magnitude} (hx : s.magnitude? = some x) :
    Binary64.readUnsigned? negative (s.text signs) = some (.finite negative x) := by
  have hne : s.whole.isEmpty = false := List.isEmpty_eq_false_iff.2 h.whole_ne_nil
  unfold magnitude? at hx
  simp [Binary64.readUnsigned?, splitPoint_text h, readExponent?_text, hne, Binary64.ofDecimal,
    Binary64.signed, hx]

theorem mem_text {s : Spelling} (h : s.WellFormed) {signs : Bool} {c : Char}
    (hc : c ∈ s.text signs) : c.isDigit = true ∨ c ∈ ['.', 'e', '+', '-'] := by
  rcases List.mem_append.1 hc with hc | hc
  · rcases List.mem_append.1 hc with hc | hc
    · exact .inl (h.whole_digits c hc)
    · cases hf : s.fraction with
      | none => simp [fractionText, hf] at hc
      | some digits =>
        rcases List.mem_cons.1 (show c ∈ '.' :: digits by simpa [fractionText, hf] using hc)
          with rfl | hc
        · exact .inr (by simp)
        · exact .inl ((h.fraction_digits digits hf).2 c hc)
  · cases he : s.exponent with
    | none => simp [exponentText, he] at hc
    | some e =>
      simp only [exponentText, he, List.cons_append, List.mem_cons, List.mem_append] at hc
      rcases hc with rfl | hc | hc
      · exact .inr (by simp)
      · unfold exponentSign at hc
        split at hc
        · simp_all
        · split at hc
          · simp_all
          · simp at hc
      · exact .inl (Digits.isDigit_of_mem_write hc)

end Spelling

namespace NumberLayout

theorem signText_append (negative : Bool) (s : Spelling) (h : s.WellFormed) (signs : Bool) :
    Integer.splitSign (signText negative ++ s.text signs) = (negative, s.text signs) := by
  cases negative with
  | true => rfl
  | false => exact Integer.splitSign_of_isDigit (Spelling.head?_text h signs)

/-- Every number is read back from its text. -/
theorem read?_text (l : NumberLayout) (x : Binary64) : Binary64.read? (l.text x) = some x := by
  cases x with
  | nan =>
    show Binary64.read? "NaN".toList = some .nan
    decide
  | infinite negative =>
    show Binary64.read? (signText negative ++ "inf".toList) = some (.infinite negative)
    cases negative <;> decide
  | finite negative x =>
    have hw := l.spelling_wellFormed x
    have hread := Spelling.readUnsigned?_text hw l.signsExponent negative (l.spelling_magnitude? x)
    simp only [text, magnitudeText_eq, Binary64.read?, signText_append negative _ hw, hread,
      Option.some_or]

theorem text_injective (l : NumberLayout) {x y : Binary64} (h : l.text x = l.text y) : x = y := by
  have hx := l.read?_text x
  rw [h, read?_text] at hx
  exact (Option.some.inj hx).symm

def marks : List Char := ['.', 'e', '+', '-', 'N', 'a', 'i', 'n', 'f']

theorem mem_text {l : NumberLayout} {x : Binary64} {c : Char} (h : c ∈ l.text x) :
    c.isDigit = true ∨ c ∈ marks := by
  cases x with
  | nan =>
    right
    simp only [text, String.reduceToList, List.mem_cons] at h
    simp only [marks, List.mem_cons]
    tauto
  | infinite negative =>
    right
    simp only [text, String.reduceToList, List.mem_append, List.mem_cons] at h
    rcases h with h | h
    · cases negative <;> simp_all [signText, marks]
    · simp only [marks, List.mem_cons]
      tauto
  | finite negative x =>
    rcases List.mem_append.1 h with h | h
    · cases negative <;> simp_all [signText, marks]
    · rw [magnitudeText_eq] at h
      rcases Spelling.mem_text (l.spelling_wellFormed x) h with h | h
      · exact .inl h
      · right
        simp only [marks, List.mem_cons] at h ⊢
        tauto

theorem readInt?_text {l : NumberLayout} (hl : l.marksWhole = true) (x : Binary64) :
    Integer.readInt? (l.text x) = none := by
  cases x with
  | nan =>
    show Integer.readInt? "NaN".toList = none
    decide
  | infinite negative =>
    show Integer.readInt? (signText negative ++ "inf".toList) = none
    cases negative <;> decide
  | finite negative x =>
    obtain ⟨c, hc, hdigit⟩ := Spelling.exists_mark (spelling_marked hl x) l.signsExponent
    have hsign := signText_append negative _ (l.spelling_wellFormed x) l.signsExponent
    rw [text, magnitudeText_eq]
    refine Integer.readInt?_eq_none ?_ hdigit
    rw [hsign]
    exact hc

theorem text_ne_write {l : NumberLayout} (hl : l.marksWhole = true) (x : Binary64) (n : Int) :
    l.text x ≠ Integer.write n := by
  intro h
  have hread := Integer.readInt_write n
  rw [← h, readInt?_text hl] at hread
  exact absurd hread (by simp)

end NumberLayout
end CoverageQuery
