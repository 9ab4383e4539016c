import CoverageQuery.Proofs.Number.ReadBack

/-!
# Decimal texts

A decimal text is an optional sign, digits with an optional point before, after or among them, and an
optional exponent: a mark, an optional sign and digits. Reading a floating-point number takes every
decimal text, for the number nearest to the decimal that it stands for, and besides these only the words
for infinity and "not a number".
-/
namespace CoverageQuery

namespace Integer

theorem readNat?_eq_some_iff {cs : List Char} {n : Nat} : readNat? cs = some n ↔
    cs ≠ [] ∧ (∀ c ∈ cs, c.isDigit = true) ∧ Digits.read cs = n := by
  unfold readNat?
  split
  · rename_i h
    refine ⟨fun hn => absurd hn (by simp), fun ⟨hne, hdigits, _⟩ => ?_⟩
    rcases h with h | h
    · exact absurd (List.isEmpty_iff.1 h) hne
    · exact absurd (List.all_eq_true.2 hdigits) h
  · rename_i h
    push Not at h
    simp only [Option.some.injEq]
    exact ⟨fun hn => ⟨by simpa using h.1, List.all_eq_true.1 h.2, hn⟩, fun hn => hn.2.2⟩

theorem readInt?_eq_some_iff {cs : List Char} {k : Int} : readInt? cs = some k ↔
    ∃ n, readNat? (splitSign cs).2 = some n ∧
      (if (splitSign cs).1 then -(n : Int) else n) = k := by
  cases h : readNat? (splitSign cs).2 <;> simp [readInt?, h]

end Integer

inductive DecimalText.Sign where
  | absent
  | plus
  | minus

def DecimalText.Sign.text : Sign → List Char
  | absent => []
  | plus => ['+']
  | minus => ['-']

def DecimalText.Sign.isNegative : Sign → Bool
  | minus => true
  | _ => false

structure DecimalText.Exponent where
  mark : Char
  sign : Sign
  digits : List Char
  mark_eq : mark = 'e' ∨ mark = 'E'
  digits_ne_nil : digits ≠ []
  isDigit : ∀ c ∈ digits, c.isDigit = true

structure DecimalText where
  sign : DecimalText.Sign
  whole : List Char
  fraction : Option (List Char)
  exponent : Option DecimalText.Exponent
  isDigit : ∀ c ∈ whole ++ fraction.getD [], c.isDigit = true
  digits_ne_nil : whole ++ fraction.getD [] ≠ []

namespace DecimalText

namespace Exponent

def text (e : Exponent) : List Char := e.mark :: (e.sign.text ++ e.digits)

def value (e : Exponent) : Int :=
  if e.sign.isNegative then -(Digits.read e.digits : Int) else Digits.read e.digits

end Exponent

def pointText : Option (List Char) → List Char
  | none => []
  | some digits => '.' :: digits

def exponentText : Option Exponent → List Char
  | none => []
  | some e => e.text

def exponentValue : Option Exponent → Int
  | none => 0
  | some e => e.value

def unsignedText (n : DecimalText) : List Char :=
  n.whole ++ pointText n.fraction ++ exponentText n.exponent

def text (n : DecimalText) : List Char := n.sign.text ++ n.unsignedText

/-- The number nearest to the decimal: its digits as a whole number, by a power of ten. -/
def value (n : DecimalText) : Binary64 :=
  .ofDecimal n.sign.isNegative (Digits.read (n.whole ++ n.fraction.getD []))
    (exponentValue n.exponent - (n.fraction.getD []).length)

theorem Sign.splitSign_append (s : Sign) {rest : List Char}
    (h : ∀ c ∈ rest.head?, c ≠ '+' ∧ c ≠ '-') :
    Integer.splitSign (s.text ++ rest) = (s.isNegative, rest) := by
  cases s with
  | plus => rfl
  | minus => rfl
  | absent =>
    show Integer.splitSign rest = (false, rest)
    unfold Integer.splitSign
    split
    · exact absurd rfl (h '-' rfl).2
    · exact absurd rfl (h '+' rfl).1
    · rfl

theorem Sign.exists_of_splitSign (cs : List Char) :
    ∃ s : Sign, s.isNegative = (Integer.splitSign cs).1 ∧
      s.text ++ (Integer.splitSign cs).2 = cs := by
  unfold Integer.splitSign
  split
  · exact ⟨.minus, rfl, rfl⟩
  · exact ⟨.plus, rfl, rfl⟩
  · exact ⟨.absent, rfl, rfl⟩

theorem Sign.mem_text {s : Sign} {c : Char} (h : c ∈ s.text) : c = '+' ∨ c = '-' := by
  cases s with
  | absent => exact absurd h (by simp [text])
  | plus => exact .inl (List.mem_singleton.1 h)
  | minus => exact .inr (List.mem_singleton.1 h)

theorem ne_sign_of_isDigit {c : Char} (h : c.isDigit = true) : c ≠ '+' ∧ c ≠ '-' :=
  ⟨isDigit_ne h (by decide), isDigit_ne h (by decide)⟩

namespace Exponent

theorem readInt?_text (e : Exponent) : Integer.readInt? (e.sign.text ++ e.digits) = some e.value := by
  have hsign : Integer.splitSign (e.sign.text ++ e.digits) = (e.sign.isNegative, e.digits) :=
    e.sign.splitSign_append fun c hc => ne_sign_of_isDigit (e.isDigit c (List.mem_of_mem_head? hc))
  rw [Integer.readInt?_eq_some_iff, hsign]
  exact ⟨_, Integer.readNat?_eq_some_iff.2 ⟨e.digits_ne_nil, e.isDigit, rfl⟩, rfl⟩

theorem exists_of_readInt? {cs : List Char} {k : Int} (h : Integer.readInt? cs = some k) {mark : Char}
    (hmark : mark = 'e' ∨ mark = 'E') : ∃ e : Exponent, e.text = mark :: cs ∧ e.value = k := by
  obtain ⟨s, hnegative, htext⟩ := Sign.exists_of_splitSign cs
  obtain ⟨n, hn, rfl⟩ := Integer.readInt?_eq_some_iff.1 h
  obtain ⟨hne, hdigits, rfl⟩ := Integer.readNat?_eq_some_iff.1 hn
  exact ⟨⟨mark, s, _, hmark, hne, hdigits⟩, congrArg _ htext, by rw [value, hnegative]⟩

end Exponent

theorem readExponent?_text (e : Option Exponent) :
    Binary64.readExponent? (exponentText e) = some (exponentValue e) := by
  cases e with
  | none => rfl
  | some e => exact (if_pos e.mark_eq).trans e.readInt?_text

theorem exists_of_readExponent? {cs : List Char} {k : Int} (h : Binary64.readExponent? cs = some k) :
    ∃ e : Option Exponent, exponentText e = cs ∧ exponentValue e = k := by
  cases cs with
  | nil => exact ⟨none, rfl, Option.some.inj h⟩
  | cons c cs =>
    simp only [Binary64.readExponent?] at h
    split at h
    · rename_i hmark
      obtain ⟨e, htext, hvalue⟩ := Exponent.exists_of_readInt? h hmark
      exact ⟨some e, htext, hvalue⟩
    · exact absurd h (by simp)

theorem head?_exponentText (e : Option Exponent) : ∀ c ∈ (exponentText e).head?, c = 'e' ∨ c = 'E' := by
  intro c hc
  cases e with
  | none => exact absurd hc (by simp [exponentText])
  | some e =>
    obtain rfl := Option.some.inj hc
    exact e.mark_eq

theorem pointText_cases (fraction : Option (List Char)) :
    pointText fraction = [] ∧ fraction.getD [] = [] ∨
      pointText fraction = '.' :: fraction.getD [] := by
  cases fraction with
  | none => exact .inl ⟨rfl, rfl⟩
  | some digits => exact .inr rfl

theorem exists_of_splitPoint {cs whole digits rest : List Char}
    (h : Binary64.splitPoint cs = (whole, digits, rest)) :
    ∃ fraction : Option (List Char), fraction.getD [] = digits ∧
      whole ++ pointText fraction ++ rest = cs ∧ ∀ c ∈ whole ++ digits, c.isDigit = true := by
  have hdigits (cs : List Char) : ∀ c ∈ cs.takeWhile Char.isDigit, c.isDigit = true :=
    List.all_eq_true.1 List.all_takeWhile
  unfold Binary64.splitPoint at h
  split at h
  · rename_i after hafter
    simp only [Prod.mk.injEq] at h
    obtain ⟨rfl, rfl, rfl⟩ := h
    refine ⟨some _, rfl, ?_, fun c hc => ?_⟩
    · rw [pointText, List.append_assoc, List.cons_append, List.takeWhile_append_dropWhile, ← hafter,
        List.takeWhile_append_dropWhile]
    · rcases List.mem_append.1 hc with hc | hc
      · exact hdigits cs c hc
      · exact hdigits after c hc
  · simp only [Prod.mk.injEq] at h
    obtain ⟨rfl, rfl, rfl⟩ := h
    refine ⟨none, rfl, ?_, fun c hc => hdigits cs c (by simpa using hc)⟩
    rw [pointText, List.append_nil, List.takeWhile_append_dropWhile]

theorem head?_unsignedText (n : DecimalText) : ∀ c ∈ n.unsignedText.head?, c ≠ '+' ∧ c ≠ '-' := by
  intro c hc
  cases hw : n.whole with
  | cons d whole =>
    rw [unsignedText, hw] at hc
    obtain rfl := Option.some.inj hc
    exact ne_sign_of_isDigit (n.isDigit d (by simp [hw]))
  | nil =>
    -- Without a digit before the point there is a point.
    cases hf : n.fraction with
    | none => exact absurd n.digits_ne_nil (by simp [hw, hf])
    | some digits =>
      rw [unsignedText, hw, hf] at hc
      obtain rfl := Option.some.inj hc
      exact ⟨by decide, by decide⟩

theorem readUnsigned?_text (n : DecimalText) (negative : Bool) :
    Binary64.readUnsigned? negative n.unsignedText =
      some (.ofDecimal negative (Digits.read (n.whole ++ n.fraction.getD []))
        (exponentValue n.exponent - (n.fraction.getD []).length)) := by
  have hrest : ∀ c ∈ (exponentText n.exponent).head?, c.isDigit = false ∧ c ≠ '.' := by
    intro c hc
    rcases head?_exponentText n.exponent c hc with rfl | rfl <;> decide
  have hne : ¬(n.whole.isEmpty = true ∧ (n.fraction.getD []).isEmpty = true) := fun ⟨hw, hf⟩ =>
    n.digits_ne_nil (by rw [List.isEmpty_iff.1 hw, List.isEmpty_iff.1 hf]; rfl)
  have hsplit := Binary64.splitPoint_append (fun c hc => n.isDigit c (List.mem_append_left _ hc))
    (fun c hc => n.isDigit c (List.mem_append_right _ hc)) (pointText_cases n.fraction) hrest
  simp only [Binary64.readUnsigned?, unsignedText, hsplit, readExponent?_text, if_neg hne,
    Option.map_some]

theorem read?_text (n : DecimalText) : Binary64.read? n.text = some n.value := by
  simp only [Binary64.read?, text, n.sign.splitSign_append n.head?_unsignedText,
    n.readUnsigned?_text, Option.some_or, value]

theorem exists_of_readUnsigned? {s : Sign} {cs : List Char} {x : Binary64}
    (h : Binary64.readUnsigned? s.isNegative cs = some x) :
    ∃ n : DecimalText, n.text = s.text ++ cs ∧ n.value = x := by
  obtain ⟨whole, digits, rest, hsplit⟩ : ∃ whole digits rest,
      Binary64.splitPoint cs = (whole, digits, rest) := ⟨_, _, _, rfl⟩
  rw [Binary64.readUnsigned?, hsplit] at h
  dsimp only at h
  split at h
  · exact absurd h (by simp)
  · rename_i hne
    obtain ⟨fraction, rfl, hunsigned, hdigits⟩ := exists_of_splitPoint hsplit
    obtain ⟨k, hk, rfl⟩ := Option.map_eq_some_iff.1 h
    obtain ⟨exponent, rfl, rfl⟩ := exists_of_readExponent? hk
    have hsome : whole ++ fraction.getD [] ≠ [] := fun hnil => hne (by simpa using hnil)
    refine ⟨⟨s, whole, fraction, exponent, hdigits, hsome⟩, ?_, rfl⟩
    rw [text, unsignedText, hunsigned]

theorem exists_of_read? {cs : List Char} {x : Binary64} (h : Binary64.read? cs = some x) :
    (∃ n : DecimalText, n.text = cs ∧ n.value = x) ∨
      Binary64.readWord? (Integer.splitSign cs).1 (Integer.splitSign cs).2 = some x := by
  obtain ⟨s, hnegative, htext⟩ := Sign.exists_of_splitSign cs
  have hread : (Binary64.readUnsigned? (Integer.splitSign cs).1 (Integer.splitSign cs).2).or
      (Binary64.readWord? (Integer.splitSign cs).1 (Integer.splitSign cs).2) = some x := h
  rw [← hnegative] at hread ⊢
  rcases Option.or_eq_some_iff.1 hread with hread | ⟨_, hread⟩
  · rw [← htext]
    exact .inl (exists_of_readUnsigned? hread)
  · exact .inr hread

theorem mem_text {n : DecimalText} {c : Char} (h : c ∈ n.text) :
    c.isDigit = true ∨ c ∈ ['.', '+', '-', 'e', 'E'] := by
  have hsign {s : Sign} (hc : c ∈ s.text) : c ∈ ['.', '+', '-', 'e', 'E'] := by
    rcases Sign.mem_text hc with rfl | rfl <;> simp
  have hdigit (hc : c ∈ n.whole ++ n.fraction.getD []) : c.isDigit = true := n.isDigit c hc
  rcases List.mem_append.1 h with h | h
  · exact .inr (hsign h)
  · rcases List.mem_append.1 h with h | h
    · rcases List.mem_append.1 h with h | h
      · exact .inl (hdigit (List.mem_append_left _ h))
      · cases hf : n.fraction with
        | none => exact absurd h (by simp [pointText, hf])
        | some digits =>
          rw [hf] at h hdigit
          rcases List.mem_cons.1 h with rfl | h
          · exact .inr (by simp)
          · exact .inl (hdigit (List.mem_append_right _ h))
    · cases he : n.exponent with
      | none => exact absurd h (by simp [exponentText, he])
      | some e =>
        rw [he] at h
        rcases List.mem_cons.1 h with rfl | h
        · rcases e.mark_eq with hmark | hmark <;> simp [hmark]
        · rcases List.mem_append.1 h with h | h
          · exact .inr (hsign h)
          · exact .inl (e.isDigit c h)

theorem text_ne_nil (n : DecimalText) : n.text ≠ [] := by
  intro h
  obtain ⟨_, hrest⟩ := List.append_eq_nil_iff.1 h
  obtain ⟨hdigits, _⟩ := List.append_eq_nil_iff.1 hrest
  obtain ⟨hw, hp⟩ := List.append_eq_nil_iff.1 hdigits
  have hne := n.digits_ne_nil
  cases hf : n.fraction with
  | none => simp [hw, hf] at hne
  | some digits => simp [pointText, hf] at hp

end DecimalText

def Binary64.wordLetters : List Char := ['i', 'n', 'f', 't', 'y', 'a']

theorem Binary64.mem_of_readWord? {negative : Bool} {cs : List Char} {x : Binary64}
    (h : readWord? negative cs = some x) :
    (∀ c ∈ cs, c.toLower ∈ wordLetters) ∧ ∃ c ∈ cs, c.toLower = 'n' := by
  have hword : ∀ word ∈ ["nan".toList, "inf".toList, "infinity".toList],
      (∀ c ∈ word, c ∈ wordLetters) ∧ 'n' ∈ word := by simp [wordLetters]
  have hcs : cs.map Char.toLower ∈ ["nan".toList, "inf".toList, "infinity".toList] := by
    simp only [readWord?] at h
    split at h
    · rename_i hnan
      exact hnan ▸ List.mem_cons_self
    · split at h
      · rename_i hinf
        exact List.mem_cons_of_mem _ (by simpa using hinf)
      · exact absurd h (by simp)
  obtain ⟨hall, hn⟩ := hword _ hcs
  obtain ⟨c, hc, hlower⟩ := List.mem_map.1 hn
  exact ⟨fun c hc => hall _ (List.mem_map_of_mem hc), c, hc, hlower⟩

theorem Binary64.mem_of_read? {cs : List Char} {x : Binary64} (h : read? cs = some x) {c : Char}
    (hc : c ∈ cs) : c.isDigit = true ∨ c ∈ ['.', '+', '-', 'e', 'E'] ∨ c.toLower ∈ wordLetters := by
  rcases DecimalText.exists_of_read? h with ⟨n, rfl, _⟩ | hword
  · exact (DecimalText.mem_text hc).imp_right .inl
  · obtain ⟨s, _, htext⟩ := DecimalText.Sign.exists_of_splitSign cs
    rw [← htext] at hc
    rcases List.mem_append.1 hc with hc | hc
    · rcases DecimalText.Sign.mem_text hc with rfl | rfl <;> simp
    · exact .inr (.inr ((mem_of_readWord? hword).1 c hc))

theorem Integer.mem_of_readInt? {cs : List Char} {k : Int} (h : readInt? cs = some k) {c : Char}
    (hc : c ∈ cs) : c.isDigit = true ∨ c ∈ ['+', '-'] := by
  obtain ⟨n, hn, _⟩ := readInt?_eq_some_iff.1 h
  obtain ⟨_, hdigits, _⟩ := readNat?_eq_some_iff.1 hn
  obtain ⟨s, _, htext⟩ := DecimalText.Sign.exists_of_splitSign cs
  rw [← htext] at hc
  rcases List.mem_append.1 hc with hc | hc
  · rcases DecimalText.Sign.mem_text hc with rfl | rfl <;> simp
  · exact .inl (hdigits c hc)

end CoverageQuery
