import CoverageQuery.Proofs.Json.Numeral
import CoverageQuery.Proofs.Number.ReadBack

/-!
# JSON strings and numbers read back

A string is read back from its text: every character, whether it stands for itself, is escaped by a
letter or by its code, gives one piece, and the pieces give the string. A spelled number is read
back as its parts when something follows that cannot be part of a number, so a finite floating-point
number keeps its value and never becomes whole, and a whole number of sixty-four bits stays whole.
-/
namespace CoverageQuery.Json

open Document

def pieceOf (c : Char) : Piece :=
  if c.toNat < 32 ∧ c ≠ '\n' ∧ c ≠ '\r' ∧ c ≠ '\t' ∧ c.toNat ≠ 8 ∧ c.toNat ≠ 12 then .code c.toNat
  else .char c

theorem readBase?_hex : ∀ n < 32,
    Digits.readBase? 16 ['0', '0', Digits.hexChar (n / 16), Digits.hexChar (n % 16)] = some n := by
  decide

theorem stringPieces_plain {c : Char} (hquote : c ≠ '"') (hslash : c ≠ '\\')
    (hcontrol : ¬ c.toNat < 32) (rest : List Char) :
    stringPieces (c :: rest)
      = (stringPieces rest).map fun (pieces, after) => (.char c :: pieces, after) := by
  rw [stringPieces.eq_def]
  split <;> simp_all

theorem stringPieces_escape (c : Char) (rest : List Char) :
    stringPieces (escape c ++ rest)
      = (stringPieces rest).map fun (pieces, after) => (pieceOf c :: pieces, after) := by
  by_cases hquote : c = '"'
  · subst hquote
    simp [escape, stringPieces, escaped?, pieceOf]
  by_cases hslash : c = '\\'
  · subst hslash
    simp [escape, stringPieces, escaped?, pieceOf]
  by_cases hline : c = '\n'
  · subst hline
    simp [escape, stringPieces, escaped?, pieceOf]
  by_cases hreturn : c = '\r'
  · subst hreturn
    simp [escape, stringPieces, escaped?, pieceOf]
  by_cases htab : c = '\t'
  · subst htab
    simp [escape, stringPieces, escaped?, pieceOf]
  by_cases hback : c.toNat = 8
  · obtain rfl : c = Char.ofNat 8 := by rw [← hback, Char.ofNat_toNat]
    simp [escape, stringPieces, escaped?, pieceOf]
  by_cases hfeed : c.toNat = 12
  · obtain rfl : c = Char.ofNat 12 := by rw [← hfeed, Char.ofNat_toNat]
    simp [escape, stringPieces, escaped?, pieceOf]
  by_cases hcontrol : c.toNat < 32
  · have hcode := readBase?_hex c.toNat hcontrol
    simp [escape, stringPieces, pieceOf, *]
  · have hplain := stringPieces_plain hquote hslash hcontrol rest
    simp [escape, pieceOf, *]

theorem assemble_pieceOf (c : Char) (pieces : List Piece) :
    assemble (pieceOf c :: pieces) = (assemble pieces).map (c :: ·) := by
  unfold pieceOf
  split
  · rename_i h
    have hchar : Char.ofNat c.toNat = c := Char.ofNat_toNat c
    have hlow : ¬ 0xD800 ≤ c.toNat := by omega
    have hlow' : ¬ 0xDC00 ≤ c.toNat := by omega
    cases pieces with
    | nil => simp [assemble, hlow, hchar]
    | cons p ps => simp [assemble, hlow, hlow', hchar]
  · rfl

theorem stringPieces_text (cs rest : List Char) :
    stringPieces (cs.flatMap escape ++ '"' :: rest) = .ok (cs.map pieceOf, rest) := by
  induction cs with
  | nil => rfl
  | cons c cs ih =>
    rw [List.flatMap_cons, List.append_assoc, stringPieces_escape, ih]
    rfl

theorem assemble_map_pieceOf (cs : List Char) : assemble (cs.map pieceOf) = some cs := by
  induction cs with
  | nil => rfl
  | cons c cs ih => rw [List.map_cons, assemble_pieceOf, ih, Option.map_some]

theorem readString_text (s : String) (rest : List Char) :
    readString (s.toList.flatMap escape ++ '"' :: rest)
      = (.scalar (.text s) none none, some rest) := by
  simp only [readString, stringPieces_text, assemble_map_pieceOf, String.ofList_toList]

def Ends (rest : List Char) : Prop :=
  ∀ c ∈ rest.head?, c.isDigit = false ∧ c ≠ '.' ∧ c ≠ 'e' ∧ c ≠ 'E'

theorem ends_nil : Ends [] := by
  intro c hc
  simp at hc

theorem ends_cons {c : Char} (h : c ∈ [',', ']', '}']) (rest : List Char) : Ends (c :: rest) := by
  intro d hd
  obtain rfl := Option.some.inj hd
  simp only [List.mem_cons, List.not_mem_nil, or_false] at h
  rcases h with rfl | rfl | rfl <;> decide

theorem spanDigits_append {digits rest : List Char} (h : ∀ c ∈ digits, c.isDigit = true)
    (hrest : ∀ c ∈ rest.head?, c.isDigit = false) :
    spanDigits (digits ++ rest) = (digits, rest) := by
  obtain ⟨htake, hdrop⟩ := takeWhile_isDigit_append h hrest
  rw [spanDigits, htake, hdrop]

theorem readWhole_append {s : Spelling} (h : s.WellFormed) {rest : List Char}
    (hrest : ∀ c ∈ rest.head?, c.isDigit = false) :
    readWhole (s.whole ++ rest) = .ok (s.whole, rest) := by
  rw [readWhole, spanDigits_append h.whole_digits hrest]
  dsimp only
  split
  · rename_i hnil
    exact absurd hnil h.whole_ne_nil
  · rename_i c cs hw
    rcases h.whole_head with hz | hz
    · rw [hz] at hw
      simp at hw
    · rw [hw] at hz
      simp at hz
  · rfl

theorem head?_append_of_ne_nil {a : List Char} (h : a ≠ []) (b : List Char) :
    (a ++ b).head? = a.head? := by
  cases a with
  | nil => exact absurd rfl h
  | cons c cs => rfl

theorem exponentText_head (s : Spelling) (signs : Bool) {rest : List Char} (hrest : Ends rest) :
    ∀ c ∈ (s.exponentText signs ++ rest).head?, c.isDigit = false ∧ c ≠ '.' := by
  intro c hc
  cases he : s.exponent with
  | none =>
    rw [Spelling.exponentText, he] at hc
    exact ⟨(hrest c hc).1, (hrest c hc).2.1⟩
  | some e =>
    rw [Spelling.exponentText, he] at hc
    obtain rfl := Option.some.inj hc
    exact ⟨by decide, by decide⟩

theorem readFraction_of_head {s : Spelling} (h : s.WellFormed) {more : List Char}
    (hmore : ∀ c ∈ more.head?, c.isDigit = false ∧ c ≠ '.') :
    readFraction (s.fractionText ++ more) = .ok (s.fraction, more) := by
  cases hf : s.fraction with
  | none =>
    simp only [Spelling.fractionText, hf, List.nil_append]
    unfold readFraction
    split
    · exact absurd rfl (hmore '.' rfl).2
    · rfl
  | some digits =>
    obtain ⟨hne, hdigits⟩ := h.fraction_digits digits hf
    have hempty : digits.isEmpty = false := List.isEmpty_eq_false_iff.2 hne
    simp only [Spelling.fractionText, hf, List.cons_append, readFraction,
      spanDigits_append hdigits fun c hc => (hmore c hc).1, hempty, Bool.false_eq_true, if_false]

theorem readFraction_append {s : Spelling} (h : s.WellFormed) (signs : Bool) {rest : List Char}
    (hrest : Ends rest) :
    readFraction (s.fractionText ++ (s.exponentText signs ++ rest))
      = .ok (s.fraction, s.exponentText signs ++ rest) :=
  readFraction_of_head h (exponentText_head s signs hrest)

theorem splitSign_exponent (signs : Bool) (e : Int) (rest : List Char) :
    Integer.splitSign (Spelling.exponentSign signs e ++ (Digits.write e.natAbs ++ rest))
      = (decide (e < 0), Digits.write e.natAbs ++ rest) := by
  unfold Spelling.exponentSign
  by_cases h : e < 0
  · simp [h, Integer.splitSign]
  · have hdigit : ∀ c ∈ (Digits.write e.natAbs ++ rest).head?, c.isDigit = true := by
      rw [head?_append_of_ne_nil (Digits.write_ne_nil _)]
      exact Integer.head?_write_isDigit _
    cases signs with
    | true => simp [h, Integer.splitSign]
    | false => simp [h, Integer.splitSign_of_isDigit hdigit]

theorem readExponent_append (s : Spelling) (signs : Bool) {rest : List Char} (hrest : Ends rest) :
    readExponent (s.exponentText signs ++ rest) = .ok (s.exponent, rest) := by
  cases he : s.exponent with
  | none =>
    simp only [Spelling.exponentText, he, List.nil_append]
    cases rest with
    | nil => rfl
    | cons c cs =>
      obtain ⟨-, -, hlower, hupper⟩ := hrest c rfl
      simp [readExponent, hlower, hupper]
  | some e =>
    have hspan : spanDigits (Digits.write e.natAbs ++ rest) = (Digits.write e.natAbs, rest) :=
      spanDigits_append (fun c hc => Digits.isDigit_of_mem_write hc) fun c hc => (hrest c hc).1
    have hempty : (Digits.write e.natAbs).isEmpty = false :=
      List.isEmpty_eq_false_iff.2 (Digits.write_ne_nil _)
    have hvalue : (if e < 0 then -(e.natAbs : Int) else e.natAbs) = e := by
      split <;> omega
    simp only [Spelling.exponentText, he, List.cons_append, List.append_assoc, readExponent,
      true_or, if_true, splitSign_exponent, hspan, hempty, Bool.false_eq_true, if_false,
      Digits.read_write, decide_eq_true_eq, hvalue]

def readUnsigned (negative : Bool) (cs : List Char) : Except Failure (Numeral × List Char) := do
  let (whole, afterWhole) ← readWhole cs
  let (fraction, afterFraction) ← readFraction afterWhole
  let (exponent, rest) ← readExponent afterFraction
  pure (⟨negative, whole, fraction, exponent⟩, rest)

theorem readNumeral_of_isDigit {cs : List Char} (h : ∀ c ∈ cs.head?, c.isDigit = true) :
    readNumeral cs = readUnsigned false cs := by
  cases cs with
  | nil => rfl
  | cons c cs =>
    have hc : c ≠ '-' := isDigit_ne (h c rfl) rfl
    simp [readNumeral, readUnsigned, hc]

def numeralOf (negative : Bool) (s : Spelling) : Numeral :=
  ⟨negative, s.whole, s.fraction, s.exponent⟩

theorem readUnsigned_text {s : Spelling} (h : s.WellFormed) (negative signs : Bool)
    {rest : List Char} (hrest : Ends rest) :
    readUnsigned negative (s.text signs ++ rest) = .ok (numeralOf negative s, rest) := by
  have hdigit : ∀ c ∈ (s.fractionText ++ (s.exponentText signs ++ rest)).head?,
      c.isDigit = false := by
    intro c hc
    cases hf : s.fraction with
    | none =>
      rw [Spelling.fractionText, hf] at hc
      exact (exponentText_head s signs hrest c hc).1
    | some digits =>
      rw [Spelling.fractionText, hf] at hc
      obtain rfl := Option.some.inj hc
      decide
  simp only [readUnsigned, Spelling.text, List.append_assoc, readWhole_append h hdigit,
    readFraction_append h signs hrest, readExponent_append s signs hrest, bind, Except.bind, pure,
    Except.pure, numeralOf]

theorem readNumeral_text {s : Spelling} (h : s.WellFormed) (negative signs : Bool)
    {rest : List Char} (hrest : Ends rest) :
    readNumeral (NumberLayout.signText negative ++ (s.text signs ++ rest))
      = .ok (numeralOf negative s, rest) := by
  cases negative with
  | true => exact readUnsigned_text h true signs hrest
  | false =>
    have hne : s.text signs ≠ [] := by
      simp [Spelling.text, h.whole_ne_nil]
    have hhead := Spelling.head?_text h signs
    rw [← head?_append_of_ne_nil hne rest] at hhead
    exact (readNumeral_of_isDigit hhead).trans (readUnsigned_text h false signs hrest)

theorem nearest_numeralOf {s : Spelling} {x : Magnitude} (hx : s.magnitude? = some x)
    (negative : Bool) : (numeralOf negative s).nearest = .finite negative x := by
  unfold Spelling.magnitude? at hx
  simp only [Numeral.nearest, Numeral.digits, Numeral.scale, numeralOf, Binary64.ofDecimal, hx,
    Binary64.signed]

def wholeSpelling (n : Nat) : Spelling := ⟨Digits.write n, none, none⟩

theorem wholeSpelling_wellFormed (n : Nat) : (wholeSpelling n).WellFormed := by
  refine ⟨fun c hc => Digits.isDigit_of_mem_write hc, Digits.write_ne_nil n, ?_, ?_⟩
  · by_cases h : n = 0
    · left
      rw [wholeSpelling, h, Digits.write, if_pos (by decide)]
      rfl
    · exact .inr (Digits.head?_write_ne_zero h)
  · intro f hf
    simp [wholeSpelling] at hf

def Whole64 (n : Int) : Prop := -(2 ^ 63 : Int) ≤ n ∧ n < 2 ^ 64

theorem scalar?_whole {n : Int} (h : Whole64 n) :
    (numeralOf (n < 0) (wholeSpelling n.natAbs)).scalar? = some (.integer n) := by
  obtain ⟨hlow, hhigh⟩ := h
  have hinteger : (numeralOf (n < 0) (wholeSpelling n.natAbs)).integer? = some n := by
    by_cases hn : n < 0
    · have hne : ¬ (n.natAbs = 0 ∨ Nat.pow 2 63 < n.natAbs) := by
        simp only [Nat.pow_eq]
        omega
      simp only [Numeral.integer?, numeralOf, wholeSpelling, Option.isSome_none,
        Bool.false_eq_true, or_self, if_false, Digits.read_write, hn, decide_true, if_true, hne]
      congr 1
      omega
    · have hlt : n.natAbs < Nat.pow 2 64 := by
        simp only [Nat.pow_eq]
        omega
      simp only [Numeral.integer?, numeralOf, wholeSpelling, Option.isSome_none,
        Bool.false_eq_true, or_self, if_false, Digits.read_write, hn, decide_false, hlt, if_true]
      congr 1
      omega
  rw [Numeral.scalar?, hinteger]

theorem integerText_eq (n : Int) :
    integerText n = NumberLayout.signText (n < 0) ++ (wholeSpelling n.natAbs).text false := by
  by_cases hn : n < 0 <;>
    simp [integerText, NumberLayout.signText, wholeSpelling, Spelling.text, Spelling.fractionText,
      Spelling.exponentText, hn]

theorem floatText_finite (negative : Bool) (x : Magnitude) :
    floatText (.finite negative x) = NumberLayout.signText negative
      ++ (NumberLayout.stored.spelling x).text NumberLayout.stored.signsExponent := by
  simp only [floatText, Binary64.isFinite, if_true, NumberLayout.text,
    NumberLayout.magnitudeText_eq]

theorem readNumber_integerText {n : Int} (h : Whole64 n) {rest : List Char} (hrest : Ends rest) :
    readNumber (integerText n ++ rest) = (.scalar (.integer n) none none, some rest) := by
  rw [readNumber, integerText_eq, List.append_assoc,
    readNumeral_text (wholeSpelling_wellFormed _) _ _ hrest]
  simp only [scalar?_whole h]

/-- Whether a number, if it is stored as one, is read from its text as itself. -/
def isReadBack (x : Binary64) : Bool :=
  match readNumeral (floatText x) with
  | .ok (n, _) => n.float = x
  | .error _ => !x.isFinite

theorem isReadBack_finite (negative : Bool) (x : Magnitude) :
    isReadBack (.finite negative x) = true ↔
      (numeralOf negative (NumberLayout.stored.spelling x)).float = .finite negative x := by
  have hread := readNumeral_text (NumberLayout.stored.spelling_wellFormed x) negative
    NumberLayout.stored.signsExponent ends_nil
  rw [List.append_nil, ← floatText_finite] at hread
  simp only [isReadBack, hread, decide_eq_true_eq]

/-- Numbers with few digits and a small exponent are read back. -/
theorem isReadBack_of_short {x : Magnitude} (negative : Bool)
    (hdigits : Digits.read (numeralOf negative (NumberLayout.stored.spelling x)).digits < 2 ^ 53)
    (hscale : (numeralOf negative (NumberLayout.stored.spelling x)).scale.natAbs ≤ 22) :
    isReadBack (.finite negative x) = true := by
  rw [isReadBack_finite, Numeral.float_of_short hdigits hscale]
  exact nearest_numeralOf (NumberLayout.stored.spelling_magnitude? x) negative

theorem scalar?_marked {s : Spelling} {x : Binary64} {negative : Bool}
    (hread : (numeralOf negative s).float = x) (hfinite : x.isFinite = true)
    (hmark : s.fraction.isSome ∨ s.exponent.isSome) :
    (numeralOf negative s).scalar? = some (.float x) := by
  have hinteger : (numeralOf negative s).integer? = none := if_pos hmark
  simp only [Numeral.scalar?, hinteger, hread, hfinite, if_true]

theorem readNumber_floatText {negative : Bool} {x : Magnitude}
    (h : isReadBack (.finite negative x) = true) {rest : List Char}
    (hrest : Ends rest) : readNumber (floatText (.finite negative x) ++ rest)
      = (.scalar (.float (.finite negative x)) none none, some rest) := by
  rw [isReadBack_finite] at h
  rw [readNumber, floatText_finite, List.append_assoc,
    readNumeral_text (NumberLayout.stored.spelling_wellFormed x) _ _ hrest]
  simp only [scalar?_marked h rfl (NumberLayout.spelling_marked rfl x)]

end CoverageQuery.Json
