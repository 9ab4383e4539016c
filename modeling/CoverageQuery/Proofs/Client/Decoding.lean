import CoverageQuery.Client.Payload
import CoverageQuery.Proofs.Number.DecimalText
import CoverageQuery.Proofs.Text.Pieces
import Mathlib.Data.List.Chain

/-!
# Texts of numbers

A text of numbers is a sequence of separators and decimal texts, in any arrangement in which no two
decimal texts stand side by side and in which there is one at least. A payload that is text and is not
announced as an image is decoded as the values of its decimal texts, in order, if it is a text of
numbers, and as itself otherwise. An array of arrays of numbers is a text of numbers, and its values are
those of its members one after another.
-/
namespace CoverageQuery.Decoded

inductive Part where
  | separator (c : Char) (isSeparator : isSeparator c = true)
  | number (n : DecimalText)

namespace Part

def text : Part → List Char
  | separator c _ => [c]
  | number n => n.text

def number? : Part → Option DecimalText
  | separator _ _ => none
  | number n => some n

def textOf (parts : List Part) : List Char := parts.flatMap text

def numbersOf (parts : List Part) : List DecimalText := parts.filterMap number?

def Apart (parts : List Part) : Prop :=
  parts.IsChain fun a b => a.number? = none ∨ b.number? = none

end Part

/-- The text is one of these numbers and of separators. -/
def Lists (cs : List Char) (numbers : List DecimalText) : Prop :=
  ∃ parts : List Part, Part.Apart parts ∧ Part.textOf parts = cs ∧ Part.numbersOf parts = numbers

theorem isNumeral_of_mem_text {n : DecimalText} {c : Char} (h : c ∈ n.text) : isNumeral c = true := by
  refine decide_eq_true ?_
  rcases DecimalText.mem_text h with h | h
  · exact .inl h
  · simp only [List.mem_cons, List.not_mem_nil, or_false] at h
    tauto

theorem isSeparator_of_isNumeral {c : Char} (h : isNumeral c = true) : isSeparator c = false := by
  rcases of_decide_eq_true h with h | rfl | rfl | rfl | rfl | rfl
  · refine decide_eq_false ?_
    have hblank := Text.isBlank_of_isDigit h
    rintro (rfl | rfl | rfl | rfl | hc)
    iterate 4 exact absurd h (by decide)
    exact Bool.noConfusion (hblank.symm.trans hc)
  all_goals decide

theorem toLower_of_isDigit {c : Char} (h : c.isDigit = true) : c.toLower = c := by
  simp only [Char.isDigit, Bool.and_eq_true, decide_eq_true_eq] at h
  refine dif_neg fun hupper => ?_
  have hlow : 65 ≤ c.val.toNat := hupper.1
  have hhigh : c.val.toNat ≤ 57 := h.2
  omega

theorem toLower_ne_of_isNumeral {c : Char} (h : isNumeral c = true) : c.toLower ≠ 'n' := by
  rcases of_decide_eq_true h with h | rfl | rfl | rfl | rfl | rfl
  · rw [toLower_of_isDigit h]
    exact isDigit_ne h (by decide)
  all_goals decide

theorem exists_of_read? {cs : List Char} {x : Binary64} (hcs : ∀ c ∈ cs, isNumeral c = true)
    (h : Binary64.read? cs = some x) : ∃ n : DecimalText, n.text = cs ∧ n.value = x := by
  rcases DecimalText.exists_of_read? h with hn | hword
  · exact hn
  · obtain ⟨_, c, hc, hlower⟩ := Binary64.mem_of_readWord? hword
    obtain ⟨s, _, htext⟩ := DecimalText.Sign.exists_of_splitSign cs
    have hmem : c ∈ cs := by
      rw [← htext]
      exact List.mem_append_right _ hc
    exact absurd hlower (toLower_ne_of_isNumeral (hcs c hmem))

theorem tokens_nil : tokens [] = [] := by
  simp [tokens, List.splitOnP_nil]

theorem tokens_separator {c : Char} (h : isSeparator c = true) (cs : List Char) :
    tokens (c :: cs) = tokens cs := by
  have hnone : ∀ d ∈ ([] : List Char), isSeparator d = false := fun d hd => absurd hd (by simp)
  have hsplit := List.splitOnP_append_cons_of_forall_mem hnone c h cs
  rw [List.nil_append] at hsplit
  simp [tokens, hsplit]

theorem tokens_word {word rest : List Char} (hne : word ≠ [])
    (hword : ∀ c ∈ word, isSeparator c = false) (hrest : ∀ c ∈ rest.head?, isSeparator c = true) :
    tokens (word ++ rest) = word :: tokens rest := by
  cases rest with
  | nil =>
    rw [List.append_nil, tokens_nil, tokens, List.splitOnP_eq_singleton hword]
    simp [hne]
  | cons c rest =>
    have hc := hrest c rfl
    have hsplit := List.splitOnP_append_cons_of_forall_mem hword c hc rest
    rw [tokens_separator hc]
    simp [tokens, hsplit, hne]

theorem head?_textOf (parts : List Part) (h : ∀ a ∈ parts.head?, a.number? = none) :
    ∀ c ∈ (Part.textOf parts).head?, isSeparator c = true := by
  intro c hc
  cases parts with
  | nil => exact absurd hc (by simp [Part.textOf])
  | cons a parts =>
    cases a with
    | number n => exact absurd (h _ rfl) (by simp [Part.number?])
    | separator d hd =>
      obtain rfl := Option.some.inj hc
      exact hd

theorem tokens_textOf {parts : List Part} (h : Part.Apart parts) :
    tokens (Part.textOf parts) = (Part.numbersOf parts).map DecimalText.text := by
  induction parts with
  | nil => exact tokens_nil
  | cons a parts ih =>
    obtain ⟨hnext, hparts⟩ := List.isChain_cons.1 h
    cases a with
    | separator c hc => exact (tokens_separator hc _).trans (ih hparts)
    | number n =>
      have hword : ∀ c ∈ n.text, isSeparator c = false := fun c hc =>
        isSeparator_of_isNumeral (isNumeral_of_mem_text hc)
      have hrest := head?_textOf parts fun b hb =>
        (hnext b hb).resolve_left (by simp [Part.number?])
      exact (tokens_word n.text_ne_nil hword hrest).trans (congrArg _ (ih hparts))

theorem mapM_read?_text (numbers : List DecimalText) :
    (numbers.map DecimalText.text).mapM Binary64.read? = some (numbers.map DecimalText.value) := by
  induction numbers with
  | nil => rfl
  | cons n numbers ih => simp [DecimalText.read?_text, ih]

theorem mem_textOf {parts : List Part} {c : Char} (h : c ∈ Part.textOf parts) :
    isNumeral c = true ∨ isSeparator c = true := by
  obtain ⟨a, _, hc⟩ := List.mem_flatMap.1 h
  cases a with
  | number n => exact .inl (isNumeral_of_mem_text hc)
  | separator d hd =>
    obtain rfl := List.mem_singleton.1 hc
    exact .inr hd

theorem numbers?_of_lists {cs : List Char} {numbers : List DecimalText} (h : Lists cs numbers)
    (hne : numbers ≠ []) : numbers? cs = some (numbers.map DecimalText.value) := by
  obtain ⟨parts, hapart, rfl, rfl⟩ := h
  have hall : ((Part.textOf parts).all fun c => isNumeral c ∨ isSeparator c) = true :=
    List.all_eq_true.2 fun c hc => decide_eq_true (mem_textOf hc)
  rw [numbers?, if_pos hall, tokens_textOf hapart, mapM_read?_text]
  simp [Option.filter, hne]

theorem lists_nil : Lists [] [] := ⟨[], List.isChain_nil, rfl, rfl⟩

theorem lists_separator {c : Char} (hc : isSeparator c = true) {cs : List Char}
    {numbers : List DecimalText} (h : Lists cs numbers) : Lists (c :: cs) numbers := by
  obtain ⟨parts, hapart, rfl, rfl⟩ := h
  exact ⟨.separator c hc :: parts, List.isChain_cons.2 ⟨fun _ _ => .inl rfl, hapart⟩, rfl, rfl⟩

theorem lists_number (n : DecimalText) {cs : List Char} {numbers : List DecimalText}
    (hcs : ∀ c ∈ cs.head?, isSeparator c = true) (h : Lists cs numbers) :
    Lists (n.text ++ cs) (n :: numbers) := by
  obtain ⟨parts, hapart, rfl, rfl⟩ := h
  refine ⟨.number n :: parts, List.isChain_cons.2 ⟨fun b hb => .inr ?_, hapart⟩, rfl, rfl⟩
  cases b with
  | separator d hd => rfl
  | number m =>
    -- The text of a number begins with no separator.
    obtain ⟨rest, rfl⟩ := List.head?_eq_some_iff.1 hb
    obtain ⟨c, tail, htext⟩ := List.exists_cons_of_ne_nil m.text_ne_nil
    have hfirst : c ∈ (Part.textOf (.number m :: rest)).head? := by
      simp [Part.textOf, Part.text, htext]
    have hnumeral : isNumeral c = true := isNumeral_of_mem_text (n := m) (by simp [htext])
    exact Bool.noConfusion ((isSeparator_of_isNumeral hnumeral).symm.trans (hcs c hfirst))

theorem word_cases (cs : List Char) : cs = [] ∨
    (∃ c rest, isSeparator c = true ∧ cs = c :: rest) ∨
    ∃ word rest, word ≠ [] ∧ (∀ c ∈ word, isSeparator c = false) ∧
      (∀ c ∈ rest.head?, isSeparator c = true) ∧ cs = word ++ rest := by
  cases cs with
  | nil => exact .inl rfl
  | cons c cs =>
    right
    cases hc : isSeparator c with
    | true => exact .inl ⟨c, cs, hc, rfl⟩
    | false =>
      right
      refine ⟨(c :: cs).takeWhile (!isSeparator ·), (c :: cs).dropWhile (!isSeparator ·), ?_,
        fun d hd => ?_, fun d hd => ?_, List.takeWhile_append_dropWhile.symm⟩
      · simp [hc]
      · simpa using List.all_eq_true.1 List.all_takeWhile d hd
      · have hhead := List.head?_dropWhile_not (!isSeparator ·) (c :: cs)
        rw [hd] at hhead
        simpa using hhead

/-- The parts of a text are found word by word. -/
theorem lists_of_tokens {cs : List Char} (hcs : ∀ c ∈ cs, isNumeral c = true ∨ isSeparator c = true)
    {values : List Binary64} (h : (tokens cs).mapM Binary64.read? = some values) :
    ∃ numbers, Lists cs numbers ∧ numbers.map DecimalText.value = values := by
  induction hlength : cs.length using Nat.strong_induction_on generalizing cs values with
  | _ length ih =>
    subst hlength
    rcases word_cases cs with rfl | ⟨c, rest, hc, rfl⟩ | ⟨word, rest, hne, hword, hrest, rfl⟩
    · rw [tokens_nil] at h
      exact ⟨[], lists_nil, Option.some.inj h⟩
    · rw [tokens_separator hc] at h
      obtain ⟨numbers, hlists, hvalues⟩ := ih rest.length (by simp)
        (fun d hd => hcs d (List.mem_cons_of_mem c hd)) h rfl
      exact ⟨numbers, lists_separator hc hlists, hvalues⟩
    · rw [tokens_word hne hword hrest, List.mapM_cons] at h
      obtain ⟨x, hx, h⟩ := Option.bind_eq_some_iff.1 h
      obtain ⟨others, hothers, h⟩ := Option.bind_eq_some_iff.1 h
      obtain rfl := Option.some.inj h
      have hnumeral : ∀ c ∈ word, isNumeral c = true := fun c hc =>
        (hcs c (List.mem_append_left rest hc)).resolve_right (by simp [hword c hc])
      obtain ⟨n, rfl, rfl⟩ := exists_of_read? hnumeral hx
      have hshorter : rest.length < (n.text ++ rest).length := by
        have hpos := List.length_pos_iff.2 n.text_ne_nil
        rw [List.length_append]
        omega
      obtain ⟨numbers, hlists, rfl⟩ := ih rest.length hshorter
        (fun d hd => hcs d (List.mem_append_right _ hd)) hothers rfl
      exact ⟨n :: numbers, lists_number n hrest hlists, rfl⟩

theorem numbers?_eq_some_iff {cs : List Char} {values : List Binary64} :
    numbers? cs = some values ↔
      ∃ numbers, Lists cs numbers ∧ numbers ≠ [] ∧ numbers.map DecimalText.value = values := by
  constructor
  · intro h
    unfold numbers? at h
    split at h
    · rename_i hall
      obtain ⟨hread, hne⟩ := Option.filter_eq_some_iff.1 h
      have hcs : ∀ c ∈ cs, isNumeral c = true ∨ isSeparator c = true := fun c hc =>
        of_decide_eq_true (List.all_eq_true.1 hall c hc)
      obtain ⟨numbers, hlists, rfl⟩ := lists_of_tokens hcs hread
      exact ⟨numbers, hlists, by simpa using hne, rfl⟩
    · exact absurd h (by simp)
  · rintro ⟨numbers, hlists, hne, rfl⟩
    exact numbers?_of_lists hlists hne

theorem toNat_of_isAlpha {c : Char} (h : c.isAlpha = true) :
    65 ≤ c.toNat ∧ c.toNat ≤ 90 ∨ 97 ≤ c.toNat ∧ c.toNat ≤ 122 := by
  rcases Bool.or_eq_true_iff.1 h with h | h
  · exact .inl (of_decide_eq_true h)
  · exact .inr ((Bool.and_eq_true_iff.1 h).imp of_decide_eq_true of_decide_eq_true)

theorem not_listed_of_isAlpha {c : Char} (h : c.isAlpha = true) (hlower : c ≠ 'e') (hupper : c ≠ 'E') :
    ¬(isNumeral c = true ∨ isSeparator c = true) := by
  have hrange := toNat_of_isAlpha h
  rintro (hc | hc)
  · rcases of_decide_eq_true hc with hc | rfl | rfl | rfl | rfl | rfl
    · simp only [Char.isDigit, Bool.and_eq_true, decide_eq_true_eq] at hc
      have hhigh : c.toNat ≤ 57 := hc.2
      omega
    iterate 3 exact absurd h (by decide)
    · exact hlower rfl
    · exact hupper rfl
  · rcases of_decide_eq_true hc with rfl | rfl | rfl | rfl | hc
    iterate 4 exact absurd h (by decide)
    simp only [Text.isBlank, decide_eq_true_eq] at hc
    omega

theorem not_lists_of_isAlpha {cs : List Char} {c : Char} (hc : c ∈ cs) (h : c.isAlpha = true)
    (hlower : c ≠ 'e') (hupper : c ≠ 'E') (numbers : List DecimalText) : ¬Lists cs numbers := by
  rintro ⟨parts, _, rfl, _⟩
  exact not_listed_of_isAlpha h hlower hupper (mem_textOf hc)

end CoverageQuery.Decoded

namespace CoverageQuery

inductive NumberArray where
  | number (n : DecimalText)
  | array (members : List NumberArray)

namespace NumberArray

mutual

def text : NumberArray → List Char
  | number n => n.text
  | array members => '{' :: (textAll members ++ ['}'])

def textAll : List NumberArray → List Char
  | [] => []
  | [a] => a.text
  | a :: b :: members => a.text ++ ',' :: textAll (b :: members)

end

mutual

def numbers : NumberArray → List DecimalText
  | number n => [n]
  | array members => numbersAll members

def numbersAll : List NumberArray → List DecimalText
  | [] => []
  | a :: members => a.numbers ++ numbersAll members

end

open Decoded

mutual

theorem lists_text (a : NumberArray) {cs : List Char} {rest : List DecimalText}
    (hcs : ∀ c ∈ cs.head?, isSeparator c = true) (h : Lists cs rest) :
    Lists (a.text ++ cs) (a.numbers ++ rest) := by
  cases a with
  | number n =>
    rw [text, numbers]
    exact lists_number n hcs h
  | array members =>
    rw [text, numbers, List.cons_append, List.append_assoc]
    refine lists_separator (by decide) (lists_textAll members (fun c hc => ?_) ?_)
    · obtain rfl := Option.some.inj hc
      decide
    · exact lists_separator (by decide) h

theorem lists_textAll (members : List NumberArray) {cs : List Char} {rest : List DecimalText}
    (hcs : ∀ c ∈ cs.head?, isSeparator c = true) (h : Lists cs rest) :
    Lists (textAll members ++ cs) (numbersAll members ++ rest) := by
  match members with
  | [] => exact h
  | [a] =>
    rw [textAll, numbersAll, numbersAll, List.append_nil]
    exact lists_text a hcs h
  | a :: b :: members =>
    rw [textAll, numbersAll, List.append_assoc, List.append_assoc, List.cons_append]
    refine lists_text a (fun c hc => ?_)
      (lists_separator (by decide) (lists_textAll (b :: members) hcs h))
    obtain rfl := Option.some.inj hc
    decide

end

end NumberArray

namespace Payload

open Decoded

theorem decode_eq_ofText {p : Payload} {cs : List Char} (hbody : Utf8.decode p.body = .ok cs)
    (hne : p.body ≠ []) (htype : announcesImage p.contentType = false) :
    p.decode = .ok (.ofText cs) := by
  have hempty : p.isEmpty = false := List.isEmpty_eq_false_iff.2 hne
  have hdecode : Utf8.decode? p.body = some cs := by
    rw [Utf8.decode?, hbody]
    rfl
  simp only [decode, hempty, htype, hdecode, Bool.false_eq_true, if_false]

/-- A payload that is text and announced as nothing else is decoded as the values of the numbers that
it lists, in order, if it lists any, and otherwise as it is. So the numbers of an array of arrays come
one member after another, and a word among numbers makes the payload a text. -/
theorem decode_eq_values_iff_lists {p : Payload} {cs : List Char} (hbody : Utf8.decode p.body = .ok cs)
    (hne : p.body ≠ []) (htype : announcesImage p.contentType = false) :
    (∀ values, p.decode = .ok (.values values) ↔
      ∃ numbers, Lists cs numbers ∧ numbers ≠ [] ∧ numbers.map DecimalText.value = values) ∧
    ((¬∃ numbers, Lists cs numbers ∧ numbers ≠ []) → p.decode = .ok (.text cs)) ∧
    (∀ a : NumberArray, a.text = cs → a.numbers ≠ [] →
      p.decode = .ok (.values (a.numbers.map DecimalText.value))) ∧
    ∀ c ∈ cs, c.isAlpha = true → c ≠ 'e' → c ≠ 'E' → p.decode = .ok (.text cs) := by
  have hdecode := decode_eq_ofText hbody hne htype
  have hvalues (values : List Binary64) : p.decode = .ok (.values values) ↔
      ∃ numbers, Lists cs numbers ∧ numbers ≠ [] ∧ numbers.map DecimalText.value = values := by
    rw [← numbers?_eq_some_iff, hdecode, Decoded.ofText]
    cases numbers? cs <;> simp
  have htext (h : ¬∃ numbers, Lists cs numbers ∧ numbers ≠ []) : p.decode = .ok (.text cs) := by
    have hnone : numbers? cs = none := by
      rw [Option.eq_none_iff_forall_ne_some]
      intro values hsome
      obtain ⟨numbers, hlists, hnumbers, _⟩ := numbers?_eq_some_iff.1 hsome
      exact h ⟨numbers, hlists, hnumbers⟩
    rw [hdecode, Decoded.ofText, hnone]
  refine ⟨hvalues, htext, fun a ha hnumbers => ?_, fun c hc halpha hlower hupper => ?_⟩
  · have hlists : Lists (a.text ++ []) (a.numbers ++ []) := a.lists_text (by simp) lists_nil
    rw [List.append_nil, List.append_nil, ha] at hlists
    exact (hvalues _).2 ⟨a.numbers, hlists, hnumbers, rfl⟩
  · exact htext fun ⟨numbers, hlists, _⟩ => not_lists_of_isAlpha hc halpha hlower hupper numbers hlists

def nestedExample : NumberArray :=
  .array [.array [.number ⟨.absent, ['1'], none, none, by simp, by simp⟩,
    .number ⟨.absent, ['2'], some ['5'], none, by simp, by simp⟩],
    .array [.number ⟨.minus, ['3'], none, some ⟨'e', .plus, ['2'], .inl rfl, by simp, by simp⟩,
      by simp, by simp⟩]]

theorem decode_eq_values_iff_lists_example :
    (ofText (String.ofList nestedExample.text)).decode =
      .ok (.values [.ofInt 1, .ofDecimal false 25 (-1), .ofInt (-300)]) ∧
    (ofText "1, NaN").decode = .ok (.text "1, NaN".toList) := by
  have htype (text : String) : announcesImage (ofText text).contentType = false := by
    show announcesImage (some "text/plain") = false
    decide +kernel
  have harray : Utf8.decode (ofText (String.ofList nestedExample.text)).body =
      .ok nestedExample.text := by
    decide +kernel
  have hword : Utf8.decode (ofText "1, NaN").body = .ok "1, NaN".toList := by decide +kernel
  obtain ⟨_, _, hflat, _⟩ := decode_eq_values_iff_lists harray (by decide +kernel) (htype _)
  obtain ⟨_, _, _, htext⟩ := decode_eq_values_iff_lists hword (by decide +kernel) (htype _)
  refine ⟨?_, htext 'N' (by decide) (by decide) (by decide) (by decide)⟩
  rw [hflat nestedExample rfl (by decide +kernel)]
  decide +kernel

end Payload
end CoverageQuery
