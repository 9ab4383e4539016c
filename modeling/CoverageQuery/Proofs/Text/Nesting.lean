import CoverageQuery.Proofs.Text.Delimiters
import CoverageQuery.Query.Value

/-!
# Well nested texts

A grammar says which texts are well nested: nothing, or a text that begins with a character that is no
delimiter, with a literal, or with a pair of brackets around a well nested text, and goes on well
nested. The scan accepts exactly these. What is left of a text while brackets are open closes them one
after another, innermost first, with a well nested text before each closing bracket and after the last;
this holds of every text that a scan ends well on, whatever brackets it started with.
-/
namespace CoverageQuery

namespace Text

open DelimiterScan

def brackets : List (Char × Char) := [('(', ')'), ('[', ']'), ('\x7b', '\x7d')]

inductive WellNested : List Char → Prop
  | empty : WellNested []
  | plain {c : Char} {b : List Char} (hc : c ∉ delimiters) (hb : WellNested b) : WellNested (c :: b)
  | literal {u b : List Char} (hu : '"' ∉ u) (hb : WellNested b) :
      WellNested ('"' :: (u ++ '"' :: b))
  | enclosed {o c : Char} {a b : List Char} (h : (o, c) ∈ brackets) (ha : WellNested a)
      (hb : WellNested b) : WellNested (o :: (a ++ c :: b))

theorem opener?_eq_some_iff {o c : Char} : opener? c = some o ↔ (o, c) ∈ brackets := by
  constructor
  · intro h
    unfold opener? at h
    split at h
    · obtain rfl := Option.some.inj h
      decide
    · obtain rfl := Option.some.inj h
      decide
    · obtain rfl := Option.some.inj h
      decide
    · exact absurd h (by simp)
  · intro h
    simp only [brackets, List.mem_cons, List.not_mem_nil, or_false, Prod.mk.injEq] at h
    rcases h with ⟨rfl, rfl⟩ | ⟨rfl, rfl⟩ | ⟨rfl, rfl⟩ <;> rfl

theorem isOpener_of_mem {o c : Char} (h : (o, c) ∈ brackets) : isOpener o = true := by
  simp only [brackets, List.mem_cons, List.not_mem_nil, or_false, Prod.mk.injEq] at h
  rcases h with ⟨rfl, rfl⟩ | ⟨rfl, rfl⟩ | ⟨rfl, rfl⟩ <;> rfl

theorem WellNested.balanced {cs : List Char} (h : WellNested cs) : balanced cs = true := by
  induction h with
  | empty => rfl
  | plain hc _ ih => exact balanced_cons hc ih
  | literal hu _ ih => simpa using balanced_append (balanced_literal hu) ih
  | enclosed h _ _ iha ihb =>
    have hpair := balanced_enclose (isOpener_of_mem h) (opener?_eq_some_iff.2 h) iha
    simpa using balanced_append hpair ihb

/-- What a text is made of that closes open brackets, innermost first. -/
def Closes : List Char → List Char → Prop
  | [], cs => WellNested cs
  | o :: pending, cs => ∃ a c b, cs = a ++ c :: b ∧ WellNested a ∧ (o, c) ∈ brackets ∧ Closes pending b

theorem Closes.prepend {front : List Char} (hfront : ∀ b, WellNested b → WellNested (front ++ b))
    {pending cs : List Char} (h : Closes pending cs) : Closes pending (front ++ cs) := by
  cases pending with
  | nil => exact hfront cs h
  | cons o pending =>
    obtain ⟨a, c, b, rfl, ha, hc, hb⟩ := h
    exact ⟨front ++ a, c, b, by simp, hfront a ha, hc, hb⟩

def Resumes (pending cs : List Char) : Prop :=
  ∃ u rest, cs = u ++ '"' :: rest ∧ '"' ∉ u ∧ Closes pending rest

theorem Resumes.cons {c : Char} {pending cs : List Char} (hc : c ≠ '"') (h : Resumes pending cs) :
    Resumes pending (c :: cs) := by
  obtain ⟨u, rest, rfl, hu, hrest⟩ := h
  exact ⟨c :: u, rest, rfl, by simp [hu, Ne.symm hc], hrest⟩

theorem Resumes.closes {pending cs : List Char} (h : Resumes pending cs) :
    Closes pending ('"' :: cs) := by
  obtain ⟨u, rest, rfl, hu, hrest⟩ := h
  have hfront (b : List Char) (hb : WellNested b) : WellNested ('"' :: (u ++ ['"']) ++ b) := by
    simpa using hb.literal hu
  simpa using hrest.prepend hfront

theorem Closes.enclose {o : Char} {pending cs : List Char} (h : Closes (o :: pending) cs) :
    Closes pending (o :: cs) := by
  obtain ⟨a, c, b, rfl, ha, hc, hb⟩ := h
  have hfront (d : List Char) (hd : WellNested d) : WellNested (o :: (a ++ [c]) ++ d) := by
    simpa using WellNested.enclosed hc ha hd
  simpa using hb.prepend hfront

theorem not_mem_delimiters {c : Char} (hquote : c ≠ '"') (hopen : isOpener c = false)
    (hclose : opener? c = none) : c ∉ delimiters := by
  intro hc
  simp only [delimiters, List.mem_cons, List.not_mem_nil, or_false] at hc
  rcases hc with rfl | rfl | rfl | rfl | rfl | rfl | rfl
  · exact hquote rfl
  iterate 3 exact absurd hopen (by decide)
  all_goals exact absurd hclose (by decide)

/-- What is left of a text, from any state of a scan that ends well on it. -/
theorem closes_of_run {s : DelimiterScan} {cs : List Char} (h : s.run cs = some start) :
    if s.quoted then Resumes s.pending cs else Closes s.pending cs := by
  induction cs generalizing s with
  | nil =>
    obtain rfl := Option.some.inj h
    exact WellNested.empty
  | cons c cs ih =>
    obtain ⟨t, hstep, hrun⟩ := Option.bind_eq_some_iff.1 h
    have hrest := ih hrun
    obtain ⟨pending, quoted⟩ := s
    obtain ⟨rfl, rfl⟩ | ⟨hc, hq, rfl⟩ | ⟨hc, hq, ho, rfl⟩ | ⟨hc, hq, ho, hn, rfl⟩ |
      ⟨o, rest, hc, hq, ho, hs, hp, rfl⟩ := step_cases hstep
    · -- A quote ends a literal or begins one.
      cases quoted with
      | true => exact ⟨[], cs, rfl, by simp, hrest⟩
      | false => exact Resumes.closes hrest
    · obtain rfl : quoted = true := hq
      exact Resumes.cons hc hrest
    · obtain rfl : quoted = false := hq
      exact Closes.enclose hrest
    · obtain rfl : quoted = false := hq
      have hfront (b : List Char) (hb : WellNested b) : WellNested ([c] ++ b) :=
        hb.plain (not_mem_delimiters hc ho hn)
      exact Closes.prepend hfront hrest
    · obtain rfl : quoted = false := hq
      obtain rfl : pending = o :: rest := hp
      exact ⟨[], c, cs, rfl, .empty, opener?_eq_some_iff.1 hs, hrest⟩

theorem balanced_iff_wellNested {cs : List Char} : balanced cs = true ↔ WellNested cs :=
  ⟨fun h => closes_of_run (of_decide_eq_true h), WellNested.balanced⟩

instance : DecidablePred WellNested := fun _ => decidable_of_iff _ balanced_iff_wellNested

example : WellNested "f[(\")\"), 1]".toList ∧ ¬ WellNested "f(\")\"]".toList := by decide

end Text

/-- A checked expression is exactly a well nested text, taken as it is; any other text is refused with
itself as the reason. -/
theorem Expression.checked_eq_iff_wellNested (text : String) :
    (∀ e, checked text = .ok e ↔ Text.WellNested text.toList ∧ e = .raw text) ∧
    ∀ cause, checked text = .error cause ↔
      ¬ Text.WellNested text.toList ∧ cause = .unbalancedExpression text := by
  by_cases h : Text.WellNested text.toList
  · have hchecked : checked text = .ok (.raw text) := if_pos (Text.balanced_iff_wellNested.2 h)
    exact ⟨fun e => by simp [hchecked, h, eq_comm], fun cause => by simp [hchecked, h]⟩
  · have hchecked : checked text = .error (.unbalancedExpression text) :=
      if_neg fun hb => h (Text.balanced_iff_wellNested.1 hb)
    exact ⟨fun e => by simp [hchecked, h], fun cause => by simp [hchecked, h, eq_comm]⟩

end CoverageQuery
