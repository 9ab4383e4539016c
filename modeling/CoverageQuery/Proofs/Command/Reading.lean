import CoverageQuery.Command.Flags
import CoverageQuery.Proofs.Outcome
import CoverageQuery.Proofs.Query.Legible
import CoverageQuery.Proofs.Text.Pieces

/-!
# What flags are read as

A bound in a flag is read as the open bound, as a number, which is then finite, or as a text without
quotes; a value as a number or as a checked expression. A subset is plain when its axis is trimmed,
not empty and without an equals sign and its bounds are of these kinds. The subsets that flags can
give are exactly the plain ones, and each is read from the flag that is written for it.
-/
namespace CoverageQuery

open Text

theorem Quantity.read?_cases {cs : List Char} {n : Quantity} (h : read? cs = some n) :
    (∃ i, n = integer i) ∨ ∃ x, n = float x ∧ x.isFinite = true := by
  rcases Option.or_eq_some_iff.1 h with h | ⟨_, h⟩
  · obtain ⟨i, _, rfl⟩ := Option.map_eq_some_iff.1 h
    exact .inl ⟨i, rfl⟩
  · obtain ⟨x, hx, rfl⟩ := Option.map_eq_some_iff.1 h
    exact .inr ⟨x, rfl, (Option.filter_eq_some_iff.1 hx).2⟩

theorem Quantity.read?_write (n : Int64) : read? (Integer.write n.toInt) = some (integer n) := by
  simp [read?, Integer.readInt64?_write]

theorem Quantity.read?_text {x : Binary64} (h : x.isFinite = true) :
    read? (NumberLayout.query.text x) = some (float x) := by
  have hinteger : Integer.readInt64? (NumberLayout.query.text x) = none := by
    rw [Integer.readInt64?, NumberLayout.readInt?_text rfl, Option.bind_none]
  simp [read?, hinteger, Binary64.readFinite?, NumberLayout.read?_text, h]

namespace Coordinate

def Plain : Coordinate → Prop
  | integer _ => True
  | float x => x.isFinite = true
  | raw t => t = "*"
  | text t => '"' ∉ t.toList

instance : DecidablePred Plain
  | integer _ => .isTrue trivial
  | float x => inferInstanceAs (Decidable (x.isFinite = true))
  | raw t => inferInstanceAs (Decidable (t = "*"))
  | text t => inferInstanceAs (Decidable ('"' ∉ t.toList))

theorem Plain.legible {c : Coordinate} (h : c.Plain) : c.Legible := by
  cases c with
  | integer n => trivial
  | float x => trivial
  | raw t => exact h
  | text t => exact h

theorem literal_eq_ok {text : String} {c : Coordinate} (h : literal text = .ok c) :
    '"' ∉ text.toList ∧ c = .text text := by
  unfold literal at h
  split at h
  · exact absurd h (by simp)
  · rename_i hquote
    exact ⟨hquote, (Except.ok.inj h).symm⟩

theorem literal_of_notMem {cs : List Char} (h : '"' ∉ cs) :
    literal (String.ofList cs) = .ok (text (String.ofList cs)) := by
  rw [literal, String.toList_ofList, if_neg h]

theorem unquoted?_quoted (inner : List Char) : unquoted? ('"' :: (inner ++ ['"'])) = some inner := by
  simp [unquoted?]

theorem unquoted?_of_notMem {cs : List Char} (h : '"' ∉ cs) : unquoted? cs = none := by
  unfold unquoted?
  split
  · exact absurd List.mem_cons_self h
  · rfl

theorem ofFlag_cases {cs : List Char} {c : Coordinate} (h : ofFlag cs = .ok c) :
    c = unbounded ∨ (∃ n, Quantity.read? (trim cs) = some n ∧ c = ofQuantity n) ∨
      ∃ t, '"' ∉ t.toList ∧ c = text t := by
  simp only [ofFlag] at h
  split at h
  · exact absurd h (by simp)
  · split at h
    · exact .inl (Except.ok.inj h).symm
    · split at h
      · exact .inr (.inr ⟨_, literal_eq_ok (Outcome.mapError_eq_ok.1 h)⟩)
      · split at h
        · rename_i n hn
          exact .inr (.inl ⟨n, hn, (Except.ok.inj h).symm⟩)
        · exact .inr (.inr ⟨_, literal_eq_ok (Outcome.mapError_eq_ok.1 h)⟩)

theorem plain_of_ofFlag {cs : List Char} {c : Coordinate} (h : ofFlag cs = .ok c) : c.Plain := by
  rcases ofFlag_cases h with rfl | ⟨n, hn, rfl⟩ | ⟨t, ht, rfl⟩
  · rfl
  · rcases Quantity.read?_cases hn with ⟨i, rfl⟩ | ⟨x, rfl, hx⟩
    · trivial
    · exact hx
  · exact ht

theorem ofFlag_of_quantity {cs : List Char} {n : Quantity} (htrim : trim cs = cs)
    (hquote : '"' ∉ cs) (h : Quantity.read? cs = some n) : ofFlag cs = .ok (ofQuantity n) := by
  -- A text that reads as a number is neither empty nor a star, which come before it.
  have hempty : Quantity.read? [] = none := by decide
  have hopen : Quantity.read? ['*'] = none := by decide
  have hne : cs.isEmpty = false := by
    cases cs with
    | nil => exact absurd (hempty.symm.trans h) (by simp)
    | cons c cs => rfl
  have hstar : cs ≠ ['*'] := by
    rintro rfl
    exact absurd (hopen.symm.trans h) (by simp)
  simp only [ofFlag, htrim, hne, hstar, unquoted?_of_notMem hquote, h, Bool.false_eq_true, if_false]

theorem isBlank_of_mem_bare {a : Coordinate} (h : a.Legible) (hb : a.isBare = true) {c : Char}
    (hc : c ∈ a.render.toList) : isBlank c = false := by
  have hmarks : ('*' :: NumberLayout.marks).all (fun d => !isBlank d) = true := by decide
  have hmark : ∀ d ∈ '*' :: NumberLayout.marks, isBlank d = false := fun d hd => by
    simpa using List.all_eq_true.1 hmarks d hd
  rcases mem_render_of_bare h hb hc with hc | hc | rfl
  · exact isBlank_of_isDigit hc
  · exact hmark c (List.mem_cons_of_mem _ hc)
  · exact hmark '*' List.mem_cons_self

theorem trim_bare {a : Coordinate} (h : a.Legible) (hb : a.isBare = true) :
    trim a.render.toList = a.render.toList :=
  trim_eq_self_of_forall fun _ hc => isBlank_of_mem_bare h hb hc

theorem closed_render {a : Coordinate} (h : a.Legible) : Closed ':' a.render.toList := by
  cases hb : a.isBare with
  | true =>
    refine closed_of_notMem (fun hc => ?_) (fun hc => ?_)
    · exact ne_of_mem_bare h hb hc (.inr (.inr rfl)) rfl
    · exact ne_of_mem_bare h hb hc (.inl rfl) rfl
  | false =>
    cases a with
    | text t =>
      rw [toList_render_text]
      exact closed_quoted ':' h
    | integer | float | raw => exact Bool.noConfusion hb

theorem ofFlag_render {a : Coordinate} (h : a.Plain) : ofFlag a.render.toList = .ok a := by
  have hquote : a.isBare = true → '"' ∉ a.render.toList := fun hb hc =>
    ne_of_mem_bare h.legible hb hc (.inr (.inr rfl)) rfl
  cases a with
  | integer n =>
    refine ofFlag_of_quantity (n := .integer n) (trim_bare h.legible rfl) (hquote rfl) ?_
    rw [toList_render_integer]
    exact Quantity.read?_write n
  | float x =>
    refine ofFlag_of_quantity (n := .float x) (trim_bare h.legible rfl) (hquote rfl) ?_
    rw [toList_render_float]
    exact Quantity.read?_text h
  | raw t =>
    obtain rfl : t = "*" := h
    decide
  | text t =>
    -- The quotes keep the blanks of the text, and a text that looks like a number a text.
    have htrim : trim ('"' :: (t.toList ++ ['"'])) = '"' :: (t.toList ++ ['"']) := by
      refine trim_eq_self (fun c hc => ?_) (fun c hc => ?_)
      · obtain rfl := Option.some.inj hc
        decide
      · rw [← List.cons_append, List.getLast?_concat] at hc
        obtain rfl := Option.some.inj hc
        decide
    have hliteral : literal (String.ofList t.toList) = .ok (.text t) := by
      rw [literal_of_notMem h, String.ofList_toList]
    rw [toList_render_text]
    simp only [ofFlag, htrim, unquoted?_quoted, hliteral, List.isEmpty_cons, Bool.false_eq_true,
      if_false]
    rw [if_neg (by simp)]
    exact Outcome.mapError_eq_ok.2 rfl

end Coordinate

namespace Expression

theorem ofFlag_of_quantity {text : String} {n : Quantity}
    (h : Quantity.read? (trim text.toList) = some n) : ofFlag text = .ok (ofQuantity n) := by
  unfold ofFlag
  dsimp only
  rw [h]

theorem ofFlag_of_none {text : String} (h : Quantity.read? (trim text.toList) = none) :
    ofFlag text = (checked (String.ofList (trim text.toList))).mapError FlagError.query := by
  unfold ofFlag
  dsimp only
  rw [h]

theorem ofFlag_cases {text : String} {e : Expression} (h : ofFlag text = .ok e) :
    (∃ n, Quantity.read? (trim text.toList) = some n ∧ e = ofQuantity n) ∨
      ∃ t, checked t = .ok (.raw t) ∧ e = .raw t := by
  cases hread : Quantity.read? (trim text.toList) with
  | some n =>
    rw [ofFlag_of_quantity hread] at h
    exact .inl ⟨n, rfl, (Except.ok.inj h).symm⟩
  | none =>
    rw [ofFlag_of_none hread] at h
    have hchecked := Outcome.mapError_eq_ok.1 h
    have hraw := hchecked
    unfold checked at hraw
    split at hraw
    · obtain rfl := Except.ok.inj hraw
      exact .inr ⟨_, hchecked, rfl⟩
    · exact absurd hraw (by simp)

end Expression

namespace Subset

structure Plain (s : Subset) : Prop where
  axis_ne : s.axis ≠ ""
  axis_trim : trim s.axis.toList = s.axis.toList
  axis_equals : '=' ∉ s.axis.toList
  start : s.start.Plain
  stop : ∀ c ∈ s.stop, c.Plain

/-- The flag that gives a subset: its axis, an equals sign and its bounds as they are rendered. -/
def flagText (s : Subset) : String := s.axis ++ "=" ++ s.boundsText

theorem ofFlag_cases {text : String} {s : Subset} (h : ofFlag text = .ok s) :
    (∃ before bounds, text.toList = before ++ '=' :: bounds ∧ '=' ∉ before ∧
      s.axis = String.ofList (trim before) ∧ trim before ≠ []) ∧
    (∃ cs, Coordinate.ofFlag cs = .ok s.start) ∧
    ∀ c ∈ s.stop, ∃ cs, Coordinate.ofFlag cs = .ok c := by
  simp only [ofFlag] at h
  split at h
  · exact absurd h (by simp)
  · rename_i before bounds hsplit
    obtain ⟨htext, hbefore⟩ := splitOnce?_eq hsplit
    split at h
    · exact absurd h (by simp)
    · rename_i haxis
      have haxis : trim before ≠ [] := by simpa using haxis
      split at h
      · obtain ⟨start, hstart, h⟩ := Outcome.bind_eq_ok.1 h
        obtain rfl := Except.ok.inj h
        exact ⟨⟨before, bounds, htext, hbefore, rfl, haxis⟩, ⟨_, hstart⟩,
          fun c hc => absurd hc (by simp [point])⟩
      · obtain ⟨start, hstart, h⟩ := Outcome.bind_eq_ok.1 h
        obtain ⟨stop, hstop, h⟩ := Outcome.bind_eq_ok.1 h
        obtain rfl := Except.ok.inj h
        refine ⟨⟨before, bounds, htext, hbefore, rfl, haxis⟩, ⟨_, hstart⟩, fun c hc => ?_⟩
        obtain rfl := Option.some.inj hc
        exact ⟨_, hstop⟩
      · exact absurd h (by simp)

theorem plain_of_ofFlag {text : String} {s : Subset} (h : ofFlag text = .ok s) : s.Plain := by
  obtain ⟨⟨before, bounds, _, hbefore, haxis, hne⟩, ⟨_, hstart⟩, hstop⟩ := ofFlag_cases h
  have hlist : s.axis.toList = trim before := by rw [haxis, String.toList_ofList]
  refine ⟨fun hempty => hne ?_, by rw [hlist, trim_trim], fun hc => hbefore ?_,
    Coordinate.plain_of_ofFlag hstart, fun c hc => ?_⟩
  · rw [← hlist, hempty, String.toList_empty]
  · rw [hlist] at hc
    exact mem_of_mem_trim hc
  · obtain ⟨_, hread⟩ := hstop c hc
    exact Coordinate.plain_of_ofFlag hread

theorem split_bounds {s : Subset} (h : s.Plain) :
    splitOutsideQuotes ':' s.boundsText.toList =
      s.start.render.toList :: s.stop.toList.map fun c => c.render.toList := by
  have hstart := Coordinate.closed_render h.start.legible
  cases hs : s.stop with
  | none =>
    rw [boundsText, hs]
    exact splitOutsideQuotes_closed hstart
  | some stop =>
    have hstop := Coordinate.closed_render (h.stop stop hs).legible
    have htext : s.boundsText.toList = s.start.render.toList ++ ':' :: stop.render.toList := by
      simp [boundsText, hs]
    rw [htext, splitOutsideQuotes_append (by decide) hstart, splitOutsideQuotes_closed hstop]
    rfl

theorem ofFlag_flagText {s : Subset} (h : s.Plain) : ofFlag s.flagText = .ok s := by
  have hsplit : splitOnce? '=' s.flagText.toList = some (s.axis.toList, s.boundsText.toList) := by
    have htext : s.flagText.toList = s.axis.toList ++ '=' :: s.boundsText.toList := by
      simp [flagText]
    rw [htext]
    exact splitOnce?_append h.axis_equals _
  have haxis : s.axis.toList.isEmpty = false := by
    simpa using h.axis_ne
  have hbounds := split_bounds h
  have hstart := Coordinate.ofFlag_render h.start
  simp only [ofFlag, hsplit, h.axis_trim, haxis, hbounds, Bool.false_eq_true, if_false]
  obtain ⟨axis, start, stop⟩ := s
  cases stop with
  | none => simp [hstart, bind, Except.bind, pure, Except.pure, point]
  | some stop =>
    have hstop := Coordinate.ofFlag_render (h.stop stop rfl)
    simp [hstart, hstop, bind, Except.bind, pure, Except.pure, range]

/-- Flags give the plain subsets and no others, and reading a subset again from the flag that is
written for it gives the same subset. -/
theorem exists_ofFlag_iff_plain (s : Subset) :
    ((∃ text, ofFlag text = .ok s) ↔ s.Plain) ∧
    (s.Plain → ofFlag s.flagText = .ok s) ∧
    ∀ text, ofFlag text = .ok s → ofFlag s.flagText = .ok s :=
  ⟨⟨fun ⟨_, h⟩ => plain_of_ofFlag h, fun h => ⟨s.flagText, ofFlag_flagText h⟩⟩, ofFlag_flagText,
    fun _ h => ofFlag_flagText (plain_of_ofFlag h)⟩

def plainExample : Subset :=
  .range "t [0]" (.text "a:=b ") (.float ((Binary64.read? "-1.5e-7".toList).getD .nan))

theorem exists_ofFlag_iff_plain_example :
    plainExample.Plain ∧ plainExample.flagText = "t [0]=\"a:=b \":-1.5e-7" ∧
    (∃ text, ofFlag text = .ok plainExample) ∧
    ofFlag " t [0] = \"a:=b \" : -0.00000015" = .ok plainExample ∧
    ofFlag plainExample.flagText = .ok plainExample := by
  have hplain : plainExample.Plain :=
    ⟨by decide, by decide, by decide, by decide, by decide +kernel⟩
  have hread : ofFlag " t [0] = \"a:=b \" : -0.00000015" = .ok plainExample := by decide +kernel
  obtain ⟨hiff, -, hagain⟩ := exists_ofFlag_iff_plain plainExample
  exact ⟨hplain, by decide +kernel, hiff.2 hplain, hread, hagain _ hread⟩

end Subset
end CoverageQuery
