import CoverageQuery.Proofs.Number.ReadBack
import CoverageQuery.Proofs.Query.Clauses
import CoverageQuery.Proofs.Text.Places

/-!
# The binding of the subset

A part of a query is fresh when the subset variable stands in none of the texts that it is made of.
All that is written between these texts begins and ends with characters that the variable does not hold,
so a fresh part does not name the variable, and in a fresh query the variable stands only where the
clauses put it: in the clause that binds it and behind the value, once each, or not at all.
-/
namespace CoverageQuery

open Text

def FreshText (text : List Char) : Prop := Lacks Query.subsetVariable.toList text

instance (text : List Char) : Decidable (FreshText text) :=
  inferInstanceAs (Decidable (Lacks Query.subsetVariable.toList text))

theorem freshText_iff {text : List Char} :
    FreshText text ↔ places Query.subsetVariable.toList text = [] :=
  (places_eq_nil_iff (by decide)).symm

theorem freshText_cut {c : Char} (hc : c ∉ Query.subsetVariable.toList) {a b : List Char}
    (ha : FreshText a) (hb : FreshText b) : FreshText (a ++ c :: b) :=
  (lacks_cut (by decide) hc).2 ⟨ha, hb⟩

theorem freshText_of_dollar {text : List Char} (h : '$' ∉ text) : FreshText text :=
  lacks_of_notMem (by decide) h

theorem freshText_integer (n : Int) : FreshText (Integer.write n) := by
  refine freshText_of_dollar fun hc => ?_
  rcases Integer.mem_write hc with hc | hc <;> exact absurd hc (by decide)

theorem freshText_number (l : NumberLayout) (x : Binary64) : FreshText (l.text x) := by
  refine freshText_of_dollar fun hc => ?_
  rcases NumberLayout.mem_text hc with hc | hc <;> exact absurd hc (by decide)

theorem freshText_intercalate {c : Char} (hc : c ∉ Query.subsetVariable.toList)
    {pieces : List (List Char)} (h : ∀ piece ∈ pieces, FreshText piece) :
    FreshText ([c].intercalate pieces) := by
  induction pieces with
  | nil => exact freshText_of_dollar (by simp)
  | cons a rest ih =>
    rw [List.forall_mem_cons] at h
    cases rest with
    | nil => simpa using h.1
    | cons b rest =>
      rw [List.intercalate_cons_cons, List.append_assoc]
      exact freshText_cut hc h.1 (ih h.2)

namespace Coordinate

def Fresh : Coordinate → Prop
  | raw t | text t => FreshText t.toList
  | _ => True

theorem freshText_render {c : Coordinate} (h : c.Fresh) : FreshText c.render.toList := by
  cases c with
  | integer n =>
    rw [toList_render_integer]
    exact freshText_integer n.toInt
  | float x =>
    rw [toList_render_float]
    exact freshText_number _ x
  | raw t => exact h
  | text t =>
    rw [toList_render_text]
    exact freshText_cut (a := []) (by decide) (by decide) (freshText_cut (by decide) h (by decide))

end Coordinate

namespace Expression

def Fresh : Expression → Prop
  | raw t => FreshText t.toList
  | _ => True

theorem freshText_render {e : Expression} (h : e.Fresh) : FreshText e.render.toList := by
  cases e with
  | integer n =>
    rw [render, integerText, String.toList_ofList]
    exact freshText_integer n.toInt
  | float x =>
    rw [render, NumberLayout.render, String.toList_ofList]
    exact freshText_number _ x
  | raw t => exact h

end Expression

namespace Subset

structure Fresh (s : Subset) : Prop where
  axis : FreshText s.axis.toList
  start : s.start.Fresh
  stop : ∀ c ∈ s.stop, c.Fresh

theorem freshText_render {s : Subset} (h : s.Fresh) : FreshText s.render.toList := by
  have hstart := Coordinate.freshText_render h.start
  rcases s.eq_point_or_range with hs | ⟨stop, hstop, hs⟩
  · rw [hs, toList_render_point]
    have hbounds : FreshText (s.start.render.toList ++ ')' :: []) :=
      freshText_cut (by decide) hstart (by decide)
    exact freshText_cut (by decide) h.axis hbounds
  · rw [hs, toList_render_range]
    have hend := Coordinate.freshText_render (h.stop stop hstop)
    have hbounds : FreshText (s.start.render.toList ++ ':' :: (stop.render.toList ++ ')' :: [])) :=
      freshText_cut (by decide) hstart (freshText_cut (by decide) hend (by decide))
    exact freshText_cut (by decide) h.axis hbounds

theorem freshText_renderAll {subset : List Subset} (h : ∀ s ∈ subset, s.Fresh) :
    FreshText (renderAll subset).toList := by
  induction subset with
  | nil => decide
  | cons s rest ih =>
    rw [List.forall_mem_cons] at h
    have hs := freshText_render h.1
    cases rest with
    | nil =>
      rw [toList_renderAll_singleton]
      exact hs
    | cons t rest =>
      have hrest := ih h.2
      rw [toList_renderAll_cons_cons]
      exact freshText_cut (by decide) hs (freshText_cut (a := []) (by decide) (by decide) hrest)

end Subset

namespace Switch

structure Fresh (s : Switch) : Prop where
  condition : ∀ b ∈ s.branches, FreshText b.condition.toList
  result : ∀ b ∈ s.branches, b.result.Fresh
  fallback : ∀ e ∈ s.fallback, e.Fresh

theorem freshText_line {b : Branch} (hc : FreshText b.condition.toList) (hr : b.result.Fresh) :
    FreshText b.line.toList := by
  have hline : b.line.toList = "case".toList ++ ' ' :: (b.condition.toList ++ ' ' ::
      ("return".toList ++ ' ' :: b.result.render.toList)) := by
    simp [Branch.line]
  have hresult := freshText_cut (c := ' ') (by decide) (show FreshText "return".toList by decide)
    (Expression.freshText_render hr)
  rw [hline]
  exact freshText_cut (by decide) (by decide) (freshText_cut (by decide) hc hresult)

theorem freshText_lines {s : Switch} (h : s.Fresh) : ∀ line ∈ s.lines, FreshText line.toList := by
  intro line hline
  rw [lines, List.cons_append] at hline
  rcases List.mem_cons.1 hline with rfl | hline
  · decide
  · rcases List.mem_append.1 hline with hline | hline
    · obtain ⟨b, hb, rfl⟩ := List.mem_map.1 hline
      exact freshText_line (h.condition b hb) (h.result b hb)
    · cases hfallback : s.fallback with
      | none => simp [fallbackLines, hfallback] at hline
      | some e =>
        have htext : line.toList = "default return".toList ++ ' ' :: e.render.toList := by
          simp only [fallbackLines, hfallback, List.mem_singleton] at hline
          simp [hline]
        rw [htext]
        exact freshText_cut (by decide) (by decide)
          (Expression.freshText_render (h.fallback e hfallback))

theorem freshText_render {s : Switch} (h : s.Fresh) : FreshText s.render.toList := by
  rw [render, String.toList_intercalate]
  refine freshText_intercalate (by decide) fun piece hp => ?_
  obtain ⟨line, hline, rfl⟩ := List.mem_map.1 hp
  exact freshText_lines h line hline

end Switch

namespace Query

structure Fresh (q : Query) : Prop where
  coverages : ∀ name ∈ q.coverages, FreshText name.toList
  subset : ∀ s ∈ q.subset, s.Fresh
  value : q.value.Fresh
  branches : ∀ s ∈ q.mode.switch?, s.Fresh

theorem freshText_forClause {names : List String} (h : ∀ name ∈ names, FreshText name.toList)
    {first : String} (hf : forClause names = .ok first) : FreshText first.toList := by
  rcases forClause_cases hf with ⟨name, rfl, hfirst⟩ | ⟨_, hfirst⟩
  · have hname := h name List.mem_cons_self
    have htext : first.toList = "for $c in (".toList ++ ' ' :: (name.toList ++ ' ' :: [')']) := by
      simp [hfirst]
    rw [htext]
    exact freshText_cut (by decide) (by decide) (freshText_cut (by decide) hname (by decide))
  · have hlist : FreshText ([','].intercalate (names.map String.toList)) := by
      refine freshText_intercalate (by decide) fun piece hp => ?_
      obtain ⟨name, hname, rfl⟩ := List.mem_map.1 hp
      exact h name hname
    have htext : first.toList = "for $c in ".toList ++
        '(' :: ([','].intercalate (names.map String.toList) ++ ')' :: []) := by
      simp [hfirst]
    rw [htext]
    exact freshText_cut (by decide) (by decide) (freshText_cut (by decide) hlist (by decide))

theorem freshText_valueText {e : Expression} (h : e.Fresh) : FreshText (valueText e).toList := by
  unfold valueText
  split
  · decide
  · have htext : ("( " ++ e.render ++ " )").toList =
        ['('] ++ ' ' :: (e.render.toList ++ ' ' :: [')']) := by simp
    rw [htext]
    exact freshText_cut (by decide) (by decide)
      (freshText_cut (by decide) (Expression.freshText_render h) (by decide))

theorem exists_closing_fresh (m : Mode) :
    ∃ after, m.closing.toList = ' ' :: after ∧ FreshText after := by
  cases m with
  | encode f =>
    refine ⟨", \"".toList ++ f.mediaType.toList ++ "\" )".toList, by simp [Mode.closing], ?_⟩
    cases f <;> decide
  | _ => exact ⟨[')'], by simp [Mode.closing], by decide⟩

theorem freshText_word (m : Mode) : FreshText ("return ".toList ++ m.word.toList) := by
  cases m with
  | plain => decide
  | aggregate a => cases a <;> decide
  | encode f =>
    rw [Mode.word]
    decide
  | «switch» s =>
    rw [Mode.word]
    · decide
    all_goals simp

/-- In every mode the return clause holds the subset variable where the value ends, if it is needed, and
nowhere else. -/
theorem returnText_around_suffix {q : Query} (h : q.Fresh) :
    ∃ front after, q.returnText = front ++ ((subsetSuffix q.subset).toList ++ after) ∧
      FreshText front ∧ FreshText after ∧ ∀ c ∈ after.head?, c = ' ' := by
  cases hs : q.mode.switch? with
  | none =>
    obtain ⟨after, hclosing, hafter⟩ := exists_closing_fresh q.mode
    refine ⟨("return ".toList ++ q.mode.word.toList) ++ '(' :: ([] ++ ' ' :: (valueText q.value).toList),
      ' ' :: after, ?_, ?_, ?_, ?_⟩
    · rw [returnText_of_value hs, hclosing]
      simp
    · exact freshText_cut (by decide) (freshText_word q.mode)
        (freshText_cut (by decide) (by decide) (freshText_valueText h.value))
    · exact freshText_cut (a := []) (by decide) (by decide) hafter
    · simp
  | some s =>
    have hmode := Mode.eq_of_switch? hs
    refine ⟨"return (".toList ++ '\n' :: (s.render.toList ++ '\n' :: [')']), [], ?_, ?_, ?_, ?_⟩
    · rw [returnText_of_switch hmode]
      simp
    · have hlines := Switch.freshText_render (h.branches s hs)
      exact freshText_cut (by decide) (by decide) (freshText_cut (by decide) hlines (by decide))
    · decide
    · simp

theorem freshText_returnText {q : Query} (h : q.Fresh) (hsubset : q.subset = []) :
    FreshText q.returnText := by
  obtain ⟨front, after, htext, hfront, hafter, hhead⟩ := returnText_around_suffix h
  rw [htext, hsubset]
  cases after with
  | nil => simpa [subsetSuffix] using hfront
  | cons c after =>
    obtain rfl : c = ' ' := hhead c rfl
    have hrest : FreshText after := ((lacks_cut (a := []) (by decide) (by decide)).1 hafter).2
    exact freshText_cut (by decide) hfront hrest

theorem places_returnText {q : Query} (h : q.Fresh) (hsubset : q.subset ≠ []) :
    ∃ n, places subsetVariable.toList q.returnText = [n] := by
  obtain ⟨front, after, htext, hfront, hafter, hhead⟩ := returnText_around_suffix h
  have hsuffix : (subsetSuffix q.subset).toList = ' ' :: "[ $subset ]".toList := by
    simp [subsetSuffix, hsubset, subsetVariable]
  have hvariable : places subsetVariable.toList "[ $subset ]".toList = [2] := by decide
  have hbehind : places subsetVariable.toList ("[ $subset ]".toList ++ after) = [2] := by
    cases after with
    | nil => exact hvariable
    | cons c after =>
      obtain rfl : c = ' ' := hhead c rfl
      have hrest := ((lacks_cut (a := []) (by decide) (by decide)).1 hafter).2
      rw [places_cut (by decide) (by decide), hvariable, freshText_iff.1 hrest]
      rfl
  refine ⟨front.length + 1 + 2, ?_⟩
  rw [htext, hsuffix, List.cons_append, places_cut (by decide) (by decide), freshText_iff.1 hfront,
    hbehind]
  rfl

theorem exists_letLine {subset : List Subset} (h : ∀ s ∈ subset, s.Fresh) (hne : subset ≠ []) :
    ∃ line, letText subset = line ++ ['\n'] ∧ places subsetVariable.toList line = [4] := by
  refine ⟨"let $subset := ".toList ++ '[' :: ((Subset.renderAll subset).toList ++ ']' :: []), ?_, ?_⟩
  · rw [← List.append_nil (letText subset), letText_append hne]
    simp
  · have hterms : FreshText ((Subset.renderAll subset).toList ++ ']' :: []) :=
      freshText_cut (by decide) (Subset.freshText_renderAll h) (by decide)
    have hvariable : places subsetVariable.toList "let $subset := ".toList = [4] := by decide
    rw [places_cut (by decide) (by decide), hvariable, freshText_iff.1 hterms]
    rfl

/-- In the text of a fresh query with coverages the subset variable stands twice if there is a subset,
first in the clause that binds it and then in the return clause, and nowhere if there is none. -/
theorem render_binds_subset {q : Query} (hcoverages : q.coverages ≠ []) (h : q.Fresh) :
    ∃ first text, forClause q.coverages = .ok first ∧ q.render = .ok text ∧
      text.toList = first.toList ++ '\n' :: (letText q.subset ++ q.returnText) ∧
      (q.subset = [] → places subsetVariable.toList text.toList = []) ∧
      (q.subset ≠ [] → ∃ m n, places subsetVariable.toList (letText q.subset) = [m] ∧
        places subsetVariable.toList q.returnText = [n] ∧
        places subsetVariable.toList text.toList =
          [first.toList.length + 1 + m,
            first.toList.length + 1 + ((letText q.subset).length + n)]) := by
  obtain ⟨first, hfirst⟩ := exists_forClause hcoverages
  have hrender : q.render = .ok (String.ofList
      (first.toList ++ '\n' :: (letText q.subset ++ q.returnText))) := by
    rw [render_eq, hfirst]
    rfl
  have hfor := freshText_iff.1 (freshText_forClause h.coverages hfirst)
  refine ⟨first, _, hfirst, hrender, String.toList_ofList, fun hsubset => ?_, fun hsubset => ?_⟩
  · rw [String.toList_ofList, places_cut (by decide) (by decide), hfor, hsubset]
    have hreturn := freshText_iff.1 (freshText_returnText h hsubset)
    simp [letText, letClause, hreturn]
  · obtain ⟨line, hline, hbinding⟩ := exists_letLine h.subset hsubset
    obtain ⟨n, hn⟩ := places_returnText h hsubset
    refine ⟨4, n, ?_, hn, ?_⟩
    · rw [hline, places_cut (by decide) (by decide), hbinding]
      rfl
    · rw [String.toList_ofList, places_cut (by decide) (by decide), hfor, hline, List.append_assoc,
        List.singleton_append, places_cut (by decide) (by decide), hbinding, hn]
      simp [Nat.add_assoc]

def nearlyNamed : Query :=
  ⟨["$sub", "set"], [.range "$subs" (.text "$subse") (.raw "et")], .raw "$",
    .switch ⟨[⟨"$c > 3", .raw "$subse"⟩], some (.raw "t$sub")⟩⟩

theorem fresh_nearlyNamed : nearlyNamed.Fresh where
  coverages := by decide
  subset s hs := by
    obtain rfl := List.mem_singleton.1 hs
    refine ⟨by decide, (by decide : FreshText "$subse".toList), fun c hc => ?_⟩
    obtain rfl := Option.some.inj hc
    exact (by decide : FreshText "et".toList)
  value := (by decide : FreshText "$".toList)
  branches s hs := by
    obtain rfl := Option.some.inj hs
    refine ⟨by decide, fun b hb => ?_, fun e he => ?_⟩
    · obtain rfl := List.mem_singleton.1 hb
      exact (by decide : FreshText "$subse".toList)
    · obtain rfl := Option.some.inj he
      exact (by decide : FreshText "t$sub".toList)

theorem render_binds_subset_example :
    nearlyNamed.Fresh ∧ ∃ text, nearlyNamed.render = .ok text ∧
      places subsetVariable.toList text.toList = [25, 124] := by
  obtain ⟨first, text, hfirst, hrender, _, _, htwice⟩ :=
    render_binds_subset (q := nearlyNamed) (by decide) fresh_nearlyNamed
  obtain ⟨m, n, hm, hn, hplaces⟩ := htwice (by decide)
  obtain rfl : "for $c in ($sub,set)" = first := by
    have hclause : forClause nearlyNamed.coverages = .ok "for $c in ($sub,set)" := by decide
    exact Except.ok.inj (hclause.symm.trans hfirst)
  have hlet : places subsetVariable.toList (letText nearlyNamed.subset) = [4] := by decide
  have hreturn : places subsetVariable.toList nearlyNamed.returnText = [67] := by decide
  obtain rfl : 4 = m := (List.cons.inj (hlet.symm.trans hm)).1
  obtain rfl : 67 = n := (List.cons.inj (hreturn.symm.trans hn)).1
  exact ⟨fresh_nearlyNamed, text, hrender, hplaces⟩

end Query
end CoverageQuery
