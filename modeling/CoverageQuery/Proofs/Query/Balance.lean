import CoverageQuery.Proofs.Number.ReadBack
import CoverageQuery.Proofs.Query.Clauses
import CoverageQuery.Proofs.Text.Delimiters

/-!
# Balance in the text of a query

A part of a query is delimited when each text in it that stands as it is would be accepted as a
checked expression and each text in quotes holds no quote. The text of a delimited part is balanced:
coordinates, subsets, branches and constructors, each clause, and so the whole query.
-/
namespace CoverageQuery

open Text

theorem digit_notMem_delimiters {c : Char} (h : c.isDigit = true) :
    c ∉ DelimiterScan.delimiters := by
  intro hc
  have hnone : DelimiterScan.delimiters.all (fun d => !d.isDigit) = true := by decide
  have hc := List.all_eq_true.1 hnone c hc
  rw [h] at hc
  exact Bool.noConfusion hc

theorem balanced_integer (n : Int) : balanced (Integer.write n) = true := by
  refine balanced_of_plain fun c hc => ?_
  rcases Integer.mem_write hc with hc | rfl
  · exact digit_notMem_delimiters hc
  · decide

theorem balanced_number (l : NumberLayout) (x : Binary64) : balanced (l.text x) = true := by
  refine balanced_of_plain fun c hc => ?_
  have hmarks : NumberLayout.marks.all (· ∉ DelimiterScan.delimiters) = true := by decide
  rcases NumberLayout.mem_text hc with hc | hc
  · exact digit_notMem_delimiters hc
  · exact of_decide_eq_true (List.all_eq_true.1 hmarks c hc)

namespace Expression

def Accepted (text : String) : Prop := ∃ e, checked text = .ok e

theorem accepted_iff {text : String} : Accepted text ↔ balanced text.toList = true := by
  unfold Accepted checked
  cases hb : balanced text.toList <;> simp

theorem accepted_append {a b : String} (ha : Accepted a) (hb : Accepted b) :
    Accepted (a ++ b) := by
  rw [accepted_iff, String.toList_append]
  exact balanced_append (accepted_iff.1 ha) (accepted_iff.1 hb)

instance : DecidablePred Accepted := fun _ => decidable_of_iff' _ accepted_iff

def Delimited : Expression → Prop
  | raw t => Accepted t
  | _ => True

instance : DecidablePred Delimited
  | integer _ | float _ => .isTrue trivial
  | raw t => inferInstanceAs (Decidable (Accepted t))

theorem balanced_render {e : Expression} (h : e.Delimited) : balanced e.render.toList = true := by
  cases e with
  | integer n =>
    rw [render, integerText, String.toList_ofList]
    exact balanced_integer n.toInt
  | float x =>
    rw [render, NumberLayout.render, String.toList_ofList]
    exact balanced_number _ x
  | raw t => exact accepted_iff.1 h

end Expression

open Expression (Accepted accepted_iff)

namespace Coordinate

def Delimited : Coordinate → Prop
  | raw t => Accepted t
  | text t => '"' ∉ t.toList
  | _ => True

instance : DecidablePred Delimited
  | integer _ | float _ => .isTrue trivial
  | raw t => inferInstanceAs (Decidable (Accepted t))
  | text t => inferInstanceAs (Decidable ('"' ∉ t.toList))

theorem balanced_render {c : Coordinate} (h : c.Delimited) : balanced c.render.toList = true := by
  cases c with
  | integer n =>
    rw [toList_render_integer]
    exact balanced_integer n.toInt
  | float x =>
    rw [toList_render_float]
    exact balanced_number _ x
  | raw t => exact accepted_iff.1 h
  | text t =>
    rw [toList_render_text]
    exact balanced_literal h

end Coordinate

namespace Subset

structure Delimited (s : Subset) : Prop where
  axis : Accepted s.axis
  start : s.start.Delimited
  stop : ∀ c ∈ s.stop, c.Delimited

theorem delimited_iff {s : Subset} : s.Delimited ↔
    Accepted s.axis ∧ s.start.Delimited ∧ ∀ c ∈ s.stop, c.Delimited :=
  ⟨fun h => ⟨h.axis, h.start, h.stop⟩, fun h => ⟨h.1, h.2.1, h.2.2⟩⟩

instance : DecidablePred Delimited := fun _ => decidable_of_iff' _ delimited_iff

theorem balanced_render {s : Subset} (h : s.Delimited) : balanced s.render.toList = true := by
  have haxis := accepted_iff.1 h.axis
  have hstart := Coordinate.balanced_render h.start
  rcases s.eq_point_or_range with hs | ⟨stop, hstop, hs⟩
  · rw [hs, toList_render_point]
    exact balanced_append haxis (balanced_parentheses hstart)
  · rw [hs, toList_render_range]
    have hend := Coordinate.balanced_render (h.stop stop hstop)
    have hcolon : balanced [':'] = true := by decide
    have hbounds := balanced_append hstart (balanced_append hcolon hend)
    have hterm := balanced_append haxis (balanced_parentheses hbounds)
    simpa using hterm

theorem balanced_renderAll {subset : List Subset} (h : ∀ s ∈ subset, s.Delimited) :
    balanced (renderAll subset).toList = true := by
  rw [renderAll, String.toList_intercalate]
  refine balanced_intercalate (by decide) fun piece hp => ?_
  simp only [List.map_map, List.mem_map, Function.comp_apply] at hp
  obtain ⟨s, hs, rfl⟩ := hp
  exact balanced_render (h s hs)

end Subset

namespace Switch

structure Delimited (s : Switch) : Prop where
  condition : ∀ b ∈ s.branches, Accepted b.condition
  result : ∀ b ∈ s.branches, b.result.Delimited
  fallback : ∀ e ∈ s.fallback, e.Delimited

theorem balanced_line {b : Branch} (hc : Accepted b.condition) (hr : b.result.Delimited) :
    balanced b.line.toList = true := by
  have hcase : balanced "case ".toList = true := by decide
  have hreturn : balanced " return ".toList = true := by decide
  simp only [Branch.line, String.toList_append]
  exact balanced_append (balanced_append (balanced_append hcase (accepted_iff.1 hc)) hreturn)
    (Expression.balanced_render hr)

theorem balanced_lines {s : Switch} (h : s.Delimited) :
    ∀ line ∈ s.lines, balanced line.toList = true := by
  intro line hline
  rw [lines, List.cons_append] at hline
  rcases List.mem_cons.1 hline with rfl | hline
  · decide
  · rcases List.mem_append.1 hline with hline | hline
    · obtain ⟨b, hb, rfl⟩ := List.mem_map.1 hline
      exact balanced_line (h.condition b hb) (h.result b hb)
    · cases hf : s.fallback with
      | none => simp [fallbackLines, hf] at hline
      | some e =>
        obtain rfl : line = "default return " ++ e.render := by
          simpa [fallbackLines, hf] using hline
        have hdefault : balanced "default return ".toList = true := by decide
        rw [String.toList_append]
        exact balanced_append hdefault (Expression.balanced_render (h.fallback e hf))

theorem balanced_render {s : Switch} (h : s.Delimited) : balanced s.render.toList = true := by
  rw [render, String.toList_intercalate]
  refine balanced_intercalate (by decide) fun piece hp => ?_
  obtain ⟨line, hline, rfl⟩ := List.mem_map.1 hp
  exact balanced_lines h line hline

end Switch

namespace Constructor

structure Delimited (c : Constructor) : Prop where
  name : Accepted c.name
  domain : ∀ s ∈ c.domain, s.Delimited
  values : Accepted c.values

theorem balanced_bindingText {s : Subset} (h : s.Delimited) :
    balanced (bindingText s).toList = true := by
  have hmark : balanced "$p".toList = true := by decide
  have hspace : balanced " ".toList = true := by decide
  simp only [bindingText, iteratorName, String.toList_append]
  exact balanced_append (balanced_append (balanced_append hmark (accepted_iff.1 h.axis)) hspace)
    (Subset.balanced_render h)

theorem balanced_render {c : Constructor} (h : c.Delimited) : balanced c.render.toList = true := by
  have hbindings : balanced (", ".intercalate (c.domain.map bindingText)).toList = true := by
    rw [String.toList_intercalate]
    refine balanced_intercalate (by decide) fun piece hp => ?_
    simp only [List.map_map, List.mem_map, Function.comp_apply] at hp
    obtain ⟨s, hs, rfl⟩ := hp
    exact balanced_bindingText (h.domain s hs)
  have hcoverage : balanced "coverage ".toList = true := by decide
  have hover : balanced "\nover ".toList = true := by decide
  have hvalues : balanced "\nvalues ".toList = true := by decide
  simp only [render, String.toList_append]
  have hname := balanced_append (balanced_append hcoverage (accepted_iff.1 h.name)) hover
  exact balanced_append (balanced_append (balanced_append hname hbindings) hvalues)
    (accepted_iff.1 h.values)

end Constructor

namespace Query

structure Delimited (q : Query) : Prop where
  coverages : ∀ name ∈ q.coverages, Accepted name
  subset : ∀ s ∈ q.subset, s.Delimited
  value : q.value.Delimited
  branches : ∀ s ∈ q.mode.switch?, s.Delimited

theorem balanced_forClause {names : List String} (h : ∀ name ∈ names, Accepted name)
    {first : String} (hf : forClause names = .ok first) : balanced first.toList = true := by
  have hfor : balanced "for $c in ".toList = true := by decide
  have hspace : balanced [' '] = true := by decide
  rcases forClause_cases hf with ⟨name, rfl, hfirst⟩ | ⟨_, hfirst⟩
  · have hname := accepted_iff.1 (h name List.mem_cons_self)
    have hinner := balanced_append hspace (balanced_append hname hspace)
    have hclause := balanced_append hfor (balanced_parentheses hinner)
    rw [hfirst]
    simpa using hclause
  · have hlist : balanced ([','].intercalate (names.map String.toList)) = true := by
      refine balanced_intercalate (by decide) fun piece hp => ?_
      obtain ⟨name, hname, rfl⟩ := List.mem_map.1 hp
      exact accepted_iff.1 (h name hname)
    have hclause := balanced_append hfor (balanced_parentheses hlist)
    rw [hfirst]
    simpa using hclause

theorem balanced_letText {subset : List Subset} (h : ∀ s ∈ subset, s.Delimited) :
    balanced (letText subset) = true := by
  by_cases hs : subset = []
  · subst hs
    rfl
  · have hlet : balanced "let $subset := ".toList = true := by decide
    have hnewline : balanced ['\n'] = true := by decide
    have hlist := balanced_enclose (o := '[') (c := ']') rfl rfl (Subset.balanced_renderAll h)
    have hclause := balanced_append (balanced_append hlet hlist) hnewline
    rw [← List.append_nil (letText subset), letText_append hs]
    simpa using hclause

theorem balanced_subsetSuffix (subset : List Subset) :
    balanced (subsetSuffix subset).toList = true := by
  unfold subsetSuffix
  split <;> decide

theorem balanced_valueText {e : Expression} (h : e.Delimited) :
    balanced (valueText e).toList = true := by
  unfold valueText
  split
  · decide
  · have hspace : balanced [' '] = true := by decide
    have hinner := balanced_append hspace (balanced_append (Expression.balanced_render h) hspace)
    have hvalue := balanced_parentheses hinner
    simpa using hvalue

theorem balanced_word (m : Mode) : balanced ("return ".toList ++ m.word.toList) = true := by
  cases m with
  | plain => decide
  | aggregate a => cases a <;> decide
  | encode f =>
    rw [Mode.word]
    decide
  | «switch» s =>
    rw [Mode.word]
    · decide
    all_goals simp

theorem exists_closing (m : Mode) :
    ∃ inner, m.closing.toList = inner ++ [')'] ∧ balanced inner = true := by
  cases m with
  | encode f =>
    refine ⟨" , \"".toList ++ f.mediaType.toList ++ "\" ".toList, by simp [Mode.closing], ?_⟩
    cases f <;> decide
  | _ => exact ⟨[' '], by simp [Mode.closing], by decide⟩

theorem balanced_returnText {q : Query} (h : q.Delimited) : balanced q.returnText = true := by
  have hword := balanced_word q.mode
  have hspace : balanced [' '] = true := by decide
  have hnewline : balanced ['\n'] = true := by decide
  have hsuffix := balanced_subsetSuffix q.subset
  cases hs : q.mode.switch? with
  | none =>
    obtain ⟨inner, hclosing, hinner⟩ := exists_closing q.mode
    have hvalue := balanced_append (balanced_valueText h.value) hsuffix
    have hbody := balanced_append hspace (balanced_append hvalue hinner)
    have hclause := balanced_append hword (balanced_parentheses hbody)
    rw [returnText_of_value hs, hclosing]
    simpa using hclause
  | some s =>
    have hmode := Mode.eq_of_switch? hs
    have hlines := Switch.balanced_render (h.branches s hs)
    have hbody := balanced_append hnewline (balanced_append hlines hnewline)
    have hreturn : balanced "return ".toList = true := by decide
    have hclause := balanced_append
      (balanced_append hreturn (balanced_parentheses hbody)) hsuffix
    rw [returnText_of_switch hmode]
    simpa using hclause

theorem balanced_render {q : Query} (h : q.Delimited) {text : String}
    (ht : q.render = .ok text) : balanced text.toList = true := by
  obtain ⟨first, hfirst, htext⟩ := toList_of_render ht
  have hnewline : balanced ['\n'] = true := by decide
  have hclauses := balanced_append (balanced_letText h.subset) (balanced_returnText h)
  rw [htext, List.append_cons]
  exact balanced_append (balanced_append (balanced_forClause h.coverages hfirst) hnewline) hclauses

end Query
end CoverageQuery
