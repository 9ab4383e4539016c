import CoverageQuery.Proofs.Query.History
import CoverageQuery.Query.Template

/-!
# Balance of templates

The values of templates are delimited: thresholds and colours for all numbers, and the classes of a
map for every delimited subset. So a template is delimited for a coverage that is accepted and a
delimited subset, and it always has a text.
-/
namespace CoverageQuery

open Text
open Expression (Accepted accepted_iff)

namespace Template

def subset : Template → List Subset
  | basicQuery | gradientImage _ => []
  | singleValue s | minimum s | maximum s | average s | countBelow s _ | countAbove s _ => s
  | series s | map s | celsiusToKelvin s | colorMap s => s

theorem delimited_threshold {comparison : String} (h : Accepted comparison) (x : Binary64) :
    (thresholdText comparison x).Delimited := by
  have hiterator : Accepted iterator := by decide
  have hnumber : Accepted (NumberLayout.query.render x) := by
    rw [accepted_iff, NumberLayout.render, String.toList_ofList]
    exact balanced_number _ x
  exact Expression.accepted_append (Expression.accepted_append hiterator h) hnumber

theorem accepted_cellText {subset : List Subset} (h : ∀ s ∈ subset, s.Delimited) :
    Accepted (cellText subset) := by
  unfold cellText
  split
  · decide
  · have hiterator : balanced iterator.toList = true := by decide
    have hlist := balanced_enclose (o := '[') (c := ']') rfl rfl (Subset.balanced_renderAll h)
    have hcell := balanced_append hiterator hlist
    rw [accepted_iff]
    simpa using hcell

theorem delimited_color (red green blue : Nat) : (color red green blue).Delimited := by
  have hdigits : ∀ n : Nat, balanced (toString n).toList = true := by
    intro n
    refine balanced_of_plain fun c hc => ?_
    rw [Nat.toString_eq_repr, Nat.toList_repr] at hc
    exact digit_notMem_delimiters (Nat.isDigit_of_mem_toDigits (by decide) (by decide) hc)
  have hred : balanced "red: ".toList = true := by decide
  have hgreen : balanced "; green: ".toList = true := by decide
  have hblue : balanced "; blue: ".toList = true := by decide
  have hinner := balanced_append (balanced_append (balanced_append (balanced_append
    (balanced_append hred (hdigits red)) hgreen) (hdigits green)) hblue) (hdigits blue)
  have hcolor := balanced_enclose (o := '\x7b') (c := '\x7d') rfl rfl hinner
  refine accepted_iff.2 ?_
  simpa using hcolor

theorem delimited_temperatureClasses {cell : String} (h : Accepted cell) :
    (temperatureClasses cell).Delimited := by
  have hblank : (cell ++ " = " ++ noData) = cell ++ (" = " ++ noData) := String.append_assoc
  refine Switch.delimited_ofCases (fun _ he => absurd he (by simp)) fun c hc => ?_
  simp only [List.mem_cons, List.not_mem_nil, or_false] at hc
  rcases hc with rfl | rfl | rfl | rfl | rfl
  · refine ⟨fun _ => ?_, delimited_color _ _ _⟩
    rw [Case.guarded, hblank]
    exact Expression.accepted_append h (by decide)
  · exact ⟨fun _ => Expression.accepted_append (by decide) h, delimited_color _ _ _⟩
  · exact ⟨fun _ => Expression.accepted_append (by decide) h, delimited_color _ _ _⟩
  · exact ⟨fun _ => Expression.accepted_append (by decide) h, delimited_color _ _ _⟩
  · exact ⟨fun hf => Bool.noConfusion hf, delimited_color _ _ _⟩

theorem delimited_gradient (size : UInt32) : (gradient size).Delimited := by
  have hrange : ∀ (axis : String) (stop : Int64), Accepted axis →
      (Subset.range axis (.integer 0) (.integer stop)).Delimited := by
    intro axis stop haxis
    refine ⟨haxis, trivial, fun c hc => ?_⟩
    obtain rfl := Option.some.inj hc
    trivial
  refine ⟨(by decide : Accepted "gradient"), fun s hs => ?_, (by decide : Accepted "$px + $py")⟩
  simp only [gradient, List.mem_cons, List.not_mem_nil, or_false] at hs
  rcases hs with rfl | rfl
  · exact hrange "x" _ (by decide)
  · exact hrange "y" _ (by decide)

theorem query_shape (t : Template) (coverage : String) :
    (t.query coverage).coverages = [coverage] ∧ (t.query coverage).mode.switch? = none ∧
      ((t.query coverage).subset = [] ∨ (t.query coverage).subset = t.subset) := by
  cases t <;> simp [query, subset, Mode.switch?]

theorem delimited_value {t : Template} (coverage : String) (h : ∀ s ∈ t.subset, s.Delimited) :
    (t.query coverage).value.Delimited := by
  have hiterator : Expression.ofIterator.Delimited := by decide
  cases t with
  | basicQuery => trivial
  | countBelow s x => exact delimited_threshold (by decide) x
  | countAbove s x => exact delimited_threshold (by decide) x
  | celsiusToKelvin s => exact (by decide : Accepted "$c + 273.15")
  | colorMap s =>
    exact accepted_iff.2
      (Switch.balanced_render (delimited_temperatureClasses (accepted_cellText h)))
  | gradientImage size =>
    exact accepted_iff.2 (Constructor.balanced_render (delimited_gradient size))
  | _ => exact hiterator

theorem delimited_query {t : Template} {coverage : String} (hc : Accepted coverage)
    (h : ∀ s ∈ t.subset, s.Delimited) : (t.query coverage).Delimited := by
  obtain ⟨hcoverages, hmode, hsubset⟩ := t.query_shape coverage
  refine ⟨?_, ?_, delimited_value coverage h, ?_⟩
  · rw [hcoverages]
    intro name hname
    rw [List.mem_singleton.1 hname]
    exact hc
  · rcases hsubset with hsubset | hsubset
    · rw [hsubset]
      exact fun _ hs => absurd hs (by simp)
    · rw [hsubset]
      exact h
  · rw [hmode]
    exact fun _ hs => absurd hs (by simp)

theorem exists_render (t : Template) (coverage : String) :
    ∃ text, (t.query coverage).render = .ok text := by
  obtain ⟨hcoverages, _, _⟩ := t.query_shape coverage
  rw [Query.render_eq, hcoverages]
  exact ⟨_, rfl⟩

end Template
end CoverageQuery
