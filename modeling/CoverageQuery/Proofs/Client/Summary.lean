import CoverageQuery.Proofs.Client.Decoding
import CoverageQuery.Proofs.Text.Cut
import CoverageQuery.Proofs.Text.Utf8

/-!
# Summaries of numbers are read back

The summary of a list of numbers is the list of their texts with commas between them. The text of a
finite number is a decimal text, so the summary lists the numbers and is decoded as them again, each
as it was and in order; the words for the other numbers have letters that no list of numbers holds.
-/
namespace CoverageQuery

theorem NumberLayout.isNumeral_of_mem_text {l : NumberLayout} {x : Binary64}
    (hx : x.isFinite = true) {c : Char} (h : c ∈ l.text x) : Decoded.isNumeral c = true := by
  cases x with
  | nan => exact Bool.noConfusion hx
  | infinite negative => exact Bool.noConfusion hx
  | finite negative x =>
    refine decide_eq_true ?_
    rcases List.mem_append.1 h with h | h
    · cases negative with
      | false => exact absurd h (by simp [signText])
      | true =>
        obtain rfl := List.mem_singleton.1 h
        simp
    · rw [magnitudeText_eq] at h
      rcases Spelling.mem_text (l.spelling_wellFormed x) h with h | h
      · exact .inl h
      · simp only [List.mem_cons, List.not_mem_nil, or_false] at h
        tauto

theorem NumberLayout.exists_decimalText (l : NumberLayout) {x : Binary64} (hx : x.isFinite = true) :
    ∃ n : DecimalText, n.text = l.text x ∧ n.value = x :=
  Decoded.exists_of_read? (fun _ => isNumeral_of_mem_text hx) (l.read?_text x)

theorem NumberLayout.exists_letter {l : NumberLayout} {x : Binary64} (hx : x.isFinite = false) :
    ∃ c ∈ l.text x, c.isAlpha = true ∧ c ≠ 'e' ∧ c ≠ 'E' := by
  cases x with
  | nan => exact ⟨'N', by simp [text], by decide, by decide, by decide⟩
  | infinite negative => exact ⟨'i', by simp [text], by decide, by decide, by decide⟩
  | finite negative x => exact Bool.noConfusion hx

theorem NumberLayout.text_ne_nil (l : NumberLayout) (x : Binary64) : l.text x ≠ [] := by
  intro h
  have hread := l.read?_text x
  rw [h] at hread
  exact absurd hread (by simp [show Binary64.read? [] = none by decide])

namespace Decoded

def summaryText (values : List Binary64) : List Char :=
  [','].intercalate (values.map NumberLayout.summary.text)

theorem toList_summary (values : List Binary64) :
    (Decoded.values values).summary.toList = summaryText values := by
  simp only [summary, String.toList_intercalate, List.map_map]
  congr 1
  exact List.map_congr_left fun x _ => String.toList_ofList

theorem summaryText_cons_cons (x y : Binary64) (values : List Binary64) :
    summaryText (x :: y :: values) =
      NumberLayout.summary.text x ++ ',' :: summaryText (y :: values) := by
  simp [summaryText, List.intercalate_cons_cons]

theorem mem_summaryText {values : List Binary64} {x : Binary64} (hx : x ∈ values) {c : Char}
    (hc : c ∈ NumberLayout.summary.text x) : c ∈ summaryText values := by
  induction values with
  | nil => exact absurd hx (by simp)
  | cons y values ih =>
    cases values with
    | nil =>
      obtain rfl := List.mem_singleton.1 hx
      simpa [summaryText] using hc
    | cons z values =>
      rw [summaryText_cons_cons]
      rcases List.mem_cons.1 hx with rfl | hx
      · exact List.mem_append_left _ hc
      · exact List.mem_append_right _ (List.mem_cons_of_mem _ (ih hx))

theorem summaryText_ne_nil {values : List Binary64} (h : values ≠ []) :
    summaryText values ≠ [] := by
  obtain ⟨x, rest, rfl⟩ := List.exists_cons_of_ne_nil h
  obtain ⟨c, cs, hc⟩ := List.exists_cons_of_ne_nil (NumberLayout.summary.text_ne_nil x)
  exact List.ne_nil_of_mem (mem_summaryText List.mem_cons_self (hc ▸ List.mem_cons_self))

theorem exists_lists_summaryText {values : List Binary64} (h : ∀ x ∈ values, x.isFinite = true) :
    ∃ numbers, Lists (summaryText values) numbers ∧ numbers.map DecimalText.value = values := by
  induction values with
  | nil => exact ⟨[], lists_nil, rfl⟩
  | cons x values ih =>
    obtain ⟨hx, hvalues⟩ := List.forall_mem_cons.1 h
    obtain ⟨n, htext, hvalue⟩ := NumberLayout.summary.exists_decimalText hx
    obtain ⟨numbers, hlists, hnumbers⟩ := ih hvalues
    refine ⟨n :: numbers, ?_, by rw [List.map_cons, hvalue, hnumbers]⟩
    cases values with
    | nil =>
      have hlast := lists_number n (by simp) lists_nil
      rw [List.map_eq_nil_iff.1 hnumbers]
      simpa [summaryText, htext] using hlast
    | cons y values =>
      rw [summaryText_cons_cons, ← htext]
      refine lists_number n (fun c hc => ?_) (lists_separator (by decide) hlists)
      obtain rfl := Option.some.inj hc
      decide

theorem numbers?_summaryText {values : List Binary64} (hne : values ≠ []) :
    numbers? (summaryText values) = some values ↔ ∀ x ∈ values, x.isFinite = true := by
  constructor
  · intro h x hx
    by_contra hfinite
    obtain ⟨numbers, hlists, _⟩ := numbers?_eq_some_iff.1 h
    obtain ⟨c, hc, halpha, hlower, hupper⟩ :=
      NumberLayout.exists_letter (l := .summary) (Bool.eq_false_of_not_eq_true hfinite)
    exact not_lists_of_isAlpha (mem_summaryText hx hc) halpha hlower hupper numbers hlists
  · intro h
    obtain ⟨numbers, hlists, rfl⟩ := exists_lists_summaryText h
    exact numbers?_of_lists hlists fun hnil => hne (by rw [hnil]; rfl)

end Decoded

namespace Payload

open Decoded

theorem decode_summary {values : List Binary64} (hne : values ≠ []) :
    (ofText (Decoded.values values).summary).decode = .ok (.ofText (summaryText values)) := by
  have hbody : (ofText (Decoded.values values).summary).body =
      Utf8.encode (summaryText values) := by
    rw [← toList_summary]
    rfl
  have hdecode := Utf8.decode_encode (summaryText values)
  have htype : announcesImage (some "text/plain") = false := by decide +kernel
  have hbytes : Utf8.encode (summaryText values) ≠ [] := by
    intro hnil
    rw [hnil] at hdecode
    exact summaryText_ne_nil hne (Except.ok.inj (hdecode.symm.trans (Utf8.decode_encode [])))
  exact decode_eq_ofText (hbody ▸ hdecode) (hbody ▸ hbytes) htype

/-- The summary of numbers is decoded as these numbers, in order, exactly when there are some and
all of them are finite. -/
theorem decode_summary_eq_values_iff (values : List Binary64) :
    (ofText (Decoded.values values).summary).decode = .ok (.values values) ↔
      values ≠ [] ∧ ∀ x ∈ values, x.isFinite = true := by
  cases values with
  | nil =>
    refine iff_of_false (fun h => ?_) fun h => h.1 rfl
    exact absurd (Except.ok.inj h) (by simp)
  | cons x values =>
    have hne : x :: values ≠ [] := List.cons_ne_nil x values
    rw [decode_summary hne, and_iff_right hne, ← numbers?_summaryText hne, Decoded.ofText]
    cases numbers? (summaryText (x :: values)) <;> simp

end Payload
end CoverageQuery
