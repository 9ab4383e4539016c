import CoverageQuery.Client.Exchange
import CoverageQuery.Proofs.Text.Boundary

/-!
# Bodies of errors

An answer that reports no success is an error with the longest beginning of its text that takes at
most 2048 bytes. The text is the body with each fault replaced, and it is cut only where a character
begins, so at most three bytes stay unused.
-/
namespace CoverageQuery.Reply

open Utf8

def lenientText (status : Nat) (body : Bytes) : List Char :=
  decodeLenient (if isBodiless status then [] else body)

theorem outcome_of_failure {status : Nat} (h : isSuccess status = false) (limits : Limits)
    (contentType : Option String) (body : Bytes) : (answer status contentType body).outcome limits =
      .error (.status status (String.ofList (takeBytes bodyLimit (lenientText status body)))) := by
  simp only [outcome, answered, h, Bool.false_eq_true, if_false]
  rfl

/-- The body of an error is the longest beginning of the text of the answer within 2048 bytes. It is
the whole text if that fits; otherwise the character after it does not fit, and the search for a
place to cut ends at it, without going below the start. -/
theorem outcome_keeps_longest {status : Nat} (h : isSuccess status = false) (limits : Limits)
    (contentType : Option String) (body : Bytes) : ∃ kept : List Char,
      (answer status contentType body).outcome limits = .error (.status status (String.ofList kept)) ∧
      LongestWithin 2048 (lenientText status body) kept ∧
      ((encode (lenientText status body)).length ≤ 2048 → kept = lenientText status body) ∧
      (2048 < (encode (lenientText status body)).length →
        2045 ≤ (encode kept).length ∧
        (∃ c rest, lenientText status body = kept ++ c :: rest ∧
          2048 < (encode (kept ++ [c])).length) ∧
        boundaryFrom (encode (lenientText status body)) 2048 = some (encode kept).length ∧
        isBoundary (encode (lenientText status body)) (encode kept).length = true) ∧
      truncate? 2048 (encode (lenientText status body)) = some (encode kept) := by
  refine ⟨takeBytes 2048 (lenientText status body), outcome_of_failure h limits contentType body,
    longestWithin_takeBytes 2048 _, fun hfits => ?_, fun hlong => ?_, truncate?_encode 2048 _⟩
  · rw [length_encode] at hfits
    exact takeBytes_of_size_le hfits
  · rw [length_encode] at hlong
    obtain ⟨hfrom, c, rest, htext, hnext⟩ := boundaryFrom_limit hlong
    have hc := c.utf8Size_le_four
    have hsize : size [c] = c.utf8Size := rfl
    refine ⟨?_, ⟨c, rest, htext, ?_⟩, ?_, ?_⟩
    · rw [length_encode]
      omega
    · rw [encode_append, List.length_append, length_encode, length_encode, hsize]
      exact hnext
    · rw [length_encode]
      exact hfrom
    · rw [length_encode]
      exact isBoundary_encode_iff.2 ⟨_, takeBytes_beginning 2048 _, rfl⟩

def faultyBody : Bytes := List.replicate 700 0xFF

theorem outcome_keeps_longest_example : isSuccess 503 = false ∧
    (encode (lenientText 503 faultyBody)).length = 2100 ∧
    (answer 503 none faultyBody).outcome ⟨0, 0⟩ =
      .error (.status 503 (String.ofList (List.replicate 682 replacement))) ∧
    boundaryFrom (encode (lenientText 503 faultyBody)) 2048 = some 2046 := by
  have hfailure : isSuccess 503 = false := by decide
  have hlength : (encode (lenientText 503 faultyBody)).length = 2100 := by decide +kernel
  obtain ⟨kept, houtcome, _, _, hlong, _⟩ := outcome_keeps_longest hfailure ⟨0, 0⟩ none faultyBody
  obtain ⟨_, _, hfrom, _⟩ := hlong (by rw [hlength]; decide)
  have hreport := outcome_of_failure hfailure ⟨0, 0⟩ none faultyBody
  have hlongest : takeBytes bodyLimit (lenientText 503 faultyBody) =
      List.replicate 682 replacement := by
    decide +kernel
  rw [hlongest] at hreport
  have hkept : kept = List.replicate 682 replacement := by
    rw [houtcome] at hreport
    exact String.ofList_injective (ClientError.status.inj (Except.error.inj hreport)).2
  rw [hkept] at hfrom
  exact ⟨hfailure, hlength, hreport, hfrom.trans (by decide +kernel)⟩

end CoverageQuery.Reply
