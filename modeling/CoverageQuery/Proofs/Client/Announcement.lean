import CoverageQuery.Client.Payload
import CoverageQuery.Proofs.Outcome
import CoverageQuery.Proofs.Text.Validity

/-!
# What the content type decides

An answer is an image if its content type announces one or its bytes are no text, so the content type
matters only where the bytes are those of a text, and an empty answer is the empty text in any case.
Two answers with the same bytes are decoded alike but for texts that just one of them announces as an
image: as an image a text either fails or carries bytes, while as a text it never fails.
-/
namespace CoverageQuery

open Utf8 (Bytes encode)

namespace Decoded

theorem ofImage_eq_ok {bytes : Bytes} {d : Decoded} (h : ofImage bytes = .ok d) :
    ∃ format size, d = .image format size bytes := by
  unfold ofImage at h
  split at h
  · exact absurd h (by simp)
  · rename_i format _
    split at h
    · rename_i size _
      exact ⟨format, size, (Except.ok.inj h).symm⟩
    · exact absurd h (by simp)

theorem ofText_cases (cs : List Char) :
    (∃ numbers, ofText cs = .values numbers) ∨ ofText cs = .text cs := by
  unfold ofText
  split
  · exact .inl ⟨_, rfl⟩
  · exact .inr rfl

theorem ofText_ne_image (cs : List Char) (format : Image.Format) (size : Image.Size)
    (bytes : Bytes) : ofText cs ≠ .image format size bytes := by
  rcases ofText_cases cs with ⟨numbers, h⟩ | h <;> simp [h]

end Decoded

namespace Payload

/-- A content type that begins like those of images, but for blanks and the case of letters. -/
def Announced (contentType : Option String) : Prop :=
  ∃ type ∈ contentType, "image/".toList <+: Text.lower (Text.trim type.toList)

theorem announcesImage_iff {contentType : Option String} :
    announcesImage contentType = true ↔ Announced contentType := by
  rw [announcesImage, Announced, Option.any_eq_true]
  simp only [List.isPrefixOf_iff_prefix, Option.mem_def]

instance : DecidablePred Announced := fun _ => decidable_of_iff _ announcesImage_iff

def IsText (body : Bytes) : Prop := ∃ cs, encode cs = body

theorem not_isText_iff {body : Bytes} : ¬ IsText body ↔ Utf8.decode? body = none := by
  simp [IsText, ← Utf8.decode?_eq_some_iff, Option.eq_none_iff_forall_ne_some]

theorem decode_of_text {contentType : Option String} {cs : List Char}
    (h : ¬ Announced contentType) : decode ⟨contentType, encode cs⟩ = .ok (.ofText cs) := by
  rw [← announcesImage_iff] at h
  cases cs with
  | nil => rfl
  | cons c cs =>
    have hne : encode (c :: cs) ≠ encode [] := fun heq =>
      List.cons_ne_nil c cs (Utf8.encode_injective heq)
    have hempty : isEmpty ⟨contentType, encode (c :: cs)⟩ = false :=
      List.isEmpty_eq_false_iff.2 hne
    simp only [decode, hempty, h, Utf8.decode?_encode, Bool.false_eq_true, if_false]

theorem decode_of_image {contentType : Option String} {body : Bytes} (hne : body ≠ [])
    (h : Announced contentType ∨ ¬ IsText body) : decode ⟨contentType, body⟩ =
      (Decoded.ofImage body).mapError ClientError.nondecodable := by
  have hempty : isEmpty ⟨contentType, body⟩ = false := List.isEmpty_eq_false_iff.2 hne
  simp only [decode, hempty, Bool.false_eq_true, if_false]
  split
  · rfl
  · rename_i htype
    rw [announcesImage_iff] at htype
    rw [not_isText_iff.1 (h.resolve_left htype)]

theorem decode_cases (contentType : Option String) (body : Bytes) :
    ((body ≠ [] ∧ (Announced contentType ∨ ¬ IsText body)) ∧
      decode ⟨contentType, body⟩ = (Decoded.ofImage body).mapError ClientError.nondecodable) ∨
    (¬ (body ≠ [] ∧ (Announced contentType ∨ ¬ IsText body)) ∧
      ∃ cs, encode cs = body ∧ decode ⟨contentType, body⟩ = .ok (.ofText cs)) := by
  by_cases himage : body ≠ [] ∧ (Announced contentType ∨ ¬ IsText body)
  · exact .inl ⟨himage, decode_of_image himage.1 himage.2⟩
  · refine .inr ⟨himage, ?_⟩
    by_cases hne : body = []
    · exact ⟨[], by rw [hne]; rfl, by rw [hne]; rfl⟩
    · obtain ⟨htype, htext⟩ := not_or.1 fun h => himage ⟨hne, h⟩
      obtain ⟨cs, rfl⟩ := not_not.1 htext
      exact ⟨cs, rfl, decode_of_text htype⟩

theorem decode_eq_error_iff {contentType : Option String} {body : Bytes} {cause : ClientError} :
    decode ⟨contentType, body⟩ = .error cause ↔
      body ≠ [] ∧ (Announced contentType ∨ ¬ IsText body) ∧
        ∃ fault, Decoded.ofImage body = .error fault ∧ cause = .nondecodable fault := by
  rw [← and_assoc]
  rcases decode_cases contentType body with ⟨himage, hdecode⟩ | ⟨htext, cs, _, hdecode⟩
  · rw [hdecode, Outcome.mapError_eq_error]
    exact ⟨fun h => ⟨himage, h⟩, fun h => h.2⟩
  · rw [hdecode]
    exact ⟨fun h => absurd h (by simp), fun h => absurd h.1 htext⟩

theorem content_of_decode {contentType : Option String} {body content : Bytes}
    {format : Image.Format} {size : Image.Size}
    (h : decode ⟨contentType, body⟩ = .ok (.image format size content)) : content = body := by
  rcases decode_cases contentType body with ⟨_, hdecode⟩ | ⟨_, cs, _, hdecode⟩
  · rw [hdecode] at h
    obtain ⟨format', size', himage⟩ := Decoded.ofImage_eq_ok (Outcome.mapError_eq_ok.1 h)
    exact (Decoded.image.inj himage).2.2
  · rw [hdecode] at h
    exact absurd (Except.ok.inj h) (Decoded.ofText_ne_image cs format size content)

theorem decode_ne_of_announced {a b : Option String} {cs : List Char} (hne : encode cs ≠ [])
    (ha : Announced a) (hb : ¬ Announced b) :
    decode ⟨a, encode cs⟩ ≠ decode ⟨b, encode cs⟩ := by
  rw [decode_of_text hb, decode_of_image hne (.inl ha)]
  intro h
  obtain ⟨format, size, himage⟩ := Decoded.ofImage_eq_ok (Outcome.mapError_eq_ok.1 h)
  exact Decoded.ofText_ne_image cs format size _ himage

theorem decode_congr {a b : Option String} {body : Bytes}
    (h : body ≠ [] → IsText body → (Announced a ↔ Announced b)) :
    decode ⟨a, body⟩ = decode ⟨b, body⟩ := by
  by_cases hne : body = []
  · rw [hne]
    rfl
  · by_cases htext : IsText body
    · have hsame := h hne htext
      by_cases ha : Announced a
      · rw [decode_of_image hne (.inl ha), decode_of_image hne (.inl (hsame.1 ha))]
      · obtain ⟨cs, rfl⟩ := htext
        rw [decode_of_text ha, decode_of_text fun hb => ha (hsame.2 hb)]
    · rw [decode_of_image hne (.inr htext), decode_of_image hne (.inr htext)]

/-- The content type matters only for texts that it may announce as images. Decoding fails exactly where
the reader of images is asked and refuses the bytes; other texts are never refused, and an image is made
of the very bytes that were received. -/
theorem decode_alike_iff (body : Bytes) (a b : Option String) :
    (decode ⟨a, body⟩ = decode ⟨b, body⟩ ↔
      ¬ (body ≠ [] ∧ IsText body ∧ ¬ (Announced a ↔ Announced b))) ∧
    (∀ cause, decode ⟨a, body⟩ = .error cause ↔ body ≠ [] ∧ (Announced a ∨ ¬ IsText body) ∧
      ∃ fault, Decoded.ofImage body = .error fault ∧ cause = .nondecodable fault) ∧
    (∀ cs, encode cs = body → ¬ Announced a →
      (∃ numbers, decode ⟨a, body⟩ = .ok (.values numbers)) ∨ decode ⟨a, body⟩ = .ok (.text cs)) ∧
    ∀ format size content, decode ⟨a, body⟩ = .ok (.image format size content) →
      content = body := by
  refine ⟨⟨?_, fun h => ?_⟩, fun _ => decode_eq_error_iff, ?_, fun _ _ _ => content_of_decode⟩
  · rintro h ⟨hne, ⟨cs, rfl⟩, hdiffer⟩
    by_cases ha : Announced a
    · have hb : ¬ Announced b := fun hb => hdiffer ⟨fun _ => hb, fun _ => ha⟩
      exact decode_ne_of_announced hne ha hb h
    · have hb : Announced b := by
        by_contra hb
        exact hdiffer ⟨fun h => absurd h ha, fun h => absurd h hb⟩
      exact decode_ne_of_announced hne hb ha h.symm
  · refine decode_congr fun hne htext => ?_
    by_contra hdiffer
    exact h ⟨hne, htext, hdiffer⟩
  · rintro cs rfl ha
    rw [decode_of_text ha]
    rcases Decoded.ofText_cases cs with ⟨numbers, h⟩ | h
    · exact .inl ⟨numbers, congrArg _ h⟩
    · exact .inr (congrArg _ h)

theorem decode_alike_iff_example :
    let announced := some "\tIMAGE/PNG"
    let bitmap := encode "P1 3 2\n".toList
    decode ⟨announced, bitmap⟩ = .ok (.image .pnm ⟨3, 2⟩ bitmap) ∧
    decode ⟨none, bitmap⟩ = .ok (.text "P1 3 2\n".toList) ∧
    decode ⟨announced, bitmap⟩ ≠ decode ⟨none, bitmap⟩ ∧
    decode ⟨announced, encode "1, 2".toList⟩ = .error (.nondecodable .unknownFormat) ∧
    decode ⟨announced, [0xFF]⟩ = decode ⟨none, [0xFF]⟩ ∧
    decode ⟨announced, []⟩ = decode ⟨none, []⟩ := by
  intro announced bitmap
  have htype : Announced announced := by decide +kernel
  have hnone : ¬ Announced none := by decide +kernel
  have hbitmap : bitmap ≠ [] := by decide +kernel
  have hbytes : ¬ IsText [0xFF] := not_isText_iff.2 (by decide +kernel)
  have himage : decode ⟨announced, bitmap⟩ = .ok (.image .pnm ⟨3, 2⟩ bitmap) := by decide +kernel
  have htext : decode ⟨none, bitmap⟩ = .ok (.text "P1 3 2\n".toList) := by decide +kernel
  have hrefused : Decoded.ofImage (encode "1, 2".toList) = .error .unknownFormat := by
    decide +kernel
  refine ⟨himage, htext, fun hsame => ?_, ?_, ?_, ?_⟩
  · exact (decode_alike_iff bitmap announced none).1.1 hsame
      ⟨hbitmap, ⟨_, rfl⟩, fun hiff => hnone (hiff.1 htype)⟩
  · exact ((decode_alike_iff (encode "1, 2".toList) announced none).2.1 _).2
      ⟨by decide +kernel, .inl htype, _, hrefused, rfl⟩
  · exact (decode_alike_iff [0xFF] announced none).1.2 fun h => hbytes h.2.1
  · exact (decode_alike_iff [] announced none).1.2 fun h => h.1 rfl

end Payload
end CoverageQuery
