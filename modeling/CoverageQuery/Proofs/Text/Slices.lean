import CoverageQuery.Proofs.Text.Boundary
import CoverageQuery.Proofs.Text.Pieces
import Mathlib.Algebra.Ring.Parity

/-!
# The pieces between separators

A text that is split outside quotes is cut into pieces of which three things are known: joined at
the separator they are the text again, all but the last hold an even number of quotes, and within a
piece an odd number of quotes stands before each separator. There is only one way to cut a text like
that. The scan that finds the pieces runs over the bytes of the text and remembers only places: where
the open piece begins and whether quotes are open. Each pair of places it hands out can be sliced
from the bytes, since both are boundaries, and the slice is the piece.
-/
namespace CoverageQuery

namespace Utf8

def slice? (bytes : Bytes) (start stop : Nat) : Option Bytes :=
  if start ≤ stop ∧ isBoundary bytes start ∧ isBoundary bytes stop then
    some ((bytes.take stop).drop start)
  else none

theorem size_append (a b : List Char) : size (a ++ b) = size a + size b := by
  simp only [← length_encode, encode_append, List.length_append]

theorem slice?_size (before piece rest : List Char) :
    slice? (encode (before ++ (piece ++ rest))) (size before) (size before + size piece) =
      some (encode piece) := by
  have hstart : isBoundary (encode (before ++ (piece ++ rest))) (size before) = true :=
    isBoundary_encode_iff.2 ⟨before, List.prefix_append before _, rfl⟩
  have hstop : isBoundary (encode (before ++ (piece ++ rest))) (size before + size piece) = true :=
    isBoundary_encode_iff.2 ⟨before ++ piece, ⟨rest, List.append_assoc _ _ _⟩, size_append _ _⟩
  rw [slice?, if_pos ⟨Nat.le_add_right _ _, hstart, hstop⟩, ← List.append_assoc, encode_append,
    ← size_append, ← length_encode (before ++ piece), List.take_left, encode_append,
    ← length_encode before, List.drop_left]

end Utf8

namespace Text

open Utf8 (encode size slice? slice?_size size_append)

/-- The places between which the pieces of a text stand. The open piece began at `start`, and the
next character stands at `place`. -/
def pieceRanges (separator : Char) : Bool → Nat → Nat → List Char → List (Nat × Nat)
  | _, start, place, [] => [(start, place)]
  | quoted, start, place, c :: cs =>
    let following := place + c.utf8Size
    if c = '"' then pieceRanges separator (!quoted) start following cs
    else if c = separator ∧ ¬ quoted then
      (start, place) :: pieceRanges separator quoted following following cs
    else pieceRanges separator quoted start following cs

/-- What is known of the pieces of a text: the ones that a separator closes, and the last. -/
structure QuoteCut (separator : Char) (cs : List Char) (closed : List (List Char))
    (last : List Char) : Prop where
  join : [separator].intercalate (closed ++ [last]) = cs
  even : ∀ piece ∈ closed, Even (piece.count '"')
  odd : ∀ piece ∈ closed ++ [last], ∀ before after, piece = before ++ separator :: after →
    Odd (before.count '"')

/-- Behind what was passed, and with a part of the open piece read, the places that are still found
enclose the pieces that are still found. -/
theorem map_slice?_pieceRanges (separator : Char) (quoted : Bool) (before piece rest : List Char) :
    (pieceRanges separator quoted (size before) (size before + size piece) rest).map
        (fun range => slice? (encode (before ++ (piece ++ rest))) range.1 range.2) =
      ((piece ++ (splitQuoted separator quoted rest).1) ::
        (splitQuoted separator quoted rest).2).map (some ∘ encode) := by
  induction rest generalizing quoted before piece with
  | nil => simp [pieceRanges, splitQuoted, ← slice?_size before piece []]
  | cons c rest ih =>
    -- The character joins the open piece, or it closes it and is passed together with it.
    have hjoined := ih quoted before (piece ++ [c])
    have hquote := ih (!quoted) before (piece ++ [c])
    have hclosed := ih quoted (before ++ (piece ++ [c])) []
    have hpiece := slice?_size before piece (c :: rest)
    simp only [size_append, size, Nat.add_zero, ← Nat.add_assoc, List.append_assoc,
      List.singleton_append, List.nil_append] at hjoined hquote hclosed
    rw [pieceRanges, splitQuoted]
    split
    · exact hquote
    · split
      · rw [List.map_cons, hpiece, hclosed]
        simp
      · exact hjoined

theorem even_count_of_splitQuoted (separator : Char) (quoted : Bool) (cs : List Char) :
    ((splitQuoted separator quoted cs).2 ≠ [] →
      Even ((splitQuoted separator quoted cs).1.count '"' + quoted.toNat)) ∧
    ∀ piece ∈ (splitQuoted separator quoted cs).2.dropLast, Even (piece.count '"') := by
  fun_induction splitQuoted separator quoted cs with
  | case1 => simp
  | case2 quoted cs first others hrest ih =>
    rw [hrest] at ih
    refine ⟨fun hne => ?_, ih.2⟩
    have heven := ih.1 hne
    rw [Nat.even_iff] at heven ⊢
    rw [List.count_cons_self]
    cases quoted <;> simp at heven ⊢ <;> omega
  | case3 quoted c cs hquote hcut first others hrest ih =>
    rw [hrest] at ih
    have hclosed : quoted = false := by simpa using hcut.2
    refine ⟨fun _ => by simp [hclosed], fun piece hpiece => ?_⟩
    cases others with
    | nil => simp at hpiece
    | cons second others =>
      rcases List.mem_cons.1 hpiece with rfl | hpiece
      · simpa [hclosed] using ih.1
      · exact ih.2 piece hpiece
  | case4 quoted c cs hquote hcut first others hrest ih =>
    rw [hrest] at ih
    exact ⟨fun hne => by simpa [List.count_cons, hquote] using ih.1 hne, ih.2⟩

theorem quoteCut_splitOutsideQuotes {separator : Char} (hs : separator ≠ '"') (cs : List Char) :
    ∃ closed last, splitOutsideQuotes separator cs = closed ++ [last] ∧
      QuoteCut separator cs closed last := by
  have hsplit := List.dropLast_concat_getLast (splitOutsideQuotes_ne_nil separator cs)
  refine ⟨_, _, hsplit.symm, ?_, ?_, ?_⟩
  · rw [hsplit]
    exact intercalate_splitOutsideQuotes separator cs
  · intro piece hpiece
    obtain ⟨hfirst, hothers⟩ := even_count_of_splitQuoted separator false cs
    change piece ∈ ((splitQuoted separator false cs).1 ::
      (splitQuoted separator false cs).2).dropLast at hpiece
    cases hrest : (splitQuoted separator false cs).2 with
    | nil => simp [hrest] at hpiece
    | cons second others =>
      rw [hrest] at hpiece hfirst hothers
      rcases List.mem_cons.1 hpiece with rfl | hpiece
      · exact hfirst (List.cons_ne_nil _ _)
      · exact hothers piece hpiece
  · rw [hsplit]
    intro piece hpiece before after heq
    obtain ⟨hfirst, hothers⟩ := odd_count_of_splitQuoted hs false cs
    rcases List.mem_cons.1 hpiece with rfl | hpiece
    · exact Nat.odd_iff.2 (hfirst before after heq)
    · exact Nat.odd_iff.2 (hothers piece hpiece before after heq)

theorem QuoteCut.tail {separator : Char} {cs piece last : List Char} {closed : List (List Char)}
    (h : QuoteCut separator cs (piece :: closed) last) :
    ∃ rest, cs = piece ++ separator :: rest ∧ QuoteCut separator rest closed last := by
  have hne : closed ++ [last] ≠ [] := by simp
  refine ⟨[separator].intercalate (closed ++ [last]), ?_, rfl, ?_, ?_⟩
  · rw [← h.join, List.cons_append, List.intercalate_cons_of_ne_nil hne, List.append_assoc,
      List.singleton_append]
  · exact fun piece hpiece => h.even piece (List.mem_cons_of_mem _ hpiece)
  · exact fun piece hpiece => h.odd piece (List.mem_cons_of_mem _ hpiece)

theorem QuoteCut.ne_append_of_even {separator : Char} {cs last piece : List Char}
    (h : QuoteCut separator cs [] last) (heven : Even (piece.count '"')) (rest : List Char) :
    cs ≠ piece ++ separator :: rest := by
  intro hcs
  have hlast : last = cs := List.intercalate_singleton.symm.trans h.join
  have hodd := h.odd last (by simp) piece rest (hlast.trans hcs)
  exact Nat.not_even_iff_odd.2 hodd heven

theorem prefix_of_even {separator : Char} {piece other : List Char}
    (hodd : ∀ before after, piece = before ++ separator :: after → Odd (before.count '"'))
    (heven : Even (other.count '"')) {x y : List Char}
    (h : piece ++ y = other ++ separator :: x) : piece <+: other := by
  rcases List.append_eq_append_iff.1 h with ⟨rest, hother, _⟩ | ⟨rest, hpiece, hrest⟩
  · exact ⟨rest, hother.symm⟩
  · cases rest with
    | nil => exact ⟨[], by simp [hpiece]⟩
    | cons c rest =>
      obtain ⟨rfl, _⟩ := List.cons.inj hrest
      exact absurd heven (Nat.not_even_iff_odd.2 (hodd other rest hpiece))

theorem QuoteCut.unique {separator : Char} {cs last last' : List Char}
    {closed closed' : List (List Char)} (h : QuoteCut separator cs closed last)
    (h' : QuoteCut separator cs closed' last') : closed = closed' ∧ last = last' := by
  induction closed generalizing cs closed' with
  | nil =>
    cases closed' with
    | nil => exact ⟨rfl, by simpa using h.join.trans h'.join.symm⟩
    | cons piece' closed' =>
      obtain ⟨rest', hcs, _⟩ := h'.tail
      exact absurd hcs (h.ne_append_of_even (h'.even piece' List.mem_cons_self) rest')
  | cons piece closed ih =>
    obtain ⟨rest, hcs, htail⟩ := h.tail
    have heven := h.even piece List.mem_cons_self
    cases closed' with
    | nil => exact absurd hcs (h'.ne_append_of_even heven rest)
    | cons piece' closed' =>
      obtain ⟨rest', hcs', htail'⟩ := h'.tail
      have heven' := h'.even piece' List.mem_cons_self
      have heq := hcs.symm.trans hcs'
      have hle := prefix_of_even (h.odd piece (by simp)) heven' heq
      have hge := prefix_of_even (h'.odd piece' (by simp)) heven heq.symm
      obtain rfl : piece = piece' := hle.eq_of_length_le hge.length_le
      obtain rfl : rest = rest' := by simpa using heq
      obtain ⟨rfl, rfl⟩ := ih htail htail'
      exact ⟨rfl, rfl⟩

/-- The pieces of a text are the only ones that it can be cut into, and the places that the scan
finds slice them from its bytes. -/
theorem splitOutsideQuotes_lossless {separator : Char} (hs : separator ≠ '"') (cs : List Char) :
    (∃ closed last, splitOutsideQuotes separator cs = closed ++ [last] ∧
      QuoteCut separator cs closed last ∧
      ∀ closed' last', QuoteCut separator cs closed' last' → closed' = closed ∧ last' = last) ∧
    (pieceRanges separator false 0 0 cs).map
        (fun range => slice? (encode cs) range.1 range.2) =
      (splitOutsideQuotes separator cs).map (some ∘ encode) := by
  obtain ⟨closed, last, hsplit, hcut⟩ := quoteCut_splitOutsideQuotes hs cs
  refine ⟨⟨closed, last, hsplit, hcut, fun _ _ h => h.unique hcut⟩, ?_⟩
  exact map_slice?_pieceRanges separator false [] [] cs

theorem splitOutsideQuotes_lossless_example :
    let cs := "é:\"a:b\"::\"ö:".toList
    ':' ≠ '"' ∧ splitOutsideQuotes ':' cs =
      ["é".toList, "\"a:b\"".toList, [], "\"ö:".toList] ∧
    (∀ closed last, QuoteCut ':' cs closed last →
      closed ++ [last] = splitOutsideQuotes ':' cs) ∧
    pieceRanges ':' false 0 0 cs = [(0, 2), (3, 8), (9, 9), (10, 14)] ∧
    [slice? (encode cs) 0 2, slice? (encode cs) 3 8, slice? (encode cs) 9 9,
        slice? (encode cs) 10 14] =
      [some (encode "é".toList), some (encode "\"a:b\"".toList), some [],
        some (encode "\"ö:".toList)] := by
  intro cs
  have hs : ':' ≠ '"' := by decide
  have hsplit : splitOutsideQuotes ':' cs =
      ["é".toList, "\"a:b\"".toList, [], "\"ö:".toList] := by decide +kernel
  have hranges : pieceRanges ':' false 0 0 cs = [(0, 2), (3, 8), (9, 9), (10, 14)] := by
    decide +kernel
  obtain ⟨⟨closed, last, heq, _, hunique⟩, hslices⟩ := splitOutsideQuotes_lossless hs cs
  refine ⟨hs, hsplit, fun closed' last' hcut => ?_, hranges, ?_⟩
  · obtain ⟨rfl, rfl⟩ := hunique closed' last' hcut
    exact heq.symm
  · rw [hranges, hsplit] at hslices
    exact hslices

end Text

end CoverageQuery
