import CoverageQuery.Proofs.Json.Scalar

/-!
# How the characters of a string are written

A character of a JSON string is written as itself, as a letter behind a backslash, as its code in four
hexadecimal digits or, beyond what four digits can say, as the codes of a pair of surrogates. However
they are written, the characters of a string are read as the string.
-/
namespace CoverageQuery.Json

open Document

structure HexCode (digits : List Char) (n : Nat) : Prop where
  length_eq : digits.length = 4
  reads : Digits.readBase? 16 digits = some n

inductive Characters : List Char → List Char → Prop
  | nil : Characters [] []
  | plain {c : Char} {cs s : List Char} (hquote : c ≠ '"') (hslash : c ≠ '\\')
      (hcontrol : 32 ≤ c.toNat) (h : Characters cs s) : Characters (c :: cs) (c :: s)
  | letter {e c : Char} {cs s : List Char} (he : escaped? e = some c) (h : Characters cs s) :
      Characters ('\\' :: e :: cs) (c :: s)
  | code {digits cs s : List Char} {c : Char} (hc : HexCode digits c.toNat)
      (h : Characters cs s) : Characters ('\\' :: 'u' :: (digits ++ cs)) (c :: s)
  | pair {digits digits' cs s : List Char} {c : Char} {high low : Nat}
      (hhigh : HexCode digits (0xD800 + high)) (hlow : HexCode digits' (0xDC00 + low))
      (hhigh_lt : high < 0x400) (hlow_lt : low < 0x400)
      (hc : c.toNat = 0x10000 + high * 0x400 + low) (h : Characters cs s) :
      Characters ('\\' :: 'u' :: (digits ++ '\\' :: 'u' :: (digits' ++ cs))) (c :: s)

theorem Characters.of_plain {cs : List Char}
    (h : cs.all (fun c => c ≠ '"' ∧ c ≠ '\\' ∧ 32 ≤ c.toNat) = true) : Characters cs cs := by
  induction cs with
  | nil => exact .nil
  | cons c cs ih =>
    rw [List.all_cons, Bool.and_eq_true, decide_eq_true_eq] at h
    obtain ⟨⟨hquote, hslash, hcontrol⟩, hcs⟩ := h
    exact .plain hquote hslash hcontrol (ih hcs)

theorem stringPieces_letter {e c : Char} (he : escaped? e = some c) (rest : List Char) :
    stringPieces ('\\' :: e :: rest) =
      (stringPieces rest).map fun (pieces, after) => (.char c :: pieces, after) := by
  unfold escaped? at he
  split at he
  all_goals first
    | contradiction
    | obtain rfl := Option.some.inj he
      simp [stringPieces, escaped?]

theorem stringPieces_code {digits : List Char} {n : Nat} (h : HexCode digits n)
    (rest : List Char) : stringPieces ('\\' :: 'u' :: (digits ++ rest)) =
      (stringPieces rest).map fun (pieces, after) => (.code n :: pieces, after) := by
  obtain ⟨hlength, hreads⟩ := h
  match digits, hlength with
  | [a, b, c, d], _ => simp only [List.cons_append, List.nil_append, stringPieces, hreads]

theorem assemble_code {n : Nat} (h : n < 0xD800 ∨ 0xE000 ≤ n) (pieces : List Piece) :
    assemble (.code n :: pieces) = (assemble pieces).map (Char.ofNat n :: ·) := by
  have hany : ¬(0xD800 ≤ n ∧ n < 0xE000) := by omega
  have hhigh : ¬(0xD800 ≤ n ∧ n < 0xDC00) := by omega
  have hlow : ¬(0xDC00 ≤ n ∧ n < 0xE000) := by omega
  cases pieces with
  | nil => simp only [assemble, if_neg hany, Option.map_some]
  | cons piece pieces => simp only [assemble, if_neg hhigh, if_neg hlow]

theorem assemble_pair {high low : Nat} (hhigh : high < 0x400) (hlow : low < 0x400)
    (pieces : List Piece) : assemble (.code (0xD800 + high) :: .code (0xDC00 + low) :: pieces) =
      (assemble pieces).map (Char.ofNat (0x10000 + high * 0x400 + low) :: ·) := by
  rw [assemble, if_pos (by omega)]
  simp only [Nat.add_sub_cancel_left]
  rw [if_pos (by omega)]

theorem Characters.exists_pieces {cs s : List Char} (h : Characters cs s) :
    ∃ pieces, (∀ rest, stringPieces (cs ++ '"' :: rest) = .ok (pieces, rest)) ∧
      assemble pieces = some s := by
  induction h with
  | nil => exact ⟨[], fun _ => rfl, rfl⟩
  | @plain c cs s hquote hslash hcontrol _ ih =>
    obtain ⟨pieces, hread, hassemble⟩ := ih
    refine ⟨.char c :: pieces, fun rest => ?_, ?_⟩
    · rw [List.cons_append, stringPieces_plain hquote hslash (Nat.not_lt.2 hcontrol), hread]
      rfl
    · rw [assemble, hassemble]
      rfl
  | @letter e c cs s he _ ih =>
    obtain ⟨pieces, hread, hassemble⟩ := ih
    refine ⟨.char c :: pieces, fun rest => ?_, ?_⟩
    · rw [List.cons_append, List.cons_append, stringPieces_letter he, hread]
      rfl
    · rw [assemble, hassemble]
      rfl
  | @code digits cs s c hc _ ih =>
    obtain ⟨pieces, hread, hassemble⟩ := ih
    refine ⟨.code c.toNat :: pieces, fun rest => ?_, ?_⟩
    · rw [List.cons_append, List.cons_append, List.append_assoc, stringPieces_code hc, hread]
      rfl
    · have hscalar : c.toNat < 0xD800 ∨ 0xE000 ≤ c.toNat := by
        rcases c.valid with hlow | hhigh
        · exact .inl hlow
        · exact .inr hhigh.1
      rw [assemble_code hscalar, hassemble, Char.ofNat_toNat]
      rfl
  | @pair digits digits' cs s c high low hhigh hlow hhigh_lt hlow_lt hc _ ih =>
    obtain ⟨pieces, hread, hassemble⟩ := ih
    refine ⟨.code (0xD800 + high) :: .code (0xDC00 + low) :: pieces, fun rest => ?_, ?_⟩
    · simp only [List.cons_append, List.append_assoc, stringPieces_code hhigh,
        stringPieces_code hlow, hread]
      rfl
    · rw [assemble_pair hhigh_lt hlow_lt, hassemble, ← hc, Char.ofNat_toNat]
      rfl

theorem Characters.readString {cs : List Char} {s : String} (h : Characters cs s.toList)
    (rest : List Char) :
    Json.readString (cs ++ '"' :: rest) = (.scalar (.text s) none none, some rest) := by
  obtain ⟨pieces, hread, hassemble⟩ := h.exists_pieces
  simp only [Json.readString, hread, hassemble, String.ofList_toList]

end CoverageQuery.Json
