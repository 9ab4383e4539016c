import CoverageQuery.Proofs.Text.Utf8
import Mathlib.Data.List.Infix

/-!
# Cutting a text at a character

The bytes of a text can be cut where a character begins and at their end: these places are the sizes
of the beginnings of the text. Whoever looks for such a place from a limit downwards finds, at most
three bytes below, the size of the longest beginning within the limit, and never goes below the
start. Cut there, the bytes are those of that beginning.
-/
namespace CoverageQuery.Utf8

/-- Whether bytes of a text may be cut at a place: at their start, at their end, and before every
byte that does not continue a character. -/
def isBoundary (bytes : Bytes) (place : Nat) : Bool :=
  place = 0 ∨ place = bytes.length ∨ bytes[place]?.any fun b => !isContinuation b

/-- The first boundary from a place downwards, or nothing if the search goes below the start. -/
def boundaryFrom (bytes : Bytes) : Nat → Option Nat
  | 0 => if isBoundary bytes 0 then some 0 else none
  | place + 1 => if isBoundary bytes (place + 1) then some (place + 1) else boundaryFrom bytes place

def cutAt? (bytes : Bytes) (place : Nat) : Option Bytes :=
  if isBoundary bytes place then some (bytes.take place) else none

def truncate? (limit : Nat) (bytes : Bytes) : Option Bytes :=
  if bytes.length ≤ limit then some bytes else (boundaryFrom bytes limit).bind (cutAt? bytes)

/-- The longest beginning of a text that takes at most so many bytes. -/
structure LongestWithin (limit : Nat) (text kept : List Char) : Prop where
  beginning : kept <+: text
  length_le : (encode kept).length ≤ limit
  longest : ∀ other, other <+: text → (encode other).length ≤ limit → other <+: kept

theorem encode_append (a b : List Char) : encode (a ++ b) = encode a ++ encode b :=
  List.flatMap_append

theorem encode_cons (c : Char) (cs : List Char) :
    encode (c :: cs) = String.utf8EncodeChar c ++ encode cs :=
  List.flatMap_cons

theorem length_encode (cs : List Char) : (encode cs).length = size cs := by
  induction cs with
  | nil => rfl
  | cons c cs ih => rw [encode_cons, List.length_append, String.length_utf8EncodeChar, ih, size]

theorem exists_encodeChar (c : Char) : ∃ lead following,
    String.utf8EncodeChar c = lead :: following ∧ isContinuation lead = false ∧
      ∀ b ∈ following, isContinuation b = true := by
  have hlead {n : Nat} (h : n < 128 ∨ 192 ≤ n) (hn : n < 256) :
      isContinuation (UInt8.ofNat n) = false := by
    refine decide_eq_false ?_
    rw [UInt8.le_iff_toNat_le, UInt8.le_iff_toNat_le, toNat_byte hn]
    simp
    omega
  have hcontinuation (n : Nat) : isContinuation (UInt8.ofNat (n % 64 + 128)) = true :=
    isContinuation_byte (Nat.mod_lt n (by decide))
  have hone (n : Nat) : ∀ b ∈ [UInt8.ofNat (n % 64 + 128)], isContinuation b = true :=
    List.forall_mem_singleton.2 (hcontinuation n)
  unfold String.utf8EncodeChar
  dsimp only
  split
  · exact ⟨_, [], rfl, hlead (by omega) (by omega), List.forall_mem_nil _⟩
  · split
    · exact ⟨_, _, rfl, hlead (by omega) (by omega), hone _⟩
    · split
      · exact ⟨_, _, rfl, hlead (by omega) (by omega),
          List.forall_mem_cons.2 ⟨hcontinuation _, hone _⟩⟩
      · exact ⟨_, _, rfl, hlead (by omega) (by omega),
          List.forall_mem_cons.2 ⟨hcontinuation _,
            List.forall_mem_cons.2 ⟨hcontinuation _, hone _⟩⟩⟩

theorem takeBytes_beginning (limit : Nat) (cs : List Char) : takeBytes limit cs <+: cs := by
  induction cs generalizing limit with
  | nil => exact List.prefix_rfl
  | cons c cs ih =>
    rw [takeBytes]
    split
    · exact List.cons_prefix_cons.2 ⟨rfl, ih _⟩
    · exact List.nil_prefix

theorem takeBytes_cases (limit : Nat) (cs : List Char) : takeBytes limit cs = cs ∨
    ∃ c rest, cs = takeBytes limit cs ++ c :: rest ∧
      limit < size (takeBytes limit cs) + c.utf8Size := by
  induction cs generalizing limit with
  | nil => exact .inl rfl
  | cons c cs ih =>
    rw [takeBytes]
    split
    · rename_i hc
      rcases ih (limit - c.utf8Size) with heq | ⟨d, rest, heq, hlt⟩
      · exact .inl (congrArg _ heq)
      · refine .inr ⟨d, rest, congrArg _ heq, ?_⟩
        rw [size]
        omega
    · rename_i hc
      exact .inr ⟨c, cs, rfl, by rw [size]; omega⟩

theorem beginning_takeBytes {limit : Nat} {cs other : List Char} (h : other <+: cs)
    (hsize : size other ≤ limit) : other <+: takeBytes limit cs := by
  induction cs generalizing limit other with
  | nil => exact h
  | cons c cs ih =>
    cases other with
    | nil => exact List.nil_prefix
    | cons d other =>
      obtain ⟨rfl, hrest⟩ := List.cons_prefix_cons.1 h
      rw [size] at hsize
      rw [takeBytes, if_pos (by omega)]
      exact List.cons_prefix_cons.2 ⟨rfl, ih hrest (by omega)⟩

theorem longestWithin_takeBytes (limit : Nat) (cs : List Char) :
    LongestWithin limit cs (takeBytes limit cs) where
  beginning := takeBytes_beginning limit cs
  length_le := by
    rw [length_encode]
    exact size_takeBytes limit cs
  longest other h hlength := by
    rw [length_encode] at hlength
    exact beginning_takeBytes h hlength

theorem isBoundary_before (before rest : List Char) (c : Char) :
    isBoundary (encode (before ++ c :: rest)) (size before) = true := by
  obtain ⟨lead, following, hc, hlead, _⟩ := exists_encodeChar c
  refine decide_eq_true (.inr (.inr ?_))
  rw [encode_append, encode_cons, hc, List.getElem?_append_right (length_encode before).le,
    length_encode, Nat.sub_self]
  simp [hlead]

theorem isBoundary_within {before rest : List Char} {c : Char} {place : Nat}
    (hlow : size before < place) (hhigh : place < size before + c.utf8Size) :
    isBoundary (encode (before ++ c :: rest)) place = false := by
  obtain ⟨lead, following, hc, _, hfollowing⟩ := exists_encodeChar c
  have hlength : following.length + 1 = c.utf8Size := by
    rw [← String.length_utf8EncodeChar, hc, List.length_cons]
  obtain ⟨i, rfl⟩ : ∃ i, place = size before + (i + 1) := ⟨place - size before - 1, by omega⟩
  have hi : i < following.length := by omega
  have hbyte : (encode (before ++ c :: rest))[size before + (i + 1)]? = some following[i] := by
    rw [encode_append, encode_cons, hc, ← length_encode before,
      List.getElem?_append_right (Nat.le_add_right _ _), Nat.add_sub_cancel_left,
      List.cons_append, List.getElem?_cons_succ, List.getElem?_append_left hi,
      List.getElem?_eq_getElem hi]
  have hinside : size before + (i + 1) < (encode (before ++ c :: rest)).length :=
    (List.getElem?_eq_some_iff.1 hbyte).1
  refine decide_eq_false ?_
  rw [hbyte]
  rintro (h | h | h)
  · omega
  · omega
  · simp [hfollowing _ (List.getElem_mem hi)] at h

theorem isBoundary_encode_iff {cs : List Char} {place : Nat} :
    isBoundary (encode cs) place = true ↔ ∃ before, before <+: cs ∧ size before = place := by
  constructor
  · intro h
    rcases takeBytes_cases place cs with hall | ⟨c, rest, hcs, hlt⟩
    · have hle := size_takeBytes place cs
      rw [hall] at hle
      rcases Nat.lt_or_eq_of_le hle with hlt | heq
      · -- Beyond the end there is no byte.
        rw [← length_encode] at hlt
        rcases of_decide_eq_true h with h | h | h
        · omega
        · omega
        · rw [List.getElem?_eq_none hlt.le] at h
          exact absurd h (by simp)
      · exact ⟨cs, List.prefix_rfl, heq⟩
    · refine ⟨takeBytes place cs, takeBytes_beginning place cs, ?_⟩
      rcases Nat.lt_or_eq_of_le (size_takeBytes place cs) with hlow | heq
      · rw [hcs, isBoundary_within hlow hlt] at h
        exact absurd h (by simp)
      · exact heq
  · rintro ⟨before, ⟨rest, rfl⟩, rfl⟩
    cases rest with
    | nil =>
      rw [List.append_nil]
      exact decide_eq_true (.inr (.inl (length_encode before).symm))
    | cons c rest => exact isBoundary_before before rest c

theorem boundaryFrom_within {before rest : List Char} {c : Char} {place : Nat}
    (hlow : size before ≤ place) (hhigh : place < size before + c.utf8Size) :
    boundaryFrom (encode (before ++ c :: rest)) place = some (size before) := by
  have hstart := isBoundary_before before rest c
  induction place with
  | zero =>
    rw [Nat.le_zero.1 hlow] at hstart ⊢
    rw [boundaryFrom, if_pos hstart]
  | succ place ih =>
    rw [boundaryFrom]
    rcases Nat.lt_or_eq_of_le hlow with hlt | heq
    · rw [isBoundary_within hlt hhigh, if_neg Bool.false_ne_true]
      exact ih (by omega) (by omega)
    · rw [← heq, if_pos hstart]

theorem cutAt?_size (before rest : List Char) :
    cutAt? (encode (before ++ rest)) (size before) = some (encode before) := by
  have hboundary : isBoundary (encode (before ++ rest)) (size before) = true :=
    isBoundary_encode_iff.2 ⟨before, List.prefix_append before rest, rfl⟩
  rw [cutAt?, if_pos hboundary, encode_append, ← length_encode before, List.take_left]

/-- A text beyond the limit is cut where the search ends, after its longest beginning. -/
theorem boundaryFrom_limit {limit : Nat} {cs : List Char} (h : limit < size cs) :
    boundaryFrom (encode cs) limit = some (size (takeBytes limit cs)) ∧
      ∃ c rest, cs = takeBytes limit cs ++ c :: rest ∧
        limit < size (takeBytes limit cs) + c.utf8Size := by
  rcases takeBytes_cases limit cs with hall | ⟨c, rest, hcs, hlt⟩
  · have hle := size_takeBytes limit cs
    rw [hall] at hle
    omega
  · have hfrom : boundaryFrom (encode (takeBytes limit cs ++ c :: rest)) limit =
        some (size (takeBytes limit cs)) := boundaryFrom_within (size_takeBytes limit cs) hlt
    rw [← hcs] at hfrom
    exact ⟨hfrom, c, rest, hcs, hlt⟩

theorem takeBytes_of_size_le {limit : Nat} {cs : List Char} (h : size cs ≤ limit) :
    takeBytes limit cs = cs := by
  rcases takeBytes_cases limit cs with hall | ⟨c, rest, hcs, hlt⟩
  · exact hall
  · have hprefix := beginning_takeBytes List.prefix_rfl h
    exact (takeBytes_beginning limit cs).eq_of_length_le hprefix.length_le

theorem truncate?_encode (limit : Nat) (cs : List Char) :
    truncate? limit (encode cs) = some (encode (takeBytes limit cs)) := by
  rw [truncate?, length_encode]
  split
  · rename_i h
    rw [takeBytes_of_size_le h]
  · rename_i h
    obtain ⟨hfrom, c, rest, hcs, _⟩ := boundaryFrom_limit (Nat.lt_of_not_le h)
    rw [hfrom, Option.bind_some]
    have hcut := cutAt?_size (takeBytes limit cs) (c :: rest)
    rwa [← hcs] at hcut

end CoverageQuery.Utf8
