import CoverageQuery.Text.Form
import CoverageQuery.Proofs.Text.Pieces
import CoverageQuery.Proofs.Text.Utf8

/-!
# Forms are read back

What stands for a byte in a form is read as that byte: a plus sign as a space, a byte of a plain
character as itself, and a percent sign with two digits as the byte of these digits. None of them is an
ampersand or an equals sign, so pieces are cut where they were joined, and a form is read as its pairs
whatever bytes its names and values hold. What is read of two forms with an ampersand between them is
what is read of the one and then of the other.
-/
namespace CoverageQuery.Form

def spacedBytes (cs : List Char) : Utf8.Bytes :=
  Utf8.encode (cs.map fun c => if c = '+' then ' ' else c)

theorem spacedBytes_append (cs more : List Char) :
    spacedBytes (cs ++ more) = spacedBytes cs ++ spacedBytes more := by
  simp only [spacedBytes, Utf8.encode, List.map_append, List.flatMap_append]

theorem decodeText_eq (cs : List Char) :
    decodeText cs = String.ofList (Utf8.decodeLenient (percentDecode (spacedBytes cs))) := rfl

theorem percentDecode_cons {b : UInt8} (h : b ≠ 0x25) (rest : Utf8.Bytes) :
    percentDecode (b :: rest) = b :: percentDecode rest := by
  match rest with
  | [] => rfl
  | [_] => rfl
  | _ :: _ :: _ => rw [percentDecode, if_neg h]

theorem percentDecode_escaped {high low b : UInt8} (h : escaped? high low = some b)
    (rest : Utf8.Bytes) : percentDecode (0x25 :: high :: low :: rest) = b :: percentDecode rest := by
  simp only [percentDecode, if_true, h]

def hexByte (d : Nat) : UInt8 := UInt8.ofNat (upperHex d).toNat

theorem spacedBytes_encodeByte : ∀ n < 256,
    let b := UInt8.ofNat n
    spacedBytes (encodeByte b) = [b] ∧ b ≠ 0x25 ∨
      spacedBytes (encodeByte b) = [0x25, hexByte (n / 16), hexByte (n % 16)] ∧
        escaped? (hexByte (n / 16)) (hexByte (n % 16)) = some b := by
  decide +kernel

theorem notMem_encodeByte : ∀ n < 256,
    '&' ∉ encodeByte (UInt8.ofNat n) ∧ '=' ∉ encodeByte (UInt8.ofNat n) := by
  decide +kernel

theorem percentDecode_encodeByte (b : UInt8) (rest : Utf8.Bytes) :
    percentDecode (spacedBytes (encodeByte b) ++ rest) = b :: percentDecode rest := by
  have hbyte := spacedBytes_encodeByte b.toNat b.toNat_lt
  simp only [UInt8.ofNat_toNat] at hbyte
  rcases hbyte with ⟨hself, hplain⟩ | ⟨hescape, hread⟩
  · rw [hself]
    exact percentDecode_cons hplain rest
  · rw [hescape]
    exact percentDecode_escaped hread rest

theorem percentDecode_encodeBytes (bytes : Utf8.Bytes) :
    percentDecode (spacedBytes (bytes.flatMap encodeByte)) = bytes := by
  induction bytes with
  | nil => rfl
  | cons b bytes ih =>
    rw [List.flatMap_cons, spacedBytes_append, percentDecode_encodeByte, ih]

theorem decodeText_encodeText (s : String) : decodeText (encodeText s) = s := by
  rw [decodeText_eq, encodeText, percentDecode_encodeBytes, Utf8.decodeLenient_encode,
    String.ofList_toList]

theorem notMem_encodeText (s : String) : '&' ∉ encodeText s ∧ '=' ∉ encodeText s := by
  have hbyte (b : UInt8) : '&' ∉ encodeByte b ∧ '=' ∉ encodeByte b := by
    have h := notMem_encodeByte b.toNat b.toNat_lt
    rwa [UInt8.ofNat_toNat] at h
  simp only [encodeText, List.mem_flatMap, not_exists, not_and]
  exact ⟨fun b _ => (hbyte b).1, fun b _ => (hbyte b).2⟩

theorem notMem_encodePair (pair : String × String) : '&' ∉ encodePair pair := by
  have hname := (notMem_encodeText pair.1).1
  have hvalue := (notMem_encodeText pair.2).1
  simp [encodePair, hname, hvalue]

theorem decodePair_encodePair (pair : String × String) : decodePair (encodePair pair) = pair := by
  have hsplit := Text.splitOnce?_append (notMem_encodeText pair.1).2 (encodeText pair.2)
  simp only [decodePair, encodePair, hsplit, decodeText_encodeText]

theorem map_decodePair_encodePair (pairs : Pairs) :
    ((pairs.map encodePair).filter (!·.isEmpty)).map decodePair = pairs := by
  have hpiece : ∀ piece ∈ pairs.map encodePair, (!piece.isEmpty) = true := by
    intro piece hpiece
    obtain ⟨pair, _, rfl⟩ := List.mem_map.1 hpiece
    simp [encodePair]
  rw [List.filter_eq_self.2 hpiece, List.map_map]
  exact (List.map_congr_left fun pair _ => decodePair_encodePair pair).trans (List.map_id _)

/-- A form is read as the pairs that it was written from. -/
theorem decode_encode (pairs : Pairs) : decode (encode pairs) = pairs := by
  cases pairs with
  | nil => rfl
  | cons pair pairs =>
    have hpieces : ∀ piece ∈ (pair :: pairs).map encodePair, '&' ∉ piece := by
      intro piece hpiece
      obtain ⟨pair, _, rfl⟩ := List.mem_map.1 hpiece
      exact notMem_encodePair pair
    rw [decode, encode, List.splitOn_intercalate '&' hpieces (by simp), map_decodePair_encodePair]

theorem decode_append (cs more : List Char) :
    decode (cs ++ '&' :: more) = decode cs ++ decode more := by
  have hpieces : (cs ++ '&' :: more).splitOn '&' = cs.splitOn '&' ++ more.splitOn '&' :=
    List.splitOnP_append_cons cs more (beq_self_eq_true '&')
  rw [decode, hpieces, List.filter_append, List.map_append]
  rfl

end CoverageQuery.Form
