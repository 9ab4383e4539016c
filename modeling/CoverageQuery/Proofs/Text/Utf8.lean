import CoverageQuery.Text.Utf8
import Mathlib.Data.List.TakeWhile

/-!
# Texts are read back from their bytes

The bytes of a character begin with one that says how many follow, the first of these lies in the
range that the leading byte allows, and the others are continuations. So the first item of the bytes
of a text is its first character, and a text is read from its bytes as itself.
-/
namespace CoverageQuery.Utf8

theorem accepted_append {low high b : UInt8} {following : Bytes} (hlow : low ≤ b) (hhigh : b ≤ high)
    (h : ∀ c ∈ following, isContinuation c = true) (rest : Bytes) :
    accepted (following.length + 1) low high (b :: (following ++ rest)) = b :: following := by
  have htake : (following ++ rest).take following.length = following := by simp
  simp only [accepted, hlow, hhigh, and_self, if_true, Nat.add_sub_cancel, htake]
  rw [List.takeWhile_eq_self_iff.2 h]

theorem next_sequence {lead low high b : UInt8} (count : Nat) (following : Bytes)
    (hcount : following.length + 1 = count) (hlead : ¬ lead < 0x80)
    (hcontinuation : continuation? lead = some (count, low, high)) (hlow : low ≤ b)
    (hhigh : b ≤ high) (h : ∀ c ∈ following, isContinuation c = true) (rest : Bytes) :
    next lead (b :: (following ++ rest)) =
      (.char (Char.ofNat (combine (leadBits count lead) (b :: following))), rest) := by
  subst hcount
  have hfollowing := accepted_append hlow hhigh h rest
  simp [next, hlead, hcontinuation, hfollowing]

theorem toNat_byte {n : Nat} (h : n < 256) : (UInt8.ofNat n).toNat = n := by
  rw [UInt8.toNat_ofNat', Nat.mod_eq_of_lt h]

theorem isContinuation_byte {n : Nat} (h : n < 64) :
    isContinuation (UInt8.ofNat (n + 128)) = true := by
  have hbyte := toNat_byte (show n + 128 < 256 by omega)
  simp only [isContinuation, UInt8.le_iff_toNat_le, hbyte, decide_eq_true_eq]
  exact ⟨by simp, by simp; omega⟩

theorem not_ascii {n : Nat} (h : n < 256) (hn : 128 ≤ n) : ¬ UInt8.ofNat n < 0x80 := by
  have hbyte := toNat_byte h
  rw [UInt8.lt_iff_toNat_lt, hbyte]
  simp
  omega

theorem leadBits_byte {count n : Nat} (h : n < 256) :
    leadBits count (UInt8.ofNat n) = n % Nat.pow 2 (6 - count) := by
  rw [leadBits, toNat_byte h]

theorem combine_byte {bits n : Nat} (h : n < 64) (following : Bytes) :
    combine bits (UInt8.ofNat (n + 128) :: following) = combine (bits * 64 + n) following := by
  rw [combine, List.foldl_cons, toNat_byte (by omega), show (n + 128) % 64 = n by omega]
  rfl

/-- How many bytes a leading byte announces, and the range of the first of them: it leaves out what
fewer bytes can say, the surrogates and what lies beyond the last character. -/
theorem continuation?_two : ∀ n < 32, 2 ≤ n →
    continuation? (UInt8.ofNat (n + 192)) = some (1, 0x80, 0xBF) := by
  decide

theorem continuation?_three : ∀ n < 16, continuation? (UInt8.ofNat (n + 224)) =
    some (2, if n = 0 then 0xA0 else 0x80, if n = 13 then 0x9F else 0xBF) := by
  decide

theorem continuation?_four : ∀ n < 5, continuation? (UInt8.ofNat (n + 240)) =
    some (3, if n = 0 then 0x90 else 0x80, if n = 4 then 0x8F else 0xBF) := by
  decide

theorem next_one {n : Nat} (h : n ≤ 127) (rest : Bytes) :
    next (UInt8.ofNat n) rest = (.char (Char.ofNat n), rest) := by
  have hbyte := toNat_byte (show n < 256 by omega)
  have hlead : UInt8.ofNat n < 0x80 := by
    rw [UInt8.lt_iff_toNat_lt, hbyte]
    simp
    omega
  rw [next, if_pos hlead, hbyte]

theorem next_two {n : Nat} (hlow : 127 < n) (hhigh : n ≤ 2047) (rest : Bytes) :
    next (UInt8.ofNat (n / 64 % 32 + 192)) (UInt8.ofNat (n % 64 + 128) :: rest) =
      (.char (Char.ofNat n), rest) := by
  have hsecond : (0x80 : UInt8) ≤ UInt8.ofNat (n % 64 + 128) ∧
      UInt8.ofNat (n % 64 + 128) ≤ 0xBF :=
    of_decide_eq_true (isContinuation_byte (show n % 64 < 64 by omega))
  have hvalue : combine (leadBits 1 (UInt8.ofNat (n / 64 % 32 + 192)))
      [UInt8.ofNat (n % 64 + 128)] = n := by
    rw [combine_byte (by omega), leadBits_byte (by omega)]
    show (n / 64 % 32 + 192) % 32 * 64 + n % 64 = n
    omega
  have hnext := next_sequence 1 [] rfl (not_ascii (by omega) (by omega))
    (continuation?_two (n / 64 % 32) (by omega) (by omega)) hsecond.1 hsecond.2 (by simp) rest
  rwa [hvalue] at hnext

theorem next_three {n : Nat} (hlow : 2047 < n) (hhigh : n ≤ 65535)
    (hscalar : n < 0xD800 ∨ 0xDFFF < n) (rest : Bytes) :
    next (UInt8.ofNat (n / 4096 % 16 + 224))
      (UInt8.ofNat (n / 64 % 64 + 128) :: UInt8.ofNat (n % 64 + 128) :: rest) =
      (.char (Char.ofNat n), rest) := by
  have hbyte := toNat_byte (show n / 64 % 64 + 128 < 256 by omega)
  -- Only a second byte that two bytes could say, or that of a surrogate, is out of range.
  have hlow : (if n / 4096 % 16 = 0 then (0xA0 : UInt8) else 0x80) ≤
      UInt8.ofNat (n / 64 % 64 + 128) := by
    rw [UInt8.le_iff_toNat_le, hbyte]
    split
    · simp
      omega
    · simp
  have hhigh : UInt8.ofNat (n / 64 % 64 + 128) ≤
      if n / 4096 % 16 = 13 then (0x9F : UInt8) else 0xBF := by
    rw [UInt8.le_iff_toNat_le, hbyte]
    split <;> simp <;> omega
  have hvalue : combine (leadBits 2 (UInt8.ofNat (n / 4096 % 16 + 224)))
      [UInt8.ofNat (n / 64 % 64 + 128), UInt8.ofNat (n % 64 + 128)] = n := by
    rw [combine_byte (by omega), combine_byte (by omega), leadBits_byte (by omega)]
    show ((n / 4096 % 16 + 224) % 16 * 64 + n / 64 % 64) * 64 + n % 64 = n
    omega
  have hlast := isContinuation_byte (show n % 64 < 64 by omega)
  have hnext := next_sequence 2 [UInt8.ofNat (n % 64 + 128)] rfl (not_ascii (by omega) (by omega))
    (continuation?_three (n / 4096 % 16) (by omega)) hlow hhigh
    (List.forall_mem_singleton.2 hlast) rest
  rwa [hvalue] at hnext

theorem next_four {n : Nat} (hlow : 65535 < n) (hhigh : n < 0x110000) (rest : Bytes) :
    next (UInt8.ofNat (n / 262144 % 8 + 240)) (UInt8.ofNat (n / 4096 % 64 + 128) ::
      UInt8.ofNat (n / 64 % 64 + 128) :: UInt8.ofNat (n % 64 + 128) :: rest) =
      (.char (Char.ofNat n), rest) := by
  have hbyte := toNat_byte (show n / 4096 % 64 + 128 < 256 by omega)
  have hlow : (if n / 262144 % 8 = 0 then (0x90 : UInt8) else 0x80) ≤
      UInt8.ofNat (n / 4096 % 64 + 128) := by
    rw [UInt8.le_iff_toNat_le, hbyte]
    split
    · simp
      omega
    · simp
  have hhigh : UInt8.ofNat (n / 4096 % 64 + 128) ≤
      if n / 262144 % 8 = 4 then (0x8F : UInt8) else 0xBF := by
    rw [UInt8.le_iff_toNat_le, hbyte]
    split <;> simp <;> omega
  have hvalue : combine (leadBits 3 (UInt8.ofNat (n / 262144 % 8 + 240)))
      [UInt8.ofNat (n / 4096 % 64 + 128), UInt8.ofNat (n / 64 % 64 + 128),
        UInt8.ofNat (n % 64 + 128)] = n := by
    rw [combine_byte (by omega), combine_byte (by omega), combine_byte (by omega),
      leadBits_byte (by omega)]
    show (((n / 262144 % 8 + 240) % 8 * 64 + n / 4096 % 64) * 64 + n / 64 % 64) * 64 + n % 64 = n
    omega
  have hthird := isContinuation_byte (show n / 64 % 64 < 64 by omega)
  have hlast := isContinuation_byte (show n % 64 < 64 by omega)
  have hnext := next_sequence 3 [UInt8.ofNat (n / 64 % 64 + 128), UInt8.ofNat (n % 64 + 128)] rfl
    (not_ascii (by omega) (by omega)) (continuation?_four (n / 262144 % 8) (by omega)) hlow hhigh
    (List.forall_mem_cons.2 ⟨hthird, List.forall_mem_singleton.2 hlast⟩) rest
  rwa [hvalue] at hnext

theorem items_cons (b : UInt8) (rest : Bytes) :
    items (b :: rest) = (next b rest).1 :: items (next b rest).2 := by
  rw [items]

theorem items_char (c : Char) (rest : Bytes) :
    items (String.utf8EncodeChar c ++ rest) = .char c :: items rest := by
  have hvalid : c.toNat < 0xD800 ∨ (0xDFFF < c.toNat ∧ c.toNat < 0x110000) := c.valid
  have hchar : Char.ofNat c.val.toNat = c := c.ofNat_toNat
  have hnat : c.toNat = c.val.toNat := rfl
  rw [hnat] at hvalid
  unfold String.utf8EncodeChar
  dsimp only
  split
  · rename_i h
    rw [List.cons_append, items_cons, List.nil_append, next_one h, hchar]
  · split
    · rename_i h₁ h₂
      rw [List.cons_append, items_cons, List.cons_append, List.nil_append,
        next_two (by omega) h₂, hchar]
    · split
      · rename_i h₁ h₂ h₃
        rw [List.cons_append, items_cons, List.cons_append, List.cons_append, List.nil_append,
          next_three (by omega) h₃ (by omega), hchar]
      · rename_i h₁ h₂ h₃
        rw [List.cons_append, items_cons, List.cons_append, List.cons_append, List.cons_append,
          List.nil_append, next_four (by omega) (by omega), hchar]

theorem items_encode (cs : List Char) : items (encode cs) = cs.map Item.char := by
  induction cs with
  | nil => rw [encode, List.flatMap_nil, items, List.map_nil]
  | cons c cs ih =>
    rw [encode, List.flatMap_cons, items_char, List.map_cons]
    exact congrArg _ ih

theorem decodeItems_char (before : Nat) (cs : List Char) :
    decodeItems before (cs.map Item.char) = .ok cs := by
  induction cs generalizing before with
  | nil => rfl
  | cons c cs ih =>
    rw [List.map_cons, decodeItems, ih]
    rfl

theorem decode_encode (cs : List Char) : decode (encode cs) = .ok cs := by
  rw [decode, items_encode, decodeItems_char]

theorem decode?_encode (cs : List Char) : decode? (encode cs) = some cs := by
  rw [decode?, decode_encode]
  rfl

/-- A text is no less itself when faults are replaced, for it has none. -/
theorem decodeLenient_encode (cs : List Char) : decodeLenient (encode cs) = cs := by
  rw [decodeLenient, items_encode, List.map_map]
  exact List.map_id cs

end CoverageQuery.Utf8
