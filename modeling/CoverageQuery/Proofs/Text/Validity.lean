import CoverageQuery.Proofs.Outcome
import CoverageQuery.Proofs.Text.Utf8

/-!
# Bytes that are a text

Strict reading accepts the bytes of texts and no others. A character is found only where its own bytes
stand: a leading byte says how many follow, and the ranges of the first of these leave out the values
that fewer bytes can say, the surrogates and what lies beyond the last character. So what is read from
bytes is written with these bytes again.
-/
namespace CoverageQuery.Utf8

theorem toNat_inj {b : UInt8} {n : Nat} (hn : n < 256) (h : n = b.toNat) : UInt8.ofNat n = b :=
  UInt8.toNat_inj.1 ((toNat_byte hn).trans h)

theorem isContinuation_iff {b : UInt8} :
    isContinuation b = true ↔ 128 ≤ b.toNat ∧ b.toNat ≤ 191 := by
  rw [isContinuation, decide_eq_true_eq, UInt8.le_iff_toNat_le, UInt8.le_iff_toNat_le]
  rfl

theorem exists_of_accepted {count : Nat} {low high : UInt8} {rest : Bytes} (hcount : 0 < count)
    (h : (accepted count low high rest).length = count) : ∃ b following,
      accepted count low high rest = b :: following ∧ low ≤ b ∧ b ≤ high ∧
        (∀ c ∈ following, isContinuation c = true) ∧
        rest = b :: following ++ rest.drop count := by
  have hempty (h : ([] : Bytes).length = count) : False := by
    have hzero : 0 = count := h
    omega
  cases rest with
  | nil => exact (hempty h).elim
  | cons b bs =>
    rw [accepted] at h ⊢
    split at h
    · rename_i hrange
      rw [if_pos hrange]
      obtain ⟨others, hothers⟩ := (List.takeWhile_prefix isContinuation).trans
        (List.take_prefix (count - 1) bs)
      have hbs : b :: bs = (b :: (bs.take (count - 1)).takeWhile isContinuation) ++ others := by
        rw [List.cons_append, hothers]
      have hdrop : (b :: bs).drop count = others := by rw [hbs, List.drop_left' h]
      exact ⟨b, _, rfl, hrange.1, hrange.2, List.all_eq_true.1 List.all_takeWhile,
        by rw [hdrop]; exact hbs⟩
    · exact (hempty h).elim

theorem range_of_continuation? {lead low high : UInt8} {count : Nat}
    (h : continuation? lead = some (count, low, high)) :
    (count = 1 ∧ 194 ≤ lead.toNat ∧ lead.toNat ≤ 223 ∧ low.toNat = 128 ∧ high.toNat = 191) ∨
    (count = 2 ∧ 224 ≤ lead.toNat ∧ lead.toNat ≤ 239 ∧ 128 ≤ low.toNat ∧ high.toNat ≤ 191 ∧
      (lead.toNat = 224 → low.toNat = 160) ∧ (lead.toNat = 237 → high.toNat = 159)) ∨
    (count = 3 ∧ 240 ≤ lead.toNat ∧ lead.toNat ≤ 244 ∧ 128 ≤ low.toNat ∧ high.toNat ≤ 191 ∧
      (lead.toNat = 240 → low.toNat = 144) ∧ (lead.toNat = 244 → high.toNat = 143)) := by
  unfold continuation? at h
  simp only [UInt8.le_iff_toNat_le, ← UInt8.toNat_inj, UInt8.reduceToNat] at h
  have hfirst {n : Nat} {l u : UInt8} (h : some (n, l, u) = some (count, low, high)) :
      count = n ∧ low.toNat = l.toNat ∧ high.toNat = u.toNat := by
    simp only [Option.some.injEq, Prod.mk.injEq] at h
    obtain ⟨rfl, rfl, rfl⟩ := h
    exact ⟨rfl, rfl, rfl⟩
  -- One case for each range of leading bytes.
  repeat' split at h
  all_goals first
    | contradiction
    | have hrange := hfirst h
      simp only [UInt8.reduceToNat] at hrange
      omega

theorem encodeChar_ofNat {n : Nat} (h : n.isValidChar) :
    String.utf8EncodeChar (Char.ofNat n) =
      if n ≤ 127 then [UInt8.ofNat n]
      else if n ≤ 2047 then [UInt8.ofNat (n / 64 % 32 + 192), UInt8.ofNat (n % 64 + 128)]
      else if n ≤ 65535 then
        [UInt8.ofNat (n / 4096 % 16 + 224), UInt8.ofNat (n / 64 % 64 + 128),
          UInt8.ofNat (n % 64 + 128)]
      else
        [UInt8.ofNat (n / 262144 % 8 + 240), UInt8.ofNat (n / 4096 % 64 + 128),
          UInt8.ofNat (n / 64 % 64 + 128), UInt8.ofNat (n % 64 + 128)] := by
  have hvalue : (Char.ofNat n).val.toNat = n := by
    rw [Char.ofNat, dif_pos h]
    rfl
  unfold String.utf8EncodeChar
  rw [hvalue]

theorem encodeChar_one {lead : UInt8} (h : lead.toNat < 128) :
    String.utf8EncodeChar (Char.ofNat lead.toNat) = [lead] := by
  rw [encodeChar_ofNat (.inl (by omega)), if_pos (by omega), toNat_inj (by omega) rfl]

theorem encodeChar_two {lead a : UInt8} (hlead : 194 ≤ lead.toNat ∧ lead.toNat ≤ 223)
    (ha : 128 ≤ a.toNat ∧ a.toNat ≤ 191) :
    String.utf8EncodeChar (Char.ofNat (combine (leadBits 1 lead) [a])) = [lead, a] := by
  have hvalue : combine (leadBits 1 lead) [a] = lead.toNat % 32 * 64 + a.toNat % 64 := rfl
  rw [hvalue, encodeChar_ofNat (.inl (by omega)), if_neg (by omega), if_pos (by omega),
    toNat_inj (b := lead) (by omega) (by omega), toNat_inj (b := a) (by omega) (by omega)]

theorem encodeChar_three {lead a b : UInt8} (hlead : 224 ≤ lead.toNat ∧ lead.toNat ≤ 239)
    (ha : 128 ≤ a.toNat ∧ a.toNat ≤ 191) (hfew : lead.toNat = 224 → 160 ≤ a.toNat)
    (hsurrogate : lead.toNat = 237 → a.toNat ≤ 159) (hb : 128 ≤ b.toNat ∧ b.toNat ≤ 191) :
    String.utf8EncodeChar (Char.ofNat (combine (leadBits 2 lead) [a, b])) = [lead, a, b] := by
  have hvalue : combine (leadBits 2 lead) [a, b] =
      (lead.toNat % 16 * 64 + a.toNat % 64) * 64 + b.toNat % 64 := rfl
  have hvalid : ((lead.toNat % 16 * 64 + a.toNat % 64) * 64 + b.toNat % 64).isValidChar := by
    simp only [Nat.isValidChar]
    omega
  rw [hvalue, encodeChar_ofNat hvalid, if_neg (by omega), if_neg (by omega), if_pos (by omega),
    toNat_inj (b := lead) (by omega) (by omega), toNat_inj (b := a) (by omega) (by omega),
    toNat_inj (b := b) (by omega) (by omega)]

theorem encodeChar_four {lead a b d : UInt8} (hlead : 240 ≤ lead.toNat ∧ lead.toNat ≤ 244)
    (ha : 128 ≤ a.toNat ∧ a.toNat ≤ 191) (hfew : lead.toNat = 240 → 144 ≤ a.toNat)
    (hbeyond : lead.toNat = 244 → a.toNat ≤ 143) (hb : 128 ≤ b.toNat ∧ b.toNat ≤ 191)
    (hd : 128 ≤ d.toNat ∧ d.toNat ≤ 191) :
    String.utf8EncodeChar (Char.ofNat (combine (leadBits 3 lead) [a, b, d])) = [lead, a, b, d] := by
  have hvalue : combine (leadBits 3 lead) [a, b, d] =
      ((lead.toNat % 8 * 64 + a.toNat % 64) * 64 + b.toNat % 64) * 64 + d.toNat % 64 := rfl
  have hvalid : (((lead.toNat % 8 * 64 + a.toNat % 64) * 64 + b.toNat % 64) * 64 +
      d.toNat % 64).isValidChar := by
    simp only [Nat.isValidChar]
    omega
  rw [hvalue, encodeChar_ofNat hvalid, if_neg (by omega), if_neg (by omega), if_neg (by omega),
    toNat_inj (b := lead) (by omega) (by omega), toNat_inj (b := a) (by omega) (by omega),
    toNat_inj (b := b) (by omega) (by omega), toNat_inj (b := d) (by omega) (by omega)]

theorem bytes_of_next {lead : UInt8} {rest rest' : Bytes} {c : Char}
    (h : next lead rest = (.char c, rest')) :
    lead :: rest = String.utf8EncodeChar c ++ rest' := by
  unfold next at h
  split at h
  · rename_i hlead
    obtain ⟨hc, rfl⟩ := Prod.mk.inj h
    obtain rfl := Item.char.inj hc
    rw [encodeChar_one (UInt8.lt_iff_toNat_lt.1 hlead)]
    rfl
  · split at h
    · exact absurd (Prod.mk.inj h).1 (by simp)
    · rename_i count low high hcontinuation
      have hrange := range_of_continuation? hcontinuation
      dsimp only at h
      split at h
      · rename_i hlength
        obtain ⟨hc, rfl⟩ := Prod.mk.inj h
        obtain rfl := Item.char.inj hc
        obtain ⟨a, following, haccepted, hlow, hhigh, hfollowing, hrest⟩ :=
          exists_of_accepted (by omega) hlength
        rw [UInt8.le_iff_toNat_le] at hlow hhigh
        simp only [isContinuation_iff] at hfollowing
        rw [haccepted, List.length_cons] at hlength
        rw [haccepted]
        conv => lhs; rw [hrest]
        rcases hrange with ⟨rfl, hrange⟩ | ⟨rfl, hrange⟩ | ⟨rfl, hrange⟩
        · obtain rfl : following = [] := List.length_eq_zero_iff.1 (by omega)
          rw [encodeChar_two (by omega) (by omega)]
          rfl
        · obtain ⟨b, rfl⟩ := List.length_eq_one_iff.1 (show following.length = 1 by omega)
          have hb := hfollowing b (by simp)
          rw [encodeChar_three (by omega) (by omega) (by omega) (by omega) hb]
          rfl
        · obtain ⟨b, d, rfl⟩ := List.length_eq_two.1 (show following.length = 2 by omega)
          have hb := hfollowing b (by simp)
          have hd := hfollowing d (by simp)
          rw [encodeChar_four (by omega) (by omega) (by omega) (by omega) hb hd]
          rfl
      · split at h <;> exact absurd (Prod.mk.inj h).1 (by simp)

theorem encode_of_items {bytes : Bytes} {cs : List Char} (h : items bytes = cs.map Item.char) :
    encode cs = bytes := by
  induction cs generalizing bytes with
  | nil =>
    cases bytes with
    | nil => rfl
    | cons b rest =>
      rw [items_cons] at h
      exact absurd h (by simp)
  | cons c cs ih =>
    cases bytes with
    | nil =>
      rw [items] at h
      exact absurd h (by simp)
    | cons b rest =>
      rw [items_cons, List.map_cons] at h
      obtain ⟨hfirst, hrest⟩ := List.cons.inj h
      rw [bytes_of_next (Prod.ext hfirst rfl), encode, List.flatMap_cons]
      exact congrArg _ (ih hrest)

theorem items_of_decodeItems {before : Nat} {found : List Item} {cs : List Char}
    (h : decodeItems before found = .ok cs) : found = cs.map Item.char := by
  induction found generalizing before cs with
  | nil =>
    obtain rfl := Except.ok.inj h
    rfl
  | cons item found ih =>
    cases item with
    | char c =>
      obtain ⟨rest, hrest, rfl⟩ := Outcome.map_eq_ok.1 h
      rw [ih hrest, List.map_cons]
    | invalid n => exact absurd h (by simp [decodeItems])
    | truncated => exact absurd h (by simp [decodeItems])

/-- Strict reading gives a text from the bytes of this text and from no others. -/
theorem decode_eq_ok_iff {bytes : Bytes} {cs : List Char} :
    decode bytes = .ok cs ↔ encode cs = bytes := by
  constructor
  · intro h
    exact encode_of_items (items_of_decodeItems h)
  · rintro rfl
    exact decode_encode cs

theorem encode_injective {a b : List Char} (h : encode a = encode b) : a = b :=
  Except.ok.inj ((decode_encode a).symm.trans (decode_eq_ok_iff.2 h.symm))

theorem decode?_eq_some_iff {bytes : Bytes} {cs : List Char} :
    decode? bytes = some cs ↔ encode cs = bytes := by
  rw [← decode_eq_ok_iff, decode?]
  cases decode bytes <;> simp [Except.toOption]

end CoverageQuery.Utf8
