import CoverageQuery.Text.Blank
import CoverageQuery.Text.Quotes
import Mathlib.Data.List.DropRight
import Mathlib.Data.List.Infix

/-!
# Pieces of a text

A trimmed text has no blank at either end, and a text without blanks at its ends is its own trim. A
text is split at the first separator, whatever stands after it. A piece that is closed against a
separator, because it holds none or because it stands in quotes, is never split at it, so two closed
pieces with the separator between them are read back as these two.
-/
namespace CoverageQuery.Text

theorem isBlank_of_isDigit {c : Char} (h : c.isDigit = true) : isBlank c = false := by
  simp only [Char.isDigit, Bool.and_eq_true, decide_eq_true_eq] at h
  have hlow : 48 ≤ c.toNat := h.1
  have hhigh : c.toNat ≤ 57 := h.2
  simp only [isBlank, decide_eq_false_iff_not]
  omega

theorem trimStart_eq_self {cs : List Char} (h : ∀ c ∈ cs.head?, isBlank c = false) :
    trimStart cs = cs := by
  cases cs with
  | nil => rfl
  | cons c cs => simp [trimStart, h c rfl]

theorem head?_trimStart (cs : List Char) : ∀ c ∈ (trimStart cs).head?, isBlank c = false := by
  intro c hc
  have h := List.head?_dropWhile_not isBlank cs
  rw [show (cs.dropWhile isBlank).head? = some c from hc] at h
  exact h

theorem exists_trimEnd_append (cs : List Char) : ∃ rest, trimEnd cs ++ rest = cs :=
  List.rdropWhile_prefix isBlank cs

theorem getLast?_trimEnd (cs : List Char) : ∀ c ∈ (trimEnd cs).getLast?, isBlank c = false := by
  rw [trimEnd, List.getLast?_reverse]
  exact head?_trimStart cs.reverse

theorem trim_eq_self {cs : List Char} (hfirst : ∀ c ∈ cs.head?, isBlank c = false)
    (hlast : ∀ c ∈ cs.getLast?, isBlank c = false) : trim cs = cs := by
  have hend : trimEnd cs = cs := by
    rw [trimEnd, trimStart_eq_self (by rwa [List.head?_reverse]), List.reverse_reverse]
  rw [trim, trimStart_eq_self hfirst, hend]

theorem trim_eq_self_of_forall {cs : List Char} (h : ∀ c ∈ cs, isBlank c = false) :
    trim cs = cs :=
  trim_eq_self (fun c hc => h c (List.mem_of_mem_head? hc))
    fun c hc => h c (List.mem_of_mem_getLast? hc)

theorem head?_trim (cs : List Char) : ∀ c ∈ (trim cs).head?, isBlank c = false := by
  intro c hc
  obtain ⟨rest, hrest⟩ := exists_trimEnd_append (trimStart cs)
  refine head?_trimStart cs c ?_
  rw [← hrest, List.head?_append, show (trimEnd (trimStart cs)).head? = some c from hc]
  rfl

theorem getLast?_trim (cs : List Char) : ∀ c ∈ (trim cs).getLast?, isBlank c = false :=
  getLast?_trimEnd _

theorem trim_trim (cs : List Char) : trim (trim cs) = trim cs :=
  trim_eq_self (head?_trim cs) (getLast?_trim cs)

theorem mem_of_mem_trim {cs : List Char} {c : Char} (h : c ∈ trim cs) : c ∈ cs := by
  obtain ⟨rest, hrest⟩ := exists_trimEnd_append (trimStart cs)
  have hstart : c ∈ trimStart cs := by
    rw [← hrest]
    exact List.mem_append_left rest h
  exact (List.dropWhile_sublist isBlank).mem hstart

theorem trim_enclosed {before cs after : List Char} (hbefore : ∀ c ∈ before, isBlank c = true)
    (hafter : ∀ c ∈ after, isBlank c = true) (hne : cs ≠ [])
    (hfirst : ∀ c ∈ cs.head?, isBlank c = false) (hlast : ∀ c ∈ cs.getLast?, isBlank c = false) :
    trim (before ++ (cs ++ after)) = cs := by
  have hstart : trimStart (before ++ (cs ++ after)) = cs ++ after := by
    rw [trimStart, List.dropWhile_append_of_pos hbefore]
    refine trimStart_eq_self fun c hc => hfirst c ?_
    rwa [List.head?_append_of_ne_nil _ hne] at hc
  have hend : trimEnd (cs ++ after) = cs := by
    rw [trimEnd, List.reverse_append, trimStart,
      List.dropWhile_append_of_pos fun c hc => hafter c (List.mem_reverse.1 hc)]
    exact (congrArg List.reverse (trimStart_eq_self (by rwa [List.head?_reverse]))).trans
      (List.reverse_reverse cs)
  rw [trim, hstart, hend]

theorem exists_trim (cs : List Char) : ∃ before after, (∀ c ∈ before, isBlank c = true) ∧
    (∀ c ∈ after, isBlank c = true) ∧ before ++ (trim cs ++ after) = cs := by
  have hall (cs : List Char) : ∀ c ∈ cs.takeWhile isBlank, isBlank c = true :=
    List.all_eq_true.1 List.all_takeWhile
  refine ⟨cs.takeWhile isBlank, ((trimStart cs).reverse.takeWhile isBlank).reverse, hall cs,
    fun c hc => hall _ c (List.mem_reverse.1 hc), ?_⟩
  rw [trim, trimEnd, ← List.reverse_append, trimStart, trimStart, List.takeWhile_append_dropWhile,
    List.reverse_reverse, List.takeWhile_append_dropWhile]

theorem mem_trim_of_mem {cs : List Char} {c : Char} (h : c ∈ cs) (hc : isBlank c = false) :
    c ∈ trim cs := by
  obtain ⟨before, after, hbefore, hafter, hcs⟩ := exists_trim cs
  rw [← hcs] at h
  rcases List.mem_append.1 h with h | h
  · exact absurd (hbefore c h) (by simp [hc])
  · exact (List.mem_append.1 h).resolve_right fun h => absurd (hafter c h) (by simp [hc])

theorem trim_ne_nil_iff {cs : List Char} : trim cs ≠ [] ↔ ∃ c ∈ cs, isBlank c = false := by
  constructor
  · intro h
    obtain ⟨c, rest, htrim⟩ := List.exists_cons_of_ne_nil h
    exact ⟨c, mem_of_mem_trim (by simp [htrim]), head?_trim cs c (by simp [htrim])⟩
  · rintro ⟨c, hc, hblank⟩
    exact List.ne_nil_of_mem (mem_trim_of_mem hc hblank)

theorem splitOnce?_append {separator : Char} {before : List Char} (h : separator ∉ before)
    (after : List Char) :
    splitOnce? separator (before ++ separator :: after) = some (before, after) := by
  induction before with
  | nil => simp [splitOnce?]
  | cons c before ih =>
    have hc : c ≠ separator := fun hc => h (by simp [hc])
    have hrest := ih fun hmem => h (List.mem_cons_of_mem c hmem)
    simp [splitOnce?, hc, hrest]

/-- A piece that is not split at the separator, whatever stands after it. -/
def Closed (separator : Char) (piece : List Char) : Prop :=
  ∀ rest, splitQuoted separator false (piece ++ rest) =
    (piece ++ (splitQuoted separator false rest).1, (splitQuoted separator false rest).2)

theorem closed_of_notMem {separator : Char} {piece : List Char} (hquote : '"' ∉ piece)
    (h : separator ∉ piece) : Closed separator piece := by
  intro rest
  induction piece with
  | nil => rfl
  | cons c piece ih =>
    have hc : c ≠ '"' := fun hc => hquote (by simp [hc])
    have hs : c ≠ separator := fun hc => h (by simp [hc])
    have hrest := ih (fun hmem => hquote (List.mem_cons_of_mem c hmem))
      fun hmem => h (List.mem_cons_of_mem c hmem)
    simp [splitQuoted, hc, hs, hrest]

theorem splitQuoted_inside {separator : Char} {inner : List Char} (h : '"' ∉ inner)
    (rest : List Char) : splitQuoted separator true (inner ++ '"' :: rest) =
      (inner ++ '"' :: (splitQuoted separator false rest).1,
        (splitQuoted separator false rest).2) := by
  induction inner with
  | nil => simp [splitQuoted]
  | cons c inner ih =>
    have hc : c ≠ '"' := fun hc => h (by simp [hc])
    have hrest := ih fun hmem => h (List.mem_cons_of_mem c hmem)
    simp [splitQuoted, hc, hrest]

theorem closed_quoted (separator : Char) {inner : List Char} (h : '"' ∉ inner) :
    Closed separator ('"' :: (inner ++ ['"'])) := by
  intro rest
  simp [splitQuoted, splitQuoted_inside h rest]

theorem Closed.append {separator : Char} {a b : List Char} (ha : Closed separator a)
    (hb : Closed separator b) : Closed separator (a ++ b) := by
  intro rest
  rw [List.append_assoc, ha, hb, List.append_assoc]

theorem splitOutsideQuotes_closed {separator : Char} {piece : List Char}
    (h : Closed separator piece) : splitOutsideQuotes separator piece = [piece] := by
  have hpiece := h []
  rw [List.append_nil] at hpiece
  simp [splitOutsideQuotes, hpiece, splitQuoted]

theorem splitOutsideQuotes_append {separator : Char} {piece : List Char} (hs : separator ≠ '"')
    (h : Closed separator piece) (rest : List Char) :
    splitOutsideQuotes separator (piece ++ separator :: rest) =
      piece :: splitOutsideQuotes separator rest := by
  simp [splitOutsideQuotes, h (separator :: rest), splitQuoted, hs]

theorem splitQuoted_join (separator : Char) (quoted : Bool) (cs : List Char) :
    (splitQuoted separator quoted cs).1 ++
      (splitQuoted separator quoted cs).2.flatMap (separator :: ·) = cs := by
  fun_induction splitQuoted separator quoted cs with
  | case1 => rfl
  | case2 quoted cs first others hrest ih => simpa [hrest] using ih
  | case3 quoted c cs hquote hcut first others hrest ih => simpa [hrest, hcut.1] using ih
  | case4 quoted c cs hquote hcut first others hrest ih => simpa [hrest] using ih

theorem intercalate_splitOutsideQuotes (separator : Char) (cs : List Char) :
    [separator].intercalate (splitOutsideQuotes separator cs) = cs := by
  have hjoin (first : List Char) (others : List (List Char)) :
      [separator].intercalate (first :: others) = first ++ others.flatMap (separator :: ·) := by
    induction others generalizing first with
    | nil => simp
    | cons piece others ih => simp [List.intercalate_cons_cons, ih]
  rw [splitOutsideQuotes, hjoin]
  exact splitQuoted_join separator false cs

/-- Every separator in a piece stands in quotes: the quotes before it, and the one that was open before
the piece, are odd in number. -/
theorem odd_count_of_splitQuoted {separator : Char} (hs : separator ≠ '"') (quoted : Bool)
    (cs : List Char) :
    (∀ before after, (splitQuoted separator quoted cs).1 = before ++ separator :: after →
      (before.count '"' + quoted.toNat) % 2 = 1) ∧
    ∀ piece ∈ (splitQuoted separator quoted cs).2, ∀ before after,
      piece = before ++ separator :: after → before.count '"' % 2 = 1 := by
  fun_induction splitQuoted separator quoted cs with
  | case1 => simp
  | case2 quoted cs first others hrest ih =>
    rw [hrest] at ih
    refine ⟨fun before after h => ?_, ih.2⟩
    cases before with
    | nil => exact absurd (List.cons.inj h).1.symm hs
    | cons c before =>
      obtain ⟨rfl, hfirst⟩ := List.cons.inj h
      have hodd := ih.1 before after hfirst
      rw [List.count_cons_self]
      cases quoted <;> simp at hodd ⊢ <;> omega
  | case3 quoted c cs hquote hcut first others hrest ih =>
    rw [hrest] at ih
    have hclosed : quoted = false := by simpa using hcut.2
    refine ⟨fun before after h => absurd h (by simp), fun piece hpiece => ?_⟩
    rcases List.mem_cons.1 hpiece with rfl | hpiece
    · simpa [hclosed] using ih.1
    · exact ih.2 piece hpiece
  | case4 quoted c cs hquote hcut first others hrest ih =>
    rw [hrest] at ih
    refine ⟨fun before after h => ?_, ih.2⟩
    cases before with
    | nil =>
      -- A separator that is no cut stands in quotes that were open before it.
      obtain ⟨rfl, _⟩ := List.cons.inj h
      have hopen : quoted = true := by simpa using hcut
      simp [hopen]
    | cons d before =>
      obtain ⟨rfl, hfirst⟩ := List.cons.inj h
      have hodd := ih.1 before after hfirst
      simpa [List.count_cons, hquote] using hodd

theorem notMem_of_splitOutsideQuotes {separator : Char} (hs : separator ≠ '"') {cs piece : List Char}
    (h : piece ∈ splitOutsideQuotes separator cs) (hquote : '"' ∉ piece) : separator ∉ piece := by
  intro hmem
  obtain ⟨before, after, rfl⟩ := List.append_of_mem hmem
  have hcount : before.count '"' = 0 :=
    List.count_eq_zero.2 fun hb => hquote (List.mem_append_left _ hb)
  obtain ⟨hfirst, hothers⟩ := odd_count_of_splitQuoted hs false cs
  rcases List.mem_cons.1 h with h | h
  · have hodd := hfirst before after h.symm
    simp [hcount] at hodd
  · have hodd := hothers _ h before after rfl
    simp [hcount] at hodd

end CoverageQuery.Text
