import CoverageQuery.Proofs.Text.Cut

/-!
# The places of a word in a text

A word stands at each position of a text where the text goes on with it. A character that the word does
not hold cuts the text for the word: the places in the whole are those before the character and those
after it, for no place lies across it.
-/
namespace CoverageQuery.Text

def places (word text : List Char) : List Nat :=
  (List.range text.length).filter fun n => word.isPrefixOf (text.drop n)

def Lacks (word text : List Char) : Prop := ¬ word <:+: text

instance (word text : List Char) : Decidable (Lacks word text) :=
  inferInstanceAs (Decidable ¬ word <:+: text)

variable {word text a b : List Char} {c : Char}

theorem mem_places {n : Nat} : n ∈ places word text ↔ n < text.length ∧ word <+: text.drop n := by
  rw [places, List.mem_filter, List.mem_range, List.isPrefixOf_iff_prefix]

theorem places_eq_nil_iff (hword : word ≠ []) : places word text = [] ↔ Lacks word text := by
  rw [List.eq_nil_iff_forall_not_mem]
  constructor
  · rintro h ⟨before, after, rfl⟩
    refine h before.length (mem_places.2 ⟨?_, ?_⟩)
    · have hlength := List.length_pos_iff.2 hword
      simp only [List.length_append]
      omega
    · rw [List.append_assoc, List.drop_left]
      exact List.prefix_append word after
  · intro h n hn
    exact h ((mem_places.1 hn).2.isInfix.trans (List.drop_suffix n text).isInfix)

theorem isPrefixOf_cut (hc : c ∉ word) (a b : List Char) :
    word.isPrefixOf (a ++ c :: b) = word.isPrefixOf a := by
  induction a generalizing word with
  | nil =>
    cases word with
    | nil => rfl
    | cons d word =>
      have hne : (d == c) = false := beq_false_of_ne fun hd => hc (hd ▸ List.mem_cons_self)
      simp only [List.nil_append, List.isPrefixOf, hne, Bool.false_and]
  | cons e a ih =>
    cases word with
    | nil => rfl
    | cons d word =>
      simp only [List.cons_append, List.isPrefixOf, ih fun h => hc (List.mem_cons_of_mem d h)]

theorem places_cut (hword : word ≠ []) (hc : c ∉ word) (a b : List Char) :
    places word (a ++ c :: b) =
      places word a ++ (places word b).map (a.length + 1 + ·) := by
  let stands (n : Nat) : Bool := word.isPrefixOf ((a ++ c :: b).drop n)
  have hlength : (a ++ c :: b).length = a.length + 1 + b.length := by
    simp only [List.length_append, List.length_cons]
    omega
  have hbefore : (List.range a.length).filter stands = places word a := by
    refine List.filter_congr fun n hn => ?_
    have hn := (List.mem_range.1 hn).le
    simp only [stands, List.drop_append_of_le_length hn, isPrefixOf_cut hc]
  have hat : [a.length].filter stands = [] := by
    have hfirst : word.isPrefixOf (c :: b) = false := by
      refine (isPrefixOf_cut hc [] b).trans ?_
      cases word with
      | nil => exact absurd rfl hword
      | cons d word => rfl
    refine List.filter_eq_nil_iff.2 fun n hn => ?_
    rw [List.mem_singleton.1 hn]
    simp only [stands, List.drop_left, hfirst, Bool.false_eq_true, not_false_eq_true]
  have hafter : ((List.range b.length).map (a.length + 1 + ·)).filter stands =
      (places word b).map (a.length + 1 + ·) := by
    rw [List.filter_map]
    refine congrArg _ (List.filter_congr fun n _ => ?_)
    simp only [Function.comp_apply, stands, Nat.add_assoc, List.drop_length_add_append]
    rw [Nat.add_comm, List.drop_succ_cons]
  show (List.range (a ++ c :: b).length).filter stands = _
  rw [hlength, List.range_add, List.filter_append, List.range_succ, List.filter_append, hbefore, hat,
    hafter, List.append_nil]

theorem lacks_cut (hword : word ≠ []) (hc : c ∉ word) :
    Lacks word (a ++ c :: b) ↔ Lacks word a ∧ Lacks word b := by
  simp only [← places_eq_nil_iff hword, places_cut hword hc, List.append_eq_nil_iff, List.map_eq_nil_iff]

theorem lacks_of_notMem (hc : c ∈ word) (h : c ∉ text) : Lacks word text :=
  fun hword => h (hword.subset hc)

end CoverageQuery.Text
