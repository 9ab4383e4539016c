import Mathlib.Data.List.Infix

/-!
# Cutting a text in one way

A text is cut in one way at the first character of a class, and in one way before the first
occurrence of a word that stands after a character it does not hold itself.
-/
namespace CoverageQuery.Text

theorem cut_unique {α : Type} {P : α → Prop} {a b x y : List α} {c d : α} (ha : ∀ e ∈ a, ¬ P e)
    (hb : ∀ e ∈ b, ¬ P e) (hc : P c) (hd : P d) (h : a ++ c :: x = b ++ d :: y) :
    a = b ∧ c = d ∧ x = y := by
  induction a generalizing b with
  | nil =>
    cases b with
    | nil => exact ⟨rfl, List.cons.inj h⟩
    | cons e b =>
      obtain ⟨rfl, _⟩ := List.cons.inj h
      exact absurd hc (hb c List.mem_cons_self)
  | cons e a ih =>
    cases b with
    | nil =>
      obtain ⟨rfl, _⟩ := List.cons.inj h
      exact absurd hd (ha e List.mem_cons_self)
    | cons f b =>
      obtain ⟨rfl, hrest⟩ := List.cons.inj h
      obtain ⟨rfl, hcut⟩ := ih (fun g hg => ha g (List.mem_cons_of_mem e hg))
        (fun g hg => hb g (List.mem_cons_of_mem e hg)) hrest
      exact ⟨rfl, hcut⟩

theorem cut_at {α : Type} {a b x y : List α} {c : α} (ha : c ∉ a) (hb : c ∉ b)
    (h : a ++ c :: x = b ++ c :: y) : a = b ∧ x = y := by
  obtain ⟨hab, _, hxy⟩ := cut_unique (P := fun e => e = c) (fun e he hec => ha (hec ▸ he))
    (fun e he hec => hb (hec ▸ he)) rfl rfl h
  exact ⟨hab, hxy⟩

theorem eq_nil_of_word {α : Type} {word a u x z : List α} {c : α} (hc : c ∉ word)
    (ha : ¬ word <:+: a ++ u) (h : c :: (word ++ x) = u ++ c :: z) : u = [] := by
  cases u with
  | nil => rfl
  | cons e u =>
    exfalso
    -- The word starts right after the first mark, so the second mark comes after it or within it.
    obtain ⟨rfl, hrest⟩ := List.cons.inj h
    rcases List.append_eq_append_iff.1 hrest with ⟨t, rfl, _⟩ | ⟨t, rfl, ht⟩
    · exact ha ⟨a ++ [c], t, by simp⟩
    · cases t with
      | nil => exact ha ⟨a ++ [c], [], by simp⟩
      | cons f t =>
        obtain ⟨rfl, _⟩ := List.cons.inj ht
        exact hc (by simp)

theorem cut_at_word {α : Type} {word a b x y : List α} {c : α} (hc : c ∉ word)
    (ha : ¬ word <:+: a) (hb : ¬ word <:+: b) (h : a ++ c :: (word ++ x) = b ++ c :: (word ++ y)) :
    a = b ∧ x = y := by
  have hab : a = b := by
    rcases List.append_eq_append_iff.1 h with ⟨u, rfl, hu⟩ | ⟨u, rfl, hu⟩
    · rw [eq_nil_of_word hc hb hu, List.append_nil]
    · rw [eq_nil_of_word hc ha hu, List.append_nil]
  subst hab
  exact ⟨rfl, List.append_cancel_left (List.cons.inj (List.append_cancel_left h)).2⟩

theorem mem_intercalate {α : Type} {c : α} {separator : List α} {pieces : List (List α)}
    (h : c ∈ separator.intercalate pieces) : c ∈ separator ∨ ∃ piece ∈ pieces, c ∈ piece := by
  induction pieces with
  | nil => exact absurd h (by simp)
  | cons a rest ih =>
    cases rest with
    | nil => exact .inr ⟨a, List.mem_cons_self, by simpa using h⟩
    | cons b rest =>
      rw [List.intercalate_cons_cons] at h
      rcases List.mem_append.1 h with h | h
      · rcases List.mem_append.1 h with h | h
        · exact .inr ⟨a, List.mem_cons_self, h⟩
        · exact .inl h
      · rcases ih h with h | ⟨piece, hp, h⟩
        · exact .inl h
        · exact .inr ⟨piece, List.mem_cons_of_mem a hp, h⟩

end CoverageQuery.Text
