import CoverageQuery.Proofs.Number.ReadBack
import CoverageQuery.Proofs.Query.Clauses
import CoverageQuery.Proofs.Text.Cut

/-!
# Legible subsets and coverages

A coordinate is legible when it is a number, the open bound or a text without a double quote; an
axis when it holds no opening parenthesis; a coverage name when it holds neither commas nor blanks.
Legible parts have texts that end where they can be seen to end, so whatever stands after them, the
first clauses of a query are written in one way only.
-/
namespace CoverageQuery

namespace Coordinate

def Legible : Coordinate → Prop
  | integer _ | float _ => True
  | raw t => t = "*"
  | text t => '"' ∉ t.toList

instance : DecidablePred Legible
  | integer _ | float _ => .isTrue trivial
  | raw t => inferInstanceAs (Decidable (t = "*"))
  | text t => inferInstanceAs (Decidable ('"' ∉ t.toList))

def isBare : Coordinate → Bool
  | text _ => false
  | _ => true

theorem mem_render_of_bare {a : Coordinate} (h : a.Legible) (hb : a.isBare = true) {c : Char}
    (hc : c ∈ a.render.toList) : c.isDigit = true ∨ c ∈ NumberLayout.marks ∨ c = '*' := by
  cases a with
  | integer n =>
    rw [toList_render_integer] at hc
    rcases Integer.mem_write hc with hc | rfl
    · exact .inl hc
    · exact .inr (.inl (by decide))
  | float x =>
    rw [toList_render_float] at hc
    rcases NumberLayout.mem_text hc with hc | hc
    · exact .inl hc
    · exact .inr (.inl hc)
  | raw t =>
    obtain rfl : t = "*" := h
    exact .inr (.inr (by simpa [render] using hc))
  | text t => exact Bool.noConfusion hb

theorem ne_of_mem_bare {a : Coordinate} (h : a.Legible) (hb : a.isBare = true) {c d : Char}
    (hc : c ∈ a.render.toList) (hd : d = ':' ∨ d = ')' ∨ d = '"') : c ≠ d := by
  rintro rfl
  rcases mem_render_of_bare h hb hc with hc | hc | rfl
  · rcases hd with rfl | rfl | rfl <;> exact absurd hc (by decide)
  · rcases hd with rfl | rfl | rfl <;> exact absurd hc (by decide)
  · rcases hd with hd | hd | hd <;> exact absurd hd (by decide)

theorem star_notMem_number {a : Coordinate} (h : a.isNumeric = true) : '*' ∉ a.render.toList := by
  intro hc
  cases a with
  | integer n =>
    rw [toList_render_integer] at hc
    rcases Integer.mem_write hc with hc | hc <;> exact absurd hc (by decide)
  | float x =>
    rw [toList_render_float] at hc
    rcases NumberLayout.mem_text hc with hc | hc <;> exact absurd hc (by decide)
  | raw t => exact Bool.noConfusion h
  | text t => exact Bool.noConfusion h

theorem render_injective_of_numeric {a b : Coordinate} (ha : a.isNumeric = true)
    (hb : b.isNumeric = true) (h : a.render.toList = b.render.toList) : a = b := by
  cases a with
  | integer m =>
    cases b with
    | integer n =>
      rw [toList_render_integer, toList_render_integer] at h
      rw [Int64.toInt_inj.1 (Integer.write_injective h)]
    | float y =>
      rw [toList_render_integer, toList_render_float] at h
      exact absurd h.symm (NumberLayout.text_ne_write rfl y m.toInt)
    | raw t => exact Bool.noConfusion hb
    | text t => exact Bool.noConfusion hb
  | float x =>
    cases b with
    | integer n =>
      rw [toList_render_integer, toList_render_float] at h
      exact absurd h (NumberLayout.text_ne_write rfl x n.toInt)
    | float y =>
      rw [toList_render_float, toList_render_float] at h
      rw [NumberLayout.text_injective _ h]
    | raw t => exact Bool.noConfusion hb
    | text t => exact Bool.noConfusion hb
  | raw t => exact Bool.noConfusion ha
  | text t => exact Bool.noConfusion ha

theorem numeric_or_unbounded {a : Coordinate} (h : a.Legible) (hb : a.isBare = true) :
    a.isNumeric = true ∨ a = unbounded := by
  cases a with
  | integer n => exact .inl rfl
  | float x => exact .inl rfl
  | raw t => exact .inr (congrArg raw h)
  | text t => exact Bool.noConfusion hb

theorem render_injective_of_bare {a b : Coordinate} (ha : a.Legible) (hb : b.Legible)
    (hab : a.isBare = true) (hbb : b.isBare = true) (h : a.render.toList = b.render.toList) :
    a = b := by
  have hstar : '*' ∈ unbounded.render.toList := by decide
  rcases numeric_or_unbounded ha hab with hna | rfl <;>
    rcases numeric_or_unbounded hb hbb with hnb | rfl
  · exact render_injective_of_numeric hna hnb h
  · exact absurd (h ▸ hstar) (star_notMem_number hna)
  · exact absurd (h ▸ hstar) (star_notMem_number hnb)
  · rfl

theorem render_bare_ne_text {a : Coordinate} (ha : a.Legible) (hb : a.isBare = true) {c : Char}
    (hc : c = ':' ∨ c = ')') {t : String} {x y : List Char} :
    a.render.toList ++ c :: x ≠ (text t).render.toList ++ y := by
  intro h
  rw [toList_render_text] at h
  cases hr : a.render.toList with
  | nil =>
    rw [hr] at h
    obtain ⟨rfl, _⟩ := List.cons.inj h
    rcases hc with hc | hc <;> exact absurd hc (by decide)
  | cons e es =>
    rw [hr] at h
    obtain ⟨rfl, _⟩ := List.cons.inj h
    have hmem : '"' ∈ a.render.toList := by rw [hr]; exact List.mem_cons_self
    exact ne_of_mem_bare ha hb hmem (.inr (.inr rfl)) rfl

/-- A legible coordinate before a colon or a closing parenthesis is written in one way. -/
theorem cut {a b : Coordinate} (ha : a.Legible) (hb : b.Legible) {c d : Char}
    (hc : c = ':' ∨ c = ')') (hd : d = ':' ∨ d = ')') {x y : List Char}
    (h : a.render.toList ++ c :: x = b.render.toList ++ d :: y) : a = b ∧ c = d ∧ x = y := by
  cases hba : a.isBare with
  | true =>
    cases hbb : b.isBare with
    | true =>
      obtain ⟨hab, hcd, hxy⟩ := Text.cut_unique (P := fun e => e = ':' ∨ e = ')')
        (fun e he hp => ne_of_mem_bare ha hba he (hp.imp_right .inl) rfl)
        (fun e he hp => ne_of_mem_bare hb hbb he (hp.imp_right .inl) rfl) hc hd h
      exact ⟨render_injective_of_bare ha hb hba hbb hab, hcd, hxy⟩
    | false =>
      cases b with
      | text u => exact absurd h (render_bare_ne_text ha hba hc)
      | _ => exact Bool.noConfusion hbb
  | false =>
    cases a with
    | text t =>
      cases hbb : b.isBare with
      | true => exact absurd h.symm (render_bare_ne_text hb hbb hd)
      | false =>
        cases b with
        | text u =>
          rw [toList_render_text, toList_render_text] at h
          have hinner : t.toList ++ '"' :: c :: x = u.toList ++ '"' :: d :: y := by
            simpa using h
          obtain ⟨htu, hrest⟩ := Text.cut_at ha hb hinner
          rw [String.toList_inj.1 htu]
          exact ⟨rfl, List.cons.inj hrest⟩
        | _ => exact Bool.noConfusion hbb
    | _ => exact Bool.noConfusion hba

end Coordinate

namespace Subset

structure Legible (s : Subset) : Prop where
  axis : '(' ∉ s.axis.toList
  start : s.start.Legible
  stop : ∀ c ∈ s.stop, c.Legible

theorem legible_iff {s : Subset} : s.Legible ↔
    '(' ∉ s.axis.toList ∧ s.start.Legible ∧ ∀ c ∈ s.stop, c.Legible :=
  ⟨fun h => ⟨h.axis, h.start, h.stop⟩, fun h => ⟨h.1, h.2.1, h.2.2⟩⟩

instance : DecidablePred Legible := fun _ => decidable_of_iff' _ legible_iff

theorem cut {s t : Subset} (hs : s.Legible) (ht : t.Legible) {x y : List Char}
    (h : s.render.toList ++ x = t.render.toList ++ y) : s = t ∧ x = y := by
  have hclose : (')' : Char) = ':' ∨ (')' : Char) = ')' := .inr rfl
  have hcolon : (':' : Char) = ':' ∨ (':' : Char) = ')' := .inl rfl
  rcases s.eq_point_or_range with hes | ⟨stop, hstop, hes⟩ <;>
    rcases t.eq_point_or_range with het | ⟨stop', hstop', het⟩ <;>
    rw [hes, het] at h ⊢ <;>
    simp only [toList_render_point, toList_render_range, List.append_assoc, List.cons_append,
      List.nil_append] at h <;>
    obtain ⟨haxis, hbounds⟩ := Text.cut_at hs.axis ht.axis h <;>
    rw [String.toList_inj.1 haxis]
  · obtain ⟨hstart, _, hrest⟩ := Coordinate.cut hs.start ht.start hclose hclose hbounds
    exact ⟨by rw [hstart], hrest⟩
  · obtain ⟨_, hmark, _⟩ := Coordinate.cut hs.start ht.start hclose hcolon hbounds
    exact absurd hmark (by decide)
  · obtain ⟨_, hmark, _⟩ := Coordinate.cut hs.start ht.start hcolon hclose hbounds
    exact absurd hmark (by decide)
  · obtain ⟨hstart, _, hrest⟩ := Coordinate.cut hs.start ht.start hcolon hcolon hbounds
    obtain ⟨hend, _, hrest⟩ :=
      Coordinate.cut (hs.stop stop hstop) (ht.stop stop' hstop') hclose hclose hrest
    exact ⟨by rw [hstart, hend], hrest⟩

theorem cut_all {ss ts : List Subset} (hs : ∀ s ∈ ss, s.Legible) (ht : ∀ t ∈ ts, t.Legible)
    (hss : ss ≠ []) (hts : ts ≠ []) {x y : List Char}
    (h : (renderAll ss).toList ++ ']' :: x = (renderAll ts).toList ++ ']' :: y) :
    ss = ts ∧ x = y := by
  induction ss generalizing ts with
  | nil => exact absurd rfl hss
  | cons s ss ih =>
    cases ts with
    | nil => exact absurd rfl hts
    | cons t ts =>
      have hsl := hs s List.mem_cons_self
      have htl := ht t List.mem_cons_self
      have hsr := fun r hr => hs r (List.mem_cons_of_mem s hr)
      have htr := fun r hr => ht r (List.mem_cons_of_mem t hr)
      cases ss with
      | nil =>
        rw [toList_renderAll_singleton] at h
        cases ts with
        | nil =>
          rw [toList_renderAll_singleton] at h
          obtain ⟨rfl, hrest⟩ := cut hsl htl h
          exact ⟨rfl, (List.cons.inj hrest).2⟩
        | cons t' ts =>
          rw [toList_renderAll_cons_cons, List.append_assoc] at h
          obtain ⟨_, hrest⟩ := cut hsl htl h
          exact absurd (List.cons.inj hrest).1 (by decide)
      | cons s' ss =>
        rw [toList_renderAll_cons_cons, List.append_assoc] at h
        cases ts with
        | nil =>
          rw [toList_renderAll_singleton] at h
          obtain ⟨_, hrest⟩ := cut hsl htl h
          exact absurd (List.cons.inj hrest).1 (by decide)
        | cons t' ts =>
          rw [toList_renderAll_cons_cons, List.append_assoc] at h
          obtain ⟨rfl, hrest⟩ := cut hsl htl h
          have hterms := (List.cons.inj (List.cons.inj hrest).2).2
          obtain ⟨hall, hxy⟩ := ih hsr htr (by simp) (by simp) hterms
          exact ⟨by rw [hall], hxy⟩

end Subset

namespace Query

theorem letText_cut {ss ts : List Subset} (hs : ∀ s ∈ ss, s.Legible) (ht : ∀ t ∈ ts, t.Legible)
    {x y : List Char} (h : letText ss ++ 'r' :: x = letText ts ++ 'r' :: y) : ss = ts ∧ x = y := by
  by_cases hss : ss = []
  · subst hss
    by_cases hts : ts = []
    · subst hts
      exact ⟨rfl, (List.cons.inj h).2⟩
    · rw [letText_append hts] at h
      exact absurd (List.cons.inj h).1 (by decide)
  · rw [letText_append hss] at h
    by_cases hts : ts = []
    · subst hts
      exact absurd (List.cons.inj h).1 (by decide)
    · rw [letText_append hts] at h
      have hterms := List.append_cancel_left h
      obtain ⟨hall, hrest⟩ := Subset.cut_all hs ht hss hts hterms
      exact ⟨hall, (List.cons.inj (List.cons.inj hrest).2).2⟩

/-- Names that the clause of the coverages is read back from. -/
def LegibleNames (names : List String) : Prop :=
  ∀ name ∈ names, ∀ c ∈ name.toList, c ≠ ',' ∧ Text.isBlank c = false

instance : DecidablePred LegibleNames := fun names =>
  decidable_of_iff (names.all fun name => name.toList.all fun c => c ≠ ',' ∧ Text.isBlank c = false)
    (by simp [LegibleNames])

-- A list of several names has a comma, the text of a single name has none.
theorem comma_mem_intercalate {pieces : List (List Char)} (h : 2 ≤ pieces.length) :
    ',' ∈ [','].intercalate pieces := by
  cases pieces with
  | nil => exact absurd h (by simp)
  | cons a rest =>
    cases rest with
    | nil => exact absurd h (by simp)
    | cons b rest => simp [List.intercalate_cons_cons]

theorem newline_notMem_forClause {names : List String} {first : String} (hn : LegibleNames names)
    (h : forClause names = .ok first) : '\n' ∉ first.toList := by
  have hname : ∀ name ∈ names, '\n' ∉ name.toList := by
    intro name hmem hc
    exact absurd (hn name hmem '\n' hc).2 (by decide)
  rcases forClause_cases h with ⟨name, rfl, hfirst⟩ | ⟨_, hfirst⟩
  · have hnewline := hname name List.mem_cons_self
    rw [hfirst]
    simp [hnewline]
  · have hlist : '\n' ∉ [','].intercalate (names.map String.toList) := by
      intro hc
      rcases Text.mem_intercalate hc with hc | ⟨piece, hp, hc⟩
      · exact absurd hc (by decide)
      · obtain ⟨name, hmem, rfl⟩ := List.mem_map.1 hp
        exact hname name hmem hc
    rw [hfirst]
    simp [hlist]

theorem comma_notMem_single {name : String} (h : LegibleNames [name]) :
    ',' ∉ "for $c in ( ".toList ++ (name.toList ++ " )".toList) := by
  have hname : ',' ∉ name.toList := fun hc => (h name List.mem_cons_self ',' hc).1 rfl
  simp [hname]

theorem intercalate_names_injective {names others : List String} (hn : LegibleNames names)
    (ho : LegibleNames others) (hne : names ≠ []) (hone : others ≠ [])
    (h : [','].intercalate (names.map String.toList) =
      [','].intercalate (others.map String.toList)) : names = others := by
  have hsplit : ∀ {list : List String}, LegibleNames list → list ≠ [] →
      ([','].intercalate (list.map String.toList)).splitOn ',' = list.map String.toList := by
    intro list hl hne
    refine List.splitOn_intercalate ',' ?_ (by simpa using hne)
    intro piece hp hc
    obtain ⟨name, hmem, rfl⟩ := List.mem_map.1 hp
    exact (hl name hmem ',' hc).1 rfl
  have hmap := congrArg (List.splitOn ',') h
  rw [hsplit hn hne, hsplit ho hone] at hmap
  exact List.map_injective_iff.2 (fun _ _ => String.toList_inj.1) hmap

theorem forClause_cut {names others : List String} {first second : String}
    (hn : LegibleNames names) (ho : LegibleNames others) (h₁ : forClause names = .ok first)
    (h₂ : forClause others = .ok second) {x y : List Char}
    (h : first.toList ++ '\n' :: x = second.toList ++ '\n' :: y) : names = others ∧ x = y := by
  obtain ⟨htext, hxy⟩ :=
    Text.cut_at (newline_notMem_forClause hn h₁) (newline_notMem_forClause ho h₂) h
  refine ⟨?_, hxy⟩
  have hcomma : ∀ {list : List String}, 2 ≤ list.length →
      ',' ∈ "for $c in (".toList ++ ([','].intercalate (list.map String.toList) ++ [')']) := by
    intro list hl
    have hpieces : 2 ≤ (list.map String.toList).length := by simpa using hl
    have hmem := comma_mem_intercalate hpieces
    simp [hmem]
  rcases forClause_cases h₁ with ⟨name, rfl, hfirst⟩ | ⟨hlong, hfirst⟩ <;>
    rcases forClause_cases h₂ with ⟨other, rfl, hsecond⟩ | ⟨hlong', hsecond⟩ <;>
    rw [hfirst, hsecond] at htext
  · have hname := List.append_cancel_right (List.append_cancel_left htext)
    rw [String.toList_inj.1 hname]
  · exact absurd (htext ▸ hcomma hlong') (comma_notMem_single hn)
  · exact absurd (htext ▸ hcomma hlong) (comma_notMem_single ho)
  · have hlist := List.append_cancel_right (List.append_cancel_left htext)
    refine intercalate_names_injective hn ho ?_ ?_ hlist
    · rintro rfl
      exact absurd hlong (by simp)
    · rintro rfl
      exact absurd hlong' (by simp)

end Query
end CoverageQuery
