import CoverageQuery.Proofs.Query.Legible

/-!
# Readable queries

A query is legible when its subsets and coverage names are and when, in a switch, every branch stays
on its line and no condition holds the word that ends conditions. The text of a legible query tells
what the query asks for: two legible queries with one text have the same coverages, the same subset,
the same kind of answer, and the same value, as far as values differ in text.
-/
namespace CoverageQuery

theorem Aggregation.name_injective {a b : Aggregation} (h : a.name = b.name) : a = b := by
  cases a <;> cases b <;> first | rfl | exact absurd h (by decide)

namespace Mode

def gap : Mode → Char
  | switch _ => '\n'
  | _ => ' '

theorem paren_notMem_word (m : Mode) : '(' ∉ m.word.toList := by
  cases m with
  | aggregate a => cases a <;> simp [word, Aggregation.name]
  | _ => simp [word]

theorem kind_of_word {m n : Mode} (hword : m.word = n.word) (hgap : m.gap = n.gap) :
    m.name = n.name ∧ m.aggregation? = n.aggregation? := by
  have hencode : ∀ a : Aggregation, a.name ++ " " ≠ "encode " := by
    intro a
    cases a <;> decide
  cases m with
  | plain =>
    cases n with
    | plain => exact ⟨rfl, rfl⟩
    | aggregate b => exact absurd hword (by simp [word])
    | encode g => exact absurd hword (by simp [word])
    | «switch» t => exact absurd hgap (by simp [gap])
  | aggregate a =>
    cases n with
    | aggregate b =>
      have hname := congrArg String.toList hword
      simp only [word, String.toList_append] at hname
      have hname := String.toList_inj.1 (List.append_cancel_right hname)
      exact ⟨rfl, congrArg some (Aggregation.name_injective hname)⟩
    | encode g => exact absurd hword (hencode a)
    | _ => exact absurd hword (by simp [word])
  | encode f =>
    cases n with
    | aggregate b => exact absurd hword.symm (hencode b)
    | encode g => exact ⟨rfl, rfl⟩
    | _ => exact absurd hword (by simp [word])
  | «switch» s =>
    cases n with
    | plain => exact absurd hgap (by simp [gap])
    | aggregate b => exact absurd hword (by simp [word])
    | encode g => exact absurd hword (by simp [word])
    | «switch» t => exact ⟨rfl, rfl⟩

theorem switch?_eq_none_iff {m n : Mode} (h : m.name = n.name) :
    m.switch? = none ↔ n.switch? = none := by
  cases m <;> cases n <;> simp_all [name, switch?]

theorem format_of_suffix {f g : Encoding}
    (h : (encode f).closing.toList <:+ (encode g).closing.toList) : f = g := by
  cases f <;> cases g <;> first | rfl | exact absurd h (by decide)

theorem closing_congr {m n : Mode} (h : m.encoding? = n.encoding?) : m.closing = n.closing := by
  cases m <;> cases n <;> simp_all [encoding?, closing]

theorem closing_unique {m n : Mode} (hname : m.name = n.name) {x y : List Char}
    (h : x ++ m.closing.toList = y ++ n.closing.toList) :
    m.encoding? = n.encoding? ∧ x = y := by
  have hkind : m.encoding? = n.encoding? := by
    cases m with
    | encode f =>
      cases n with
      | encode g =>
        have hm : (encode f).closing.toList <:+ x ++ (encode f).closing.toList :=
          List.suffix_append x _
        have hn : (encode g).closing.toList <:+ x ++ (encode f).closing.toList := by
          rw [h]
          exact List.suffix_append y _
        rcases List.suffix_or_suffix_of_suffix hm hn with hs | hs
        · rw [format_of_suffix hs]
        · rw [format_of_suffix hs]
      | _ => exact absurd hname (by simp [name])
    | _ =>
      cases n with
      | encode g => exact absurd hname (by simp [name])
      | _ => rfl
  rw [closing_congr hkind] at h
  exact ⟨hkind, List.append_cancel_right h⟩

end Mode

namespace Branch

structure Legible (b : Branch) : Prop where
  condition : '\n' ∉ b.condition.toList
  result : '\n' ∉ b.result.render.toList
  word : ¬ "return".toList <:+: b.condition.toList

theorem legible_iff {b : Branch} : b.Legible ↔ '\n' ∉ b.condition.toList ∧
    '\n' ∉ b.result.render.toList ∧ ¬ "return".toList <:+: b.condition.toList :=
  ⟨fun h => ⟨h.condition, h.result, h.word⟩, fun h => ⟨h.1, h.2.1, h.2.2⟩⟩

instance : DecidablePred Legible := fun _ => decidable_of_iff' _ legible_iff

theorem toList_line (b : Branch) : b.line.toList =
    "case ".toList ++ (b.condition.toList ++
      ' ' :: ("return".toList ++ ' ' :: b.result.render.toList)) := by
  simp [line]

theorem newline_notMem_line {b : Branch} (h : b.Legible) : '\n' ∉ b.line.toList := by
  rw [toList_line]
  simp [h.condition, h.result]

theorem cut {b c : Branch} (hb : b.Legible) (hc : c.Legible) {x y : List Char}
    (h : b.line.toList ++ '\n' :: x = c.line.toList ++ '\n' :: y) :
    b.condition = c.condition ∧ b.result.render = c.result.render ∧ x = y := by
  obtain ⟨hline, hxy⟩ := Text.cut_at (newline_notMem_line hb) (newline_notMem_line hc) h
  rw [toList_line, toList_line] at hline
  have hspace : ' ' ∉ "return".toList := by decide
  obtain ⟨hcondition, hresult⟩ :=
    Text.cut_at_word hspace hb.word hc.word (List.append_cancel_left hline)
  exact ⟨String.toList_inj.1 hcondition, String.toList_inj.1 (List.cons.inj hresult).2, hxy⟩

end Branch

namespace Switch

def Legible (s : Switch) : Prop := ∀ b ∈ s.branches, b.Legible

instance : DecidablePred Legible := fun s =>
  inferInstanceAs (Decidable (∀ b ∈ s.branches, b.Legible))

def reading (s : Switch) : List (String × String) × Option String :=
  (s.branches.map fun b => (b.condition, b.result.render), s.fallback.map Expression.render)

theorem fallbackText_none {s : Switch} (h : s.fallback = none) : s.fallbackText = [] := by
  simp [fallbackText, fallbackLines, h]

theorem fallbackText_some {s : Switch} {e : Expression} (h : s.fallback = some e) :
    s.fallbackText = "default return ".toList ++ (e.render.toList ++ ['\n']) := by
  simp [fallbackText, fallbackLines, h]

theorem fallback_of_text {s t : Switch} (h : s.fallbackText = t.fallbackText) :
    s.fallback.map Expression.render = t.fallback.map Expression.render := by
  cases hs : s.fallback with
  | none =>
    cases ht : t.fallback with
    | none => rfl
    | some e =>
      rw [fallbackText_none hs, fallbackText_some ht] at h
      exact absurd h (by simp)
  | some e =>
    cases ht : t.fallback with
    | none =>
      rw [fallbackText_some hs, fallbackText_none ht] at h
      exact absurd h (by simp)
    | some e' =>
      rw [fallbackText_some hs, fallbackText_some ht] at h
      have hresult := List.append_cancel_right (List.append_cancel_left h)
      simp [String.toList_inj.1 hresult]

theorem branchText_ne_fallbackText {b : Branch} {bs : List Branch} {s t : Switch} :
    branchText (b :: bs) ++ s.fallbackText ≠ t.fallbackText := by
  intro h
  rw [branchText, List.flatMap_cons, Branch.toList_line] at h
  cases ht : t.fallback with
  | none =>
    rw [fallbackText_none ht] at h
    exact absurd h (by simp)
  | some e =>
    rw [fallbackText_some ht] at h
    exact absurd (List.cons.inj h).1 (by decide)

theorem branchText_cons_append (b : Branch) (bs : List Branch) (x : List Char) :
    branchText (b :: bs) ++ x = b.line.toList ++ '\n' :: (branchText bs ++ x) := by
  simp [branchText]

theorem branches_cut {s t : Switch} {bs cs : List Branch} (hb : ∀ b ∈ bs, b.Legible)
    (hc : ∀ c ∈ cs, c.Legible)
    (h : branchText bs ++ s.fallbackText = branchText cs ++ t.fallbackText) :
    (bs.map fun b => (b.condition, b.result.render)) =
      (cs.map fun c => (c.condition, c.result.render)) ∧ s.fallbackText = t.fallbackText := by
  induction bs generalizing cs with
  | nil =>
    cases cs with
    | nil => exact ⟨rfl, h⟩
    | cons c cs => exact absurd h.symm branchText_ne_fallbackText
  | cons b bs ih =>
    cases cs with
    | nil => exact absurd h branchText_ne_fallbackText
    | cons c cs =>
      rw [branchText_cons_append, branchText_cons_append] at h
      obtain ⟨hcondition, hresult, hrest⟩ :=
        Branch.cut (hb b List.mem_cons_self) (hc c List.mem_cons_self) h
      obtain ⟨hmap, hfallback⟩ := ih (fun d hd => hb d (List.mem_cons_of_mem b hd))
        (fun d hd => hc d (List.mem_cons_of_mem c hd)) hrest
      refine ⟨?_, hfallback⟩
      rw [List.map_cons, List.map_cons, hcondition, hresult, hmap]

theorem reading_of_render {s t : Switch} (hs : s.Legible) (ht : t.Legible)
    (h : s.render.toList = t.render.toList) : s.reading = t.reading := by
  have hlines : s.render.toList ++ ['\n'] = t.render.toList ++ ['\n'] := by rw [h]
  rw [toList_render_newline, toList_render_newline, List.append_assoc, List.append_assoc] at hlines
  obtain ⟨hmap, hfallback⟩ := branches_cut hs ht (List.append_cancel_left hlines)
  exact Prod.ext hmap (fallback_of_text hfallback)

end Switch

namespace Query

/-- Queries that are read back from their texts. -/
structure Legible (q : Query) : Prop where
  coverages : LegibleNames q.coverages
  subset : ∀ s ∈ q.subset, s.Legible
  branches : ∀ s ∈ q.mode.switch?, s.Legible

theorem legible_iff {q : Query} : q.Legible ↔ LegibleNames q.coverages ∧
    (∀ s ∈ q.subset, s.Legible) ∧ ∀ s ∈ q.mode.switch?, s.Legible :=
  ⟨fun h => ⟨h.coverages, h.subset, h.branches⟩, fun h => ⟨h.1, h.2.1, h.2.2⟩⟩

instance : DecidablePred Legible := fun _ => decidable_of_iff' _ legible_iff

theorem valueText_unique {v w : Expression}
    (h : (valueText v).toList = (valueText w).toList) :
    v.isIterator = w.isIterator ∧ (v.isIterator = false → v.render = w.render) := by
  unfold valueText at h
  cases hv : v.isIterator with
  | true =>
    cases hw : w.isIterator with
    | true => exact ⟨rfl, fun hf => Bool.noConfusion hf⟩
    | false => simp [hv, hw, iterator] at h
  | false =>
    cases hw : w.isIterator with
    | true => simp [hv, hw, iterator] at h
    | false =>
      simp only [hv, hw, Bool.false_eq_true, if_false, String.toList_append] at h
      have hrender := List.append_cancel_left (List.append_cancel_right h)
      exact ⟨rfl, fun _ => String.toList_inj.1 hrender⟩

theorem exists_returnText (q : Query) : ∃ rest, q.returnText =
    "return ".toList ++ (q.mode.word.toList ++ '(' :: q.mode.gap :: rest) := by
  cases hmode : q.mode with
  | «switch» s => exact ⟨_, returnText_of_switch hmode⟩
  | _ =>
    have hvalue : q.mode.switch? = none := by rw [hmode]; rfl
    have htext := returnText_of_value hvalue
    rw [hmode] at htext
    exact ⟨_, htext⟩

theorem kind_of_returnText {p q : Query} (h : p.returnText = q.returnText) :
    p.mode.name = q.mode.name ∧ p.mode.aggregation? = q.mode.aggregation? := by
  obtain ⟨x, hx⟩ := p.exists_returnText
  obtain ⟨y, hy⟩ := q.exists_returnText
  rw [hx, hy] at h
  obtain ⟨hword, hrest⟩ := Text.cut_at p.mode.paren_notMem_word q.mode.paren_notMem_word
    (List.append_cancel_left h)
  exact Mode.kind_of_word (String.toList_inj.1 hword) (List.cons.inj hrest).1

theorem value_of_returnText {p q : Query} (hp : p.mode.switch? = none)
    (hq : q.mode.switch? = none) (hsubset : p.subset = q.subset)
    (hname : p.mode.name = q.mode.name) (h : p.returnText = q.returnText) :
    p.mode.encoding? = q.mode.encoding? ∧ p.value.isIterator = q.value.isIterator ∧
      (p.value.isIterator = false → p.value.render = q.value.render) := by
  rw [returnText_of_value hp, returnText_of_value hq, hsubset] at h
  obtain ⟨_, hrest⟩ := Text.cut_at p.mode.paren_notMem_word q.mode.paren_notMem_word
    (List.append_cancel_left h)
  obtain ⟨hformat, hvalue⟩ := Mode.closing_unique hname (List.cons.inj hrest).2
  exact ⟨hformat, valueText_unique (List.append_cancel_right hvalue)⟩

theorem reading_of_returnText {p q : Query} {s t : Switch} (hs : s.Legible) (ht : t.Legible)
    (hp : p.mode = .switch s) (hq : q.mode = .switch t) (hsubset : p.subset = q.subset)
    (h : p.returnText = q.returnText) : s.reading = t.reading := by
  rw [returnText_of_switch hp, returnText_of_switch hq, hsubset] at h
  have hbody := (List.cons.inj (List.cons.inj (List.append_cancel_left h)).2).2
  exact Switch.reading_of_render hs ht (List.append_cancel_right hbody)

theorem cut_clauses {p q : Query} {text : String} (hp : p.Legible) (hq : q.Legible)
    (h₁ : p.render = .ok text) (h₂ : q.render = .ok text) :
    p.coverages = q.coverages ∧ p.subset = q.subset ∧ p.returnText = q.returnText := by
  obtain ⟨first, hfirst, htext⟩ := toList_of_render h₁
  obtain ⟨second, hsecond, htext'⟩ := toList_of_render h₂
  rw [htext] at htext'
  obtain ⟨hcoverages, hrest⟩ := forClause_cut hp.coverages hq.coverages hfirst hsecond htext'
  obtain ⟨x, hx⟩ := p.exists_returnText
  obtain ⟨y, hy⟩ := q.exists_returnText
  have hp' : p.returnText = 'r' :: p.returnText.tail := by rw [hx]; rfl
  have hq' : q.returnText = 'r' :: q.returnText.tail := by rw [hy]; rfl
  rw [hp', hq'] at hrest
  obtain ⟨hsubset, htail⟩ := letText_cut hp.subset hq.subset hrest
  exact ⟨hcoverages, hsubset, by rw [hp', hq', htail]⟩

/-- Two legible queries with one text ask for the same: they can differ only in values that have one
text, and in the blanks around the iterator. -/
theorem eq_of_render_eq {p q : Query} {text : String} (hp : p.Legible) (hq : q.Legible)
    (h₁ : p.render = .ok text) (h₂ : q.render = .ok text) :
    p.coverages = q.coverages ∧ p.subset = q.subset ∧ p.mode.name = q.mode.name ∧
      p.mode.aggregation? = q.mode.aggregation? ∧ p.mode.encoding? = q.mode.encoding? ∧
      p.mode.switch?.map Switch.reading = q.mode.switch?.map Switch.reading ∧
      (p.mode.switch? = none → p.value.isIterator = q.value.isIterator ∧
        (p.value.isIterator = false → p.value.render = q.value.render)) := by
  obtain ⟨hcoverages, hsubset, hreturn⟩ := cut_clauses hp hq h₁ h₂
  obtain ⟨hname, haggregation⟩ := kind_of_returnText hreturn
  -- Both queries have a switch or neither has: the word and the gap already tell.
  refine ⟨hcoverages, hsubset, hname, haggregation, ?_⟩
  cases hs : p.mode.switch? with
  | none =>
    have ht : q.mode.switch? = none := (Mode.switch?_eq_none_iff hname).1 hs
    obtain ⟨hformat, hvalue⟩ := value_of_returnText hs ht hsubset hname hreturn
    exact ⟨hformat, by rw [ht], fun _ => hvalue⟩
  | some s =>
    cases ht : q.mode.switch? with
    | none => rw [(Mode.switch?_eq_none_iff hname).2 ht] at hs; exact absurd hs (by simp)
    | some t =>
      have hps := Mode.eq_of_switch? hs
      have hqt := Mode.eq_of_switch? ht
      have hreading := reading_of_returnText (hp.branches s hs) (hq.branches t ht) hps hqt hsubset
        hreturn
      refine ⟨by rw [hps, hqt]; rfl, congrArg some hreading, fun hnone => ?_⟩
      exact absurd hnone (by simp)

/-- A query with numbers for results and a coordinate that looks like the end of its clause. -/
def numberExample : Query :=
  let warm := (Binary64.read? "27.5".toList).getD .nan
  ⟨["A", "B"], [.range "Lat" (.float warm) Coordinate.unbounded, .point "time" (.text "):\n]")],
    .integer 7, .switch ⟨[⟨"$c > 3", .integer 7⟩, ⟨"", .float warm⟩], some (.integer (-1))⟩⟩

def rawExample : Query :=
  { numberExample with
    value := .ofIterator
    mode := .switch ⟨[⟨"$c > 3", .raw "7"⟩, ⟨"", .raw "27.5"⟩], some (.raw "-1")⟩ }

def exampleText : String :=
  "for $c in (A,B)\nlet $subset := [Lat(27.5:*), time(\"):\n]\")]\nreturn (\nswitch\n"
    ++ "case $c > 3 return 7\ncase  return 27.5\ndefault return -1\n) [ $subset ]"

theorem eq_of_render_eq_example :
    (numberExample.Legible ∧ rawExample.Legible ∧ numberExample.render = .ok exampleText ∧
      rawExample.render = .ok exampleText) ∧
    numberExample.coverages = rawExample.coverages ∧ numberExample.subset = rawExample.subset ∧
      numberExample.mode.switch?.map Switch.reading =
        rawExample.mode.switch?.map Switch.reading := by
  have hp : numberExample.Legible := by decide +kernel
  have hq : rawExample.Legible := by decide +kernel
  have h₁ : numberExample.render = .ok exampleText := by decide +kernel
  have h₂ : rawExample.render = .ok exampleText := by decide +kernel
  obtain ⟨hcoverages, hsubset, _, _, _, hreading, _⟩ := eq_of_render_eq hp hq h₁ h₂
  exact ⟨⟨hp, hq, h₁, h₂⟩, hcoverages, hsubset, hreading⟩

end Query
end CoverageQuery
