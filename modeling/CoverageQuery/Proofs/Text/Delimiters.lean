import CoverageQuery.Text.Delimiters

/-!
# Scans of balanced texts

A scan never looks below the brackets it opened itself, so a scan from the start carries over to any
brackets that were open before. A balanced text therefore leaves every scan outside literals as it
was, and at each point inside it the brackets that were open before are still open. Concatenation,
brackets around a balanced text and quotes around a text without quotes give balanced texts.
-/
namespace CoverageQuery.Text

namespace DelimiterScan

def within (s : DelimiterScan) (outer : List Char) : DelimiterScan :=
  ⟨s.pending ++ outer, s.quoted⟩

theorem step_cases {s t : DelimiterScan} {c : Char} (h : s.step c = some t) :
    (c = '"' ∧ t = ⟨s.pending, !s.quoted⟩) ∨
    (c ≠ '"' ∧ s.quoted = true ∧ t = s) ∨
    (c ≠ '"' ∧ s.quoted = false ∧ isOpener c = true ∧ t = ⟨c :: s.pending, false⟩) ∨
    (c ≠ '"' ∧ s.quoted = false ∧ isOpener c = false ∧ opener? c = none ∧ t = s) ∨
    (∃ o rest, c ≠ '"' ∧ s.quoted = false ∧ isOpener c = false ∧ opener? c = some o ∧
      s.pending = o :: rest ∧ t = ⟨rest, false⟩) := by
  -- The cases follow the tests of the step, in their order.
  obtain ⟨pending, quoted⟩ := s
  by_cases hquote : c = '"'
  · exact .inl ⟨hquote, by simpa [step, hquote] using h.symm⟩
  refine .inr ?_
  cases quoted with
  | true => exact .inl ⟨hquote, rfl, by simpa [step, hquote] using h.symm⟩
  | false =>
    refine .inr ?_
    by_cases hopen : isOpener c = true
    · exact .inl ⟨hquote, rfl, hopen, by simpa [step, hquote, hopen] using h.symm⟩
    refine .inr ?_
    have hopen : isOpener c = false := by simpa using hopen
    cases ho : opener? c with
    | none => exact .inl ⟨hquote, rfl, hopen, rfl, by simpa [step, hquote, hopen, ho] using h.symm⟩
    | some o =>
      simp only [step, hquote, hopen, ho, if_false, Bool.false_eq_true] at h
      split at h
      · rename_i hhead
        obtain ⟨rest, rfl⟩ := List.head?_eq_some_iff.1 hhead
        exact .inr ⟨o, rest, hquote, rfl, hopen, rfl, rfl, (Option.some.inj h).symm⟩
      · exact absurd h (by simp)

theorem step_within {s t : DelimiterScan} {c : Char} (h : s.step c = some t) (outer : List Char) :
    (s.within outer).step c = some (t.within outer) := by
  obtain ⟨hc, rfl⟩ | ⟨hc, hq, rfl⟩ | ⟨hc, hq, ho, rfl⟩ | ⟨hc, hq, ho, hn, rfl⟩ |
    ⟨o, rest, hc, hq, ho, hs, hp, rfl⟩ := step_cases h
  · simp [step, within, hc]
  · simp [step, within, hc, hq]
  · simp [step, within, hc, hq, ho]
  · simp [step, within, hc, hq, ho, hn]
  · simp [step, within, hc, hq, ho, hs, hp]

theorem run_within {s t : DelimiterScan} {cs : List Char} (h : s.run cs = some t)
    (outer : List Char) : (s.within outer).run cs = some (t.within outer) := by
  induction cs generalizing s with
  | nil =>
    obtain rfl := Option.some.inj h
    rfl
  | cons c cs ih =>
    obtain ⟨u, hstep, hrun⟩ := Option.bind_eq_some_iff.1 h
    exact Option.bind_eq_some_iff.2 ⟨_, step_within hstep outer, ih hrun⟩

theorem run_append_eq_some {s u : DelimiterScan} {a b : List Char} :
    s.run (a ++ b) = some u ↔ ∃ t, s.run a = some t ∧ t.run b = some u := by
  rw [run_append]
  exact Option.bind_eq_some_iff

theorem run_cons (s : DelimiterScan) (c : Char) (cs : List Char) :
    s.run (c :: cs) = (s.step c).bind fun t => t.run cs := rfl

def delimiters : List Char := ['"', '(', '[', '\x7b', ')', ']', '\x7d']

def inside (pending : List Char) : DelimiterScan := ⟨pending, false⟩

theorem opener?_eq_none {c : Char} (h : c ∉ delimiters) : opener? c = none := by
  unfold opener?
  split <;> first | rfl | exact absurd h (by decide)

theorem isOpener_eq_false {c : Char} (h : c ∉ delimiters) : isOpener c = false := by
  refine decide_eq_false ?_
  rintro (rfl | rfl | rfl) <;> exact h (by decide)

theorem step_plain {c : Char} (h : c ∉ delimiters) (s : DelimiterScan) : s.step c = some s := by
  have hquote : c ≠ '"' := by
    rintro rfl
    exact h (by decide)
  simp [step, hquote, isOpener_eq_false h, opener?_eq_none h]

theorem run_plain {cs : List Char} (h : ∀ c ∈ cs, c ∉ delimiters) (s : DelimiterScan) :
    s.run cs = some s := by
  induction cs with
  | nil => rfl
  | cons c cs ih =>
    rw [run_cons, step_plain (h c List.mem_cons_self)]
    exact ih fun d hd => h d (List.mem_cons_of_mem c hd)

theorem step_opener {c : Char} (h : isOpener c = true) (pending : List Char) :
    (inside pending).step c = some (inside (c :: pending)) := by
  have hquote : c ≠ '"' := by
    rintro rfl
    exact absurd h (by decide)
  simp [step, inside, hquote, h]

theorem step_closer {c o : Char} (h : opener? c = some o) (pending : List Char) :
    (inside (o :: pending)).step c = some (inside pending) := by
  have hquote : c ≠ '"' := by
    rintro rfl
    exact absurd h (by simp [opener?])
  have hopen : isOpener c = false := by
    unfold opener? at h
    split at h <;> first | rfl | exact absurd h (by simp)
  simp [step, inside, hquote, hopen, h]

end DelimiterScan

open DelimiterScan

theorem balanced_iff {cs : List Char} :
    balanced cs = true ↔ ∀ pending, (inside pending).run cs = some (inside pending) :=
  ⟨fun h pending => run_within (of_decide_eq_true h) pending, fun h => decide_eq_true (h [])⟩

theorem exists_run_of_balanced {cs p : List Char} (h : balanced cs = true) (hp : p <+: cs)
    (pending : List Char) :
    ∃ nested quoted, (inside pending).run p = some ⟨nested ++ pending, quoted⟩ := by
  obtain ⟨rest, rfl⟩ := hp
  obtain ⟨t, ht, _⟩ := run_append_eq_some.1 (of_decide_eq_true h)
  exact ⟨t.pending, t.quoted, run_within ht pending⟩

theorem balanced_append {a b : List Char} (ha : balanced a = true) (hb : balanced b = true) :
    balanced (a ++ b) = true :=
  balanced_iff.2 fun pending =>
    run_append_eq_some.2 ⟨_, balanced_iff.1 ha pending, balanced_iff.1 hb pending⟩

theorem balanced_cons {c : Char} {cs : List Char} (hc : c ∉ delimiters)
    (h : balanced cs = true) : balanced (c :: cs) = true := by
  refine balanced_iff.2 fun pending => ?_
  rw [run_cons, step_plain hc]
  exact balanced_iff.1 h pending

theorem balanced_of_plain {cs : List Char} (h : ∀ c ∈ cs, c ∉ delimiters) : balanced cs = true :=
  decide_eq_true (run_plain h start)

theorem balanced_enclose {o c : Char} {cs : List Char} (ho : isOpener o = true)
    (hc : opener? c = some o) (h : balanced cs = true) : balanced (o :: (cs ++ [c])) = true := by
  refine balanced_iff.2 fun pending => ?_
  rw [run_cons, step_opener ho pending]
  refine run_append_eq_some.2 ⟨_, balanced_iff.1 h (o :: pending), ?_⟩
  rw [run_cons, step_closer hc pending]
  rfl

theorem balanced_parentheses {cs : List Char} (h : balanced cs = true) :
    balanced ('(' :: (cs ++ [')'])) = true := balanced_enclose rfl rfl h

theorem run_quoted {cs : List Char} (h : '"' ∉ cs) (pending : List Char) :
    run ⟨pending, true⟩ cs = some ⟨pending, true⟩ := by
  induction cs with
  | nil => rfl
  | cons c cs ih =>
    have hquote : c ≠ '"' := fun hc => h (by rw [hc]; exact List.mem_cons_self)
    have hstep : step ⟨pending, true⟩ c = some ⟨pending, true⟩ := by simp [step, hquote]
    rw [run_cons, hstep]
    exact ih fun hc => h (List.mem_cons_of_mem c hc)

theorem balanced_literal {cs : List Char} (h : '"' ∉ cs) :
    balanced ('"' :: (cs ++ ['"'])) = true := by
  refine balanced_iff.2 fun pending => ?_
  rw [run_cons]
  exact run_append_eq_some.2 ⟨_, run_quoted h pending, rfl⟩

theorem balanced_intercalate {separator : List Char} {pieces : List (List Char)}
    (hs : balanced separator = true) (h : ∀ piece ∈ pieces, balanced piece = true) :
    balanced (separator.intercalate pieces) = true := by
  induction pieces with
  | nil => rfl
  | cons a rest ih =>
    have hrest := ih fun piece hp => h piece (List.mem_cons_of_mem a hp)
    have ha := h a List.mem_cons_self
    cases rest with
    | nil => simpa using ha
    | cons b rest =>
      rw [List.intercalate_cons_cons]
      exact balanced_append (balanced_append ha hs) hrest

end CoverageQuery.Text
