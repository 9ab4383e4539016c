import CoverageQuery.Proofs.Query.Balance

/-!
# The parentheses around a value

In every mode but a switch, a value other than the iterator stands between parentheses that do not
depend on it. When the value is accepted by the check of delimiters and the clauses before it are
delimited, a scan of the whole text comes to the value outside literals, the parenthesis before the
value stays open throughout, and the one after the value closes it.
-/
namespace CoverageQuery.Query

open Text
open Text.DelimiterScan (inside start)
open Expression (Accepted accepted_iff)

/-- A value between parentheses of its own: a scan comes to it outside literals, the parenthesis
before it stays open at every point up to the one after it, and that one closes it and nothing else.
-/
structure Enclosed (text value before after : List Char) (pending : List Char) : Prop where
  parts : text = before ++ '(' :: ' ' :: (value ++ ' ' :: ')' :: after)
  outside : start.run before = some (inside pending)
  entered : start.run (before ++ ['(', ' ']) = some (inside ('(' :: pending))
  within : ∀ p, p <+: ' ' :: (value ++ [' ']) → ∃ nested quoted,
    start.run (before ++ '(' :: p) = some ⟨nested ++ '(' :: pending, quoted⟩
  left : start.run (before ++ '(' :: ' ' :: (value ++ [' '])) = some (inside ('(' :: pending))
  closed : start.run (before ++ '(' :: ' ' :: (value ++ [' ', ')'])) = some (inside pending)

theorem balanced_spaced {value : List Char} (h : balanced value = true) :
    balanced (' ' :: (value ++ [' '])) = true :=
  balanced_cons (by decide) (balanced_append h (by decide))

theorem enclosed_of_balanced {value before after pending : List Char}
    (hbefore : start.run before = some (inside pending)) (h : balanced value = true) :
    Enclosed (before ++ '(' :: ' ' :: (value ++ ' ' :: ')' :: after)) value before after
      pending := by
  have hopened : ∀ {p : List Char} {t}, (inside ('(' :: pending)).run p = some t →
      start.run (before ++ '(' :: p) = some t := by
    intro p t ht
    exact DelimiterScan.run_append_eq_some.2 ⟨_, hbefore, ht⟩
  have hspaced := balanced_spaced h
  refine ⟨rfl, hbefore, hopened rfl, ?_, hopened (balanced_iff.1 hspaced ('(' :: pending)), ?_⟩
  · intro p hp
    obtain ⟨nested, quoted, hrun⟩ := exists_run_of_balanced hspaced hp ('(' :: pending)
    exact ⟨nested, quoted, hopened hrun⟩
  · have hrun := DelimiterScan.run_append_eq_some.2
      ⟨_, hbefore, balanced_iff.1 (balanced_parentheses hspaced) pending⟩
    simpa using hrun

def beforeValue (q : Query) (first : String) : List Char :=
  first.toList ++
    '\n' :: (letText q.subset ++ ("return ".toList ++ (q.mode.word.toList ++ ['(', ' '])))

def afterValue (q : Query) : List Char :=
  (subsetSuffix q.subset).toList ++ q.mode.closing.toList

theorem valueText_of_not_iterator {e : Expression} (h : e.isIterator = false) :
    (valueText e).toList = '(' :: ' ' :: (e.render.toList ++ [' ', ')']) := by
  simp [valueText, h]

theorem render_setValue {q : Query} {first : String} (hfirst : forClause q.coverages = .ok first)
    (hmode : q.mode.switch? = none) {e : Expression} (he : e.isIterator = false) :
    ∃ t, (q.apply (.setValue e)).render = .ok t ∧ t.toList =
      q.beforeValue first ++ '(' :: ' ' :: (e.render.toList ++ ' ' :: ')' :: q.afterValue) := by
  have hrender := render_eq (q.apply (.setValue e))
  have hclause : forClause (q.apply (.setValue e)).coverages = .ok first := hfirst
  rw [hclause] at hrender
  refine ⟨_, hrender, ?_⟩
  have hreturn : (q.apply (.setValue e)).returnText =
      "return ".toList ++ (q.mode.word.toList ++ '(' :: ' ' ::
        ((valueText e).toList ++ (subsetSuffix q.subset).toList ++ q.mode.closing.toList)) :=
    returnText_of_value hmode
  rw [String.toList_ofList, hreturn, valueText_of_not_iterator he]
  simp [beforeValue, afterValue, apply]

theorem run_beforeValue {q : Query} {first : String} (hfirst : forClause q.coverages = .ok first)
    (hcoverages : ∀ name ∈ q.coverages, Accepted name) (hsubset : ∀ s ∈ q.subset, s.Delimited) :
    start.run (q.beforeValue first) = some (inside ['(']) := by
  have hnewline : balanced ['\n'] = true := by decide
  have hclauses := balanced_append (balanced_append (balanced_append
    (balanced_forClause hcoverages hfirst) hnewline) (balanced_letText hsubset))
    (balanced_word q.mode)
  have hopen : (inside []).run ['(', ' '] = some (inside ['(']) := by decide
  have hrun : start.run _ = _ :=
    DelimiterScan.run_append_eq_some.2 ⟨_, balanced_iff.1 hclauses [], hopen⟩
  simpa [beforeValue] using hrun

/-- An accepted value cannot break out of the parentheses that the query puts around it, and the
text around these parentheses is the same for all values. -/
theorem value_enclosed {q : Query} {rendered : String}
    (hcoverages : ∀ name ∈ q.coverages, Accepted name) (hsubset : ∀ s ∈ q.subset, s.Delimited)
    (hmode : q.mode.switch? = none) (hvalue : Accepted q.value.render)
    (hiter : q.value.isIterator = false) (h : q.render = .ok rendered) :
    ∃ before after : List Char,
      Enclosed rendered.toList q.value.render.toList before after ['('] ∧
      ∀ e : Expression, e.isIterator = false → ∃ t, (q.apply (.setValue e)).render = .ok t ∧
        t.toList = before ++ '(' :: ' ' :: (e.render.toList ++ ' ' :: ')' :: after) := by
  obtain ⟨first, hfirst, _⟩ := toList_of_render h
  have hbefore := run_beforeValue hfirst hcoverages hsubset
  refine ⟨q.beforeValue first, q.afterValue, ?_, fun e he => render_setValue hfirst hmode he⟩
  -- The query is one of those with a value set, namely its own.
  obtain ⟨t, ht, htext⟩ := render_setValue hfirst hmode hiter
  have hsame : q.apply (.setValue q.value) = q := rfl
  rw [hsame, h] at ht
  rw [Except.ok.inj ht, htext]
  exact enclosed_of_balanced hbefore (accepted_iff.1 hvalue)

/-- A value with brackets of its own and one in a literal, after a literal with open brackets. -/
def enclosedExample : Query :=
  ⟨["A(1)", "B"], [.point "t" (.text "(["), .range "x\x7b\x7d" Coordinate.unbounded (.integer 3)],
    .raw "f(\")\", [$c])", .encode .png⟩

def enclosedText : String :=
  "for $c in (A(1),B)\nlet $subset := [t(\"([\"), x\x7b\x7d(*:3)]\n"
    ++ "return encode ( ( f(\")\", [$c]) ) [ $subset ] , \"image/png\" )"

theorem value_enclosed_example :
    enclosedExample.render = .ok enclosedText ∧ ∃ before after : List Char,
      Enclosed enclosedText.toList "f(\")\", [$c])".toList before after ['('] := by
  have h : enclosedExample.render = .ok enclosedText := by decide +kernel
  obtain ⟨before, after, henclosed, _⟩ :=
    value_enclosed (q := enclosedExample) (by decide) (by decide) rfl (by decide) (by decide) h
  exact ⟨h, before, after, henclosed⟩

end CoverageQuery.Query
