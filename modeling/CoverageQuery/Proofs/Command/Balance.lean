import CoverageQuery.Proofs.Command.Overrides
import CoverageQuery.Proofs.Command.Reading
import CoverageQuery.Proofs.Query.History
import CoverageQuery.Proofs.Query.Template

/-!
# Balance of queries from flags

Bounds and values that are read from flags are delimited whatever their texts, so a query built from
flags alone is delimited when its coverages and axes are. What is rendered from delimited parts is
accepted as a checked expression: queries, switches and constructors, and with them templates and
what flags describe.
-/
namespace CoverageQuery

open Text
open Expression (Accepted accepted_iff)

theorem Coordinate.Plain.delimited {c : Coordinate} (h : c.Plain) : c.Delimited := by
  cases c with
  | integer n => trivial
  | float x => trivial
  | raw t =>
    obtain rfl : t = "*" := h
    exact accepted_iff.2 (by decide)
  | text t => exact h

theorem Expression.delimited_ofQuantity (n : Quantity) : (ofQuantity n).Delimited := by
  cases n <;> trivial

theorem Expression.delimited_ofFlag {text : String} {e : Expression} (h : ofFlag text = .ok e) :
    e.Delimited := by
  rcases ofFlag_cases h with ⟨n, _, rfl⟩ | ⟨t, ht, rfl⟩
  · exact delimited_ofQuantity n
  · exact ⟨_, ht⟩

theorem Subset.delimited_ofFlag {text : String} {s : Subset} (h : ofFlag text = .ok s)
    (haxis : Accepted s.axis) : s.Delimited :=
  have hplain := plain_of_ofFlag h
  ⟨haxis, hplain.start.delimited, fun c hc => (hplain.stop c hc).delimited⟩

namespace QueryFlags

structure Delimited (f : QueryFlags) : Prop where
  coverages : ∀ name ∈ f.coverages, Accepted name
  axes : ∀ text ∈ f.subsets, ∀ s, Subset.ofFlag text = .ok s → Accepted s.axis

theorem delimited_changes {f : QueryFlags} (h : f.Delimited) {o : Query.Overrides}
    (ho : f.Gives o) : ∀ op ∈ o.changes, op.Delimited := by
  intro op hop
  rcases Query.Overrides.mem_changes hop with ⟨names, hnames, rfl⟩ | ⟨terms, hterms, rfl⟩ |
    ⟨value, hvalue, rfl⟩ | ⟨method, _, rfl⟩ | ⟨format, _, rfl⟩
  · intro name hname
    exact h.coverages name (mem_of_mem_repeated? (ho.coverages ▸ hnames) ▸ hname)
  · intro s hs
    obtain ⟨text, htext, hread⟩ := ho.exists_of_mem_subset hterms hs
    exact Subset.delimited_ofFlag hread (h.axes text htext s hread)
  · obtain ⟨text, _, hread⟩ := Outcome.exists_of_rel ho.value value hvalue
    exact Expression.delimited_ofFlag hread
  · trivial
  · trivial

theorem delimited_build {f : QueryFlags} (h : f.Delimited) (hf : f.queryFile = none) {files : Files}
    {q : Query} (hq : f.build files = .ok q) : q.Delimited := by
  obtain ⟨o, ho, rfl⟩ := (build_eq_ok (base_of_noFile hf files)).1 hq
  rw [← o.run_changes]
  exact Query.delimited_run (Query.delimited_ofCoverages (fun _ hn => absurd hn (by simp)))
    (delimited_changes h ho)

end QueryFlags

/-- What is rendered from delimited parts is accepted as a checked expression. -/
theorem accepted_of_delimited :
    (∀ q : Query, q.Delimited → ∀ text, q.render = .ok text → Accepted text) ∧
    (∀ s : Switch, s.Delimited → Accepted s.render) ∧
    (∀ c : Constructor, c.Delimited → Accepted c.render) ∧
    (∀ (t : Template) (coverage : String), Accepted coverage → (∀ s ∈ t.subset, s.Delimited) →
      ∃ text, (t.query coverage).render = .ok text ∧ Accepted text) ∧
    (∀ (f : QueryFlags) (files : Files) (q : Query), f.Delimited → f.queryFile = none →
      f.build files = .ok q → ∀ text, q.render = .ok text → Accepted text) := by
  have hquery : ∀ q : Query, q.Delimited → ∀ text, q.render = .ok text → Accepted text :=
    fun q hq text ht => accepted_iff.2 (Query.balanced_render hq ht)
  refine ⟨hquery, fun s hs => accepted_iff.2 (Switch.balanced_render hs),
    fun c hc => accepted_iff.2 (Constructor.balanced_render hc), ?_, ?_⟩
  · intro t coverage hc hs
    obtain ⟨text, ht⟩ := t.exists_render coverage
    exact ⟨text, ht, hquery _ (Template.delimited_query hc hs) text ht⟩
  · intro f files q hf hfile hq text ht
    exact hquery q (QueryFlags.delimited_build hf hfile hq) text ht

def delimitedSwitch : Switch :=
  ⟨[⟨"f(\"]\") > [$c]", .integer 1⟩, ⟨"", .raw "(2)"⟩], some (.raw "\x7bred: 0\x7d")⟩

def delimitedConstructor : Constructor :=
  ⟨"new(1)", [.range "x" (.raw "(0)") (.text "[")], "$px + (\")\")"⟩

def delimitedTerm : Subset := .range "t[0]" (.text "a:(") Coordinate.unbounded

def delimitedFlags : QueryFlags :=
  ⟨["A(1)"], ["t[0] = \"a:(\" : *"], some "$c[\"(\"]", some "avg", none, none⟩

def flagsQuery : Query := ⟨["A(1)"], [delimitedTerm], .raw "$c[\"(\"]", .aggregate .avg⟩

def switchQuery : Query := ⟨["A(1)", "B"], [delimitedTerm], .integer 1, .switch delimitedSwitch⟩

theorem delimited_delimitedSwitch : delimitedSwitch.Delimited :=
  ⟨by decide, by decide, by decide⟩

theorem delimited_delimitedFlags : delimitedFlags.Delimited := by
  refine ⟨by decide, fun text htext s hs => ?_⟩
  have hread : Subset.ofFlag "t[0] = \"a:(\" : *" = .ok delimitedTerm := by decide +kernel
  rw [List.mem_singleton.1 htext, hread] at hs
  obtain rfl := Except.ok.inj hs
  decide

theorem accepted_of_delimited_example :
    (∃ text, switchQuery.render = .ok text ∧ Accepted text) ∧
    Accepted delimitedSwitch.render ∧ Accepted delimitedConstructor.render ∧
    (∃ text, ((Template.colorMap [delimitedTerm]).query "A(1)").render = .ok text ∧
      Accepted text) ∧
    ∃ text, flagsQuery.render = .ok text ∧ Accepted text := by
  obtain ⟨hquery, hswitch, hconstructor, htemplate, hflags⟩ := accepted_of_delimited
  have hswitchQuery : switchQuery.Delimited :=
    ⟨by decide, by decide, by decide, fun s hs => Option.some.inj hs ▸ delimited_delimitedSwitch⟩
  have hterms : ∀ s ∈ [delimitedTerm], s.Delimited := by decide
  have hbuild : delimitedFlags.build (.ofList []) = .ok flagsQuery := by decide +kernel
  obtain ⟨text, ht⟩ : ∃ text, switchQuery.render = .ok text := ⟨_, rfl⟩
  obtain ⟨flagsText, hf⟩ : ∃ text, flagsQuery.render = .ok text := ⟨_, rfl⟩
  refine ⟨⟨text, ht, hquery switchQuery hswitchQuery text ht⟩,
    hswitch delimitedSwitch delimited_delimitedSwitch,
    hconstructor delimitedConstructor ⟨by decide, by decide, by decide⟩,
    htemplate (.colorMap [delimitedTerm]) "A(1)" (by decide) hterms, flagsText, hf, ?_⟩
  exact hflags delimitedFlags (.ofList []) flagsQuery delimited_delimitedFlags rfl hbuild flagsText hf

end CoverageQuery
