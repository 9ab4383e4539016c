import CoverageQuery.Command.Flags
import CoverageQuery.Proofs.Outcome

/-!
# The parts of a query that flags give

Flags give some parts of a query and leave the others to the query below. An aggregation and an
encoding are given apart but write one part, the mode, and of the two the encoding stays. Flags are
refused when some text among them cannot be read, whatever the query below.
-/
namespace CoverageQuery

structure Query.Overrides where
  coverages : Option (List String)
  subset : Option (List Subset)
  value : Option Expression
  aggregation : Option Aggregation
  encoding : Option Encoding

namespace Query.Overrides

def mode (o : Overrides) : Option Mode :=
  (o.encoding.map .encode).or (o.aggregation.map .aggregate)

def applyTo (o : Overrides) (q : Query) : Query :=
  ⟨o.coverages.getD q.coverages, o.subset.getD q.subset, o.value.getD q.value, o.mode.getD q.mode⟩

def changes (o : Overrides) : List Operation :=
  (o.coverages.map .setCoverages).toList ++ (o.subset.map .setSubset).toList
    ++ (o.value.map .setValue).toList ++ (o.aggregation.map .aggregate).toList
    ++ (o.encoding.map .encode).toList

def onto (o below : Overrides) : Overrides where
  coverages := o.coverages.or below.coverages
  subset := o.subset.or below.subset
  value := o.value.or below.value
  aggregation := if o.mode.isSome then o.aggregation else below.aggregation
  encoding := if o.mode.isSome then o.encoding else below.encoding

theorem run_changes (o : Overrides) (q : Query) : q.run o.changes = o.applyTo q := by
  obtain ⟨coverages, subset, value, aggregation, encoding⟩ := o
  -- Each part is written by one operation at most, and the encoding after the aggregation.
  cases coverages <;> cases subset <;> cases value <;> cases aggregation <;> cases encoding <;> rfl

theorem mem_changes {o : Overrides} {op : Operation} (h : op ∈ o.changes) :
    (∃ names ∈ o.coverages, op = .setCoverages names) ∨
      (∃ terms ∈ o.subset, op = .setSubset terms) ∨ (∃ value ∈ o.value, op = .setValue value) ∨
      (∃ method ∈ o.aggregation, op = .aggregate method) ∨
      ∃ format ∈ o.encoding, op = .encode format := by
  simp only [changes, List.mem_append, Option.mem_toList, Option.map_eq_some_iff, or_assoc] at h
  simpa only [Option.mem_def, eq_comm (a := op)] using h

theorem mode_onto (o below : Overrides) : (o.onto below).mode = o.mode.or below.mode := by
  obtain ⟨coverages, subset, value, aggregation, encoding⟩ := o
  cases encoding <;> cases aggregation <;> rfl

theorem applyTo_onto (o below : Overrides) (q : Query) :
    (o.onto below).applyTo q = o.applyTo (below.applyTo q) := by
  simp only [applyTo, mode_onto]
  simp only [onto, Option.getD_or]

end Query.Overrides

namespace QueryFlags

def repeated? {α : Type} (texts : List α) : Option (List α) :=
  if texts.isEmpty then none else some texts

/-- The flags are read as these parts of a query. -/
structure Gives (f : QueryFlags) (o : Query.Overrides) : Prop where
  coverages : o.coverages = repeated? f.coverages
  subset : Option.Rel (List.Forall₂ fun text s => Subset.ofFlag text = .ok s)
    (repeated? f.subsets) o.subset
  value : Option.Rel (fun text e => Expression.ofFlag text = .ok e) f.value o.value
  aggregation : Option.Rel (fun name m => Aggregation.ofName name = .ok m) f.aggregate o.aggregation
  encoding : Option.Rel (fun name e => Encoding.ofName name = .ok e) f.encode o.encoding

theorem mem_of_mem_repeated? {α : Type} {texts found : List α} (h : found ∈ repeated? texts) :
    texts = found := by
  unfold repeated? at h
  split at h
  · exact absurd h (by simp)
  · exact Option.some.inj h

theorem Gives.exists_of_mem_subset {f : QueryFlags} {o : Query.Overrides} (h : f.Gives o)
    {terms : List Subset} (hterms : terms ∈ o.subset) {s : Subset} (hs : s ∈ terms) :
    ∃ text ∈ f.subsets, Subset.ofFlag text = .ok s := by
  obtain ⟨texts, htexts, hread⟩ := Outcome.exists_of_rel h.subset terms hterms
  rw [mem_of_mem_repeated? htexts]
  exact Outcome.exists_of_forall₂ hread s hs

def Invalid (f : QueryFlags) : Prop :=
  (∃ text ∈ f.subsets, ¬ ∃ s, Subset.ofFlag text = .ok s) ∨
  (∃ text ∈ f.value, ¬ ∃ e, Expression.ofFlag text = .ok e) ∨
  (∃ name ∈ f.aggregate, ¬ ∃ m, Aggregation.ofName name = .ok m) ∨
  ∃ name ∈ f.encode, ¬ ∃ e, Encoding.ofName name = .ok e

theorem exists_subset (f : QueryFlags) :
    (∃ terms, Option.Rel (List.Forall₂ fun text s => Subset.ofFlag text = .ok s)
      (repeated? f.subsets) terms) ↔ ∀ text ∈ f.subsets, ∃ s, Subset.ofFlag text = .ok s := by
  rw [Outcome.exists_rel]
  simp only [Outcome.exists_forall₂, repeated?]
  cases f.subsets with
  | nil => simp
  | cons text texts => simp

theorem exists_gives (f : QueryFlags) : (∃ o, f.Gives o) ↔ ¬ f.Invalid := by
  simp only [Invalid, not_or, not_exists, not_and, not_forall, not_not]
  rw [← exists_subset, ← Outcome.exists_rel, ← Outcome.exists_rel, ← Outcome.exists_rel]
  constructor
  · rintro ⟨o, _, hsubset, hvalue, haggregation, hencoding⟩
    exact ⟨⟨_, hsubset⟩, ⟨_, hvalue⟩, ⟨_, haggregation⟩, ⟨_, hencoding⟩⟩
  · rintro ⟨⟨subset, hsubset⟩, ⟨value, hvalue⟩, ⟨aggregation, haggregation⟩, ⟨encoding, hencoding⟩⟩
    exact ⟨⟨repeated? f.coverages, subset, value, aggregation, encoding⟩,
      rfl, hsubset, hvalue, haggregation, hencoding⟩

theorem coverageChange_eq (f : QueryFlags) :
    f.coverageChange = ((repeated? f.coverages).map .setCoverages).toList := by
  unfold coverageChange repeated?
  split <;> rfl

theorem subsetChange_eq_ok {f : QueryFlags} {ops : List Query.Operation} :
    f.subsetChange = .ok ops ↔ ∃ terms,
      Option.Rel (List.Forall₂ fun text s => Subset.ofFlag text = .ok s)
        (repeated? f.subsets) terms ∧ ops = (terms.map .setSubset).toList := by
  unfold subsetChange repeated?
  split
  · constructor
    · intro h
      exact ⟨none, .none, (Except.ok.inj h).symm⟩
    · rintro ⟨_, ⟨⟩, rfl⟩
      rfl
  · rw [Outcome.map_eq_ok]
    constructor
    · rintro ⟨terms, hterms, rfl⟩
      exact ⟨some terms, .some (Outcome.mapM_eq_ok.1 hterms), rfl⟩
    · rintro ⟨_, ⟨hterms⟩, rfl⟩
      exact ⟨_, Outcome.mapM_eq_ok.2 hterms, rfl⟩

theorem optionalChange_eq_ok {α : Type} (flag : Option String)
    (reading : String → Except FlagError α) (change : α → Query.Operation)
    {ops : List Query.Operation} :
    (match flag with
      | none => .ok []
      | some text => (reading text).map fun a => [change a]) = Except.ok ops ↔
    ∃ a?, Option.Rel (fun text a => reading text = .ok a) flag a? ∧ ops = (a?.map change).toList := by
  cases flag with
  | none =>
    constructor
    · intro h
      exact ⟨none, .none, (Except.ok.inj h).symm⟩
    · rintro ⟨_, ⟨⟩, rfl⟩
      rfl
  | some text =>
    rw [Outcome.map_eq_ok]
    constructor
    · rintro ⟨a, ha, rfl⟩
      exact ⟨some a, .some ha, rfl⟩
    · rintro ⟨_, ⟨ha⟩, rfl⟩
      exact ⟨_, ha, rfl⟩

theorem valueChange_eq_ok {f : QueryFlags} {ops : List Query.Operation} :
    f.valueChange = .ok ops ↔ ∃ value,
      Option.Rel (fun text e => Expression.ofFlag text = .ok e) f.value value ∧
      ops = (value.map .setValue).toList :=
  optionalChange_eq_ok f.value Expression.ofFlag .setValue

theorem aggregateChange_eq_ok {f : QueryFlags} {ops : List Query.Operation} :
    f.aggregateChange = .ok ops ↔ ∃ method,
      Option.Rel (fun name m => Aggregation.ofName name = .ok m) f.aggregate method ∧
      ops = (method.map .aggregate).toList := by
  have h := @optionalChange_eq_ok _ f.aggregate
    (fun name => (Aggregation.ofName name).mapError .query) .aggregate ops
  simp only [Outcome.mapError_eq_ok] at h
  exact h

theorem encodeChange_eq_ok {f : QueryFlags} {ops : List Query.Operation} :
    f.encodeChange = .ok ops ↔ ∃ format,
      Option.Rel (fun name e => Encoding.ofName name = .ok e) f.encode format ∧
      ops = (format.map .encode).toList := by
  have h := @optionalChange_eq_ok _ f.encode
    (fun name => (Encoding.ofName name).mapError .query) .encode ops
  simp only [Outcome.mapError_eq_ok] at h
  exact h

theorem changes_eq_ok {f : QueryFlags} {ops : List Query.Operation} :
    f.changes = .ok ops ↔ ∃ o, f.Gives o ∧ ops = o.changes := by
  simp only [changes, Outcome.bind_eq_ok, subsetChange_eq_ok, valueChange_eq_ok,
    aggregateChange_eq_ok, encodeChange_eq_ok, coverageChange_eq]
  constructor
  · rintro ⟨_, ⟨terms, hterms, rfl⟩, _, ⟨value, hvalue, rfl⟩, _, ⟨method, hmethod, rfl⟩, _,
      ⟨format, hformat, rfl⟩, h⟩
    exact ⟨⟨repeated? f.coverages, terms, value, method, format⟩,
      ⟨rfl, hterms, hvalue, hmethod, hformat⟩, (Except.ok.inj h).symm⟩
  · rintro ⟨o, ⟨hcoverages, hterms, hvalue, hmethod, hformat⟩, rfl⟩
    refine ⟨_, ⟨_, hterms, rfl⟩, _, ⟨_, hvalue, rfl⟩, _, ⟨_, hmethod, rfl⟩, _, ⟨_, hformat, rfl⟩, ?_⟩
    rw [← hcoverages]
    rfl

theorem base_of_noFile {f : QueryFlags} (h : f.queryFile = none) (files : Files) :
    f.base files = .ok (Query.ofCoverages []) := by
  rw [base, h]

theorem base_of_file {f : QueryFlags} {files : Files} {path : String} {below : Query}
    (h : f.queryFile = some path) (hload : load files path = .ok below) :
    f.base files = .ok below := by
  simp only [base, h, hload]

/-- What flags build is the query below with the parts that the flags are read as. -/
theorem build_eq_ok {f : QueryFlags} {files : Files} {below q : Query}
    (h : f.base files = .ok below) : f.build files = .ok q ↔ ∃ o, f.Gives o ∧ q = o.applyTo below := by
  simp only [build, h, Outcome.bind_eq_ok, changes_eq_ok]
  constructor
  · rintro ⟨_, hbelow, _, ⟨o, ho, rfl⟩, hq⟩
    obtain rfl := Except.ok.inj hbelow
    exact ⟨o, ho, (Except.ok.inj hq).symm.trans (o.run_changes below)⟩
  · rintro ⟨o, ho, rfl⟩
    exact ⟨below, rfl, _, ⟨o, ho, rfl⟩, congrArg _ (o.run_changes below)⟩

end QueryFlags
end CoverageQuery
