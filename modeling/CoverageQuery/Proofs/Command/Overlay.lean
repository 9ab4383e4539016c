import CoverageQuery.Proofs.Command.Overrides
import CoverageQuery.Proofs.Command.Reading
import CoverageQuery.Proofs.Files
import CoverageQuery.Proofs.Stored.RoundTrip

/-!
# Flags over a query file

Flags take the parts that they do not give from the query of the file. A query that flags alone build
holds finite numbers only, so it can be stored and then stands below other flags, with the same result
as when the two sets of flags are given at once.
-/
namespace CoverageQuery

theorem Coordinate.Plain.isFinite_eq {c : Coordinate} (h : c.Plain) : c.isFinite = true := by
  cases c with
  | float x => exact h
  | integer | raw | text => rfl

theorem Subset.Plain.isFinite_eq {s : Subset} (h : s.Plain) : s.isFinite = true := by
  rw [Subset.isFinite, h.start.isFinite_eq, Bool.true_and, Option.all_eq_true]
  exact fun c hc => (h.stop c hc).isFinite_eq

theorem Expression.isFinite_of_ofFlag {text : String} {e : Expression} (h : ofFlag text = .ok e) :
    e.isFinite = true := by
  rcases ofFlag_cases h with ⟨n, hn, rfl⟩ | ⟨t, _, rfl⟩
  · rcases Quantity.read?_cases hn with ⟨i, rfl⟩ | ⟨x, rfl, hx⟩
    · rfl
    · exact hx
  · rfl

theorem Query.Overrides.isFinite_mode (o : Query.Overrides) :
    (o.mode.getD .plain).isFinite = true := by
  obtain ⟨coverages, subset, value, aggregation, encoding⟩ := o
  cases encoding <;> cases aggregation <;> rfl

namespace QueryFlags

theorem isFinite_applyTo {f : QueryFlags} {o : Query.Overrides} (h : f.Gives o) (names : List String) :
    (o.applyTo (Query.ofCoverages names)).isFinite = true := by
  have hsubset : (o.subset.getD []).all Subset.isFinite = true := by
    cases hterms : o.subset with
    | none => rfl
    | some terms =>
      refine List.all_eq_true.2 fun s hs => ?_
      obtain ⟨text, _, hread⟩ := h.exists_of_mem_subset hterms hs
      exact (Subset.plain_of_ofFlag hread).isFinite_eq
  have hvalue : (o.value.getD .ofIterator).isFinite = true := by
    cases hgiven : o.value with
    | none => rfl
    | some value =>
      obtain ⟨text, _, hread⟩ := Outcome.exists_of_rel h.value value hgiven
      exact Expression.isFinite_of_ofFlag hread
  simp only [Query.isFinite, Query.Overrides.applyTo, Query.ofCoverages, hsubset, hvalue,
    o.isFinite_mode, Bool.and_true]

theorem load_of_write {f : QueryFlags} {files files' : Files} {path : String} {q : Query}
    (hf : f.queryFile = none) (hq : f.build files = .ok q) (hnumbers : q.isReadBack = true)
    (hpath : extension? path = some "json")
    (hwrite : files.write path (Utf8.encode q.store.toList) = .ok ⟨files', none⟩) :
    load files' path = .ok q := by
  obtain ⟨o, ho, rfl⟩ := (build_eq_ok (base_of_noFile hf files)).1 hq
  have hread := Query.ofJsonText_store_eq hnumbers
  rw [Query.ofNode_toJson (isFinite_applyTo ho [])] at hread
  simp only [load, Files.readText_of_write hwrite, hpath, if_true, hread]
  exact Outcome.mapError_eq_ok.2 rfl

/-- Flags with others below them: coverages, subsets and the value are taken from below where they
are left out, and an aggregation and an encoding only where both are. -/
def onto (g f : QueryFlags) : QueryFlags where
  coverages := if g.coverages.isEmpty then f.coverages else g.coverages
  subsets := if g.subsets.isEmpty then f.subsets else g.subsets
  value := g.value.or f.value
  aggregate := if g.aggregate.isSome ∨ g.encode.isSome then g.aggregate else f.aggregate
  encode := if g.aggregate.isSome ∨ g.encode.isSome then g.encode else f.encode

theorem repeated?_onto {α : Type} (texts below : List α) :
    repeated? (if texts.isEmpty then below else texts) = (repeated? texts).or (repeated? below) := by
  cases texts <;> rfl

theorem Gives.isSome_mode {f : QueryFlags} {o : Query.Overrides} (h : f.Gives o) :
    o.mode.isSome = true ↔ f.aggregate.isSome = true ∨ f.encode.isSome = true := by
  rw [Outcome.isSome_of_rel h.aggregation, Outcome.isSome_of_rel h.encoding]
  simp [Query.Overrides.mode, or_comm]

theorem Gives.onto {f g : QueryFlags} {o p : Query.Overrides} (hg : g.Gives o) (hf : f.Gives p) :
    (g.onto f).Gives (o.onto p) := by
  have hmode := hg.isSome_mode
  refine ⟨?_, ?_, Outcome.rel_or hg.value hf.value, ?_, ?_⟩
  · simp only [QueryFlags.onto, Query.Overrides.onto, repeated?_onto, hg.coverages, hf.coverages]
  · simp only [QueryFlags.onto, Query.Overrides.onto, repeated?_onto]
    exact Outcome.rel_or hg.subset hf.subset
  · simp only [QueryFlags.onto, Query.Overrides.onto, hmode]
    split
    · exact hg.aggregation
    · exact hf.aggregation
  · simp only [QueryFlags.onto, Query.Overrides.onto, hmode]
    split
    · exact hg.encoding
    · exact hf.encoding

/-- Flags over a query file are refused exactly when one of them cannot be read, and otherwise build
the query of the file with the parts they give. Flags over a file that stores what other flags build
build the same as the two sets of flags at once, if it is a file that they are written to and the numbers
stored in it are read back. -/
theorem build_over :
    (∀ (f : QueryFlags) (files : Files) (path : String) (below : Query),
      f.queryFile = some path → load files path = .ok below →
      ((∃ e, f.build files = .error e) ↔ f.Invalid) ∧
      (¬ f.Invalid → ∃ o, f.Gives o ∧ f.build files = .ok (o.applyTo below))) ∧
    ∀ (f g : QueryFlags) (files files' : Files) (path : String) (q r : Query),
      f.queryFile = none → g.queryFile = none →
      f.build files = .ok q → g.build files = .ok r → q.isReadBack = true →
      extension? path = some "json" →
      files.write path (Utf8.encode q.store.toList) = .ok ⟨files', none⟩ →
      ∃ s, { g with queryFile := some path }.build files' = .ok s ∧
        (g.onto f).build files = .ok s := by
  constructor
  · intro f files path below hfile hload
    have hbase : f.base files = .ok below := base_of_file hfile hload
    have hbuild : ¬ f.Invalid → ∃ o, f.Gives o ∧ f.build files = .ok (o.applyTo below) := by
      intro hvalid
      obtain ⟨o, ho⟩ := f.exists_gives.2 hvalid
      exact ⟨o, ho, (build_eq_ok hbase).2 ⟨o, ho, rfl⟩⟩
    refine ⟨⟨?_, ?_⟩, hbuild⟩
    · rintro ⟨e, he⟩
      by_contra hvalid
      obtain ⟨o, _, hq⟩ := hbuild hvalid
      exact absurd (he.symm.trans hq) (by simp)
    · intro hinvalid
      cases hq : f.build files with
      | error e => exact ⟨e, rfl⟩
      | ok q =>
        obtain ⟨o, ho, _⟩ := (build_eq_ok hbase).1 hq
        exact absurd hinvalid (f.exists_gives.1 ⟨o, ho⟩)
  · intro f g files files' path q r hf hg hq hr hnumbers hpath hwrite
    -- Below the flags over the file stands what the flags below them give to the empty query.
    have hload := load_of_write hf hq hnumbers hpath hwrite
    obtain ⟨o, ho, rfl⟩ := (build_eq_ok (base_of_noFile hf files)).1 hq
    obtain ⟨p, hp, _⟩ := (build_eq_ok (base_of_noFile hg files)).1 hr
    have hgives : { g with queryFile := some path }.Gives p :=
      ⟨hp.coverages, hp.subset, hp.value, hp.aggregation, hp.encoding⟩
    refine ⟨_, (build_eq_ok (base_of_file rfl hload)).2 ⟨p, hgives, rfl⟩,
      (build_eq_ok (base_of_noFile rfl files)).2 ⟨_, hp.onto ho, ?_⟩⟩
    exact (p.applyTo_onto o _).symm

def belowFlags : QueryFlags :=
  { coverages := ["A", "B"], subsets := ["t = 1 : 2.5"], value := some " $c + 0.5 ",
    aggregate := some "Average" }

def belowQuery : Query :=
  ⟨["A", "B"], [.range "t" (.integer 1) (.float ((Binary64.read? "2.5".toList).getD .nan))],
    .raw "$c + 0.5", .aggregate .avg⟩

def belowFiles : Files :=
  (Files.ofList []).put ["tmp", "work", "q.json"] (Utf8.encode belowQuery.store.toList)

def aboveFlags : QueryFlags := { subsets := ["Lat=\"x:y\":*", "t=inf"], encode := some " PNG" }

def aboveTerms : List Subset :=
  [.range "Lat" (.text "x:y") Coordinate.unbounded, .point "t" (.text "inf")]

theorem build_over_example :
    (∃ e, { aboveFlags with queryFile := some "q.json", encode := some "bmp" }.build belowFiles
      = .error e) ∧
    (∃ o, { aboveFlags with queryFile := some "q.json" }.Gives o ∧
      { aboveFlags with queryFile := some "q.json" }.build belowFiles = .ok (o.applyTo belowQuery)) ∧
    ∃ s, { aboveFlags with queryFile := some "q.json" }.build belowFiles = .ok s ∧
      (aboveFlags.onto belowFlags).build (.ofList []) = .ok s := by
  obtain ⟨hover, hstored⟩ := build_over
  have hbelow : belowFlags.build (.ofList []) = .ok belowQuery := by decide +kernel
  have habove : aboveFlags.build (.ofList []) = .ok ⟨[], aboveTerms, .ofIterator, .encode .png⟩ := by
    decide +kernel
  have hwrite : (Files.ofList []).write "q.json" (Utf8.encode belowQuery.store.toList)
      = .ok ⟨belowFiles, none⟩ := by
    have hput : ∀ content, (Files.ofList []).write "q.json" content
        = .ok ⟨(Files.ofList []).put ["tmp", "work", "q.json"] content, none⟩ := fun _ => rfl
    exact hput _
  have hnumbers : belowQuery.isReadBack = true := by decide +kernel
  have hload : load belowFiles "q.json" = .ok belowQuery :=
    load_of_write rfl hbelow hnumbers (by decide) hwrite
  have hunknown : { aboveFlags with queryFile := some "q.json", encode := some "bmp" }.Invalid := by
    refine .inr (.inr (.inr ⟨"bmp", rfl, ?_⟩))
    rintro ⟨e, he⟩
    have hrefused : Encoding.ofName "bmp" = .error (.invalidEncoding "bmp") := by decide
    exact absurd (hrefused.symm.trans he) (by simp)
  have hvalid : ¬ { aboveFlags with queryFile := some "q.json" }.Invalid := by
    refine (exists_gives _).1 ⟨⟨none, some aboveTerms, none, none, some .png⟩,
      rfl, .some (.cons ?_ (.cons ?_ .nil)), .none, .none, .some ?_⟩
    · decide +kernel
    · decide +kernel
    · decide
  exact ⟨(hover _ belowFiles "q.json" belowQuery rfl hload).1.2 hunknown,
    (hover _ belowFiles "q.json" belowQuery rfl hload).2 hvalid,
    hstored belowFlags aboveFlags (.ofList []) belowFiles "q.json" belowQuery _ rfl rfl hbelow habove
      hnumbers (by decide) hwrite⟩

end QueryFlags
end CoverageQuery
