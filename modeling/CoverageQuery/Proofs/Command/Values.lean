import CoverageQuery.Proofs.Command.Overrides
import CoverageQuery.Proofs.Command.Written
import CoverageQuery.Proofs.Query.Balance

/-!
# Values in flags

A value in a flag is trimmed, and what is left is a number if it reads as a finite one, and raw text
otherwise. Neither step changes whether a text is accepted: blanks are no delimiters, also where they
stand next to a quote or between quotes, and the text of a number holds no delimiter. So a flag is read
exactly when its text is accepted as it was given. Words such as `inf` and numbers beyond the range
stay raw. What was read is written in one way, and that is read as the same value again.
-/
namespace CoverageQuery

namespace Text

open DelimiterScan

theorem notMem_delimiters_of_isBlank {c : Char} (h : isBlank c = true) : c ∉ delimiters := by
  have hall : delimiters.all (fun d => !isBlank d) = true := by decide
  intro hc
  have hblank := List.all_eq_true.1 hall c hc
  simp [h] at hblank

/-- The blanks at the ends of a text matter to no scan, even if quotes are open at its end. -/
theorem balanced_trim (cs : List Char) : balanced (trim cs) = balanced cs := by
  obtain ⟨before, after, hbefore, hafter, hcs⟩ := exists_trim cs
  have hfirst := run_plain (fun c hc => notMem_delimiters_of_isBlank (hbefore c hc)) start
  have hlast := run_plain fun c hc => notMem_delimiters_of_isBlank (hafter c hc)
  have hrun : start.run cs = start.run (trim cs) :=
    calc start.run cs = start.run (before ++ (trim cs ++ after)) := by rw [hcs]
      _ = (start.run (trim cs)).bind fun t => t.run after := by
        rw [run_append, hfirst, Option.bind_some, run_append]
      _ = (start.run (trim cs)).bind some := by rw [funext hlast]
      _ = start.run (trim cs) := Option.bind_fun_some _
  rw [balanced, balanced, hrun]

end Text

open Text

theorem Quantity.balanced_of_read? {cs : List Char} {n : Quantity} (h : read? cs = some n) :
    balanced cs = true := by
  have hall : DelimiterScan.delimiters.all (fun c =>
      c ∉ ['.', '+', '-', 'e', 'E'] ∧ c.toLower ∉ Binary64.wordLetters) = true := by decide
  refine balanced_of_plain fun c hc hdelimiter => ?_
  have hmarks := of_decide_eq_true (List.all_eq_true.1 hall c hdelimiter)
  rcases mem_of_read? h hc with hdigit | hmark | hletter
  · exact digit_notMem_delimiters hdigit hdelimiter
  · exact hmarks.1 hmark
  · exact hmarks.2 hletter

theorem Quantity.read?_eq_none {cs : List Char} :
    read? cs = none ↔ Integer.readInt64? cs = none ∧ Binary64.readFinite? cs = none := by
  simp [read?]

namespace Expression

def Plain : Expression → Prop
  | integer _ => True
  | float x => x.isFinite = true
  | raw t => trim t.toList = t.toList ∧ Accepted t ∧ Integer.readInt64? t.toList = none ∧
      Binary64.readFinite? t.toList = none

def ofTrimmed (cs : List Char) : Expression :=
  ((Quantity.read? cs).map ofQuantity).getD (.raw (String.ofList cs))

theorem checked_eq_ok {text : String} {e : Expression} :
    checked text = .ok e ↔ Accepted text ∧ e = .raw text := by
  rw [accepted_iff, checked]
  split
  · rename_i h
    exact ⟨fun he => ⟨h, (Except.ok.inj he).symm⟩, fun he => congrArg _ he.2.symm⟩
  · rename_i h
    exact ⟨fun he => absurd he (by simp), fun he => absurd he.1 h⟩

theorem ofFlag_eq_ok {text : String} {e : Expression} :
    ofFlag text = .ok e ↔ Accepted text ∧ e = ofTrimmed (trim text.toList) := by
  have haccepted : Accepted (String.ofList (trim text.toList)) ↔ Accepted text := by
    rw [accepted_iff, accepted_iff, String.toList_ofList, balanced_trim]
  rw [ofTrimmed]
  cases hread : Quantity.read? (trim text.toList) with
  | some n =>
    have hbalanced := Quantity.balanced_of_read? hread
    rw [balanced_trim, ← accepted_iff] at hbalanced
    rw [ofFlag_of_quantity hread]
    exact ⟨fun he => ⟨hbalanced, (Except.ok.inj he).symm⟩, fun he => congrArg _ he.2.symm⟩
  | none =>
    rw [← haccepted, ofFlag_of_none hread]
    exact Outcome.mapError_eq_ok.trans checked_eq_ok

theorem plain_of_ofFlag {text : String} {e : Expression} (h : ofFlag text = .ok e) : e.Plain := by
  obtain ⟨haccepted, rfl⟩ := ofFlag_eq_ok.1 h
  rw [ofTrimmed]
  cases hread : Quantity.read? (trim text.toList) with
  | some n =>
    rcases Quantity.read?_cases hread with ⟨i, rfl⟩ | ⟨x, rfl, hx⟩
    · trivial
    · exact hx
  | none =>
    show Plain (raw (String.ofList (trim text.toList)))
    rw [Plain, accepted_iff, String.toList_ofList, balanced_trim, trim_trim, ← accepted_iff]
    exact ⟨rfl, haccepted, Quantity.read?_eq_none.1 hread⟩

theorem ofFlag_render {e : Expression} (h : e.Plain) : ofFlag e.render = .ok e := by
  cases e with
  | integer n =>
    have htrim : trim (integer n).render.toList = (integer n).render.toList :=
      Coordinate.trim_bare (a := .integer n) trivial rfl
    refine ofFlag_of_quantity (n := .integer n) ((congrArg _ htrim).trans ?_)
    exact (congrArg _ (Coordinate.toList_render_integer n)).trans (Quantity.read?_write n)
  | float x =>
    have htrim : trim (float x).render.toList = (float x).render.toList :=
      Coordinate.trim_bare (a := .float x) trivial rfl
    refine ofFlag_of_quantity (n := .float x) ((congrArg _ htrim).trans ?_)
    exact (congrArg _ (Coordinate.toList_render_float x)).trans (Quantity.read?_text h)
  | raw t =>
    obtain ⟨htrim, haccepted, hinteger, hfloat⟩ := h
    refine ofFlag_eq_ok.2 ⟨haccepted, ?_⟩
    rw [ofTrimmed, show (raw t).render = t from rfl, htrim,
      Quantity.read?_eq_none.2 ⟨hinteger, hfloat⟩, String.ofList_toList]
    rfl

end Expression

namespace QueryFlags

theorem build_value_eq_ok {f : QueryFlags} {files : Files} {below q : Query}
    (h : { f with value := none }.build files = .ok below) (text : String) :
    { f with value := some text }.build files = .ok q ↔
      ∃ e, Expression.ofFlag text = .ok e ∧ q = { below with value := e } := by
  obtain ⟨base, hbase, _⟩ := Outcome.bind_eq_ok.1 h
  obtain ⟨o, ho, rfl⟩ := (build_eq_ok hbase).1 h
  have hbase : { f with value := some text }.base files = .ok base := hbase
  have hbuild {e : Expression} (he : Expression.ofFlag text = .ok e) :
      { f with value := some text }.build files = .ok { o.applyTo base with value := e } := by
    refine (build_eq_ok hbase).2 ⟨{ o with value := some e }, ?_, rfl⟩
    exact ⟨ho.coverages, ho.subset, .some he, ho.aggregation, ho.encoding⟩
  constructor
  · intro hq
    obtain ⟨o', ho', _⟩ := (build_eq_ok hbase).1 hq
    obtain ⟨e, he⟩ := Outcome.exists_rel.1 ⟨_, ho'.value⟩ text rfl
    exact ⟨e, he, Except.ok.inj (hq.symm.trans (hbuild he))⟩
  · rintro ⟨e, he, rfl⟩
    exact hbuild he

/-- A value in flags that are valid otherwise is read exactly if its text is accepted, and what it
stands for is plain and takes the place of the value below. Written again, it builds the same query. -/
theorem build_value_stable {f : QueryFlags} {files : Files} {below : Query}
    (h : { f with value := none }.build files = .ok below) (text : String) :
    ((∃ q, { f with value := some text }.build files = .ok q) ↔
      ∃ e, Expression.checked text = .ok e) ∧
    ∀ q, { f with value := some text }.build files = .ok q →
      q = { below with value := .ofTrimmed (trim text.toList) } ∧ q.value.Plain ∧
      { f with value := some q.value.render }.build files = .ok q := by
  refine ⟨?_, fun q hq => ?_⟩
  · constructor
    · rintro ⟨q, hq⟩
      obtain ⟨e, he, _⟩ := (build_value_eq_ok h text).1 hq
      exact (Expression.ofFlag_eq_ok.1 he).1
    · intro haccepted
      have he := Expression.ofFlag_eq_ok.2 ⟨haccepted, rfl⟩
      exact ⟨_, (build_value_eq_ok h text).2 ⟨_, he, rfl⟩⟩
  · obtain ⟨e, he, rfl⟩ := (build_value_eq_ok h text).1 hq
    have hplain := Expression.plain_of_ofFlag he
    have hvalue : e = .ofTrimmed (trim text.toList) := (Expression.ofFlag_eq_ok.1 he).2
    refine ⟨by rw [← hvalue], hplain, ?_⟩
    exact (build_value_eq_ok h _).2 ⟨e, Expression.ofFlag_render hplain, rfl⟩

/-- A number beyond the range is raw without the blanks around it, and a closing bracket whose partner
stands in quotes is refused. -/
theorem build_value_stable_example :
    let f : QueryFlags := { coverages := ["A"], subsets := ["Lat=-20:30"], encode := some "csv" }
    let files := Files.ofList []
    let below : Query := ⟨["A"], [.range "Lat" (.integer (-20)) (.integer 30)], .ofIterator,
      .encode .csv⟩
    { f with value := none }.build files = .ok below ∧
    { f with value := some "\u00a0-1e400\t" }.build files =
      .ok { below with value := .raw "-1e400" } ∧
    (Expression.raw "-1e400").Plain ∧
    { f with value := some "-1e400" }.build files = .ok { below with value := .raw "-1e400" } ∧
    ¬ ∃ q, { f with value := some " \"(\" ) " }.build files = .ok q := by
  intro f files below
  have hbelow : { f with value := none }.build files = .ok below := by decide +kernel
  have hvalue : Expression.ofTrimmed (trim "\u00a0-1e400\t".toList) = .raw "-1e400" := by
    decide +kernel
  have haccepted : Expression.Accepted "\u00a0-1e400\t" := by decide
  have hrefused : ¬ Expression.Accepted " \"(\" ) " := by decide
  obtain ⟨hiff, hread⟩ := build_value_stable hbelow "\u00a0-1e400\t"
  obtain ⟨q, hq⟩ := hiff.2 haccepted
  obtain ⟨rfl, hplain, hagain⟩ := hread q hq
  rw [hvalue] at hplain hagain hq
  exact ⟨hbelow, hq, hplain, hagain,
    fun hexists => hrefused ((build_value_stable hbelow _).1.1 hexists)⟩

end QueryFlags
end CoverageQuery
