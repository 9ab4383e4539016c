import CoverageQuery.Query.Render
import CoverageQuery.Stored.Query
import CoverageQuery.Proofs.Document.Agreement
import CoverageQuery.Proofs.Json.RoundTrip
import CoverageQuery.Proofs.Stored.Finite

/-!
# Stored queries read back

A query is finite when no number in it is infinite or "not a number". A finite coordinate,
expression, subset, switch or mode is read from its stored form as itself, whether the form is
streamed or buffered: the kinds of numbers and texts keep apart, the entries left out stand for what
is absent, and the cases of a switch, none of which is flagged as the default, are pushed back as
they were. So a finite query is read from its stored text as itself.
-/
namespace CoverageQuery

open Document

namespace Subset

def isFinite (s : Subset) : Bool := s.start.isFinite && s.stop.all Coordinate.isFinite

theorem ofNode_of_parts {s : Subset} {start : Coordinate} {stop : Option Coordinate}
    (hstart : Coordinate.ofNode s.start.toJson.toNode = .ok start)
    (hstop : s.stop.elim (.ok none) (fun c => c.toJson.toNode.optional Coordinate.ofNode) = .ok stop)
    (dialect : Dialect) : ofNode dialect s.toJson.toNode = .ok ⟨s.axis, start, stop⟩ := by
  obtain ⟨axis, start', stop'⟩ := s
  cases stop' with
  | none =>
    obtain rfl : none = stop := Except.ok.inj hstop
    refine Record.read_object (t := Fields.mk (some axis) (some start) none) ?_ rfl
    exact .field (i := 0) rfl rfl rfl (.field (i := 1) rfl rfl (Record.put_of_read rfl hstart _)
      (.done _))
  | some c =>
    have hc : c.toJson.toNode.optional Coordinate.ofNode = .ok stop := hstop
    refine Record.read_object (t := Fields.mk (some axis) (some start) (some stop)) ?_ rfl
    exact .field (i := 0) rfl rfl rfl (.field (i := 1) rfl rfl (Record.put_of_read rfl hstart _)
      (.field (i := 2) rfl rfl (Record.put_of_read rfl hc _) (.done _)))

theorem ofNode_toJson {s : Subset} (h : s.isFinite = true) (dialect : Dialect) :
    ofNode dialect s.toJson.toNode = .ok s := by
  obtain ⟨axis, start, stop⟩ := s
  simp only [isFinite, Bool.and_eq_true] at h
  obtain ⟨hstart, hstop⟩ := h
  refine ofNode_of_parts (Coordinate.storesFinite.read_write hstart) ?_ dialect
  cases stop with
  | none => rfl
  | some c =>
    have hc : c.isFinite = true := hstop
    refine (Coordinate.storesFinite.optional_write c).trans ?_
    rw [Option.filter_some_pos hc]

end Subset

namespace Aggregation

theorem ofNode_toJson (m : Aggregation) : ofNode .buffered m.toJson.toNode = .ok m := by
  cases m <;> rfl

end Aggregation

namespace Encoding

theorem ofNode_toJson (e : Encoding) : ofNode .buffered e.toJson.toNode = .ok e := by
  cases e <;> rfl

end Encoding

namespace Case

theorem ofNode_toJson {c : Case} (h : c.result.isFinite = true) (dialect : Dialect) :
    ofNode dialect c.toJson.toNode = .ok c := by
  have hread := Expression.storesFinite.read_write h
  refine Record.read_object
    (t := Fields.mk (some c.isDefault) (some c.condition) (some c.result)) ?_ rfl
  exact .field (i := 0) rfl rfl rfl (.field (i := 1) rfl rfl rfl
    (.field (i := 2) rfl rfl (Record.put_of_read rfl hread _) (.done _)))

end Case

namespace Switch

def isFinite (s : Switch) : Bool :=
  s.branches.all (fun b => b.result.isFinite) && s.fallback.all Expression.isFinite

theorem foldl_push_toCase (s : Switch) (branches : List Branch) :
    (branches.map Branch.toCase).foldl push s = ⟨s.branches ++ branches, s.fallback⟩ := by
  induction branches generalizing s with
  | nil => simp
  | cons b branches ih =>
    rw [List.map_cons, List.foldl_cons, ih]
    simp [push, Branch.toCase, Case.guarded]

theorem ofCases_toCase (s : Switch) : ofCases s.fallback (s.branches.map Branch.toCase) = s := by
  rw [ofCases, foldl_push_toCase, List.nil_append]

theorem list_cases {s : Switch} (h : s.isFinite = true) (dialect : Dialect) :
    (Json.array (s.branches.map fun b => b.toCase.toJson)).toNode.list (Case.ofNode dialect)
      = .ok (s.branches.map Branch.toCase) := by
  simp only [isFinite, Bool.and_eq_true, List.all_eq_true] at h
  have hmap : (s.branches.map fun b => b.toCase.toJson)
      = (s.branches.map Branch.toCase).map Case.toJson := by
    rw [List.map_map]
    rfl
  rw [hmap]
  refine Json.list_array fun c hc => Case.ofNode_toJson ?_ dialect
  obtain ⟨b, hb, rfl⟩ := List.mem_map.1 hc
  exact h.1 b hb

theorem read_entries_of_parts {s : Switch} {fallback : Option Expression} {dialect : Dialect}
    (hcases : (Json.array (s.branches.map fun b => b.toCase.toJson)).toNode.list
      (Case.ofNode dialect) = .ok (s.branches.map Branch.toCase))
    (hfallback : s.fallback.elim (.ok none) (fun e => e.toJson.toNode.optional Expression.ofNode) =
      .ok fallback) :
    ofNode dialect (Json.object s.entries).toNode = .ok ⟨s.branches, fallback⟩ := by
  obtain ⟨branches, fallback'⟩ := s
  have hswitch := ofCases_toCase ⟨branches, fallback⟩
  cases fallback' with
  | none =>
    obtain rfl : none = fallback := Except.ok.inj hfallback
    refine Record.read_object (t := Fields.mk (some (branches.map Branch.toCase)) none) ?_
      (congrArg Except.ok hswitch)
    exact .field (i := 0) rfl rfl (Record.put_of_read rfl hcases _) (.done _)
  | some e =>
    have he : e.toJson.toNode.optional Expression.ofNode = .ok fallback := hfallback
    refine Record.read_object
      (t := Fields.mk (some (branches.map Branch.toCase)) (some fallback)) ?_
      (congrArg Except.ok hswitch)
    exact .field (i := 0) rfl rfl (Record.put_of_read rfl hcases _)
      (.field (i := 1) rfl rfl (Record.put_of_read rfl he _) (.done _))

theorem read_entries {s : Switch} (h : s.isFinite = true) (dialect : Dialect) :
    ofNode dialect (Json.object s.entries).toNode = .ok s := by
  refine read_entries_of_parts (list_cases h dialect) ?_
  simp only [isFinite, Bool.and_eq_true] at h
  cases hfallback : s.fallback with
  | none => rfl
  | some e =>
    have he : e.isFinite = true := by simpa [hfallback] using h.2
    refine (Expression.storesFinite.optional_write e).trans ?_
    rw [Option.filter_some_pos he]

end Switch

namespace Mode

def isFinite : Mode → Bool
  | switch s => s.isFinite
  | _ => true

theorem foldlM_readEntry (kind : Kind) {entries : List (String × Json)}
    (h : ∀ entry ∈ entries, entry.1 ≠ kindField) (before : List (Node × Node)) :
    (Json.entryNodes entries).foldlM (readEntry .streamed) ⟨some kind, before⟩
      = .ok ⟨some kind, (Json.entryNodes entries).reverse ++ before⟩ := by
  induction entries generalizing before with
  | nil => rfl
  | cons entry entries ih =>
    obtain ⟨k, v⟩ := entry
    have hk : k ≠ kindField := h (k, v) List.mem_cons_self
    have hread : readEntry .streamed ⟨some kind, before⟩ (.scalar (.text k) none none, v.toNode)
        = .ok ⟨some kind, (.scalar (.text k) none none, v.toNode) :: before⟩ := by
      simp only [readEntry, isKindKey, hk, decide_false, Bool.false_eq_true, if_false, bufferKey,
        Node.buffer, Json.buffer_toNode, bind, Except.bind, pure, Except.pure]
    have hrest := ih (fun e he => h e (List.mem_cons_of_mem _ he))
      ((.scalar (.text k) none none, v.toNode) :: before)
    simp only [Json.entryNodes, List.foldlM_cons, hread, hrest, bind, Except.bind,
      List.reverse_cons, List.append_assoc, List.singleton_append]

theorem ofNode_object {name : String} {k : Kind} (hkind : kinds.lookup name = some k)
    {entries : List (String × Json)} (h : ∀ entry ∈ entries, entry.1 ≠ kindField) :
    ofNode .streamed (Json.object ((kindField, .string name) :: entries)).toNode
      = ofContent k (Json.object entries).toNode := by
  have hfirst : readEntry .streamed ⟨none, []⟩
      (.scalar (.text kindField) none none, (Json.string name).toNode) = .ok ⟨some k, []⟩ := by
    have hread : readKind .streamed (Json.string name).toNode = .ok k := by
      refine locate_eq_ok.2 ?_
      show choose kinds name = .ok k
      rw [choose, hkind]
    simp only [readEntry, isKindKey, decide_true, if_true, Option.isSome_none,
      Bool.false_eq_true, if_false, hread, bind, Except.bind, pure, Except.pure]
  have hrest := foldlM_readEntry k h []
  have hsplit : split .streamed (Json.object ((kindField, .string name) :: entries)).toNode
      = .ok (k, (Json.object entries).toNode) := by
    simp only [Json.toNode, split, Json.entryNodes, List.foldlM_cons] at hfirst ⊢
    simp only [hfirst, hrest, Node.finished, bind, Except.bind, pure, Except.pure,
      List.append_nil, List.reverse_reverse]
  simp only [ofNode, hsplit, locate, bind, Except.bind]

theorem ofContent_oneField {α : Type} {name field : String} {read : Node → Reading α}
    {make : α → Mode} {v : Json} {a : α} (h : read v.toNode = .ok a) :
    (oneField name field read make).read .buffered (Json.object [(field, v)]).toNode
      = .ok (make a) := by
  have hreads : Record.Reads (oneField name field read make) .buffered none [(field, v)]
      (some a) := .field (Key.named_single field) rfl (Record.put_of_read rfl h _) (.done _)
  exact Record.read_object hreads rfl

theorem ofNode_toJson {m : Mode} (h : m.isFinite = true) :
    ofNode .streamed m.toJson.toNode = .ok m := by
  cases m with
  | plain => rfl
  | aggregate method =>
    refine (ofNode_object (k := .aggregate) rfl ?_).trans ?_
    · simp [kindField]
    · exact ofContent_oneField method.ofNode_toJson
  | encode format =>
    refine (ofNode_object (k := .encode) rfl ?_).trans ?_
    · simp [kindField]
    · exact ofContent_oneField format.ofNode_toJson
  | «switch» s =>
    refine (ofNode_object (k := .switch) rfl ?_).trans ?_
    · cases hf : s.fallback <;> simp [kindField, Switch.entries, Json.optionalEntry, hf]
    · simp only [ofContent, Switch.read_entries h, Except.map]

end Mode

namespace Query

def isFinite (q : Query) : Bool :=
  q.subset.all Subset.isFinite && q.value.isFinite && q.mode.isFinite

theorem ofNode_of_parts {q : Query} {subset : List Subset} {value : Expression} {mode : Mode}
    (hsubset : (Json.array (q.subset.map Subset.toJson)).toNode.list (Subset.ofNode .streamed) =
      .ok subset)
    (hvalue : Expression.ofNode q.value.toJson.toNode = .ok value)
    (hmode : Mode.ofNode .streamed q.mode.toJson.toNode = .ok mode) :
    ofNode .streamed q.toJson.toNode = .ok ⟨q.coverages, subset, value, mode⟩ := by
  obtain ⟨coverages, subset', value', mode'⟩ := q
  have hcoverages : (Json.array (coverages.map .string)).toNode.list Node.text = .ok coverages :=
    Json.list_array fun s _ => Json.text_string s
  cases subset' with
  | nil =>
    obtain rfl : [] = subset := Except.ok.inj hsubset
    refine Record.read_object
      (t := Fields.mk (some coverages) none (some value) (some mode)) ?_ rfl
    exact .field (i := 0) rfl rfl (Record.put_of_read rfl hcoverages _)
      (.field (i := 2) rfl rfl (Record.put_of_read rfl hvalue _)
      (.field (i := 3) rfl rfl (Record.put_of_read rfl hmode _) (.done _)))
  | cons s rest =>
    refine Record.read_object
      (t := Fields.mk (some coverages) (some subset) (some value) (some mode)) ?_ rfl
    exact .field (i := 0) rfl rfl (Record.put_of_read rfl hcoverages _)
      (.field (i := 1) rfl rfl (Record.put_of_read rfl hsubset _)
      (.field (i := 2) rfl rfl (Record.put_of_read rfl hvalue _)
      (.field (i := 3) rfl rfl (Record.put_of_read rfl hmode _) (.done _))))

theorem ofNode_toJson {q : Query} (h : q.isFinite = true) :
    ofNode .streamed q.toJson.toNode = .ok q := by
  simp only [isFinite, Bool.and_eq_true, List.all_eq_true] at h
  obtain ⟨⟨hsubset, hvalue⟩, hmode⟩ := h
  have hterms : (Json.array (q.subset.map Subset.toJson)).toNode.list (Subset.ofNode .streamed)
      = .ok q.subset := Json.list_array fun s hs => Subset.ofNode_toJson (hsubset s hs) .streamed
  exact ofNode_of_parts hterms (Expression.storesFinite.read_write hvalue) (Mode.ofNode_toJson hmode)

end Query

/-! ## The text of a stored query -/

def Coordinate.floats : Coordinate → List Binary64
  | float x => [x]
  | _ => []

def Expression.floats : Expression → List Binary64
  | float x => [x]
  | _ => []

def Subset.floats (s : Subset) : List Binary64 :=
  s.start.floats ++ s.stop.toList.flatMap Coordinate.floats

def Switch.floats (s : Switch) : List Binary64 :=
  s.branches.flatMap (fun b => b.result.floats) ++ s.fallback.toList.flatMap Expression.floats

def Mode.floats : Mode → List Binary64
  | «switch» s => s.floats
  | _ => []

def Query.floats (q : Query) : List Binary64 :=
  q.subset.flatMap Subset.floats ++ (q.value.floats ++ q.mode.floats)

/-- Whether every finite number in a query is read from its stored text as itself. The reader rounds
more than once, so this is no matter of course. -/
def Query.isReadBack (q : Query) : Bool := q.floats.all Json.isReadBack

theorem whole64_toInt (n : Int64) : Json.Whole64 n.toInt := by
  have hlow := n.le_toInt
  have hhigh := n.toInt_lt
  exact ⟨by omega, by omega⟩

theorem Coordinate.fits_toJson {room : Nat} (h : 2 ≤ room) {c : Coordinate}
    (hc : ∀ x ∈ c.floats, Json.isReadBack x = true) : Json.Fits room c.toJson := by
  cases c with
  | integer n => exact whole64_toInt n
  | float x => exact hc x (List.mem_singleton_self x)
  | raw t => exact ⟨h, trivial, trivial⟩
  | text t => trivial

theorem Expression.fits_toJson (room : Nat) {e : Expression}
    (he : ∀ x ∈ e.floats, Json.isReadBack x = true) : Json.Fits room e.toJson := by
  cases e with
  | integer n => exact whole64_toInt n
  | float x => exact he x (List.mem_singleton_self x)
  | raw t => trivial

theorem Subset.fits_toJson {room : Nat} (h : 3 ≤ room) {s : Subset}
    (hs : ∀ x ∈ s.floats, Json.isReadBack x = true) : Json.Fits room s.toJson := by
  have hinner : 2 ≤ room - 1 := by omega
  have hstart := Coordinate.fits_toJson hinner fun x hx => hs x (List.mem_append_left _ hx)
  refine ⟨by omega, trivial, hstart, Json.fits_optionalEntry ?_⟩
  intro v hv
  obtain ⟨c, hc, rfl⟩ := Option.map_eq_some_iff.1 hv
  refine Coordinate.fits_toJson hinner fun x hx => hs x (List.mem_append_right _ ?_)
  exact List.mem_flatMap.2 ⟨c, Option.mem_toList.2 hc, hx⟩

theorem Case.fits_toJson {room : Nat} (h : 2 ≤ room) {c : Case}
    (hc : ∀ x ∈ c.result.floats, Json.isReadBack x = true) : Json.Fits room c.toJson :=
  ⟨h, trivial, trivial, Expression.fits_toJson _ hc, trivial⟩

theorem Switch.fits_entries {room : Nat} (h : 3 ≤ room) {s : Switch}
    (hs : ∀ x ∈ s.floats, Json.isReadBack x = true) : Json.EntriesFit room s.entries := by
  refine ⟨⟨by omega, Json.itemsFit_of_forall ?_⟩, Json.fits_optionalEntry ?_⟩
  · intro v hv
    obtain ⟨b, hb, rfl⟩ := List.mem_map.1 hv
    refine Case.fits_toJson (by omega) fun x hx => hs x (List.mem_append_left _ ?_)
    exact List.mem_flatMap.2 ⟨b, hb, hx⟩
  · intro v hv
    obtain ⟨e, he, rfl⟩ := Option.map_eq_some_iff.1 hv
    refine Expression.fits_toJson _ fun x hx => hs x (List.mem_append_right _ ?_)
    exact List.mem_flatMap.2 ⟨e, Option.mem_toList.2 he, hx⟩

theorem Mode.fits_toJson {room : Nat} (h : 4 ≤ room) {m : Mode}
    (hm : ∀ x ∈ m.floats, Json.isReadBack x = true) : Json.Fits room m.toJson := by
  cases m with
  | plain => exact ⟨by omega, trivial, trivial⟩
  | aggregate method => exact ⟨by omega, trivial, trivial, trivial⟩
  | encode format => exact ⟨by omega, trivial, trivial, trivial⟩
  | «switch» s => exact ⟨by omega, trivial, Switch.fits_entries (by omega) hm⟩

theorem Query.fits_toJson {room : Nat} (h : 5 ≤ room) {q : Query} (hq : q.isReadBack = true) :
    Json.Fits room q.toJson := by
  have hfloats := List.all_eq_true.1 hq
  have hcoverages : Json.Fits (room - 1) (.array (q.coverages.map .string)) := by
    refine ⟨by omega, Json.itemsFit_of_forall ?_⟩
    intro v hv
    obtain ⟨c, _, rfl⟩ := List.mem_map.1 hv
    trivial
  have hsubset : Json.EntriesFit (room - 1) (subsetEntry q.subset) := by
    unfold subsetEntry
    split
    · trivial
    · refine ⟨⟨by omega, Json.itemsFit_of_forall ?_⟩, trivial⟩
      intro v hv
      obtain ⟨s, hs, rfl⟩ := List.mem_map.1 hv
      refine Subset.fits_toJson (by omega) fun x hx => hfloats x (List.mem_append_left _ ?_)
      exact List.mem_flatMap.2 ⟨s, hs, hx⟩
  have hvalue := Expression.fits_toJson (room - 1) fun x hx =>
    hfloats x (List.mem_append_right _ (List.mem_append_left _ hx))
  have hmode := Mode.fits_toJson (show 4 ≤ room - 1 by omega) fun x hx =>
    hfloats x (List.mem_append_right _ (List.mem_append_right _ hx))
  exact ⟨by omega, hcoverages, Json.entriesFit_append hsubset ⟨hvalue, hmode, trivial⟩⟩

namespace Query

theorem ofJsonText_store_eq {q : Query} (hq : q.isReadBack = true) :
    ofJsonText q.store = ofNode .streamed q.toJson.toNode :=
  Json.decode_render (fits_toJson (by decide) hq) _

/-- A stored query without infinite numbers and without "not a number" is read back as itself, so
its text in the query language stays the same. -/
theorem ofJsonText_store (q : Query) (h : q.isFinite = true) (hq : q.isReadBack = true) :
    ∃ r, ofJsonText q.store = .ok r ∧ r = q ∧ r.render = q.render :=
  ⟨q, (ofJsonText_store_eq hq).trans (ofNode_toJson h), rfl, rfl⟩

def storedExample : Query :=
  let warm := (Binary64.read? "27.5".toList).getD .nan
  ⟨["temperature", ""],
    [.range "Lat" (.float warm) Coordinate.unbounded, .point "time" (.text "a\"b\n"),
      .point "Long" (.integer (-5))],
    .integer 7,
    .switch ⟨[⟨"$c > 3", .float warm⟩, ⟨"", .raw "\\"⟩], some (.integer (-1))⟩⟩

theorem ofJsonText_store_example :
    storedExample.isFinite = true ∧ storedExample.isReadBack = true ∧
      ∃ r, ofJsonText storedExample.store = .ok r ∧ r = storedExample ∧
        r.render = storedExample.render :=
  ⟨by decide +kernel, by decide +kernel,
    ofJsonText_store storedExample (by decide +kernel) (by decide +kernel)⟩

end Query
end CoverageQuery
