import CoverageQuery.Proofs.Query.Clauses
import CoverageQuery.Proofs.Stored.RoundTrip

/-!
# What a stored query loses

A number that is not finite is stored as null. Where a number has to stand, as the start of a subset, the
value or the result of a branch, null is no number and the query is not read back. Where a number may be
missing, as the upper bound of a subset or the default of a switch, null says that it is missing, so the
query is read back without it: a range becomes a point, and a switch has no default any more. The text
of the query is shorter then, so the loss always shows in it.
-/
namespace CoverageQuery

open Document

namespace Subset

def kept (s : Subset) : Subset := { s with stop := s.stop.filter Coordinate.isFinite }

theorem ofNode_toJson_kept {s : Subset} (h : s.start.isFinite = true) (dialect : Dialect) :
    ofNode dialect s.toJson.toNode = .ok s.kept := by
  refine ofNode_of_parts (Coordinate.storesFinite.read_write h) ?_ dialect
  cases s.stop with
  | none => rfl
  | some c => exact Coordinate.storesFinite.optional_write c

theorem isFinite_of_ofNode {s t : Subset} {dialect : Dialect}
    (h : ofNode dialect s.toJson.toNode = .ok t) : s.start.isFinite = true := by
  have hmem : ("start", s.start.toJson) ∈ [("axis", Json.string s.axis), ("start", s.start.toJson)]
      ++ Json.optionalEntry "stop" (s.stop.map Coordinate.toJson) := by simp
  obtain ⟨before, after, hput⟩ := Record.put_of_read_object (i := 1) h hmem rfl
  obtain ⟨start, hstart, _⟩ := (Record.put_eq_ok rfl).1 hput
  exact Coordinate.storesFinite.isFinite_of_read hstart

end Subset

theorem Case.isFinite_of_ofNode {c d : Case} {dialect : Dialect}
    (h : ofNode dialect c.toJson.toNode = .ok d) : c.result.isFinite = true := by
  have hmem : ("result", c.result.toJson) ∈ [("is_default", Json.boolean c.isDefault),
      ("condition", .string c.condition), ("result", c.result.toJson)] := by simp
  obtain ⟨before, after, hput⟩ := Record.put_of_read_object (i := 2) h hmem rfl
  obtain ⟨result, hresult, _⟩ := (Record.put_eq_ok rfl).1 hput
  exact Expression.storesFinite.isFinite_of_read hresult

namespace Switch

def kept (s : Switch) : Switch := { s with fallback := s.fallback.filter Expression.isFinite }

def isReadable (s : Switch) : Bool := s.branches.all fun b => b.result.isFinite

theorem read_entries_kept {s : Switch} (h : s.isReadable = true) (dialect : Dialect) :
    ofNode dialect (Json.object s.entries).toNode = .ok s.kept := by
  have hbranches : (⟨s.branches, none⟩ : Switch).isFinite = true := by
    simpa [isFinite, isReadable] using h
  refine read_entries_of_parts (list_cases hbranches dialect) ?_
  cases s.fallback with
  | none => rfl
  | some e => exact Expression.storesFinite.optional_write e

theorem isReadable_of_read {s t : Switch} {dialect : Dialect}
    (h : ofNode dialect (Json.object s.entries).toNode = .ok t) : s.isReadable = true := by
  have hmem : ("cases", Json.array (s.branches.map fun b => b.toCase.toJson)) ∈ s.entries :=
    List.mem_cons_self
  obtain ⟨before, after, hput⟩ := Record.put_of_read_object (i := 0) h hmem rfl
  obtain ⟨cases, hcases, _⟩ := (Record.put_eq_ok rfl).1 hput
  have hread := Json.list_array_eq_ok.1 hcases
  rw [List.forall₂_map_left_iff] at hread
  refine List.all_eq_true.2 fun b hb => ?_
  obtain ⟨c, hc⟩ := Outcome.exists_forall₂.1 ⟨cases, hread⟩ b hb
  exact Case.isFinite_of_ofNode hc

end Switch

namespace Mode

def kept : Mode → Mode
  | switch s => switch s.kept
  | m => m

def isReadable : Mode → Bool
  | switch s => s.isReadable
  | _ => true

theorem ofNode_switch (s : Switch) :
    ofNode .streamed (switch s).toJson.toNode =
      (Switch.ofNode .buffered (Json.object s.entries).toNode).map .switch := by
  refine ofNode_object (k := .switch) rfl ?_
  cases hf : s.fallback <;> simp [kindField, Switch.entries, Json.optionalEntry, hf]

theorem ofNode_toJson_kept {m : Mode} (h : m.isReadable = true) :
    ofNode .streamed m.toJson.toNode = .ok m.kept := by
  cases m with
  | «switch» s => rw [ofNode_switch, Switch.read_entries_kept h]; rfl
  | plain | aggregate | encode => exact ofNode_toJson rfl

theorem isReadable_of_ofNode {m n : Mode} (h : ofNode .streamed m.toJson.toNode = .ok n) :
    m.isReadable = true := by
  cases m with
  | «switch» s =>
    rw [ofNode_switch] at h
    obtain ⟨t, ht, _⟩ := Outcome.map_eq_ok.1 h
    exact Switch.isReadable_of_read ht
  | plain | aggregate | encode => rfl

end Mode

namespace Query

/-- The query without the optional numbers that are not finite. -/
def kept (q : Query) : Query := { q with subset := q.subset.map Subset.kept, mode := q.mode.kept }

/-- Whether every number that has to stand where it does is finite. -/
def isReadable (q : Query) : Bool :=
  q.subset.all (fun s => s.start.isFinite) && q.value.isFinite && q.mode.isReadable

theorem ofNode_toJson_kept {q : Query} (h : q.isReadable = true) :
    ofNode .streamed q.toJson.toNode = .ok q.kept := by
  simp only [isReadable, Bool.and_eq_true, List.all_eq_true] at h
  obtain ⟨⟨hsubset, hvalue⟩, hmode⟩ := h
  have hterms : (Json.array (q.subset.map Subset.toJson)).toNode.list (Subset.ofNode .streamed)
      = .ok (q.subset.map Subset.kept) := by
    rw [Json.list_array_eq_ok, List.forall₂_map_left_iff, List.forall₂_map_right_iff,
      List.forall₂_same]
    exact fun s hs => Subset.ofNode_toJson_kept (hsubset s hs) .streamed
  exact ofNode_of_parts hterms (Expression.storesFinite.read_write hvalue)
    (Mode.ofNode_toJson_kept hmode)

theorem isReadable_of_ofNode {q r : Query} (h : ofNode .streamed q.toJson.toNode = .ok r) :
    q.isReadable = true := by
  have hentry {k : String} {v : Json} {i : Nat} (hk : Key.named (record .streamed).fields k = .field i)
      (hmem : (k, v) ∈ (("coverages", Json.array (q.coverages.map .string)) :: subsetEntry q.subset
        ++ [("return_value", q.value.toJson), ("mode", q.mode.toJson)])) :
      ∃ before after, (record .streamed).put i v.toNode before = .ok after :=
    Record.put_of_read_object h hmem hk
  have hsubset : ∀ s ∈ q.subset, s.start.isFinite = true := by
    intro s hs
    have hmem : ("subset", Json.array (q.subset.map Subset.toJson)) ∈ subsetEntry q.subset := by
      simp [subsetEntry, List.ne_nil_of_mem hs]
    obtain ⟨_, _, hput⟩ := hentry (k := "subset") (v := .array (q.subset.map Subset.toJson))
      (i := 1) rfl (by simp [hmem])
    obtain ⟨subset, hlist, _⟩ := (Record.put_eq_ok rfl).1 hput
    have hread := Json.list_array_eq_ok.1 hlist
    rw [List.forall₂_map_left_iff] at hread
    obtain ⟨t, ht⟩ := Outcome.exists_forall₂.1 ⟨subset, hread⟩ s hs
    exact Subset.isFinite_of_ofNode ht
  have hvalue : q.value.isFinite = true := by
    obtain ⟨_, _, hput⟩ := hentry (k := "return_value") (v := q.value.toJson) (i := 2) rfl (by simp)
    obtain ⟨value, hread, _⟩ := (Record.put_eq_ok rfl).1 hput
    exact Expression.storesFinite.isFinite_of_read hread
  have hmode : q.mode.isReadable = true := by
    obtain ⟨_, _, hput⟩ := hentry (k := "mode") (v := q.mode.toJson) (i := 3) rfl (by simp)
    obtain ⟨mode, hread, _⟩ := (Record.put_eq_ok rfl).1 hput
    exact Mode.isReadable_of_ofNode hread
  simp only [isReadable, hvalue, hmode, Bool.and_true, List.all_eq_true]
  exact hsubset

end Query

namespace Subset

theorem kept_cases (s : Subset) :
    s.kept = s ∨ s.kept.render.toList.length < s.render.toList.length := by
  rcases s.eq_point_or_range with h | ⟨stop, _, h⟩
  · rw [h]
    exact .inl rfl
  · rw [h]
    cases hstop : stop.isFinite with
    | true =>
      refine .inl ?_
      rw [kept, range, Option.filter_some_pos hstop]
    | false =>
      have hkept : (range s.axis s.start stop).kept = point s.axis s.start := by
        rw [kept, range, Option.filter_some_neg (by simp [hstop])]
        rfl
      -- The lost bound was written with a colon.
      refine .inr ?_
      rw [hkept, toList_render_point, toList_render_range]
      simp only [List.length_append, List.length_cons, List.length_nil]
      omega

theorem renderAll_kept_cases (subset : List Subset) : subset.map kept = subset ∨
    (renderAll (subset.map kept)).toList.length < (renderAll subset).toList.length := by
  induction subset with
  | nil => exact .inl rfl
  | cons s rest ih =>
    cases rest with
    | nil =>
      rw [List.map_cons, List.map_nil, toList_renderAll_singleton, toList_renderAll_singleton]
      rcases s.kept_cases with hs | hs
      · exact .inl (by rw [hs])
      · exact .inr hs
    | cons t rest =>
      have hlength (s t : Subset) (rest : List Subset) : (renderAll (s :: t :: rest)).toList.length =
          s.render.toList.length + 2 + (renderAll (t :: rest)).toList.length := by
        rw [toList_renderAll_cons_cons]
        simp only [List.length_append, List.length_cons]
        omega
      rw [List.map_cons, List.map_cons, hlength, hlength, ← List.map_cons]
      rcases s.kept_cases with hs | hs <;> rcases ih with hrest | hrest
      · exact .inl (by rw [hs, hrest])
      · exact .inr (by rw [hs]; omega)
      · exact .inr (by rw [hrest]; omega)
      · exact .inr (by omega)

end Subset

theorem Switch.kept_cases (s : Switch) :
    s.kept = s ∨ s.kept.render.toList.length < s.render.toList.length := by
  obtain ⟨branches, fallback⟩ := s
  cases fallback with
  | none => exact .inl rfl
  | some e =>
    cases he : e.isFinite with
    | true =>
      refine .inl ?_
      rw [kept, Option.filter_some_pos he]
    | false =>
      have hkept : (⟨branches, some e⟩ : Switch).kept = ⟨branches, none⟩ := by
        rw [kept, Option.filter_some_neg (by simp [he])]
      have hshort := congrArg List.length (toList_render_newline ⟨branches, none⟩)
      have hlong := congrArg List.length (toList_render_newline ⟨branches, some e⟩)
      simp only [fallbackText, fallbackLines, List.flatMap_nil, List.flatMap_cons,
        List.length_append, List.length_cons, List.length_nil] at hshort hlong
      -- The lost default was written in a line of its own.
      refine .inr ?_
      rw [hkept]
      omega

namespace Query

theorem letText_kept_cases (subset : List Subset) : subset.map Subset.kept = subset ∨
    (letText (subset.map Subset.kept)).length < (letText subset).length := by
  rcases Subset.renderAll_kept_cases subset with h | h
  · exact .inl h
  · have hne : subset ≠ [] := by
      rintro rfl
      exact absurd h (by simp)
    have hlength {subset : List Subset} (hne : subset ≠ []) : (letText subset).length =
        "let $subset := [".toList.length + ((Subset.renderAll subset).toList.length + 2) := by
      rw [← List.append_nil (letText subset), letText_append hne]
      simp only [List.length_append, List.length_cons, List.length_nil]
    refine .inr ?_
    rw [hlength hne, hlength (by simpa using hne)]
    omega

theorem returnText_kept_cases (q : Query) :
    (q.mode.kept = q.mode ∧ q.kept.returnText = q.returnText) ∨
      q.kept.returnText.length < q.returnText.length := by
  have hsuffix : subsetSuffix (q.subset.map Subset.kept) = subsetSuffix q.subset := by
    cases q.subset <;> rfl
  have hsame (h : q.mode.kept = q.mode) : q.kept.returnText = q.returnText := by
    unfold returnText returnClause
    simp only [kept, hsuffix, h]
  cases hmode : q.mode with
  | plain | aggregate | encode => exact .inl ⟨rfl, hsame (by rw [hmode]; rfl)⟩
  | «switch» s =>
    rcases s.kept_cases with hs | hs
    · have hkept : (Mode.switch s).kept = .switch s := congrArg Mode.switch hs
      exact .inl ⟨hkept, hsame (by rw [hmode, hkept])⟩
    · have hkept : q.kept.mode = .switch s.kept := by
        show q.mode.kept = _
        rw [hmode]
        rfl
      refine .inr ?_
      rw [returnText_of_switch hkept, returnText_of_switch hmode]
      simp only [kept, hsuffix, List.length_append, List.length_cons]
      omega

/-- What is lost shows in the text. -/
theorem kept_eq_of_render_eq {q : Query} (hne : q.coverages ≠ []) (h : q.kept.render = q.render) :
    q.kept = q := by
  obtain ⟨first, hfirst⟩ := exists_forClause hne
  have hkept : forClause q.kept.coverages = .ok first := hfirst
  have hclauses : letText q.kept.subset ++ q.kept.returnText = letText q.subset ++ q.returnText := by
    rw [render_eq, render_eq, hkept, hfirst] at h
    have htext := String.ofList_injective (Except.ok.inj h)
    simpa using htext
  -- A part that loses something gets shorter and none gets longer, so equal lengths leave no room.
  have hlength := congrArg List.length hclauses
  rw [List.length_append, List.length_append] at hlength
  have hsubset : letText q.kept.subset = letText (q.subset.map Subset.kept) := rfl
  rcases letText_kept_cases q.subset with hlet | hlet <;>
    rcases q.returnText_kept_cases with ⟨hmode, hreturn⟩ | hreturn
  · rw [kept, hlet, hmode]
  · rw [hsubset, hlet] at hlength
    omega
  · rw [hsubset, hreturn] at hlength
    omega
  · rw [hsubset] at hlength
    omega

theorem ofJsonText_store_iff {q : Query} (hq : q.isReadBack = true) (r : Query) :
    ofJsonText q.store = .ok r ↔ q.isReadable = true ∧ r = q.kept := by
  rw [ofJsonText_store_eq hq]
  constructor
  · intro h
    have hq := isReadable_of_ofNode h
    exact ⟨hq, Except.ok.inj (h.symm.trans (ofNode_toJson_kept hq))⟩
  · rintro ⟨hq, rfl⟩
    exact ofNode_toJson_kept hq

/-- Reading a stored query back changes its text without an error just when the query is read back and
an optional number is lost, if its finite numbers are read back as they were. -/
theorem render_ofJsonText_store (q : Query) (hnumbers : q.isReadBack = true) :
    (∀ r, ofJsonText q.store = .ok r ↔ q.isReadable = true ∧ r = q.kept) ∧
    ((∀ r, ofJsonText q.store = .ok r → r.render = q.render) ↔
      q.isReadable = false ∨ q.coverages = [] ∨ q.kept = q) := by
  refine ⟨ofJsonText_store_iff hnumbers, ?_, ?_⟩
  · intro h
    cases hq : q.isReadable with
    | false => exact .inl rfl
    | true =>
      by_cases hne : q.coverages = []
      · exact .inr (.inl hne)
      · have hread := h q.kept ((ofJsonText_store_iff hnumbers _).2 ⟨hq, rfl⟩)
        exact .inr (.inr (kept_eq_of_render_eq hne hread))
  · rintro h r hr
    obtain ⟨hq, rfl⟩ := (ofJsonText_store_iff hnumbers r).1 hr
    rcases h with h | h | h
    · exact absurd hq (by simp [h])
    · have hkept : q.kept.coverages = [] := h
      rw [render_eq, render_eq, h, hkept]
      rfl
    · rw [h]

def endlessRange : Query :=
  ⟨["A"], [.range "Lat" (.integer 0) (.float .nan)], .ofIterator, .plain⟩

def endlessDefault : Query :=
  ⟨["A"], [], .ofIterator, .switch ⟨[], some (.float (.infinite false))⟩⟩

theorem render_ofJsonText_store_example :
    endlessRange.isReadBack = true ∧ endlessRange.kept ≠ endlessRange ∧
      ¬∀ r, ofJsonText endlessRange.store = .ok r → r.render = endlessRange.render := by
  have hread : endlessRange.isReadBack = true := by decide +kernel
  have hlost : endlessRange.kept ≠ endlessRange := by decide +kernel
  obtain ⟨-, hsame⟩ := render_ofJsonText_store endlessRange hread
  refine ⟨hread, hlost, fun h => ?_⟩
  rcases hsame.1 h with h | h | h
  · exact absurd h (by decide)
  · exact absurd h (by decide)
  · exact hlost h

/-- A range that becomes a point, and a switch that loses its default, without an error. -/
theorem store_loses_optional_numbers :
    (∃ r, ofJsonText endlessRange.store = .ok r ∧
      endlessRange.render =
        .ok "for $c in ( A )\nlet $subset := [Lat(0:NaN)]\nreturn ( $c [ $subset ] )" ∧
      r.render = .ok "for $c in ( A )\nlet $subset := [Lat(0)]\nreturn ( $c [ $subset ] )") ∧
    ∃ r, ofJsonText endlessDefault.store = .ok r ∧
      endlessDefault.render = .ok "for $c in ( A )\nreturn (\nswitch\ndefault return inf\n)" ∧
      r.render = .ok "for $c in ( A )\nreturn (\nswitch\n)" := by
  have hrange : endlessRange.isReadBack = true := by decide +kernel
  have hdefault : endlessDefault.isReadBack = true := by decide +kernel
  refine ⟨⟨endlessRange.kept, (ofJsonText_store_iff hrange _).2 ⟨by decide, rfl⟩, ?_, ?_⟩,
    ⟨endlessDefault.kept, (ofJsonText_store_iff hdefault _).2 ⟨by decide, rfl⟩, ?_, ?_⟩⟩
  all_goals decide +kernel

end Query
end CoverageQuery
