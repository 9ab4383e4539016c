import CoverageQuery.Proofs.Query.Succession
import CoverageQuery.Proofs.Stored.Records
import CoverageQuery.Proofs.Stored.RoundTrip

/-!
# How a switch arises

A switch begins without cases or is read from a description, and then cases are pushed to it. What
is given on the way is a default, which only a description can have apart from the cases, and cases
in order, some of them flagged as the default. Reading a description is the same as pushing its default
and then its cases. However a switch arises, its branches are the cases that are not flagged, in
order, its default is that of the last flagged case or else the one apart, and its lines follow from
these.
-/
namespace CoverageQuery

open Document

namespace Expression

def node : Expression → Node
  | integer n => .scalar (.integer n.toInt) none none
  | float x => .scalar (.float x) none none
  | raw t => .scalar (.text t) none none

theorem ofNode_node (e : Expression) : ofNode e.node = .ok e := by
  cases e with
  | integer n => exact untagged.read_scalar (Scalar.quantity?_integer n) none none
  | float x => rfl
  | raw t => rfl

theorem isNull_node (e : Expression) : e.node.isNull = false := by
  cases e <;> rfl

end Expression

namespace Case

def node (c : Case) : Node :=
  .object [("is_default", .scalar (.boolean c.isDefault) none none),
    ("condition", .scalar (.text c.condition) none none), ("result", c.result.node)]

theorem ofNode_node (dialect : Dialect) (c : Case) : ofNode dialect c.node = .ok c := by
  refine Record.read_object_of_foldlM
    (t := Fields.mk (some c.isDefault) (some c.condition) (some c.result)) ?_ rfl
  refine Outcome.bind_eq_ok.2 ⟨_, Record.putEntry_of_named (i := 0) rfl rfl rfl, ?_⟩
  refine Outcome.bind_eq_ok.2 ⟨_, Record.putEntry_of_named (i := 1) rfl rfl rfl, ?_⟩
  refine Outcome.bind_eq_ok.2 ⟨_, Record.putEntry_of_named (i := 2) rfl rfl ?_, rfl⟩
  exact Outcome.map_eq_ok.2 ⟨_, c.result.ofNode_node, rfl⟩

end Case

namespace Switch

structure Given where
  fallback : Option Expression
  cases : List Case

namespace Given

def record (dialect : Dialect) : Record Fields Given where
  expected := "struct SwitchBlockRepr"
  slots := (Switch.record dialect).slots
  empty := ⟨none, none⟩
  finish s := .ok ⟨s.fallback.getD none, s.cases.getD []⟩

def ofNode (dialect : Dialect) (n : Node) : Reading Given := (record dialect).read dialect n

def entries (g : Given) : List (String × Node) :=
  ("cases", .sequence (g.cases.map Case.node) none none) ::
    g.fallback.toList.map fun e => ("default", e.node)

/-- Entries that describe a switch, in any order and with others among them. -/
def DescribedBy (g : Given) (arranged : List (String × Node)) : Prop :=
  ∃ new : List (String × Json), (∀ e ∈ new, e.1 ∉ ["cases", "default"]) ∧
    arranged.Perm (g.entries ++ new.map Node.valued)

def all (g : Given) : List Case := g.fallback.toList.map Case.default ++ g.cases

def pushed (g : Given) : Switch := g.all.foldl push empty

theorem list_cases (dialect : Dialect) (cases : List Case) :
    (Node.sequence (cases.map Case.node) none none).list (Case.ofNode dialect) = .ok cases := by
  have hitems : (cases.map Case.node).mapM (Case.ofNode dialect) = .ok cases := by
    rw [Outcome.mapM_eq_ok, List.forall₂_map_left_iff, List.forall₂_same]
    exact fun c _ => c.ofNode_node dialect
  simp only [Node.list, Node.bare, hitems, Node.finished, bind, Except.bind, pure, Except.pure]
  rfl

theorem ofNode_entries (dialect : Dialect) (g : Given) :
    ofNode dialect (.object g.entries) = .ok g := by
  obtain ⟨fallback, cases⟩ := g
  have hcases := list_cases dialect cases
  cases fallback with
  | none =>
    refine Record.read_object_of_foldlM (t := Fields.mk (some cases) none) ?_ rfl
    refine Outcome.bind_eq_ok.2 ⟨_, Record.putEntry_of_named (i := 0) rfl rfl ?_, rfl⟩
    exact Outcome.map_eq_ok.2 ⟨_, hcases, rfl⟩
  | some e =>
    have he : e.node.optional Expression.ofNode = .ok (some e) :=
      Json.optional_toNode e.ofNode_node e.isNull_node
    refine Record.read_object_of_foldlM (t := Fields.mk (some cases) (some (some e))) ?_ rfl
    refine Outcome.bind_eq_ok.2 ⟨Fields.mk (some cases) none,
      Record.putEntry_of_named (i := 0) rfl rfl ?_, ?_⟩
    · exact Outcome.map_eq_ok.2 ⟨_, hcases, rfl⟩
    · refine Outcome.bind_eq_ok.2 ⟨_, Record.putEntry_of_named (i := 1) rfl rfl ?_, rfl⟩
      exact Outcome.map_eq_ok.2 ⟨_, he, rfl⟩

theorem lawful_record (dialect : Dialect) : (record dialect).Lawful where
  get_set := (Switch.lawful_record dialect).get_set
  apart := (Switch.lawful_record dialect).apart

theorem DescribedBy.ofNode {g : Given} {arranged : List (String × Node)}
    (h : g.DescribedBy arranged) (dialect : Dialect) :
    Given.ofNode dialect (.object arranged) = .ok g := by
  obtain ⟨_, hnew, harranged⟩ := h
  exact (lawful_record dialect).read_arranged hnew harranged (g.ofNode_entries dialect)

theorem pushed_eq_ofCases (g : Given) : g.pushed = ofCases g.fallback g.cases := by
  obtain ⟨fallback, cases⟩ := g
  cases fallback <;> rfl

end Given

theorem ofNode_eq_pushed (dialect : Dialect) (n : Node) :
    ofNode dialect n = (Given.ofNode dialect n).map Given.pushed := by
  have hrecord : record dialect = (Given.record dialect).map Given.pushed := by
    rw [funext Given.pushed_eq_ofCases]
    rfl
  rw [ofNode, hrecord, Record.read_map, Given.ofNode]

/-- The switches that can be come by, each with what was given for it. -/
inductive Arises : Given → Switch → Prop where
  | empty : Arises ⟨none, []⟩ .empty
  | read {dialect : Dialect} {n : Node} {g : Given} {s : Switch} :
    Given.ofNode dialect n = .ok g → ofNode dialect n = .ok s → Arises g s
  | push {g : Given} {s : Switch} (c : Case) :
    Arises g s → Arises ⟨g.fallback, g.cases ++ [c]⟩ (s.push c)

namespace Arises

variable {g : Given} {s : Switch}

theorem eq_pushed (h : Arises g s) : s = g.pushed := by
  -- By induction on how the switch arises; a later push is one more case at the end.
  induction h with
  | empty => rfl
  | read hgiven hread =>
    rw [ofNode_eq_pushed, hgiven] at hread
    exact (Except.ok.inj hread).symm
  | push c _ ih =>
    subst ih
    simp only [Given.pushed, Given.all, ← List.append_assoc, List.foldl_concat]

end Arises

theorem Given.pushed_eq (g : Given) :
    g.pushed = ⟨guarded g.cases, (lastDefault? g.cases).or g.fallback⟩ := by
  rw [pushed_eq_ofCases, ofCases, foldl_push, List.nil_append]

theorem map_toCase_guarded (cases : List Case) :
    (guarded cases).map Branch.toCase = cases.filter fun c => !c.isDefault := by
  have hsame : ∀ c ∈ cases.filter fun c => !c.isDefault,
      Branch.toCase ⟨c.condition, c.result⟩ = id c := by
    intro c hc
    obtain ⟨isDefault, condition, result⟩ := c
    have hflag : (!isDefault) = true := (List.mem_filter.1 hc).2
    rw [Bool.not_eq_true'] at hflag
    rw [hflag]
    rfl
  rw [guarded, List.map_map]
  exact (List.map_congr_left hsame).trans (List.map_id _)

theorem map_line_guarded (cases : List Case) : (guarded cases).map Branch.line =
    (cases.filter fun c => !c.isDefault).map fun c =>
      "case " ++ c.condition ++ " return " ++ c.result.render := by
  rw [guarded, List.map_map]
  rfl

theorem fallbackLines_eq (s : Switch) :
    s.fallbackLines = s.fallback.toList.map fun e => "default return " ++ e.render := by
  rw [fallbackLines]
  cases s.fallback <;> rfl

/-- Every default and every list of cases is read from the entries that describe them, and reading a
description is pushing the default and then the cases to an empty switch. However a switch arises,
its branches are the cases given that are not flagged as the default, in order; its default is that
of the last flagged case, or else the one given apart; and its lines are one for each branch, with
one for the default at the end if there is a default. -/
theorem arises_with_default_apart :
    (∀ g : Given, g.DescribedBy g.entries ∧ ∀ dialect arranged, g.DescribedBy arranged →
      Given.ofNode dialect (.object arranged) = .ok g) ∧
    (∀ dialect n, ofNode dialect n = (Given.ofNode dialect n).map fun g =>
      (g.fallback.toList.map Case.default ++ g.cases).foldl push empty) ∧
    ∀ g s, Arises g s →
      (∀ c ∈ s.branches.map Branch.toCase, c.isDefault = false) ∧
      s.branches.map Branch.toCase = g.cases.filter (fun c => !c.isDefault) ∧
      s.fallback = ((g.cases.filter Case.isDefault).getLast?.map Case.result).or g.fallback ∧
      s.lines = "switch" :: (g.cases.filter fun c => !c.isDefault).map (fun c =>
          "case " ++ c.condition ++ " return " ++ c.result.render) ++
        s.fallback.toList.map fun e => "default return " ++ e.render := by
  refine ⟨fun g => ⟨⟨[], by simp, by simp⟩, fun dialect _ h => h.ofNode dialect⟩,
    ofNode_eq_pushed, fun g s h => ?_⟩
  obtain rfl := h.eq_pushed.trans g.pushed_eq
  have hbranches := map_toCase_guarded g.cases
  refine ⟨fun c hc => ?_, hbranches, rfl, ?_⟩
  · rw [hbranches] at hc
    simpa using (List.mem_filter.1 hc).2
  · rw [lines, map_line_guarded, fallbackLines_eq]

def twoDefaults : Given :=
  ⟨some (.integer 0), [.guarded "$c > 1" (.integer 1), .default (.integer 2)]⟩

def twoDefaultsArranged : List (String × Node) :=
  [("default", .scalar (.integer 0) none none),
    ("cases", .sequence (twoDefaults.cases.map Case.node) none none),
    ("note", (Json.string "two defaults").toNode)]

theorem arises_with_default_apart_example :
    twoDefaults.DescribedBy twoDefaultsArranged ∧
    ofNode .onDemand (.object twoDefaultsArranged) =
      .ok ⟨[⟨"$c > 1", .integer 1⟩], some (.integer 2)⟩ ∧
    Arises ⟨some (.integer 0), twoDefaults.cases ++ [.guarded "$c > 3" (.integer 3)] ++
        [.default (.integer 4)] ++ [.guarded "$c > 5" (.integer 5)]⟩
      ⟨[⟨"$c > 1", .integer 1⟩, ⟨"$c > 3", .integer 3⟩, ⟨"$c > 5", .integer 5⟩],
        some (.integer 4)⟩ ∧
    lines ⟨[⟨"$c > 1", .integer 1⟩, ⟨"$c > 3", .integer 3⟩, ⟨"$c > 5", .integer 5⟩],
        some (.integer 4)⟩ =
      ["switch", "case $c > 1 return 1", "case $c > 3 return 3", "case $c > 5 return 5",
        "default return 4"] := by
  obtain ⟨hdescribed, hread, harises⟩ := arises_with_default_apart
  have harranged : twoDefaults.DescribedBy twoDefaultsArranged :=
    ⟨[("note", .string "two defaults")], by decide, .swap _ _ _⟩
  have hgiven := (hdescribed twoDefaults).2 .onDemand _ harranged
  have hswitch : ofNode .onDemand (.object twoDefaultsArranged) =
      .ok ⟨[⟨"$c > 1", .integer 1⟩], some (.integer 2)⟩ := by
    rw [hread, hgiven]
    rfl
  have hfirst := (Arises.read hgiven hswitch).push (.guarded "$c > 3" (.integer 3))
  have hall := (hfirst.push (.default (.integer 4))).push (.guarded "$c > 5" (.integer 5))
  obtain ⟨_, _, _, hlines⟩ := harises _ _ hall
  exact ⟨harranged, hswitch, hall, hlines.trans (by decide +kernel)⟩

end Switch
end CoverageQuery
