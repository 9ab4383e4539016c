import CoverageQuery.Proofs.Query.Balance

/-!
# Balance along a history of operations

Each operation with delimited parts keeps a query delimited, and so does a history of operations. A
case counts with its condition only where it is not the default, because a default drops it.
-/
namespace CoverageQuery

open Text
open Expression (Accepted accepted_iff)

namespace Switch

theorem delimited_empty : empty.Delimited :=
  ⟨fun _ hb => absurd hb (by simp [empty]), fun _ hb => absurd hb (by simp [empty]),
    fun _ he => absurd he (by simp [empty])⟩

end Switch

structure Case.Delimited (c : Case) : Prop where
  condition : c.isDefault = false → Accepted c.condition
  result : c.result.Delimited

theorem Switch.delimited_push {s : Switch} {c : Case} (hs : s.Delimited) (hc : c.Delimited) :
    (s.push c).Delimited := by
  unfold push
  split
  · refine ⟨hs.condition, hs.result, fun e he => ?_⟩
    obtain rfl := Option.some.inj he
    exact hc.result
  · rename_i hdefault
    have hcondition := hc.condition (by simpa using hdefault)
    refine ⟨fun b hb => ?_, fun b hb => ?_, hs.fallback⟩
    · rcases List.mem_append.1 hb with hb | hb
      · exact hs.condition b hb
      · obtain rfl := List.mem_singleton.1 hb
        exact hcondition
    · rcases List.mem_append.1 hb with hb | hb
      · exact hs.result b hb
      · obtain rfl := List.mem_singleton.1 hb
        exact hc.result

theorem Switch.delimited_foldl {s : Switch} {cases : List Case} (hs : s.Delimited)
    (h : ∀ c ∈ cases, c.Delimited) : (cases.foldl push s).Delimited := by
  induction cases generalizing s with
  | nil => exact hs
  | cons c cases ih =>
    exact ih (delimited_push hs (h c List.mem_cons_self))
      fun d hd => h d (List.mem_cons_of_mem c hd)

theorem Switch.delimited_ofCases {fallback : Option Expression} {cases : List Case}
    (hf : ∀ e ∈ fallback, e.Delimited) (h : ∀ c ∈ cases, c.Delimited) :
    (ofCases fallback cases).Delimited :=
  delimited_foldl ⟨fun _ hb => absurd hb (by simp), fun _ hb => absurd hb (by simp), hf⟩ h

namespace Mode

theorem switch?_resetEncoding (m : Mode) : m.resetEncoding.switch? = m.switch? := by
  cases m <;> rfl

theorem switch?_resetAggregation (m : Mode) : m.resetAggregation.switch? = m.switch? := by
  cases m <;> rfl

theorem switch?_resetSwitch (m : Mode) : m.resetSwitch.switch? = none := by
  cases m <;> rfl

theorem switch?_addCase (m : Mode) (c : Case) :
    (m.addCase c).switch? = some ((m.switch?.getD .empty).push c) := by
  cases m <;> rfl

end Mode

namespace Query

def Operation.Delimited : Operation → Prop
  | .setCoverages names => ∀ name ∈ names, Accepted name
  | .setSubset subset => ∀ s ∈ subset, s.Delimited
  | .setValue value => value.Delimited
  | .addCase c => c.Delimited
  | .setSwitch s => s.Delimited
  | _ => True

theorem delimited_ofCoverages {names : List String} (h : ∀ name ∈ names, Accepted name) :
    (ofCoverages names).Delimited :=
  ⟨h, fun _ hs => absurd hs (by simp [ofCoverages]), accepted_iff.2 (by decide),
    fun _ hs => absurd hs (by simp [ofCoverages, Mode.switch?])⟩

theorem delimited_apply {q : Query} {op : Operation} (hq : q.Delimited) (hop : op.Delimited) :
    (q.apply op).Delimited := by
  have hnone : ∀ s ∈ (none : Option Switch), s.Delimited := fun _ hs => absurd hs (by simp)
  have hempty : ∀ s ∈ ([] : List Subset), s.Delimited := fun _ hs => absurd hs (by simp)
  cases op with
  | setCoverages names => exact ⟨hop, hq.subset, hq.value, hq.branches⟩
  | setSubset subset => exact ⟨hq.coverages, hop, hq.value, hq.branches⟩
  | clearSubset => exact ⟨hq.coverages, hempty, hq.value, hq.branches⟩
  | setValue value => exact ⟨hq.coverages, hq.subset, hop, hq.branches⟩
  | encode format => exact ⟨hq.coverages, hq.subset, hq.value, hnone⟩
  | aggregate method => exact ⟨hq.coverages, hq.subset, hq.value, hnone⟩
  | resetEncoding =>
    refine ⟨hq.coverages, hq.subset, hq.value, ?_⟩
    rw [apply, Mode.switch?_resetEncoding]
    exact hq.branches
  | resetAggregation =>
    refine ⟨hq.coverages, hq.subset, hq.value, ?_⟩
    rw [apply, Mode.switch?_resetAggregation]
    exact hq.branches
  | addCase c =>
    refine ⟨hq.coverages, hq.subset, hq.value, ?_⟩
    rw [apply, Mode.switch?_addCase]
    intro s hs
    obtain rfl := Option.some.inj hs
    cases hm : q.mode.switch? with
    | none => exact Switch.delimited_push Switch.delimited_empty hop
    | some t => exact Switch.delimited_push (hq.branches t hm) hop
  | setSwitch block =>
    refine ⟨hq.coverages, hq.subset, hq.value, ?_⟩
    intro s hs
    obtain rfl := Option.some.inj hs
    exact hop
  | resetSwitch =>
    refine ⟨hq.coverages, hq.subset, hq.value, ?_⟩
    rw [apply, Mode.switch?_resetSwitch]
    exact hnone

theorem delimited_run {q : Query} {ops : List Operation} (hq : q.Delimited)
    (hops : ∀ op ∈ ops, op.Delimited) : (q.run ops).Delimited := by
  induction ops generalizing q with
  | nil => exact hq
  | cons op ops ih =>
    exact ih (delimited_apply hq (hops op List.mem_cons_self))
      fun o ho => hops o (List.mem_cons_of_mem op ho)

end Query

end CoverageQuery
