import CoverageQuery.Query.Basic

/-!
# What a history of operations leaves

The coverages, the subset and the value of a query after a history are those of the last operation
that sets them. The mode is decided by the last operation that entered one: a reset of that mode
after it leaves a plain query, and otherwise the mode stands, a switch with the cases that were added
at the entry and after it. What came before the entry leaves no trace in the mode.
-/
namespace CoverageQuery

namespace Switch

def guarded (cases : List Case) : List Branch :=
  (cases.filter fun c => !c.isDefault).map fun c => ⟨c.condition, c.result⟩

def lastDefault? (cases : List Case) : Option Expression :=
  (cases.filter Case.isDefault).getLast?.map Case.result

theorem lastDefault?_cons_default {c : Case} (h : c.isDefault = true) (cases : List Case) :
    lastDefault? (c :: cases) = (lastDefault? cases).or (some c.result) := by
  rw [lastDefault?, List.filter_cons_of_pos h, List.getLast?_cons, lastDefault?]
  cases (cases.filter Case.isDefault).getLast? <;> rfl

theorem foldl_push (s : Switch) (cases : List Case) : cases.foldl push s =
    ⟨s.branches ++ guarded cases, (lastDefault? cases).or s.fallback⟩ := by
  induction cases generalizing s with
  | nil => simp [guarded, lastDefault?]
  | cons c cases ih =>
    rw [List.foldl_cons, ih]
    cases hc : c.isDefault with
    | true =>
      rw [lastDefault?_cons_default hc, Option.or_assoc]
      simp [push, guarded, hc]
    | false => simp [push, guarded, lastDefault?, hc]

end Switch

namespace Mode

def withCases (m : Mode) (cases : List Case) : Mode :=
  match m with
  | switch s => switch ⟨s.branches ++ Switch.guarded cases,
      (Switch.lastDefault? cases).or s.fallback⟩
  | other => other

theorem withCases_nil (m : Mode) : m.withCases [] = m := by
  cases m <;> simp [withCases, Switch.guarded, Switch.lastDefault?]

theorem withCases_append (m : Mode) (cases more : List Case) :
    (m.withCases cases).withCases more = m.withCases (cases ++ more) := by
  cases m with
  | «switch» s =>
    show switch ⟨_, _⟩ = switch ⟨_, _⟩
    have h := Switch.foldl_push s (cases ++ more)
    rw [List.foldl_append, Switch.foldl_push s cases, Switch.foldl_push] at h
    exact congrArg switch h
  | _ => rfl

theorem addCase_of_switch {m : Mode} {s : Switch} (h : m.switch? = some s) (c : Case) :
    m.addCase c = m.withCases [c] := by
  cases m with
  | «switch» t => exact congrArg switch (Switch.foldl_push t [c])
  | _ => exact absurd h (by simp [switch?])

theorem addCase_of_none {m : Mode} (h : m.switch? = none) (c : Case) :
    m.addCase c = (switch .empty).withCases [c] := by
  have hpush := congrArg switch (Switch.foldl_push .empty [c])
  cases m with
  | «switch» t => exact absurd h (by simp [switch?])
  | _ => exact hpush

end Mode

namespace Query

namespace Operation

def coverages? : Operation → Option (List String)
  | setCoverages names => some names
  | _ => none

def subset? : Operation → Option (List Subset)
  | setSubset subset => some subset
  | clearSubset => some []
  | _ => none

def value? : Operation → Option Expression
  | setValue value => some value
  | _ => none

def case? : Operation → Option Case
  | addCase c => some c
  | _ => none

def mode? : Operation → Option Mode
  | encode format => some (.encode format)
  | aggregate method => some (.aggregate method)
  | setSwitch block => some (.switch block)
  | addCase _ => some (.switch .empty)
  | _ => none

/-- Whether an operation enters a mode; a case does when no switch is active. -/
def Enters (m : Mode) : Operation → Prop
  | encode _ | aggregate _ | setSwitch _ => True
  | addCase _ => m.switch? = none
  | _ => False

instance (m : Mode) : DecidablePred (Enters m)
  | .encode _ | .aggregate _ | .setSwitch _ => .isTrue trivial
  | .addCase _ => inferInstanceAs (Decidable (m.switch? = none))
  | .setCoverages _ | .setSubset _ | .clearSubset | .setValue _ | .resetEncoding
  | .resetAggregation | .resetSwitch => .isFalse id

def drops : Mode → Operation → Bool
  | .encode _, resetEncoding | .aggregate _, resetAggregation | .switch _, resetSwitch => true
  | _, _ => false

theorem filterMap_case?_cons (op : Operation) (ops : List Operation) :
    (op :: ops).filterMap case? = op.case?.toList ++ ops.filterMap case? := by
  cases h : op.case? <;> simp [h]

end Operation

/-- None of the operations enters a mode when it comes. -/
def NoEntry (q : Query) : List Operation → Prop
  | [] => True
  | op :: ops => ¬ op.Enters q.mode ∧ (q.apply op).NoEntry ops

instance decidableNoEntry (q : Query) : DecidablePred q.NoEntry
  | [] => .isTrue trivial
  | op :: ops => @instDecidableAnd _ _ inferInstance (decidableNoEntry (q.apply op) ops)

/-- The last of the operations that enters a mode, between those before and those after it. -/
structure LastEntry (q : Query) (ops before : List Operation) (op : Operation)
    (after : List Operation) : Prop where
  split : ops = before ++ op :: after
  enters : op.Enters (q.run before).mode
  last : ((q.run before).apply op).NoEntry after

theorem run_cons (q : Query) (op : Operation) (ops : List Operation) :
    q.run (op :: ops) = (q.apply op).run ops := rfl

theorem run_append (q : Query) (ops more : List Operation) :
    q.run (ops ++ more) = (q.run ops).run more := List.foldl_append

theorem field_run {α : Type} {field : Query → α} {set? : Operation → Option α}
    (h : ∀ q op, field (q.apply op) = (set? op).getD (field q)) (q : Query)
    (ops : List Operation) :
    field (q.run ops) = (ops.filterMap set?).getLast?.getD (field q) := by
  induction ops generalizing q with
  | nil => rfl
  | cons op ops ih =>
    rw [run_cons, ih, h]
    cases hset : set? op with
    | none => simp [hset]
    | some a => simp [hset, List.getLast?_cons]

theorem coverages_apply (q : Query) (op : Operation) :
    (q.apply op).coverages = op.coverages?.getD q.coverages := by
  cases op <;> rfl

theorem subset_apply (q : Query) (op : Operation) :
    (q.apply op).subset = op.subset?.getD q.subset := by
  cases op <;> rfl

theorem value_apply (q : Query) (op : Operation) :
    (q.apply op).value = op.value?.getD q.value := by
  cases op <;> rfl

theorem mode_apply_congr {q r : Query} (h : q.mode = r.mode) (op : Operation) :
    (q.apply op).mode = (r.apply op).mode := by
  cases op <;> simp only [apply, h]

theorem mode_run_congr {q r : Query} (h : q.mode = r.mode) (ops : List Operation) :
    (q.run ops).mode = (r.run ops).mode := by
  induction ops generalizing q r with
  | nil => exact h
  | cons op ops ih => exact ih (mode_apply_congr h op)

theorem mode_of_enters {q : Query} {op : Operation} (h : op.Enters q.mode) :
    ∃ entered, op.mode? = some entered ∧
      (q.apply op).mode = entered.withCases op.case?.toList := by
  cases op with
  | encode format => exact ⟨_, rfl, rfl⟩
  | aggregate method => exact ⟨_, rfl, rfl⟩
  | setSwitch block => exact ⟨_, rfl, (Mode.withCases_nil _).symm⟩
  | addCase c => exact ⟨_, rfl, Mode.addCase_of_none h c⟩
  | setCoverages | setSubset | clearSubset | setValue | resetEncoding | resetAggregation
  | resetSwitch => exact h.elim

theorem mode_of_not_enters {q : Query} {op : Operation} (h : ¬ op.Enters q.mode) :
    (q.apply op).mode =
      if op.drops q.mode then .plain else q.mode.withCases op.case?.toList := by
  cases op with
  | encode | aggregate | setSwitch => exact absurd trivial h
  | addCase c =>
    obtain ⟨s, hs⟩ := Option.ne_none_iff_exists'.1 h
    have hdrops : (Operation.addCase c).drops q.mode = false := by
      cases q.mode <;> rfl
    rw [hdrops]
    exact Mode.addCase_of_switch hs c
  | setCoverages | setSubset | clearSubset | setValue =>
    cases hm : q.mode <;> exact hm.trans (Mode.withCases_nil _).symm
  | resetEncoding | resetAggregation | resetSwitch =>
    simp only [apply]
    cases q.mode <;> first | rfl | exact (Mode.withCases_nil _).symm

theorem drops_withCases (op : Operation) (m : Mode) (cases : List Case) :
    op.drops (m.withCases cases) = op.drops m := by
  cases m <;> cases op <;> rfl

theorem drops_plain (op : Operation) : op.drops .plain = false := by
  cases op <;> rfl

theorem mode_run_of_noEntry {q : Query} {ops : List Operation} (h : q.NoEntry ops) :
    (q.run ops).mode = if ops.any fun op => op.drops q.mode then .plain
      else q.mode.withCases (ops.filterMap Operation.case?) := by
  induction ops generalizing q with
  | nil => exact (Mode.withCases_nil _).symm
  | cons op ops ih =>
    have hstep := mode_of_not_enters h.1
    rw [run_cons, ih h.2]
    cases hdrops : op.drops q.mode with
    | true =>
      -- The reset leaves a plain query, which nothing that comes later can reset again.
      rw [hdrops, if_pos rfl] at hstep
      simp [hstep, hdrops, drops_plain, Mode.withCases]
    | false =>
      rw [hdrops, if_neg Bool.false_ne_true] at hstep
      simp only [hstep, Operation.filterMap_case?_cons, drops_withCases, Mode.withCases_append,
        List.any_cons, hdrops, Bool.false_or]

theorem mode_of_lastEntry {q : Query} {ops before after : List Operation} {op : Operation}
    (h : LastEntry q ops before op after) : ∃ entered, op.mode? = some entered ∧
      (q.run ops).mode = if after.any fun o => o.drops entered then .plain
        else entered.withCases ((op :: after).filterMap Operation.case?) := by
  obtain ⟨entered, hentered, hmode⟩ := mode_of_enters h.enters
  refine ⟨entered, hentered, ?_⟩
  rw [h.split, run_append, run_cons, mode_run_of_noEntry h.last, hmode,
    Operation.filterMap_case?_cons, Mode.withCases_append]
  simp only [drops_withCases]

theorem noEntry_or_exists_lastEntry (q : Query) (ops : List Operation) :
    q.NoEntry ops ∨ ∃ before op after, LastEntry q ops before op after := by
  induction ops generalizing q with
  | nil => exact .inl trivial
  | cons op ops ih =>
    -- An entry in the rest is later than one at this operation, so the rest is looked at first.
    rcases ih (q.apply op) with hnone | ⟨before, last, after, hsplit, henters, hlast⟩
    · by_cases henters : op.Enters q.mode
      · exact .inr ⟨[], op, ops, rfl, henters, hnone⟩
      · exact .inl ⟨henters, hnone⟩
    · exact .inr ⟨op :: before, last, after, by rw [hsplit, List.cons_append], henters, hlast⟩

/-- What a history of operations leaves of a new query: in each field that operations set, what the
last of them set, and the mode that was entered last, unless it was reset since. The mode is the same
whatever query that entry came to. -/
theorem run_ofCoverages (names : List String) (ops : List Operation) :
    ((ofCoverages names).run ops).coverages =
      (ops.filterMap Operation.coverages?).getLast?.getD names ∧
    ((ofCoverages names).run ops).subset =
      (ops.filterMap Operation.subset?).getLast?.getD [] ∧
    ((ofCoverages names).run ops).value =
      (ops.filterMap Operation.value?).getLast?.getD Expression.ofIterator ∧
    ((ofCoverages names).NoEntry ops → ((ofCoverages names).run ops).mode = .plain) ∧
    (∀ before op after, LastEntry (ofCoverages names) ops before op after →
      (∃ entered, op.mode? = some entered ∧ ((ofCoverages names).run ops).mode =
        if after.any fun o => o.drops entered then .plain
        else entered.withCases ((op :: after).filterMap Operation.case?)) ∧
      ∀ other : Query, op.Enters other.mode →
        (other.run (op :: after)).mode = ((ofCoverages names).run ops).mode) ∧
    ((ofCoverages names).NoEntry ops ∨
      ∃ before op after, LastEntry (ofCoverages names) ops before op after) := by
  refine ⟨field_run coverages_apply _ ops, field_run subset_apply _ ops, field_run value_apply _ ops,
    fun h => ?_, fun before op after h => ⟨mode_of_lastEntry h, fun other hother => ?_⟩,
    noEntry_or_exists_lastEntry _ ops⟩
  · rw [mode_run_of_noEntry h]
    split <;> rfl
  · obtain ⟨entered, hentered, hmode⟩ := mode_of_enters h.enters
    obtain ⟨entered', hentered', hmode'⟩ := mode_of_enters hother
    obtain rfl := Option.some.inj (hentered.symm.trans hentered')
    -- After the entry both queries are in one mode, and a mode depends on no other field.
    rw [h.split, run_append, run_cons, run_cons]
    exact mode_run_congr (hmode'.trans hmode.symm) after

/-- A switch, an encoding, and a second switch that is begun by a case. -/
def switchHistory : List Operation :=
  [.setSwitch ⟨[⟨"$c > 1", .integer 1⟩], some (.integer 0)⟩,
    .addCase (.guarded "$c > 2" (.integer 2)), .encode .png,
    .addCase (.guarded "$c > 3" (.integer 3)), .resetEncoding, .addCase (.default (.integer 4)),
    .setCoverages ["B"], .addCase (.guarded "$c > 5" (.integer 5)),
    .addCase (.default (.integer 6)), .clearSubset]

theorem run_ofCoverages_example :
    LastEntry (ofCoverages ["A"]) switchHistory (switchHistory.take 3)
      (.addCase (.guarded "$c > 3" (.integer 3))) (switchHistory.drop 4) ∧
    ((ofCoverages ["A"]).run switchHistory).mode =
      .switch ⟨[⟨"$c > 3", .integer 3⟩, ⟨"$c > 5", .integer 5⟩], some (.integer 6)⟩ := by
  obtain ⟨_, _, _, _, hlast, _⟩ := run_ofCoverages ["A"] switchHistory
  have hentry : LastEntry (ofCoverages ["A"]) switchHistory (switchHistory.take 3)
      (.addCase (.guarded "$c > 3" (.integer 3))) (switchHistory.drop 4) :=
    ⟨by decide, by decide, by decide⟩
  obtain ⟨⟨entered, hentered, hmode⟩, _⟩ := hlast _ _ _ hentry
  obtain rfl := Option.some.inj hentered
  exact ⟨hentry, hmode.trans (by decide)⟩

end Query
end CoverageQuery
