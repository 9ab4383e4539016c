import CoverageQuery.Proofs.Document.Agreement
import CoverageQuery.Proofs.Stored.Finite
import CoverageQuery.Stored.Query

/-!
# Descriptions with their entries rearranged

Every part of a stored query has a role, and an object has keys with a meaning in its role. A tree is
rearranged by giving the entries of its objects another order and by adding entries whose keys have no
meaning there, at any depth. What can be skipped, what can be buffered, and what can only be read from a
scalar does not change by that; and what is buffered of a rearranged tree is rearranged in the same way.
-/
namespace CoverageQuery

open Document

def Mode.Kind.fields : Mode.Kind → List String
  | plain => []
  | aggregate => ["method"]
  | encode => ["format"]
  | «switch» => ["cases", "default"]

inductive Role where
  | query
  | subsets
  | subset
  | coordinate
  | mode
  | content (kind : Mode.Kind)
  | cases
  | case
  | other

namespace Role

def names : Role → List String
  | query => (Query.record .streamed).fields
  | subset => Subset.record.fields
  | coordinate => Coordinate.rawRecord.fields
  | content kind => kind.fields
  | case => Case.record.fields
  | subsets | mode | cases | other => []

def entry : Role → String → Role
  | query, key => if key = "subset" then subsets else if key = "mode" then mode else other
  | subset, key => if key = "start" ∨ key = "stop" then coordinate else other
  | mode, key | content _, key => if key = "cases" then cases else other
  | _, _ => other

/-- The role of an item by its place. A record may be a sequence of its fields, a mode one of its kind
and then the fields of that kind. -/
def item : Role → Nat → Role
  | subsets, _ => subset
  | cases, _ => case
  | mode, i => if i = 1 then cases else other
  | content _, i => if i = 0 then cases else other
  | role, i => (role.names[i]?.map role.entry).getD other

/-- Whether a key has no meaning in an object with these entries and may be added. -/
def Admits (role : Role) (entries : List (String × Node)) (key : String) : Prop :=
  match role with
  | query | subset | coordinate | content _ | case => key ∉ role.names
  | mode => key ≠ Mode.kindField ∧ ∀ v kind, (Mode.kindField, v) ∈ entries →
      Mode.readKind .streamed v = .ok kind → key ∉ kind.fields
  | subsets | cases | other => False

end Role

/-- The second tree is the first with entries in another order and with entries added. -/
inductive Rearranged : Role → Node → Node → Prop where
  | same (role : Role) (n : Node) : Rearranged role n n
  | sequence {role : Role} {items : List (Node × Node)} :
    (∀ i item, items[i]? = some item → Rearranged (role.item i) item.1 item.2) →
    Rearranged role (.sequence (items.map Prod.fst) none none)
      (.sequence (items.map Prod.snd) none none)
  | object {role : Role} {changes : List Change} {new : List (String × Json)}
    {arranged : List (String × Node)} :
    (∀ c ∈ changes, Rearranged (role.entry c.key) c.before c.after) →
    (∀ e ∈ new, role.Admits (changes.map Change.old) e.1) →
    arranged.Perm (changes.map Change.new ++ new.map Node.valued) →
    Rearranged role (.object (changes.map Change.old)) (.object arranged)

namespace Mode

theorem readKind_eq_ok {n : Node} {kind : Kind} : readKind .streamed n = .ok kind ↔
    ∃ s written place, n.bare = .scalar (.text s) written place ∧ choose kinds s = .ok kind := by
  have hname (s : String) : variantName .streamed n = .ok s ↔
      ∃ written place, n.bare = .scalar (.text s) written place := by
    unfold variantName
    rw [locate_eq_ok]
    constructor
    · intro h
      split at h
      · exact absurd ‹Dialect.streamed = .onDemand› (by simp)
      · rename_i hbare _
        obtain rfl := Except.ok.inj h
        exact ⟨_, _, hbare⟩
      · exact absurd h (by simp)
    · rintro ⟨written, place, hbare⟩
      rw [hbare]
  rw [readKind, locate_eq_ok, Outcome.bind_eq_ok]
  refine exists_congr fun s => ?_
  rw [hname]
  simp only [exists_and_right]

theorem readKind_of_buffered {n : Node} {kind : Kind} (hn : n.Bufferable)
    (h : readKind .streamed n.buffered = .ok kind) : readKind .streamed n = .ok kind := by
  obtain ⟨m, hm⟩ := hn
  obtain ⟨s, written, place, hbare, hkind⟩ := readKind_eq_ok.1 h
  rw [Node.buffered_of_eq hm] at hbare
  refine readKind_eq_ok.2 ?_
  cases n with
  | scalar value written' place' =>
    have hvalue : value = .text s := by
      cases value <;> simp [Node.buffer, locate, fail] at hm <;> simp [← hm, Node.bare] at hbare
      rw [hbare.1]
    exact ⟨s, written', place', by rw [hvalue]; rfl, hkind⟩
  | sequence items stop place' =>
    rw [Node.buffer] at hm
    obtain ⟨_, _, hm⟩ := Outcome.bind_eq_ok.1 hm
    obtain ⟨_, _, hm⟩ := Outcome.bind_eq_ok.1 hm
    obtain rfl := Except.ok.inj hm
    exact absurd hbare (by simp [Node.bare])
  | mapping entries stop place' =>
    rw [Node.buffer] at hm
    obtain ⟨_, _, hm⟩ := Outcome.bind_eq_ok.1 hm
    obtain ⟨_, _, hm⟩ := Outcome.bind_eq_ok.1 hm
    obtain rfl := Except.ok.inj hm
    exact absurd hbare (by simp [Node.bare])
  | tagged name n => exact absurd hm (by simp [Node.buffer, locate, fail])
  | unreadable failure skippable => exact absurd hm (by simp [Node.buffer])

end Mode

theorem Role.Admits.buffered {role : Role} {entries : List (String × Node)} {key : String}
    (h : role.Admits entries key) (hentries : ∀ e ∈ entries, e.2.Bufferable) :
    role.Admits (entries.map Node.bufferedEntry) key := by
  cases role with
  | mode =>
    refine ⟨h.1, fun v kind hv hkind => ?_⟩
    obtain ⟨⟨key', n⟩, hn, heq⟩ := List.mem_map.1 hv
    obtain ⟨rfl, rfl⟩ := Prod.mk.inj heq
    exact h.2 n kind hn (Mode.readKind_of_buffered (hentries _ hn) hkind)
  | query | subset | coordinate | content | case => exact h
  | subsets | cases | other => exact h

namespace Rearranged

variable {role : Role} {n n' : Node}

theorem reversed (role : Role) (changes : List Change) (more : String × Json)
    (hchanges : ∀ c ∈ changes, Rearranged (role.entry c.key) c.before c.after)
    (hmore : role.Admits (changes.map Change.old) more.1) :
    Rearranged role (.object (changes.map Change.old))
      (.object (Node.valued more :: (changes.map Change.new).reverse)) := by
  refine .object hchanges (List.forall_mem_singleton.2 hmore) ?_
  rw [List.map_singleton]
  exact ((List.reverse_perm _).cons _).trans (List.perm_append_singleton _ _).symm

theorem each (role : Role) {part : Role} (items : List (Node × Node)) (hpart : ∀ i, role.item i = part)
    (hitems : ∀ item ∈ items, Rearranged part item.1 item.2) :
    Rearranged role (.sequence (items.map Prod.fst) none none)
      (.sequence (items.map Prod.snd) none none) :=
  .sequence fun i item hi => hpart i ▸ hitems item (List.mem_of_getElem? hi)

/-- What holds of containers when it holds of their parts, and of JSON values, is not changed. -/
theorem iff_of_parts {P : Node → Prop}
    (hsequence : ∀ items, P (.sequence items none none) ↔ ∀ n ∈ items, P n)
    (hobject : ∀ entries, P (.object entries) ↔ ∀ e ∈ entries, P e.2)
    (hjson : ∀ v : Json, P v.toNode) (h : Rearranged role n n') : P n ↔ P n' := by
  induction h with
  | same => exact Iff.rfl
  | sequence _ ih =>
    rw [hsequence, hsequence, List.forall_mem_map, List.forall_mem_map]
    refine forall₂_congr fun item hitem => ?_
    obtain ⟨i, hi⟩ := List.mem_iff_getElem?.1 hitem
    exact ih i item hi
  | @object role changes new arranged _ _ harranged ih =>
    have hnew : ∀ e ∈ new.map Node.valued, P e.2 := by
      intro e he
      obtain ⟨entry, _, rfl⟩ := List.mem_map.1 he
      exact hjson entry.2
    have hvalues : (∀ e ∈ arranged, P e.2) ↔ ∀ c ∈ changes, P c.after := by
      rw [forall_congr' fun e => imp_congr_left harranged.mem_iff, List.forall_mem_append,
        List.forall_mem_map]
      exact and_iff_left hnew
    rw [hobject, hobject, hvalues, List.forall_mem_map]
    exact forall₂_congr fun c hc => ih c hc

theorem agree_skip (h : Rearranged role n n') : Agree n.skip n'.skip :=
  fun _ => h.iff_of_parts (P := fun n => n.skip = .ok ()) (fun _ => Node.skip_sequence)
    (fun _ => Node.skip_object) Json.skip_toNode

theorem bufferable_iff (h : Rearranged role n n') : n.Bufferable ↔ n'.Bufferable :=
  h.iff_of_parts (fun _ => Node.bufferable_sequence) (fun _ => Node.bufferable_object)
    Node.bufferable_toNode

theorem buffered (h : Rearranged role n n') (hn : n.Bufferable) :
    Rearranged role n.buffered n'.buffered := by
  induction h with
  | same role n => exact .same role n.buffered
  | @sequence role items hitems ih =>
    have hfirst := Node.bufferable_sequence.1 hn
    have hsecond := Node.bufferable_sequence.1 ((Rearranged.sequence hitems).bufferable_iff.1 hn)
    rw [Node.buffered_of_eq (Node.buffer_sequence_eq_ok.2 ⟨hfirst, rfl⟩),
      Node.buffered_of_eq (Node.buffer_sequence_eq_ok.2 ⟨hsecond, rfl⟩)]
    have hparts : ∀ i item, (items.map (Prod.map Node.buffered Node.buffered))[i]? = some item →
        Rearranged (role.item i) item.1 item.2 := by
      intro i item hi
      rw [List.getElem?_map, Option.map_eq_some_iff] at hi
      obtain ⟨original, hget, rfl⟩ := hi
      exact ih i original hget (hfirst _ (List.mem_map_of_mem (List.mem_of_getElem? hget)))
    have hbuffered := Rearranged.sequence hparts
    simp only [List.map_map] at hbuffered ⊢
    exact hbuffered
  | @object role changes new arranged hchanges hnew harranged ih =>
    have hfirst := Node.bufferable_object.1 hn
    have hsecond := Node.bufferable_object.1
      ((Rearranged.object hchanges hnew harranged).bufferable_iff.1 hn)
    rw [Node.buffered_of_eq (Node.buffer_object_eq_ok.2 ⟨hfirst, rfl⟩),
      Node.buffered_of_eq (Node.buffer_object_eq_ok.2 ⟨hsecond, rfl⟩)]
    have hold : (changes.map Change.buffered).map Change.old =
        (changes.map Change.old).map Node.bufferedEntry := by
      simp only [List.map_map]
      rfl
    have hadded : new.map Node.valued = (new.map Node.valued).map Node.bufferedEntry := by
      rw [List.map_map]
      exact List.map_congr_left fun e _ => by
        simp only [Function.comp_apply, Node.valued, Node.bufferedEntry, Node.buffered_toNode]
    have horder := harranged.map Node.bufferedEntry
    rw [← hold]
    refine .object ?_ (fun e he => hold ▸ (hnew e he).buffered hfirst) ?_
    · intro c hc
      obtain ⟨original, hmem, rfl⟩ := List.mem_map.1 hc
      exact ih original hmem (hfirst original.old (List.mem_map_of_mem hmem))
    · rw [List.map_append, ← hadded, List.map_map] at horder
      rw [List.map_map]
      exact horder

theorem agree_of_scalar {α : Type} {read : Node → Reading α}
    (hsequence : ∀ items a, read (.sequence items none none) ≠ .ok a)
    (hobject : ∀ entries a, read (.object entries) ≠ .ok a) (h : Rearranged role n n') :
    Agree (read n) (read n') := by
  cases h with
  | same => exact .refl _
  | sequence _ => exact .failing (hsequence _) (hsequence _)
  | object _ _ _ => exact .failing (hobject _) (hobject _)

theorem agree_text (h : Rearranged role n n') : Agree n.text n'.text :=
  h.agree_of_scalar (fun _ _ => by simp [Node.text, locate_eq_ok, Node.bare])
    fun _ _ => by simp [Node.text, locate_eq_ok, Node.object, Node.bare]

theorem agree_boolean (h : Rearranged role n n') : Agree n.boolean n'.boolean :=
  h.agree_of_scalar (fun _ _ => by simp [Node.boolean, locate_eq_ok, Node.bare])
    fun _ _ => by simp [Node.boolean, locate_eq_ok, Node.object, Node.bare]

theorem agree_readKind (h : Rearranged role n n') :
    Agree (Mode.readKind .streamed n) (Mode.readKind .streamed n') :=
  h.agree_of_scalar (fun _ _ => by simp [Mode.readKind_eq_ok, Node.bare])
    fun _ _ => by simp [Mode.readKind_eq_ok, Node.object, Node.bare]

theorem agree_buffer {α : Type} {read : Node → Reading α}
    (hread : ∀ {m m'}, Rearranged role m m' → Agree (read m) (read m')) (h : Rearranged role n n') :
    Agree (n.buffer >>= read) (n'.buffer >>= read) := by
  intro a
  rw [Node.buffer_bind_eq_ok, Node.buffer_bind_eq_ok, h.bufferable_iff]
  exact and_congr_right fun hn => hread (h.buffered (h.bufferable_iff.2 hn)) a

theorem agree_expression (h : Rearranged role n n') :
    Agree (Expression.ofNode n) (Expression.ofNode n') :=
  h.agree_buffer fun h =>
    h.agree_of_scalar (fun _ => Expression.untagged.ofBuffered_sequence_ne) fun _ =>
      Expression.ofBuffered_mapping_ne

theorem agree_optional {α : Type} {read : Node → Reading α} (h : Rearranged role n n')
    (hread : Agree (read n) (read n')) : Agree (n.optional read) (n'.optional read) := by
  have hnull : n.isNull = n'.isNull := by
    cases h <;> rfl
  unfold Node.optional
  rw [hnull]
  split
  · exact .refl _
  · exact hread.map some

theorem agree_list {α : Type} {read : Node → Reading α}
    (hread : ∀ i {m m'}, Rearranged (role.item i) m m' → Agree (read m) (read m'))
    (h : Rearranged role n n') : Agree (n.list read) (n'.list read) := by
  cases h with
  | same => exact .refl _
  | @sequence _ items hitems =>
    have hvalues : ∀ item ∈ items, Agree (read item.1) (read item.2) := by
      intro item hitem
      obtain ⟨i, hi⟩ := List.mem_iff_getElem?.1 hitem
      exact hread i (hitems i item hi)
    exact ((Agree.mapM hvalues).bind fun _ => .refl _).locate none none
  | object _ _ _ =>
    have hobject (entries : List (String × Node)) (as : List α) :
        (Node.object entries).list read ≠ .ok as := by
      simp [Node.list, locate_eq_ok, Node.object, Node.bare, Node.isVacant]
    exact .failing (hobject _) (hobject _)

theorem perm_of_closed {changes : List Change} {new : List (String × Json)}
    {arranged : List (String × Node)} (hrole : role = .cases ∨ role = .other)
    (hnew : ∀ e ∈ new, role.Admits (changes.map Change.old) e.1)
    (harranged : arranged.Perm (changes.map Change.new ++ new.map Node.valued)) :
    arranged.Perm (changes.map Change.new) := by
  have hnothing : new = [] := by
    refine List.eq_nil_iff_forall_not_mem.2 fun e he => ?_
    rcases hrole with rfl | rfl
    · exact hnew e he
    · exact hnew e he
  rw [hnothing, List.map_nil, List.append_nil] at harranged
  exact harranged

theorem agree_unit (h : Rearranged .other n n') : Agree (unit .buffered n) (unit .buffered n') := by
  have hunit (entries : List (String × Node)) (u : Unit) :
      unit .buffered (Node.object entries) = .ok u ↔ entries = [] := by
    cases entries with
    | nil => simp [unit, Node.object]
    | cons e entries => simp [unit, Node.object]
  cases h with
  | same => exact .refl _
  | sequence _ => exact .failing (by simp [unit]) (by simp [unit])
  | object _ hnew harranged =>
    intro u
    have hlength := (perm_of_closed (.inr rfl) hnew harranged).length_eq
    simp only [List.length_map] at hlength
    rw [hunit, hunit, List.map_eq_nil_iff, ← List.length_eq_zero_iff, ← List.length_eq_zero_iff,
      hlength]

theorem variant_object_eq_ok {α : Type} {choices : List (String × α)}
    {entries : List (String × Node)} {a : α} :
    variant .buffered choices (Node.object entries) = .ok a ↔
      ∃ entry, entries = [entry] ∧ choose choices entry.1 = .ok a ∧
        unit .buffered entry.2 = .ok () := by
  cases entries with
  | nil => simp [variant, Node.object, fail]
  | cons entry rest =>
    cases rest with
    | nil =>
      have hvariant : variant .buffered choices (Node.object [entry]) =
          choose choices entry.1 >>= fun a => unit .buffered entry.2 >>= fun _ => pure a := rfl
      simp only [hvariant, Outcome.bind_eq_ok]
      constructor
      · rintro ⟨_, hname, _, hunit, h⟩
        obtain rfl := Except.ok.inj h
        exact ⟨entry, rfl, hname, hunit⟩
      · rintro ⟨_, heq, hname, hunit⟩
        obtain rfl := (List.cons.inj heq).1
        exact ⟨a, hname, (), hunit, rfl⟩
    | cons other rest => simp [variant, Node.object, fail]

theorem agree_variant {α : Type} {choices : List (String × α)}
    (hrole : role = .cases ∨ role = .other) (h : Rearranged role n n') :
    Agree (variant .buffered choices n) (variant .buffered choices n') := by
  cases h with
  | same => exact .refl _
  | sequence _ => exact .failing (by simp [variant]) (by simp [variant])
  | @object _ changes new arranged hchanges hnew harranged =>
    have hsingle (entry : String × Node) :
        arranged = [entry] ↔ changes.map Change.new = [entry] := by
      have hperm := perm_of_closed hrole hnew harranged
      rw [← List.perm_singleton, ← List.perm_singleton]
      exact ⟨hperm.symm.trans, hperm.trans⟩
    have hunit : ∀ c ∈ changes, Agree (unit .buffered c.before) (unit .buffered c.after) := by
      intro c hc
      have hchange := hchanges c hc
      rcases hrole with rfl | rfl
      · exact agree_unit hchange
      · exact agree_unit hchange
    intro a
    simp only [variant_object_eq_ok, hsingle, List.map_eq_singleton_iff]
    constructor
    · rintro ⟨_, ⟨c, rfl, rfl⟩, hname, hvalue⟩
      exact ⟨c.new, ⟨c, rfl, rfl⟩, hname, (hunit c (List.mem_singleton_self c) ()).1 hvalue⟩
    · rintro ⟨_, ⟨c, rfl, rfl⟩, hname, hvalue⟩
      exact ⟨c.old, ⟨c, rfl, rfl⟩, hname, (hunit c (List.mem_singleton_self c) ()).2 hvalue⟩

end Rearranged
end CoverageQuery
