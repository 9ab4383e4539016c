import CoverageQuery.Proofs.Stored.Rearranged
import Mathlib.Tactic.IntervalCases

/-!
# Records read from rearranged descriptions

Each record of a stored query puts its fields apart from each other, and it reads the value of a field as
before when that value is rearranged. So the record is read as before from a rearranged mapping or
sequence: coordinates first, then subsets, cases, switches and what stands beside the kind of a mode.
-/
namespace CoverageQuery

open Document

namespace Role

theorem notMem_of_admits {role : Role} {entries : List (String × Node)} {key : String}
    (h : role.Admits entries key) : key ∉ role.names := by
  cases role with
  | query | subset | coordinate | content | case => exact h
  | subsets | mode | cases | other => exact List.not_mem_nil

/-- The record of a role: it puts its fields apart, and from a rearranged value as before. -/
structure Reads (role : Role) {σ α : Type} (r : Record σ α) : Prop where
  lawful : r.Lawful
  fields_eq : r.fields = role.names
  agree_put {i : Nat} {name : String} {part : Role} {n n' : Node} : r.fields[i]? = some name →
    part = role.entry name ∨ part = role.item i → Rearranged part n n' →
    ∀ s, Agree (r.put i n s) (r.put i n' s)

namespace Reads

variable {role : Role} {σ α : Type} {r : Record σ α} {n n' : Node}

theorem agree_ofEntries (hr : role.Reads r) (dialect : Dialect) {changes : List Change}
    {new : List (String × Json)} {arranged : List (String × Node)}
    (hchanges : ∀ c ∈ changes, Rearranged (role.entry c.key) c.before c.after)
    (hnew : ∀ e ∈ new, role.Admits (changes.map Change.old) e.1)
    (harranged : arranged.Perm (changes.map Change.new ++ new.map Node.valued)) :
    Agree (r.ofEntries dialect ((changes.map Change.old).map Node.keyed) none)
      (r.ofEntries dialect (arranged.map Node.keyed) none) := by
  refine hr.lawful.agree_ofEntries (fun c hc => (hchanges c hc).agree_skip) ?_ ?_ harranged
  · intro c hc i s hkey
    exact hr.agree_put (Key.field_of_named hkey) (.inl rfl) (hchanges c hc) s
  · intro e he
    rw [hr.fields_eq]
    exact notMem_of_admits (hnew e he)

theorem agree_ofItems (hr : role.Reads r) (dialect : Dialect) {items : List (Node × Node)}
    (hitems : ∀ i item, items[i]? = some item → Rearranged (role.item i) item.1 item.2) :
    Agree (r.ofItems dialect (items.map Prod.fst) none)
      (r.ofItems dialect (items.map Prod.snd) none) := by
  refine Record.agree_ofItems fun i item hitem hi s => ?_
  exact hr.agree_put (List.getElem?_eq_getElem hi) (.inr rfl) (hitems i item hitem) s

theorem agree_read (hr : role.Reads r) (dialect : Dialect) (h : Rearranged role n n') :
    Agree (r.read dialect n) (r.read dialect n') := by
  cases h with
  | same => exact .refl _
  | sequence hitems =>
    have hagree := hr.agree_ofItems dialect hitems
    cases dialect with
    | streamed => exact hagree.locate none none
    | buffered => exact hagree.locate none none
    | onDemand =>
      have hsequence (items : List Node) (a : α) :
          r.readOnDemand (.sequence items none none) ≠ .ok a := by
        simp [Record.readOnDemand, Node.bare, Node.isVacant]
      exact (Agree.failing (hsequence _) (hsequence _)).locate none none
  | object hchanges hnew harranged =>
    have hagree := hr.agree_ofEntries dialect hchanges hnew harranged
    cases dialect with
    | streamed => exact hagree.locate none none
    | buffered => exact hagree.locate none none
    | onDemand => exact hagree.locate none none

end Reads
end Role

namespace Coordinate

theorem lawful_rawRecord : rawRecord.Lawful := .of_single rfl fun _ _ => rfl

theorem reads_rawRecord : Role.coordinate.Reads rawRecord where
  lawful := lawful_rawRecord
  fields_eq := rfl
  agree_put {i name part n n'} hi _ h s := by
    have hlt : i < 1 := (List.getElem?_eq_some_iff.1 hi).1
    interval_cases i
    exact h.agree_text.map some

theorem ofBuffered_object_eq_ok {entries : List (String × Node)} {c : Coordinate} :
    untagged.ofBuffered (.object entries) = .ok c ↔
      rawRecord.ofEntries .buffered (entries.map Node.keyed) none = .ok c :=
  untagged.ofBuffered_mapping_eq_ok

theorem agree_ofNode {n n' : Node} (h : Rearranged .coordinate n n') :
    Agree (ofNode n) (ofNode n') := by
  refine h.agree_buffer fun h => ?_
  cases h with
  | same => exact .refl _
  | sequence _ => exact .failing untagged.ofBuffered_sequence_ne untagged.ofBuffered_sequence_ne
  | object hchanges hnew harranged =>
    intro c
    rw [ofBuffered_object_eq_ok, ofBuffered_object_eq_ok]
    exact reads_rawRecord.agree_ofEntries .buffered hchanges hnew harranged c

end Coordinate

namespace Subset

theorem lawful_record : record.Lawful where
  get_set := by simp [record]
  apart := by simp [record, Record.apart_iff]

theorem reads_record : Role.subset.Reads record where
  lawful := lawful_record
  fields_eq := rfl
  agree_put {i name part n n'} hi hpart h s := by
    have hlt : i < 3 := (List.getElem?_eq_some_iff.1 hi).1
    interval_cases i
    · exact h.agree_text.map _
    · obtain rfl : "start" = name := Option.some.inj hi
      obtain rfl : part = .coordinate := by
        rcases hpart with rfl | rfl <;> rfl
      exact (Coordinate.agree_ofNode h).map _
    · obtain rfl : "stop" = name := Option.some.inj hi
      obtain rfl : part = .coordinate := by
        rcases hpart with rfl | rfl <;> rfl
      exact (h.agree_optional (Coordinate.agree_ofNode h)).map _

end Subset

namespace Case

theorem lawful_record : record.Lawful where
  get_set := by simp [record]
  apart := by simp [record, Record.apart_iff]

theorem reads_record : Role.case.Reads record where
  lawful := lawful_record
  fields_eq := rfl
  agree_put {i name part n n'} hi _ h s := by
    have hlt : i < 3 := (List.getElem?_eq_some_iff.1 hi).1
    interval_cases i
    · exact h.agree_boolean.map _
    · exact h.agree_text.map _
    · exact h.agree_expression.map _

end Case

namespace Switch

theorem lawful_record (dialect : Dialect) : (record dialect).Lawful where
  get_set := by simp [record]
  apart := by simp [record, Record.apart_iff]

theorem reads_record (dialect : Dialect) : (Role.content .switch).Reads (record dialect) where
  lawful := lawful_record dialect
  fields_eq := rfl
  agree_put {i name part n n'} hi hpart h s := by
    have hlt : i < 2 := (List.getElem?_eq_some_iff.1 hi).1
    interval_cases i
    · obtain rfl : "cases" = name := Option.some.inj hi
      obtain rfl : part = .cases := by
        rcases hpart with rfl | rfl <;> rfl
      have hcase : ∀ i {m m'}, Rearranged (Role.item .cases i) m m' →
          Agree (Case.ofNode dialect m) (Case.ofNode dialect m') :=
        fun _ {_ _} hm => Case.reads_record.agree_read dialect hm
      exact (Rearranged.agree_list hcase h).map _
    · exact (h.agree_optional h.agree_expression).map _

end Switch

namespace Mode

theorem lawful_oneField {α : Type} (name field : String) (read : Node → Reading α)
    (make : α → Mode) : (oneField name field read make).Lawful := .of_single rfl fun _ _ => rfl

theorem reads_oneField {α : Type} {kind : Kind} {field : String} (hkind : kind.fields = [field])
    (hfield : Role.entry (.content kind) field = .other) (name : String) (choices : List (String × α))
    (make : α → Mode) :
    (Role.content kind).Reads (oneField name field (variant .buffered choices) make) where
  lawful := lawful_oneField name field _ make
  fields_eq := hkind.symm
  agree_put {i name part n n'} hi hpart h s := by
    have hlt : i < 1 := (List.getElem?_eq_some_iff.1 hi).1
    interval_cases i
    obtain rfl : field = name := Option.some.inj hi
    have hclosed : part = .cases ∨ part = .other := by
      rcases hpart with rfl | rfl
      · exact .inr hfield
      · exact .inl rfl
    exact (h.agree_variant hclosed).map some

theorem agree_ofContent {kind : Kind} {n n' : Node} (h : Rearranged (.content kind) n n') :
    Agree (ofContent kind n) (ofContent kind n') := by
  cases kind with
  | plain => exact .refl _
  | aggregate =>
    exact (reads_oneField rfl rfl "Aggregate" _ .aggregate).agree_read .buffered h
  | encode => exact (reads_oneField rfl rfl "Encode" _ .encode).agree_read .buffered h
  | «switch» => exact ((Switch.reads_record .buffered).agree_read .buffered h).map Mode.switch

end Mode
end CoverageQuery
