import CoverageQuery.Document.Record
import CoverageQuery.Json.Value
import CoverageQuery.Proofs.Outcome

/-!
# Reading values of the domain from JSON trees

The tree of a JSON value has its types already, so a buffer keeps it as it is. A list is read item
by item, an optional value is read when it is not null, and a record is read from an object entry by
entry: an entry whose key names a field that has not been met is the reading of that field.
-/
namespace CoverageQuery

namespace Json

open Document

mutual

theorem buffer_toNode : ∀ v : Json, v.toNode.buffer = .ok v.toNode
  | null | boolean _ | integer _ | string _ => rfl
  | float x => by
    rw [toNode]
    cases x <;> rfl
  | array items => by
    simp only [toNode, Node.buffer, buffer_itemNodes items, Node.finished, bind, Except.bind, pure,
      Except.pure]
  | object entries => by
    simp only [toNode, Node.buffer, buffer_entryNodes entries, Node.finished, bind, Except.bind,
      pure, Except.pure]

theorem buffer_itemNodes : ∀ items : List Json,
    Node.bufferItems (itemNodes items) = .ok (itemNodes items)
  | [] => rfl
  | v :: rest => by
    simp only [itemNodes, Node.bufferItems, buffer_toNode v, buffer_itemNodes rest, bind,
      Except.bind, pure, Except.pure]

theorem buffer_entryNodes : ∀ entries : List (String × Json),
    Node.bufferEntries (entryNodes entries) = .ok (entryNodes entries)
  | [] => rfl
  | (k, v) :: rest => by
    simp only [entryNodes, Node.bufferEntries, Node.buffer, buffer_toNode v,
      buffer_entryNodes rest, bind, Except.bind, pure, Except.pure]

end

theorem text_string (s : String) : (string s).toNode.text = .ok s := rfl

theorem itemNodes_eq_map (items : List Json) : itemNodes items = items.map toNode := by
  induction items with
  | nil => rfl
  | cons v items ih => rw [itemNodes, ih, List.map_cons]

theorem list_array_eq_ok {α : Type} {read : Node → Reading α} {items : List Json} {values : List α} :
    (array items).toNode.list read = .ok values ↔
      List.Forall₂ (fun v a => read v.toNode = .ok a) items values := by
  have hitems : (itemNodes items).mapM read = .ok values ↔
      List.Forall₂ (fun v a => read v.toNode = .ok a) items values := by
    rw [itemNodes_eq_map, Outcome.mapM_eq_ok, List.forall₂_map_left_iff]
  rw [← hitems]
  simp only [toNode, Node.list, Node.bare, Node.finished, locate_eq_ok]
  cases (itemNodes items).mapM read with
  | error e => exact Iff.rfl
  | ok values' => exact Iff.rfl

theorem list_array {α : Type} {read : Node → Reading α} {write : α → Json} {values : List α}
    (h : ∀ a ∈ values, read (write a).toNode = .ok a) :
    (array (values.map write)).toNode.list read = .ok values := by
  rw [list_array_eq_ok, List.forall₂_map_left_iff, List.forall₂_same]
  exact h

theorem optional_toNode {α : Type} {read : Node → Reading α} {n : Node} {a : α}
    (h : read n = .ok a) (hnull : n.isNull = false) : n.optional read = .ok (some a) := by
  simp only [Node.optional, hnull, Bool.false_eq_true, if_false, h, Except.map]

end Json

namespace Document

theorem Key.read_text (dialect : Dialect) (fields : List String) (k : String) :
    Key.read dialect fields (.scalar (.text k) none none) = .ok (Key.named fields k) := by
  cases dialect <;> rfl

theorem Key.named_single (field : String) : Key.named [field] field = .field 0 := by
  rw [named, List.idxOf_cons_self]
  rfl

namespace Record

variable {σ α : Type} {r : Record σ α} {dialect : Dialect} {s t : σ}

theorem putEntry_field {k : String} {i : Nat} {v : Json}
    (hk : Key.named r.fields k = .field i) (hs : r.has s i = false)
    (hput : r.put i v.toNode s = .ok t) :
    r.putEntry dialect s (.scalar (.text k) none none, v.toNode) = .ok t := by
  simp only [putEntry, Key.read_text, hk, hs, bind, Except.bind, Bool.false_eq_true, if_false, hput]

inductive Reads (r : Record σ α) (dialect : Dialect) : σ → List (String × Json) → σ → Prop where
  | done (s : σ) : Reads r dialect s [] s
  | field {s t u : σ} {k : String} {i : Nat} {v : Json} {entries : List (String × Json)} :
    Key.named r.fields k = .field i → r.has s i = false → r.put i v.toNode s = .ok t →
    Reads r dialect t entries u → Reads r dialect s ((k, v) :: entries) u

theorem foldlM_of_reads {entries : List (String × Json)} (h : Reads r dialect s entries t) :
    (Json.entryNodes entries).foldlM (r.putEntry dialect) s = .ok t := by
  induction h with
  | done s => rfl
  | field hk hs hput _ ih =>
    simp only [Json.entryNodes, List.foldlM_cons, putEntry_field hk hs hput, ih, bind, Except.bind]

theorem read_object {entries : List (String × Json)} {a : α}
    (h : Reads r dialect r.empty entries t) (hfinish : r.finish t = .ok a) :
    r.read dialect (Json.object entries).toNode = .ok a := by
  have hfold := foldlM_of_reads h
  have hentries : r.ofEntries dialect (Json.entryNodes entries) none = .ok a := by
    simp only [ofEntries, hfold, Node.finished, hfinish, bind, Except.bind, pure, Except.pure]
  cases dialect with
  | streamed => exact locate_eq_ok.2 hentries
  | onDemand => exact locate_eq_ok.2 hentries
  | buffered => exact locate_eq_ok.2 hentries

theorem put_of_foldlM {entries : List (String × Json)}
    (h : (Json.entryNodes entries).foldlM (r.putEntry dialect) s = .ok t) {k : String} {v : Json}
    (hmem : (k, v) ∈ entries) {i : Nat} (hk : Key.named r.fields k = .field i) :
    ∃ before after, r.put i v.toNode before = .ok after := by
  induction entries generalizing s with
  | nil => exact absurd hmem (by simp)
  | cons entry entries ih =>
    rw [Json.entryNodes, List.foldlM_cons] at h
    obtain ⟨next, hnext, hrest⟩ := Outcome.bind_eq_ok.1 h
    rcases List.mem_cons.1 hmem with rfl | hmem
    · simp only [putEntry, Key.read_text, hk, bind, Except.bind] at hnext
      split at hnext
      · exact absurd hnext (by simp [fail])
      · exact ⟨s, next, hnext⟩
    · exact ih hrest hmem

theorem put_of_read_object {entries : List (String × Json)} {a : α}
    (h : r.read dialect (Json.object entries).toNode = .ok a) {k : String} {v : Json}
    (hmem : (k, v) ∈ entries) {i : Nat} (hk : Key.named r.fields k = .field i) :
    ∃ before after, r.put i v.toNode before = .ok after := by
  have hentries : r.ofEntries dialect (Json.entryNodes entries) none = .ok a := by
    cases dialect with
    | streamed => exact locate_eq_ok.1 h
    | onDemand => exact locate_eq_ok.1 h
    | buffered => exact locate_eq_ok.1 h
  obtain ⟨t, hfold, _⟩ := Outcome.bind_eq_ok.1 hentries
  exact put_of_foldlM hfold hmem hk

end Record
end Document
end CoverageQuery
