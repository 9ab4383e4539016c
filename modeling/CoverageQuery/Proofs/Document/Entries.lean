import CoverageQuery.Proofs.Document.Object

/-!
# What skipping and buffering see of a tree

A sequence or a mapping with texts as keys can be skipped when all that is in it can be, and it can be
buffered when all that is in it can be; the buffer then holds the same parts, each as it is buffered.
Neither depends on the order of the parts. A JSON value can always be skipped and buffered.
-/
namespace CoverageQuery

open Document

namespace Json

mutual

theorem skip_toNode : ∀ v : Json, v.toNode.skip = .ok ()
  | null | boolean _ | integer _ | float _ | string _ => rfl
  | array items => by
    simp only [toNode, Node.skip, skip_itemNodes items, Node.finished, bind, Except.bind]
  | object entries => by
    simp only [toNode, Node.skip, skip_entryNodes entries, Node.finished, bind, Except.bind]

theorem skip_itemNodes : ∀ items : List Json, Node.skipItems (itemNodes items) = .ok ()
  | [] => rfl
  | v :: rest => by
    simp only [itemNodes, Node.skipItems, skip_toNode v, skip_itemNodes rest, bind, Except.bind]

theorem skip_entryNodes : ∀ entries : List (String × Json),
    Node.skipEntries (entryNodes entries) = .ok ()
  | [] => rfl
  | (k, v) :: rest => by
    simp only [entryNodes, Node.skipEntries, Node.skip, skip_toNode v, skip_entryNodes rest, bind,
      Except.bind]

end

end Json

namespace Document.Node

def keyed (entry : String × Node) : Node × Node := (.scalar (.text entry.1) none none, entry.2)

def object (entries : List (String × Node)) : Node := .mapping (entries.map keyed) none none

def valued (entry : String × Json) : String × Node := (entry.1, entry.2.toNode)

theorem skip_sequence {items : List Node} :
    (sequence items none none).skip = .ok () ↔ ∀ n ∈ items, n.skip = .ok () := by
  have hitems : skipItems items = .ok () ↔ ∀ n ∈ items, n.skip = .ok () := by
    induction items with
    | nil => simp [skipItems]
    | cons n items ih => rw [skipItems, Outcome.first_eq_ok, ih, List.forall_mem_cons]
  rw [skip, Outcome.first_eq_ok, hitems]
  exact and_iff_left rfl

theorem skip_object {entries : List (String × Node)} :
    (object entries).skip = .ok () ↔ ∀ e ∈ entries, e.2.skip = .ok () := by
  have hentries : skipEntries (entries.map keyed) = .ok () ↔ ∀ e ∈ entries, e.2.skip = .ok () := by
    induction entries with
    | nil => simp [skipEntries]
    | cons e entries ih =>
      rw [List.map_cons, keyed, skipEntries, Outcome.first_eq_ok, Outcome.first_eq_ok, ih,
        List.forall_mem_cons]
      exact and_iff_right rfl
  rw [object, skip, Outcome.first_eq_ok, hentries]
  exact and_iff_left rfl

def Bufferable (n : Node) : Prop := ∃ m, n.buffer = .ok m

def buffered (n : Node) : Node := n.buffer.toOption.getD n

def bufferedEntry (entry : String × Node) : String × Node := (entry.1, entry.2.buffered)

theorem buffer_eq_ok {n m : Node} : n.buffer = .ok m ↔ n.Bufferable ∧ n.buffered = m := by
  unfold Bufferable buffered
  cases n.buffer with
  | error e => simp
  | ok k => simp [Except.toOption]

theorem buffered_of_eq {n m : Node} (h : n.buffer = .ok m) : n.buffered = m := (buffer_eq_ok.1 h).2

theorem buffer_bind_eq_ok {α : Type} {read : Node → Reading α} {n : Node} {a : α} :
    n.buffer >>= read = .ok a ↔ n.Bufferable ∧ read n.buffered = .ok a := by
  simp only [Outcome.bind_eq_ok, buffer_eq_ok, and_assoc, exists_and_left, exists_eq_left']

theorem bufferItems_eq_ok {items out : List Node} :
    bufferItems items = .ok out ↔ (∀ n ∈ items, n.Bufferable) ∧ items.map buffered = out := by
  induction items generalizing out with
  | nil => simp [bufferItems]
  | cons n items ih =>
    simp only [bufferItems, Outcome.bind_eq_ok, buffer_eq_ok, ih, List.forall_mem_cons,
      List.map_cons]
    constructor
    · rintro ⟨_, ⟨hn, rfl⟩, _, ⟨hrest, rfl⟩, h⟩
      exact ⟨⟨hn, hrest⟩, Except.ok.inj h⟩
    · rintro ⟨⟨hn, hrest⟩, rfl⟩
      exact ⟨_, ⟨hn, rfl⟩, _, ⟨hrest, rfl⟩, rfl⟩

theorem bufferEntries_eq_ok {entries : List (String × Node)} {out : List (Node × Node)} :
    bufferEntries (entries.map keyed) = .ok out ↔
      (∀ e ∈ entries, e.2.Bufferable) ∧ (entries.map bufferedEntry).map keyed = out := by
  induction entries generalizing out with
  | nil => simp [bufferEntries]
  | cons e entries ih =>
    have hkey (k : String) :
        (scalar (.text k) none none).buffer = .ok (scalar (.text k) none none) := rfl
    simp only [List.map_cons, keyed, bufferEntries, hkey, Outcome.bind_eq_ok, buffer_eq_ok, ih,
      List.forall_mem_cons]
    constructor
    · rintro ⟨_, hk, _, ⟨hv, rfl⟩, _, ⟨hrest, rfl⟩, h⟩
      obtain rfl := Except.ok.inj hk
      exact ⟨⟨hv, hrest⟩, Except.ok.inj h⟩
    · rintro ⟨⟨hv, hrest⟩, rfl⟩
      exact ⟨_, rfl, _, ⟨hv, rfl⟩, _, ⟨hrest, rfl⟩, rfl⟩

theorem buffer_sequence_eq_ok {items : List Node} {m : Node} :
    (sequence items none none).buffer = .ok m ↔
      (∀ n ∈ items, n.Bufferable) ∧ sequence (items.map buffered) none none = m := by
  simp only [buffer, Outcome.bind_eq_ok, bufferItems_eq_ok]
  constructor
  · rintro ⟨_, ⟨hitems, rfl⟩, _, _, h⟩
    exact ⟨hitems, Except.ok.inj h⟩
  · rintro ⟨hitems, rfl⟩
    exact ⟨_, ⟨hitems, rfl⟩, (), rfl, rfl⟩

theorem bufferable_sequence {items : List Node} :
    (sequence items none none).Bufferable ↔ ∀ n ∈ items, n.Bufferable := by
  simp only [Bufferable, buffer_sequence_eq_ok, exists_and_left, exists_eq', and_true]

theorem buffer_object_eq_ok {entries : List (String × Node)} {m : Node} :
    (object entries).buffer = .ok m ↔
      (∀ e ∈ entries, e.2.Bufferable) ∧ object (entries.map bufferedEntry) = m := by
  simp only [object, buffer, Outcome.bind_eq_ok, bufferEntries_eq_ok]
  constructor
  · rintro ⟨_, ⟨hentries, rfl⟩, _, _, h⟩
    exact ⟨hentries, Except.ok.inj h⟩
  · rintro ⟨hentries, rfl⟩
    exact ⟨_, ⟨hentries, rfl⟩, (), rfl, rfl⟩

theorem bufferable_object {entries : List (String × Node)} :
    (object entries).Bufferable ↔ ∀ e ∈ entries, e.2.Bufferable := by
  simp only [Bufferable, buffer_object_eq_ok, exists_and_left, exists_eq', and_true]

theorem buffered_sequence {items : List Node} (h : items.map buffered = items) :
    (sequence items none none).buffered = sequence items none none := by
  cases hbuffer : (sequence items none none).buffer with
  | ok m => rw [buffered_of_eq hbuffer, ← (buffer_sequence_eq_ok.1 hbuffer).2, h]
  | error e => simp only [buffered, hbuffer, Except.toOption, Option.getD_none]

theorem buffered_object {entries : List (String × Node)} (h : entries.map bufferedEntry = entries) :
    (object entries).buffered = object entries := by
  cases hbuffer : (object entries).buffer with
  | ok m => rw [buffered_of_eq hbuffer, ← (buffer_object_eq_ok.1 hbuffer).2, h]
  | error e => simp only [buffered, hbuffer, Except.toOption, Option.getD_none]

theorem bufferable_toNode (v : Json) : v.toNode.Bufferable := ⟨_, v.buffer_toNode⟩

theorem buffered_toNode (v : Json) : v.toNode.buffered = v.toNode := buffered_of_eq v.buffer_toNode

end Document.Node
end CoverageQuery
