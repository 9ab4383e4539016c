import CoverageQuery.Proofs.Command.Literals
import CoverageQuery.Proofs.Document.Entries
import CoverageQuery.Proofs.Json.Characters
import CoverageQuery.Proofs.Number.Whole

/-!
# JSON values as they are written

A term is a JSON value with its numbers as literals and with all its entries, names that are given
twice included. It can be written with blanks between its parts and with each character of a string
in any of its forms. However a term is written, it is read as one and the same tree. The tree can be
kept in a buffer if every number in the term is finite and its containers nest within the room given.
-/
namespace CoverageQuery.Json

open Document

inductive Term where
  | null
  | boolean (b : Bool)
  | number (n : DecimalText) (isLiteral : n.IsLiteral)
  | string (s : String)
  | array (items : List Term)
  | object (entries : List (String × Term))

def Blanks (cs : List Char) : Prop := ∀ c ∈ cs, isBlank c = true

namespace Term

mutual

/-- Whether a text is a term as it can be written, without blanks around it. -/
def Written : Term → List Char → Prop
  | null, cs => cs = "null".toList
  | boolean b, cs => cs = if b then "true".toList else "false".toList
  | number n _, cs => cs = n.text
  | string s, cs => ∃ inside, Characters inside s.toList ∧ cs = '"' :: (inside ++ ['"'])
  | array items, cs => ∃ inside, ItemsWritten true items inside ∧ cs = '[' :: inside
  | object entries, cs => ∃ inside, EntriesWritten true entries inside ∧ cs = '{' :: inside

def ItemsWritten : Bool → List Term → List Char → Prop
  | _, [], cs => ∃ blanks, Blanks blanks ∧ cs = blanks ++ [']']
  | first, v :: rest, cs => ∃ before blanks inside more, Blanks before ∧ Blanks blanks ∧
      Written v inside ∧ ItemsWritten false rest more ∧
      cs = before ++ (separator first ++ (blanks ++ (inside ++ more)))

def EntriesWritten : Bool → List (String × Term) → List Char → Prop
  | _, [], cs => ∃ blanks, Blanks blanks ∧ cs = blanks ++ ['}']
  | first, (name, v) :: rest, cs => ∃ before blanks key beforeColon afterColon inside more,
      Blanks before ∧ Blanks blanks ∧ Blanks beforeColon ∧ Blanks afterColon ∧
      Characters key name.toList ∧ Written v inside ∧ EntriesWritten false rest more ∧
      cs = before ++ (separator first ++ (blanks ++
        '"' :: (key ++ '"' :: (beforeColon ++ ':' :: (afterColon ++ (inside ++ more))))))

end

/-- A text that holds a term and, around it, blanks. -/
def IsDocument (v : Term) (text : String) : Prop :=
  ∃ before inside after, Blanks before ∧ Blanks after ∧ v.Written inside ∧
    text.toList = before ++ (inside ++ after)

mutual

def Each (p : DecimalText → Prop) : Term → Prop
  | number n _ => p n
  | array items => EachItem p items
  | object entries => EachEntry p entries
  | _ => True

def EachItem (p : DecimalText → Prop) : List Term → Prop
  | [] => True
  | v :: rest => Each p v ∧ EachItem p rest

def EachEntry (p : DecimalText → Prop) : List (String × Term) → Prop
  | [] => True
  | (_, v) :: rest => Each p v ∧ EachEntry p rest

end

def Finite (v : Term) : Prop := v.Each fun n => n.value.isFinite = true

/-- Every number in a term is read as the number nearest to it. The reader rounds more than once, so this
is no matter of course. -/
def Rounded (v : Term) : Prop := v.Each fun n => n.numeral.float = n.value

mutual

def depth : Term → Nat
  | array items => itemsDepth items + 1
  | object entries => entriesDepth entries + 1
  | _ => 0

def itemsDepth : List Term → Nat
  | [] => 0
  | v :: rest => max (depth v) (itemsDepth rest)

def entriesDepth : List (String × Term) → Nat
  | [] => 0
  | (_, v) :: rest => max (depth v) (entriesDepth rest)

end

mutual

def node : Nat → Term → Node
  | _, null => .scalar .null none none
  | _, boolean b => .scalar (.boolean b) none none
  | _, number n _ =>
    match n.numeral.scalar? with
    | some v => .scalar v none none
    | none => .unreadable (malformed "number out of range") true
  | _, string s => .scalar (.text s) none none
  | room, array items => entered room (.sequence (itemNodes (room - 1) items) none none)
  | room, object entries => entered room (.object (entryNodes (room - 1) entries))

def itemNodes : Nat → List Term → List Node
  | _, [] => []
  | room, v :: rest => node room v :: itemNodes room rest

def entryNodes : Nat → List (String × Term) → List (String × Node)
  | _, [] => []
  | room, (name, v) :: rest => (name, node room v) :: entryNodes room rest

end

def Fits (room : Nat) (v : Term) : Prop := v.Finite ∧ v.depth < room

/-! ## Reading -/

theorem written_opens {v : Term} {cs : List Char} (h : v.Written cs) :
    ∃ c rest, cs = c :: rest ∧ Opens c := by
  cases v with
  | null =>
    rw [Written] at h
    exact ⟨'n', _, by rw [h]; simp; rfl, .inr (by decide)⟩
  | boolean b =>
    rw [Written] at h
    cases b with
    | true => exact ⟨'t', _, by rw [h]; simp; rfl, .inr (by decide)⟩
    | false => exact ⟨'f', _, by rw [h]; simp; rfl, .inr (by decide)⟩
  | number n isLiteral =>
    rw [Written] at h
    obtain ⟨c, rest, htext, hc⟩ := isLiteral.text_opens []
    rw [List.append_nil] at htext
    exact ⟨c, rest, h.trans htext, opens_of_number hc⟩
  | string s =>
    rw [Written] at h
    obtain ⟨inside, _, rfl⟩ := h
    exact ⟨'"', _, rfl, .inr (by decide)⟩
  | array items =>
    rw [Written] at h
    obtain ⟨inside, _, rfl⟩ := h
    exact ⟨'[', _, rfl, .inr (by decide)⟩
  | object entries =>
    rw [Written] at h
    obtain ⟨inside, _, rfl⟩ := h
    exact ⟨'{', _, rfl, .inr (by decide)⟩

theorem ends_blanks {blanks : List Char} (h : Blanks blanks) {rest : List Char}
    (hrest : Ends rest) : Ends (blanks ++ rest) := by
  cases blanks with
  | nil => exact hrest
  | cons c blanks =>
    intro d hd
    obtain rfl := Option.some.inj hd
    have hblank := h c List.mem_cons_self
    simp only [isBlank, decide_eq_true_eq] at hblank
    rcases hblank with rfl | rfl | rfl | rfl <;> decide

theorem ends_items {items : List Term} {cs : List Char} (h : ItemsWritten false items cs)
    (rest : List Char) : Ends (cs ++ rest) := by
  cases items with
  | nil =>
    rw [ItemsWritten] at h
    obtain ⟨blanks, hblanks, rfl⟩ := h
    rw [List.append_assoc]
    exact ends_blanks hblanks (ends_cons (by decide) _)
  | cons v items =>
    rw [ItemsWritten] at h
    obtain ⟨before, _, _, _, hbefore, _, _, _, rfl⟩ := h
    rw [List.append_assoc]
    exact ends_blanks hbefore (ends_cons (by decide) _)

theorem ends_entries {entries : List (String × Term)} {cs : List Char}
    (h : EntriesWritten false entries cs) (rest : List Char) : Ends (cs ++ rest) := by
  cases entries with
  | nil =>
    rw [EntriesWritten] at h
    obtain ⟨blanks, hblanks, rfl⟩ := h
    rw [List.append_assoc]
    exact ends_blanks hblanks (ends_cons (by decide) _)
  | cons e entries =>
    rw [EntriesWritten] at h
    obtain ⟨before, _, _, _, _, _, _, hbefore, _, _, _, _, _, _, rfl⟩ := h
    rw [List.append_assoc]
    exact ends_blanks hbefore (ends_cons (by decide) _)

theorem readValue_literal {n : DecimalText} (h : n.IsLiteral) (fuel room : Nat)
    {rest : List Char} (hrest : Ends rest) :
    readValue (fuel + 1) room (n.text ++ rest) = (node room (.number n h), some rest) := by
  rw [h.readValue_eq_readNumber, readNumber, h.readNumeral hrest, node]
  dsimp only
  cases n.numeral.scalar? <;> rfl

mutual

/-- A term is read from its text, however it is written, and whatever follows that a number cannot
go on with. -/
theorem readValue_written : ∀ (v : Term) (fuel room : Nat) {cs rest : List Char}, v.Written cs →
    2 * cs.length ≤ fuel → Ends rest → readValue fuel room (cs ++ rest) = (v.node room, some rest)
  | v, 0, room, cs, rest, hcs, hfuel, _ => by
    obtain ⟨c, cs, rfl, _⟩ := written_opens hcs
    rw [List.length_cons] at hfuel
    omega
  | null, fuel + 1, room, cs, rest, hcs, _, _ => by
    rw [Written] at hcs
    rw [hcs, node, readValue_null]
  | boolean b, fuel + 1, room, cs, rest, hcs, _, _ => by
    rw [Written] at hcs
    rw [hcs, node, readValue_boolean]
  | number n isLiteral, fuel + 1, room, cs, rest, hcs, _, hrest => by
    rw [Written] at hcs
    rw [hcs, readValue_literal isLiteral fuel room hrest]
  | string s, fuel + 1, room, cs, rest, hcs, _, _ => by
    rw [Written] at hcs
    obtain ⟨inside, hinside, rfl⟩ := hcs
    rw [List.cons_append, List.append_assoc, node, readValue_quote]
    exact hinside.readString rest
  | array items, fuel + 1, room, cs, rest, hcs, hfuel, _ => by
    rw [Written] at hcs
    obtain ⟨inside, hinside, rfl⟩ := hcs
    rw [List.length_cons] at hfuel
    rw [node, List.cons_append]
    exact readValue_items (readItems_written items fuel (room - 1) true rest hinside (by omega))
  | object entries, fuel + 1, room, cs, rest, hcs, hfuel, _ => by
    rw [Written] at hcs
    obtain ⟨inside, hinside, rfl⟩ := hcs
    rw [List.length_cons] at hfuel
    rw [node, List.cons_append]
    exact readValue_entries
      (readEntries_written entries fuel (room - 1) true rest hinside (by omega))

theorem readItems_written : ∀ (items : List Term) (fuel room : Nat) (first : Bool)
    {cs : List Char} (rest : List Char), ItemsWritten first items cs → 2 * cs.length + 1 ≤ fuel →
    readItems fuel room first (cs ++ rest) = (itemNodes room items, none, some rest)
  | _, 0, _, _, _, _, _, hfuel => by omega
  | [], fuel + 1, room, first, cs, rest, hcs, _ => by
    rw [ItemsWritten] at hcs
    obtain ⟨blanks, hblanks, rfl⟩ := hcs
    rw [List.append_assoc, readItems_blanks hblanks]
    exact readItems_close fuel room first rest
  | v :: items, fuel + 1, room, first, cs, rest, hcs, hfuel => by
    rw [ItemsWritten] at hcs
    obtain ⟨before, blanks, inside, more, hbefore, hblanks, hinside, hmore, rfl⟩ := hcs
    simp only [List.length_append] at hfuel
    have hopens := written_opens hinside
    have hpos : 0 < inside.length := by
      obtain ⟨c, cs, rfl, _⟩ := hopens
      simp
    have hv := readValue_written v fuel room hinside (by omega) (ends_items hmore rest)
    have hitems := readItems_written items fuel room false rest hmore (by omega)
    have hall := readItems_next hopens hv hitems first hblanks
    rw [itemNodes, List.append_assoc, readItems_blanks hbefore, ← hall]
    simp only [List.append_assoc]

theorem readEntries_written : ∀ (entries : List (String × Term)) (fuel room : Nat) (first : Bool)
    {cs : List Char} (rest : List Char), EntriesWritten first entries cs → 2 * cs.length + 1 ≤ fuel →
    readEntries fuel room first (cs ++ rest)
      = ((entryNodes room entries).map Node.keyed, none, some rest)
  | _, 0, _, _, _, _, _, hfuel => by omega
  | [], fuel + 1, room, first, cs, rest, hcs, _ => by
    rw [EntriesWritten] at hcs
    obtain ⟨blanks, hblanks, rfl⟩ := hcs
    rw [List.append_assoc, readEntries_blanks hblanks]
    exact readEntries_close fuel room first rest
  | (name, v) :: entries, fuel + 1, room, first, cs, rest, hcs, hfuel => by
    rw [EntriesWritten] at hcs
    obtain ⟨before, blanks, key, beforeColon, afterColon, inside, more, hbefore, hblanks,
      hbeforeColon, hafterColon, hkey, hinside, hmore, rfl⟩ := hcs
    simp only [List.length_append, List.length_cons] at hfuel
    have hv := readValue_written v fuel room hinside (by omega) (ends_entries hmore rest)
    have hentries := readEntries_written entries fuel room false rest hmore (by omega)
    have hall := readEntries_next hkey.readString hv hentries first hblanks hbeforeColon
      hafterColon
    rw [entryNodes, List.map_cons, List.append_assoc, readEntries_blanks hbefore, Node.keyed,
      ← hall]
    simp only [List.append_assoc, List.cons_append]

end

theorem document_of_isDocument {v : Term} {text : String} (h : v.IsDocument text) :
    document text = ⟨v.node room, none⟩ := by
  obtain ⟨before, inside, after, hbefore, hafter, hinside, htext⟩ := h
  have hread := readValue_written v (2 * text.toList.length + 2) room hinside
    (by rw [htext]; simp only [List.length_append]; omega)
    (List.append_nil after ▸ ends_blanks hafter ends_nil)
  have hrest : skipBlanks after = [] := List.dropWhile_eq_nil_iff.2 hafter
  simp only [document]
  rw [htext] at hread ⊢
  simp only [readValue_blanks hbefore, hread, hrest, List.isEmpty_nil, if_true]

theorem decode_of_isDocument {v : Term} {text : String} (h : v.IsDocument text) {α : Type}
    (read : Node → Reading α) : decode read text = read (v.node Json.room) :=
  decode_of_document (document_of_isDocument h) read

end Term

/-! ## Buffering -/

namespace Numeral

theorem isFinite_of_integer? {m : Numeral} {k : Int} (h : m.integer? = some k) :
    m.float.isFinite = true := by
  unfold integer? at h
  split at h
  · contradiction
  · rename_i hplain
    obtain ⟨negative, whole, fraction, exponent⟩ := m
    obtain ⟨rfl, rfl⟩ : fraction = none ∧ exponent = none := by simpa using hplain
    have hlt : Digits.read whole < 2 ^ 64 := by
      dsimp only at h
      simp only [Nat.pow_eq] at h
      split at h <;> split at h
      all_goals first | contradiction | omega
    rw [float_of_whole rfl rfl hlt]
    simpa [nearest, digits, scale] using Binary64.isFinite_ofDecimal hlt negative

theorem isSome_scalar? (m : Numeral) : m.scalar?.isSome = m.float.isFinite := by
  unfold scalar?
  split
  · rename_i k hk
    rw [isFinite_of_integer? hk]
    rfl
  · cases m.float.isFinite <;> rfl

theorem scalar?_cases {m : Numeral} {v : Scalar} (h : m.scalar? = some v) :
    (∃ k, v = .integer k) ∨ ∃ x, v = .float x := by
  unfold scalar? at h
  split at h
  · exact .inl ⟨_, (Option.some.inj h).symm⟩
  · obtain ⟨_, hv⟩ := Option.ite_none_right_eq_some.1 h
    exact .inr ⟨_, (Option.some.inj hv).symm⟩

theorem buffer_of_scalar? {m : Numeral} {v : Scalar} (h : m.scalar? = some v) :
    (Node.scalar v none none).buffer = .ok (.scalar v none none) := by
  rcases scalar?_cases h with ⟨k, rfl⟩ | ⟨x, rfl⟩ <;> rfl

end Numeral

theorem bufferable_entered {room : Nat} {n : Node} :
    (entered room n).Bufferable ↔ 2 ≤ room ∧ n.Bufferable := by
  unfold entered
  split
  · rename_i hroom
    exact (and_iff_right hroom).symm
  · rename_i hroom
    exact ⟨fun ⟨_, h⟩ => absurd h (by simp [Node.buffer]), fun h => absurd h.1 hroom⟩

theorem buffered_entered {n : Node} (h : n.buffered = n) (room : Nat) :
    (entered room n).buffered = entered room n := by
  unfold entered
  split
  · exact h
  · rfl

theorem skip_entered {n : Node} (h : n.skip = .ok ()) (room : Nat) :
    (entered room n).skip = .ok () := by
  unfold entered
  split
  · exact h
  · rfl

namespace Term

abbrev InRange (n : DecimalText) : Prop := n.numeral.float.isFinite = true

mutual

theorem bufferable_node : ∀ (v : Term) {room : Nat}, 0 < room →
    ((v.node room).Bufferable ↔ v.Each InRange ∧ v.depth < room)
  | null, room, hroom | boolean _, room, hroom | string _, room, hroom => by
    rw [node]
    exact iff_of_true ⟨_, rfl⟩ ⟨trivial, hroom⟩
  | number n isLiteral, room, hroom => by
    have hsome := n.numeral.isSome_scalar?
    have hrange : (number n isLiteral).Each InRange ∧ (number n isLiteral).depth < room ↔
      n.numeral.float.isFinite = true := and_iff_left hroom
    rw [hrange, ← hsome, node]
    cases hv : n.numeral.scalar? with
    | some v => exact iff_of_true ⟨_, Numeral.buffer_of_scalar? hv⟩ rfl
    | none => exact iff_of_false (fun ⟨_, h⟩ => absurd h (by simp [Node.buffer])) (by simp)
  | array items, room, _ => by
    rw [node, bufferable_entered, Node.bufferable_sequence, Each, depth]
    by_cases hroom : 2 ≤ room
    · rw [and_iff_right hroom, bufferable_itemNodes items (by omega)]
      exact and_congr_right fun _ => by omega
    · exact iff_of_false (fun h => hroom h.1) (by omega)
  | object entries, room, _ => by
    rw [node, bufferable_entered, Node.bufferable_object, Each, depth]
    by_cases hroom : 2 ≤ room
    · rw [and_iff_right hroom, bufferable_entryNodes entries (by omega)]
      exact and_congr_right fun _ => by omega
    · exact iff_of_false (fun h => hroom h.1) (by omega)

theorem bufferable_itemNodes : ∀ (items : List Term) {room : Nat}, 0 < room →
    ((∀ n ∈ itemNodes room items, n.Bufferable) ↔
      EachItem InRange items ∧ itemsDepth items < room)
  | [], room, hroom => iff_of_true (List.forall_mem_nil _) ⟨trivial, hroom⟩
  | v :: items, room, hroom => by
    rw [itemNodes, List.forall_mem_cons, bufferable_node v hroom,
      bufferable_itemNodes items hroom, EachItem, itemsDepth, max_lt_iff]
    exact and_and_and_comm

theorem bufferable_entryNodes : ∀ (entries : List (String × Term)) {room : Nat}, 0 < room →
    ((∀ e ∈ entryNodes room entries, e.2.Bufferable) ↔
      EachEntry InRange entries ∧ entriesDepth entries < room)
  | [], room, hroom => iff_of_true (List.forall_mem_nil _) ⟨trivial, hroom⟩
  | (name, v) :: entries, room, hroom => by
    rw [entryNodes, List.forall_mem_cons, bufferable_node v hroom,
      bufferable_entryNodes entries hroom, EachEntry, entriesDepth, max_lt_iff]
    exact and_and_and_comm

end

mutual

theorem each_congr {p q r : DecimalText → Prop} (hpq : ∀ n, r n → (p n ↔ q n)) : ∀ {v : Term},
    v.Each r → (v.Each p ↔ v.Each q)
  | null, _ | boolean _, _ | string _, _ => by simp only [Each]
  | number n _, h => by
    simp only [Each] at h ⊢
    exact hpq n h
  | array items, h => by
    simp only [Each] at h ⊢
    exact eachItem_congr hpq h
  | object entries, h => by
    simp only [Each] at h ⊢
    exact eachEntry_congr hpq h

theorem eachItem_congr {p q r : DecimalText → Prop} (hpq : ∀ n, r n → (p n ↔ q n)) :
    ∀ {items : List Term}, EachItem r items → (EachItem p items ↔ EachItem q items)
  | [], _ => by simp only [EachItem]
  | v :: items, h => by
    simp only [EachItem] at h ⊢
    exact and_congr (each_congr hpq h.1) (eachItem_congr hpq h.2)

theorem eachEntry_congr {p q r : DecimalText → Prop} (hpq : ∀ n, r n → (p n ↔ q n)) :
    ∀ {entries : List (String × Term)}, EachEntry r entries →
      (EachEntry p entries ↔ EachEntry q entries)
  | [], _ => by simp only [EachEntry]
  | (name, v) :: entries, h => by
    simp only [EachEntry] at h ⊢
    exact and_congr (each_congr hpq h.1) (eachEntry_congr hpq h.2)

end

/-- Where the reader rounds to the nearest number, a term is kept exactly if the values of its numbers
are finite. -/
theorem bufferable_node_iff {v : Term} (hround : v.Rounded) {room : Nat} (hroom : 0 < room) :
    (v.node room).Bufferable ↔ v.Fits room := by
  have hrange : v.Each InRange ↔ v.Finite :=
    each_congr (fun n (hn : n.numeral.float = n.value) => by rw [InRange, hn]) hround
  rw [bufferable_node v hroom, hrange, Fits]

mutual

theorem buffered_node : ∀ (v : Term) (room : Nat), (v.node room).buffered = v.node room
  | null, room | boolean _, room | string _, room => by
    rw [node]
    rfl
  | number n _, room => by
    rw [node]
    cases hv : n.numeral.scalar? with
    | some v => exact Node.buffered_of_eq (Numeral.buffer_of_scalar? hv)
    | none => rfl
  | array items, room => by
    rw [node]
    exact buffered_entered (Node.buffered_sequence (buffered_itemNodes items (room - 1))) room
  | object entries, room => by
    rw [node]
    exact buffered_entered (Node.buffered_object (buffered_entryNodes entries (room - 1))) room

theorem buffered_itemNodes : ∀ (items : List Term) (room : Nat),
    (itemNodes room items).map Node.buffered = itemNodes room items
  | [], _ => rfl
  | v :: items, room => by
    rw [itemNodes, List.map_cons, buffered_node v, buffered_itemNodes items]

theorem buffered_entryNodes : ∀ (entries : List (String × Term)) (room : Nat),
    (entryNodes room entries).map Node.bufferedEntry = entryNodes room entries
  | [], _ => rfl
  | (name, v) :: entries, room => by
    rw [entryNodes, List.map_cons, Node.bufferedEntry, buffered_node v,
      buffered_entryNodes entries]

end

theorem buffer_node_bind_eq_ok {v : Term} (hround : v.Rounded) {room : Nat} (hroom : 0 < room)
    {α : Type} {read : Node → Reading α} {a : α} :
    (v.node room).buffer >>= read = .ok a ↔ v.Fits room ∧ read (v.node room) = .ok a := by
  rw [Node.buffer_bind_eq_ok, bufferable_node_iff hround hroom, buffered_node]

mutual

theorem skip_node : ∀ (v : Term) (room : Nat), (v.node room).skip = .ok ()
  | null, room | boolean _, room | string _, room => by
    rw [node]
    rfl
  | number n _, room => by
    rw [node]
    cases n.numeral.scalar? <;> rfl
  | array items, room => by
    rw [node]
    exact skip_entered (Node.skip_sequence.2 (skip_itemNodes items (room - 1))) room
  | object entries, room => by
    rw [node]
    exact skip_entered (Node.skip_object.2 (skip_entryNodes entries (room - 1))) room

theorem skip_itemNodes : ∀ (items : List Term) (room : Nat),
    ∀ n ∈ itemNodes room items, n.skip = .ok ()
  | [], _ => List.forall_mem_nil _
  | v :: items, room => List.forall_mem_cons.2 ⟨skip_node v room, skip_itemNodes items room⟩

theorem skip_entryNodes : ∀ (entries : List (String × Term)) (room : Nat),
    ∀ e ∈ entryNodes room entries, e.2.skip = .ok ()
  | [], _ => List.forall_mem_nil _
  | (_, v) :: entries, room =>
    List.forall_mem_cons.2 ⟨skip_node v room, skip_entryNodes entries room⟩

end

end Term
end CoverageQuery.Json
