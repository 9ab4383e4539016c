import CoverageQuery.Proofs.Json.Term
import CoverageQuery.Proofs.Stored.Records

/-!
# Which JSON values are coordinates and expressions

Nothing in a document says of which kind a coordinate or an expression is: the JSON value itself does.
A number is a number, a string is quoted text as a coordinate and raw text as an expression, and an
object with one entry `raw` that is a string is a raw coordinate, whatever its other entries are.
Nothing else is accepted, however the value is written and wherever it stands.
-/
namespace CoverageQuery

open Document

namespace DecimalText

def stored (n : DecimalText) : Quantity :=
  if n.text = ['-', '0'] then .float n.value else n.quantity

theorem stored_eq_integer_iff {n : DecimalText} {k : Int64} :
    n.stored = .integer k ↔ n.fraction = none ∧ n.exponent = none ∧ n.text ≠ ['-', '0'] ∧
      n.signed = k.toInt := by
  unfold stored
  split
  · rename_i hzero
    exact iff_of_false (by simp) fun h => h.2.2.1 hzero
  · rename_i hzero
    simp only [quantity_eq_integer_iff, ne_eq, hzero, not_false_eq_true, true_and]

theorem stored_eq_float_iff {n : DecimalText} {x : Binary64} :
    n.stored = .float x ↔ x = n.value ∧ ¬(n.fraction = none ∧ n.exponent = none ∧
      n.text ≠ ['-', '0'] ∧ -(2 ^ 63 : Int) ≤ n.signed ∧ n.signed < 2 ^ 63) := by
  unfold stored
  split
  · rename_i hzero
    have hnone : ¬(n.fraction = none ∧ n.exponent = none ∧ n.text ≠ ['-', '0'] ∧
        -(2 ^ 63 : Int) ≤ n.signed ∧ n.signed < 2 ^ 63) := fun h => h.2.2.1 hzero
    rw [and_iff_left hnone, Quantity.float.injEq, eq_comm]
  · rename_i hzero
    simp only [quantity_eq_float_iff, ne_eq, hzero, not_false_eq_true, true_and]

theorem IsLiteral.integer?_minusZero {n : DecimalText} (h : n.IsLiteral)
    (hzero : n.text = ['-', '0']) : n.numeral.integer? = none := by
  have hsign : n.sign = .minus := by
    cases hs : n.sign with
    | minus => rfl
    | plus => exact absurd hs h.sign_ne_plus
    | absent =>
      have hhead := h.head?_unsignedText []
      have htext : n.unsignedText = ['-', '0'] := by simpa [text, hs, Sign.text] using hzero
      rw [htext] at hhead
      exact absurd (hhead '-' rfl) (by decide)
  have htext : n.whole ++ (pointText n.fraction ++ exponentText n.exponent) = ['0'] := by
    simpa [text, unsignedText, hsign, Sign.text] using hzero
  have hwhole : n.whole = ['0'] := by
    rcases List.append_eq_singleton_iff.1 htext with h' | h'
    · exact absurd h'.1 h.whole_ne_nil
    · exact h'.1
  unfold Json.Numeral.integer?
  split
  · rfl
  · have hnegative : n.numeral.negative = true := by
      rw [numeral, Json.numeralOf, hsign]
      rfl
    have hdigits : Digits.read n.numeral.whole = 0 := by
      rw [numeral, Json.numeralOf, spelling, hwhole]
      rfl
    simp only [hnegative, hdigits, if_true, true_or]

theorem IsLiteral.exists_stored {n : DecimalText} (h : n.IsLiteral)
    (hround : n.numeral.float = n.value) (hfinite : n.value.isFinite = true) :
    ∃ v : Scalar, n.numeral.scalar? = some v ∧ v.quantity? = some n.stored := by
  by_cases hzero : n.text = ['-', '0']
  · refine ⟨.float n.value, ?_, ?_⟩
    · rw [Json.Numeral.scalar?, h.integer?_minusZero hzero, hround, if_pos hfinite]
    · rw [stored, if_pos hzero]
      rfl
  · rw [stored, if_neg hzero]
    exact h.exists_scalar hzero hfinite hround

end DecimalText

namespace Json.Term

def rawEntries (entries : List (String × Term)) : List (String × Term) :=
  entries.filter fun e => e.1 = "raw"

/-- Which coordinate a term is. -/
inductive IsCoordinate : Term → Coordinate → Prop
  | number (n : DecimalText) (h : n.IsLiteral) : IsCoordinate (.number n h) (.ofQuantity n.stored)
  | text (s : String) : IsCoordinate (.string s) (.text s)
  | raw {entries : List (String × Term)} {s : String}
      (h : rawEntries entries = [("raw", .string s)]) : IsCoordinate (.object entries) (.raw s)

/-- Which expression a term is. -/
inductive IsExpression : Term → Expression → Prop
  | number (n : DecimalText) (h : n.IsLiteral) : IsExpression (.number n h) (.ofQuantity n.stored)
  | raw (s : String) : IsExpression (.string s) (.raw s)

theorem node_number {n : DecimalText} {h : n.IsLiteral} {room : Nat}
    (hround : (number n h).Rounded) (hfits : (number n h).Fits room) :
    ∃ v : Scalar, node room (.number n h) = .scalar v none none ∧ v.quantity? = some n.stored := by
  obtain ⟨v, hv, hquantity⟩ := h.exists_stored hround hfits.1
  exact ⟨v, by rw [node, hv], hquantity⟩

theorem node_array {items : List Term} {room : Nat} (hfits : (array items).Fits room) :
    node room (.array items) = .sequence (itemNodes (room - 1) items) none none := by
  have hdepth : itemsDepth items + 1 < room := hfits.2
  rw [node, entered, if_pos (by omega)]

theorem node_object {entries : List (String × Term)} {room : Nat}
    (hfits : (object entries).Fits room) :
    node room (.object entries) = .object (entryNodes (room - 1) entries) := by
  have hdepth : entriesDepth entries + 1 < room := hfits.2
  rw [node, entered, if_pos (by omega)]

theorem text_node_eq_ok {v : Term} {room : Nat} {s : String} :
    (v.node room).text = .ok s ↔ v = .string s := by
  cases v with
  | string t =>
    have htext : (node room (.string t)).text = .ok t := by
      rw [node]
      rfl
    rw [htext, Except.ok.injEq, Term.string.injEq]
  | number n isLiteral =>
    refine iff_of_false ?_ (by simp)
    rw [node]
    cases hv : n.numeral.scalar? with
    | none => simp [Node.text, Node.bare, Node.mismatch, locate]
    | some v =>
      rcases Numeral.scalar?_cases hv with ⟨k, rfl⟩ | ⟨x, rfl⟩ <;>
        simp [Node.text, Node.bare, locate]
  | array | object =>
    refine iff_of_false ?_ (by simp)
    rw [node, entered]
    split <;> simp [Node.text, Node.bare, Node.object, Node.mismatch, locate]
  | _ => simp [node, Node.text, Node.bare, locate]

theorem putEntry_raw {s s' : Option String} {name : String} (hname : name = "raw") (n : Node) :
    Coordinate.rawRecord.putEntry .buffered s (Node.keyed (name, n)) = .ok s' ↔
      s = none ∧ ∃ t, n.text = .ok t ∧ some t = s' := by
  have hnamed : Key.named Coordinate.rawRecord.fields name = .field 0 := by
    rw [hname]
    exact Key.named_single "raw"
  rw [Record.putEntry_eq_ok, hnamed]
  refine and_congr ?_ Outcome.map_eq_ok
  cases s <;> simp [Coordinate.rawRecord, Record.has]

theorem putEntry_other {s s' : Option String} {name : String} (hname : name ≠ "raw") {n : Node}
    (hskip : n.skip = .ok ()) :
    Coordinate.rawRecord.putEntry .buffered s (Node.keyed (name, n)) = .ok s' ↔ s = s' := by
  have hnamed : Key.named Coordinate.rawRecord.fields name = .other :=
    Key.named_of_notMem (by simpa [Coordinate.rawRecord, Record.fields] using hname)
  rw [Record.putEntry_eq_ok, hnamed]
  exact and_iff_right hskip

/-- Only the entries named `raw` count: there is none, or there is one and it is a string. -/
theorem foldlM_putEntry_eq_ok {entries : List (String × Term)} {room : Nat}
    {s s' : Option String} :
    ((entryNodes room entries).map Node.keyed).foldlM (Coordinate.rawRecord.putEntry .buffered) s
        = .ok s' ↔
      rawEntries entries = [] ∧ s = s' ∨
        s = none ∧ ∃ t, rawEntries entries = [("raw", .string t)] ∧ some t = s' := by
  induction entries generalizing s with
  | nil =>
    refine ⟨fun h => .inl ⟨rfl, Except.ok.inj h⟩, ?_⟩
    rintro (⟨_, rfl⟩ | ⟨_, t, h, _⟩)
    · rfl
    · exact absurd h (by simp [rawEntries])
  | cons e entries ih =>
    obtain ⟨name, v⟩ := e
    rw [entryNodes, List.map_cons, List.foldlM_cons, Outcome.bind_eq_ok]
    by_cases hname : name = "raw"
    · have hraw : rawEntries ((name, v) :: entries) = (name, v) :: rawEntries entries :=
        List.filter_cons_of_pos (by simp [hname])
      simp only [putEntry_raw hname, ih, hraw, text_node_eq_ok]
      constructor
      · rintro ⟨_, ⟨rfl, t, rfl, rfl⟩, ⟨hnone, rfl⟩ | ⟨hsome, _⟩⟩
        · exact .inr ⟨rfl, t, by rw [hname, hnone], rfl⟩
        · exact absurd hsome (by simp)
      · rintro (⟨h, _⟩ | ⟨rfl, t, h, rfl⟩)
        · exact absurd h (by simp)
        · obtain ⟨hentry, hnone⟩ := List.cons.inj h
          obtain ⟨_, rfl⟩ := Prod.mk.inj hentry
          exact ⟨_, ⟨rfl, t, rfl, rfl⟩, .inl ⟨hnone, rfl⟩⟩
    · have hother : rawEntries ((name, v) :: entries) = rawEntries entries :=
        List.filter_cons_of_neg (by simp [hname])
      simp only [putEntry_other hname (skip_node v room), ih, hother, exists_eq_left']

theorem rawRecord_ofEntries_eq_ok {entries : List (String × Term)} {room : Nat}
    {c : Coordinate} :
    Coordinate.rawRecord.ofEntries .buffered ((entryNodes room entries).map Node.keyed) none
        = .ok c ↔
      ∃ t, rawEntries entries = [("raw", .string t)] ∧ Coordinate.raw t = c := by
  rw [Record.ofEntries, Outcome.bind_eq_ok]
  simp only [foldlM_putEntry_eq_ok]
  constructor
  · rintro ⟨_, ⟨_, rfl⟩ | ⟨_, t, h, rfl⟩, hfinish⟩
    · exact absurd hfinish (by
        simp [Coordinate.rawRecord, Node.finished, fail, bind, Except.bind])
    · exact ⟨t, h, Except.ok.inj hfinish⟩
  · rintro ⟨t, h, rfl⟩
    exact ⟨some t, .inr ⟨rfl, t, h, rfl⟩, rfl⟩

theorem coordinate_ofBuffered_eq_ok {v : Term} {room : Nat} (hround : v.Rounded)
    (hfits : v.Fits room) {c : Coordinate} : Coordinate.untagged.ofBuffered (v.node room) = .ok c ↔ v.IsCoordinate c := by
  cases v with
  | number n isLiteral =>
    obtain ⟨w, hnode, hquantity⟩ := node_number hround hfits
    rw [hnode, Coordinate.untagged.ofBuffered_scalar hquantity, Except.ok.injEq]
    exact ⟨fun h => h ▸ .number n isLiteral, fun h => by cases h; rfl⟩
  | string s =>
    have hread : Coordinate.untagged.ofBuffered (node room (.string s)) = .ok (.text s) := by
      rw [node]
      rfl
    rw [hread, Except.ok.injEq]
    exact ⟨fun h => h ▸ .text s, fun h => by cases h; rfl⟩
  | object entries =>
    rw [node_object hfits, Coordinate.ofBuffered_object_eq_ok, rawRecord_ofEntries_eq_ok]
    constructor
    · rintro ⟨t, h, rfl⟩
      exact .raw h
    · intro h
      cases h with
      | raw h => exact ⟨_, h, rfl⟩
  | array items =>
    rw [node_array hfits]
    exact iff_of_false (Coordinate.untagged.ofBuffered_sequence_ne c) (by rintro ⟨⟩)
  | null =>
    rw [node]
    exact iff_of_false (Coordinate.untagged.ofBuffered_null_ne c) (by rintro ⟨⟩)
  | boolean b =>
    rw [node]
    exact iff_of_false (Coordinate.untagged.ofBuffered_boolean_ne c) (by rintro ⟨⟩)

theorem expression_ofBuffered_eq_ok {v : Term} {room : Nat} (hround : v.Rounded)
    (hfits : v.Fits room) {e : Expression} : Expression.untagged.ofBuffered (v.node room) = .ok e ↔ v.IsExpression e := by
  cases v with
  | number n isLiteral =>
    obtain ⟨w, hnode, hquantity⟩ := node_number hround hfits
    rw [hnode, Expression.untagged.ofBuffered_scalar hquantity, Except.ok.injEq]
    exact ⟨fun h => h ▸ .number n isLiteral, fun h => by cases h; rfl⟩
  | string s =>
    have hread : Expression.untagged.ofBuffered (node room (.string s)) = .ok (.raw s) := by
      rw [node]
      rfl
    rw [hread, Except.ok.injEq]
    exact ⟨fun h => h ▸ .raw s, fun h => by cases h; rfl⟩
  | object entries =>
    rw [node_object hfits]
    exact iff_of_false (Expression.ofBuffered_mapping_ne e) (by rintro ⟨⟩)
  | array items =>
    rw [node_array hfits]
    exact iff_of_false (Expression.untagged.ofBuffered_sequence_ne e) (by rintro ⟨⟩)
  | null =>
    rw [node]
    exact iff_of_false (Expression.untagged.ofBuffered_null_ne e) (by rintro ⟨⟩)
  | boolean b =>
    rw [node]
    exact iff_of_false (Expression.untagged.ofBuffered_boolean_ne e) (by rintro ⟨⟩)

theorem coordinate_ofNode_eq_ok {v : Term} (hround : v.Rounded) {room : Nat} (hroom : 0 < room)
    {c : Coordinate} : Coordinate.ofNode (v.node room) = .ok c ↔ v.Fits room ∧ v.IsCoordinate c :=
  (buffer_node_bind_eq_ok hround hroom).trans
    (and_congr_right fun h => coordinate_ofBuffered_eq_ok hround h)

theorem expression_ofNode_eq_ok {v : Term} (hround : v.Rounded) {room : Nat} (hroom : 0 < room)
    {e : Expression} : Expression.ofNode (v.node room) = .ok e ↔ v.Fits room ∧ v.IsExpression e :=
  (buffer_node_bind_eq_ok hround hroom).trans
    (and_congr_right fun h => expression_ofBuffered_eq_ok hround h)

/-- A JSON value that the reader takes, with every number finite and containers that nest no deeper
than it allows, is a coordinate exactly if it is a number, a string or an object with one entry `raw`
that is a string, and an expression exactly if it is a number or a string, as a whole document and
anywhere in one. A number is whole if its literal has neither fraction nor exponent, is not minus
zero and fits in sixty-four bits with sign, and the nearest floating-point number otherwise. It is
assumed that the reader rounds the numbers of the value to the nearest. -/
theorem decode_untagged_iff (v : Term) (hround : v.Rounded) :
    (∀ text, v.IsDocument text →
      (∀ c, Json.decode Coordinate.ofNode text = .ok c ↔ v.Fits Json.room ∧ v.IsCoordinate c) ∧
      ∀ e, Json.decode Expression.ofNode text = .ok e ↔ v.Fits Json.room ∧ v.IsExpression e) ∧
    (∀ fuel room cs rest, 0 < room → v.Written cs → 2 * cs.length ≤ fuel → Json.Ends rest →
      ∃ n, Json.readValue fuel room (cs ++ rest) = (n, some rest) ∧
        (∀ c, Coordinate.ofNode n = .ok c ↔ v.Fits room ∧ v.IsCoordinate c) ∧
        ∀ e, Expression.ofNode n = .ok e ↔ v.Fits room ∧ v.IsExpression e) ∧
    ∀ n : DecimalText,
      (∀ k : Int64, n.stored = .integer k ↔ n.fraction = none ∧ n.exponent = none ∧
        n.text ≠ ['-', '0'] ∧ n.signed = k.toInt) ∧
      ∀ x, n.stored = .float x ↔ x = n.value ∧ ¬(n.fraction = none ∧ n.exponent = none ∧
        n.text ≠ ['-', '0'] ∧ -(2 ^ 63 : Int) ≤ n.signed ∧ n.signed < 2 ^ 63) := by
  refine ⟨fun text htext => ?_, fun fuel room cs rest hroom hcs hfuel hrest => ?_, fun n => ?_⟩
  · have hroom : 0 < Json.room := by decide
    simp only [decode_of_isDocument htext]
    exact ⟨fun _ => coordinate_ofNode_eq_ok hround hroom,
      fun _ => expression_ofNode_eq_ok hround hroom⟩
  · exact ⟨v.node room, readValue_written v fuel room hcs hfuel hrest,
      fun _ => coordinate_ofNode_eq_ok hround hroom,
      fun _ => expression_ofNode_eq_ok hround hroom⟩
  · exact ⟨fun _ => DecimalText.stored_eq_integer_iff, fun _ => DecimalText.stored_eq_float_iff⟩

def minusZero : DecimalText where
  sign := .minus
  whole := ['0']
  fraction := none
  exponent := none
  isDigit := List.all_eq_true.1 (by decide)
  digits_ne_nil := by decide

theorem isLiteral_minusZero : minusZero.IsLiteral :=
  ⟨by simp [minusZero], by decide, by decide, by decide⟩

def rawAmongOthers : Term :=
  .object [("other", .array [.number minusZero isLiteral_minusZero, .null]), ("raw", .string "Lat")]

def rawAmongOthersText : String :=
  " \x7b\"other\": [-0 ,null], \"r\\u0061w\" :\"Lat\"\x7d\n"

theorem isDocument_rawAmongOthers : rawAmongOthers.IsDocument rawAmongOthersText := by
  have hblank : Blanks [' '] := by simp [Blanks, isBlank]
  have hnone : Blanks [] := List.forall_mem_nil _
  have hother : Characters "other".toList "other".toList := .of_plain (by decide)
  have hlat : Characters "Lat".toList "Lat".toList := .of_plain (by decide)
  have hcode : HexCode "0061".toList 'a'.toNat := ⟨rfl, by decide⟩
  have hraw : Characters "r\\u0061w".toList "raw".toList :=
    .plain (by decide) (by decide) (by decide) (.code hcode (.of_plain (by decide)))
  have hitems : ItemsWritten true [.number minusZero isLiteral_minusZero, .null]
      "-0 ,null]".toList := by
    simp only [ItemsWritten, Written]
    exact ⟨[], [], _, _, hnone, hnone, rfl,
      ⟨[' '], [], _, _, hblank, hnone, rfl, ⟨[], hnone, rfl⟩, rfl⟩, rfl⟩
  have hentries : EntriesWritten true
      [("other", .array [.number minusZero isLiteral_minusZero, .null]), ("raw", .string "Lat")]
      "\"other\": [-0 ,null], \"r\\u0061w\" :\"Lat\"\x7d".toList := by
    simp only [EntriesWritten, Written]
    exact ⟨[], [], _, [], [' '], _, _, hnone, hnone, hnone, hblank, hother, ⟨_, hitems, rfl⟩,
      ⟨[], [' '], _, [' '], [], _, _, hnone, hblank, hblank, hnone, hraw, ⟨_, hlat, rfl⟩,
        ⟨[], hnone, rfl⟩, rfl⟩, rfl⟩
  have hwritten : rawAmongOthers.Written
      "\x7b\"other\": [-0 ,null], \"r\\u0061w\" :\"Lat\"\x7d".toList := by
    rw [rawAmongOthers, Written]
    exact ⟨_, hentries, rfl⟩
  exact ⟨[' '], _, ['\n'], hblank, by simp [Blanks, isBlank], hwritten, rfl⟩

theorem decode_untagged_iff_example :
    rawAmongOthers.IsDocument rawAmongOthersText ∧ rawAmongOthers.Fits Json.room ∧
    Json.decode Coordinate.ofNode rawAmongOthersText = .ok (.raw "Lat") ∧
    (∀ e, Json.decode Expression.ofNode rawAmongOthersText ≠ .ok e) ∧
    minusZero.stored = .float (.ofDecimal true 0 0) ∧
    ∃ n, Json.readValue 4 1 "-0,".toList = (n, some [',']) ∧
      Expression.ofNode n = .ok (.float (.ofDecimal true 0 0)) := by
  have hround : minusZero.numeral.float = minusZero.value := by decide +kernel
  obtain ⟨hdocument, -, -⟩ :=
    decode_untagged_iff rawAmongOthers ⟨⟨hround, trivial, trivial⟩, trivial, trivial⟩
  obtain ⟨-, hplace, hnumber⟩ :=
    decode_untagged_iff (.number minusZero isLiteral_minusZero) hround
  obtain ⟨hcoordinate, hexpression⟩ := hdocument _ isDocument_rawAmongOthers
  have hfinite : minusZero.value.isFinite = true := by decide +kernel
  have hfits : rawAmongOthers.Fits Json.room :=
    ⟨⟨⟨hfinite, trivial, trivial⟩, trivial, trivial⟩, by decide⟩
  have hraw : rawAmongOthers.IsCoordinate (.raw "Lat") := .raw (by rfl)
  have hstored : minusZero.stored = .float (.ofDecimal true 0 0) :=
    ((hnumber minusZero).2 _).2 ⟨by decide +kernel, fun h => h.2.2.1 (by decide)⟩
  obtain ⟨n, hread, -, hvalue⟩ := hplace 4 1 "-0".toList [','] (by decide)
    (by rw [Written]; rfl) (by decide) (ends_cons (by decide) [])
  have hzero : IsExpression (.number minusZero isLiteral_minusZero)
      (.float (.ofDecimal true 0 0)) := by
    have hquantity := IsExpression.number minusZero isLiteral_minusZero
    rwa [hstored] at hquantity
  refine ⟨isDocument_rawAmongOthers, hfits, (hcoordinate _).2 ⟨hfits, hraw⟩, fun e he => ?_,
    hstored, n, hread, (hvalue _).2 ⟨⟨hfinite, by decide⟩, hzero⟩⟩
  obtain ⟨-, hobject⟩ := (hexpression e).1 he
  cases hobject

end Json.Term
end CoverageQuery
