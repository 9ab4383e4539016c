import CoverageQuery.Proofs.Json.RoundTrip
import CoverageQuery.Proofs.Stored.Records

/-!
# The order of entries does not matter

A mode takes its kind from wherever it stands, buffers the entries beside it, and reads them as the record
of that kind. So a mode that is rearranged is read as before, and with it the whole query: a description
with its entries in another order, and with entries added that have no meaning, gives the same query, or
none as before.
-/
namespace CoverageQuery

open Document

namespace Mode

def kindEntries (entries : List (String × Node)) : List (String × Node) :=
  entries.filter fun e => e.1 = kindField

def otherEntries (entries : List (String × Node)) : List (String × Node) :=
  entries.filter fun e => e.1 ≠ kindField

theorem readEntry_kind {p q : Pending} {e : String × Node} (he : e.1 = kindField) :
    readEntry .streamed p (Node.keyed e) = .ok q ↔
      p.kind = none ∧ ∃ kind, readKind .streamed e.2 = .ok kind ∧ { p with kind := some kind } = q := by
  obtain ⟨kind?, before⟩ := p
  have hkey : isKindKey (Node.keyed e).1 = true := by simp [Node.keyed, isKindKey, he]
  rw [readEntry, if_pos hkey]
  cases kind? with
  | none =>
    have hread : readKind .streamed (Node.keyed e).2 = readKind .streamed e.2 := rfl
    simp only [Option.isSome_none, Bool.false_eq_true, if_false, true_and, hread]
    refine Outcome.bind_eq_ok.trans (exists_congr fun kind => and_congr_right fun _ => ?_)
    exact ⟨Except.ok.inj, congrArg Except.ok⟩
  | some kind => simp [fail, bind, Except.bind]

theorem readEntry_other {p q : Pending} {e : String × Node} (he : e.1 ≠ kindField) :
    readEntry .streamed p (Node.keyed e) = .ok q ↔ e.2.Bufferable ∧
      { p with entries := Node.keyed (Node.bufferedEntry e) :: p.entries } = q := by
  have hkey : ¬isKindKey (Node.keyed e).1 = true := by simp [Node.keyed, isKindKey, he]
  have hbuffer : bufferKey .streamed (Node.keyed e).1 = .ok (Node.keyed e).1 := rfl
  rw [readEntry, if_neg hkey, hbuffer]
  refine Node.buffer_bind_eq_ok.trans (and_congr_right fun _ => ?_)
  exact ⟨Except.ok.inj, congrArg Except.ok⟩

theorem foldlM_readEntry_eq_ok {entries : List (String × Node)} {p q : Pending} :
    (entries.map Node.keyed).foldlM (readEntry .streamed) p = .ok q ↔
      (∀ e ∈ otherEntries entries, e.2.Bufferable) ∧
      q.entries =
        (((otherEntries entries).map Node.bufferedEntry).map Node.keyed).reverse ++ p.entries ∧
      (kindEntries entries = [] ∧ q.kind = p.kind ∨ p.kind = none ∧ ∃ v kind,
        kindEntries entries = [(kindField, v)] ∧ readKind .streamed v = .ok kind ∧
          q.kind = some kind) := by
  induction entries generalizing p with
  | nil =>
    simp only [List.map_nil, List.foldlM_nil, otherEntries, kindEntries, List.filter_nil]
    constructor
    · intro h
      obtain rfl := Except.ok.inj h
      simp
    · rintro ⟨_, hentries, ⟨_, hkind⟩ | ⟨_, v, kind, hsingle, _⟩⟩
      · obtain ⟨kind?, after⟩ := q
        obtain rfl : after = p.entries := hentries
        obtain rfl : kind? = p.kind := hkind
        rfl
      · exact absurd hsingle (by simp)
  | cons e entries ih =>
    rw [List.map_cons, List.foldlM_cons, Outcome.bind_eq_ok]
    by_cases he : e.1 = kindField
    · have hkinds : kindEntries (e :: entries) = e :: kindEntries entries :=
        List.filter_cons_of_pos (by simp [he])
      have hothers : otherEntries (e :: entries) = otherEntries entries :=
        List.filter_cons_of_neg (by simp [he])
      simp only [readEntry_kind he, ih, hkinds, hothers]
      constructor
      · rintro ⟨_, ⟨hp, kind, hkind, rfl⟩, hbuffer, hentries, ⟨hnone, hq⟩ | ⟨hnone, _⟩⟩
        · exact ⟨hbuffer, hentries, .inr ⟨hp, e.2, kind, by rw [hnone, ← he], hkind, hq⟩⟩
        · exact absurd hnone (by simp)
      · rintro ⟨hbuffer, hentries, ⟨hnone, _⟩ | ⟨hp, v, kind, hsingle, hkind, hq⟩⟩
        · exact absurd hnone (by simp)
        · obtain ⟨rfl, hnone⟩ := List.cons.inj hsingle
          exact ⟨_, ⟨hp, kind, hkind, rfl⟩, hbuffer, hentries, .inl ⟨hnone, hq⟩⟩
    · have hkinds : kindEntries (e :: entries) = kindEntries entries :=
        List.filter_cons_of_neg (by simp [he])
      have hothers : otherEntries (e :: entries) = e :: otherEntries entries :=
        List.filter_cons_of_pos (by simp [he])
      simp only [readEntry_other he, ih, hkinds, hothers, List.forall_mem_cons, List.map_cons,
        List.reverse_cons, List.append_assoc, List.singleton_append]
      constructor
      · rintro ⟨_, ⟨hfirst, rfl⟩, hbuffer, hentries, hkind⟩
        exact ⟨⟨hfirst, hbuffer⟩, hentries, hkind⟩
      · rintro ⟨⟨hfirst, hbuffer⟩, hentries, hkind⟩
        exact ⟨_, ⟨hfirst, rfl⟩, hbuffer, hentries, hkind⟩

theorem split_object_eq_ok {entries : List (String × Node)} {kind : Kind} {content : Node} :
    split .streamed (.object entries) = .ok (kind, content) ↔ ∃ v,
      kindEntries entries = [(kindField, v)] ∧ readKind .streamed v = .ok kind ∧
        (Node.object (otherEntries entries)).buffer = .ok content := by
  rw [Node.object, split, Outcome.bind_eq_ok]
  constructor
  · rintro ⟨⟨kind?, after⟩, hfold, hrest⟩
    obtain ⟨hothers, rfl, hkind⟩ := foldlM_readEntry_eq_ok.1 hfold
    rcases hkind with ⟨_, rfl⟩ | ⟨_, v, _, hsingle, hkind, rfl⟩
    · exact absurd hrest (by simp [Node.finished, fail, bind, Except.bind])
    · obtain ⟨rfl, rfl⟩ := Prod.mk.inj (Except.ok.inj hrest)
      refine ⟨v, hsingle, hkind, Node.buffer_object_eq_ok.2 ⟨hothers, ?_⟩⟩
      rw [List.append_nil, List.reverse_reverse]
      rfl
  · rintro ⟨v, hsingle, hkind, hbuffer⟩
    obtain ⟨hothers, rfl⟩ := Node.buffer_object_eq_ok.1 hbuffer
    refine ⟨⟨some kind, _⟩, foldlM_readEntry_eq_ok.2
      ⟨hothers, rfl, .inr ⟨rfl, v, kind, hsingle, hkind, rfl⟩⟩, ?_⟩
    show Except.ok (kind, Node.mapping _ none none) = _
    rw [List.append_nil, List.reverse_reverse]
    rfl

theorem split_sequence_eq_ok {first : Node} {rest : List Node} {kind : Kind} {content : Node} :
    split .streamed (.sequence (first :: rest) none none) = .ok (kind, content) ↔
      readKind .streamed first = .ok kind ∧
        (Node.sequence rest none none).buffer = .ok content := by
  simp only [split, Node.buffer, Outcome.bind_eq_ok]
  constructor
  · rintro ⟨_, hkind, _, hitems, _, hfinished, h⟩
    obtain ⟨rfl, rfl⟩ := Prod.mk.inj (Except.ok.inj h)
    exact ⟨hkind, _, hitems, _, hfinished, rfl⟩
  · rintro ⟨hkind, _, hitems, _, hfinished, h⟩
    obtain rfl := Except.ok.inj h
    exact ⟨_, hkind, _, hitems, _, hfinished, rfl⟩

theorem ofNode_object_eq_ok {entries : List (String × Node)} {m : Mode} :
    ofNode .streamed (.object entries) = .ok m ↔ ∃ v,
      kindEntries entries = [(kindField, v)] ∧ ∃ kind, readKind .streamed v = .ok kind ∧
        (Node.object (otherEntries entries)).buffer >>= ofContent kind = .ok m := by
  simp only [ofNode, Outcome.bind_eq_ok, locate_eq_ok, Prod.exists, split_object_eq_ok]
  constructor
  · rintro ⟨kind, content, ⟨v, hsingle, hkind, hbuffer⟩, hcontent⟩
    exact ⟨v, hsingle, kind, hkind, content, hbuffer, hcontent⟩
  · rintro ⟨v, hsingle, kind, hkind, content, hbuffer, hcontent⟩
    exact ⟨kind, content, ⟨v, hsingle, hkind, hbuffer⟩, hcontent⟩

theorem ofNode_sequence_eq_ok {first : Node} {rest : List Node} {m : Mode} :
    ofNode .streamed (.sequence (first :: rest) none none) = .ok m ↔
      ∃ kind, readKind .streamed first = .ok kind ∧
        (Node.sequence rest none none).buffer >>= ofContent kind = .ok m := by
  simp only [ofNode, Outcome.bind_eq_ok, locate_eq_ok, Prod.exists, split_sequence_eq_ok]
  exact exists_congr fun kind => by simp only [and_assoc, exists_and_left]

theorem agree_content {kind : Kind} {n n' : Node} (h : Rearranged (.content kind) n n') :
    Agree (n.buffer >>= ofContent kind) (n'.buffer >>= ofContent kind) :=
  h.agree_buffer agree_ofContent

section Sorted

variable {changes : List Change} {new : List (String × Json)} {arranged : List (String × Node)}

def kindChanges (changes : List Change) : List Change := changes.filter fun c => c.key = kindField

def otherChanges (changes : List Change) : List Change := changes.filter fun c => c.key ≠ kindField

theorem kindEntries_old :
    kindEntries (changes.map Change.old) = (kindChanges changes).map Change.old :=
  List.filter_map

theorem otherEntries_old :
    otherEntries (changes.map Change.old) = (otherChanges changes).map Change.old :=
  List.filter_map

theorem kindEntries_perm (hnew : ∀ e ∈ new, e.1 ≠ kindField)
    (harranged : arranged.Perm (changes.map Change.new ++ new.map Node.valued)) :
    (kindEntries arranged).Perm ((kindChanges changes).map Change.new) := by
  have hsorted := harranged.filter fun e => e.1 = kindField
  have hnone : (new.map Node.valued).filter (fun e => e.1 = kindField) = [] := by
    rw [List.filter_eq_nil_iff, List.forall_mem_map]
    exact fun e he h => hnew e he (of_decide_eq_true h)
  rw [List.filter_append, hnone, List.append_nil, List.filter_map] at hsorted
  exact hsorted

theorem otherEntries_perm (hnew : ∀ e ∈ new, e.1 ≠ kindField)
    (harranged : arranged.Perm (changes.map Change.new ++ new.map Node.valued)) :
    (otherEntries arranged).Perm ((otherChanges changes).map Change.new ++ new.map Node.valued) := by
  have hsorted := harranged.filter fun e => e.1 ≠ kindField
  have hall : (new.map Node.valued).filter (fun e => e.1 ≠ kindField) = new.map Node.valued := by
    rw [List.filter_eq_self, List.forall_mem_map]
    exact fun e he => decide_eq_true (hnew e he)
  rw [List.filter_append, hall, List.filter_map] at hsorted
  exact hsorted

end Sorted

theorem agree_ofNode {n n' : Node} (h : Rearranged .mode n n') :
    Agree (ofNode .streamed n) (ofNode .streamed n') := by
  cases h with
  | same => exact .refl _
  | @sequence _ items hitems =>
    cases items with
    | nil => exact .refl _
    | cons first rest =>
      have hcontent (kind : Kind) : Rearranged (.content kind)
          (.sequence (rest.map Prod.fst) none none) (.sequence (rest.map Prod.snd) none none) := by
        refine .sequence fun i item hi => ?_
        have hitem : Rearranged (Role.item .mode (i + 1)) item.1 item.2 := hitems (i + 1) item hi
        simp only [Role.item, Nat.add_eq_right] at hitem ⊢
        exact hitem
      intro m
      simp only [List.map_cons, ofNode_sequence_eq_ok]
      exact exists_congr fun kind =>
        and_congr ((hitems 0 first rfl).agree_readKind kind) (agree_content (hcontent kind) m)
  | @object _ changes new arranged hchanges hnew harranged =>
    have hkinds := kindEntries_perm (fun e he => (hnew e he).1) harranged
    have hothers := otherEntries_perm (fun e he => (hnew e he).1) harranged
    have hsingle (entry : String × Node) :
        kindEntries arranged = [entry] ↔ (kindChanges changes).map Change.new = [entry] := by
      rw [← List.perm_singleton, ← List.perm_singleton]
      exact ⟨hkinds.symm.trans, hkinds.trans⟩
    have hkind : ∀ c, kindChanges changes = [c] → c ∈ changes ∧ c.key = kindField := by
      intro c hc
      have hmem : c ∈ kindChanges changes := by simp [hc]
      exact ⟨List.mem_of_mem_filter hmem, by simpa using List.of_mem_filter hmem⟩
    have hcontent {c : Change} {kind : Kind} (hc : kindChanges changes = [c])
        (hread : readKind .streamed c.before = .ok kind) : Rearranged (.content kind)
          (.object (otherEntries (changes.map Change.old))) (.object (otherEntries arranged)) := by
      obtain ⟨hmem, hkey⟩ := hkind c hc
      rw [otherEntries_old]
      refine .object (fun d hd => hchanges d (List.mem_of_mem_filter hd)) (fun e he => ?_) hothers
      refine (hnew e he).2 c.before kind ?_ hread
      rw [← hkey]
      exact List.mem_map_of_mem hmem
    intro m
    simp only [ofNode_object_eq_ok, kindEntries_old, hsingle, List.map_eq_singleton_iff]
    constructor
    · rintro ⟨_, ⟨c, hc, hold⟩, kind, hread, hmode⟩
      obtain ⟨hkey, rfl⟩ := Prod.mk.inj hold
      refine ⟨c.after, ⟨c, hc, by rw [Change.new, hkey]⟩, kind, ?_,
        (agree_content (hcontent hc hread) m).1 hmode⟩
      exact ((hchanges c (hkind c hc).1).agree_readKind kind).1 hread
    · rintro ⟨_, ⟨c, hc, hold⟩, kind, hread', hmode⟩
      obtain ⟨hkey, rfl⟩ := Prod.mk.inj hold
      have hread := ((hchanges c (hkind c hc).1).agree_readKind kind).2 hread'
      exact ⟨c.before, ⟨c, hc, by rw [Change.old, hkey]⟩, kind, hread,
        (agree_content (hcontent hc hread) m).2 hmode⟩

end Mode

namespace Query

theorem lawful_record (dialect : Dialect) : (record dialect).Lawful where
  get_set := by simp [record]
  apart := by simp [record, Record.apart_iff]

theorem reads_record : Role.query.Reads (record .streamed) where
  lawful := lawful_record .streamed
  fields_eq := rfl
  agree_put {i name part n n'} hi hpart h s := by
    have hlt : i < 4 := (List.getElem?_eq_some_iff.1 hi).1
    interval_cases i
    · have htext : ∀ i {m m'}, Rearranged (part.item i) m m' → Agree m.text m'.text :=
        fun _ {_ _} hm => hm.agree_text
      exact (Rearranged.agree_list htext h).map _
    · obtain rfl : "subset" = name := Option.some.inj hi
      obtain rfl : part = .subsets := by
        rcases hpart with rfl | rfl <;> rfl
      have hsubset : ∀ i {m m'}, Rearranged (Role.item .subsets i) m m' →
          Agree (Subset.ofNode .streamed m) (Subset.ofNode .streamed m') :=
        fun _ {_ _} hm => Subset.reads_record.agree_read .streamed hm
      exact (Rearranged.agree_list hsubset h).map _
    · exact h.agree_expression.map _
    · obtain rfl : "mode" = name := Option.some.inj hi
      obtain rfl : part = .mode := by
        rcases hpart with rfl | rfl <;> rfl
      exact (Mode.agree_ofNode h).map _

/-- Two texts for the same description, but for the order of the entries in its objects and for entries
without a meaning, give the same query, or none. -/
theorem ofJsonText_rearranged {text text' : String} {n n' : Node}
    (htext : Json.document text = ⟨n, none⟩) (htext' : Json.document text' = ⟨n', none⟩)
    (h : Rearranged .query n n') (q : Query) : ofJsonText text = .ok q ↔ ofJsonText text' = .ok q := by
  rw [ofJsonText, ofJsonText, Json.decode, Json.decode, htext, htext', Whole.decode_eq_ok,
    Whole.decode_eq_ok]
  exact and_congr_left fun _ => reads_record.agree_read .streamed h q

def described : Json :=
  .object [("coverages", .array [.string "A"]),
    ("subset", .array [.object [("axis", .string "Lat"), ("start", .object [("raw", .string "0")])]]),
    ("mode", .object [("kind", .string "switch"), ("cases", .array [
      .object [("condition", .string "$c > 3"), ("result", .integer 1)],
      .object [("is_default", .boolean true), ("result", .integer 2)]]), ("default", .integer 3)])]

/-- Its entries in reverse, with an entry of no meaning in front in each object. -/
def redescribed : Json :=
  .object [("note", .null),
    ("mode", .object [("method", .float .nan), ("default", .integer 3), ("cases", .array [
      .object [("why", .array []), ("result", .integer 1), ("condition", .string "$c > 3")],
      .object [("kind", .integer 4), ("result", .integer 2), ("is_default", .boolean true)]]),
      ("kind", .string "switch")]),
    ("subset", .array [.object [("mode", .object []),
      ("start", .object [("unit", .string "deg"), ("raw", .string "0")]), ("axis", .string "Lat")]]),
    ("coverages", .array [.string "A"])]

theorem redescribed_rearranged : Rearranged .query described.toNode redescribed.toNode := by
  have hsame (role : Role) (v : Json) : Rearranged role v.toNode v.toNode := .same role v.toNode
  have hstart := Rearranged.reversed .coordinate [⟨"raw", _, _⟩] ("unit", .string "deg")
    (List.forall_mem_singleton.2 (hsame _ (.string "0")))
    (by simp [Role.Admits, Role.names, Coordinate.rawRecord, Record.fields])
  have hsubset := Rearranged.reversed .subset [⟨"axis", _, _⟩, ⟨"start", _, _⟩]
    ("mode", .object [])
    (List.forall_mem_cons.2 ⟨hsame _ (.string "Lat"), List.forall_mem_singleton.2 hstart⟩)
    (by simp [Role.Admits, Role.names, Subset.record, Record.fields])
  have hguarded := Rearranged.reversed .case [⟨"condition", _, _⟩, ⟨"result", _, _⟩]
    ("why", .array [])
    (List.forall_mem_cons.2
      ⟨hsame _ (.string "$c > 3"), List.forall_mem_singleton.2 (hsame _ (.integer 1))⟩)
    (by simp [Role.Admits, Role.names, Case.record, Record.fields])
  have hdefault := Rearranged.reversed .case [⟨"is_default", _, _⟩, ⟨"result", _, _⟩]
    ("kind", .integer 4)
    (List.forall_mem_cons.2
      ⟨hsame _ (.boolean true), List.forall_mem_singleton.2 (hsame _ (.integer 2))⟩)
    (by simp [Role.Admits, Role.names, Case.record, Record.fields])
  have hcases := Rearranged.each .cases [(_, _), (_, _)] (fun _ => rfl)
    (List.forall_mem_cons.2 ⟨hguarded, List.forall_mem_singleton.2 hdefault⟩)
  have hswitch : Mode.readKind .streamed (Json.string "switch").toNode = .ok .switch := rfl
  have hmode := Rearranged.reversed .mode [⟨"kind", _, _⟩, ⟨"cases", _, _⟩, ⟨"default", _, _⟩]
    ("method", .float .nan)
    (List.forall_mem_cons.2 ⟨hsame _ (.string "switch"), List.forall_mem_cons.2
      ⟨hcases, List.forall_mem_singleton.2 (hsame _ (.integer 3))⟩⟩)
    ⟨by decide, fun v kind hv hkind => by
      obtain rfl : v = (Json.string "switch").toNode := by
        simpa [Change.old, Mode.kindField, Json.toNode] using hv
      obtain rfl := Except.ok.inj (hswitch.symm.trans hkind)
      decide⟩
  have hsubsets := Rearranged.each .subsets [(_, _)] (fun _ => rfl)
    (List.forall_mem_singleton.2 hsubset)
  exact Rearranged.reversed .query [⟨"coverages", _, _⟩, ⟨"subset", _, _⟩, ⟨"mode", _, _⟩]
    ("note", .null)
    (List.forall_mem_cons.2 ⟨hsame _ (.array [.string "A"]), List.forall_mem_cons.2
      ⟨hsubsets, List.forall_mem_singleton.2 hmode⟩⟩)
    (by simp [Role.Admits, Role.names, Query.record, Record.fields])

theorem ofJsonText_rearranged_example : described.render ≠ redescribed.render ∧
    ∃ q, ofJsonText described.render = .ok q ∧ ofJsonText redescribed.render = .ok q := by
  have hfirst : Json.Fits Json.room described := by
    simp [described, Json.Fits, Json.ItemsFit, Json.EntriesFit, Json.room, Json.Whole64]
  have hnan : Json.isReadBack .nan = true := by decide
  have hsecond : Json.Fits Json.room redescribed := by
    simp [redescribed, Json.Fits, Json.ItemsFit, Json.EntriesFit, Json.room, Json.Whole64, hnan]
  have hread : ofJsonText described.render = .ok ⟨["A"], [.point "Lat" (.raw "0")],
      Expression.ofIterator, .switch ⟨[⟨"$c > 3", .integer 1⟩], some (.integer 2)⟩⟩ := by
    rw [ofJsonText, Json.decode_render hfirst]
    decide +kernel
  have hsame := ofJsonText_rearranged (Json.document_render hfirst) (Json.document_render hsecond)
    redescribed_rearranged
  exact ⟨by decide +kernel, _, hread, (hsame _).1 hread⟩

end Query
end CoverageQuery
