import CoverageQuery.Proofs.Document.Entries

/-!
# Readings that agree

Two readings agree when they give the same results, whatever they fail with. What is read of a record
does not depend on the order of the entries it is read from, as long as its fields are put apart from
each other; nor does it depend on entries that name no field and can be passed over. What is made of a
record at its end can be made of it after it has been read.
-/
namespace CoverageQuery

open Document

namespace Document

def Agree {α : Type} (x y : Reading α) : Prop := ∀ a, x = .ok a ↔ y = .ok a

namespace Agree

variable {α β γ ι : Type} {x y z : Reading α}

theorem refl (x : Reading α) : Agree x x := fun _ => Iff.rfl

theorem trans (h : Agree x y) (h' : Agree y z) : Agree x z := fun a => (h a).trans (h' a)

theorem failing (hx : ∀ a, x ≠ .ok a) (hy : ∀ a, y ≠ .ok a) : Agree x y :=
  fun a => ⟨fun h => absurd h (hx a), fun h => absurd h (hy a)⟩

theorem bind {f g : α → Reading β} (h : Agree x y) (hfg : ∀ a, Agree (f a) (g a)) :
    Agree (x >>= f) (y >>= g) := by
  intro b
  simp only [Outcome.bind_eq_ok]
  exact exists_congr fun a => and_congr (h a) (hfg a b)

theorem map (h : Agree x y) (f : α → β) : Agree (x.map f) (y.map f) := by
  intro b
  simp only [Outcome.map_eq_ok]
  exact exists_congr fun a => and_congr_left fun _ => h a

theorem locate (h : Agree x y) (p q : Option Place) :
    Agree (Document.locate p x) (Document.locate q y) := by
  intro a
  rw [locate_eq_ok, locate_eq_ok]
  exact h a

theorem mapM {f : ι → Reading α} {items : List (ι × ι)}
    (h : ∀ item ∈ items, Agree (f item.1) (f item.2)) :
    Agree ((items.map Prod.fst).mapM f) ((items.map Prod.snd).mapM f) := by
  induction items with
  | nil => exact refl _
  | cons item items ih =>
    rw [List.forall_mem_cons] at h
    simp only [List.map_cons, List.mapM_cons]
    exact h.1.bind fun a => (ih h.2).bind fun as => refl _

theorem foldlM {δ : Type} {f : γ → ι → Reading γ} (before after : δ → ι) {changes : List δ}
    (h : ∀ c ∈ changes, ∀ s, Agree (f s (before c)) (f s (after c))) (s : γ) :
    Agree ((changes.map before).foldlM f s) ((changes.map after).foldlM f s) := by
  induction changes generalizing s with
  | nil => exact refl _
  | cons c changes ih =>
    rw [List.forall_mem_cons] at h
    simp only [List.map_cons, List.foldlM_cons]
    exact (h.1 s).bind fun t => ih h.2 t

theorem foldlM_perm {f : γ → ι → Reading γ}
    (hswap : ∀ s a b, Agree (f s a >>= fun t => f t b) (f s b >>= fun t => f t a))
    {as bs : List ι} (h : as.Perm bs) (s : γ) : Agree (as.foldlM f s) (bs.foldlM f s) := by
  induction h generalizing s with
  | nil => exact refl _
  | cons a _ ih =>
    simp only [List.foldlM_cons]
    exact (refl (f s a)).bind ih
  | swap a b as =>
    simp only [List.foldlM_cons, ← bind_assoc]
    exact (hswap s b a).bind fun t => refl _
  | trans _ _ ih ih' => exact (ih s).trans (ih' s)

theorem foldlM_idle {f : γ → ι → Reading γ} {idle : List ι} (h : ∀ a ∈ idle, ∀ s, f s a = .ok s)
    (as : List ι) (s : γ) : Agree (as.foldlM f s) ((as ++ idle).foldlM f s) := by
  have hidle (t : γ) : idle.foldlM f t = .ok t := by
    induction idle with
    | nil => rfl
    | cons a idle ih =>
      rw [List.forall_mem_cons] at h
      rw [List.foldlM_cons, h.1 t]
      exact ih h.2
  intro t
  simp only [List.foldlM_append, Outcome.bind_eq_ok, hidle, Except.ok.injEq, exists_eq_right]

end Agree

structure Change where
  key : String
  before : Node
  after : Node

namespace Change

def old (c : Change) : String × Node := (c.key, c.before)

def new (c : Change) : String × Node := (c.key, c.after)

def buffered (c : Change) : Change := ⟨c.key, c.before.buffered, c.after.buffered⟩

def same (entry : String × Node) : Change := ⟨entry.1, entry.2, entry.2⟩

theorem map_old_same (entries : List (String × Node)) :
    (entries.map same).map old = entries := (List.map_map ..).trans (List.map_id _)

theorem map_new_same (entries : List (String × Node)) :
    (entries.map same).map new = entries := (List.map_map ..).trans (List.map_id _)

end Change

theorem locate_map {α β : Type} (place : Option Place) (f : α → β) (x : Reading α) :
    locate place (x.map f) = (locate place x).map f := by
  cases x <;> rfl

namespace Key

variable {fields : List String} {k : String}

theorem field_of_named {i : Nat} (h : named fields k = .field i) : fields[i]? = some k := by
  unfold named at h
  split at h
  · rename_i hlt
    obtain rfl := Key.field.inj h
    rw [List.getElem?_eq_getElem hlt, List.getElem_idxOf]
  · exact absurd h (by simp)

theorem lt_of_named {i : Nat} (h : named fields k = .field i) : i < fields.length :=
  (List.getElem?_eq_some_iff.1 (field_of_named h)).1

theorem named_of_notMem (h : k ∉ fields) : named fields k = .other := by
  unfold named
  rw [if_neg]
  exact fun hlt => h (List.idxOf_lt_length_iff.1 hlt)

end Key

namespace Record

variable {σ α : Type} {r : Record σ α} {dialect : Dialect}

structure Apart (f g : Field σ) : Prop where
  get_left (v : f.Value) (s : σ) : g.get (f.set v s) = g.get s
  get_right (w : g.Value) (s : σ) : f.get (g.set w s) = f.get s
  set_set (v : f.Value) (w : g.Value) (s : σ) : f.set v (g.set w s) = g.set w (f.set v s)

theorem Apart.symm {f g : Field σ} (h : Apart f g) : Apart g f :=
  ⟨h.get_right, h.get_left, fun w v s => (h.set_set v w s).symm⟩

theorem apart_iff {f g : Field σ} : Apart f g ↔ (∀ v s, g.get (f.set v s) = g.get s) ∧
    (∀ w s, f.get (g.set w s) = f.get s) ∧
    ∀ v w s, f.set v (g.set w s) = g.set w (f.set v s) :=
  ⟨fun h => ⟨h.get_left, h.get_right, h.set_set⟩, fun ⟨h, h', h''⟩ => ⟨h, h', h''⟩⟩

/-- Fields are kept as they are set, apart from each other. -/
structure Lawful (r : Record σ α) : Prop where
  get_set : ∀ f ∈ r.slots, ∀ v s, f.get (f.set v s) = some v
  apart : r.slots.Pairwise Apart

theorem put_of_slot {i : Nat} {f : Field σ} (hf : r.slots[i]? = some f) (n : Node) (s : σ) :
    r.put i n s = (f.read n).map fun v => f.set v s := by
  simp only [put, hf]

theorem put_eq_ok {i : Nat} {f : Field σ} (hf : r.slots[i]? = some f) {n : Node} {s t : σ} :
    r.put i n s = .ok t ↔ ∃ v, f.read n = .ok v ∧ f.set v s = t := by
  rw [put_of_slot hf, Outcome.map_eq_ok]

theorem put_of_read {i : Nat} {f : Field σ} (hf : r.slots[i]? = some f) {n : Node} {v : f.Value}
    (h : f.read n = .ok v) (s : σ) : r.put i n s = .ok (f.set v s) :=
  (put_eq_ok hf).2 ⟨v, h, rfl⟩

theorem exists_slot {i : Nat} (h : i < r.fields.length) : ∃ f, r.slots[i]? = some f :=
  ⟨_, List.getElem?_eq_getElem (by simpa [fields] using h)⟩

theorem Lawful.apart_of_ne (hr : r.Lawful) {i j : Nat} {f g : Field σ} (hi : r.slots[i]? = some f)
    (hj : r.slots[j]? = some g) (hij : i ≠ j) : Apart f g := by
  obtain ⟨hi', rfl⟩ := List.getElem?_eq_some_iff.1 hi
  obtain ⟨hj', rfl⟩ := List.getElem?_eq_some_iff.1 hj
  rcases Nat.lt_or_gt_of_ne hij with hlt | hlt
  · exact List.pairwise_iff_getElem.1 hr.apart i j hi' hj' hlt
  · exact (List.pairwise_iff_getElem.1 hr.apart j i hj' hi' hlt).symm

theorem Lawful.has_put (hr : r.Lawful) {i j : Nat} {n : Node} {s t : σ}
    (hi : i < r.fields.length) (hj : j < r.fields.length) (h : r.put i n s = .ok t) :
    r.has t j = (r.has s j || decide (i = j)) := by
  obtain ⟨f, hf⟩ := exists_slot hi
  obtain ⟨g, hg⟩ := exists_slot hj
  obtain ⟨v, _, rfl⟩ := (put_eq_ok hf).1 h
  simp only [has, hg, Option.any_some]
  by_cases hij : i = j
  · subst hij
    obtain rfl := Option.some.inj (hf.symm.trans hg)
    simp [hr.get_set f (List.mem_of_getElem? hf)]
  · simp [(hr.apart_of_ne hf hg hij).get_left, hij]

theorem Lawful.put_first (hr : r.Lawful) {i j : Nat} {m n : Node} {s t u : σ}
    (hi : i < r.fields.length) (hj : j < r.fields.length) (hij : i ≠ j) (h : r.put i m s = .ok t)
    (h' : r.put j n t = .ok u) : ∃ t', r.put j n s = .ok t' ∧ r.put i m t' = .ok u := by
  obtain ⟨f, hf⟩ := exists_slot hi
  obtain ⟨g, hg⟩ := exists_slot hj
  obtain ⟨v, hv, rfl⟩ := (put_eq_ok hf).1 h
  obtain ⟨w, hw, rfl⟩ := (put_eq_ok hg).1 h'
  refine ⟨_, put_of_read hg hw s, ?_⟩
  rw [put_of_read hf hv, (hr.apart_of_ne hf hg hij).set_set]

theorem Lawful.of_single {f : Field σ} (hslots : r.slots = [f])
    (hset : ∀ v s, f.get (f.set v s) = some v) : r.Lawful where
  get_set g hg := by
    rw [hslots, List.mem_singleton] at hg
    rw [hg]
    exact hset
  apart := by
    rw [hslots]
    exact List.pairwise_singleton _ _

theorem putEntry_eq_ok {s t : σ} {entry : String × Node} :
    r.putEntry dialect s (Node.keyed entry) = .ok t ↔
      match Key.named r.fields entry.1 with
      | .field i => r.has s i = false ∧ r.put i entry.2 s = .ok t
      | .other => entry.2.skip = .ok () ∧ s = t := by
  simp only [putEntry, Node.keyed, Key.read_text, bind, Except.bind]
  cases Key.named r.fields entry.1 with
  | field i =>
    cases hhas : r.has s i with
    | false => simp [hhas]
    | true => simp [hhas, fail]
  | other =>
    cases entry.2.skip with
    | error e => simp
    | ok u => simp [pure, Except.pure]

theorem Lawful.putEntry_first (hr : r.Lawful) {s t u : σ} {a b : String × Node}
    (ha : r.putEntry dialect s (Node.keyed a) = .ok t)
    (hb : r.putEntry dialect t (Node.keyed b) = .ok u) :
    ∃ t', r.putEntry dialect s (Node.keyed b) = .ok t' ∧
      r.putEntry dialect t' (Node.keyed a) = .ok u := by
  simp only [putEntry_eq_ok] at ha hb ⊢
  cases hi : Key.named r.fields a.1 with
  | other =>
    rw [hi] at ha
    obtain ⟨hskip, rfl⟩ := ha
    exact ⟨u, hb, hskip, rfl⟩
  | field i =>
    rw [hi] at ha
    obtain ⟨hhas, hput⟩ := ha
    cases hj : Key.named r.fields b.1 with
    | other =>
      rw [hj] at hb
      obtain ⟨hskip, rfl⟩ := hb
      exact ⟨s, ⟨hskip, rfl⟩, hhas, hput⟩
    | field j =>
      rw [hj] at hb
      obtain ⟨hhas', hput'⟩ := hb
      have hilt := Key.lt_of_named hi
      have hjlt := Key.lt_of_named hj
      have hleft := hr.has_put hilt hjlt hput
      -- A field is put once, so the two entries are for two fields.
      have hij : i ≠ j := by
        rintro rfl
        simp [hhas'] at hleft
      obtain ⟨t', hother, hlast⟩ := hr.put_first hilt hjlt hij hput hput'
      have hright := hr.has_put hjlt hilt hother
      simp only [hhas', hij, decide_false, Bool.or_false] at hleft
      simp only [hhas, hij.symm, decide_false, Bool.or_false] at hright
      exact ⟨t', ⟨hleft.symm, hother⟩, hright, hlast⟩

theorem Lawful.putEntry_swap (hr : r.Lawful) (dialect : Dialect) (s : σ) (a b : String × Node) :
    Agree (r.putEntry dialect s (Node.keyed a) >>= fun t => r.putEntry dialect t (Node.keyed b))
      (r.putEntry dialect s (Node.keyed b) >>= fun t => r.putEntry dialect t (Node.keyed a)) := by
  intro u
  simp only [Outcome.bind_eq_ok]
  constructor
  · rintro ⟨t, ha, hb⟩
    exact hr.putEntry_first ha hb
  · rintro ⟨t, hb, ha⟩
    exact hr.putEntry_first hb ha

theorem putEntry_valued {entry : String × Json} (h : entry.1 ∉ r.fields) (s : σ) :
    r.putEntry dialect s (Node.keyed (Node.valued entry)) = .ok s := by
  rw [putEntry_eq_ok]
  simp only [Node.valued, Key.named_of_notMem h]
  exact ⟨Json.skip_toNode entry.2, trivial⟩

theorem agree_putEntry {c : Change} (hskip : Agree c.before.skip c.after.skip)
    (hput : ∀ i s, Key.named r.fields c.key = .field i →
      Agree (r.put i c.before s) (r.put i c.after s)) (s : σ) :
    Agree (r.putEntry dialect s (Node.keyed c.old)) (r.putEntry dialect s (Node.keyed c.new)) := by
  intro t
  simp only [putEntry_eq_ok, Change.old, Change.new]
  cases hkey : Key.named r.fields c.key with
  | field i => exact and_congr_right fun _ => hput i s hkey t
  | other => exact and_congr_left fun _ => hskip ()

theorem Lawful.agree_ofEntries (hr : r.Lawful) {changes : List Change}
    {new : List (String × Json)} {arranged : List (String × Node)}
    (hskip : ∀ c ∈ changes, Agree c.before.skip c.after.skip)
    (hput : ∀ c ∈ changes, ∀ i s, Key.named r.fields c.key = .field i →
      Agree (r.put i c.before s) (r.put i c.after s))
    (hnew : ∀ e ∈ new, e.1 ∉ r.fields)
    (harranged : arranged.Perm (changes.map Change.new ++ new.map Node.valued)) :
    Agree (r.ofEntries dialect ((changes.map Change.old).map Node.keyed) none)
      (r.ofEntries dialect (arranged.map Node.keyed) none) := by
  have hvalues := Agree.foldlM (f := fun s e => r.putEntry dialect s (Node.keyed e))
    Change.old Change.new (fun c hc => agree_putEntry (hskip c hc) (hput c hc)) r.empty
  have hnothing : ∀ e ∈ new.map Node.valued, ∀ s, r.putEntry dialect s (Node.keyed e) = .ok s := by
    intro e he s
    obtain ⟨entry, hentry, rfl⟩ := List.mem_map.1 he
    exact putEntry_valued (hnew entry hentry) s
  have hidle := Agree.foldlM_idle hnothing (changes.map Change.new) r.empty
  have horder := Agree.foldlM_perm (hr.putEntry_swap dialect) harranged.symm r.empty
  simp only [ofEntries, List.foldlM_map] at hvalues hidle horder ⊢
  exact ((hvalues.trans hidle).trans horder).bind fun s => Agree.refl _

theorem agree_ofItems {items : List (Node × Node)}
    (h : ∀ i item, items[i]? = some item → i < r.fields.length → ∀ s,
      Agree (r.put i item.1 s) (r.put i item.2 s)) :
    Agree (r.ofItems dialect (items.map Prod.fst) none)
      (r.ofItems dialect (items.map Prod.snd) none) := by
  have hitems : ∀ item ∈ (items.take r.fields.length).zipIdx, ∀ s,
      Agree (r.put item.2 item.1.1 s) (r.put item.2 item.1.2 s) := by
    intro item hitem s
    have hget := List.mem_zipIdx_iff_getElem?.1 hitem
    rw [List.getElem?_take] at hget
    split at hget
    · exact h item.2 item.1 hget ‹_› s
    · exact absurd hget (by simp)
  have hput := Agree.foldlM (f := fun s (item : Node × Nat) => r.put item.2 item.1 s)
    (Prod.map Prod.fst id) (Prod.map Prod.snd id) hitems r.empty
  simp only [ofItems, ← List.map_take, List.zipIdx_map, List.length_map]
  exact hput.bind fun s => Agree.refl _

theorem putEntry_of_named {s t : σ} {k : String} {i : Nat} {n : Node}
    (hk : Key.named r.fields k = .field i) (hs : r.has s i = false) (hput : r.put i n s = .ok t) :
    r.putEntry dialect s (Node.keyed (k, n)) = .ok t := by
  rw [putEntry_eq_ok, hk]
  exact ⟨hs, hput⟩

theorem read_object_eq_ok {entries : List (String × Node)} {a : α} :
    r.read dialect (.object entries) = .ok a ↔
      r.ofEntries dialect (entries.map Node.keyed) none = .ok a := by
  cases dialect with
  | streamed => exact locate_eq_ok
  | onDemand => exact locate_eq_ok
  | buffered => exact locate_eq_ok

theorem read_object_of_foldlM {entries : List (String × Node)} {t : σ} {a : α}
    (h : (entries.map Node.keyed).foldlM (r.putEntry dialect) r.empty = .ok t)
    (hfinish : r.finish t = .ok a) : r.read dialect (.object entries) = .ok a := by
  rw [read_object_eq_ok]
  simp only [ofEntries, h, Node.finished, hfinish, bind, Except.bind, pure, Except.pure]

/-- An object is read alike with its entries in any order and others among them. -/
theorem Lawful.read_arranged (hr : r.Lawful) {entries arranged : List (String × Node)}
    {new : List (String × Json)} {a : α} (hnew : ∀ e ∈ new, e.1 ∉ r.fields)
    (harranged : arranged.Perm (entries ++ new.map Node.valued))
    (h : r.read dialect (.object entries) = .ok a) :
    r.read dialect (.object arranged) = .ok a := by
  have hsame : ∀ c ∈ entries.map Change.same, c.before = c.after := by
    intro c hc
    obtain ⟨e, _, rfl⟩ := List.mem_map.1 hc
    rfl
  rw [← Change.map_new_same entries] at harranged
  have hagree : Agree (r.ofEntries dialect (((entries.map Change.same).map Change.old).map
      Node.keyed) none) (r.ofEntries dialect (arranged.map Node.keyed) none) :=
    hr.agree_ofEntries (fun c hc => hsame c hc ▸ .refl _)
      (fun c hc i s _ => hsame c hc ▸ .refl _) hnew harranged
  rw [Change.map_old_same] at hagree
  rw [read_object_eq_ok] at h ⊢
  exact (hagree a).1 h

section Map

variable {β : Type} (f : α → β) (r : Record σ α) (dialect : Dialect)

def map : Record σ β where
  expected := r.expected
  slots := r.slots
  empty := r.empty
  finish s := (r.finish s).map f

theorem ofEntries_map (entries : List (Node × Node)) (stop : Option Failure) :
    (r.map f).ofEntries dialect entries stop = (r.ofEntries dialect entries stop).map f := by
  have hfold : entries.foldlM ((r.map f).putEntry dialect) (r.map f).empty =
      entries.foldlM (r.putEntry dialect) r.empty := rfl
  simp only [ofEntries, hfold, bind, Except.bind]
  cases entries.foldlM (r.putEntry dialect) r.empty with
  | error e => rfl
  | ok s =>
    cases stop with
    | some failure => rfl
    | none =>
      simp only [map, Node.finished]
      cases r.finish s <;> rfl

theorem ofItems_map (items : List Node) (stop : Option Failure) :
    (r.map f).ofItems dialect items stop = (r.ofItems dialect items stop).map f := by
  have hput : (r.map f).put = r.put := rfl
  have hempty : (r.map f).empty = r.empty := rfl
  have hfields : (r.map f).fields = r.fields := rfl
  have hfinish (s : σ) : (r.map f).finish s = (r.finish s).map f := rfl
  simp only [ofItems, hput, hempty, hfields, hfinish, bind, Except.bind]
  generalize (((items.take r.fields.length).zipIdx).foldlM _ r.empty : Reading σ) = read
  cases read with
  | error e => rfl
  | ok s =>
    dsimp only
    cases r.finish s <;> cases stop <;> simp only [Except.map, Node.finished] <;> split_ifs <;> rfl

theorem read_map (n : Node) : (r.map f).read dialect n = (r.read dialect n).map f := by
  have hexpected : (r.map f).expected = r.expected := rfl
  have honDemand : (r.map f).readOnDemand n = (r.readOnDemand n).map f := by
    simp only [readOnDemand, ofEntries_map, locate_map, hexpected]
    split
    · rfl
    · rfl
    · split <;> rfl
  have htyped : (r.map f).readTyped dialect n = (r.readTyped dialect n).map f := by
    cases n with
    | mapping => exact ofEntries_map ..
    | sequence => exact ofItems_map ..
    | _ => rfl
  rw [read, read, honDemand, htyped, ← apply_ite (Except.map f), locate_map]

end Map

end Record
end Document
end CoverageQuery
