import CoverageQuery.Command.Arguments
import CoverageQuery.Proofs.Outcome

/-!
# Levels with one more key

A level of the arguments is read argument by argument. What an argument does depends on what is given so
far and on where reading stands: among options, one of which may wait for its value, or behind the
separator, where there are only words. So a level with one more key reads arguments that are not about
that key as a level without it does, and an option with that key can be left out wherever it stands
without a change to the rest.
-/
namespace CoverageQuery.Arguments

def Shape.names (shape : Shape) (k : Key) : Bool :=
  match shape with
  | long name _ => k.name.toList = name
  | short letter _ => k.letter? = some letter
  | _ => false

namespace Given

def without (g : Given) (k : Key) : Given := { g with values := g.values.filter (·.1 ≠ k) }

variable {k k' : Key}

theorem has_without (h : k' ≠ k) (g : Given) : (g.without k).has k' = g.has k' := by
  have hboth (v : Key × String) : (decide (v.1 ≠ k) && decide (v.1 = k')) = decide (v.1 = k') := by
    by_cases hv : v.1 = k' <;> simp [hv, h]
  simp only [has, without, List.any_filter, hboth]

theorem all_without (h : k' ≠ k) (g : Given) : (g.without k).all k' = g.all k' := by
  have hboth (v : Key × String) : (decide (v.1 = k') && decide (v.1 ≠ k)) = decide (v.1 = k') := by
    by_cases hv : v.1 = k' <;> simp [hv, h]
  simp only [all, without, List.filter_filter, hboth]

theorem get?_without (h : k' ≠ k) (g : Given) : (g.without k).get? k' = g.get? k' := by
  show (g.values.filter (·.1 ≠ k)).lookup k' = g.values.lookup k'
  induction g.values with
  | nil => rfl
  | cons v values ih =>
    obtain ⟨key, value⟩ := v
    by_cases hkey : key = k
    · subst hkey
      have hother : (k' == key) = false := beq_false_of_ne h
      rw [List.filter_cons_of_neg (by simp), ih, List.lookup_cons, hother]
    · rw [List.filter_cons_of_pos (by simpa using hkey), List.lookup_cons, List.lookup_cons, ih]

theorem flags_without (g : Given) : (g.without .output).flags = g.flags := by
  simp only [flags, all_without, get?_without, ne_eq, reduceCtorEq, not_false_eq_true]

theorem put_without (h : k' ≠ k) (g : Given) (value : String) :
    (g.without k).put k' value = (g.put k' value).map (·.without k) := by
  unfold put
  rw [has_without h]
  split
  · rfl
  · split
    · rfl
    · simp [without, Except.map, List.filter_append, h]

theorem put_cases (g : Given) (k : Key) (value : String) :
    g.put k value = .error .usage ∨
      ∃ g', g.put k value = .ok g' ∧ g'.without k = g.without k := by
  unfold put
  split
  · exact .inl rfl
  · split
    · exact .inl rfl
    · exact .inr ⟨_, rfl, by simp [without, List.filter_append]⟩

theorem words_foldl (args : List String) (g : Given) :
    (args.foldl putWord g).words = g.words ++ args := by
  induction args generalizing g with
  | nil => simp
  | cons arg args ih =>
    rw [List.foldl_cons, ih, putWord]
    simp

end Given

inductive Place where
  | options (waiting : Option Key)
  | words
  deriving DecidableEq

structure Standing where
  given : Given
  place : Place

namespace Standing

def advance (keys : List Key) (limit : Nat) (s : Standing) (arg : String) : Except Stop Standing :=
  match s.place with
  | .words => .ok ⟨s.given.putWord arg, .words⟩
  | .options waiting =>
    match Shape.of arg.toList, waiting with
    | .word, some k => (s.given.put k arg).map fun g => ⟨g, .options none⟩
    | _, some _ => .error .usage
    | .word, none =>
      if s.given.words.length < limit then .ok ⟨s.given.putWord arg, .options none⟩
      else .error .usage
    | .separator, none => .ok ⟨s.given, .words⟩
    | shape, none => (takeOption keys s.given shape).map fun next => ⟨next.1, .options next.2⟩

def settle (s : Standing) : Except Stop (Given × Option (Verb × List String)) :=
  match s.place with
  | .options (some _) => .error .usage
  | _ => .ok (s.given, none)

def without (s : Standing) (k : Key) : Standing := { s with given := s.given.without k }

end Standing

def Standing.resume (keys : List Key) (verbs : Bool) (limit : Nat) (args : List String)
    (s : Standing) :
    Except Stop (Given × Option (Verb × List String)) :=
  match s.place with
  | .options waiting => scan keys verbs limit s.given waiting args
  | .words => .ok (args.foldl Given.putWord s.given, none)

theorem scan_cons {keys : List Key} {verbs : Bool} {limit : Nat} {g : Given} {waiting : Option Key}
    {arg : String}
    (h : waiting = none → Shape.of arg.toList = .word → verbs = true → Verb.ofName? arg = none)
    (args : List String) :
    scan keys verbs limit g waiting (arg :: args) =
      Standing.advance keys limit ⟨g, .options waiting⟩ arg >>=
        Standing.resume keys verbs limit args := by
  simp only [scan, Standing.advance]
  cases waiting with
  | some k =>
    cases Shape.of arg.toList with
    | word =>
      dsimp only
      cases g.put k arg <;> rfl
    | separator | long | short => rfl
  | none =>
    cases hshape : Shape.of arg.toList with
    | word =>
      have hnone : (if verbs = true then Verb.ofName? arg else none) = none := by
        split
        · exact h rfl hshape ‹_›
        · rfl
      simp only [hnone]
      split <;> rfl
    | separator => rfl
    | long name value =>
      dsimp only
      cases takeOption keys g (.long name value) <;> rfl
    | short letter rest =>
      dsimp only
      cases takeOption keys g (.short letter rest) <;> rfl

theorem foldlM_words (keys : List Key) (limit : Nat) (g : Given) (args : List String) :
    args.foldlM (Standing.advance keys limit) ⟨g, .words⟩ = .ok ⟨args.foldl Given.putWord g, .words⟩ := by
  induction args generalizing g with
  | nil => rfl
  | cons arg args ih => exact ih (g.putWord arg)

theorem scan_eq_foldlM (keys : List Key) (limit : Nat) (g : Given) (waiting : Option Key)
    (args : List String) :
    scan keys false limit g waiting args =
      args.foldlM (Standing.advance keys limit) ⟨g, .options waiting⟩ >>= Standing.settle := by
  induction args generalizing g waiting with
  | nil => cases waiting <;> rfl
  | cons arg args ih =>
    have hresume (s : Standing) : s.resume keys false limit args =
        args.foldlM (Standing.advance keys limit) s >>= Standing.settle := by
      obtain ⟨g', place⟩ := s
      cases place with
      | options waiting' => exact ih g' waiting'
      | words =>
        rw [foldlM_words]
        rfl
    rw [scan_cons (by simp), List.foldlM_cons]
    cases Standing.advance keys limit ⟨g, .options waiting⟩ arg with
    | error e => rfl
    | ok s => exact hresume s

section

variable {keys : List Key} {limit : Nat} {k : Key}

theorem take_without {k' : Key} (h : k' ≠ k) (g : Given) (value : Option (List Char)) :
    take (g.without k) k' value = (take g k' value).map fun next => (next.1.without k, next.2) := by
  have hput (text : String) : ((g.without k).put k' text).map (fun g => (g, (none : Option Key))) =
      ((g.put k' text).map fun g => (g, none)).map fun next => (next.1.without k, next.2) := by
    rw [Given.put_without h]
    cases g.put k' text <;> rfl
  unfold take
  cases value with
  | some text =>
    dsimp only
    split
    · exact hput _
    · rfl
  | none =>
    dsimp only
    split
    · rfl
    · split
      · rfl
      · exact hput _

theorem waiting_of_take {g : Given} {k' : Key} {value : Option (List Char)} {next : Next}
    (h : take g k' value = .ok next) : next.2 = none ∨ next.2 = some k' := by
  have hput {text : String} (h : (g.put k' text).map (fun g => (g, (none : Option Key))) = .ok next) :
      next.2 = none := by
    obtain ⟨g', _, rfl⟩ := Outcome.map_eq_ok.1 h
    rfl
  unfold take at h
  cases value with
  | some text =>
    dsimp only at h
    split at h
    · exact .inl (hput h)
    · exact absurd h (by simp)
  | none =>
    dsimp only at h
    split at h
    · exact .inr (congrArg Prod.snd (Except.ok.inj h)).symm
    · split at h
      · exact absurd h (by simp)
      · exact .inl (hput h)

def Shape.attached? (shape : Shape) (k : Key) : Option (List Char) :=
  match shape with
  | long _ value => value
  | short _ rest => Arguments.attached? k rest
  | _ => none

theorem takeOption_eq (keys : List Key) (g : Given) (shape : Shape) :
    takeOption keys g shape =
      match keys.find? shape.names with
      | some k => take g k (shape.attached? k)
      | none => .error .usage := by
  cases shape with
  | long | short => rfl
  | word =>
    have hnone : keys.find? Shape.word.names = none := List.find?_eq_none.2 (by simp [Shape.names])
    simp only [takeOption, hnone]
  | separator =>
    have hnone : keys.find? Shape.separator.names = none :=
      List.find?_eq_none.2 (by simp [Shape.names])
    simp only [takeOption, hnone]

theorem ne_of_find?_names {shape : Shape} {k' : Key} (h : shape.names k = false)
    (hfind : keys.find? shape.names = some k') : k' ≠ k := by
  rintro rfl
  have hnames : shape.names k' = true := List.find?_some hfind
  exact absurd (h.symm.trans hnames) Bool.noConfusion

theorem takeOption_without {shape : Shape} (h : shape.names k = false) (g : Given) :
    takeOption keys (g.without k) shape =
      (takeOption (keys ++ [k]) g shape).map fun next => (next.1.without k, next.2) := by
  have hfind : (keys ++ [k]).find? shape.names = keys.find? shape.names := by
    rw [List.find?_append, List.find?_cons_of_neg (by simp [h]), List.find?_nil, Option.or_none]
  rw [takeOption_eq, takeOption_eq, hfind]
  cases hk : keys.find? shape.names with
  | none => rfl
  | some k' => exact take_without (ne_of_find?_names h hk) g _

theorem waiting_of_takeOption {shape : Shape} (h : shape.names k = false) {g : Given} {next : Next}
    (hnext : takeOption keys g shape = .ok next) : next.2 ≠ some k := by
  rw [takeOption_eq] at hnext
  cases hk : keys.find? shape.names with
  | none =>
    rw [hk] at hnext
    exact absurd hnext (by simp)
  | some k' =>
    rw [hk] at hnext
    rcases waiting_of_take hnext with hwaiting | hwaiting
    · simp [hwaiting]
    · simpa [hwaiting] using ne_of_find?_names h hk

namespace Standing

theorem advance_without {s : Standing} {arg : String} (h : (Shape.of arg.toList).names k = false)
    (hs : s.place ≠ .options (some k)) :
    (s.without k).advance keys limit arg = (s.advance (keys ++ [k]) limit arg).map (·.without k) := by
  obtain ⟨g, place⟩ := s
  cases place with
  | words => rfl
  | options waiting =>
    cases waiting with
    | some k' =>
      have hne : k' ≠ k := fun hk => hs (hk ▸ rfl)
      simp only [advance, without]
      cases Shape.of arg.toList with
      | word =>
        dsimp only
        rw [Given.put_without hne]
        cases g.put k' arg <;> rfl
      | separator | long | short => rfl
    | none =>
      simp only [advance, without]
      cases hshape : Shape.of arg.toList with
      | word =>
        show (if g.words.length < limit then Except.ok _ else .error Stop.usage) =
          Except.map _ (if g.words.length < limit then _ else _)
        split <;> rfl
      | separator => rfl
      | long | short =>
        rw [hshape] at h
        dsimp only
        rw [takeOption_without h]
        cases takeOption (keys ++ [k]) g _ <;> rfl

theorem place_of_advance {s s' : Standing} {arg : String}
    (h : (Shape.of arg.toList).names k = false) (hnext : s.advance keys limit arg = .ok s') :
    s'.place ≠ .options (some k) := by
  obtain ⟨g, place⟩ := s
  cases place with
  | words =>
    rw [← Except.ok.inj hnext]
    exact Place.noConfusion
  | options waiting =>
    cases waiting with
    | some k' =>
      simp only [advance] at hnext
      cases hshape : Shape.of arg.toList with
      | word =>
        rw [hshape] at hnext
        obtain ⟨g', _, rfl⟩ := Outcome.map_eq_ok.1 hnext
        simp
      | separator | long | short =>
        rw [hshape] at hnext
        exact absurd hnext (by simp)
    | none =>
      simp only [advance] at hnext
      cases hshape : Shape.of arg.toList with
      | word =>
        rw [hshape] at hnext
        obtain ⟨_, hnext⟩ := (ite_eq_iff.1 hnext).resolve_right (by simp)
        rw [← Except.ok.inj hnext]
        simp
      | separator =>
        rw [hshape] at hnext
        rw [← Except.ok.inj hnext]
        simp
      | long | short =>
        rw [hshape] at h hnext
        obtain ⟨next, hoption, rfl⟩ := Outcome.map_eq_ok.1 hnext
        simpa using waiting_of_takeOption h hoption

theorem foldlM_without {args : List String}
    (h : ∀ arg ∈ args, (Shape.of arg.toList).names k = false) {s : Standing}
    (hs : s.place ≠ .options (some k)) :
    args.foldlM (advance keys limit) (s.without k) =
      (args.foldlM (advance (keys ++ [k]) limit) s).map (·.without k) := by
  induction args generalizing s with
  | nil => rfl
  | cons arg args ih =>
    rw [List.forall_mem_cons] at h
    rw [List.foldlM_cons, List.foldlM_cons, advance_without h.1 hs]
    cases hnext : s.advance (keys ++ [k]) limit arg with
    | error e => rfl
    | ok s' => exact ih h.2 (place_of_advance h.1 hnext)

theorem place_of_foldlM {args : List String}
    (h : ∀ arg ∈ args, (Shape.of arg.toList).names k = false) {s s' : Standing}
    (hs : s.place ≠ .options (some k)) (hlast : args.foldlM (advance keys limit) s = .ok s') :
    s'.place ≠ .options (some k) := by
  induction args generalizing s with
  | nil => exact Except.ok.inj hlast ▸ hs
  | cons arg args ih =>
    rw [List.forall_mem_cons] at h
    rw [List.foldlM_cons] at hlast
    obtain ⟨next, hnext, hrest⟩ := Outcome.bind_eq_ok.1 hlast
    exact ih h.2 (place_of_advance h.1 hnext) hrest

theorem settle_without (s : Standing) :
    (s.without k).settle = s.settle.map fun r => (r.1.without k, r.2) := by
  obtain ⟨g, place⟩ := s
  cases place with
  | words => rfl
  | options waiting => cases waiting <;> rfl

end Standing

theorem Key.eq_of_name_eq {k k' : Key} (h : k.name = k'.name) : k = k' := by
  cases k <;> cases k' <;> first | rfl | exact absurd h (by decide)

theorem Key.eq_of_letter?_eq {k k' : Key} (hk : k.letter?.isSome) (h : k.letter? = k'.letter?) :
    k = k' := by
  cases k <;> first | exact absurd hk (by decide) | skip
  all_goals cases k' <;> first | rfl | exact absurd h (by decide)

theorem Shape.eq_of_names {shape : Shape} {k k' : Key} (h : shape.names k = true)
    (h' : shape.names k' = true) : k = k' := by
  cases shape with
  | long name value =>
    have hname : k.name.toList = k'.name.toList :=
      (of_decide_eq_true h).trans (of_decide_eq_true h').symm
    exact Key.eq_of_name_eq (String.toList_inj.1 hname)
  | short letter rest =>
    have hk : k.letter? = some letter := of_decide_eq_true h
    have hk' : k'.letter? = some letter := of_decide_eq_true h'
    exact Key.eq_of_letter?_eq (hk ▸ rfl) (hk.trans hk'.symm)
  | word | separator => exact absurd h (by simp [names])

theorem takeOption_of_names {shape : Shape} (h : shape.names k = true) (g : Given) :
    takeOption (keys ++ [k]) g shape = take g k (shape.attached? k) := by
  rw [takeOption_eq]
  cases hfind : (keys ++ [k]).find? shape.names with
  | none => exact absurd (List.find?_eq_none.1 hfind k (by simp)) (by simp [h])
  | some k' =>
    have hk' : shape.names k' = true := List.find?_some hfind
    rw [Shape.eq_of_names hk' h]

inductive Optionally (k : Key) : List String → Prop
  | absent : Optionally k []
  | joined {arg : String} (value : List Char) (names : (Shape.of arg.toList).names k = true)
      (attached : (Shape.of arg.toList).attached? k = some value) : Optionally k [arg]
  | apart {arg : String} (value : String) (names : (Shape.of arg.toList).names k = true)
      (attached : (Shape.of arg.toList).attached? k = none) : Optionally k [arg, value]

namespace Standing

theorem advance_waiting (keys : List Key) (limit : Nat) {arg : String}
    (h : (Shape.of arg.toList).names k = true) (g : Given) (waiting : Key) :
    advance keys limit ⟨g, .options (some waiting)⟩ arg = .error .usage := by
  simp only [advance]
  cases hshape : Shape.of arg.toList with
  | word => exact absurd (hshape ▸ h) (by simp [Shape.names])
  | separator | long | short => rfl

theorem advance_option {arg : String} (h : (Shape.of arg.toList).names k = true) (g : Given) :
    advance (keys ++ [k]) limit ⟨g, .options none⟩ arg =
      (take g k ((Shape.of arg.toList).attached? k)).map
        fun next => ⟨next.1, .options next.2⟩ := by
  rw [← takeOption_of_names h]
  simp only [advance]
  cases hshape : Shape.of arg.toList with
  | word | separator => exact absurd (hshape ▸ h) (by simp [Shape.names])
  | long | short => rfl

theorem advance_value (keys : List Key) (limit : Nat) (g : Given) (value : String) :
    advance keys limit ⟨g, .options (some k)⟩ value = .error .usage ∨
      ∃ g', advance keys limit ⟨g, .options (some k)⟩ value = .ok ⟨g', .options none⟩ ∧
        g'.without k = g.without k := by
  simp only [advance]
  cases Shape.of value.toList with
  | word =>
    rcases g.put_cases k value with h | ⟨g', h, hg'⟩
    · exact .inl (by simp only [h, Except.map])
    · exact .inr ⟨g', by simp only [h, Except.map], hg'⟩
  | separator | long | short => exact .inl rfl

/-- An option about a key is wrong where it stands, or it is made of words, or nothing changes apart
from its key. -/
theorem foldlM_optionally (keys : List Key) (limit : Nat) {option : List String}
    (h : Optionally k option) (hk : k.hasValue = true) (s : Standing) :
    option.foldlM (advance (keys ++ [k]) limit) s = .error .usage ∨
      ∃ s', option.foldlM (advance (keys ++ [k]) limit) s = .ok s' ∧
        (s'.without k = s.without k ∨ s'.place = .words ∧ s'.given.words ≠ []) := by
  obtain ⟨g, place⟩ := s
  cases place with
  | words =>
    rw [foldlM_words]
    refine .inr ⟨_, rfl, ?_⟩
    cases option with
    | nil => exact .inl rfl
    | cons arg rest =>
      refine .inr ⟨rfl, ?_⟩
      rw [Given.words_foldl]
      exact List.append_ne_nil_of_right_ne_nil _ (List.cons_ne_nil arg rest)
  | options waiting =>
    cases h with
    | absent => exact .inr ⟨_, rfl, .inl rfl⟩
    | joined value names attached =>
      rw [List.foldlM_cons]
      cases waiting with
      | some waiting =>
        rw [advance_waiting _ _ names]
        exact .inl rfl
      | none =>
        rw [advance_option names, attached]
        simp only [take, hk, if_true]
        rcases g.put_cases k (String.ofList value) with hput | ⟨g', hput, hg'⟩
        · rw [hput]
          exact .inl rfl
        · rw [hput]
          exact .inr ⟨⟨g', .options none⟩, rfl, .inl (by simp only [without, hg'])⟩
    | apart value names attached =>
      rw [List.foldlM_cons]
      cases waiting with
      | some waiting =>
        rw [advance_waiting _ _ names]
        exact .inl rfl
      | none =>
        rw [advance_option names, attached]
        simp only [take, hk, if_true]
        -- The option waits for its value, which is the only argument that is left.
        show advance (keys ++ [k]) limit ⟨g, .options (some k)⟩ value >>= pure = _ ∨
          ∃ s', advance (keys ++ [k]) limit ⟨g, .options (some k)⟩ value >>= pure = _ ∧ _
        rcases advance_value (keys ++ [k]) limit g value with hvalue | ⟨g', hvalue, hg'⟩
        · rw [hvalue]
          exact .inl rfl
        · rw [hvalue]
          exact .inr ⟨⟨g', .options none⟩, rfl, .inl (by simp only [without, hg'])⟩

end Standing

/-- A level is read alike with an option and without it, unless the option is wrong where it stands or
leaves words behind. -/
theorem scan_optionally (keys : List Key) (limit : Nat) {before option after : List String} (hk : k.hasValue = true)
    (hbefore : ∀ arg ∈ before, (Shape.of arg.toList).names k = false) (hoption : Optionally k option)
    (hafter : ∀ arg ∈ after, (Shape.of arg.toList).names k = false) :
    let whole := scan (keys ++ [k]) false limit {} none (before ++ option ++ after)
    whole = .error .usage ∨ (∃ own, whole = .ok (own, none) ∧ own.words ≠ []) ∨
      scan keys false limit {} none (before ++ after) = whole.map fun r => (r.1.without k, r.2) := by
  intro whole
  let start : Standing := ⟨{}, .options none⟩
  have hwhole : whole = ((before.foldlM (Standing.advance (keys ++ [k]) limit) start >>= fun s =>
      option.foldlM (Standing.advance (keys ++ [k]) limit) s) >>= fun s =>
        after.foldlM (Standing.advance (keys ++ [k]) limit) s) >>= Standing.settle := by
    rw [← List.foldlM_append, ← List.foldlM_append]
    exact scan_eq_foldlM _ _ _ _ _
  have hrest : scan keys false limit {} none (before ++ after) =
      (before.foldlM (Standing.advance keys limit) (start.without k) >>= fun s =>
        after.foldlM (Standing.advance keys limit) s) >>= Standing.settle := by
    rw [← List.foldlM_append]
    exact scan_eq_foldlM _ _ _ _ _
  have hstart : start.place ≠ .options (some k) := by simp [start]
  rw [hwhole, hrest, Standing.foldlM_without hbefore hstart]
  cases hfront : before.foldlM (Standing.advance (keys ++ [k]) limit) start with
  | error e => exact .inr (.inr rfl)
  | ok s =>
    have hs := Standing.place_of_foldlM hbefore hstart hfront
    have hok : (Except.ok s : Except Stop Standing).map (·.without k) = .ok (s.without k) := rfl
    simp only [hok, bind, Except.bind]
    -- Words that the option leaves behind stay there whatever follows; otherwise the rest is read from
    -- a state that differs in the key only.
    rcases Standing.foldlM_optionally keys limit hoption hk s with hwrong | ⟨s', hs', hcase⟩
    · rw [hwrong]
      exact .inl rfl
    · rw [hs']
      rcases hcase with hsame | ⟨hplace, hwords⟩
      · have hs'place : s'.place ≠ .options (some k) := by
          have hplace : (s'.without k).place = (s.without k).place := by rw [hsame]
          exact hplace ▸ hs
        refine .inr (.inr ?_)
        rw [← hsame, Standing.foldlM_without hafter hs'place]
        dsimp only
        cases after.foldlM (Standing.advance (keys ++ [k]) limit) s' with
        | error e => rfl
        | ok last => exact last.settle_without
      · obtain ⟨g, place⟩ := s'
        obtain rfl : place = .words := hplace
        refine .inr (.inl ⟨after.foldl Given.putWord g, ?_, ?_⟩)
        · dsimp only
          rw [foldlM_words]
          rfl
        · rw [Given.words_foldl]
          exact List.append_ne_nil_of_left_ne_nil hwords _

end

end CoverageQuery.Arguments
