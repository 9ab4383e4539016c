import CoverageQuery.Proofs.Command.Reading
import CoverageQuery.Proofs.Number.DecimalText
import CoverageQuery.Proofs.Text.Cut

/-!
# How a subset is written

A subset is written as an axis, an equals sign and one bound or two with a colon between them. A bound
is a core with blanks around it: a text in double quotes that holds no quote itself, or a bare text that
neither begins nor ends with a blank and holds neither a quote nor a colon. A flag is read as a subset
exactly if it is written so. It is written so in one way only, and that way says what is read.
-/
namespace CoverageQuery

open Text

structure Text.Bare (chars : List Char) : Prop where
  ne_nil : chars ≠ []
  first : ∀ c ∈ chars.head?, isBlank c = false
  last : ∀ c ∈ chars.getLast?, isBlank c = false
  quote : '"' ∉ chars
  colon : ':' ∉ chars

/-- What a bound is without the blanks around it. -/
inductive BoundCore where
  | quoted (inner : List Char) (quote : '"' ∉ inner)
  | bare (chars : List Char) (isBare : Bare chars)

namespace BoundCore

def text : BoundCore → List Char
  | quoted inner _ => '"' :: (inner ++ ['"'])
  | bare chars _ => chars

def coordinate : BoundCore → Coordinate
  | quoted inner _ => .text (String.ofList inner)
  | bare chars _ =>
    if chars = ['*'] then .raw "*"
    else
      match Integer.readInt64? chars with
      | some n => .integer n
      | none =>
        match Binary64.readFinite? chars with
        | some x => .float x
        | none => .text (String.ofList chars)

theorem text_ne_nil (core : BoundCore) : core.text ≠ [] := by
  cases core with
  | quoted inner quote => exact List.cons_ne_nil _ _
  | bare chars isBare => exact isBare.ne_nil

theorem head?_text (core : BoundCore) : ∀ c ∈ core.text.head?, isBlank c = false := by
  cases core with
  | quoted inner quote =>
    intro c hc
    obtain rfl := Option.some.inj hc
    decide
  | bare chars isBare => exact isBare.first

theorem getLast?_text (core : BoundCore) : ∀ c ∈ core.text.getLast?, isBlank c = false := by
  cases core with
  | quoted inner quote =>
    intro c hc
    rw [text, ← List.cons_append, List.getLast?_concat] at hc
    obtain rfl := Option.some.inj hc
    decide
  | bare chars isBare => exact isBare.last

theorem closed_text (core : BoundCore) : Closed ':' core.text := by
  cases core with
  | quoted inner quote => exact closed_quoted ':' quote
  | bare chars isBare => exact closed_of_notMem isBare.quote isBare.colon

theorem text_injective {core core' : BoundCore} (h : core.text = core'.text) : core = core' := by
  have hquote {inner : List Char} : '"' ∈ '"' :: (inner ++ ['"']) := List.mem_cons_self
  cases core with
  | quoted inner quote =>
    cases core' with
    | quoted inner' quote' =>
      obtain rfl : inner = inner' := by simpa [text] using h
      rfl
    | bare chars isBare =>
      simp only [text] at h
      exact absurd (h ▸ hquote) isBare.quote
  | bare chars isBare =>
    cases core' with
    | quoted inner quote =>
      simp only [text] at h
      exact absurd (h ▸ hquote) isBare.quote
    | bare chars' isBare' =>
      obtain rfl : chars = chars' := h
      rfl

end BoundCore

structure WrittenBound where
  before : List Char
  core : BoundCore
  after : List Char
  before_blank : ∀ c ∈ before, isBlank c = true
  after_blank : ∀ c ∈ after, isBlank c = true

namespace WrittenBound

def text (b : WrittenBound) : List Char := b.before ++ (b.core.text ++ b.after)

theorem trim_text (b : WrittenBound) : trim b.text = b.core.text :=
  trim_enclosed b.before_blank b.after_blank b.core.text_ne_nil b.core.head?_text
    b.core.getLast?_text

theorem takeWhile_text (b : WrittenBound) : b.text.takeWhile isBlank = b.before := by
  obtain ⟨c, rest, hcore⟩ := List.exists_cons_of_ne_nil b.core.text_ne_nil
  have hfirst : isBlank c = false := b.core.head?_text c (by rw [hcore]; rfl)
  rw [text, hcore, List.takeWhile_append_of_pos b.before_blank, List.cons_append,
    List.takeWhile_cons_of_neg (by simp [hfirst]), List.append_nil]

theorem text_injective {b b' : WrittenBound} (h : b.text = b'.text) : b = b' := by
  have hcore : b.core = b'.core := BoundCore.text_injective (by rw [← trim_text, h, trim_text])
  have hbefore : b.before = b'.before := by rw [← takeWhile_text, h, takeWhile_text]
  obtain ⟨before, core, after, hb, ha⟩ := b
  obtain ⟨before', core', after', hb', ha'⟩ := b'
  obtain rfl : core = core' := hcore
  obtain rfl : before = before' := hbefore
  obtain rfl : after = after' := List.append_cancel_left (List.append_cancel_left h)
  rfl

theorem closed_of_blank {blanks : List Char} (h : ∀ c ∈ blanks, isBlank c = true) :
    Closed ':' blanks :=
  closed_of_notMem (fun hc => absurd (h _ hc) (by decide)) fun hc => absurd (h _ hc) (by decide)

theorem closed_text (b : WrittenBound) : Closed ':' b.text :=
  (closed_of_blank b.before_blank).append
    (b.core.closed_text.append (closed_of_blank b.after_blank))

end WrittenBound

theorem Quantity.mem_of_read? {cs : List Char} {n : Quantity} (h : read? cs = some n) {c : Char}
    (hc : c ∈ cs) : c.isDigit = true ∨ c ∈ ['.', '+', '-', 'e', 'E'] ∨
      c.toLower ∈ Binary64.wordLetters := by
  rcases Option.or_eq_some_iff.1 h with h | ⟨_, h⟩
  · obtain ⟨i, hi, _⟩ := Option.map_eq_some_iff.1 h
    obtain ⟨k, hk, _⟩ := Option.bind_eq_some_iff.1 hi
    have hsigns : ['+', '-'] ⊆ ['.', '+', '-', 'e', 'E'] := by decide
    exact (Integer.mem_of_readInt? hk hc).imp_right fun hsign => .inl (hsigns hsign)
  · obtain ⟨x, hx, _⟩ := Option.map_eq_some_iff.1 h
    exact Binary64.mem_of_read? (Option.filter_eq_some_iff.1 hx).1 hc

theorem Quantity.quote_notMem_of_read? {cs : List Char} {n : Quantity} (h : read? cs = some n) :
    '"' ∉ cs :=
  fun hc => absurd (mem_of_read? h hc) (by decide)

namespace Coordinate

theorem eq_of_unquoted? {cs inner : List Char} (h : unquoted? cs = some inner) :
    cs = '"' :: (inner ++ ['"']) := by
  unfold unquoted? at h
  split at h
  · rename_i rest
    split at h
    · rename_i hlast
      obtain rfl := Option.some.inj h
      rw [List.dropLast_append_getLast? '"' hlast]
    · exact absurd h (by simp)
  · exact absurd h (by simp)

theorem ofFlag_text (b : WrittenBound) : ofFlag b.text = .ok b.core.coordinate := by
  have hne : b.core.text.isEmpty = false := by simpa using b.core.text_ne_nil
  simp only [ofFlag, b.trim_text, hne, Bool.false_eq_true, if_false]
  cases b.core with
  | quoted inner quote =>
    simp only [BoundCore.text, BoundCore.coordinate, unquoted?_quoted, literal_of_notMem quote]
    rw [if_neg (by simp)]
    rfl
  | bare chars isBare =>
    simp only [BoundCore.text, BoundCore.coordinate, unquoted?_of_notMem isBare.quote,
      literal_of_notMem isBare.quote, Quantity.read?]
    split
    · rfl
    · cases Integer.readInt64? chars with
      | some n => rfl
      | none => cases Binary64.readFinite? chars <;> rfl

theorem exists_core_of_ofFlag {cs : List Char} {c : Coordinate} (h : ofFlag cs = .ok c)
    (hcolon : '"' ∉ cs → ':' ∉ cs) : ∃ core : BoundCore, core.text = trim cs := by
  have hbare (hne : ¬(trim cs).isEmpty = true) (hquote : '"' ∉ trim cs) : Bare (trim cs) :=
    ⟨by simpa using hne, head?_trim cs, getLast?_trim cs, hquote, fun hc =>
      hcolon (fun hmem => hquote (mem_trim_of_mem hmem (by decide))) (mem_of_mem_trim hc)⟩
  have hliteral {cs : List Char}
      (h : (literal (String.ofList cs)).mapError FlagError.query = .ok c) : '"' ∉ cs := by
    simpa using (literal_eq_ok (Outcome.mapError_eq_ok.1 h)).1
  simp only [ofFlag] at h
  split at h
  · exact absurd h (by simp)
  · rename_i hne
    split at h
    · rename_i hstar
      exact ⟨.bare _ (hbare hne (by rw [hstar]; decide)), rfl⟩
    · split at h
      · rename_i inner hinner
        exact ⟨.quoted inner (hliteral h), (eq_of_unquoted? hinner).symm⟩
      · split at h
        · rename_i n hn
          exact ⟨.bare _ (hbare hne (Quantity.quote_notMem_of_read? hn)), rfl⟩
        · exact ⟨.bare _ (hbare hne (hliteral h)), rfl⟩

theorem exists_written_of_ofFlag {cs : List Char} {c : Coordinate} (h : ofFlag cs = .ok c)
    (hcolon : '"' ∉ cs → ':' ∉ cs) : ∃ b : WrittenBound, b.text = cs ∧ b.core.coordinate = c := by
  obtain ⟨core, hcore⟩ := exists_core_of_ofFlag h hcolon
  obtain ⟨before, after, hbefore, hafter, hcs⟩ := exists_trim cs
  let b : WrittenBound := ⟨before, core, after, hbefore, hafter⟩
  have htext : b.text = cs := by rw [← hcs, ← hcore]; rfl
  have hread := ofFlag_text b
  rw [htext, h] at hread
  exact ⟨b, htext, (Except.ok.inj hread).symm⟩

end Coordinate

structure WrittenSubset where
  axis : List Char
  start : WrittenBound
  stop : Option WrittenBound
  axis_equals : '=' ∉ axis
  axis_ne_blank : ∃ c ∈ axis, isBlank c = false

namespace WrittenSubset

def boundsText (w : WrittenSubset) : List Char :=
  match w.stop with
  | none => w.start.text
  | some stop => w.start.text ++ ':' :: stop.text

def text (w : WrittenSubset) : List Char := w.axis ++ '=' :: w.boundsText

def subset (w : WrittenSubset) : Subset where
  axis := String.ofList (trim w.axis)
  start := w.start.core.coordinate
  stop := w.stop.map fun b => b.core.coordinate

def bounds (w : WrittenSubset) : List WrittenBound := w.start :: w.stop.toList

theorem split_boundsText (w : WrittenSubset) :
    splitOutsideQuotes ':' w.boundsText = w.bounds.map WrittenBound.text := by
  obtain ⟨axis, start, stop, equals, blank⟩ := w
  cases stop with
  | none => exact splitOutsideQuotes_closed start.closed_text
  | some stop =>
    simp only [boundsText, bounds]
    rw [splitOutsideQuotes_append (by decide) start.closed_text,
      splitOutsideQuotes_closed stop.closed_text]
    rfl

theorem text_injective {w w' : WrittenSubset} (h : w.text = w'.text) : w = w' := by
  obtain ⟨haxis, hboundsText⟩ := cut_at w.axis_equals w'.axis_equals h
  have hbounds : w.bounds = w'.bounds := by
    have hinjective : Function.Injective WrittenBound.text := fun _ _ => WrittenBound.text_injective
    refine List.map_injective_iff.2 hinjective ?_
    rw [← split_boundsText, ← split_boundsText, hboundsText]
  obtain ⟨axis, start, stop, equals, blank⟩ := w
  obtain ⟨axis', start', stop', equals', blank'⟩ := w'
  obtain ⟨rfl, hstop⟩ := List.cons.inj hbounds
  obtain rfl : axis = axis' := haxis
  obtain rfl : stop = stop' := by
    cases stop <;> cases stop' <;> simp_all
  rfl

end WrittenSubset

namespace Subset

theorem ofFlag_text {text : String} {w : WrittenSubset} (h : w.text = text.toList) :
    ofFlag text = .ok w.subset := by
  have hsplit : splitOnce? '=' text.toList = some (w.axis, w.boundsText) := by
    rw [← h]
    exact splitOnce?_append w.axis_equals _
  have haxis : (trim w.axis).isEmpty = false :=
    List.isEmpty_eq_false_iff.2 (trim_ne_nil_iff.2 w.axis_ne_blank)
  simp only [ofFlag, hsplit, haxis, w.split_boundsText, WrittenSubset.bounds, Bool.false_eq_true,
    if_false]
  obtain ⟨axis, start, stop, equals, blank⟩ := w
  cases stop <;> simp [Coordinate.ofFlag_text, WrittenSubset.subset, bind, Except.bind, pure,
    Except.pure, point, range]

theorem exists_written_of_ofFlag {text : String} {s : Subset} (h : ofFlag text = .ok s) :
    ∃ w : WrittenSubset, w.text = text.toList := by
  simp only [ofFlag] at h
  split at h
  · exact absurd h (by simp)
  · rename_i axis bounds hsplit
    obtain ⟨htext, hequals⟩ := splitOnce?_eq hsplit
    rw [htext]
    split at h
    · exact absurd h (by simp)
    · rename_i haxis
      have hblank : ∃ c ∈ axis, isBlank c = false := trim_ne_nil_iff.1 (by simpa using haxis)
      -- A piece without quotes holds no colon, because the text was cut at each.
      have hpiece {cs : List Char} {c : Coordinate} (hmem : cs ∈ splitOutsideQuotes ':' bounds)
          (hread : Coordinate.ofFlag cs = .ok c) : ∃ b : WrittenBound, b.text = cs := by
        obtain ⟨b, hb, _⟩ := Coordinate.exists_written_of_ofFlag hread
          (notMem_of_splitOutsideQuotes (by decide) hmem)
        exact ⟨b, hb⟩
      have hjoin := intercalate_splitOutsideQuotes ':' bounds
      split at h
      · rename_i start hpieces
        obtain ⟨_, hstart, _⟩ := Outcome.bind_eq_ok.1 h
        obtain ⟨b, rfl⟩ := hpiece (by simp [hpieces]) hstart
        obtain rfl : b.text = bounds := by simpa [hpieces] using hjoin
        exact ⟨⟨axis, b, none, hequals, hblank⟩, rfl⟩
      · rename_i start stop hpieces
        obtain ⟨_, hstart, h⟩ := Outcome.bind_eq_ok.1 h
        obtain ⟨_, hstop, _⟩ := Outcome.bind_eq_ok.1 h
        obtain ⟨b, rfl⟩ := hpiece (by simp [hpieces]) hstart
        obtain ⟨b', rfl⟩ := hpiece (by simp [hpieces]) hstop
        obtain rfl : b.text ++ ':' :: b'.text = bounds := by simpa [hpieces] using hjoin
        exact ⟨⟨axis, b, some b', hequals, hblank⟩, rfl⟩
      · exact absurd h (by simp)

/-- A flag is read as a subset exactly if one is written in it, and then as that one. No two are
written alike. -/
theorem ofFlag_eq_ok_iff_written (text : String) :
    (∀ s, ofFlag text = .ok s ↔ ∃ w : WrittenSubset, w.text = text.toList ∧ w.subset = s) ∧
    ∀ w w' : WrittenSubset, w.text = text.toList → w'.text = text.toList → w = w' := by
  refine ⟨fun s => ⟨fun h => ?_, ?_⟩, fun w w' h h' => ?_⟩
  · obtain ⟨w, hw⟩ := exists_written_of_ofFlag h
    exact ⟨w, hw, Except.ok.inj ((ofFlag_text hw).symm.trans h)⟩
  · rintro ⟨w, hw, rfl⟩
    exact ofFlag_text hw
  · exact WrittenSubset.text_injective (h.trans h'.symm)

def writtenExample : WrittenSubset where
  axis := [' ', 't', ' ']
  start := ⟨[' '], .quoted ['a', ':', 'b'] (by decide), [' '], by simp [isBlank], by simp [isBlank]⟩
  stop := some ⟨[' '], .bare ['*'] ⟨by decide, by simp [isBlank], by simp [isBlank], by decide,
    by decide⟩, [], by simp [isBlank], by simp⟩
  axis_equals := by decide
  axis_ne_blank := ⟨'t', by decide, by decide⟩

theorem ofFlag_eq_ok_iff_written_example :
    ofFlag " t = \"a:b\" : *" = .ok (.range "t" (.text "a:b") .unbounded) ∧
    ∀ w : WrittenSubset, w.text = " t = \"a:b\" : *".toList → w = writtenExample := by
  have htext : writtenExample.text = " t = \"a:b\" : *".toList := by decide
  obtain ⟨hread, hunique⟩ := ofFlag_eq_ok_iff_written " t = \"a:b\" : *"
  exact ⟨(hread _).2 ⟨writtenExample, htext, by decide⟩, fun w hw => hunique w _ hw htext⟩

end Subset
end CoverageQuery
