import CoverageQuery.Proofs.Json.Scalar

/-!
# JSON values read back

The text of a value is read as the tree of the value, whatever follows it that a number cannot go on
with, when its whole numbers have sixty-four bits, its finite floating-point numbers are read back, and
its containers nest within the room given. The induction is over the value; a container leaves less room
for what is in it, and the fuel of the reader, twice the length of the text, is enough because every part
stands between other characters.
-/
namespace CoverageQuery.Json

open Document

mutual

def Fits : Nat → Json → Prop
  | _, integer n => Whole64 n
  | _, float x => isReadBack x = true
  | room, array items => 2 ≤ room ∧ ItemsFit (room - 1) items
  | room, object entries => 2 ≤ room ∧ EntriesFit (room - 1) entries
  | _, _ => True

def ItemsFit : Nat → List Json → Prop
  | _, [] => True
  | room, v :: rest => Fits room v ∧ ItemsFit room rest

def EntriesFit : Nat → List (String × Json) → Prop
  | _, [] => True
  | room, (_, v) :: rest => Fits room v ∧ EntriesFit room rest

end

theorem itemsFit_of_forall {room : Nat} {items : List Json} (h : ∀ v ∈ items, Fits room v) :
    ItemsFit room items := by
  induction items with
  | nil => trivial
  | cons v rest ih =>
    exact ⟨h v List.mem_cons_self, ih fun w hw => h w (List.mem_cons_of_mem _ hw)⟩

theorem fits_optionalEntry {room : Nat} {name : String} {value : Option Json}
    (h : ∀ v, value = some v → Fits room v) : EntriesFit room (optionalEntry name value) := by
  cases value with
  | none => trivial
  | some v => exact ⟨h v rfl, trivial⟩

theorem entriesFit_append {room : Nat} {first second : List (String × Json)}
    (hfirst : EntriesFit room first) (hsecond : EntriesFit room second) :
    EntriesFit room (first ++ second) := by
  induction first with
  | nil => exact hsecond
  | cons entry first ih => exact ⟨hfirst.1, ih hfirst.2⟩

def laterItems (items : List Json) : List Char := items.flatMap fun v => ',' :: v.text

def entryText (entry : String × Json) : List Char := quoted entry.1 ++ ':' :: entry.2.text

def laterEntries (entries : List (String × Json)) : List Char :=
  entries.flatMap fun entry => ',' :: entryText entry

theorem itemsText_cons (v : Json) (rest : List Json) :
    itemsText (v :: rest) = v.text ++ laterItems rest := by
  induction rest generalizing v with
  | nil => simp [itemsText, laterItems]
  | cons w rest ih =>
    rw [itemsText, ih w]
    · rfl
    · exact fun h => List.cons_ne_nil _ _ h

theorem entriesText_cons (entry : String × Json) (rest : List (String × Json)) :
    entriesText (entry :: rest) = entryText entry ++ laterEntries rest := by
  obtain ⟨k, v⟩ := entry
  induction rest generalizing k v with
  | nil => simp [entriesText, laterEntries, entryText]
  | cons next rest ih =>
    obtain ⟨k', v'⟩ := next
    rw [entriesText, ih k' v']
    · simp [laterEntries, entryText]
    · exact fun h => List.cons_ne_nil _ _ h

def Opens (c : Char) : Prop := c.isDigit = true ∨ c ∈ ['-', 'n', 't', 'f', '"', '[', '{']

theorem opens_ne {c d : Char} (h : Opens c) (hdigit : d.isDigit = false)
    (hd : d ∉ ['-', 'n', 't', 'f', '"', '[', '{']) : c ≠ d := by
  rintro rfl
  rcases h with h | h
  · rw [hdigit] at h
    exact Bool.noConfusion h
  · exact hd h

theorem isBlank_of_opens {c : Char} (h : Opens c) : isBlank c = false := by
  have hspace := opens_ne h (d := ' ') rfl (by decide)
  have hline := opens_ne h (d := '\n') rfl (by decide)
  have htab := opens_ne h (d := '\t') rfl (by decide)
  have hreturn := opens_ne h (d := '\r') rfl (by decide)
  simp [isBlank, hspace, hline, htab, hreturn]

theorem spelling_opens {s : Spelling} (hs : s.WellFormed) (signs negative : Bool) :
    ∃ c rest, NumberLayout.signText negative ++ s.text signs = c :: rest ∧
      (c = '-' ∨ c.isDigit = true) := by
  cases negative with
  | true => exact ⟨'-', s.text signs, rfl, .inl rfl⟩
  | false =>
    cases htext : s.text signs with
    | nil => exact absurd htext (Spelling.text_ne_nil hs signs)
    | cons c rest =>
      have hhead : c ∈ (s.text signs).head? := by rw [htext]; rfl
      exact ⟨c, rest, rfl, .inr (Spelling.head?_text hs signs c hhead)⟩

theorem opens_of_number {c : Char} (h : c = '-' ∨ c.isDigit = true) : Opens c := by
  rcases h with rfl | h
  · exact .inr (by decide)
  · exact .inl h

theorem text_opens (v : Json) : ∃ c rest, v.text = c :: rest ∧ Opens c := by
  cases v with
  | null => exact ⟨'n', _, by simp [text]; rfl, .inr (by decide)⟩
  | boolean b =>
    cases b with
    | true => exact ⟨'t', _, by simp [text]; rfl, .inr (by decide)⟩
    | false => exact ⟨'f', _, by simp [text]; rfl, .inr (by decide)⟩
  | integer n =>
    obtain ⟨c, rest, htext, hc⟩ :=
      spelling_opens (wholeSpelling_wellFormed n.natAbs) false (n < 0)
    exact ⟨c, rest, (integerText_eq n).trans htext, opens_of_number hc⟩
  | float x =>
    cases x with
    | finite negative x =>
      obtain ⟨c, rest, htext, hc⟩ :=
        spelling_opens (NumberLayout.stored.spelling_wellFormed x) _ negative
      exact ⟨c, rest, (floatText_finite negative x).trans htext, opens_of_number hc⟩
    | _ => exact ⟨'n', _, by rw [text]; rfl, .inr (by decide)⟩
  | string s => exact ⟨'"', _, rfl, .inr (by decide)⟩
  | array items => exact ⟨'[', _, by rw [text]; rfl, .inr (by decide)⟩
  | object entries => exact ⟨'{', _, by rw [text]; rfl, .inr (by decide)⟩

theorem skipBlanks_cons {c : Char} (h : isBlank c = false) (rest : List Char) :
    skipBlanks (c :: rest) = c :: rest := by
  simp [skipBlanks, h]

theorem readWord_append (word : String) (value : Scalar) (rest : List Char) :
    readWord word value (word.toList ++ rest) = (.scalar value none none, some rest) := by
  simp [readWord, Text.dropStart?]

theorem readValue_number {c : Char} (h : c = '-' ∨ c.isDigit = true) (fuel room : Nat)
    (rest : List Char) : readValue (fuel + 1) room (c :: rest) = readNumber (c :: rest) := by
  have hopens := opens_of_number h
  have hne (d : Char) (hd : d ≠ '-') (hdigit : d.isDigit = false) : c ≠ d := by
    rintro rfl
    rcases h with h | h
    · exact hd h
    · rw [hdigit] at h
      exact Bool.noConfusion h
  have hquote := hne '"' (by decide) rfl
  have hlist := hne '[' (by decide) rfl
  have hobject := hne '{' (by decide) rfl
  have hnull := hne 'n' (by decide) rfl
  have htrue := hne 't' (by decide) rfl
  have hfalse := hne 'f' (by decide) rfl
  simp [readValue, skipBlanks_cons (isBlank_of_opens hopens), *]

theorem readValue_null (fuel room : Nat) (rest : List Char) :
    readValue (fuel + 1) room ("null".toList ++ rest) = (.scalar .null none none, some rest) := by
  have hword := readWord_append "null" .null rest
  simpa [readValue, skipBlanks_cons (show isBlank 'n' = false by decide)] using hword

theorem readValue_boolean (fuel room : Nat) (b : Bool) (rest : List Char) :
    readValue (fuel + 1) room ((if b then "true".toList else "false".toList) ++ rest)
      = (.scalar (.boolean b) none none, some rest) := by
  cases b with
  | true =>
    have hword := readWord_append "true" (.boolean true) rest
    simpa [readValue, skipBlanks_cons (show isBlank 't' = false by decide)] using hword
  | false =>
    have hword := readWord_append "false" (.boolean false) rest
    simpa [readValue, skipBlanks_cons (show isBlank 'f' = false by decide)] using hword

theorem readValue_spelling {s : Spelling} (hs : s.WellFormed) (signs negative : Bool)
    (fuel room : Nat) (rest : List Char) :
    readValue (fuel + 1) room (NumberLayout.signText negative ++ s.text signs ++ rest)
      = readNumber (NumberLayout.signText negative ++ s.text signs ++ rest) := by
  obtain ⟨c, more, htext, hc⟩ := spelling_opens hs signs negative
  rw [htext]
  exact readValue_number hc fuel room (more ++ rest)

theorem readValue_integer {n : Int} (h : Whole64 n) (fuel room : Nat) {rest : List Char}
    (hrest : Ends rest) :
    readValue (fuel + 1) room (integerText n ++ rest)
      = (.scalar (.integer n) none none, some rest) := by
  rw [integerText_eq, readValue_spelling (wholeSpelling_wellFormed _), ← integerText_eq]
  exact readNumber_integerText h hrest

theorem readValue_float {x : Binary64} (h : isReadBack x = true) (fuel room : Nat)
    {rest : List Char} (hrest : Ends rest) :
    readValue (fuel + 1) room (floatText x ++ rest)
      = (.scalar (if x.isFinite then .float x else .null) none none, some rest) := by
  cases x with
  | finite negative x =>
    rw [floatText_finite, readValue_spelling (NumberLayout.stored.spelling_wellFormed x),
      ← floatText_finite]
    exact readNumber_floatText h hrest
  | _ => exact readValue_null fuel room rest

theorem readValue_quote (fuel room : Nat) (cs : List Char) :
    readValue (fuel + 1) room ('"' :: cs) = readString cs := by
  rw [readValue, skipBlanks_cons (by decide)]
  rfl

theorem readValue_string (s : String) (fuel room : Nat) (rest : List Char) :
    readValue (fuel + 1) room (quoted s ++ rest) = (.scalar (.text s) none none, some rest) := by
  have htext : quoted s ++ rest = '"' :: (s.toList.flatMap escape ++ '"' :: rest) := by
    simp [quoted]
  rw [htext, readValue_quote]
  exact readString_text s rest

theorem readItems_close (fuel room : Nat) (first : Bool) (rest : List Char) :
    readItems (fuel + 1) room first (']' :: rest) = ([], none, some rest) := by
  rw [readItems, skipBlanks_cons (by decide)]
  rfl

theorem readEntries_close (fuel room : Nat) (first : Bool) (rest : List Char) :
    readEntries (fuel + 1) room first ('}' :: rest) = ([], none, some rest) := by
  rw [readEntries, skipBlanks_cons (by decide)]
  rfl

def separator (first : Bool) : List Char := if first then [] else [',']

theorem skipBlanks_append {blanks : List Char} (h : ∀ c ∈ blanks, isBlank c = true)
    (cs : List Char) : skipBlanks (blanks ++ cs) = skipBlanks cs :=
  List.dropWhile_append_of_pos h

section Blanks

variable {blanks : List Char} (h : ∀ c ∈ blanks, isBlank c = true) (fuel room : Nat)

include h

theorem readValue_blanks (cs : List Char) :
    readValue fuel room (blanks ++ cs) = readValue fuel room cs := by
  cases fuel with
  | zero => rw [readValue, readValue]
  | succ fuel => rw [readValue, readValue, skipBlanks_append h]

theorem readItems_blanks (first : Bool) (cs : List Char) :
    readItems fuel room first (blanks ++ cs) = readItems fuel room first cs := by
  cases fuel with
  | zero => rw [readItems, readItems]
  | succ fuel => rw [readItems, readItems, skipBlanks_append h]

theorem readEntries_blanks (first : Bool) (cs : List Char) :
    readEntries fuel room first (blanks ++ cs) = readEntries fuel room first cs := by
  cases fuel with
  | zero => rw [readEntries, readEntries]
  | succ fuel => rw [readEntries, readEntries, skipBlanks_append h]

end Blanks

theorem readItems_next {cs more rest : List Char} {fuel room : Nat} {node : Node}
    {nodes : List Node} (hopens : ∃ c rest, cs = c :: rest ∧ Opens c)
    (hv : readValue fuel room (cs ++ more) = (node, some more))
    (hmore : readItems fuel room false more = (nodes, none, some rest)) (first : Bool)
    {blanks : List Char} (hblanks : ∀ c ∈ blanks, isBlank c = true) :
    readItems (fuel + 1) room first (separator first ++ (blanks ++ (cs ++ more)))
      = (node :: nodes, none, some rest) := by
  cases first with
  | false =>
    rw [readItems, separator, if_neg (by decide), List.singleton_append,
      skipBlanks_cons (by decide)]
    simp [readValue_blanks hblanks, hv, hmore]
  | true =>
    rw [separator, if_pos rfl, List.nil_append, readItems_blanks hblanks]
    obtain ⟨c, cs, rfl, hopens⟩ := hopens
    have hclose := opens_ne hopens (d := ']') rfl (by decide)
    rw [List.cons_append] at hv ⊢
    rw [readItems, skipBlanks_cons (isBlank_of_opens hopens)]
    simp [hv, hmore]

theorem readEntries_next {key cs more rest : List Char} {name : String} {fuel room : Nat}
    {node : Node} {nodes : List (Node × Node)}
    (hkey : ∀ after, readString (key ++ '"' :: after) = (.scalar (.text name) none none, some after))
    (hv : readValue fuel room (cs ++ more) = (node, some more))
    (hmore : readEntries fuel room false more = (nodes, none, some rest)) (first : Bool)
    {blanks before after : List Char} (hblanks : ∀ c ∈ blanks, isBlank c = true)
    (hbefore : ∀ c ∈ before, isBlank c = true) (hafter : ∀ c ∈ after, isBlank c = true) :
    readEntries (fuel + 1) room first (separator first ++
        (blanks ++ '"' :: (key ++ '"' :: (before ++ ':' :: (after ++ (cs ++ more))))))
      = ((.scalar (.text name) none none, node) :: nodes, none, some rest) := by
  have hquote (cs : List Char) : skipBlanks ('"' :: cs) = '"' :: cs := skipBlanks_cons (by decide) _
  have hcolon (cs : List Char) : skipBlanks (before ++ ':' :: cs) = ':' :: cs := by
    rw [skipBlanks_append hbefore, skipBlanks_cons (by decide)]
  cases first with
  | false =>
    rw [readEntries, separator, if_neg (by decide), List.singleton_append,
      skipBlanks_cons (by decide)]
    simp [skipBlanks_append hblanks, hquote, hkey, hcolon, readValue_blanks hafter, hv, hmore]
  | true =>
    rw [separator, if_pos rfl, List.nil_append, readEntries_blanks hblanks, readEntries, hquote]
    simp [hquote, hkey, hcolon, readValue_blanks hafter, hv, hmore]

theorem readEntries_entryText {k : String} {v : Json} {more rest : List Char} {fuel room : Nat}
    {node : Node} {nodes : List (Node × Node)}
    (hv : readValue fuel room (v.text ++ more) = (node, some more))
    (hmore : readEntries fuel room false more = (nodes, none, some rest)) (first : Bool) :
    readEntries (fuel + 1) room first (separator first ++ (entryText (k, v) ++ more))
      = ((.scalar (.text k) none none, node) :: nodes, none, some rest) := by
  have htext : entryText (k, v) ++ more
      = [] ++ '"' :: (k.toList.flatMap escape ++ '"' :: ([] ++ ':' :: ([] ++ (v.text ++ more)))) := by
    simp [entryText, quoted]
  rw [htext]
  exact readEntries_next (readString_text k) hv hmore first (List.forall_mem_nil _)
    (List.forall_mem_nil _) (List.forall_mem_nil _)

theorem ends_laterItems (items : List Json) (rest : List Char) :
    Ends (laterItems items ++ ']' :: rest) := by
  cases items with
  | nil => exact ends_cons (by decide) rest
  | cons v items => exact ends_cons (by decide) _

theorem ends_laterEntries (entries : List (String × Json)) (rest : List Char) :
    Ends (laterEntries entries ++ '}' :: rest) := by
  cases entries with
  | nil => exact ends_cons (by decide) rest
  | cons entry entries => exact ends_cons (by decide) _

def entered (room : Nat) (n : Node) : Node :=
  if 2 ≤ room then n else .unreadable (malformed "recursion limit exceeded") true

theorem enter_some (room : Nat) (n : Node) (rest : List Char) :
    enter room n (some rest) = (entered room n, some rest) := by
  unfold enter entered
  split <;> rfl

theorem readValue_items {fuel room : Nat} {cs rest : List Char} {nodes : List Node}
    (h : readItems fuel (room - 1) true cs = (nodes, none, some rest)) :
    readValue (fuel + 1) room ('[' :: cs) =
      (entered room (.sequence nodes none none), some rest) := by
  rw [readValue, skipBlanks_cons (by decide)]
  simp only [h, enter_some]

theorem readValue_entries {fuel room : Nat} {cs rest : List Char} {nodes : List (Node × Node)}
    (h : readEntries fuel (room - 1) true cs = (nodes, none, some rest)) :
    readValue (fuel + 1) room ('{' :: cs) =
      (entered room (.mapping nodes none none), some rest) := by
  rw [readValue, skipBlanks_cons (by decide)]
  simp only [h, enter_some]

theorem readValue_array {fuel room : Nat} {cs rest : List Char} {nodes : List Node}
    (hroom : 2 ≤ room)
    (h : readItems fuel (room - 1) true (cs ++ ']' :: rest) = (nodes, none, some rest)) :
    readValue (fuel + 1) room ('[' :: cs ++ [']'] ++ rest)
      = (.sequence nodes none none, some rest) := by
  have htext : '[' :: cs ++ [']'] ++ rest = '[' :: (cs ++ ']' :: rest) := by simp
  rw [htext, readValue_items h, entered, if_pos hroom]

theorem readValue_object {fuel room : Nat} {cs rest : List Char} {nodes : List (Node × Node)}
    (hroom : 2 ≤ room)
    (h : readEntries fuel (room - 1) true (cs ++ '}' :: rest) = (nodes, none, some rest)) :
    readValue (fuel + 1) room ('{' :: cs ++ ['}'] ++ rest)
      = (.mapping nodes none none, some rest) := by
  have htext : '{' :: cs ++ ['}'] ++ rest = '{' :: (cs ++ '}' :: rest) := by simp
  rw [htext, readValue_entries h, entered, if_pos hroom]

mutual

theorem readValue_text : ∀ (v : Json) (fuel room : Nat) (rest : List Char), Fits room v →
    2 * v.text.length ≤ fuel → Ends rest →
    readValue fuel room (v.text ++ rest) = (v.toNode, some rest)
  | v, 0, room, rest, _, hfuel, _ => by
    obtain ⟨c, cs, htext, _⟩ := text_opens v
    rw [htext, List.length_cons] at hfuel
    omega
  | null, fuel + 1, room, rest, _, _, _ => by
    rw [text, toNode, readValue_null]
  | boolean b, fuel + 1, room, rest, _, _, _ => by
    rw [text, toNode, readValue_boolean]
  | integer n, fuel + 1, room, rest, hfit, _, hrest => by
    rw [text, toNode, readValue_integer hfit fuel room hrest]
  | float x, fuel + 1, room, rest, hfit, _, hrest => by
    rw [text, toNode, readValue_float hfit fuel room hrest]
  | string s, fuel + 1, room, rest, _, _, _ => by
    rw [text, toNode, readValue_string]
  | array [], fuel + 1, room, rest, hfit, hfuel, _ => by
    obtain ⟨f, rfl⟩ : ∃ f, fuel = f + 1 := ⟨fuel - 1, by simp [text, itemsText] at hfuel; omega⟩
    rw [text, toNode, itemNodes]
    exact readValue_array hfit.1 (readItems_close f _ true rest)
  | array (v :: items), fuel + 1, room, rest, hfit, hfuel, _ => by
    rw [text, itemsText_cons] at hfuel ⊢
    simp only [List.length_append, List.length_cons, List.length_nil] at hfuel
    obtain ⟨f, rfl⟩ : ∃ f, fuel = f + 1 := ⟨fuel - 1, by omega⟩
    have hv := readValue_text v f (room - 1) (laterItems items ++ ']' :: rest) hfit.2.1 (by omega)
      (ends_laterItems items rest)
    have hmore := readItems_later items f (room - 1) rest hfit.2.2 (by omega)
    have hall := readItems_next (text_opens v) hv hmore true (List.forall_mem_nil _)
    rw [toNode, itemNodes]
    refine readValue_array hfit.1 ?_
    rw [List.append_assoc]
    exact hall
  | object [], fuel + 1, room, rest, hfit, hfuel, _ => by
    obtain ⟨f, rfl⟩ : ∃ f, fuel = f + 1 := ⟨fuel - 1, by simp [text, entriesText] at hfuel; omega⟩
    rw [text, toNode, entryNodes]
    exact readValue_object hfit.1 (readEntries_close f _ true rest)
  | object ((k, v) :: entries), fuel + 1, room, rest, hfit, hfuel, _ => by
    rw [text, entriesText_cons] at hfuel ⊢
    simp only [entryText, List.length_append, List.length_cons, List.length_nil] at hfuel
    obtain ⟨f, rfl⟩ : ∃ f, fuel = f + 1 := ⟨fuel - 1, by omega⟩
    have hv := readValue_text v f (room - 1) (laterEntries entries ++ '}' :: rest) hfit.2.1
      (by omega) (ends_laterEntries entries rest)
    have hmore := readEntries_later entries f (room - 1) rest hfit.2.2 (by omega)
    have hall := readEntries_entryText (k := k) hv hmore true
    rw [toNode, entryNodes]
    refine readValue_object hfit.1 ?_
    rw [List.append_assoc]
    exact hall

theorem readItems_later : ∀ (items : List Json) (fuel room : Nat) (rest : List Char),
    ItemsFit room items → 2 * (laterItems items).length + 1 ≤ fuel →
    readItems fuel room false (laterItems items ++ ']' :: rest)
      = (itemNodes items, none, some rest)
  | _, 0, _, _, _, hfuel => by omega
  | [], fuel + 1, room, rest, _, _ => by
    rw [itemNodes]
    exact readItems_close fuel room false rest
  | v :: items, fuel + 1, room, rest, hfit, hfuel => by
    simp only [laterItems, List.flatMap_cons, List.length_append, List.length_cons] at hfuel
    have hv := readValue_text v fuel room (laterItems items ++ ']' :: rest) hfit.1 (by omega)
      (ends_laterItems items rest)
    have hmore := readItems_later items fuel room rest hfit.2 (by simp only [laterItems]; omega)
    have hall := readItems_next (text_opens v) hv hmore false (List.forall_mem_nil _)
    simp only [laterItems, List.flatMap_cons, List.cons_append, List.append_assoc]
    exact hall

theorem readEntries_later : ∀ (entries : List (String × Json)) (fuel room : Nat)
    (rest : List Char), EntriesFit room entries → 2 * (laterEntries entries).length + 1 ≤ fuel →
    readEntries fuel room false (laterEntries entries ++ '}' :: rest)
      = (entryNodes entries, none, some rest)
  | _, 0, _, _, _, hfuel => by omega
  | [], fuel + 1, room, rest, _, _ => by
    rw [entryNodes]
    exact readEntries_close fuel room false rest
  | (k, v) :: entries, fuel + 1, room, rest, hfit, hfuel => by
    simp only [laterEntries, entryText, List.flatMap_cons, List.length_append,
      List.length_cons] at hfuel
    have hv := readValue_text v fuel room (laterEntries entries ++ '}' :: rest) hfit.1 (by omega)
      (ends_laterEntries entries rest)
    have hmore := readEntries_later entries fuel room rest hfit.2
      (by simp only [laterEntries, entryText]; omega)
    have hall := readEntries_entryText (k := k) hv hmore false
    simp only [laterEntries, List.flatMap_cons, List.cons_append, List.append_assoc]
    exact hall

end

/-- The document in the text of a value is its tree, with nothing after it. -/
theorem document_render {v : Json} (h : Fits room v) : document v.render = ⟨v.toNode, none⟩ := by
  have hread := readValue_text v (2 * v.text.length + 2) room [] h (by omega) ends_nil
  rw [List.append_nil] at hread
  simp only [document, render, String.toList_ofList, hread]
  rfl

theorem decode_of_document {α : Type} {text : String} {n : Node} (h : document text = ⟨n, none⟩)
    (read : Node → Reading α) : decode read text = read n := by
  rw [decode, h]
  cases hr : read n <;>
    simp [Whole.decode, hr, Node.finished, bind, Except.bind, pure, Except.pure]

theorem decode_render {α : Type} {v : Json} (h : Fits room v) (read : Node → Reading α) :
    decode read v.render = read v.toNode :=
  decode_of_document (document_render h) read

end CoverageQuery.Json
