import CoverageQuery.Query.Render

/-!
# The clauses of a query

The text of a query as characters: the clause of the coverages, the clause of the subset with the
line break after it if there is one, and the return clause. In every mode but a switch the return
clause is a word, and the value with the subset variable in parentheses; a switch is a sequence of
lines, each with its line break, between parentheses of their own.
-/
namespace CoverageQuery

theorem intercalate_append_separator {α : Type} {separator : List α} {pieces : List (List α)}
    (h : pieces ≠ []) :
    separator.intercalate pieces ++ separator = pieces.flatMap (· ++ separator) := by
  induction pieces with
  | nil => exact absurd rfl h
  | cons a rest ih =>
    rw [List.flatMap_cons]
    cases rest with
    | nil => simp
    | cons b rest =>
      rw [List.intercalate_cons_cons, List.append_assoc, ih (by simp)]

namespace Coordinate

theorem toList_render_integer (n : Int64) : (integer n).render.toList = Integer.write n.toInt :=
  String.toList_ofList

theorem toList_render_float (x : Binary64) :
    (float x).render.toList = NumberLayout.query.text x := String.toList_ofList

theorem toList_render_text (t : String) :
    (text t).render.toList = '"' :: (t.toList ++ ['"']) := by
  simp [render]

end Coordinate

namespace Subset

theorem toList_render_point {axis : String} {start : Coordinate} :
    (point axis start).render.toList = axis.toList ++ '(' :: (start.render.toList ++ [')']) := by
  simp [render, boundsText, point]

theorem toList_render_range {axis : String} {start stop : Coordinate} :
    (range axis start stop).render.toList =
      axis.toList ++ '(' :: (start.render.toList ++ ':' :: (stop.render.toList ++ [')'])) := by
  simp [render, boundsText, range]

theorem eq_point_or_range (s : Subset) :
    s = point s.axis s.start ∨ ∃ stop ∈ s.stop, s = range s.axis s.start stop := by
  obtain ⟨axis, start, stop⟩ := s
  cases stop with
  | none => exact .inl rfl
  | some stop => exact .inr ⟨stop, rfl, rfl⟩

theorem toList_renderAll_singleton (s : Subset) : (renderAll [s]).toList = s.render.toList := by
  simp [renderAll]

theorem toList_renderAll_cons_cons (s t : Subset) (rest : List Subset) :
    (renderAll (s :: t :: rest)).toList =
      s.render.toList ++ ',' :: ' ' :: (renderAll (t :: rest)).toList := by
  simp [renderAll, String.intercalate_cons_cons]

end Subset

namespace Switch

def fallbackText (s : Switch) : List Char :=
  s.fallbackLines.flatMap fun line => line.toList ++ ['\n']

def branchText (branches : List Branch) : List Char :=
  branches.flatMap fun b => b.line.toList ++ ['\n']

theorem toList_render_newline (s : Switch) :
    s.render.toList ++ ['\n'] = "switch\n".toList ++ branchText s.branches ++ s.fallbackText := by
  have hlines : s.lines.map String.toList ≠ [] := by simp [lines]
  have hterminated : ['\n'].intercalate _ ++ ['\n'] = _ := intercalate_append_separator hlines
  rw [render, String.toList_intercalate]
  refine hterminated.trans ?_
  simp [lines, branchText, fallbackText, List.flatMap_map]

end Switch

namespace Mode

def word : Mode → String
  | aggregate m => m.name ++ " "
  | encode _ => "encode "
  | _ => ""

def closing : Mode → String
  | encode f => " , \"" ++ f.mediaType ++ "\" )"
  | _ => " )"

theorem eq_of_switch? {m : Mode} {s : Switch} (h : m.switch? = some s) : m = .switch s := by
  cases m with
  | «switch» t => rw [Option.some.inj h]
  | _ => exact absurd h (by simp [switch?])

end Mode

namespace Query

theorem forClause_cases {names : List String} {first : String} (h : forClause names = .ok first) :
    (∃ name, names = [name] ∧
      first.toList = "for $c in ( ".toList ++ (name.toList ++ " )".toList)) ∨
    (2 ≤ names.length ∧ first.toList =
      "for $c in (".toList ++ ([','].intercalate (names.map String.toList) ++ [')'])) := by
  unfold forClause at h
  split at h
  · exact absurd h (by simp)
  · rename_i name
    obtain rfl := Except.ok.inj h
    exact .inl ⟨name, rfl, by simp [iterator]⟩
  · rename_i hnil hsingle
    obtain rfl := Except.ok.inj h
    refine .inr ⟨?_, by simp [iterator]⟩
    cases names with
    | nil => exact absurd rfl hnil
    | cons name rest =>
      cases rest with
      | nil => exact absurd rfl (hsingle name)
      | cons other rest => simp

theorem exists_forClause {names : List String} (h : names ≠ []) :
    ∃ first, forClause names = .ok first := by
  unfold forClause
  split
  · exact absurd rfl h
  · exact ⟨_, rfl⟩
  · exact ⟨_, rfl⟩

def letText (subset : List Subset) : List Char :=
  (letClause subset).flatMap fun line => line.toList ++ ['\n']

theorem letText_append {subset : List Subset} (h : subset ≠ []) (x : List Char) :
    letText subset ++ x = "let $subset := [".toList ++
      ((Subset.renderAll subset).toList ++ ']' :: '\n' :: x) := by
  cases subset with
  | nil => exact absurd rfl h
  | cons s rest => simp [letText, letClause, subsetVariable]

def returnText (q : Query) : List Char :=
  ['\n'].intercalate (q.returnClause.map String.toList)

theorem returnClause_ne_nil (q : Query) : q.returnClause ≠ [] := by
  unfold returnClause
  cases q.mode <;> simp

theorem render_eq (q : Query) :
    q.render = (forClause q.coverages).map fun first =>
      String.ofList (first.toList ++ '\n' :: (letText q.subset ++ q.returnText)) := by
  unfold render
  cases forClause q.coverages with
  | error e => rfl
  | ok first =>
    have hreturn := q.returnClause_ne_nil
    have hlines : ("\n".intercalate (first :: letClause q.subset ++ q.returnClause)).toList
        = first.toList ++ '\n' :: (letText q.subset ++ q.returnText) := by
      rw [String.intercalate_append_of_ne_nil (by simp) hreturn]
      unfold letText letClause
      split <;> simp [returnText, String.intercalate_cons_cons]
    show Except.ok _ = Except.ok (String.ofList _)
    rw [← hlines, String.ofList_toList]

theorem toList_of_render {q : Query} {text : String} (h : q.render = .ok text) :
    ∃ first, forClause q.coverages = .ok first ∧
      text.toList = first.toList ++ '\n' :: (letText q.subset ++ q.returnText) := by
  rw [render_eq] at h
  cases hfirst : forClause q.coverages with
  | error e => rw [hfirst] at h; exact absurd h (by simp [Except.map])
  | ok first =>
    rw [hfirst] at h
    obtain rfl := Except.ok.inj h
    exact ⟨first, rfl, String.toList_ofList⟩

theorem returnText_of_value {q : Query} (h : q.mode.switch? = none) :
    q.returnText = "return ".toList ++ (q.mode.word.toList ++ '(' :: ' ' ::
      ((valueText q.value).toList ++ (subsetSuffix q.subset).toList ++ q.mode.closing.toList)) := by
  cases hmode : q.mode with
  | plain => simp [returnText, returnClause, hmode, Mode.word, Mode.closing]
  | aggregate m => simp [returnText, returnClause, hmode, Mode.word, Mode.closing]
  | encode f => simp [returnText, returnClause, hmode, Mode.word, Mode.closing]
  | «switch» s => simp [hmode, Mode.switch?] at h

theorem returnText_of_switch {q : Query} {s : Switch} (h : q.mode = .switch s) :
    q.returnText = "return ".toList ++ '(' :: '\n' ::
      (s.render.toList ++ '\n' :: ')' :: (subsetSuffix q.subset).toList) := by
  have hlines : "\n".intercalate ("return (" :: s.lines ++ [")" ++ subsetSuffix q.subset])
      = "return (\n" ++ s.render ++ "\n" ++ (")" ++ subsetSuffix q.subset) := by
    rw [String.intercalate_append_of_ne_nil (by simp) (by simp),
      String.intercalate_cons_of_ne_nil (by simp [Switch.lines])]
    simp [Switch.render]
  have htext := congrArg String.toList hlines
  rw [String.toList_intercalate] at htext
  unfold returnText returnClause
  rw [h]
  refine htext.trans ?_
  simp

end Query
end CoverageQuery
