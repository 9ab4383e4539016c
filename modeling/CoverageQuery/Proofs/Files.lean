import CoverageQuery.Files
import CoverageQuery.Proofs.Outcome
import CoverageQuery.Proofs.Text.Utf8

/-!
# What is written is read back

A file that is written stands where its path leads afterwards, since the directories on the way are
still there, and nothing else has changed. So a text that was written is read back as itself.
-/
namespace CoverageQuery.Files

theorem lookup_put_self (fs : Files) (place : Place) (content : Utf8.Bytes) :
    (fs.put place content).entries.lookup place = some (.file content) := by
  simp [put]

theorem lookup_filter_ne {entries : List (Place × Entry)} {place other : Place}
    (h : other ≠ place) : (entries.filter (·.1 ≠ place)).lookup other = entries.lookup other := by
  induction entries with
  | nil => rfl
  | cons e entries ih =>
    obtain ⟨known, entry⟩ := e
    by_cases hknown : known = place
    · rw [List.filter_cons_of_neg (by simpa using hknown), ih, List.lookup_cons]
      have hother : (other == known) = false := by
        rw [hknown]
        simpa using h
      rw [hother]
    · rw [List.filter_cons_of_pos (by simpa using hknown), List.lookup_cons, List.lookup_cons, ih]

theorem lookup_put_of_ne {fs : Files} {place other : Place} (h : other ≠ place)
    (content : Utf8.Bytes) :
    (fs.put place content).entries.lookup other = fs.entries.lookup other := by
  have hother : (other == place) = false := by simpa using h
  rw [put, List.lookup_cons, hother]
  exact lookup_filter_ne h

theorem isAbove_put {fs : Files} {above : Place} (h : fs.isAbove above = true) (place : Place)
    (content : Utf8.Bytes) : (fs.put place content).isAbove above = true := by
  simp only [isAbove, put, Bool.or_eq_true, List.any_eq_true] at h ⊢
  refine h.imp id fun ⟨e, he, habove⟩ => ?_
  by_cases hplace : e.1 = place
  · exact ⟨_, List.mem_cons_self, hplace ▸ habove⟩
  · exact ⟨e, List.mem_cons_of_mem _ (List.mem_filter.2 ⟨he, by simpa using hplace⟩), habove⟩

theorem at?_put_self (fs : Files) (place : Place) (content : Utf8.Bytes) :
    (fs.put place content).at? place = some (.file content) := by
  simp only [at?, lookup_put_self]

theorem at?_put_of_ne {fs : Files} {place other : Place} {e : Entry} (hne : other ≠ place)
    (h : fs.at? other = some e) (content : Utf8.Bytes) :
    (fs.put place content).at? other = some e := by
  simp only [at?, lookup_put_of_ne hne] at h ⊢
  cases hlookup : fs.entries.lookup other with
  | some known => simpa only [hlookup] using h
  | none =>
    simp only [hlookup] at h ⊢
    obtain ⟨habove, hentry⟩ := Option.ite_none_right_eq_some.1 h
    rw [if_pos (isAbove_put habove place content), hentry]

theorem walk_put {fs : Files} {place : Place} (hplace : fs.at? place ≠ some .directory)
    (content : Utf8.Bytes) {steps : List String} {origin target : Place}
    (h : fs.walk origin steps = .ok target) :
    (fs.put place content).walk origin steps = .ok target := by
  induction steps generalizing origin with
  | nil => exact h
  | cons step steps ih =>
    rw [walk] at h ⊢
    split at h
    · rename_i hdirectory
      have hne : origin ≠ place := fun heq => hplace (heq ▸ hdirectory)
      rw [at?_put_of_ne hne hdirectory content]
      exact ih h
    · contradiction
    · contradiction

theorem locate_put {fs : Files} {path : String} {place : Place} (h : fs.locate path = .ok place)
    (hplace : fs.at? place ≠ some .directory) (content : Utf8.Bytes) :
    (fs.put place content).locate path = .ok place := by
  rw [locate] at h ⊢
  split at h
  · contradiction
  · rename_i hpath
    rw [if_neg hpath]
    exact walk_put hplace content h

theorem find_of_locate {fs : Files} {path : String} {place : Place}
    (h : fs.locate path = .ok place) : fs.find path = met path (fs.at? place) := by
  simp only [find, h, bind, Except.bind]

theorem find_put {fs : Files} {path : String} {place : Place} (h : fs.locate path = .ok place)
    (hplace : fs.at? place ≠ some .directory) (hplain : asDirectory path = false)
    (content : Utf8.Bytes) : (fs.put place content).find path = .ok (.file content) := by
  rw [find_of_locate (locate_put h hplace content), at?_put_self]
  simp [met, hplain]

/-- A writing either passes its content on to a device, and then all files are as they were, or leaves a
file with that content. -/
theorem write_cases {fs : Files} {path : String} {content : Utf8.Bytes} {done : Written}
    (h : fs.write path content = .ok done) :
    (∃ d, fs.find path = .ok (.device d) ∧ done = ⟨fs, some (d, content)⟩) ∨
    (∀ d, fs.find path ≠ .ok (.device d)) ∧ done.passed = none ∧
      done.files.find path = .ok (.file content) := by
  obtain ⟨place, hlocate, hwrite⟩ := Outcome.bind_eq_ok.1 h
  have hplain : asDirectory path = false := by
    by_contra htrue
    rw [if_pos (by simpa using htrue)] at hwrite
    exact absurd hwrite (by simp)
  rw [find_of_locate hlocate]
  cases hentry : fs.at? place with
  | none =>
    simp only [hentry, hplain, Bool.false_eq_true, if_false, Except.ok.injEq] at hwrite
    rw [← hwrite]
    exact .inr ⟨by simp [met], rfl, find_put hlocate (by simp [hentry]) hplain content⟩
  | some e =>
    cases e with
    | directory => simp [hentry] at hwrite
    | file known =>
      simp only [hentry, hplain, Bool.false_eq_true, if_false, Except.ok.injEq] at hwrite
      rw [← hwrite]
      exact .inr ⟨by simp [met, hplain], rfl, find_put hlocate (by simp [hentry]) hplain content⟩
    | device d =>
      simp only [hentry, hplain, Bool.false_eq_true, if_false, Except.ok.injEq] at hwrite
      exact .inl ⟨d, by simp [met, hplain], hwrite.symm⟩

theorem read_of_find {fs : Files} {path : String} {content : Utf8.Bytes}
    (h : fs.find path = .ok (.file content)) : fs.read path = .ok content := by
  simp only [read, h, bind, Except.bind]

theorem readText_of_write {fs fs' : Files} {path text : String}
    (h : fs.write path (Utf8.encode text.toList) = .ok ⟨fs', none⟩) :
    fs'.readText path = .ok text := by
  rcases write_cases h with ⟨d, _, hdone⟩ | ⟨_, _, hfile⟩
  · exact absurd (congrArg Written.passed hdone) (by simp)
  · simp only [readText, read_of_find hfile, Utf8.decode?_encode, bind, Except.bind, pure, Except.pure,
      String.ofList_toList]

end CoverageQuery.Files
