import CoverageQuery.Proofs.Command.Scanning

/-!
# Queries asked for with two verbs

What stands in front of a verb is read alike for every verb, and an output is the only key that one of
the two verbs of queries has and the other has not. So the same arguments behind both ask for the same
flags and for the same server, with an output anywhere among them or without; or both are wrong in the
same way, or the output is.
-/
namespace CoverageQuery.Arguments

theorem Verb.shape_name (verb : Verb) : Shape.of verb.name.toList = .word := by
  cases verb <;> decide

theorem Verb.ofName?_name (verb : Verb) : Verb.ofName? verb.name = some verb := by
  cases verb <;> decide

theorem Given.put_name {g : Given} {k : Key} {verb : Verb} {e : Stop}
    (h : g.put k verb.name = .error e) (verb' : Verb) : g.put k verb'.name = .error e := by
  have hname (verb : Verb) : verb.name.isEmpty = false := by cases verb <;> decide
  simp only [put, hname, Bool.false_eq_true, and_false, if_false] at h ⊢
  split at h
  · exact h ▸ if_pos ‹_›
  · exact absurd h (by simp)

theorem scan_front {keys : List Key} {limit : Nat} {front : List String} {verb : Verb} {g : Given}
    {waiting : Option Key}
    (h : ∀ r, scan keys true limit g waiting (front ++ [verb.name]) = .ok r → r.2 = some (verb, []))
    (verb' : Verb) (rest : List String) :
    scan keys true limit g waiting (front ++ verb'.name :: rest) =
      (scan keys true limit g waiting (front ++ [verb.name])).map fun r => (r.1, some (verb', rest)) := by
  induction front generalizing g waiting with
  | nil =>
    cases waiting with
    | none => simp only [List.nil_append, scan, Verb.shape_name, Verb.ofName?_name, if_true, Except.map]
    | some k =>
      -- The verb is the value that is awaited, so there is none behind it.
      simp only [List.nil_append, scan, Verb.shape_name] at h ⊢
      cases hput : g.put k verb.name with
      | error e =>
        rw [Given.put_name hput]
        rfl
      | ok g' =>
        rw [hput] at h
        exact absurd (h _ rfl) (by simp)
  | cons arg front ih =>
    by_cases hverb : waiting = none ∧ Shape.of arg.toList = .word ∧ (Verb.ofName? arg).isSome
    · obtain ⟨rfl, hshape, hsome⟩ := hverb
      obtain ⟨other, hother⟩ := Option.isSome_iff_exists.1 hsome
      have hfound : scan keys true limit g none (arg :: (front ++ [verb.name])) =
          .ok (g, some (other, front ++ [verb.name])) := by
        simp only [scan, hshape, hother, if_true]
      exact absurd (h _ hfound) (by simp)
    · -- No verb here, so what is in front of the verb goes on with one argument less.
      have hnone : waiting = none → Shape.of arg.toList = .word → true = true →
          Verb.ofName? arg = none := by
        intro hwaiting hshape _
        by_contra hne
        exact hverb ⟨hwaiting, hshape, Option.isSome_iff_ne_none.2 hne⟩
      rw [List.cons_append, scan_cons hnone] at h
      rw [List.cons_append, List.cons_append, scan_cons hnone, scan_cons hnone]
      cases hnext : Standing.advance keys limit ⟨g, .options waiting⟩ arg with
      | error e => rfl
      | ok s =>
        rw [hnext] at h
        obtain ⟨g', place⟩ := s
        cases place with
        | options waiting' => exact ih h
        | words => exact absurd (h _ rfl) (by simp)

/-- Arguments that may stand in front of a verb: they hold no verb, and no key waits behind them for a
value, unless they are wrong in themselves. -/
def Leads (front : List String) : Prop :=
  ∀ r, scan globalKeys true 0 {} none (front ++ [Verb.render.name]) = .ok r →
    r.2 = some (.render, [])

def invocation (env : Environment) (program own : Given) (command : Command) :
    Except Stop Invocation := do
  let configured := program.has .config ∧ own.has .config
  if env.lookup configVariable = some "" ∧ ¬configured then throw .usage
  pure {
    serverUrl := ((own.get? .serverUrl).or (program.get? .serverUrl)).or (env.lookup urlVariable)
    config := ((own.get? .config).or (program.get? .config)).or (env.lookup configVariable)
    command }

theorem read_of_scan {args rest : List String} {program : Given} {verb : Verb}
    (h : scan globalKeys true 0 {} none args = .ok (program, some (verb, rest))) (hverb : verb ≠ .help)
    (env : Environment) :
    read env args = scan verb.keys false verb.limit {} none rest >>= fun own =>
      command verb own.1 >>= invocation env program own.1 := by
  simp only [read, h]
  cases verb with
  | help => exact absurd rfl hverb
  | render | execute | capabilities | describe => rfl

theorem invocation_cases (env : Environment) (program own : Given) :
    (∀ command, invocation env program own command = .error .usage) ∨
      ∃ url config, ∀ command, invocation env program own command = .ok ⟨url, config, command⟩ := by
  by_cases hconfig : env.lookup configVariable = some "" ∧ ¬(program.has .config ∧ own.has .config)
  · exact .inl fun command => by simp only [invocation, if_pos hconfig]; rfl
  · simp only [invocation, if_neg hconfig]
    exact .inr ⟨_, _, fun command => rfl⟩

theorem invocation_without (env : Environment) (program own : Given) (command : Command) :
    invocation env program (own.without .output) command = invocation env program own command := by
  simp only [invocation, Given.has_without, Given.get?_without, ne_eq, reduceCtorEq,
    not_false_eq_true]

theorem command_without (own : Given) :
    command .render (own.without .output) = .error .usage ∧ command .execute own = .error .usage ∨
      command .render (own.without .output) = .ok (.render own.flags) ∧
        command .execute own = .ok (.execute own.flags (own.get? .output)) := by
  have hwords : (own.without .output).words = own.words := rfl
  unfold command
  rw [hwords, Given.has_without (by decide), Given.has_without (by decide), Given.flags_without]
  by_cases h : own.has .aggregate = true ∧ own.has .encode = true
  · exact .inl ⟨if_pos h, if_pos h⟩
  · rw [if_neg h, if_neg h]
    cases own.words with
    | nil => exact .inr ⟨rfl, rfl⟩
    | cons word words => exact .inl ⟨rfl, rfl⟩

theorem asked_cases (env : Environment) (program own : Given) :
    let alone := own.without .output
    (command .render alone >>= invocation env program alone = .error .usage ∧
        command .execute own >>= invocation env program own = .error .usage) ∨
      ∃ url config flags output,
        command .render alone >>= invocation env program alone = .ok ⟨url, config, .render flags⟩ ∧
        command .execute own >>= invocation env program own =
          .ok ⟨url, config, .execute flags output⟩ := by
  intro alone
  rcases command_without own with ⟨halone, hwhole⟩ | ⟨halone, hwhole⟩
  · rw [halone, hwhole]
    exact .inl ⟨rfl, rfl⟩
  · rw [halone, hwhole]
    show invocation env program alone _ = _ ∧ invocation env program own _ = _ ∨
      ∃ url config flags output, invocation env program alone _ = _ ∧
        invocation env program own _ = _
    rw [invocation_without]
    rcases invocation_cases env program own with hwrong | ⟨url, config, hok⟩
    · exact .inl ⟨hwrong _, hwrong _⟩
    · exact .inr ⟨url, config, own.flags, own.get? .output, hok _, hok _⟩

theorem command_of_words {own : Given} (h : own.words ≠ []) :
    command .execute own = .error .usage := by
  unfold command
  split
  · rfl
  · cases hwords : own.words with
    | nil => exact absurd hwords h
    | cons word words => rfl

/-- A query with an output is asked for in the same way as the query alone, unless the output is wrong
where it stands. -/
theorem read_execute (env : Environment) {front before option after : List String}
    (hfront : Leads front)
    (hbefore : ∀ arg ∈ before, (Shape.of arg.toList).names .output = false)
    (hoption : Optionally .output option)
    (hafter : ∀ arg ∈ after, (Shape.of arg.toList).names .output = false) :
    let alone := read env (front ++ Verb.render.name :: (before ++ after))
    let whole := read env (front ++ Verb.execute.name :: (before ++ option ++ after))
    whole = .error .usage ∨ (∃ stop, alone = .error stop ∧ whole = .error stop) ∨
      ∃ url config flags output, alone = .ok ⟨url, config, .render flags⟩ ∧
        whole = .ok ⟨url, config, .execute flags output⟩ := by
  intro alone whole
  cases hscan : scan globalKeys true 0 {} none (front ++ [Verb.render.name]) with
  | error e =>
    have hread (verb : Verb) (rest : List String) :
        read env (front ++ verb.name :: rest) = .error e := by
      rw [read, scan_front hfront verb rest, hscan]
      rfl
    exact .inr (.inl ⟨e, hread .render _, hread .execute _⟩)
  | ok r =>
    obtain ⟨program, next⟩ := r
    have hlevel (verb : Verb) (rest : List String) :
        scan globalKeys true 0 {} none (front ++ verb.name :: rest) = .ok (program, some (verb, rest)) := by
      rw [scan_front hfront verb rest, hscan]
      rfl
    -- The output is the one key in which the levels behind the two verbs differ.
    have halone : alone = scan Verb.render.keys false 0 {} none (before ++ after) >>= _ :=
      read_of_scan (hlevel .render _) (by decide) env
    have hwhole : whole =
        scan (Verb.render.keys ++ [.output]) false 0 {} none (before ++ option ++ after) >>= _ :=
      read_of_scan (hlevel .execute _) (by decide) env
    rw [halone, hwhole]
    have hoptions := scan_optionally Verb.render.keys 0 rfl hbefore hoption hafter
    rcases hoptions with hwrong | ⟨own, hown, hwords⟩ | hsame
    · refine .inl ?_
      rw [hwrong]
      rfl
    · refine .inl ?_
      rw [hown]
      show command .execute own >>= _ = _
      rw [command_of_words hwords]
      rfl
    · rw [hsame]
      cases scan (Verb.render.keys ++ [.output]) false 0 {} none (before ++ option ++ after) with
      | error e => exact .inr (.inl ⟨e, rfl, rfl⟩)
      | ok r =>
        rcases asked_cases env program r.1 with ⟨halone, hwhole⟩ | hboth
        · exact .inl hwhole
        · exact .inr (.inr hboth)

end CoverageQuery.Arguments
