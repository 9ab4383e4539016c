import CoverageQuery.Client.Datacube

/-!
# Runs of a datacube

In a run of a datacube over answers that are given in advance, the query at each step is the one that
the changes before it give, whatever was answered meanwhile. A step that executes submits the text of
that query, if it has one, and takes the answer whose number is that of the submissions before it; a
query without text gives its own error and submits nothing.
-/
namespace CoverageQuery.Datacube

namespace Step

def apply (q : Query) : Step → Query
  | change f => f q
  | _ => q

def text? (q : Query) : Step → Option String
  | change _ => none
  | _ => q.render.toOption

def outcome (answers : Nat → Except ClientError Payload) (n : Nat) (q : Query) : Step → Outcome
  | execute => .decoded <|
      match q.render, answers n with
      | .error e, _ => .error (.query e)
      | .ok _, .error e => .error e
      | .ok _, .ok payload => payload.decode
  | executePayload => .payload <|
      match q.render with
      | .error e => .error (.query e)
      | .ok _ => answers n
  | change f => .changed (f q)

end Step

def queryAfter (q : Query) (steps : List Step) : Query := steps.foldl Step.apply q

/-- The texts that steps submit, each that of the query as it stands then. -/
def submissions (q : Query) : List Step → List String
  | [] => []
  | s :: rest => (s.text? q).toList ++ submissions (s.apply q) rest

def scripted (q : Query) (answers : Nat → Except ClientError Payload) (submitted : List String) :
    Datacube Script := ⟨q, ⟨answers, submitted⟩⟩

theorem submissions_append (q : Query) (steps more : List Step) :
    submissions q (steps ++ more) =
      submissions q steps ++ submissions (queryAfter q steps) more := by
  induction steps generalizing q with
  | nil => rfl
  | cons s steps ih =>
    rw [List.cons_append, submissions, submissions, ih, List.append_assoc]
    rfl

theorem step_scripted (q : Query) (answers : Nat → Except ClientError Payload)
    (submitted : List String) (s : Step) :
    (scripted q answers submitted).step s =
      (s.outcome answers submitted.length q,
        scripted (s.apply q) answers (submitted ++ (s.text? q).toList)) := by
  cases s with
  | change f => simp [step, scripted, Step.outcome, Step.apply, Step.text?]
  | executePayload =>
    cases hr : q.render with
    | error e =>
      simp [step, executePayload, scripted, Step.outcome, Step.apply, Step.text?, hr,
        Except.toOption]
    | ok text =>
      simp [step, executePayload, scripted, Step.outcome, Step.apply, Step.text?, hr,
        Except.toOption, Transport.submit]
  | execute =>
    cases hr : q.render with
    | error e =>
      simp [step, execute, executePayload, scripted, Step.outcome, Step.apply, Step.text?, hr,
        Except.toOption, bind, Except.bind]
    | ok text =>
      cases ha : answers submitted.length <;>
        simp [step, execute, executePayload, scripted, Step.outcome, Step.apply, Step.text?, hr,
          ha, Except.toOption, Transport.submit, bind, Except.bind]

theorem run_cons (c : Datacube Script) (s : Step) (steps : List Step) :
    c.run (s :: steps) = ((c.step s).1 :: ((c.step s).2.run steps).1,
      ((c.step s).2.run steps).2) := rfl

theorem run_scripted (q : Query) (answers : Nat → Except ClientError Payload)
    (submitted : List String) (steps : List Step) :
    ((scripted q answers submitted).run steps).2 =
      scripted (queryAfter q steps) answers (submitted ++ submissions q steps) := by
  -- What was submitted before numbers the next answer, so the induction is for all of it.
  induction steps generalizing q submitted with
  | nil => simp [run, queryAfter, submissions]
  | cons s steps ih =>
    rw [run_cons, step_scripted, ih, submissions, List.append_assoc]
    rfl

theorem length_outcomes (c : Datacube Script) (steps : List Step) :
    (c.run steps).1.length = steps.length := by
  induction steps generalizing c with
  | nil => rfl
  | cons s steps ih => rw [run_cons, List.length_cons, List.length_cons, ih]

theorem getElem?_outcomes (q : Query) (answers : Nat → Except ClientError Payload)
    (submitted : List String) (before : List Step) (s : Step) (after : List Step) :
    ((scripted q answers submitted).run (before ++ s :: after)).1[before.length]? =
      some (s.outcome answers (submitted.length + (submissions q before).length)
        (queryAfter q before)) := by
  induction before generalizing q submitted with
  | nil =>
    rw [List.nil_append, run_cons, step_scripted]
    rfl
  | cons b before ih =>
    rw [List.cons_append, run_cons, step_scripted, List.length_cons, List.getElem?_cons_succ, ih,
      submissions, List.length_append, List.length_append, Nat.add_assoc]
    rfl

/-- What a run submits and leaves and what each of its steps gives. Other answers change neither what
is submitted nor the query that is left. -/
theorem run_eq (q : Query) (answers : Nat → Except ClientError Payload) (steps : List Step) :
    ((scripted q answers []).run steps).2 =
      scripted (queryAfter q steps) answers (submissions q steps) ∧
    ((scripted q answers []).run steps).1.length = steps.length ∧
    (∀ before s after, steps = before ++ s :: after →
      ((scripted q answers []).run steps).1[before.length]? =
        some (s.outcome answers (submissions q before).length (queryAfter q before)) ∧
      submissions q steps = submissions q before ++ (s.text? (queryAfter q before)).toList ++
        submissions (s.apply (queryAfter q before)) after) ∧
    ∀ others : Nat → Except ClientError Payload,
      ((scripted q others []).run steps).2.query = ((scripted q answers []).run steps).2.query ∧
      ((scripted q others []).run steps).2.transport.submitted =
        ((scripted q answers []).run steps).2.transport.submitted := by
  refine ⟨run_scripted q answers [] steps, length_outcomes _ steps, ?_, fun others => ?_⟩
  · rintro before s after rfl
    have houtcome := getElem?_outcomes q answers [] before s after
    rw [List.length_nil, Nat.zero_add] at houtcome
    exact ⟨houtcome, by rw [submissions_append, submissions, List.append_assoc]⟩
  · rw [run_scripted, run_scripted]
    exact ⟨rfl, rfl⟩

/-- A query without coverages is executed, then one whose first answer is lost, whose second is no
image although it is announced as one, and whose third comes after a change. -/
def failingSteps : List Step :=
  [.execute, .change fun q => q.apply (.setCoverages ["A"]), .execute, .execute,
    .change fun q => q.apply (.aggregate .max), .executePayload]

def failingAnswers : Nat → Except ClientError Payload
  | 0 => .error (.exchange .dropped)
  | 1 => .ok ⟨some "image/png", [0x3F]⟩
  | _ => .ok (Payload.ofText "45.0")

theorem run_eq_example :
    let r := (scripted (Query.ofCoverages []) failingAnswers []).run failingSteps
    failingSteps = failingSteps.take 3 ++ .execute :: failingSteps.drop 4 ∧
    r.1[3]? = some (.decoded (.error (.nondecodable .unknownFormat))) ∧
    r.2.transport.submitted = ["for $c in ( A )\nreturn ( $c )", "for $c in ( A )\nreturn ( $c )",
      "for $c in ( A )\nreturn max ( $c )"] := by
  obtain ⟨hrun, _, hsteps, _⟩ := run_eq (Query.ofCoverages []) failingAnswers failingSteps
  have hsplit : failingSteps = failingSteps.take 3 ++ .execute :: failingSteps.drop 4 := rfl
  obtain ⟨houtcome, _⟩ := hsteps _ _ _ hsplit
  refine ⟨hsplit, houtcome.trans ?_, ?_⟩
  · rfl
  · rw [hrun]
    rfl

end CoverageQuery.Datacube
