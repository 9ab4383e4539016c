import CoverageQuery.Command.Run
import CoverageQuery.Proofs.Client.Requests
import CoverageQuery.Proofs.Files
import CoverageQuery.Proofs.Outcome

/-!
# What a run leaves behind

A command first makes ready what it needs, the text of its query and a session with a server; then it
asks; then it prints the answer or keeps it in a file. Whatever fails on the way, nothing has been
printed or written by then, and while things are made ready nothing has been asked either. An answer
that is kept in a file is kept as it came, byte by byte.
-/
namespace CoverageQuery

def Reply.body? : Reply → Option Utf8.Bytes
  | answer status _ body | slow _ _ status _ body => some (if isBodiless status then [] else body)
  | _ => none

theorem Reply.body_of_answered {status : Nat} {contentType : Option String} {body : Utf8.Bytes}
    {payload : Payload} (h : answered status contentType body = .ok payload) :
    (if isBodiless status then [] else body) = payload.body := by
  simp only [answered] at h
  split at h
  · rw [← Except.ok.inj h]
  · exact absurd h (by simp)

theorem Reply.body?_of_outcome {r : Reply} {limits : Limits} {payload : Payload}
    (h : r.outcome limits = .ok payload) : r.body? = some payload.body := by
  cases r with
  | refusal => exact absurd h (by simp [outcome])
  | drop => exact absurd h (by simp [outcome])
  | answer status contentType body => exact congrArg some (body_of_answered h)
  | slow connection whole status contentType body =>
    simp only [outcome] at h
    split at h
    · exact congrArg some (body_of_answered h)
    · exact absurd h (by simp)

theorem Server.exists_reply (s : Server) (limits : Limits) (request : Request) (retries : Nat) :
    ∃ n, s.asked ≤ n ∧ (s.ask limits request retries).2.asked = n + 1 ∧
      (s.ask limits request retries).1 = (s.replies n).outcome limits := by
  have hcount := Retry.count_pos ClientError.isRetryable (s.outcomes limits) retries
  refine ⟨s.asked + (Retry.count ClientError.isRetryable (s.outcomes limits) retries - 1), by omega,
    ?_, rfl⟩
  show s.asked + Retry.count ClientError.isRetryable (s.outcomes limits) retries = _
  omega

def Command.flags? : Command → Option QueryFlags
  | render flags => some flags
  | execute flags _ => some flags
  | _ => none

namespace World

@[simp] theorem files_extended (w : World) : w.extended.files = w.files := by
  unfold extended
  split <;> rfl

@[simp] theorem server_extended (w : World) : w.extended.server = w.server := by
  unfold extended
  split <;> rfl

theorem run_of_read {w : World} {args : List String} {i : Invocation}
    (h : Arguments.read w.extended.env args = .ok i) : w.run args = w.extended.perform i := by
  simp only [run, h]

theorem run_of_stop {w : World} {args : List String} {stop : Arguments.Stop}
    (h : Arguments.read w.extended.env args = .error stop) :
    (w.run args).output = "" ∧ (w.run args).passed = none ∧ (w.run args).files = w.files ∧
      (w.run args).server = w.server ∧ ((w.run args).code = 0 ↔ stop = .help) := by
  cases stop with
  | usage => simp [run, h]
  | help => simp [run, h]

theorem server_of_session {w : World} {i : Invocation} {s : Session} (h : w.session i = .ok s) :
    s.server = w.server := by
  obtain ⟨settings, _, hrest⟩ := Outcome.bind_eq_ok.1 h
  obtain ⟨connector, _, hs⟩ := Outcome.bind_eq_ok.1 hrest
  rw [← Except.ok.inj hs]

theorem server_finish (w : World) (r : Except RunError String) : (w.finish r).server = w.server := by
  cases r <;> rfl

theorem save_cases (w : World) (path : String) (payload : Payload) :
    (∃ done, w.files.write path payload.body = .ok done ∧
      w.save path payload = ⟨0, "", "", done.passed, done.files, w.server⟩) ∨
    ∃ cause, w.save path payload = w.finish (.error (.unwritten path cause)) := by
  unfold save
  cases w.files.write path payload.body with
  | ok done => exact .inl ⟨done, rfl, rfl⟩
  | error cause => exact .inr ⟨cause, rfl⟩

def conclude (w : World) (output : Option String) : Except ClientError Payload → Outcome
  | .error e => w.finish (.error (.client e))
  | .ok payload =>
    match output with
    | some path => w.save path payload
    | none => w.finish ((printed payload).mapError .client)

theorem server_conclude (w : World) (output : Option String)
    (answer : Except ClientError Payload) : (w.conclude output answer).server = w.server := by
  cases answer with
  | error e => rfl
  | ok payload =>
    cases output with
    | none => exact w.server_finish _
    | some path =>
      rcases w.save_cases path payload with ⟨files, _, h⟩ | ⟨cause, h⟩
      · exact congrArg Outcome.server h
      · exact congrArg Outcome.server h

theorem execute_of_ready {w : World} {i : Invocation} {flags : QueryFlags} {text : String}
    {s : Session} (htext : w.queryText flags = .ok text) (hs : w.session i = .ok s)
    (output : Option String) :
    w.execute i flags output =
      { w with server := (s.submit text).2.server }.conclude output (s.submit text).1 := by
  simp only [execute, htext, hs, bind, Except.bind, pure, Except.pure]
  cases (s.submit text).1 <;> cases output <;> rfl

theorem execute_cases (w : World) (i : Invocation) (flags : QueryFlags) (output : Option String) :
    (∃ e, (w.queryText flags = .error e ∨ w.session i = .error e) ∧
      w.execute i flags output = w.finish (.error e)) ∨
    ∃ text s, w.queryText flags = .ok text ∧ w.session i = .ok s ∧
      w.execute i flags output =
        { w with server := (s.submit text).2.server }.conclude output (s.submit text).1 := by
  cases htext : w.queryText flags with
  | error e =>
    refine .inl ⟨e, .inl rfl, ?_⟩
    simp only [execute, htext, bind, Except.bind]
  | ok text =>
    cases hs : w.session i with
    | error e =>
      refine .inl ⟨e, .inr rfl, ?_⟩
      simp only [execute, htext, hs, bind, Except.bind]
    | ok s => exact .inr ⟨text, s, rfl, rfl, execute_of_ready htext hs output⟩

theorem document_cases (w : World) (i : Invocation)
    (ask : Session → Except ClientError String × Session) :
    (∃ e, w.session i = .error e ∧ w.document i ask = w.finish (.error e)) ∨
    ∃ s, w.session i = .ok s ∧ w.document i ask =
      { w with server := (ask s).2.server }.finish ((ask s).1.mapError .client) := by
  cases hs : w.session i with
  | error e => exact .inl ⟨e, rfl, by simp only [document, hs]⟩
  | ok s => exact .inr ⟨s, rfl, by simp only [document, hs]⟩

end World

def Outcome.FailsOver (o : Outcome) (files : Files) : Prop :=
  o.code ≠ 0 → o.output = "" ∧ o.passed = none ∧ o.files = files

theorem Outcome.stdout_eq_nil {o : Outcome} (houtput : o.output = "") (hpassed : o.passed = none) :
    o.stdout = [] := by
  rw [stdout, houtput, hpassed]
  rfl

/-- What keeping bytes in the file with a name has done, where these were the files before: the file
holds the bytes, and nothing has been printed; or the name stands for a device, which has been passed
them. -/
def Outcome.Keeps (o : Outcome) (before : Files) (path : String) (body : Utf8.Bytes) : Prop :=
  ((∀ d, before.find path ≠ .ok (.device d)) →
    o.stdout = [] ∧ o.files.find path = .ok (.file body)) ∧
  ∀ d, before.find path = .ok (.device d) →
    o.output = "" ∧ o.passed = some (d, body) ∧ o.files = before

namespace World

theorem failsOver_finish (w : World) (r : Except RunError String) :
    (w.finish r).FailsOver w.files := by
  cases r with
  | ok text => exact fun h => absurd rfl h
  | error e => exact fun _ => ⟨rfl, rfl, rfl⟩

theorem failsOver_conclude (w : World) (output : Option String)
    (answer : Except ClientError Payload) : (w.conclude output answer).FailsOver w.files := by
  cases answer with
  | error e => exact w.failsOver_finish _
  | ok payload =>
    cases output with
    | none => exact w.failsOver_finish _
    | some path =>
      show (w.save path payload).FailsOver w.files
      rcases w.save_cases path payload with ⟨files, _, h⟩ | ⟨cause, h⟩
      · rw [h]
        exact fun hcode => absurd rfl hcode
      · rw [h]
        exact w.failsOver_finish _

theorem failsOver_document (w : World) (i : Invocation)
    (ask : Session → Except ClientError String × Session) :
    (w.document i ask).FailsOver w.files := by
  rcases w.document_cases i ask with ⟨e, _, h⟩ | ⟨s, _, h⟩
  · rw [h]
    exact w.failsOver_finish _
  · rw [h]
    exact failsOver_finish { w with server := (ask s).2.server } _

theorem failsOver_perform (w : World) (i : Invocation) : (w.perform i).FailsOver w.files := by
  unfold perform
  cases i.command with
  | render flags => exact w.failsOver_finish _
  | execute flags output =>
    rcases w.execute_cases i flags output with ⟨e, _, h⟩ | ⟨text, s, _, _, h⟩
    · simp only [h]
      exact w.failsOver_finish _
    · simp only [h]
      exact failsOver_conclude { w with server := (s.submit text).2.server } output _
  | capabilities => exact w.failsOver_document i _
  | describe coverage => exact w.failsOver_document i _

/-- Something that a command needs before it asks cannot be had: its query has no text, or there is no
session. -/
def Unready (w : World) (i : Invocation) : Prop :=
  (∃ flags ∈ i.command.flags?, ∃ e, w.queryText flags = .error e) ∨ ∃ e, w.session i = .error e

theorem server_perform {w : World} {i : Invocation} (h : w.Unready i) :
    (w.perform i).server = w.server := by
  have hdocument (hflags : i.command.flags? = none)
      (ask : Session → Except ClientError String × Session) :
      (w.document i ask).server = w.server := by
    rcases h with ⟨flags, hf, _⟩ | ⟨e, he⟩
    · rw [hflags] at hf
      exact absurd hf (by simp)
    · rcases w.document_cases i ask with ⟨e', _, hfail⟩ | ⟨s, hs, _⟩
      · rw [hfail, server_finish]
      · exact absurd (he.symm.trans hs) (by simp)
  unfold perform
  cases hcommand : i.command with
  | render flags => exact w.server_finish _
  | execute flags output =>
    rcases w.execute_cases i flags output with ⟨e, _, hfail⟩ | ⟨text, s, htext, hs, _⟩
    · simp only [hfail, server_finish]
    · rcases h with ⟨flags', hf, e, he⟩ | ⟨e, he⟩
      · rw [hcommand] at hf
        obtain rfl := Option.some.inj hf
        exact absurd (he.symm.trans htext) (by simp)
      · exact absurd (he.symm.trans hs) (by simp)
  | capabilities => exact hdocument (by rw [hcommand]; rfl) _
  | describe coverage => exact hdocument (by rw [hcommand]; rfl) _

theorem save_keeps {w : World} {path : String} {payload : Payload}
    (h : (w.save path payload).code = 0) : (w.save path payload).Keeps w.files path payload.body := by
  rcases w.save_cases path payload with ⟨done, hwrite, hsave⟩ | ⟨cause, hsave⟩
  · rw [hsave]
    rcases Files.write_cases hwrite with ⟨d, hdevice, rfl⟩ | ⟨hfile, hpassed, hfind⟩
    · refine ⟨fun hnone => absurd hdevice (hnone d), fun d' hd' => ?_⟩
      obtain rfl := Files.Entry.device.inj (Except.ok.inj (hdevice.symm.trans hd'))
      exact ⟨rfl, rfl, rfl⟩
    · exact ⟨fun _ => ⟨Outcome.stdout_eq_nil rfl hpassed, hfind⟩, fun d hd => absurd hd (hfile d)⟩
  · rw [hsave] at h
    exact absurd h (by simp [finish])

theorem conclude_file {w : World} {path : String} {answer : Except ClientError Payload}
    (h : (w.conclude (some path) answer).code = 0) :
    ∃ payload, answer = .ok payload ∧
      (w.conclude (some path) answer).Keeps w.files path payload.body := by
  cases answer with
  | error e => exact absurd h (by simp [conclude, finish])
  | ok payload => exact ⟨payload, rfl, save_keeps h⟩

theorem execute_file {w : World} {i : Invocation} {flags : QueryFlags} {path : String}
    (h : (w.execute i flags (some path)).code = 0) :
    ∃ n body, w.server.asked ≤ n ∧ (w.execute i flags (some path)).server.asked = n + 1 ∧
      (w.server.replies n).body? = some body ∧
      (w.execute i flags (some path)).Keeps w.files path body := by
  rcases w.execute_cases i flags (some path) with ⟨e, _, hfail⟩ | ⟨text, s, _, hs, hdone⟩
  · rw [hfail] at h
    exact absurd h (by simp [finish])
  · rw [hdone] at h ⊢
    obtain ⟨payload, hanswer, hkeeps⟩ := conclude_file h
    obtain ⟨n, hn, hasked, hreply⟩ := s.server.exists_reply s.connector.settings.limits
      (s.connector.queryRequest text) s.connector.settings.maxRetries.toNat
    have hpayload := hreply.symm.trans hanswer
    rw [server_of_session hs] at hn hpayload
    refine ⟨n, payload.body, hn, ?_, Reply.body?_of_outcome hpayload, hkeeps⟩
    rw [server_conclude]
    exact hasked

/-- A run that fails prints nothing to the output and leaves the files as they were; one whose query or
session cannot be had has asked nothing; and one that executes a query into a file and succeeds has
kept there, byte by byte, what the last reply brought, and printed nothing. Where the name of the file
stands for a device, that has been passed the bytes instead. -/
theorem run_leaves_no_trace (w : World) (args : List String) :
    ((w.run args).code ≠ 0 →
      (w.run args).stdout = [] ∧ (w.run args).passed = none ∧ (w.run args).files = w.files) ∧
    ((∀ i, Arguments.read w.extended.env args = .ok i → w.extended.Unready i) →
      (w.run args).server = w.server) ∧
    ∀ i flags path, Arguments.read w.extended.env args = .ok i →
      i.command = .execute flags (some path) → (w.run args).code = 0 →
      ∃ n body, w.server.asked ≤ n ∧ (w.run args).server.asked = n + 1 ∧
        (w.server.replies n).body? = some body ∧ (w.run args).Keeps w.files path body := by
  refine ⟨?_, ?_, ?_⟩
  · intro hcode
    cases hread : Arguments.read w.extended.env args with
    | error stop =>
      obtain ⟨houtput, hpassed, hfiles, _⟩ := run_of_stop hread
      exact ⟨Outcome.stdout_eq_nil houtput hpassed, hpassed, hfiles⟩
    | ok i =>
      rw [run_of_read hread] at hcode ⊢
      rw [← w.files_extended]
      obtain ⟨houtput, hpassed, hfiles⟩ := w.extended.failsOver_perform i hcode
      exact ⟨Outcome.stdout_eq_nil houtput hpassed, hpassed, hfiles⟩
  · intro hunready
    cases hread : Arguments.read w.extended.env args with
    | error stop => exact (run_of_stop hread).2.2.2.1
    | ok i => rw [run_of_read hread, server_perform (hunready i hread), server_extended]
  · intro i flags path hread hcommand hcode
    have hperform : w.run args = w.extended.execute i flags (some path) := by
      rw [run_of_read hread, perform, hcommand]
    rw [hperform] at hcode ⊢
    rw [← w.server_extended, ← w.files_extended]
    exact execute_file hcode

def busyWorld : World :=
  ⟨[("WCPS_SERVER_URL", "http://host/ows")], .ofList [("map.png", some [1])],
    Server.ofReplies [.answer 503 none [], .answer 200 (some "image/png") [0xFF]]⟩

def keepingArguments (path : String) : List String := ["execute", "-c", "A", "-o", path]

def refusedArguments : List String := keepingArguments "map.png" ++ ["-s", "2014"]

theorem run_leaves_no_trace_example :
    ((busyWorld.run refusedArguments).stdout = [] ∧
      (busyWorld.run refusedArguments).files = busyWorld.files ∧
      (busyWorld.run refusedArguments).server = busyWorld.server) ∧
    (∀ path ∈ ["map.png", "../new.png", "/tmp/new.png"],
      (busyWorld.run (keepingArguments path)).stdout = [] ∧
      (busyWorld.run (keepingArguments path)).files.find path = .ok (.file [0xFF])) ∧
    (busyWorld.run (keepingArguments "/dev/stdout")).stdout = [0xFF] ∧
    Payload.decode ⟨some "image/png", [0xFF]⟩ = .error (.nondecodable .unknownFormat) := by
  obtain ⟨hfails, hready, _⟩ := run_leaves_no_trace busyWorld refusedArguments
  have hrefused : Arguments.read busyWorld.extended.env refusedArguments = .ok
      ⟨some "http://host/ows", none, .execute ⟨["A"], ["2014"], none, none, none, none⟩
        (some "map.png")⟩ := by
    decide +kernel
  have hunready : ∀ i, Arguments.read busyWorld.extended.env refusedArguments = .ok i →
      busyWorld.extended.Unready i := by
    intro i hi
    obtain rfl := Except.ok.inj (hrefused.symm.trans hi)
    exact .inl ⟨_, rfl, .flags (.noEquals "2014"), by decide +kernel⟩
  have hkeeps (path : String)
      (hread : Arguments.read busyWorld.extended.env (keepingArguments path) = .ok
        ⟨some "http://host/ows", none, .execute ⟨["A"], [], none, none, none, none⟩ (some path)⟩)
      (hcode : (busyWorld.run (keepingArguments path)).code = 0)
      (hasked : (busyWorld.run (keepingArguments path)).server.asked = 2) :
      (busyWorld.run (keepingArguments path)).Keeps busyWorld.files path [0xFF] := by
    obtain ⟨_, _, hkeeps⟩ := run_leaves_no_trace busyWorld (keepingArguments path)
    obtain ⟨n, body, _, hn, hbody, hkeeps⟩ := hkeeps _ _ path hread rfl hcode
    obtain rfl : n = 1 := by omega
    obtain rfl : [0xFF] = body := Option.some.inj hbody
    exact hkeeps
  have hcode : (busyWorld.run refusedArguments).code ≠ 0 := by decide +kernel
  refine ⟨⟨(hfails hcode).1, (hfails hcode).2.2, hready hunready⟩, ?_, ?_, by decide +kernel⟩
  · refine List.forall_mem_cons.2 ⟨?_, List.forall_mem_cons.2 ⟨?_, List.forall_mem_singleton.2 ?_⟩⟩
    all_goals
      refine (hkeeps _ ?_ ?_ ?_).1 fun d => ?_
      · decide +kernel
      · decide +kernel
      · decide +kernel
      · cases d <;> decide +kernel
  · obtain ⟨houtput, hpassed, _⟩ := (hkeeps "/dev/stdout" (by decide +kernel) (by decide +kernel)
      (by decide +kernel)).2 .output (by decide +kernel)
    rw [Outcome.stdout, houtput, hpassed]
    rfl

end World
end CoverageQuery
