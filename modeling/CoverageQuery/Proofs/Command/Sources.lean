import CoverageQuery.Proofs.Client.Retrying
import CoverageQuery.Proofs.Command.Effects
import CoverageQuery.Proofs.Command.Verbs

/-!
# Where the settings of a run come from

The arguments may name a server and a file with settings; two variables stand in for what they do not
name, and a run reads no other variable of its environment. A variable that names a server counts as an
argument that does: it goes before the server of a file, and without a file the other settings keep their
defaults. So the settings that variables could give are never asked for.
-/
namespace CoverageQuery

/-- The invocation with variables in the place of a server and a file that are not given. -/
def Invocation.within (i : Invocation) (env : Environment) : Invocation :=
  { i with
    serverUrl := i.serverUrl.or (env.lookup Arguments.urlVariable)
    config := i.config.or (env.lookup Arguments.configVariable) }

namespace Arguments

def server? (args : List String) : Option String :=
  (read [] args).toOption.bind Invocation.serverUrl

def file? (args : List String) : Option String := (read [] args).toOption.bind Invocation.config

theorem invocation_within {env : Environment} {program own : Given} {command : Command}
    {i : Invocation} (h : invocation env program own command = .ok i) :
    ∃ alone, invocation [] program own command = .ok alone ∧ i = alone.within env := by
  have hempty : ¬(([] : Environment).lookup configVariable = some "" ∧
      ¬(program.has .config ∧ own.has .config)) := by simp
  by_cases hconfig : env.lookup configVariable = some "" ∧ ¬(program.has .config ∧ own.has .config)
  · simp only [invocation, if_pos hconfig] at h
    exact absurd h Outcome.throw_ne_ok
  · simp only [invocation, if_neg hconfig, if_neg hempty] at h ⊢
    refine ⟨_, rfl, (Except.ok.inj h).symm.trans ?_⟩
    simp [Invocation.within]

/-- The environment only completes what the arguments ask for by themselves. -/
theorem read_within {env : Environment} {args : List String} {i : Invocation}
    (h : read env args = .ok i) : ∃ alone, read [] args = .ok alone ∧ i = alone.within env := by
  obtain ⟨⟨program, next⟩, hscan, hrest⟩ := Outcome.bind_eq_ok.1 h
  cases next with
  | none => exact absurd hrest Outcome.throw_ne_ok
  | some next =>
    obtain ⟨verb, rest⟩ := next
    by_cases hverb : verb = .help
    · subst hverb
      exact absurd hrest Outcome.throw_ne_ok
    · rw [read_of_scan hscan hverb] at h
      obtain ⟨own, hown, h⟩ := Outcome.bind_eq_ok.1 h
      obtain ⟨command, hcommand, h⟩ := Outcome.bind_eq_ok.1 h
      obtain ⟨alone, halone, hi⟩ := invocation_within h
      refine ⟨alone, ?_, hi⟩
      rw [read_of_scan hscan hverb]
      exact Outcome.bind_eq_ok.2 ⟨own, hown, Outcome.bind_eq_ok.2 ⟨command, hcommand, halone⟩⟩

theorem serverUrl_of_read {env : Environment} {args : List String} {i : Invocation}
    (h : read env args = .ok i) : i.serverUrl = (server? args).or (env.lookup urlVariable) := by
  obtain ⟨alone, halone, rfl⟩ := read_within h
  rw [server?, halone]
  rfl

theorem config_of_read {env : Environment} {args : List String} {i : Invocation}
    (h : read env args = .ok i) : i.config = (file? args).or (env.lookup configVariable) := by
  obtain ⟨alone, halone, rfl⟩ := read_within h
  rw [file?, halone]
  rfl

theorem read_congr {env env' : Environment} (hurl : env.lookup urlVariable = env'.lookup urlVariable)
    (hconfig : env.lookup configVariable = env'.lookup configVariable) (args : List String) :
    read env args = read env' args := by
  simp only [read, hurl, hconfig]

end Arguments

/-- A request to a server: of the server's URL it changes only the query, to which it adds a form. -/
def Request.GoesTo (r : Request) (url : Url) : Prop :=
  r.url = { url with query := r.url.query } ∧ ∃ pairs, r.url.form = url.form ++ pairs

theorem Connector.Posts.goesTo {c : Connector} {pairs : Form.Pairs} {r : Request}
    (h : c.Posts pairs r) : r.GoesTo c.endpoint := by
  obtain ⟨_, hurl, _⟩ := h
  rw [Request.GoesTo, hurl]
  exact ⟨rfl, [], by simp⟩

theorem Connector.Gets.goesTo {c : Connector} {pairs : Form.Pairs} {r : Request}
    (h : c.Gets pairs r) : r.GoesTo c.endpoint := by
  obtain ⟨_, _, hurl, hform⟩ := h
  exact ⟨hurl, pairs, hform⟩

def Command.asks : Command → Bool
  | render _ => false
  | _ => true

theorem Settings.endpoint_congr {s s' : Settings} (h : s.serverUrl = s'.serverUrl) :
    s.endpoint = s'.endpoint := by
  rw [endpoint, endpoint, h]

theorem Server.asked_ask_le (s : Server) (limits : Limits) (request : Request) (retries : Nat) :
    (s.ask limits request retries).2.asked ≤ s.asked + (retries + 1) :=
  Nat.add_le_add_left (Retry.count_le ClientError.isRetryable (s.outcomes limits) retries) _

namespace World

theorem session_eq_ok {w : World} {i : Invocation} {s : Session} :
    w.session i = .ok s ↔ ∃ settings endpoint, w.settings i = .ok settings ∧
      settings.endpoint = .ok endpoint ∧ s = ⟨⟨settings, endpoint⟩, w.server⟩ := by
  simp only [session, Outcome.bind_eq_ok, Outcome.mapError_eq_ok, Connector.ofSettings,
    Outcome.map_eq_ok]
  constructor
  · rintro ⟨settings, hsettings, _, ⟨endpoint, hendpoint, rfl⟩, hs⟩
    exact ⟨settings, endpoint, hsettings, hendpoint, (Except.ok.inj hs).symm⟩
  · rintro ⟨settings, endpoint, hsettings, hendpoint, rfl⟩
    exact ⟨settings, hsettings, _, ⟨endpoint, hendpoint, rfl⟩, rfl⟩

theorem exists_request {w : World} {i : Invocation} (hasks : i.command.asks)
    (hready : ¬w.Unready i) :
    ∃ s request, w.session i = .ok s ∧ request.GoesTo s.connector.endpoint ∧
      (w.perform i).server = (w.server.ask s.connector.settings.limits request s.connector.settings.maxRetries.toNat).2 := by
  have hdocument (pairs : Session → Form.Pairs) :
      ∃ s request, w.session i = .ok s ∧ request.GoesTo s.connector.endpoint ∧
        (w.document i fun s => s.document (s.connector.documentRequest (pairs s))).server =
          (w.server.ask s.connector.settings.limits request s.connector.settings.maxRetries.toNat).2 := by
    rcases w.document_cases i fun s => s.document (s.connector.documentRequest (pairs s)) with
      ⟨e, he, _⟩ | ⟨s, hs, hdone⟩
    · exact absurd (.inr ⟨e, he⟩) hready
    · refine ⟨s, _, hs, (s.connector.gets_documentRequest (pairs s)).goesTo, ?_⟩
      rw [hdone, server_finish, ← server_of_session hs]
      rfl
  unfold perform
  cases hcommand : i.command with
  | render flags =>
    rw [hcommand] at hasks
    exact absurd hasks Bool.false_ne_true
  | execute flags output =>
    rcases w.execute_cases i flags output with ⟨e, he, _⟩ | ⟨text, s, _, hs, hdone⟩
    · refine absurd (he.imp (fun h => ⟨flags, ?_, e, h⟩) fun h => ⟨e, h⟩) hready
      rw [hcommand]
      rfl
    · refine ⟨s, _, hs, (s.connector.posts_queryRequest text).goesTo, ?_⟩
      simp only [hdone, server_conclude, ← server_of_session hs]
      rfl
  | capabilities => exact hdocument fun s => s.connector.service "GetCapabilities"
  | describe coverage =>
    exact hdocument fun s => s.connector.service "DescribeCoverage" ++ [("COVERAGEID", coverage)]

/-- Without a server in the arguments, a run that takes its settings from a file asks the server that
the variable names, and that of the file only when the variable is not set. The other settings are those
of the file. -/
theorem run_asks_named_server {w : World} {args : List String} {path : String} {settings : Settings}
    (hserver : Arguments.server? args = none)
    (hfile : (Arguments.file? args).or (w.extended.env.lookup Arguments.configVariable) = some path)
    (hload : Settings.load w.files path = .ok settings) :
    let named := (w.extended.env.lookup Arguments.urlVariable).getD settings.serverUrl
    (∀ i, Arguments.read w.extended.env args = .ok i → i.command.asks → ¬w.extended.Unready i →
      ∃ url, (Settings.ofServer named).endpoint = .ok url ∧
        w.server.Asks (w.run args).server (·.GoesTo url) ∧
        (w.run args).server.asked ≤ w.server.asked + (settings.maxRetries.toNat + 1)) ∧
    ((∀ i, Arguments.read w.extended.env args = .ok i → i.command.asks → w.extended.Unready i) →
      (w.run args).server = w.server) := by
  intro named
  refine ⟨fun i hread hasks hready => ?_, fun hunready => ?_⟩
  · have hsettings : w.extended.settings i = .ok { settings with serverUrl := named } := by
      simp only [World.settings, Arguments.config_of_read hread, Arguments.serverUrl_of_read hread,
        hfile, hserver, files_extended, hload]
      rfl
    obtain ⟨s, request, hs, hgoes, hperform⟩ := exists_request hasks hready
    obtain ⟨settings', url, hsettings', hurl, rfl⟩ := session_eq_ok.1 hs
    obtain rfl := Except.ok.inj (hsettings.symm.trans hsettings')
    have hnamed : (Settings.ofServer named).endpoint = .ok url := by
      rw [← hurl]
      exact Settings.endpoint_congr rfl
    rw [run_of_read hread, hperform, server_extended]
    refine ⟨url, hnamed, (w.server.asks_ask _ request _).mono fun r hr => ?_,
      w.server.asked_ask_le _ request _⟩
    exact hr ▸ hgoes
  · cases hread : Arguments.read w.extended.env args with
    | error stop => exact (run_of_stop hread).2.2.2.1
    | ok i =>
      rw [run_of_read hread, ← w.server_extended]
      by_cases hasks : i.command.asks
      · exact server_perform (hunready i hread hasks)
      · unfold perform
        cases hcommand : i.command with
        | render flags => exact server_finish _ _
        | execute | capabilities | describe =>
          rw [hcommand] at hasks
          exact absurd rfl hasks

def contestedWorld : World :=
  ⟨[("WCPS_SERVER_URL", "http://variable/ows"), ("WCPS_CONFIG", "client.yaml")],
    .ofList [("client.yaml", some (Utf8.encode "server_url: http://file/ows\n".toList))],
    Server.ofReplies [.answer 200 none []]⟩

theorem run_asks_named_server_example :
    ∃ url, (Settings.ofServer "http://variable/ows").endpoint = .ok url ∧
      contestedWorld.server.Asks (contestedWorld.run ["capabilities"]).server (·.GoesTo url) := by
  have hread : Arguments.read contestedWorld.extended.env ["capabilities"] =
      .ok ⟨some "http://variable/ows", some "client.yaml", .capabilities⟩ := by
    decide +kernel
  have hload : Settings.load contestedWorld.files "client.yaml" =
      .ok (Settings.ofServer "http://file/ows") := by
    decide +kernel
  have hserver : Arguments.server? ["capabilities"] = none := by decide +kernel
  have hfile : (Arguments.file? ["capabilities"]).or
      (contestedWorld.extended.env.lookup Arguments.configVariable) = some "client.yaml" := by
    decide +kernel
  obtain ⟨hasks, _⟩ := run_asks_named_server hserver hfile hload
  obtain ⟨url, hurl, hseen, _⟩ := hasks _ hread rfl fun hunready => by
    rcases hunready with ⟨flags, hflags, _⟩ | ⟨e, he⟩
    · exact absurd hflags (by simp [Command.flags?])
    · have hsession : (contestedWorld.extended.session
          ⟨some "http://variable/ows", some "client.yaml", .capabilities⟩).isOk := by
        decide +kernel
      rw [he] at hsession
      exact absurd hsession Bool.false_ne_true
  have hvariable : contestedWorld.extended.env.lookup Arguments.urlVariable =
      some "http://variable/ows" := by
    decide +kernel
  rw [hvariable] at hurl
  exact ⟨url, hurl, hseen⟩

theorem variable_beats_file :
    Arguments.server? ["capabilities"] = none ∧
    contestedWorld.extended.env.lookup Arguments.configVariable = some "client.yaml" ∧
    Settings.load contestedWorld.files "client.yaml" = .ok (Settings.ofServer "http://file/ows") ∧
    (contestedWorld.run ["capabilities"]).server.received.map (fun r => String.ofList r.url.text) =
      ["http://variable/ows?SERVICE=WCS&VERSION=2.0.1&REQUEST=GetCapabilities"] := by
  decide +kernel

end World

def Server.IsBusy (s : Server) : Prop :=
  ∀ n, ∃ contentType body, s.replies n = .answer 503 contentType body

theorem Server.received_of_busy {s : Server} (h : s.IsBusy) (limits : Limits) (request : Request)
    (retries : Nat) :
    (s.ask limits request retries).2.received =
      s.received ++ List.replicate (retries + 1) request := by
  have hsettles : Retry.Settles ClientError.isRetryable (s.outcomes limits) retries retries := by
    refine ⟨Nat.le_refl retries, fun i _ => ?_, fun hlt => absurd hlt (Nat.lt_irrefl retries)⟩
    obtain ⟨contentType, body, hreply⟩ := h (s.asked + i)
    rw [outcomes, hreply]
    rfl
  have hsees (n : Nat) : s.sees limits request (s.asked + n) = some request := by
    obtain ⟨contentType, body, hreply⟩ := h (s.asked + n)
    rw [sees, hreply]
    rfl
  rw [ask_eq hsettles]
  simp [after, hsees]

theorem Settings.ofVariables_eq_default {vars : Variables} {url : String} {endpoint : Url}
    (hurl : vars.lookup SettingsFault.urlVariable = some url)
    (hendpoint : (ofServer url).endpoint = .ok endpoint) :
    ofVariables vars = .ok (ofServer url) ↔
      number vars "WCPS_MAX_RETRIES" Integer.readUInt32? 2 = .ok 2 ∧
        number vars "WCPS_TIMEOUT_SECS" Integer.readUInt64? 60 = .ok 60 := by
  have hvalidated (maxRetries : UInt32) (requestTimeout : UInt64) :
      validated { ofServer url with maxRetries, requestTimeout } =
        .ok { ofServer url with maxRetries, requestTimeout } :=
    congrArg (Except.map fun _ => _) hendpoint
  simp only [ofVariables, hurl, Outcome.bind_eq_ok, hvalidated]
  constructor
  · rintro ⟨retries, hretries, timeout, htimeout, h⟩
    have hsettings := Except.ok.inj h
    obtain rfl : retries = 2 := congrArg maxRetries hsettings
    obtain rfl : timeout = 60 := congrArg requestTimeout hsettings
    exact ⟨hretries, htimeout⟩
  · rintro ⟨hretries, htimeout⟩
    exact ⟨2, hretries, 60, htimeout, rfl⟩

namespace World

variable {w : World} {env : Environment} {i : Invocation}

theorem finish_env (r : Except RunError String) : { w with env }.finish r = w.finish r := by
  cases r <;> rfl

theorem save_env (path : String) (payload : Payload) :
    { w with env }.save path payload = w.save path payload := by
  unfold save
  cases w.files.write path payload.body <;> rfl

theorem conclude_env (output : Option String) (answer : Except ClientError Payload) :
    { w with env }.conclude output answer = w.conclude output answer := by
  cases answer with
  | error e => rfl
  | ok payload =>
    cases output with
    | none => exact finish_env _
    | some path => exact save_env path payload

theorem perform_env (h : { w with env }.settings i = w.settings i) :
    { w with env }.perform i = w.perform i := by
  have hsession : { w with env }.session i = w.session i := by simp only [session, h]
  have hdocument (ask : Session → Except ClientError String × Session) :
      { w with env }.document i ask = w.document i ask := by
    simp only [document, hsession]
    cases w.session i with
    | error e => rfl
    | ok s => exact finish_env (w := { w with server := (ask s).2.server }) _
  unfold perform
  cases i.command with
  | render flags => exact finish_env _
  | execute flags output =>
    cases htext : w.queryText flags with
    | error e =>
      simp only [execute, show { w with env }.queryText flags = .error e from htext, htext]
      exact finish_env _
    | ok text =>
      cases hs : w.session i with
      | error e =>
        simp only [execute, hsession, hs, show { w with env }.queryText flags = .ok text from htext,
          htext]
        exact finish_env _
      | ok s =>
        have hstart := execute_of_ready (w := { w with env }) htext (hsession.trans hs) output
        refine hstart.trans (Eq.trans ?_ (execute_of_ready htext hs output).symm)
        exact conclude_env (w := { w with server := (s.submit text).2.server }) output _
  | capabilities => exact hdocument _
  | describe coverage => exact hdocument _

theorem run_env {w w' : World} {args : List String} {i : Invocation} (hfiles : w'.files = w.files)
    (hserver : w'.server = w.server) (hread : Arguments.read w.extended.env args = .ok i)
    (hread' : Arguments.read w'.extended.env args = .ok i)
    (hsettings : w'.extended.settings i = w.extended.settings i) : w'.run args = w.run args := by
  have hworld : w'.extended = { w.extended with env := w'.extended.env } := by
    rw [World.mk.injEq]
    simp only [files_extended, server_extended, hfiles, hserver, and_self]
  rw [run_of_read hread, run_of_read hread', hworld]
  exact perform_env (hworld ▸ hsettings)

/-- A variable of the program that its arguments do not fall back on. -/
def IsSpare (name : String) : Prop :=
  "WCPS_".toList <+: name.toList ∧ name ≠ Arguments.urlVariable ∧ name ≠ Arguments.configVariable

/-- A run with a server from the variable, and with no file, has the default settings. They are those of
the variables only when these ask for no others. A server that stays busy gets three requests, and the
program's other variables change nothing. -/
theorem run_keeps_default_settings {w : World} {args : List String} {i : Invocation} {url : String}
    {endpoint : Url} (hserver : Arguments.server? args = none)
    (hfile : (Arguments.file? args).or (w.extended.env.lookup Arguments.configVariable) = none)
    (hurl : w.extended.env.lookup Arguments.urlVariable = some url)
    (hendpoint : (Settings.ofServer url).endpoint = .ok endpoint)
    (hread : Arguments.read w.extended.env args = .ok i) :
    w.extended.settings i = .ok (Settings.ofServer url) ∧
    (Settings.ofVariables w.extended.env = .ok (Settings.ofServer url) ↔
      Settings.number w.extended.env "WCPS_MAX_RETRIES" Integer.readUInt32? 2 = .ok 2 ∧
        Settings.number w.extended.env "WCPS_TIMEOUT_SECS" Integer.readUInt64? 60 = .ok 60) ∧
    (i.command.asks → (∀ flags ∈ i.command.flags?, ∃ text, w.extended.queryText flags = .ok text) →
      w.server.IsBusy → ∃ request, request.GoesTo endpoint ∧
        (w.run args).server.received = w.server.received ++ List.replicate 3 request) ∧
    ∀ w' : World, w'.files = w.files → w'.server = w.server →
      (∀ name, ¬IsSpare name → w'.extended.env.lookup name = w.extended.env.lookup name) →
      w'.run args = w.run args := by
  have hsettings {w' : World} (hread : Arguments.read w'.extended.env args = .ok i)
      (hurl : w'.extended.env.lookup Arguments.urlVariable = some url)
      (hfile : (Arguments.file? args).or (w'.extended.env.lookup Arguments.configVariable) = none) :
      w'.extended.settings i = .ok (Settings.ofServer url) := by
    simp only [World.settings, Arguments.config_of_read hread, Arguments.serverUrl_of_read hread,
      hfile, hserver, hurl, Option.none_or]
  refine ⟨hsettings hread hurl hfile, Settings.ofVariables_eq_default hurl hendpoint,
    fun hasks htext hbusy => ?_, fun w' hfiles hsame hagree => ?_⟩
  · have hready : ¬w.extended.Unready i := by
      rintro (⟨flags, hflags, e, he⟩ | ⟨e, he⟩)
      · obtain ⟨text, htext⟩ := htext flags hflags
        exact absurd (he.symm.trans htext) (by simp)
      · have hs := session_eq_ok.2 ⟨_, endpoint, hsettings hread hurl hfile, hendpoint, rfl⟩
        exact absurd (he.symm.trans hs) (by simp)
    obtain ⟨s, request, hs, hgoes, hperform⟩ := exists_request hasks hready
    obtain ⟨settings, endpoint', hsettings', hendpoint', rfl⟩ := session_eq_ok.1 hs
    obtain rfl := Except.ok.inj ((hsettings hread hurl hfile).symm.trans hsettings')
    obtain rfl := Except.ok.inj (hendpoint.symm.trans hendpoint')
    refine ⟨request, hgoes, ?_⟩
    rw [run_of_read hread, hperform, server_extended]
    exact Server.received_of_busy hbusy _ request _
  · have hurl' := hagree Arguments.urlVariable fun h => h.2.1 rfl
    have hconfig := hagree Arguments.configVariable fun h => h.2.2 rfl
    have hread' : Arguments.read w'.extended.env args = .ok i :=
      (Arguments.read_congr hurl' hconfig args).trans hread
    refine run_env hfiles hsame hread hread' ((hsettings hread' (hurl'.trans hurl) ?_).trans
      (hsettings hread hurl hfile).symm)
    rw [hconfig]
    exact hfile

def patientWorld (retries : String) : World :=
  ⟨[("WCPS_SERVER_URL", "http://host/ows"), ("WCPS_MAX_RETRIES", retries)], .ofList [],
    Server.ofReplies [.answer 503 none []]⟩

theorem isBusy_patientWorld (retries : String) : (patientWorld retries).server.IsBusy :=
  fun n => ⟨none, [], by simp [patientWorld, Server.ofReplies, Retry.stay]⟩

theorem run_keeps_default_settings_example :
    (∃ request, ((patientWorld "0").run ["capabilities"]).server.received =
      List.replicate 3 request) ∧
    (patientWorld "many").run ["capabilities"] = (patientWorld "0").run ["capabilities"] ∧
    Settings.ofVariables (patientWorld "0").extended.env ≠
      .ok (Settings.ofServer "http://host/ows") := by
  have hread : Arguments.read (patientWorld "0").extended.env ["capabilities"] =
      .ok ⟨some "http://host/ows", none, .capabilities⟩ := by
    decide +kernel
  obtain ⟨endpoint, hendpoint⟩ : ∃ endpoint,
      (Settings.ofServer "http://host/ows").endpoint = .ok endpoint :=
    ⟨⟨"http", [], .domain "host".toList, none, ["ows".toList], none, none⟩, by decide +kernel⟩
  have hserver : Arguments.server? ["capabilities"] = none := by decide +kernel
  have hfile : (Arguments.file? ["capabilities"]).or
      ((patientWorld "0").extended.env.lookup Arguments.configVariable) = none := by
    decide +kernel
  have hurl : (patientWorld "0").extended.env.lookup Arguments.urlVariable =
      some "http://host/ows" := by
    decide +kernel
  obtain ⟨_, hdefault, hbusy, hsame⟩ :=
    run_keeps_default_settings hserver hfile hurl hendpoint hread
  obtain ⟨request, _, hreceived⟩ := hbusy rfl (by simp [Command.flags?]) (isBusy_patientWorld "0")
  refine ⟨⟨request, hreceived.trans (List.nil_append _)⟩, ?_, fun h => ?_⟩
  · refine hsame (patientWorld "many") rfl rfl fun name hname => ?_
    have hretries : (name == "WCPS_MAX_RETRIES") = false := by
      refine beq_eq_false_iff_ne.2 fun h => hname ?_
      rw [h]
      exact ⟨by decide, by decide, by decide⟩
    have henv (retries : String) : (patientWorld retries).extended.env =
        [("WCPS_SERVER_URL", "http://host/ows"), ("WCPS_MAX_RETRIES", retries)] := rfl
    simp only [henv, List.lookup_cons, hretries]
  · exact absurd (hdefault.1 h).1 (by decide +kernel)

theorem variables_of_settings_unread :
    Settings.ofVariables (patientWorld "0").extended.env =
      .ok { Settings.ofServer "http://host/ows" with maxRetries := 0 } ∧
    ((patientWorld "0").run ["capabilities"]).server.received.length = 3 ∧
    Settings.ofVariables (patientWorld "many").extended.env =
      .error (.settings (.invalid "WCPS_MAX_RETRIES" "many")) ∧
    ((patientWorld "many").run ["capabilities"]).server.received.length = 3 := by
  decide +kernel

end World
end CoverageQuery
