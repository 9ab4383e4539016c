import CoverageQuery.Client.Connector
import CoverageQuery.Command.Arguments
import CoverageQuery.Query.Render

/-!
# Runs of the command line

A run renders a query, has it executed, or asks the server for a document. It is a function of the
environment, the files, the server and the arguments, and its outcome holds what is printed, what the
files hold afterwards and what the server has seen. An error is printed with its cause, and nothing
else is printed then.
-/
namespace CoverageQuery

inductive RunError where
  | flags (cause : FlagError)
  | unrendered (cause : QueryError)
  | unloaded (path : String) (cause : ClientError)
  | noServer (cause : ClientError)
  | client (cause : ClientError)
  | unwritten (path : String) (cause : FileFault)
  deriving DecidableEq, Repr

namespace RunError

def chain : RunError → List String
  | flags cause => cause.chain
  | unrendered cause => ["Failed to render query", cause.message]
  | unloaded path cause => ["Failed to load client config: " ++ path, cause.message]
  | noServer cause =>
    ["No server configured; pass --server-url or set " ++ SettingsFault.urlVariable, cause.message]
  | client cause => [cause.message]
  | unwritten path cause => ["Failed to write " ++ path, cause.message]

def causeLine (severally : Bool) (n : Nat) (cause : String) : String :=
  let margin := if severally then "    " ++ toString n ++ ": " else "    "
  let indent := if severally then "\n       " else "\n    "
  "\n" ++ margin ++ indent.intercalate ((cause.toList.splitOn '\n').map String.ofList)

def report (e : RunError) : String :=
  match e.chain with
  | [] => ""
  | [failure] => "Error: " ++ failure ++ "\n"
  | failure :: causes =>
    let severally := 1 < causes.length
    let lines := causes.zipIdx.map fun (cause, n) => causeLine severally n cause
    "Error: " ++ failure ++ "\n\nCaused by:" ++ String.join lines ++ "\n"

end RunError

structure World where
  env : Environment
  files : Files
  server : Server

structure Outcome where
  code : Nat
  output : String
  errors : String
  /-- What the answer was passed on to, if it was kept in a device. -/
  passed : Option (Device × Utf8.Bytes)
  files : Files
  server : Server

def Outcome.stdout (o : Outcome) : Utf8.Bytes :=
  Utf8.encode o.output.toList ++
    match o.passed with
    | some (.output, content) => content
    | _ => []

namespace World

def environmentFile : String := ".env"

/-- The world with the environment that its files give it. -/
def extended (w : World) : World :=
  match w.files.nearest? environmentFile with
  | some content => { w with env := w.env.extend content }
  | none => w

/-- The settings of a run: those of a file, with another server if one is given; else the defaults for
the server that is given; else those of the environment. -/
def settings (w : World) (i : Invocation) : Except RunError Settings :=
  match i.config, i.serverUrl with
  | some path, url => do
    let settings ← (Settings.load w.files path).mapError (.unloaded path)
    pure { settings with serverUrl := url.getD settings.serverUrl }
  | none, some url => .ok (Settings.ofServer url)
  | none, none => (Settings.ofVariables w.env).mapError .noServer

def session (w : World) (i : Invocation) : Except RunError Session := do
  let settings ← w.settings i
  let connector ← (Connector.ofSettings settings).mapError .client
  pure ⟨connector, w.server⟩

def queryText (w : World) (flags : QueryFlags) : Except RunError String := do
  let q ← (flags.build w.files).mapError .flags
  q.render.mapError .unrendered

def finish (w : World) : Except RunError String → Outcome
  | .ok text => ⟨0, text ++ "\n", "", none, w.files, w.server⟩
  | .error e => ⟨1, "", e.report, none, w.files, w.server⟩

def printed (payload : Payload) : Except ClientError String :=
  payload.decode.map fun decoded =>
    match decoded with
    | .text text => String.ofList text
    | other => other.summary

def save (w : World) (path : String) (payload : Payload) : Outcome :=
  match w.files.write path payload.body with
  | .ok done => ⟨0, "", "", done.passed, done.files, w.server⟩
  | .error cause => w.finish (.error (.unwritten path cause))

def execute (w : World) (i : Invocation) (flags : QueryFlags) (output : Option String) : Outcome :=
  match (do let text ← w.queryText flags; let s ← w.session i; pure (text, s)) with
  | .error e => w.finish (.error e)
  | .ok (text, s) =>
    let (answer, s) := s.submit text
    let w := { w with server := s.server }
    match answer, output with
    | .error e, _ => w.finish (.error (.client e))
    | .ok payload, some path => w.save path payload
    | .ok payload, none => w.finish ((printed payload).mapError .client)

def document (w : World) (i : Invocation) (ask : Session → Except ClientError String × Session) :
    Outcome :=
  match w.session i with
  | .error e => w.finish (.error e)
  | .ok s =>
    let (answer, s) := ask s
    { w with server := s.server }.finish (answer.mapError .client)

def perform (w : World) (i : Invocation) : Outcome :=
  match i.command with
  | .render flags => w.finish (w.queryText flags)
  | .execute flags output => w.execute i flags output
  | .capabilities => w.document i Session.capabilities
  | .describe coverage => w.document i fun s => s.coverage coverage

def run (w : World) (args : List String) : Outcome :=
  let w := w.extended
  match Arguments.read w.env args with
  | .ok i => w.perform i
  | .error .usage => ⟨2, "", "", none, w.files, w.server⟩
  | .error .help => ⟨0, "", "", none, w.files, w.server⟩

end World
end CoverageQuery
