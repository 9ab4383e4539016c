import CoverageQuery.Client.Error
import CoverageQuery.Document.Record
import CoverageQuery.Json.Value
import CoverageQuery.Number.Integer
import CoverageQuery.Url.Basic
import CoverageQuery.Yaml.Reader

/-!
# Settings of a client

Settings name the server and say how long to wait, how often to try again and which version of the
coverage service to ask for. All but the server have defaults. They come from a record in a document
or from named variables; either way they are accepted only if the server has a URL of the web.
-/
namespace CoverageQuery

structure Settings where
  serverUrl : String
  requestTimeout : UInt64 := 60
  connectTimeout : UInt64 := 10
  maxRetries : UInt32 := 2
  /-- Milliseconds before the first retry; the delay doubles with each one. -/
  initialRetryDelay : UInt64 := 500
  maxRetryDelay : UInt64 := 8000
  serviceVersion : String := "2.0.1"
  deriving DecidableEq, Repr

namespace Settings

open Document

def ofServer (serverUrl : String) : Settings := { serverUrl }

def endpoint (s : Settings) : Except ClientError Url :=
  match Url.read s.serverUrl with
  | .error cause => .error (.ofEndpoint s.serverUrl (.malformed cause))
  | .ok (.other scheme) => .error (.ofEndpoint s.serverUrl (.unsupportedScheme scheme))
  | .ok (.web url) => .ok url

def validated (s : Settings) : Except ClientError Settings := s.endpoint.map fun _ => s

abbrev Variables := List (String × String)

def number {α : Type} (vars : Variables) (name : String) (read? : List Char → Option α) (default : α) :
    Except ClientError α :=
  match vars.lookup name with
  | none => .ok default
  | some value =>
    match read? value.toList with
    | some n => .ok n
    | none => .error (.settings (.invalid name value))

/-- Settings from variables, of which only the one with the server is required. -/
def ofVariables (vars : Variables) : Except ClientError Settings := do
  match vars.lookup SettingsFault.urlVariable with
  | none => throw (.settings .unset)
  | some url =>
    let base := ofServer url
    let maxRetries ← number vars "WCPS_MAX_RETRIES" Integer.readUInt32? base.maxRetries
    let requestTimeout ← number vars "WCPS_TIMEOUT_SECS" Integer.readUInt64? base.requestTimeout
    validated { base with maxRetries, requestTimeout }

structure Fields where
  serverUrl : Option String
  requestTimeout : Option UInt64
  connectTimeout : Option UInt64
  maxRetries : Option UInt32
  initialRetryDelay : Option UInt64
  maxRetryDelay : Option UInt64
  serviceVersion : Option String

def Fields.empty : Fields := ⟨none, none, none, none, none, none, none⟩

def natural (n : Node) : Reading UInt64 := (n.natBelow (Nat.pow 2 64) "u64").map UInt64.ofNat

def natural32 (n : Node) : Reading UInt32 := (n.natBelow (Nat.pow 2 32) "u32").map UInt32.ofNat

def Fields.settings (s : Fields) (serverUrl : String) : Settings :=
  let base := ofServer serverUrl
  { serverUrl
    requestTimeout := s.requestTimeout.getD base.requestTimeout
    connectTimeout := s.connectTimeout.getD base.connectTimeout
    maxRetries := s.maxRetries.getD base.maxRetries
    initialRetryDelay := s.initialRetryDelay.getD base.initialRetryDelay
    maxRetryDelay := s.maxRetryDelay.getD base.maxRetryDelay
    serviceVersion := s.serviceVersion.getD base.serviceVersion }

def record : Record Fields Settings where
  expected := "struct ClientConfig"
  slots := [⟨"server_url", Node.text, Fields.serverUrl, fun t s => { s with serverUrl := some t }⟩,
    ⟨"request_timeout_secs", natural, Fields.requestTimeout,
      fun k s => { s with requestTimeout := some k }⟩,
    ⟨"connect_timeout_secs", natural, Fields.connectTimeout,
      fun k s => { s with connectTimeout := some k }⟩,
    ⟨"max_retries", natural32, Fields.maxRetries, fun k s => { s with maxRetries := some k }⟩,
    ⟨"initial_retry_delay_ms", natural, Fields.initialRetryDelay,
      fun k s => { s with initialRetryDelay := some k }⟩,
    ⟨"max_retry_delay_ms", natural, Fields.maxRetryDelay,
      fun k s => { s with maxRetryDelay := some k }⟩,
    ⟨"wcs_version", Node.text, Fields.serviceVersion,
      fun t s => { s with serviceVersion := some t }⟩]
  empty := .empty
  finish s := match s.serverUrl with
    | none => .error 0
    | some url => .ok (s.settings url)

def ofNode (dialect : Dialect) (n : Node) : Reading Settings := record.read dialect n

def ofText (text : String) : Except ClientError Settings :=
  (Yaml.decode (ofNode .onDemand) text).mapError fun failure => .settings (.malformed failure)

def load (files : Files) (path : String) : Except ClientError Settings := do
  match files.readText path with
  | .error cause => throw (.settings (.unreadable path cause))
  | .ok text =>
    let settings ← ofText text
    settings.validated

def toJson (s : Settings) : Json :=
  .object [
    ("server_url", .string s.serverUrl),
    ("request_timeout_secs", .integer s.requestTimeout.toNat),
    ("connect_timeout_secs", .integer s.connectTimeout.toNat),
    ("max_retries", .integer s.maxRetries.toNat),
    ("initial_retry_delay_ms", .integer s.initialRetryDelay.toNat),
    ("max_retry_delay_ms", .integer s.maxRetryDelay.toNat),
    ("wcs_version", .string s.serviceVersion)]

end Settings
end CoverageQuery
