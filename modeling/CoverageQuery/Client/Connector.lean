import CoverageQuery.Client.Exchange
import CoverageQuery.Client.Settings
import CoverageQuery.Query.Render

/-!
# Connectors

A connector knows the settings and the URL of a server. It posts queries as a form with the one entry
`query`, and asks for documents with a form added to the query of the URL. Requests are waited for as
long and repeated as often as the settings allow.
-/
namespace CoverageQuery

def Settings.limits (s : Settings) : Limits :=
  ⟨s.connectTimeout.toNat * 1000, s.requestTimeout.toNat * 1000⟩

structure Connector where
  settings : Settings
  endpoint : Url
  deriving DecidableEq, Repr

namespace Connector

def ofSettings (settings : Settings) : Except ClientError Connector :=
  settings.endpoint.map fun endpoint => ⟨settings, endpoint⟩

def formType : String := "application/x-www-form-urlencoded"

def queryRequest (c : Connector) (text : String) : Request :=
  ⟨.post, c.endpoint, some formType, Form.encode [("query", text)]⟩

def service (c : Connector) (request : String) : Form.Pairs :=
  [("SERVICE", "WCS"), ("VERSION", c.settings.serviceVersion), ("REQUEST", request)]

def documentRequest (c : Connector) (pairs : Form.Pairs) : Request :=
  ⟨.get, c.endpoint.withForm pairs, none, []⟩

def capabilitiesRequest (c : Connector) : Request := c.documentRequest (c.service "GetCapabilities")

def coverageRequest (c : Connector) (coverage : String) : Request :=
  c.documentRequest (c.service "DescribeCoverage" ++ [("COVERAGEID", coverage)])

end Connector

structure Session where
  connector : Connector
  server : Server

namespace Session

def ask (s : Session) (request : Request) : Except ClientError Payload × Session :=
  let settings := s.connector.settings
  let (answer, server) := s.server.ask settings.limits request settings.maxRetries.toNat
  (answer, { s with server })

def submit (s : Session) (text : String) : Except ClientError Payload × Session :=
  s.ask (s.connector.queryRequest text)

def submitQuery (s : Session) (q : Query) : Except ClientError Payload × Session :=
  match q.render with
  | .ok text => s.submit text
  | .error e => (.error (.query e), s)

def document (s : Session) (request : Request) : Except ClientError String × Session :=
  let (answer, s) := s.ask request
  (answer >>= Payload.text, s)

def capabilities (s : Session) : Except ClientError String × Session :=
  s.document s.connector.capabilitiesRequest

def coverage (s : Session) (name : String) : Except ClientError String × Session :=
  s.document (s.connector.coverageRequest name)

end Session
end CoverageQuery
