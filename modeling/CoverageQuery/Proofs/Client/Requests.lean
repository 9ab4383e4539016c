import CoverageQuery.Client.Connector
import CoverageQuery.Proofs.Text.Form

/-!
# Requests carry their values

Whatever a request is answered, it is made again as it was, so a server sees one request, once or
several times. The body of a submitted query is the form with the query as its only value. The query of
the URL of a document is that of the server's own URL with the pairs of the document after it; no value
adds a pair to them or takes one away.
-/
namespace CoverageQuery

namespace Server

/-- Requests were made, each that the server has seen with this property. The server has seen one at
least unless it refused the first or was slow to be connected to. -/
structure Asks (s s' : Server) (P : Request → Prop) : Prop where
  made : s.asked < s'.asked
  seen : ∃ requests, s'.received = s.received ++ requests ∧
    ((∀ limits, (s.replies s.asked).isSeen limits = true) → requests ≠ []) ∧ ∀ r ∈ requests, P r

variable {limits : Limits}

theorem mem_sees {s : Server} {request r : Request} {count : Nat}
    (h : r ∈ (List.range count).filterMap fun n => s.sees limits request (s.asked + n)) : r = request := by
  obtain ⟨n, _, hn⟩ := List.mem_filterMap.1 h
  unfold sees at hn
  split at hn
  · exact (Option.some.inj hn).symm
  · exact absurd hn (by simp)

theorem sees_ne_nil {s : Server} {count : Nat} (h : (s.replies s.asked).isSeen limits = true)
    (hcount : 0 < count) (request : Request) :
    ((List.range count).filterMap fun n => s.sees limits request (s.asked + n)) ≠ [] := by
  have hfirst : s.sees limits request (s.asked + 0) = some request := if_pos h
  exact List.ne_nil_of_mem (List.mem_filterMap.2 ⟨0, List.mem_range.2 hcount, hfirst⟩)

theorem asks_ask (s : Server) (limits : Limits) (request : Request) (retries : Nat) :
    s.Asks (s.ask limits request retries).2 (· = request) := by
  have hcount := Retry.count_pos ClientError.isRetryable (s.outcomes limits) retries
  refine ⟨Nat.lt_add_of_pos_right hcount, _, rfl, fun h => ?_, fun r => mem_sees⟩
  exact sees_ne_nil (h limits) hcount request

theorem Asks.mono {s s' : Server} {P Q : Request → Prop} (h : s.Asks s' P) (hPQ : ∀ r, P r → Q r) :
    s.Asks s' Q := by
  obtain ⟨requests, hreceived, hseen, hall⟩ := h.seen
  exact ⟨h.made, requests, hreceived, hseen, fun r hr => hPQ r (hall r hr)⟩

end Server

def Url.form (u : Url) : Form.Pairs := Form.decode (u.query.getD [])

theorem Url.form_withForm (u : Url) (pairs : Form.Pairs) :
    (u.withForm pairs).form = u.form ++ pairs := by
  have hadded := Form.decode_encode pairs
  unfold withForm form
  cases u.query with
  | none => exact hadded
  | some known =>
    cases known with
    | nil => exact hadded
    | cons c known =>
      show Form.decode (c :: known ++ '&' :: Form.encode pairs) = _
      rw [Form.decode_append, hadded]
      rfl

namespace Connector

def Posts (c : Connector) (pairs : Form.Pairs) (r : Request) : Prop :=
  r.method = .post ∧ r.url = c.endpoint ∧ r.contentType = some formType ∧ Form.decode r.body = pairs

/-- A request for a document: it has no body, and of the server's URL it changes only the query, to
which it adds a form. -/
def Gets (c : Connector) (pairs : Form.Pairs) (r : Request) : Prop :=
  r.method = .get ∧ r.body = [] ∧ r.url = { c.endpoint with query := r.url.query } ∧
    r.url.form = c.endpoint.form ++ pairs

theorem posts_queryRequest (c : Connector) (text : String) :
    c.Posts [("query", text)] (c.queryRequest text) :=
  ⟨rfl, rfl, rfl, Form.decode_encode _⟩

theorem gets_documentRequest (c : Connector) (pairs : Form.Pairs) :
    c.Gets pairs (c.documentRequest pairs) :=
  ⟨rfl, rfl, rfl, c.endpoint.form_withForm pairs⟩

end Connector

namespace Session

theorem asks_submit (s : Session) (text : String) :
    s.server.Asks (s.submit text).2.server (s.connector.Posts [("query", text)]) :=
  (s.server.asks_ask _ _ _).mono fun _ hr => hr ▸ s.connector.posts_queryRequest text

theorem asks_document (s : Session) (pairs : Form.Pairs) :
    s.server.Asks (s.document (s.connector.documentRequest pairs)).2.server
      (s.connector.Gets pairs) :=
  (s.server.asks_ask _ _ _).mono fun _ hr => hr ▸ s.connector.gets_documentRequest pairs

/-- Every request for a query or a document carries exactly the values that it is made with, whatever
characters they hold and whatever query the URL of the server has. -/
theorem requests_carry_values (s : Session) :
    (∀ text, s.server.Asks (s.submit text).2.server (s.connector.Posts [("query", text)])) ∧
    s.server.Asks s.capabilities.2.server (s.connector.Gets
      [("SERVICE", "WCS"), ("VERSION", s.connector.settings.serviceVersion),
        ("REQUEST", "GetCapabilities")]) ∧
    ∀ coverage, s.server.Asks (s.coverage coverage).2.server (s.connector.Gets
      [("SERVICE", "WCS"), ("VERSION", s.connector.settings.serviceVersion),
        ("REQUEST", "DescribeCoverage"), ("COVERAGEID", coverage)]) :=
  ⟨s.asks_submit, s.asks_document _, fun _ => s.asks_document _⟩

end Session
end CoverageQuery
