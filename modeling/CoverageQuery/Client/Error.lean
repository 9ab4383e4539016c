import CoverageQuery.Document.Fault
import CoverageQuery.Files
import CoverageQuery.Image.Format
import CoverageQuery.Query.Value
import CoverageQuery.Url.Host

/-!
# Errors of a client

A client fails because its query has no text, its server has no usable URL, its settings cannot be
read, the exchange breaks down, the server answers with another status than success, or the answer
cannot be decoded. Asking again can help only against a refused connection, an answer that is late, a
failure of the server and a server that is asked too often.
-/
namespace CoverageQuery

inductive EndpointFault where
  | malformed (cause : UrlError)
  | unsupportedScheme (scheme : String)
  deriving DecidableEq, Repr

def EndpointFault.message : EndpointFault → String
  | malformed cause => cause.message
  | unsupportedScheme scheme => "unsupported scheme '" ++ scheme ++ "'"

inductive SettingsFault where
  | unset
  | invalid (name value : String)
  | unreadable (path : String) (cause : FileFault)
  | malformed (cause : Document.Failure)
  | stated (text : String)
  deriving DecidableEq, Repr

inductive ExchangeFault where
  | refused
  | timedOut
  | dropped
  deriving DecidableEq, Repr

inductive DecodeFault where
  | notText (cause : Utf8.Fault)
  | unknownFormat
  | corrupt (format : Image.Format)
  | stated (text : String)
  deriving DecidableEq, Repr

inductive ClientError where
  | query (cause : QueryError)
  | invalidUrl (text : String)
  | settings (cause : SettingsFault)
  | exchange (cause : ExchangeFault)
  | status (code : Nat) (body : String)
  | nondecodable (cause : DecodeFault)
  deriving DecidableEq, Repr

namespace SettingsFault

def urlVariable : String := "WCPS_SERVER_URL"

def message : SettingsFault → String
  | unset => urlVariable ++ " is not set"
  | invalid name value => "Invalid " ++ name ++ ": " ++ value
  | unreadable path cause => "Failed to read " ++ path ++ ": " ++ cause.message
  | malformed cause => "YAML error: " ++ cause.text
  | stated text => text

end SettingsFault

def DecodeFault.message : DecodeFault → String
  | notText cause => "response is not UTF-8: " ++ cause.message
  | unknownFormat => "data is neither text nor a known image format"
  | corrupt format => "corrupt " ++ format.name ++ " image"
  | stated text => text

def ExchangeFault.message : ExchangeFault → String
  | refused => "connection refused"
  | timedOut => "operation timed out"
  | dropped => "connection closed before the answer"

namespace ClientError

def ofEndpoint (url : String) (cause : EndpointFault) : ClientError :=
  invalidUrl (url ++ ": " ++ cause.message)

def message : ClientError → String
  | query cause => "Query error: " ++ cause.message
  | invalidUrl text => "Invalid server URL: " ++ text
  | settings cause => "Configuration error: " ++ cause.message
  | exchange cause => "HTTP error: " ++ cause.message
  | status code body => "Server returned " ++ toString code ++ ": " ++ body
  | nondecodable cause => "Cannot decode response: " ++ cause.message

def isRetryable : ClientError → Bool
  | status code _ => 500 ≤ code ∨ code = 429
  | exchange cause => cause = .refused ∨ cause = .timedOut
  | _ => false

def status? : ClientError → Option Nat
  | status code _ => some code
  | _ => none

end ClientError
end CoverageQuery
