import CoverageQuery.Client.Payload
import CoverageQuery.Client.Retry
import CoverageQuery.Url.Basic

/-!
# Exchanges with a server

A server answers each request by the number of requests before it. It may refuse the connection, in
which case it sees nothing of the request, close it without an answer, or give a status, a content type
and a body, at once or after some time. An answer that comes too late is not waited for. One that does
not report success is an error with the beginning of its body.
-/
namespace CoverageQuery

open Utf8 (Bytes)

inductive RequestMethod where
  | get
  | post
  deriving DecidableEq, Repr

def RequestMethod.name : RequestMethod → String
  | get => "GET"
  | post => "POST"

structure Request where
  method : RequestMethod
  url : Url
  contentType : Option String
  body : List Char
  deriving DecidableEq, Repr

structure Limits where
  connection : Nat
  whole : Nat
  deriving DecidableEq, Repr

/-- What a request comes to in the end. Redirects are followed within one request, so they are no
replies. -/
inductive Reply where
  | refusal
  | drop
  | answer (status : Nat) (contentType : Option String) (body : Bytes)
  /-- An answer that takes so many milliseconds, some of them before there is a connection. -/
  | slow (connection whole status : Nat) (contentType : Option String) (body : Bytes)
  deriving DecidableEq, Repr

namespace Reply

def bodyLimit : Nat := 2048

def isHeaderChar (c : Char) : Bool := (32 ≤ c.toNat ∧ c.toNat < 127) ∨ c = '\t'

def isHeaderBlank (c : Char) : Bool := c = ' ' ∨ c = '\t'

def headerText? (value : String) : Option String :=
  let cs := (value.toList.dropWhile isHeaderBlank).reverse.dropWhile isHeaderBlank
  if cs.all isHeaderChar then some (String.ofList cs.reverse) else none

def isSuccess (status : Nat) : Bool := 200 ≤ status ∧ status < 300

def isBodiless (status : Nat) : Bool := status = 204 ∨ status = 304

def errorText (body : Bytes) : String :=
  String.ofList (Utf8.takeBytes bodyLimit (Utf8.decodeLenient body))

def answered (status : Nat) (contentType : Option String) (body : Bytes) :
    Except ClientError Payload :=
  let body := if isBodiless status then [] else body
  if isSuccess status then .ok ⟨contentType.bind headerText?, body⟩
  else .error (.status status (errorText body))

def outcome (limits : Limits) : Reply → Except ClientError Payload
  | refusal => .error (.exchange .refused)
  | drop => .error (.exchange .dropped)
  | answer status contentType body => answered status contentType body
  | slow connection whole status contentType body =>
    if connection < limits.connection ∧ whole < limits.whole then
      answered status contentType body
    else .error (.exchange .timedOut)

def isSeen (limits : Limits) : Reply → Bool
  | refusal => false
  | slow connection .. => connection < limits.connection ∧ connection < limits.whole
  | _ => true

end Reply

structure Server where
  replies : Nat → Reply
  asked : Nat
  received : List Request

namespace Server

/-- A server that gives its replies in order and the last one again and again. Without replies it
refuses all connections. -/
def ofReplies (replies : List Reply) : Server := ⟨Retry.stay replies .refusal, 0, []⟩

variable (limits : Limits)

def sees (s : Server) (request : Request) (n : Nat) : Option Request :=
  if (s.replies n).isSeen limits then some request else none

def outcomes (s : Server) (n : Nat) : Except ClientError Payload :=
  (s.replies (s.asked + n)).outcome limits

def ask (s : Server) (request : Request) (retries : Nat) : Except ClientError Payload × Server :=
  let outcomes := s.outcomes limits
  let count := Retry.count ClientError.isRetryable outcomes retries
  let seen := (List.range count).filterMap fun n => s.sees limits request (s.asked + n)
  (Retry.answer ClientError.isRetryable outcomes retries,
    { s with asked := s.asked + count, received := s.received ++ seen })

end Server
end CoverageQuery
