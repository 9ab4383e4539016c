import CoverageQuery.Client.Connector

/-!
# Datacubes

A datacube is a query and a transport that takes query texts and gives answers. Executing submits the
text of the query as it stands at that moment; a query without text submits nothing. No execution
changes the query, and no change to the query touches the transport.
-/
namespace CoverageQuery

class Transport (σ : Type) where
  submit : σ → String → Except ClientError Payload × σ

instance : Transport Session := ⟨Session.submit⟩

/-- Answers given in advance, by the number of submissions before them, and what was submitted. -/
structure Script where
  answers : Nat → Except ClientError Payload
  submitted : List String

instance : Transport Script where
  submit s text := (s.answers s.submitted.length, { s with submitted := s.submitted ++ [text] })

def Script.ofAnswers (answers : List (Except ClientError Payload)) : Script :=
  ⟨Retry.stay answers (.error (.exchange .refused)), []⟩

structure Datacube (σ : Type) where
  query : Query
  transport : σ

namespace Datacube

variable {σ : Type} [Transport σ]

def executePayload (c : Datacube σ) : Except ClientError Payload × Datacube σ :=
  match c.query.render with
  | .error e => (.error (.query e), c)
  | .ok text =>
    let (answer, transport) := Transport.submit c.transport text
    (answer, { c with transport })

def execute (c : Datacube σ) : Except ClientError Decoded × Datacube σ :=
  let (answer, c) := c.executePayload
  (answer >>= Payload.decode, c)

inductive Step where
  | execute
  | executePayload
  | change (f : Query → Query)

inductive Outcome where
  | decoded (answer : Except ClientError Decoded)
  | payload (answer : Except ClientError Payload)
  | changed (query : Query)

def step (c : Datacube σ) : Step → Outcome × Datacube σ
  | .execute => let (answer, c) := c.execute; (.decoded answer, c)
  | .executePayload => let (answer, c) := c.executePayload; (.payload answer, c)
  | .change f => (.changed (f c.query), { c with query := f c.query })

def run (c : Datacube σ) : List Step → List Outcome × Datacube σ
  | [] => ([], c)
  | s :: rest =>
    let (outcome, c) := c.step s
    let (outcomes, c) := c.run rest
    (outcome :: outcomes, c)

end Datacube
end CoverageQuery
