import CoverageQuery.Client.Error
import CoverageQuery.Image.Basic
import CoverageQuery.Number.Float
import CoverageQuery.Text.Blank

/-!
# Answers and what they mean

The payload of an answer is bytes with an optional content type. It is decoded as an image if it is
announced as one or is no text; a text that consists of numbers and of separators between them is
decoded as those numbers, in order, and any other text stands for itself. An empty payload is the
empty text.
-/
namespace CoverageQuery

open Utf8 (Bytes)

structure Payload where
  contentType : Option String
  body : Bytes
  deriving DecidableEq, Repr

inductive Decoded where
  | text (content : List Char)
  | values (numbers : List Binary64)
  | image (format : Image.Format) (size : Image.Size) (content : Bytes)
  deriving DecidableEq, Repr

namespace Decoded

def scalar? : Decoded → Option Binary64
  | values [x] => some x
  | _ => none

/-- A description on one line, but for texts, which stand for themselves. -/
def summary : Decoded → String
  | text content => String.ofList content
  | values numbers => ",".intercalate (numbers.map NumberLayout.summary.render)
  | image format size content =>
    format.name ++ " image " ++ toString size.width ++ "x" ++ toString size.height
      ++ " (" ++ toString content.length ++ " bytes)"

def isSeparator (c : Char) : Bool := c = ',' ∨ c = '{' ∨ c = '}' ∨ c = '"' ∨ Text.isBlank c

def isNumeral (c : Char) : Bool :=
  c.isDigit ∨ c = '.' ∨ c = '-' ∨ c = '+' ∨ c = 'e' ∨ c = 'E'

def tokens (cs : List Char) : List (List Char) :=
  (cs.splitOnP isSeparator).filter (!·.isEmpty)

def numbers? (cs : List Char) : Option (List Binary64) :=
  if cs.all fun c => isNumeral c ∨ isSeparator c then
    ((tokens cs).mapM Binary64.read?).filter (!·.isEmpty)
  else none

def ofText (cs : List Char) : Decoded :=
  match numbers? cs with
  | some numbers => .values numbers
  | none => .text cs

def ofImage (bytes : Bytes) : Except DecodeFault Decoded :=
  match Image.Format.guess? bytes with
  | none => .error .unknownFormat
  | some format =>
    match Image.size? format bytes with
    | some size => .ok (.image format size bytes)
    | none => .error (.corrupt format)

end Decoded

namespace Payload

def ofText (body : String) : Payload := ⟨some "text/plain", Utf8.encode body.toList⟩

def isEmpty (p : Payload) : Bool := p.body.isEmpty

def text (p : Payload) : Except ClientError String :=
  match Utf8.decode p.body with
  | .ok cs => .ok (String.ofList cs)
  | .error cause => .error (.nondecodable (.notText cause))

def announcesImage (contentType : Option String) : Bool :=
  contentType.any fun type => "image/".toList.isPrefixOf (Text.lower (Text.trim type.toList))

def decode (p : Payload) : Except ClientError Decoded :=
  let image := (Decoded.ofImage p.body).mapError ClientError.nondecodable
  if p.isEmpty then .ok (.text [])
  else if announcesImage p.contentType then image
  else
    match Utf8.decode? p.body with
    | some cs => .ok (.ofText cs)
    | none => image

end Payload
end CoverageQuery
