import CoverageQuery.Text.Form
import CoverageQuery.Url.Domain

/-!
# Hosts of URLs

A host is a domain name, an address of four bytes, or an address of eight groups of sixteen bits in
brackets. A name whose last part is a number has to be an address of four bytes, which may leave out
parts and use octal or hexadecimal notation; it is always written in full and in decimal. Groups of
zeros in the longest run of at least two are left out of an address in brackets.
-/
namespace CoverageQuery

inductive UrlError where
  | relative
  | emptyHost
  | invalidPort
  | invalidAddress
  | invalidBracketed
  | invalidDomain
  | invalidCharacter
  deriving DecidableEq, Repr

def UrlError.message : UrlError → String
  | relative => "relative URL without a base"
  | emptyHost => "empty host"
  | invalidPort => "invalid port number"
  | invalidAddress => "invalid IPv4 address"
  | invalidBracketed => "invalid IPv6 address"
  | invalidDomain => "invalid international domain name"
  | invalidCharacter => "invalid domain character"

inductive Host where
  | domain (name : List Char)
  | address (value : Nat)
  | bracketed (groups : List Nat)
  deriving DecidableEq, Repr

namespace Host

def part? (cs : List Char) : Option Nat :=
  match cs with
  | [] => none
  | '0' :: x :: rest =>
    if x = 'x' ∨ x = 'X' then (if rest.isEmpty then some 0 else Digits.readBase? 16 rest)
    else Digits.readBase? 8 (x :: rest)
  | _ => Digits.readBase? 10 cs

def parts (cs : List Char) : List (List Char) :=
  let all := cs.splitOn '.'
  if all.getLast? = some [] then all.dropLast else all

def endsInNumber (cs : List Char) : Bool :=
  match (parts cs).getLast? with
  | some last => (!last.isEmpty && last.all Char.isDigit) || (part? last).isSome
  | none => false

/-- The address of a name that ends in a number. The last part fills all bytes that are left. -/
def readAddress? (cs : List Char) : Option Nat := do
  let numbers ← (parts cs).mapM part?
  let last ← numbers.getLast?
  let leading := numbers.dropLast
  if 3 < leading.length ∨ leading.any (255 < ·) ∨ Nat.pow 256 (4 - leading.length) ≤ last then none
  else
    let high := leading.foldl (fun value n => 256 * value + n) 0
    pure (high * Nat.pow 256 (4 - leading.length) + last)

def addressText (value : Nat) : List Char :=
  ['.'].intercalate ([3, 2, 1, 0].map fun i => Digits.write (value / Nat.pow 256 i % 256))

def group? (cs : List Char) : Option Nat :=
  if 4 < cs.length then none else Digits.readBase? 16 cs

def byte? (cs : List Char) : Option Nat :=
  match cs with
  | ['0'] => some 0
  | '0' :: _ => none
  | _ => (Digits.readBase? 10 cs).filter fun n => cs.length ≤ 3 ∧ n ≤ 255

def dotted? (cs : List Char) : Option (List Nat) := do
  match ← (cs.splitOn '.').mapM byte? with
  | [a, b, c, d] => pure [a * 256 + b, c * 256 + d]
  | _ => none

def groups? : List (List Char) → Option (List Nat)
  | [] => some []
  | [last] => if '.' ∈ last then dotted? last else (group? last).map ([·])
  | g :: rest => do
    let n ← group? g
    let others ← groups? rest
    pure (n :: others)

def side? (cs : List Char) : Option (List Nat) :=
  if cs.isEmpty then some [] else groups? (cs.splitOn ':')

def splitColons? : List Char → Option (List Char × List Char)
  | ':' :: ':' :: rest => some ([], rest)
  | c :: rest => (splitColons? rest).map fun (before, after) => (c :: before, after)
  | [] => none

/-- The eight groups of an address. A pair of colons stands for the groups that are missing, of which
there is at least one. -/
def readGroups? (cs : List Char) : Option (List Nat) := do
  match splitColons? cs with
  | none =>
    let groups ← side? cs
    if groups.length = 8 then pure groups else none
  | some (before, after) =>
    if '.' ∈ before then none
    let front ← side? before
    let back ← side? after
    let known := front.length + back.length
    if known ≤ 7 then pure (front ++ List.replicate (8 - known) 0 ++ back) else none

def zeros (groups : List Nat) : Nat := (groups.takeWhile (· = 0)).length

def longestZeros (groups : List Nat) : Option (Nat × Nat) :=
  (List.range groups.length).foldl (fun best i =>
    let n := zeros (groups.drop i)
    let known := match best with
      | some (_, m) => m
      | none => 1
    if known < n then some (i, n) else best) none

def hexText (n : Nat) : List Char := Nat.toDigits 16 n

def joinGroups (groups : List Nat) : List Char := [':'].intercalate (groups.map hexText)

def groupsText (groups : List Nat) : List Char :=
  match longestZeros groups with
  | none => joinGroups groups
  | some (i, n) => joinGroups (groups.take i) ++ ':' :: ':' :: joinGroups (groups.drop (i + n))

def text : Host → List Char
  | domain name => name
  | address value => addressText value
  | bracketed groups => '[' :: groupsText groups ++ [']']

def readBracketed (cs : List Char) : Except UrlError Host :=
  if cs.getLast? = some ']' then
    match readGroups? cs.dropLast with
    | some groups => .ok (.bracketed groups)
    | none => .error .invalidBracketed
  else .error .invalidBracketed

def read (cs : List Char) : Except UrlError Host :=
  match cs with
  | '[' :: rest => readBracketed rest
  | _ =>
    match Utf8.decode? (Form.percentDecode (Utf8.encode cs)) with
    | none => .error .invalidDomain
    | some decoded =>
      match Domain.read? decoded with
      | none => .error .invalidDomain
      | some [] => .error .emptyHost
      | some name =>
        if endsInNumber name then
          match readAddress? name with
          | some value => .ok (.address value)
          | none => .error .invalidAddress
        else .ok (.domain name)

def isForbiddenOpaque (c : Char) : Bool :=
  c.toNat = 0 ∨ c ∈ "\t\n\r #/:<>?@[\\]^|".toList

def readOpaque (cs : List Char) : Except UrlError Host :=
  match cs with
  | '[' :: rest => readBracketed rest
  | _ => if cs.any isForbiddenOpaque then .error .invalidCharacter else .ok (.domain cs)

end Host
end CoverageQuery
