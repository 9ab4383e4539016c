import CoverageQuery.Url.Host
import CoverageQuery.Url.Path

/-!
# URLs

A URL of the web has a scheme, an optional user, a host, an optional port, a path, and an optional query
and fragment. Reading takes a text as people write it: blanks around it and line breaks and tabs in it
are dropped, letters of the scheme and the host change to lower case, backslashes count as slashes, and
any number of slashes stands before the host. A port that is the usual one of the scheme is left out.
URLs of other schemes are checked as far as their host and port, and only their scheme is kept.
-/
namespace CoverageQuery

structure Url where
  scheme : String
  user : List Char
  host : Host
  port : Option Nat
  path : List (List Char)
  query : Option (List Char)
  fragment : Option (List Char)
  deriving DecidableEq, Repr

inductive Location where
  | web (url : Url)
  | other (scheme : String)
  deriving DecidableEq, Repr

namespace Url

def defaultPort? (scheme : String) : Option Nat :=
  if scheme = "http" ∨ scheme = "ws" then some 80
  else if scheme = "https" ∨ scheme = "wss" then some 443
  else if scheme = "ftp" then some 21
  else none

def needsHost (scheme : String) : Bool := (defaultPort? scheme).isSome

def isWeb (scheme : String) : Bool := scheme = "http" ∨ scheme = "https"

def isControlOrSpace (c : Char) : Bool := c.toNat ≤ 0x20

def cleaned (cs : List Char) : List Char :=
  let inner := ((cs.dropWhile isControlOrSpace).reverse.dropWhile isControlOrSpace).reverse
  inner.filter fun c => ¬(c = '\t' ∨ c = '\n' ∨ c = '\r')

def isSchemeChar (c : Char) : Bool := c.isAlphanum ∨ c = '+' ∨ c = '-' ∨ c = '.'

def splitScheme? (cs : List Char) : Option (String × List Char) :=
  match cs with
  | [] => none
  | c :: _ =>
    if c.isAlpha then
      match cs.dropWhile isSchemeChar with
      | ':' :: rest => some (String.ofList (Text.lower (cs.takeWhile isSchemeChar)), rest)
      | _ => none
    else none

def endsAuthority (special : Bool) (c : Char) : Bool :=
  c = '/' ∨ c = '?' ∨ c = '#' ∨ (special ∧ c = '\\')

def splitLast? (separator : Char) (cs : List Char) : Option (List Char × List Char) :=
  (Text.splitOnce? separator cs.reverse).map fun (after, before) => (before.reverse, after.reverse)

/-- A user name and a password after a colon, without a colon before an empty password. -/
def userText (cs : List Char) : List Char :=
  match Text.splitOnce? ':' cs with
  | none => percentEncode inUserSet cs
  | some (name, password) =>
    if password.isEmpty then percentEncode inUserSet name
    else percentEncode inUserSet name ++ ':' :: percentEncode inUserSet password

/-- The host of a text that holds a host and a port, and what follows it. Colons within brackets
belong to the host. -/
def spanHost : Bool → List Char → List Char × List Char
  | _, [] => ([], [])
  | inside, c :: rest =>
    if c = ':' ∧ ¬ inside then ([], c :: rest)
    else
      let inside := if c = '[' then true else if c = ']' then false else inside
      let (host, after) := spanHost inside rest
      (c :: host, after)

def readPort (scheme : String) (cs : List Char) : Except UrlError (Option Nat) :=
  match cs with
  | ':' :: digits =>
    let digits := digits.takeWhile (· ≠ '\\')
    if digits.isEmpty then .ok none
    else
      match Digits.readBase? 10 digits with
      | some n =>
        if 65535 < n then .error .invalidPort
        else .ok (if defaultPort? scheme = some n then none else some n)
      | none => .error .invalidPort
  | _ => .ok none

def readAuthority (scheme : String) (authority : List Char) :
    Except UrlError (List Char × Host × Option Nat) := do
  let special := needsHost scheme
  let (user, place) := match splitLast? '@' authority with
    | some (user, place) => (some user, place)
    | none => (none, authority)
  if user.isSome ∧ place.isEmpty then throw .emptyHost
  let (hostText, after) := spanHost false place
  if hostText.isEmpty ∧ (special ∨ ¬ after.isEmpty) then throw .emptyHost
  let host ← if special then Host.read hostText else Host.readOpaque hostText
  let port ← readPort scheme after
  let userInfo := userText (user.getD [])
  if hostText.isEmpty ∧ ¬ userInfo.isEmpty then throw .emptyHost
  pure (userInfo, host, port)

def splitFragment (cs : List Char) : List Char × Option (List Char) :=
  match Text.splitOnce? '#' cs with
  | some (before, fragment) => (before, some (percentEncode inFragmentSet fragment))
  | none => (cs, none)

def splitQuery (cs : List Char) : List Char × Option (List Char) :=
  match Text.splitOnce? '?' cs with
  | some (before, query) => (before, some (percentEncode inQuerySet query))
  | none => (cs, none)

def readHosted (scheme : String) (cs : List Char) : Except UrlError Url := do
  let authority := cs.takeWhile (!endsAuthority true ·)
  let (user, host, port) ← readAuthority scheme authority
  let (beforeFragment, fragment) := splitFragment (cs.dropWhile (!endsAuthority true ·))
  let (path, query) := splitQuery beforeFragment
  pure ⟨scheme, user, host, port, readPath (path.drop 1), query, fragment⟩

def isSlash (c : Char) : Bool := c = '/' ∨ c = '\\'

/-- A letter of a drive and a colon or bar, which stand for no host. -/
def isDrive (cs : List Char) : Bool :=
  match cs with
  | [letter, mark] => letter.isAlpha ∧ (mark = ':' ∨ mark = '|')
  | _ => false

def checkFile (cs : List Char) : Except UrlError Unit :=
  match cs with
  | a :: b :: rest =>
    if isSlash a ∧ isSlash b then
      let host := rest.takeWhile (!endsAuthority true ·)
      if host.isEmpty ∨ isDrive host then .ok () else (Host.read host).map fun _ => ()
    else .ok ()
  | _ => .ok ()

def checkOther (scheme : String) (cs : List Char) : Except UrlError Unit :=
  match cs with
  | '/' :: '/' :: rest =>
    (readAuthority scheme (rest.takeWhile (!endsAuthority false ·))).map fun _ => ()
  | _ => .ok ()

def read (text : String) : Except UrlError Location :=
  match splitScheme? (cleaned text.toList) with
  | none => .error .relative
  | some (scheme, rest) =>
    if needsHost scheme then
      (readHosted scheme (rest.dropWhile isSlash)).map fun url =>
        if isWeb scheme then .web url else .other scheme
    else if scheme = "file" then (checkFile rest).map fun _ => .other scheme
    else (checkOther scheme rest).map fun _ => .other scheme

def optional (mark : Char) (part : Option (List Char)) : List Char :=
  match part with
  | some cs => mark :: cs
  | none => []

def userPart (u : Url) : List Char := if u.user.isEmpty then [] else u.user ++ ['@']

def target (u : Url) : List Char := pathText u.path ++ optional '?' u.query

def text (u : Url) : List Char :=
  u.scheme.toList ++ "://".toList ++ u.userPart ++ u.host.text ++ optional ':' (u.port.map Digits.write)
    ++ u.target ++ optional '#' u.fragment

def withForm (u : Url) (pairs : Form.Pairs) : Url :=
  let added := Form.encode pairs
  let query := match u.query with
    | none | some [] => added
    | some known => known ++ '&' :: added
  { u with query := some query }

end Url
end CoverageQuery
