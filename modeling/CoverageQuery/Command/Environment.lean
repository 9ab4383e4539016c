import CoverageQuery.Text.Blank
import CoverageQuery.Text.Utf8

/-!
# Environments

An environment is a list of variables. A file may add variables that are not set yet: a line gives a
name, an equals sign and a value, which may have quotes, escapes, references to variables and a comment
after it. Quotes may run over several lines. Reading stops for good at the first line that is wrong;
what came before it stays.
-/
namespace CoverageQuery

abbrev Environment := List (String × String)

namespace Environment

inductive Opening where
  | closed
  | escape
  | strong
  | strongEscape
  | weak
  | weakEscape
  | blank
  deriving DecidableEq, Repr

def Opening.outside (c : Char) : Opening :=
  if c = '\\' then escape else if c = '"' then weak else if c = '\'' then strong else closed

def Opening.next (o : Opening) (c : Char) : Opening :=
  match o with
  | closed =>
    if Text.isBlank c ∧ c ≠ '\n' ∧ c ≠ '\r' then blank else outside c
  | blank => outside c
  | escape => closed
  | weak => if c = '\\' then weakEscape else if c = '"' then closed else weak
  | weakEscape => weak
  | strong => if c = '\\' then strongEscape else if c = '\'' then closed else strong
  | strongEscape => strong

inductive Line where
  | content (cs : List Char)
  | unfinished
  deriving DecidableEq, Repr

def isComment (cs : List Char) : Bool := (Text.trimStart cs).head? = some '#'

/-- The logical lines of a text. The state is what is open, and the current logical line and physical
line in reverse. A comment after a blank ends the logical line. -/
def lines (o : Opening) (logical physical : List Char) : List Char → List Line
  | [] =>
    let whole := (physical ++ logical).reverse
    if whole.isEmpty then []
    else if isComment whole then [.content []]
    else if o = .closed then [.content whole]
    else [.unfinished]
  | '\n' :: rest =>
    let line := physical ++ logical
    let o' := o.next '\n'
    if isComment line.reverse then .content [] :: lines .closed [] [] rest
    else if o' = .closed then
      let whole := match line with
        | '\r' :: before => before
        | _ => line
      .content whole.reverse :: lines .closed [] [] rest
    else lines o' ('\n' :: line) [] rest
  | c :: rest =>
    if o = .blank ∧ c = '#' ∧ ¬isComment (physical ++ logical).reverse then
      skipComment (physical ++ logical).reverse rest
    else lines (o.next c) logical (c :: physical) rest
where
  skipComment (line : List Char) : List Char → List Line
    | [] => [.content line]
    | c :: rest => if c = '\n' then .content line :: lines .closed [] [] rest else skipComment line rest

inductive Reference where
  | none
  | plain
  | braced
  deriving DecidableEq, Repr

structure Value where
  strong : Bool := false
  weak : Bool := false
  escaped : Bool := false
  ended : Bool := false
  commented : Bool := false
  reference : Reference := .none
  name : List Char := []
  text : List Char := []

def valueOf (known : Environment) (name : List Char) : List Char :=
  ((known.lookup (String.ofList name)).getD "").toList

def Value.resolved (known : Environment) (v : Value) : Value :=
  { v with text := v.text ++ valueOf known v.name, name := [], reference := .none }

def Value.put (v : Value) (c : Char) : Value := { v with text := v.text ++ [c] }

def isNameChar (c : Char) : Bool := c.isAlphanum ∨ 128 ≤ c.toNat

def escaped? (c : Char) : Option Char :=
  if c ∈ ['\\', '\'', '"', '$', ' '] then some c else if c = 'n' then some '\n' else none

def Value.step? (known : Environment) (v : Value) (c : Char) : Option Value :=
  if v.commented then some v
  else if v.ended then
    if c = ' ' ∨ c = '\t' then some v else if c = '#' then some { v with commented := true } else none
  else if v.escaped then (escaped? c).map fun c => { v.put c with escaped := false }
  else if v.strong then some (if c = '\'' then { v with strong := false } else v.put c)
  else
    match v.reference with
    | .plain =>
      if isNameChar c then some { v with name := v.name ++ [c] }
      else if c = '{' ∧ v.name.isEmpty then some { v with reference := .braced }
      else
        let v := v.resolved known
        some (if c = '$' then { v with reference := .plain } else v.put c)
    | .braced =>
      some (if c = '}' then v.resolved known else { v with name := v.name ++ [c] })
    | .none =>
      if c = '$' then some { v with reference := .plain }
      else if v.weak then
        some (if c = '"' then { v with weak := false }
          else if c = '\\' then { v with escaped := true }
          else v.put c)
      else if c = '\'' then some { v with strong := true }
      else if c = '"' then some { v with weak := true }
      else if c = '\\' then some { v with escaped := true }
      else if c = ' ' ∨ c = '\t' then some { v with ended := true }
      else some (v.put c)

def value? (known : Environment) (cs : List Char) : Option (List Char) := do
  let v ← cs.foldlM (Value.step? known) {}
  if v.reference = .braced ∨ v.strong ∨ v.weak then none else some (v.resolved known).text

def isNameStart (c : Char) : Bool := c.isAlpha ∨ c = '_'

def isNamePart (c : Char) : Bool := c.isAlphanum ∨ c = '_' ∨ c = '.'

def name? (cs : List Char) : Option (List Char × List Char) :=
  if cs.head?.any isNameStart then some (cs.takeWhile isNamePart, Text.trimStart (cs.dropWhile isNamePart))
  else none

def afterEquals? (cs : List Char) : Option (List Char) :=
  match cs with
  | '=' :: rest => some rest
  | _ => none

def assignment? (cs : List Char) : Option (List Char × List Char) := do
  let (name, rest) ← name? cs
  match afterEquals? rest with
  | some value => some (name, value)
  | none =>
    if name = "export".toList then
      let (name, rest) ← name? rest
      let value ← afterEquals? rest
      pure (name, value)
    else none

def setting? (known : Environment) (cs : List Char) : Option (Option (String × String)) :=
  let line := Text.trim cs
  if line.isEmpty ∨ isComment line then some none
  else do
    let (name, rest) ← assignment? line
    let rest := Text.trimStart rest
    let value ← if rest.isEmpty ∨ rest.head? = some '#' then some [] else value? known rest
    pure (some (String.ofList name, String.ofList value))

/-- Adds the variables of lines, up to the first that is wrong. In references, the environment counts
before the file, and the later line of the file before the earlier. -/
def extendLines (env : Environment) (settings : Environment) : List Line → Environment
  | [] => env
  | .unfinished :: _ => env
  | .content cs :: rest =>
    match setting? (env ++ settings) cs with
    | none => env
    | some none => extendLines env settings rest
    | some (some setting) =>
      let isSet := (env.lookup setting.1).isSome
      extendLines (if isSet then env else env ++ [setting]) (setting :: settings) rest

/-- The text of a file, up to the first physical line that is no text. -/
def readable (file : Utf8.Bytes) : List Char :=
  match Utf8.decode file with
  | .ok cs => cs
  | .error fault =>
    let before := (Utf8.decode? (file.take fault.validUpTo)).getD []
    (before.reverse.dropWhile (· ≠ '\n')).reverse

def extend (env : Environment) (file : Utf8.Bytes) : Environment :=
  let content := if file.take 3 = [0xEF, 0xBB, 0xBF] then file.drop 3 else file
  extendLines env [] (lines .closed [] [] (readable content))

end Environment
end CoverageQuery
