import CoverageQuery.Client.Error
import CoverageQuery.Command.Environment
import CoverageQuery.Command.Flags

/-!
# Arguments of the command line

The arguments of a run are options of the whole program, the name of a command, and the options of that
command, among which those of the whole program may stand again. An option is written `--name value`,
`--name=value`, `-nvalue`, `-n=value` or `-n value`; behind a lone `--` nothing is an option. The options
of the command count before those of the program, and both before the environment.
-/
namespace CoverageQuery

inductive Command where
  | render (flags : QueryFlags)
  | execute (flags : QueryFlags) (output : Option String)
  | capabilities
  | describe (coverage : String)
  deriving DecidableEq, Repr

structure Invocation where
  serverUrl : Option String
  config : Option String
  command : Command
  deriving DecidableEq, Repr

namespace Arguments

inductive Stop where
  | usage
  | help
  deriving DecidableEq, Repr

inductive Key where
  | serverUrl
  | config
  | logLevel
  | jsonLogs
  | help
  | coverage
  | subset
  | returnValue
  | aggregate
  | encode
  | queryFile
  | output
  deriving DecidableEq, Repr

namespace Key

def name : Key → String
  | serverUrl => "server-url"
  | config => "config"
  | logLevel => "log-level"
  | jsonLogs => "json-logs"
  | help => "help"
  | coverage => "coverage"
  | subset => "subset"
  | returnValue => "return-value"
  | aggregate => "aggregate"
  | encode => "encode"
  | queryFile => "query-file"
  | output => "output"

def letter? : Key → Option Char
  | help => some 'h'
  | coverage => some 'c'
  | subset => some 's'
  | queryFile => some 'f'
  | output => some 'o'
  | _ => none

def hasValue (k : Key) : Bool := k ≠ jsonLogs ∧ k ≠ help

def repeats (k : Key) : Bool := k = coverage ∨ k = subset

def isPath (k : Key) : Bool := k = config ∨ k = queryFile ∨ k = output

end Key

inductive Verb where
  | render
  | execute
  | capabilities
  | describe
  | help
  deriving DecidableEq, Repr

def Verb.name : Verb → String
  | render => "render"
  | execute => "execute"
  | capabilities => "capabilities"
  | describe => "describe"
  | help => "help"

def Verb.all : List Verb := [.render, .execute, .capabilities, .describe, .help]

def Verb.ofName? (name : String) : Option Verb := all.find? fun v => v.name = name

def globalKeys : List Key := [.serverUrl, .config, .logLevel, .jsonLogs, .help]

def queryKeys : List Key := [.coverage, .subset, .returnValue, .aggregate, .encode, .queryFile]

def Verb.keys : Verb → List Key
  | render => globalKeys ++ queryKeys
  | execute => globalKeys ++ queryKeys ++ [.output]
  | _ => globalKeys

def Verb.limit : Verb → Nat
  | describe => 1
  | _ => 0

inductive Shape where
  | separator
  | long (name : List Char) (value : Option (List Char))
  | short (letter : Char) (rest : List Char)
  | word
  deriving DecidableEq, Repr

def Shape.of : List Char → Shape
  | ['-', '-'] => separator
  | '-' :: '-' :: rest =>
    match Text.splitOnce? '=' rest with
    | some (name, value) => long name (some value)
    | none => long rest none
  | '-' :: letter :: rest => short letter rest
  | _ => word

structure Given where
  values : List (Key × String) := []
  words : List String := []
  deriving DecidableEq, Repr

namespace Given

def has (g : Given) (k : Key) : Bool := g.values.any (·.1 = k)

def all (g : Given) (k : Key) : List String := (g.values.filter (·.1 = k)).map (·.2)

def get? (g : Given) (k : Key) : Option String := g.values.lookup k

/-- Adds a value, which a key that does not repeat takes once and a path only if there is one. -/
def put (g : Given) (k : Key) (value : String) : Except Stop Given :=
  if g.has k ∧ ¬k.repeats then .error .usage
  else if k.isPath ∧ value.isEmpty then .error .usage
  else .ok { g with values := g.values ++ [(k, value)] }

def putWord (g : Given) (word : String) : Given := { g with words := g.words ++ [word] }

end Given

abbrev Next := Given × Option Key

def take (g : Given) (k : Key) (value : Option (List Char)) : Except Stop Next :=
  match value with
  | some text =>
    if k.hasValue then (g.put k (String.ofList text)).map fun g => (g, none) else .error .usage
  | none =>
    if k.hasValue then .ok (g, some k)
    else if k = .help then .error .help
    else (g.put k "").map fun g => (g, none)

/-- The value behind a letter; one equals sign in front of it is not part of it. -/
def attached? (k : Key) (rest : List Char) : Option (List Char) :=
  if ¬k.hasValue then none
  else
    match rest with
    | [] => none
    | '=' :: value => some value
    | value => some value

def takeOption (keys : List Key) (g : Given) : Shape → Except Stop Next
  | .long name value =>
    match keys.find? fun k => k.name.toList = name with
    | some k => take g k value
    | none => .error .usage
  | .short letter rest =>
    match keys.find? fun k => k.letter? = some letter with
    | some k => take g k (attached? k rest)
    | none => .error .usage
  | _ => .error .usage

/-- What is given on a level, and the verb and the arguments after it if `verbs` allows one here. There
may be as many other words as `limit` says. A key in `waiting` takes the argument as its value unless
that looks like an option. -/
def scan (keys : List Key) (verbs : Bool) (limit : Nat) (g : Given) (waiting : Option Key) :
    List String → Except Stop (Given × Option (Verb × List String))
  | [] => if waiting.isSome then .error .usage else .ok (g, none)
  | arg :: rest =>
    match Shape.of arg.toList, waiting with
    | .word, some k => do
      let g ← g.put k arg
      scan keys verbs limit g none rest
    | _, some _ => .error .usage
    | .word, none =>
      match if verbs then Verb.ofName? arg else none with
      | some verb => .ok (g, some (verb, rest))
      | none =>
        if g.words.length < limit then scan keys verbs limit (g.putWord arg) none rest
        else .error .usage
    | .separator, none => .ok (rest.foldl Given.putWord g, none)
    | shape, none => do
      let (g, waiting) ← takeOption keys g shape
      scan keys verbs limit g waiting rest

def Given.flags (g : Given) : QueryFlags where
  coverages := g.all .coverage
  subsets := g.all .subset
  value := g.get? .returnValue
  aggregate := g.get? .aggregate
  encode := g.get? .encode
  queryFile := g.get? .queryFile

def command (verb : Verb) (g : Given) : Except Stop Command :=
  if g.has .aggregate ∧ g.has .encode then .error .usage
  else
    match verb, g.words with
    | .render, [] => .ok (.render g.flags)
    | .execute, [] => .ok (.execute g.flags (g.get? .output))
    | .capabilities, [] => .ok .capabilities
    | .describe, [coverage] => .ok (.describe coverage)
    | _, _ => .error .usage

def urlVariable : String := SettingsFault.urlVariable

def configVariable : String := "WCPS_CONFIG"

def asksHelp (names : List String) : Bool :=
  match names with
  | [] => true
  | [name] => (Verb.ofName? name).isSome
  | _ => false

def read (env : Environment) (args : List String) : Except Stop Invocation := do
  let (program, next) ← scan globalKeys true 0 {} none args
  match next with
  | none => throw .usage
  | some (.help, names) => throw (if asksHelp names then .help else .usage)
  | some (verb, rest) =>
    let (own, _) ← scan verb.keys false verb.limit {} none rest
    let command ← command verb own
    let configured := program.has .config ∧ own.has .config
    if env.lookup configVariable = some "" ∧ ¬configured then throw .usage
    pure {
      serverUrl := ((own.get? .serverUrl).or (program.get? .serverUrl)).or (env.lookup urlVariable)
      config := ((own.get? .config).or (program.get? .config)).or (env.lookup configVariable)
      command }

end Arguments
end CoverageQuery
