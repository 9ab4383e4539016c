import CoverageQuery.Text.Utf8

/-!
# Files

A run sees a tree of directories with files and devices in it, from the root down, and starts in one
of the directories. A path leads from the root or from that directory step by step; reading and writing
fail when it leads nowhere, through something that is no directory, or to a directory. Writing a file
replaces what it held and leaves all other files as they were; what is written to a device is passed on.
-/
namespace CoverageQuery

inductive FileFault where
  | missing
  | notDirectory
  | isDirectory
  | notText
  deriving DecidableEq, Repr

def FileFault.message : FileFault → String
  | missing => "No such file or directory (os error 2)"
  | notDirectory => "Not a directory (os error 20)"
  | isDirectory => "Is a directory (os error 21)"
  | notText => "stream did not contain valid UTF-8"

def pathSteps (path : String) : List String :=
  ((path.toList.splitOn '/').map String.ofList).filter (· ≠ "")

def extension? (path : String) : Option String :=
  match ((pathSteps path).filter (· ≠ ".")).getLast? with
  | none => none
  | some name =>
    let after := name.toList.reverse.takeWhile (· ≠ '.')
    let before := (name.toList.reverse.dropWhile (· ≠ '.')).drop 1
    if name = ".." ∨ before.isEmpty then none else some (String.ofList after.reverse)

/-- The device that keeps nothing, and the two that a run prints to. -/
inductive Device where
  | sink
  | output
  | errors
  deriving DecidableEq, Repr

inductive Files.Entry where
  | file (content : Utf8.Bytes)
  | directory
  | device (d : Device)
  deriving DecidableEq, Repr

abbrev Files.Place := List String

structure Files where
  entries : List (Files.Place × Files.Entry)
  /-- The directory that a run starts in. -/
  start : Files.Place
  deriving DecidableEq, Repr

namespace Files

def devices : List (Place × Entry) :=
  [(["dev", "null"], .device .sink), (["dev", "stdout"], .device .output),
    (["dev", "stderr"], .device .errors)]

/-- The devices, and below one directory the files with a content and the directories without. -/
def below (start : Place) (entries : List (String × Option Utf8.Bytes)) : Files where
  entries := devices ++ entries.map fun (path, content) =>
    (start ++ pathSteps path, content.elim .directory .file)
  start := start

def ofList (entries : List (String × Option Utf8.Bytes)) : Files := below ["tmp", "work"] entries

/-- Whether a place has to be a directory because of what is below it. -/
def isAbove (fs : Files) (place : Place) : Bool :=
  place.isPrefixOf fs.start || fs.entries.any fun e => place.isPrefixOf e.1

def at? (fs : Files) (place : Place) : Option Entry :=
  match fs.entries.lookup place with
  | some e => some e
  | none => if fs.isAbove place then some .directory else none

def next (place : Place) (step : String) : Place :=
  if step = "." then place else if step = ".." then place.dropLast else place ++ [step]

def walk (fs : Files) : Place → List String → Except FileFault Place
  | place, [] => .ok place
  | place, step :: rest =>
    match fs.at? place with
    | some .directory => fs.walk (next place step) rest
    | some _ => .error .notDirectory
    | none => .error .missing

def locate (fs : Files) (path : String) : Except FileFault Place :=
  if path.isEmpty then .error .missing
  else fs.walk (if path.toList.head? = some '/' then [] else fs.start) (pathSteps path)

def asDirectory (path : String) : Bool := path.toList.getLast? = some '/'

def met (path : String) : Option Entry → Except FileFault Entry
  | none => .error .missing
  | some .directory => .ok .directory
  | some e => if asDirectory path then .error .notDirectory else .ok e

def find (fs : Files) (path : String) : Except FileFault Entry := do
  let place ← fs.locate path
  met path (fs.at? place)

def read (fs : Files) (path : String) : Except FileFault Utf8.Bytes := do
  match ← fs.find path with
  | .file content => .ok content
  | .directory => .error .isDirectory
  | .device _ => .ok []

def readText (fs : Files) (path : String) : Except FileFault String := do
  match Utf8.decode? (← fs.read path) with
  | some text => pure (String.ofList text)
  | none => throw .notText

/-- The content of the file with a name in the directory of the start, or in the nearest above it that
has one. -/
def nearest? (fs : Files) (name : String) : Option Utf8.Bytes :=
  (List.range (fs.start.length + 1)).reverse.findSome? fun depth =>
    match fs.at? (fs.start.take depth ++ [name]) with
    | some (.file content) => some content
    | _ => none

def put (fs : Files) (place : Place) (content : Utf8.Bytes) : Files :=
  { fs with entries := (place, .file content) :: fs.entries.filter (·.1 ≠ place) }

/-- The files after a writing, and what a device has been passed by it. -/
structure Written where
  files : Files
  passed : Option (Device × Utf8.Bytes)
  deriving DecidableEq, Repr

def write (fs : Files) (path : String) (content : Utf8.Bytes) : Except FileFault Written := do
  let place ← fs.locate path
  if asDirectory path then .error .isDirectory
  else
    match fs.at? place with
    | some .directory => .error .isDirectory
    | some (.device d) => .ok ⟨fs, some (d, content)⟩
    | _ => .ok ⟨fs.put place content, none⟩

end Files
end CoverageQuery
