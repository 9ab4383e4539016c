import CoverageQuery.Command.Run

/-!
# The program

The outer layer of the command line: it collects the environment and the files that the arguments may
name, runs, writes what the run has written, and prints. It has no line to a network, so every
connection is refused.
-/
namespace CoverageQuery.Program

def variableNames : List String :=
  ["WCPS_SERVER_URL", "WCPS_CONFIG", "WCPS_MAX_RETRIES", "WCPS_TIMEOUT_SECS"]

def readEnvironment : IO Environment :=
  variableNames.filterMapM fun name => do
    return (← IO.getEnv name).map fun value => (name, value)

def mentioned (arg : String) : List String :=
  let attached := arg.toList.drop 2
  let assigned := (arg.toList.dropWhile (· ≠ '=')).drop 1
  [arg, String.ofList attached, String.ofList assigned]

def stepsFrom (start : Files.Place) (path : String) : List String :=
  if path.startsWith "/" then pathSteps path else start ++ pathSteps path

/-- The places that a path leads through, each with a path of its own to it. -/
def placesOn (start : Files.Place) (path : String) : List (String × Files.Place) :=
  let steps := stepsFrom start path
  (List.range steps.length).map fun n =>
    let known := steps.take (n + 1)
    ("/" ++ "/".intercalate known, known.foldl Files.next [])

def lookUp (path : String) (place : Files.Place) : IO (Option (Files.Place × Files.Entry)) := do
  if Files.devices.any (·.1 = place) then return none
  try
    let content ← IO.FS.readBinFile path
    return some (place, .file content.toList)
  catch
    | .inappropriateType .. => return some (place, .directory)
    | _ => return none

def readFiles (start : Files.Place) (paths : List String) : IO Files := do
  let places := (paths.flatMap (placesOn start)).eraseDups
  let entries ← places.filterMapM fun (path, place) => lookUp path place
  return ⟨Files.devices ++ entries, start⟩

def writeFiles (before after : Files) : IO Unit :=
  for (place, entry) in after.entries do
    if (place, entry) ∉ before.entries then
      if let .file content := entry then
        IO.FS.writeBinFile ("/" ++ "/".intercalate place) (ByteArray.mk content.toArray)

def passOn (device : Device) (content : Utf8.Bytes) : IO Unit := do
  match device with
  | .sink => return
  | .output => (← IO.getStdout).write (ByteArray.mk content.toArray)
  | .errors => (← IO.getStderr).write (ByteArray.mk content.toArray)

end CoverageQuery.Program

open CoverageQuery Program in
def main (args : List String) : IO UInt32 := do
  let env ← readEnvironment
  let start := pathSteps (toString (← IO.currentDir))
  let above := (List.range (start.length + 1)).map fun depth =>
    "/" ++ "/".intercalate (start.take depth ++ [World.environmentFile])
  let early := World.mk env (← readFiles start above) (Server.ofReplies [])
  let paths := above ++ args.flatMap mentioned ++ early.extended.env.map (·.2)
  let files ← readFiles start paths
  let outcome := { early with files }.run args
  writeFiles files outcome.files
  if let some (device, content) := outcome.passed then
    passOn device content
  IO.print outcome.output
  IO.eprint outcome.errors
  return UInt32.ofNat outcome.code
