import PenTouch.CommandLine.Program
import PenTouch.Toml.Document

/-!
# The command line

Everything that touches the world: arguments, files, the clock and the output.
-/

namespace PenTouch.CommandLine

/-- What the system says of a failure, by its number. A number may come with its sign changed. -/
def systemReason (code : UInt32) (details : String) : String :=
  let number := code.toInt32.toInt.natAbs
  let text := match number with
    | 2 => "No such file or directory"
    | 13 => "Permission denied"
    | 20 => "Not a directory"
    | 21 => "Is a directory"
    | _ => details
  s!"{text} (os error {number})"

/-- Why a file cannot be read. -/
def reason : IO.Error → String
  | .noFileOrDirectory _ code details => systemReason code details
  | .permissionDenied _ code details => systemReason code details
  | .inappropriateType _ code details => systemReason code details
  | e => toString e

def readText (path : String) : IO (Except String String) := do
  try
    let bytes ← IO.FS.readBinFile path
    match String.fromUTF8? bytes with
    | some text => return .ok text
    | none => return .error "stream did not contain valid UTF-8"
  catch e => return .error (reason e)

/-- Feeds a run with the events of the device as they come, until the program is interrupted. -/
partial def feed (run : Run) (device : Synthetic) : IO Unit := do
  let now ← IO.monoNanosNow
  let (reading, device) := device.next now
  feed (run.take reading).1 device

/-- A run without an end. -/
def runForever (file : FileSettings) : IO (Except Failure (List String)) := do
  let (connection, device) := (device file).connect
  match connection with
  | .error e => return .error (.run (.source e))
  | .ok metadata =>
    match Session.start file.session metadata with
    | .error e => return .error (.run (.settings e))
    | .ok session =>
      feed { limits := file.run, session } device
      return .ok []

/-- Runs with the choices of the command line. -/
def start (a : Arguments) : IO (Except Failure (List String)) := do
  let contents ← match a.config with
    | some path => readText path
    | none => pure (.ok "")
  match a.settings Toml.parse? fun _ => contents with
  | .error e => return .error e
  | .ok file => if file.run.eventCount = 0 then runForever file else return execute a file

def printAll (lines : List String) : IO UInt32 := do
  lines.forM IO.println
  return 0

end PenTouch.CommandLine

open PenTouch.CommandLine

def main (words : List String) : IO UInt32 := do
  match parse words with
  | .error e =>
    IO.eprintln e.message
    return 2
  | .ok .help => printAll [help]
  | .ok .version => printAll [banner]
  | .ok (.start a) =>
    match ← start a with
    | .error e =>
      IO.eprintln e.message
      return 1
    | .ok lines => printAll lines
