import PenTouch.CommandLine.Arguments
import PenTouch.Contact.Survey
import PenTouch.Run
import PenTouch.Settings.File
import PenTouch.Source.Synthetic

/-!
# The program

The program runs a session on the synthetic device, with the settings of a file and the choices of
the command line, for a number of events. A survey of the contacts is reported at the end.
-/

namespace PenTouch.CommandLine

/-- The name and the version of the program. -/
def banner : String := "digitizerd 0.1.0"

def help : String :=
  "Touch and stylus processing daemon\n\n" ++
  "Usage: digitizerd [OPTIONS]\n\n" ++
  "Options:\n" ++
  "  -c, --config <CONFIG>              Configuration file (TOML)\n" ++
  "  -f, --frames <FRAMES>              Number of events to process (0 runs until interrupted)\n" ++
  "      --calibrate                    Collect contact sizes instead of reporting contacts\n" ++
  "      --metrics-port <METRICS_PORT>  Port for the Prometheus endpoint (0 disables it)\n" ++
  "  -h, --help                         Print help\n" ++
  "  -V, --version                      Print version"

def UsageError.message : UsageError → String
  | unknown word => s!"error: unexpected argument '{word}' found"
  | unexpected word => s!"error: unexpected argument '{word}' found"
  | missingValue s => s!"error: a value is required for '--{s.name}' but none was supplied"
  | invalidValue s value => s!"error: invalid value '{value}' for '--{s.name}'"
  | repeated s => s!"error: the argument '--{s.name}' cannot be used multiple times"
  | repeatedFlag f => s!"error: the argument '--{f.name}' cannot be used multiple times"

inductive Failure where
  /-- The settings file could not be loaded. -/
  | load (path : String) (error : SettingsError)
  /-- The run could not be started or carried on. -/
  | run (error : RunError)

def Failure.message : Failure → String
  | load path e => s!"Failed to load {path}: {e.message}"
  | run e => e.message

namespace Arguments

/-- The settings with the choices of the command line in place of the file's. -/
def override (a : Arguments) (file : FileSettings) : FileSettings :=
  { file with
    run := { file.run with eventCount := (a.frames.map .ofNat).getD file.run.eventCount }
    port := a.metricsPort.getD file.port }

/-- The settings of a run. The contents of a path are a text for the parser, or the reason why the
path cannot be read. -/
def settings (parse? : String → Option Toml.Entries) (a : Arguments)
    (contents : String → Except String String) : Except Failure FileSettings :=
  match a.config with
  | none => .ok (a.override {})
  | some path =>
    match (contents path).mapError .unreadable >>= FileSettings.ofText parse? with
    | .error e => .error (.load path e)
    | .ok file => .ok (a.override file)

end Arguments

/-- The synthetic device of the size in the settings. -/
def device (file : FileSettings) : Synthetic :=
  { width := file.pen.defaultColumns, height := file.pen.defaultRows }

/-- The calls of a run of a number of events on the synthetic device. -/
def calls (file : FileSettings) : Except Failure (List Call) :=
  let (connection, device) := (device file).connect
  let readings := device.take 0 0 file.run.eventCount.toNat
  let (calls, result) := run file.session file.run { connection, readings } fun _ => false
  match result with
  | .error e => .error (.run e)
  | .ok _ => .ok calls

/-- The contacts that a run has reported, frame by frame. -/
def frames (calls : List Call) : List (List (Contact Float)) :=
  calls.filterMap fun
    | .output o => o.contacts?
    | _ => none

def report (survey : Survey) (touch : TouchSettings Float) : List String :=
  match survey.summary? with
  | none => ["No stable contacts recorded"]
  | some summary =>
    let touch := summary.suggest touch
    summary.lines ++
      [s!"Suggested: size_min = {Decimal.text touch.sizeMin}, " ++
        s!"size_max = {Decimal.text touch.sizeMax}, aspect_max = {Decimal.text touch.aspectMax}"]

/-- The lines that a run of a number of events writes. -/
def execute (a : Arguments) (file : FileSettings) : Except Failure (List String) := do
  let calls ← calls file
  if a.calibrate then
    let survey : Survey := (frames calls).foldl (·.record ·) { diagonal := file.session.diagonal }
    .ok (report survey file.touch)
  else .ok []

end PenTouch.CommandLine
