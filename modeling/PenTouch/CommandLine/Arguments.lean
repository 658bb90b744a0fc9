import PenTouch.CommandLine.Token

/-!
# Arguments

What a command line asks for. Its tokens are read from left to right: the first one that is wrong
refuses the whole line, and a call for help or for the version ends the reading.
-/

namespace PenTouch.CommandLine

/-- The choices of a run. -/
structure Arguments where
  /-- The path of the settings file. -/
  config : Option String := none
  /-- The number of events, in place of the one in the settings. -/
  frames : Option Nat := none
  /-- The port of the metrics server, in place of the one in the settings. -/
  metricsPort : Option Nat := none
  /-- Survey the contacts. -/
  calibrate : Bool := false
  deriving DecidableEq, Repr

/-- What a command line asks for. -/
inductive Request where
  | help
  | version
  | start (arguments : Arguments)
  deriving DecidableEq, Repr

inductive UsageError where
  /-- No such option, or an option with a value that it does not take. -/
  | unknown (word : String)
  /-- A word that belongs to no option. -/
  | unexpected (word : String)
  /-- An option without its value. -/
  | missingValue (setting : Setting)
  /-- A value that the option does not allow. -/
  | invalidValue (setting : Setting) (value : String)
  | repeated (setting : Setting)
  | repeatedFlag (flag : Flag)
  deriving DecidableEq, Repr

/-! ## Values -/

def digits? (cs : List Char) : Option Nat :=
  if cs.isEmpty || !cs.all Char.isDigit then none
  else some (cs.foldl (fun n c => 10 * n + (c.toNat - '0'.toNat)) 0)

/-- A whole number without a sign or with a plus sign. -/
def count? (value : String) : Option Nat :=
  match value.toList with
  | '+' :: cs => digits? cs
  | cs => digits? cs

/-- A whole number with any sign, if it is not below zero. -/
def signed? (value : String) : Option Nat :=
  match value.toList with
  | '-' :: cs => (digits? cs).filter (· = 0)
  | _ => count? value

/-- The numbers of events are those of 64 bits. -/
def framesLimit : Nat := UInt64.size

/-- The ports are the numbers of 16 bits. -/
def portLimit : Nat := UInt16.size

namespace Arguments

/-- The arguments with an option set, which was not set before. -/
def set (a : Arguments) (s : Setting) (value : String) : Except UsageError Arguments :=
  let invalid := .error (.invalidValue s value)
  let repeated := .error (.repeated s)
  match s with
  | .config =>
    if a.config.isSome then repeated
    else if value.isEmpty then invalid
    else .ok { a with config := some value }
  | .frames =>
    if a.frames.isSome then repeated
    else match (count? value).filter (· < framesLimit) with
      | some n => .ok { a with frames := some n }
      | none => invalid
  | .metricsPort =>
    if a.metricsPort.isSome then repeated
    else match (signed? value).filter (· < portLimit) with
      | some n => .ok { a with metricsPort := some n }
      | none => invalid

/-! ## Reading -/

/-- Reads tokens on top of what has been read. -/
def read (a : Arguments) : List Token → Except UsageError Request
  | [] => .ok (.start a)
  | .flag .help :: _ => .ok .help
  | .flag .version :: _ => .ok .version
  | .flag .calibrate :: rest =>
    if a.calibrate then .error (.repeatedFlag .calibrate)
    else { a with calibrate := true }.read rest
  | .setting s :: .plain value :: rest => do (← a.set s value).read rest
  | .setting s :: _ => .error (.missingValue s)
  | .assign s value :: rest => do (← a.set s value).read rest
  | .plain word :: _ => .error (.unexpected word)
  | .escape :: [] => .ok (.start a)
  | .escape :: _ => .error (.unexpected "--")
  | .unknown word :: _ => .error (.unknown word)

end Arguments

def parse (words : List String) : Except UsageError Request :=
  ({} : Arguments).read (words.flatMap tokens)

end PenTouch.CommandLine
