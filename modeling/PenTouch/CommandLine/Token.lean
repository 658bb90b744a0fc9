/-!
# The words of a command line

A command line is a list of words. A word that starts with two dashes names one option, in full;
a word that starts with one dash is a cluster of one-letter options; a value follows its option in
the same word or in the next. `tokens` splits a word accordingly, without looking at its neighbours.
-/

namespace PenTouch.CommandLine

/-- An option that takes a value. -/
inductive Setting where
  /-- The settings file. -/
  | config
  /-- The number of events. -/
  | frames
  /-- The port of the metrics server. -/
  | metricsPort
  deriving DecidableEq, Repr

/-- An option without a value. -/
inductive Flag where
  /-- Survey the contacts. -/
  | calibrate
  | help
  | version
  deriving DecidableEq, Repr

/-- What a word, or a part of it, says. -/
inductive Token where
  | flag (flag : Flag)
  /-- An option whose value is the next word. -/
  | setting (setting : Setting)
  /-- An option with its value. -/
  | assign (setting : Setting) (value : String)
  /-- Neither an option nor part of one. -/
  | plain (word : String)
  /-- The end of the options. -/
  | escape
  /-- An option that does not exist, or that does not take its value. -/
  | unknown (word : String)
  deriving DecidableEq, Repr

def Setting.name : Setting → String
  | config => "config"
  | frames => "frames"
  | metricsPort => "metrics-port"

def Flag.name : Flag → String
  | calibrate => "calibrate"
  | help => "help"
  | version => "version"

/-- The option of a full name that takes a value. -/
def setting? (name : String) : Option Setting :=
  [Setting.config, .frames, .metricsPort].find? (·.name == name)

/-- The option of a full name that takes no value. -/
def flag? (name : String) : Option Flag :=
  [Flag.calibrate, .help, .version].find? (·.name == name)

/-- The option of a letter that takes a value. -/
def settingOfLetter? : Char → Option Setting
  | 'c' => some .config
  | 'f' => some .frames
  | _ => none

/-- The option of a letter that takes no value. -/
def flagOfLetter? : Char → Option Flag
  | 'h' => some .help
  | 'V' => some .version
  | _ => none

/-- An option named in full; a value is set off by an equals sign. -/
def named (word : List Char) : Token :=
  let name := String.ofList (word.takeWhile (· ≠ '='))
  let text := String.ofList ('-' :: '-' :: word)
  match setting? name, flag? name, word.dropWhile (· ≠ '=') with
  | some s, _, '=' :: value => .assign s (String.ofList value)
  | some s, _, _ => .setting s
  | none, some f, [] => .flag f
  | none, _, _ => .unknown text

/-- A cluster of letters. The first option that takes a value has the rest of the cluster as its
value, with or without an equals sign. -/
def cluster : List Char → List Token
  | [] => []
  | c :: rest =>
    match settingOfLetter? c, flagOfLetter? c with
    | some s, _ =>
      match rest with
      | [] => [.setting s]
      | '=' :: value => [.assign s (String.ofList value)]
      | value => [.assign s (String.ofList value)]
    | none, some f => .flag f :: cluster rest
    | none, none => [.unknown (String.ofList ['-', c])]

/-- What a word says. A single dash is a plain word. -/
def tokens (word : String) : List Token :=
  match word.toList with
  | ['-', '-'] => [.escape]
  | '-' :: '-' :: name => [named name]
  | ['-'] => [.plain word]
  | '-' :: letters => cluster letters
  | _ => [.plain word]

end PenTouch.CommandLine
