import PenTouch.Decimal.Reading
import PenTouch.Toml.Reader

/-!
# Literals

Strings, numbers and dates as they are written in a settings file.
-/

namespace PenTouch.Toml

open Reader

/-! ## Characters -/

def isBlank (c : Char) : Bool := c == ' ' || c == '\t'

/-- A character of a comment: anything but a control character; tabs are no exception. -/
def isPrintable (c : Char) : Bool := c == '\t' || (' ' ≤ c && c ≠ '\x7f')

/-- A character that stands for itself between double quotes. -/
def isBasic (c : Char) : Bool := isPrintable c && c ≠ '"' && c ≠ '\\'

/-- A character between single quotes. -/
def isVerbatim (c : Char) : Bool := isPrintable c && c ≠ '\''

/-- A character of a key without quotes. -/
def isBare (c : Char) : Bool := c.isAlphanum || c == '-' || c == '_'

/-- The value of a digit, up to base sixteen. -/
def digitValue (c : Char) : Nat :=
  if c.isDigit then c.toNat - '0'.toNat else c.toLower.toNat - 'a'.toNat + 10

def isHexDigit (c : Char) : Bool := c.isDigit || ('a' ≤ c.toLower && c.toLower ≤ 'f')

/-- A space or a tab. -/
def blank : Reader Unit := do
  let _ ← satisfy isBlank

/-- Spaces and tabs. -/
def blanks : Reader Unit := do
  let _ ← takeWhile isBlank

def newline : Reader Unit := char '\n' <|> literal "\r\n"

/-! ## Strings -/

/-- The character whose number is written in `n` hexadecimal digits. -/
def codePoint (n : Nat) : Reader Char := do
  let digits ← count n (satisfy isHexDigit)
  let code := Decimal.ofDigits 16 (digits.map digitValue)
  if code.isValidChar then pure (Char.ofNat code) else failure

/-- The character that an escape stands for. -/
def escape : Reader Char := do
  char '\\'
  match ← item with
  | 'b' => pure '\x08'
  | 't' => pure '\t'
  | 'n' => pure '\n'
  | 'f' => pure '\x0c'
  | 'r' => pure '\r'
  | '"' => pure '"'
  | '\\' => pure '\\'
  | 'u' => codePoint 4
  | 'U' => codePoint 8
  | _ => failure

def basicString : Reader String := do
  char '"'
  let text ← many (satisfy isBasic <|> escape)
  char '"'
  pure (String.ofList text)

def verbatimString : Reader String := do
  char '\''
  let text ← takeWhile isVerbatim
  char '\''
  pure (String.ofList text)

/-- One or two quotes that do not end a string of several lines. -/
def innerQuotes (quote : Char) : Reader (List Char) := do
  let run ← takeWhile (· == quote)
  if run.length < 3 then pure run else failure

/-- The three quotes that end a string of several lines, after at most two that belong to it. -/
def closingQuotes (quote : Char) : Reader (List Char) := do
  let run ← takeWhile (· == quote)
  if 3 ≤ run.length ∧ run.length ≤ 5 then pure (run.drop 3) else failure

/-- A string of several lines, made of pieces; a line break directly after its start is left out. -/
def longString (quote : Char) (piece : Reader (List Char)) : Reader String := do
  let _ ← count 3 (char quote)
  let _ ← attempt newline
  let text ← many ((newline *> pure ['\n']) <|> piece <|> innerQuotes quote)
  let last ← closingQuotes quote
  pure (String.ofList (text.flatten ++ last))

/-- A backslash at the end of a line, which joins the line with the next text. -/
def joinedLines : Reader (List Char) := do
  char '\\'
  blanks
  newline
  let _ ← many (blank <|> newline)
  pure []

def string : Reader String :=
  longString '"' (((fun c => [c]) <$> (satisfy isBasic <|> escape)) <|> joinedLines)
    <|> basicString
    <|> longString '\'' ((fun c => [c]) <$> satisfy isVerbatim)
    <|> verbatimString

/-! ## Numbers -/

/-- Digits with single underscores between them, as values. -/
def digits (p : Char → Bool) : Reader (List Nat) := do
  let first ← satisfy p
  let rest ← many (attempt (char '_') *> satisfy p)
  pure ((first :: rest).map digitValue)

def sign : Reader Bool := do
  let s ← attempt (satisfy fun c => c == '+' || c == '-')
  pure (s == some '-')

/-- Decimal digits without a zero in front of others. -/
def wholeDigits : Reader (List Nat) := do
  let ds ← digits Char.isDigit
  if ds.length > 1 ∧ ds.head? = some 0 then failure else pure ds

/-- A whole number in base two, eight or sixteen, after its mark. -/
def basedInteger : Reader Int := do
  char '0'
  let (base, isDigit) ← match ← item with
    | 'x' => pure (16, isHexDigit)
    | 'o' => pure (8, fun c => '0' ≤ c && c ≤ '7')
    | 'b' => pure (2, fun c => c == '0' || c == '1')
    | _ => failure
  let ds ← digits isDigit
  pure (Decimal.ofDigits base ds : Nat)

def decimalInteger : Reader Int := do
  let negative ← sign
  let n : Int := (Decimal.ofDigits 10 (← wholeDigits) : Nat)
  pure (if negative then -n else n)

/-- The number above all whole numbers of 64 bits. -/
def integerBound : Nat := Nat.pow 2 63

def integer : Reader Int := do
  let n ← basedInteger <|> decimalInteger
  if -integerBound ≤ n ∧ n < integerBound then pure n else failure

def exponent : Reader Int := do
  let _ ← satisfy fun c => c == 'e' || c == 'E'
  let negative ← sign
  let n : Int := (Decimal.ofDigits 10 (← digits Char.isDigit) : Nat)
  pure (if negative then -n else n)

/-- A number with decimals or an exponent; above the range of doubles there is none. -/
def decimalFloat : Reader Float := do
  let negative ← sign
  let whole ← wholeDigits
  let decimals ← attempt (char '.' *> digits Char.isDigit)
  let power ← attempt exponent
  if decimals.isNone ∧ power.isNone then failure
  else
    let places := decimals.getD []
    let x := Decimal.closestSigned negative (Decimal.ofDigits 10 (whole ++ places))
      (power.getD 0 - places.length)
    if x == Double.infinity then failure else pure x

/-- The two numbers that are no decimals. -/
def specialFloat : Reader Float := do
  let negative ← sign
  let x ← (literal "inf" *> pure Double.infinity) <|> (literal "nan" *> pure Double.nan)
  pure (if negative then -x else x)

def float : Reader Float := decimalFloat <|> specialFloat

/-! ## Dates and times -/

/-- A number of exactly `n` digits between two bounds. -/
def bounded (n lo hi : Nat) : Reader Nat := do
  let ds ← count n (satisfy Char.isDigit)
  let value := Decimal.ofDigits 10 (ds.map digitValue)
  if lo ≤ value ∧ value ≤ hi then pure value else failure

/-- The number of days of a month. -/
def daysOf (year month : Nat) : Nat :=
  if month = 2 then
    if year % 4 = 0 ∧ (year % 100 ≠ 0 ∨ year % 400 = 0) then 29 else 28
  else if month ∈ [4, 6, 9, 11] then 30
  else 31

def date : Reader Unit := do
  let year ← bounded 4 0 9999
  char '-'
  let month ← bounded 2 1 12
  char '-'
  let _ ← bounded 2 1 (daysOf year month)

def timeOfDay : Reader Unit := do
  let _ ← bounded 2 0 23
  char ':'
  let _ ← bounded 2 0 59
  char ':'
  let _ ← bounded 2 0 60
  let _ ← attempt (char '.' *> satisfy Char.isDigit *> takeWhile Char.isDigit)

/-- The distance of a time from universal time. -/
def offset : Reader Unit := do
  match ← item with
  | 'Z' | 'z' => pure ()
  | '+' | '-' =>
    let _ ← bounded 2 0 23
    char ':'
    let _ ← bounded 2 0 59
  | _ => failure

/-- A date, a time of day, or both. -/
def moment : Reader Unit :=
  (do
    date
    let _ ← attempt do
      let _ ← satisfy fun c => c == 'T' || c == 't' || c == ' '
      timeOfDay
      let _ ← attempt offset)
  <|> timeOfDay

end PenTouch.Toml
