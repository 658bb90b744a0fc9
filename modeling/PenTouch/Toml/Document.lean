import PenTouch.Toml.Literal
import PenTouch.Toml.Node

/-!
# Settings files

A file is read line by line: headers open tables, and keys with values go into the table opened
last. `parse?` gives the tree of a file, or nothing if the file is not well formed.
-/

namespace PenTouch.Toml

open Reader

/-! ## Values -/

/-- Values and keys are nested fewer than this many times. -/
def maxDepth : Nat := 80

/-- A part of a key. -/
def keyPart : Reader String :=
  basicString <|> verbatimString <|> do
    let name ← takeWhile isBare
    if name.isEmpty then failure else pure (String.ofList name)

def key : Reader (List String) := do
  let path ← separated (blanks *> keyPart <* blanks) (char '.')
  if path.length < maxDepth then pure path else failure

def comment : Reader Unit := do
  char '#'
  let _ ← takeWhile isPrintable

/-- What may stand between the values of an array. -/
def gap : Reader Unit := do
  let _ ← many (blank <|> newline <|> (comment *> newline))

/-- An array of values, with or without a comma after the last. -/
def array (value : Reader Node) : Reader Node := do
  char '['
  gap
  let items ← attempt (separated (value <* gap) (char ',' *> gap))
  if items.isSome then
    let _ ← attempt (char ',' *> gap)
  char ']'
  pure (.array (items.getD []))

def assignment (value : Reader Node) : Reader (List String × Node) := do
  let path ← key
  char '='
  blanks
  pure (path, ← value)

/-- A table in braces, on one line and without a comma after the last value. -/
def inlineTable (value : Reader Node) : Reader Node := do
  char '\x7b'
  blanks
  let pairs ← attempt (separated (assignment value <* blanks) (char ',' *> blanks))
  char '\x7d'
  let insert (entries : Entries) (pair : List String × Node) :=
    Entries.insert? pair.1 pair.2 .closed entries
  match (pairs.getD []).foldlM insert [] with
  | some entries => pure (.table .closed entries)
  | none => failure

/-- A value in which arrays and tables in braces are nested at most `depth` times. -/
def value : Nat → Reader Node
  | 0 => scalar
  | depth + 1 => scalar <|> array (value depth) <|> inlineTable (value depth)
where
  scalar : Reader Node :=
    (.string <$> string) <|> (literal "true" *> pure (.boolean true))
      <|> (literal "false" *> pure (.boolean false)) <|> (moment *> pure .moment)
      <|> (.float <$> float) <|> (.integer <$> integer)

/-! ## Lines -/

/-- What a line says. -/
inductive Line where
  | blank
  | header (path : List String)
  | nextTable (path : List String)
  | entry (path : List String) (node : Node)

def lineEnd : Reader Unit := do
  blanks
  let _ ← attempt comment
  newline <|> finished

def line : Reader Line :=
  (newline *> pure .blank)
    <|> (comment *> (newline <|> finished) *> pure .blank)
    <|> (.nextTable <$> (literal "[[" *> key <* literal "]]" <* lineEnd))
    <|> (.header <$> (char '[' *> key <* char ']' <* lineEnd))
    <|> ((fun (path, node) => .entry path node) <$> (assignment (value (maxDepth - 1)) <* lineEnd))

/-- The lines of a file, after a byte order mark if there is one. -/
def lines : Reader (List Line) := do
  let _ ← attempt (char '\ufeff')
  blanks
  many (line <* blanks)

/-! ## Files -/

/-- The tree so far, and the header of the table opened last. -/
structure Draft where
  root : Entries := []
  header : List String := []

/-- The tree after one more line. -/
def Draft.add? (d : Draft) : Line → Option Draft
  | .blank => some d
  | .header path => (Entries.open? path d.root).map fun root => ⟨root, path⟩
  | .nextTable path => (Entries.append? path d.root).map fun root => ⟨root, path⟩
  | .entry path node =>
    (Entries.update? false (fun kind entries => Entries.insert? path node kind entries) d.header
      .opened d.root).map fun root => { d with root }

/-- The tree of a file. -/
def parse? (text : String) : Option Entries := do
  let ls ← lines.all? text
  let draft ← ls.foldlM Draft.add? ({} : Draft)
  some draft.root

end PenTouch.Toml
