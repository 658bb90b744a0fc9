/-!
# Readers

A reader takes something off the front of a text, or fails and leaves the text as it was. A choice
tries its second reader only if the first has failed. `many` ends as soon as a round takes nothing,
so every reader ends.
-/

namespace PenTouch.Toml

/-- Takes a value off the front of a text. -/
abbrev Reader := StateT (List Char) Option

namespace Reader

/-- The next character. -/
def item : Reader Char
  | [] => none
  | c :: rest => some (c, rest)

/-- The next character, if it satisfies `p`. -/
def satisfy (p : Char → Bool) : Reader Char := do
  let c ← item
  if p c then pure c else failure

def char (c : Char) : Reader Unit := do
  let _ ← satisfy (· == c)

def literal (s : String) : Reader Unit := s.toList.forM char

/-- All characters up to the first that does not satisfy `p`. -/
def takeWhile (p : Char → Bool) : Reader (List Char) := fun s =>
  some (s.takeWhile p, s.dropWhile p)

/-- The end of the text. -/
def finished : Reader Unit
  | [] => some ((), [])
  | _ => none

variable {β γ : Type}

/-- What `p` takes, or nothing if it fails. -/
def attempt (p : Reader β) : Reader (Option β) := (some <$> p) <|> pure none

/-- Repeats `p` until it fails or takes nothing. -/
def repeated (p : Reader β) (s : List Char) : List β × List Char :=
  match p s with
  | none => ([], s)
  | some (b, rest) =>
    if rest.length < s.length then
      let (bs, last) := repeated p rest
      (b :: bs, last)
    else ([], s)
termination_by s.length

/-- As many values as `p` takes one after the other. -/
def many (p : Reader β) : Reader (List β) := fun s => some (repeated p s)

/-- One or more values with a separator between them. -/
def separated (p : Reader β) (separator : Reader γ) : Reader (List β) := do
  let first ← p
  let rest ← many (separator *> p)
  pure (first :: rest)

def count (n : Nat) (p : Reader β) : Reader (List β) := (List.range n).mapM fun _ => p

/-- The whole text. -/
def all? (p : Reader β) (s : String) : Option β := (·.1) <$> (p <* finished).run s.toList

end Reader

end PenTouch.Toml
