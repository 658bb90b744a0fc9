/-!
# The tree of a settings file

A file is a tree of tables. A table that was only named on the way to another may still be opened
by a header once; one that was opened, or written in braces, may not be changed from outside.

* `Node.insert?` adds a key with a value to a table.
* `Node.open?`, `Node.append?` open a table, or the next element of a list of tables.
-/

namespace PenTouch.Toml

/-- How a table came about. -/
inductive TableKind where
  /-- By a header of its own. -/
  | opened
  /-- On the way to a table with a header. -/
  | passed
  /-- By a key with dots. -/
  | dotted
  /-- In braces. -/
  | closed
  deriving DecidableEq

/-- A value, or a table of named values. -/
inductive Node where
  | string (s : String)
  | integer (n : Int)
  | float (x : Float)
  | boolean (b : Bool)
  | moment
  | array (items : List Node)
  | table (kind : TableKind) (entries : List (String × Node))
  /-- Tables of one name, the last one first. -/
  | tables (latest : List (String × Node)) (earlier : List (List (String × Node)))

/-- The named values of a table. -/
abbrev Entries := List (String × Node)

namespace Entries

/-- The table with a new value for a key that it has, or with the key added. -/
def put (entries : Entries) (key : String) (node : Node) : Entries :=
  if entries.any (·.1 == key) then entries.map fun e => if e.1 == key then (key, node) else e
  else entries ++ [(key, node)]

/-- Changes the table at the end of a path. Tables that are missing are made on the way, as ones
that are dotted or passed; `f` is also told how the table came about. -/
def update? (dotted : Bool) (f : TableKind → Entries → Option Entries) :
    List String → TableKind → Entries → Option Entries
  | [], kind, entries => f kind entries
  | key :: path, _, entries =>
    match entries.lookup key with
    | none =>
      let kind := if dotted then .dotted else .passed
      (update? dotted f path kind []).map fun sub => entries.put key (.table kind sub)
    | some (.table .closed _) => none
    | some (.table kind sub) =>
      if dotted ∧ kind = .opened then none
      else (update? dotted f path kind sub).map fun sub => entries.put key (.table kind sub)
    | some (.tables latest earlier) =>
      (update? dotted f path .opened latest).map fun sub => entries.put key (.tables sub earlier)
    | some _ => none

/-- Adds a value under a path of keys with dots, which only reaches into tables made by such
paths. -/
def insert? (path : List String) (node : Node) (kind : TableKind) (entries : Entries) :
    Option Entries :=
  match path.getLast? with
  | none => none
  | some key =>
    update? true (fun kind entries =>
        if (kind = .dotted ↔ path.length = 1) ∨ (entries.lookup key).isSome then none
        else some (entries.put key node))
      path.dropLast kind entries

/-- Opens the table of a header; only a table that was merely passed may be there before. -/
def open? (path : List String) (root : Entries) : Option Entries :=
  match path.getLast? with
  | none => none
  | some key =>
    update? false (fun _ entries =>
        match entries.lookup key with
        | none => some (entries.put key (.table .opened []))
        | some (.table .passed sub) => some (entries.put key (.table .opened sub))
        | some _ => none)
      path.dropLast .opened root

/-- Adds a table to the list of tables of a name. -/
def append? (path : List String) (root : Entries) : Option Entries :=
  match path.getLast? with
  | none => none
  | some key =>
    update? false (fun _ entries =>
        match entries.lookup key with
        | none => some (entries.put key (.tables [] []))
        | some (.tables latest earlier) => some (entries.put key (.tables [] (latest :: earlier)))
        | some _ => none)
      path.dropLast .opened root

end Entries

end PenTouch.Toml
