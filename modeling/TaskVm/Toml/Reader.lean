import TaskVm.Toml.Numeral
import TaskVm.Toml.Text
import TaskVm.Toml.Time

/-!
# Reading TOML

A document is read line by line: a header opens a table, and every other line adds an entry
to the table that was opened last. Values may be nested 79 deep, and a key may have 79
parts.
-/

namespace TaskVm.Toml

/-! ### Keys -/

/-- What a key without quotes is made of. -/
def isBare (c : Char) : Bool :=
  ('a' ≤ c && c ≤ 'z') || ('A' ≤ c && c ≤ 'Z') || ('0' ≤ c && c ≤ '9') || c == '-' || c == '_'

/-- One part of a key. -/
def keyPart? (cs : List Char) : Option (String × List Char) :=
  match lineString? cs with
  | some (key, rest) => some (String.ofList key, rest)
  | none =>
    match cs.takeWhile isBare with
    | [] => none
    | key => some (String.ofList key, cs.dropWhile isBare)

/-- A key: parts with dots between them, the last one by itself. -/
def key? : (fuel : Nat) → List Char → Option (List String × String × List Char)
  | 0, _ => none
  | fuel + 1, cs => do
    let (part, rest) ← keyPart? (skipGap cs)
    match skipGap rest with
    | '.' :: rest =>
      let (path, last, rest) ← key? fuel rest
      some (part :: path, last, rest)
    | rest => some ([], part, rest)

/-- The greatest number of parts of a key, and the greatest depth of values. -/
def depthLimit : Nat := 79

/-! ### Values -/

/-- A value that is not made of others. -/
def scalar? (cs : List Char) : Option (Toml × List Char) :=
  match cs with
  | 't' :: 'r' :: 'u' :: 'e' :: rest => some (boolean true, rest)
  | 'f' :: 'a' :: 'l' :: 's' :: 'e' :: rest => some (boolean false, rest)
  | '"' :: _ | '\'' :: _ => (string? cs).map fun r => (string (String.ofList r.1), r.2)
  | _ =>
    match skipTime? cs with
    | some rest => some (time (String.ofList (cs.take (cs.length - rest.length))), rest)
    | none => numeral? cs

mutual

/-- A value, entering at most `depth` collections. -/
def value : (fuel depth : Nat) → List Char → Option (Toml × List Char)
  | 0, _, _ => none
  | fuel + 1, depth, cs =>
    match cs with
    | '[' :: rest =>
      if depth = 0 then none
      else
        match skipLines false rest with
        | ']' :: rest => some (array [], rest)
        | rest => (elements fuel (depth - 1) rest).map fun r => (array r.1, r.2)
    | '\x7b' :: rest =>
      if depth = 0 then none
      else
        match skipGap rest with
        | '\x7d' :: rest => some (table .braces [], rest)
        | rest => (members fuel (depth - 1) [] rest).map fun r => (table .braces r.1, r.2)
    | cs => scalar? cs

/-- The elements of an array, up to its bracket. A comma may follow the last one. -/
def elements : (fuel depth : Nat) → List Char → Option (List Toml × List Char)
  | 0, _, _ => none
  | fuel + 1, depth, cs =>
    match value fuel depth cs with
    | none => none
    | some (item, rest) =>
      match skipLines false rest with
      | ']' :: rest => some ([item], rest)
      | ',' :: rest =>
        match skipLines false rest with
        | ']' :: rest => some ([item], rest)
        | rest => (elements fuel depth rest).map fun r => (item :: r.1, r.2)
      | _ => none

/-- The entries of a table in braces, up to its brace, on one line. -/
def members : (fuel depth : Nat) → Entries → List Char → Option (Entries × List Char)
  | 0, _, _, _ => none
  | fuel + 1, depth, entries, cs =>
    match key? depthLimit cs with
    | some (path, key, '=' :: rest) =>
      match value fuel depth (skipGap rest) with
      | none => none
      | some (v, rest) =>
        match insertKey path key v .braces entries with
        | none => none
        | some entries =>
          match skipGap rest with
          | ',' :: rest => members fuel depth entries rest
          | '\x7d' :: rest => some (entries, rest)
          | _ => none
    | _ => none

end

/-! ### Lines -/

/-- A document so far: what it holds, and the table that was opened last. -/
structure Draft where
  entries : Entries := []
  opened : List String := []

/-- Add an entry to the table that was opened last. -/
def Draft.insert (d : Draft) (path : List String) (key : String) (v : Toml) : Option Draft :=
  (within .passed (insertKey path key v) d.opened .header d.entries).map fun entries =>
    { d with entries }

/-- Open the table of a header. -/
def Draft.enter (d : Draft) (begin : String → Entries → Option Entries) (path : List String)
    (key : String) : Option Draft :=
  (within .passed (fun _ => begin key) path .header d.entries).map fun entries =>
    { entries, opened := path ++ [key] }

/-- A line with an entry. -/
def entryLine (d : Draft) (cs : List Char) : Option (Draft × List Char) :=
  match key? depthLimit cs with
  | some (path, key, '=' :: rest) => do
    let (v, rest) ← value (2 * rest.length + 2) depthLimit (skipGap rest)
    let rest ← endLine? rest
    let d ← d.insert path key v
    some (d, rest)
  | _ => none

/-- A line with a header, its opening brackets read. -/
def headerLine (d : Draft) (cs : List Char) : Option (Draft × List Char) := do
  let (path, key, rest) ← key? depthLimit cs
  let ']' :: rest := rest | none
  let rest ← endLine? rest
  let d ← d.enter openTable path key
  some (d, rest)

/-- A line with a header in double brackets, these read. -/
def furtherLine (d : Draft) (cs : List Char) : Option (Draft × List Char) := do
  let (path, key, rest) ← key? depthLimit cs
  let ']' :: ']' :: rest := rest | none
  let rest ← endLine? rest
  let d ← d.enter openFurther path key
  some (d, rest)

/-- One line. -/
def line (d : Draft) (cs : List Char) : Option (Draft × List Char) :=
  match cs with
  | '[' :: '[' :: rest => furtherLine d rest
  | '[' :: rest => headerLine d rest
  | '#' :: _ | '\n' :: _ | '\r' :: _ => (endLine? cs).map (d, ·)
  | cs => entryLine d cs

/-- The lines of a document. -/
def lines : (fuel : Nat) → Draft → List Char → Option Draft
  | 0, _, _ => none
  | fuel + 1, d, cs =>
    match skipGap cs with
    | [] => some d
    | cs => (line d cs).bind fun r => lines fuel r.1 r.2

/-- Read a document. A byte order mark in front of it does not count. -/
def read? (text : String) : Option Toml :=
  let cs := match text.toList with
    | '\ufeff' :: rest => rest
    | cs => cs
  (lines (cs.length + 1) {} cs).map fun d => table .header d.entries

end TaskVm.Toml
