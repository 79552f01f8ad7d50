import TaskVm.Json
import TaskVm.Text.Hex

/-!
# Writing JSON

The compact text of a document, and an indented one for people.
-/

namespace TaskVm.Json

/-- One character of a string. Only the quote, the backslash and the control characters are
escaped. -/
def escape (c : Char) : List Char :=
  match c with
  | '"' => ['\\', '"']
  | '\\' => ['\\', '\\']
  | '\n' => ['\\', 'n']
  | '\r' => ['\\', 'r']
  | '\t' => ['\\', 't']
  | '\x08' => ['\\', 'b']
  | '\x0c' => ['\\', 'f']
  | c =>
    if c.toNat < 0x20 then '\\' :: 'u' :: Text.hexFixed 4 c.toNat else [c]

/-- A string in quotes. -/
def quoted (s : String) : List Char := '"' :: s.toList.flatMap escape ++ ['"']

/-- Texts one after the other with commas between them. -/
def commaSeparated : List (List Char) → List Char
  | [] => []
  | [t] => t
  | t :: ts => t ++ ',' :: commaSeparated ts

mutual

/-- The text without blanks. -/
def compact : Json → List Char
  | null => "null".toList
  | bool b => if b then "true".toList else "false".toList
  | integer n => (toString n).toList
  | float x => (x.text .json).toList
  | string s => quoted s
  | array items => '[' :: commaSeparated (compactItems items) ++ [']']
  | object members => '\x7b' :: commaSeparated (compactMembers members) ++ ['\x7d']

/-- The texts of an array's elements. -/
def compactItems : List Json → List (List Char)
  | [] => []
  | item :: rest => compact item :: compactItems rest

/-- The texts of an object's members. -/
def compactMembers : List (String × Json) → List (List Char)
  | [] => []
  | (key, item) :: rest => (quoted key ++ ':' :: compact item) :: compactMembers rest

end

/-- A line break and the indentation of a level, two blanks each. -/
def newLine (level : Nat) : List Char := '\n' :: List.replicate (2 * level) ' '

/-- Items on lines of their own between two brackets; nothing between them stays so. -/
def block (level : Nat) (opening closing : Char) (items : List (List Char)) : List Char :=
  if items.isEmpty then [opening, closing]
  else
    opening :: commaSeparated (items.map fun t => newLine (level + 1) ++ t) ++
      newLine level ++ [closing]

mutual

/-- The indented text of a value that begins at a level. -/
def pretty (level : Nat) : Json → List Char
  | array items => block level '[' ']' (prettyItems (level + 1) items)
  | object members => block level '\x7b' '\x7d' (prettyMembers (level + 1) members)
  | leaf => compact leaf

/-- The indented texts of an array's elements. -/
def prettyItems (level : Nat) : List Json → List (List Char)
  | [] => []
  | item :: rest => pretty level item :: prettyItems level rest

/-- The indented texts of an object's members. -/
def prettyMembers (level : Nat) : List (String × Json) → List (List Char)
  | [] => []
  | (key, item) :: rest =>
    (quoted key ++ ':' :: ' ' :: pretty level item) :: prettyMembers level rest

end

end TaskVm.Json
