import TaskVm.Text.CaseTable
import TaskVm.Text.Plain

/-!
# Upper and lower case of text

Case mapping follows the full Unicode mappings, which may change the length of a text.
One mapping looks at the context: a capital sigma at the end of a word becomes a final
sigma.
-/

namespace TaskVm.Text

/-- The run of a case table that holds a character. -/
def caseRun? (runs : Array CaseRun) (c : Char) : Option CaseRun :=
  runs.find? fun r => r.first ≤ c.toNat && c.toNat ≤ r.last && (c.toNat - r.first) % r.step == 0

/-- The character at one distance from another. -/
def shift (c : Char) (offset : Int) : Char := Char.ofNat (c.toNat + offset).toNat

/-- Map a character by a table of runs; other characters stay. -/
def mapByRuns (runs : Array CaseRun) (c : Char) : Char :=
  match caseRun? runs c with
  | some r => shift c r.offset
  | none => c

/-- The upper case of one character. -/
def upperChar (c : Char) : List Char :=
  match upperExpansions.find? fun e => e.1 == c.toNat with
  | some e => e.2.map Char.ofNat
  | none => [mapByRuns upperRuns c]

/-- The upper case of a text. -/
def upper (s : String) : String := String.ofList (s.toList.flatMap upperChar)

/-- The first character that casing does not look through has case. -/
def nextIsCased (cs : List Char) : Bool :=
  match cs.dropWhile (inRanges ignorableRanges) with
  | [] => false
  | c :: _ => inRanges casedRanges c

/-- The lower case of one character between what comes before it, in reverse, and after. -/
def lowerChar (before : List Char) (c : Char) (after : List Char) : List Char :=
  if c = 'Σ' then [if nextIsCased before && !nextIsCased after then 'ς' else 'σ']
  else if c = 'İ' then ['i', Char.ofNat 0x307]
  else [mapByRuns lowerRuns c]

/-- The lower case of the characters after `before`, which is in reverse. -/
def lowerFrom (before : List Char) : List Char → List Char
  | [] => []
  | c :: after => lowerChar before c after ++ lowerFrom (c :: before) after

/-- The lower case of a text. -/
def lower (s : String) : String := String.ofList (lowerFrom [] s.toList)

end TaskVm.Text
