import TaskVm.Json
import TaskVm.Number.Decimal
import TaskVm.Text.Hex

/-!
# Reading JSON

A recursive descent over the characters of a text. Every function returns what it read and
the rest of the text. Collections may be nested 127 deep; the reader counts down from 128
and refuses to enter the last level. Who has reason to trust a text may set another limit.
-/

namespace TaskVm.Json

/-- Blanks between tokens. -/
def isSpace (c : Char) : Bool := c == ' ' || c == '\n' || c == '\t' || c == '\r'

/-- The text after its blanks. -/
def skipSpace (cs : List Char) : List Char := cs.dropWhile isSpace

/-! ### Strings -/

/-- Four digits to base 16. -/
def hexQuad : List Char → Option (Nat × List Char)
  | a :: b :: c :: d :: rest => (Text.hexNat? [a, b, c, d]).map (·, rest)
  | _ => none

/-- The character of an escaped code unit. A high surrogate needs its low half after it. -/
def escapedUnit (cs : List Char) : Option (Char × List Char) :=
  match hexQuad cs with
  | none => none
  | some (unit, rest) =>
    if 0xd800 ≤ unit ∧ unit < 0xdc00 then
      match rest with
      | '\\' :: 'u' :: rest =>
        match hexQuad rest with
        | none => none
        | some (low, rest) =>
          if 0xdc00 ≤ low ∧ low < 0xe000 then
            some (Char.ofNat (0x10000 + (unit - 0xd800) * 0x400 + (low - 0xdc00)), rest)
          else none
      | _ => none
    else if 0xdc00 ≤ unit ∧ unit < 0xe000 then none
    else some (Char.ofNat unit, rest)

/-- What follows the backslash of an escape. -/
def escaped : List Char → Option (Char × List Char)
  | '"' :: rest => some ('"', rest)
  | '\\' :: rest => some ('\\', rest)
  | '/' :: rest => some ('/', rest)
  | 'b' :: rest => some ('\x08', rest)
  | 'f' :: rest => some ('\x0c', rest)
  | 'n' :: rest => some ('\n', rest)
  | 'r' :: rest => some ('\r', rest)
  | 't' :: rest => some ('\t', rest)
  | 'u' :: rest => escapedUnit rest
  | _ => none

/-- The characters of a string whose opening quote has been read. -/
def stringBody : (fuel : Nat) → List Char → Option (List Char × List Char)
  | 0, _ => none
  | _ + 1, [] => none
  | _ + 1, '"' :: rest => some ([], rest)
  | fuel + 1, '\\' :: rest => do
    let (c, rest) ← escaped rest
    let (cs, rest) ← stringBody fuel rest
    some (c :: cs, rest)
  | fuel + 1, c :: rest =>
    if c.toNat < 0x20 then none
    else do
      let (cs, rest) ← stringBody fuel rest
      some (c :: cs, rest)

/-! ### Numbers -/

def isDigit (c : Char) : Bool := '0' ≤ c && c ≤ '9'

/-- The number that decimal digits spell. -/
def decimalValue (digits : List Char) : Nat :=
  digits.foldl (fun n c => 10 * n + (c.toNat - '0'.toNat)) 0

/-- The leading digits, of which there must be one. -/
def digits (cs : List Char) : Option (List Char × List Char) :=
  match cs.takeWhile isDigit with
  | [] => none
  | ds => some (ds, cs.dropWhile isDigit)

/-- The integer part of a number: no leading zeros. -/
def integerPart : List Char → Option (List Char × List Char)
  | '0' :: rest =>
    match rest with
    | c :: _ => if isDigit c then none else some (['0'], rest)
    | [] => some (['0'], [])
  | cs => digits cs

/-- The digits after a point, if there is one. -/
def fractionPart : List Char → Option (Option (List Char) × List Char)
  | '.' :: rest => do
    let (ds, rest) ← digits rest
    some (some ds, rest)
  | cs => some (none, cs)

/-- The exponent, if there is one. -/
def exponentPart : List Char → Option (Option Int × List Char)
  | c :: rest =>
    if c = 'e' ∨ c = 'E' then
      let (negative, rest) := match rest with
        | '-' :: rest => (true, rest)
        | '+' :: rest => (false, rest)
        | rest => (false, rest)
      do
        let (ds, rest) ← digits rest
        let n : Int := decimalValue ds
        some (some (if negative then -n else n), rest)
    else some (none, c :: rest)
  | [] => some (none, [])

/-- An integer as written: one that fits a word is kept, others become floats, and so does
a zero with a sign. -/
def ofInteger? (negative : Bool) (n : Nat) : Option Json :=
  let i : Int := if negative then -n else n
  if negative && n == 0 || i < minInteger || maxInteger < i then
    (Number.ofDecimal? negative n 0).map float
  else some (integer i)

/-- A number without its sign. -/
def unsignedNumber (negative : Bool) (cs : List Char) : Option (Json × List Char) := do
  let (whole, rest) ← integerPart cs
  let (fraction, rest) ← fractionPart rest
  let (exponent, rest) ← exponentPart rest
  match fraction, exponent with
  | none, none => (ofInteger? negative (decimalValue whole)).map (·, rest)
  | _, _ =>
    let tail := fraction.getD []
    let exponent := exponent.getD 0 - tail.length
    let x := Number.ofDecimal? negative (decimalValue (whole ++ tail)) exponent
    x.map fun x => (float x, rest)

/-- A number. -/
def number : List Char → Option (Json × List Char)
  | '-' :: rest => unsignedNumber true rest
  | cs => unsignedNumber false cs

/-! ### Values -/

mutual

/-- A value, entering at most `depth - 1` collections. -/
def value : (fuel depth : Nat) → List Char → Option (Json × List Char)
  | 0, _, _ => none
  | fuel + 1, depth, cs =>
    match skipSpace cs with
    | 'n' :: 'u' :: 'l' :: 'l' :: rest => some (null, rest)
    | 't' :: 'r' :: 'u' :: 'e' :: rest => some (bool true, rest)
    | 'f' :: 'a' :: 'l' :: 's' :: 'e' :: rest => some (bool false, rest)
    | '"' :: rest =>
      (stringBody (rest.length + 1) rest).map fun r => (string (String.ofList r.1), r.2)
    | '[' :: rest =>
      if depth ≤ 1 then none
      else
        match skipSpace rest with
        | ']' :: rest => some (array [], rest)
        | rest => (elements fuel (depth - 1) rest).map fun r => (array r.1, r.2)
    | '\x7b' :: rest =>
      if depth ≤ 1 then none
      else
        match skipSpace rest with
        | '\x7d' :: rest => some (object [], rest)
        | rest => (members fuel (depth - 1) rest).map fun r => (object r.1, r.2)
    | rest => number rest

/-- The elements of an array that is not empty, up to its bracket. -/
def elements : (fuel depth : Nat) → List Char → Option (List Json × List Char)
  | 0, _, _ => none
  | fuel + 1, depth, cs =>
    match value fuel depth cs with
    | none => none
    | some (item, rest) =>
      match skipSpace rest with
      | ',' :: rest => (elements fuel depth rest).map fun r => (item :: r.1, r.2)
      | ']' :: rest => some ([item], rest)
      | _ => none

/-- The members of an object that is not empty, up to its brace. -/
def members : (fuel depth : Nat) → List Char → Option (List (String × Json) × List Char)
  | 0, _, _ => none
  | fuel + 1, depth, cs =>
    match skipSpace cs with
    | '"' :: rest =>
      match stringBody (rest.length + 1) rest with
      | none => none
      | some (key, rest) =>
        match skipSpace rest with
        | ':' :: rest =>
          match value fuel depth rest with
          | none => none
          | some (item, rest) =>
            match skipSpace rest with
            | ',' :: rest =>
              (members fuel depth rest).map fun r => ((String.ofList key, item) :: r.1, r.2)
            | '\x7d' :: rest => some ([(String.ofList key, item)], rest)
            | _ => none
        | _ => none
    | _ => none

end

/-- The deepest level that is not entered any more. -/
def depthLimit : Nat := 128

/-- A document: one value, blanks around it, and nothing else. -/
def readWithin? (depth : Nat) (text : String) : Option Json :=
  let cs := text.toList
  match value (2 * cs.length + 2) depth cs with
  | some (v, rest) => if (skipSpace rest).isEmpty then some v else none
  | none => none

/-- A document that is not nested too deep. -/
def read? : String → Option Json := readWithin? depthLimit

end TaskVm.Json
