import TaskVm.Text.Hex

/-!
# Lines and strings of TOML

Blanks, comments and line ends, and the four ways to write a string. Every function takes
the characters of a text and returns what it has read and the rest.
-/

namespace TaskVm.Toml

/-! ### Lines -/

/-- Blanks within a line. -/
def isGap (c : Char) : Bool := c == ' ' || c == '\t'

/-- The text after its blanks. -/
def skipGap (cs : List Char) : List Char := cs.dropWhile isGap

/-- The text after a line end. -/
def lineEnd? : List Char → Option (List Char)
  | '\n' :: rest => some rest
  | '\r' :: '\n' :: rest => some rest
  | _ => none

/-- What may stand in a comment: no control character but the tab. -/
def isInLine (c : Char) : Bool := c == '\t' || (' ' ≤ c && c ≤ '~') || 0x80 ≤ c.toNat

/-- The text after a comment, if there is one. -/
def skipComment : List Char → List Char
  | '#' :: rest => rest.dropWhile isInLine
  | cs => cs

/-- The text after the end of a line on which nothing but a comment is left. -/
def endLine? (cs : List Char) : Option (List Char) :=
  match skipComment (skipGap cs) with
  | [] => some []
  | cs => lineEnd? cs

/-- The text after blanks, line ends and comments. -/
def skipLines (inComment : Bool) : List Char → List Char
  | [] => []
  | '\n' :: rest => skipLines false rest
  | '\r' :: '\n' :: rest => skipLines false rest
  | c :: rest =>
    if inComment then if isInLine c then skipLines true rest else c :: rest
    else if isGap c then skipLines false rest
    else if c = '#' then skipLines true rest
    else c :: rest

/-! ### Strings -/

/-- What stands for itself in a string, other than its own quote. -/
def isPlainIn (quote : Char) (c : Char) : Bool := isInLine c && c != quote

/-- The character after a backslash. -/
def escape? : Char → Option Char
  | 'b' => some '\x08'
  | 'f' => some '\x0c'
  | 'n' => some '\n'
  | 'r' => some '\r'
  | 't' => some '\t'
  | '\\' => some '\\'
  | '"' => some '"'
  | _ => none

/-- The character of a code point in digits to base 16. -/
def codePoint? (digits : List Char) : Option Char :=
  (Text.hexNat? digits).bind fun n => if n.isValidChar then some (Char.ofNat n) else none

/-- An escape whose backslash has been read. -/
def escaped? : List Char → Option (Char × List Char)
  | 'u' :: a :: b :: c :: d :: rest => (codePoint? [a, b, c, d]).map (·, rest)
  | 'U' :: a :: b :: c :: d :: e :: f :: g :: h :: rest =>
    (codePoint? [a, b, c, d, e, f, g, h]).map (·, rest)
  | c :: rest => (escape? c).map (·, rest)
  | [] => none

/-- The rest of a string in double quotes. -/
def basicRest : (fuel : Nat) → List Char → Option (List Char × List Char)
  | 0, _ => none
  | _ + 1, '"' :: rest => some ([], rest)
  | fuel + 1, '\\' :: rest => do
    let (c, rest) ← escaped? rest
    let (cs, rest) ← basicRest fuel rest
    some (c :: cs, rest)
  | fuel + 1, c :: rest =>
    if isPlainIn '"' c then (basicRest fuel rest).map fun r => (c :: r.1, r.2) else none
  | _ + 1, [] => none

/-- The rest of a string in single quotes, where a backslash is a backslash. -/
def literalRest (cs : List Char) : Option (List Char × List Char) :=
  match cs.dropWhile (isPlainIn '\'') with
  | '\'' :: rest => some (cs.takeWhile (isPlainIn '\''), rest)
  | _ => none

/-- The end of a string in triple quotes, after these: up to two quotes more belong to the
string. -/
def surplusQuotes (quote : Char) : List Char → List Char × List Char
  | a :: b :: rest =>
    if a = quote then
      if b = quote then ([quote, quote], rest) else ([quote], b :: rest)
    else ([], a :: b :: rest)
  | [a] => if a = quote then ([quote], []) else ([], [a])
  | [] => ([], [])

/-- The text after blanks and line ends. -/
def skipBreaks : List Char → List Char
  | '\n' :: rest => skipBreaks rest
  | '\r' :: '\n' :: rest => skipBreaks rest
  | c :: rest => if isGap c then skipBreaks rest else c :: rest
  | [] => []

/-- The rest of a string in triple quotes. With double quotes there are escapes, and a
backslash at the end of a line joins it to the next text. -/
def tripleRest (quote : Char) : (fuel : Nat) → List Char → Option (List Char × List Char)
  | 0, _ => none
  | _ + 1, [] => none
  | fuel + 1, c :: rest =>
    let keep (c : Char) (rest : List Char) : Option (List Char × List Char) :=
      (tripleRest quote fuel rest).map fun r => (c :: r.1, r.2)
    match lineEnd? (c :: rest) with
    | some rest => keep '\n' rest
    | none =>
      if c = quote then
        match rest with
        | a :: b :: rest' =>
          if a = quote && b = quote then some (surplusQuotes quote rest') else keep c rest
        | _ => none
      else if c = '\\' && quote = '"' then
        match lineEnd? (skipGap rest) with
        | some rest => tripleRest quote fuel (skipBreaks rest)
        | none => (escaped? rest).bind fun e => keep e.1 e.2
      else if isInLine c then keep c rest
      else none

/-- The rest of a string in triple quotes. A line end right at the beginning does not
count. -/
def tripleString (quote : Char) (cs : List Char) : Option (List Char × List Char) :=
  tripleRest quote (cs.length + 1) ((lineEnd? cs).getD cs)

/-- A string on one line. -/
def lineString? : List Char → Option (List Char × List Char)
  | '"' :: rest => basicRest (rest.length + 1) rest
  | '\'' :: rest => literalRest rest
  | _ => none

/-- A string. -/
def string? : List Char → Option (List Char × List Char)
  | '"' :: '"' :: '"' :: rest => tripleString '"' rest
  | '\'' :: '\'' :: '\'' :: rest => tripleString '\'' rest
  | cs => lineString? cs

end TaskVm.Toml
