/-!
# Dates and times of TOML

A date, a time of day, or a date and a time of day, the last with or without an offset. The
parts must be in range, and the day in its month.
-/

namespace TaskVm.Toml

/-- A number of just so many digits. -/
def digits? : (count : Nat) → List Char → Option (Nat × List Char)
  | 0, cs => some (0, cs)
  | _ + 1, [] => none
  | count + 1, c :: cs =>
    if '0' ≤ c && c ≤ '9' then
      (digits? count cs).map fun r => ((c.toNat - '0'.toNat) * Nat.pow 10 count + r.1, r.2)
    else none

/-- A number of two digits between bounds. -/
def pair? (lo hi : Nat) (cs : List Char) : Option (Nat × List Char) := do
  let (n, rest) ← digits? 2 cs
  if lo ≤ n && n ≤ hi then some (n, rest) else none

/-- The text after a character. -/
def after? (c : Char) : List Char → Option (List Char)
  | d :: rest => if c = d then some rest else none
  | [] => none

/-- The number of days of a month. -/
def daysIn (year month : Nat) : Nat :=
  if month = 2 then
    if year % 4 = 0 && (year % 100 ≠ 0 || year % 400 = 0) then 29 else 28
  else if [4, 6, 9, 11].contains month then 30
  else 31

/-- The text after a date. -/
def skipDate? (cs : List Char) : Option (List Char) := do
  let (year, rest) ← digits? 4 cs
  let (month, rest) ← pair? 1 12 (← after? '-' rest)
  let (_, rest) ← pair? 1 (daysIn year month) (← after? '-' rest)
  some rest

/-- The text after the fraction of a second, if there is one. -/
def skipFraction? (cs : List Char) : Option (List Char) :=
  match after? '.' cs with
  | none => some cs
  | some rest => (digits? 1 rest).map fun r => r.2.dropWhile Char.isDigit

/-- The text after a time of day. -/
def skipClock? (cs : List Char) : Option (List Char) := do
  let (_, rest) ← pair? 0 23 cs
  let (_, rest) ← pair? 0 59 (← after? ':' rest)
  let (_, rest) ← pair? 0 60 (← after? ':' rest)
  skipFraction? rest

/-- The text after an offset, if there is one. -/
def skipOffset? : List Char → Option (List Char)
  | 'Z' :: rest | 'z' :: rest => some rest
  | '+' :: rest | '-' :: rest => do
    let (_, rest) ← pair? 0 23 rest
    let (_, rest) ← pair? 0 59 (← after? ':' rest)
    some rest
  | cs => some cs

/-- A date is followed by a time of day: by a `T`, or by a blank and two digits with a
colon. -/
def clockFollows? : List Char → Option (List Char)
  | 'T' :: rest | 't' :: rest | ' ' :: rest =>
    match (digits? 2 rest).bind fun r => after? ':' r.2 with
    | some _ => some rest
    | none => none
  | _ => none

/-- The text after a date, a time of day, or both. -/
def skipTime? (cs : List Char) : Option (List Char) :=
  match skipDate? cs with
  | none => skipClock? cs
  | some rest =>
    match clockFollows? rest with
    | none => some rest
    | some clock => (skipClock? clock).bind skipOffset?

end TaskVm.Toml
