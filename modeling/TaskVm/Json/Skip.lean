import TaskVm.Json.Reader

/-!
# Passing over JSON

A value nobody asks for has to be written like a value, but it is not made: its numbers may
be of any size, its escapes need not name characters, and it may be nested to any depth.
Every function returns the text behind what it passed over.
-/

namespace TaskVm.Json

/-- Pass over a string whose opening quote has been read. -/
def skipString : List Char → Option (List Char)
  | [] => none
  | '"' :: rest => some rest
  | '\\' :: 'u' :: a :: b :: c :: d :: rest =>
    if (Text.hexNat? [a, b, c, d]).isSome then skipString rest else none
  | '\\' :: c :: rest =>
    if ['"', '\\', '/', 'b', 'f', 'n', 'r', 't'].contains c then skipString rest else none
  | c :: rest => if c.toNat < 0x20 || c == '\\' then none else skipString rest

/-- Pass over a number without its sign. -/
def skipUnsigned (cs : List Char) : Option (List Char) := do
  let (_, rest) ← integerPart cs
  let (_, rest) ← fractionPart rest
  let (_, rest) ← exponentPart rest
  some rest

mutual

/-- Pass over a value. -/
def skipValue : (fuel : Nat) → List Char → Option (List Char)
  | 0, _ => none
  | fuel + 1, cs =>
    match skipSpace cs with
    | 'n' :: 'u' :: 'l' :: 'l' :: rest => some rest
    | 't' :: 'r' :: 'u' :: 'e' :: rest => some rest
    | 'f' :: 'a' :: 'l' :: 's' :: 'e' :: rest => some rest
    | '"' :: rest => skipString rest
    | '[' :: rest =>
      match skipSpace rest with
      | ']' :: rest => some rest
      | rest => skipElements fuel rest
    | '\x7b' :: rest =>
      match skipSpace rest with
      | '\x7d' :: rest => some rest
      | rest => skipMembers fuel rest
    | '-' :: rest => skipUnsigned rest
    | rest => skipUnsigned rest

/-- Pass over the elements of an array that is not empty, up to its bracket. -/
def skipElements : (fuel : Nat) → List Char → Option (List Char)
  | 0, _ => none
  | fuel + 1, cs =>
    match skipValue fuel cs with
    | none => none
    | some rest =>
      match skipSpace rest with
      | ',' :: rest => skipElements fuel rest
      | ']' :: rest => some rest
      | _ => none

/-- Pass over the members of an object that is not empty, up to its brace. -/
def skipMembers : (fuel : Nat) → List Char → Option (List Char)
  | 0, _ => none
  | fuel + 1, cs =>
    match skipSpace cs with
    | '"' :: rest =>
      match skipString rest with
      | none => none
      | some rest =>
        match skipSpace rest with
        | ':' :: rest =>
          match skipValue fuel rest with
          | none => none
          | some rest =>
            match skipSpace rest with
            | ',' :: rest => skipMembers fuel rest
            | '\x7d' :: rest => some rest
            | _ => none
        | _ => none
    | _ => none

end

end TaskVm.Json
