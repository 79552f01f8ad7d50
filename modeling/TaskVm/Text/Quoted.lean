import TaskVm.Text.Hex
import TaskVm.Text.Plain

/-!
# Quoted text

The form text takes inside printed collections: double quotes around it, a backslash
escape where one exists, and the code point in braces for what cannot be shown.
-/

namespace TaskVm.Text

/-- One character of quoted text. -/
def quoteChar (c : Char) : String :=
  match c with
  | '\x00' => "\\0"
  | '\t' => "\\t"
  | '\r' => "\\r"
  | '\n' => "\\n"
  | '"' => "\\\""
  | '\\' => "\\\\"
  | c => if isPlain c then c.toString else "\\u\x7b" ++ hexDigits c.toNat ++ "\x7d"

/-- A text in double quotes. -/
def quote (s : String) : String := "\"" ++ String.join (s.toList.map quoteChar) ++ "\""

end TaskVm.Text
