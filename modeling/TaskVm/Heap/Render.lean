import TaskVm.Heap

/-!
# The texts of a value

Every value has a display text, which is what programs print, and a debug text, which also
shows types. Strings stand bare at the top of a display text and quoted inside collections.

A collection inside itself is abbreviated, and only there: the collections around the place
that is being printed are known, and one of them is printed as brackets with dots. A
collection that occurs twice side by side is printed twice.
-/

namespace TaskVm

/-- Which text of a value is meant. -/
inductive TextStyle where
  /-- The value stands alone. -/
  | display
  /-- The value is inside a collection. -/
  | nested
  | debug
deriving DecidableEq

/-- The style of what is inside. -/
def TextStyle.inner : TextStyle → TextStyle
  | debug => debug
  | _ => nested

namespace Heap

/-- The debug text of a value without parts. -/
def debugLeaf (h : Heap) : Value → String
  | .nil => "Nil"
  | .bool b => "Bool(" ++ (if b then "true" else "false") ++ ")"
  | .number n => "Number(" ++ n.text .plain ++ ")"
  | .string s => "String(" ++ Text.quote s ++ ")"
  | .function i => "Function(" ++ (h.template i).name ++ ")"
  | .closure i => "Closure(" ++ (h.closureTemplate i).name ++ ")"
  | .native i => "NativeFunction(" ++ (h.native i).name ++ ")"
  | .boundMethod _ method => "BoundMethod(" ++ method ++ ")"
  | .channel _ => "Channel"
  | .task i => "Task(" ++ toString (h.handle i).id ++ ")"
  | .error e => "Error(" ++ e.debug ++ ")"
  | .array _ | .map _ => ""

/-- The display text of a value without parts. -/
def displayLeaf (h : Heap) : Value → String
  | .nil => "nil"
  | .bool b => if b then "true" else "false"
  | .number n => n.display
  | .string s => s
  | .function i => "<fn " ++ (h.template i).name ++ ">"
  | .closure i => "<fn " ++ (h.closureTemplate i).name ++ ">"
  | .native i => "<native fn " ++ (h.native i).name ++ ">"
  | .boundMethod _ method => "<method " ++ method ++ ">"
  | .channel _ => "<channel>"
  | .task i => "<task " ++ toString (h.handle i).id ++ ">"
  | .error e => e.message
  | .array _ | .map _ => ""

/-- The text of a value without parts. -/
def leafText (h : Heap) (style : TextStyle) (v : Value) : String :=
  match style, v with
  | .debug, v => h.debugLeaf v
  | .nested, .string s => Text.quote s
  | _, v => h.displayLeaf v

/-- The key of a map entry in a text. -/
def keyText (style : TextStyle) (key : String) : String :=
  if style = .debug then Text.quote key else key

/-- The text of a value that has the collections `around` around it, going at most `limit`
deep. -/
def textWithin (h : Heap) : (limit : Nat) → TextStyle → (around : List Value) → Value → String
  | 0, _, _, _ => ""
  | limit + 1, style, around, v =>
    match v with
    | .array i =>
      if around.contains v then "[...]"
      else
        let inside := (h.array i).toList.map (h.textWithin limit style.inner (v :: around))
        "[" ++ ", ".intercalate inside ++ "]"
    | .map i =>
      if around.contains v then "\x7b...\x7d"
      else
        let inside := (h.map i).toList.map fun e =>
          keyText style e.1 ++ ": " ++ h.textWithin limit style.inner (v :: around) e.2
        "\x7b" ++ ", ".intercalate inside ++ "\x7d"
    | .boundMethod receiver method =>
      if style = .debug then
        "BoundMethod(" ++ h.textWithin limit .debug around receiver ++ "." ++ method ++ ")"
      else h.leafText style v
    | v => h.leafText style v

/-- More than a text can go deep: no collection is entered inside itself, and between two
collections there are only bound methods. -/
def textLimit (h : Heap) (v : Value) : Nat :=
  match v with
  | .array _ | .map _ | .boundMethod _ _ => (h.collections + 2) * (h.deepest + v.depth + 2)
  | _ => 1

/-- The text that programs print. -/
def display (h : Heap) (v : Value) : String := h.textWithin (h.textLimit v) .display [] v

/-- The text that shows types. -/
def debug (h : Heap) (v : Value) : String := h.textWithin (h.textLimit v) .debug [] v

/-- The key that a value stands for in a map: a string is its own key. -/
def mapKey (h : Heap) : Value → String
  | .string s => s
  | v => h.display v

end Heap

end TaskVm
