/-
Laying out a JSON text: two spaces for each level, and a line for each member.
-/
namespace NetLower

/-- A value to be written: its scalars are texts already. -/
inductive Document where
  | atom (text : String)
  | list (items : List Document)
  | record (fields : List (String × Document))

namespace Document

/-- The escape of a character inside quotes, if it needs one. -/
def escape? (c : Char) : Option String :=
  match c with
  | '"' => some "\\\""
  | '\\' => some "\\\\"
  | '\n' => some "\\n"
  | '\t' => some "\\t"
  | '\r' => some "\\r"
  | '\x08' => some "\\b"
  | '\x0c' => some "\\f"
  | c =>
    if c.toNat < 0x20 then
      let digits := Nat.toDigits 16 c.toNat
      some ("\\u" ++ String.ofList (List.replicate (4 - digits.length) '0' ++ digits))
    else none

/-- A text in quotes. -/
def quote (s : String) : String :=
  "\"" ++ String.join (s.toList.map fun c => (escape? c).getD (String.singleton c)) ++ "\""

def indent (level : Nat) : String := String.ofList (List.replicate (2 * level) ' ')

/-- Members on lines of their own between two marks. -/
def block (opening closing : String) (level : Nat) (members : List String) : String :=
  if members.isEmpty then opening ++ closing
  else
    let lines := members.map fun m => indent (level + 1) ++ m
    opening ++ "\n" ++ ",\n".intercalate lines ++ "\n" ++ indent level ++ closing

mutual

/-- The text of a value whose first line is already indented. -/
def render (level : Nat) : Document → String
  | .atom text => text
  | .list items => block "[" "]" level (renderItems (level + 1) items)
  | .record fields => block "\x7b" "\x7d" level (renderFields (level + 1) fields)

def renderItems (level : Nat) : List Document → List String
  | [] => []
  | item :: rest => render level item :: renderItems level rest

def renderFields (level : Nat) : List (String × Document) → List String
  | [] => []
  | (key, value) :: rest => (quote key ++ ": " ++ render level value) :: renderFields level rest

end

/-- The text of a value. -/
def text (d : Document) : String := render 0 d

/-- A quoted text. -/
def ofString (s : String) : Document := .atom (quote s)

/-- A value or `null`. -/
def ofOption (f : α → Document) : Option α → Document
  | some a => f a
  | none => .atom "null"

end Document

end NetLower
