/-
Cutting a JSON text into tokens, one character at a time.
-/
import NetLower.Json.Number

namespace NetLower

/-- A token of a JSON text. A numeral that is out of range has no number, and a quoted text with
half a surrogate pair has no characters; both still have their place in the text. -/
inductive JsonToken where
  | leftBrace
  | rightBrace
  | leftBracket
  | rightBracket
  | colon
  | comma
  | null
  | bool (value : Bool)
  | number (value : Option JsonNumber)
  | text (value : Option String)
  deriving DecidableEq, Repr

namespace JsonToken

/-- A quoted text as far as it has been read. -/
structure Quoted where
  /-- The characters, last first. -/
  chars : List Char := []
  /-- The first half of a surrogate pair whose second half must follow. -/
  pending : Option Nat := none
  /-- Whether every half of a surrogate pair found its other half. -/
  sound : Bool := true

namespace Quoted

def push (q : Quoted) (c : Char) : Quoted :=
  { q with chars := c :: q.chars, pending := none, sound := q.sound && q.pending.isNone }

/-- The character behind a surrogate pair. -/
def paired (high low : Nat) : Char :=
  Char.ofNat (0x10000 + (high - 0xD800) * 0x400 + (low - 0xDC00))

/-- Add a 16-bit unit written as an escape. -/
def pushUnit (q : Quoted) (unit : Nat) : Quoted :=
  if 0xDC00 ≤ unit ∧ unit ≤ 0xDFFF then
    match q.pending with
    | some high => { q with chars := paired high unit :: q.chars, pending := none }
    | none => { q with sound := false }
  else if 0xD800 ≤ unit ∧ unit ≤ 0xDBFF then
    { q with pending := some unit, sound := q.sound && q.pending.isNone }
  else q.push (Char.ofNat unit)

/-- The characters, if there are any for every unit. -/
def text? (q : Quoted) : Option String :=
  if q.sound && q.pending.isNone then some (String.ofList q.chars.reverse) else none

end Quoted

/-- Where the reader stands in the text. -/
inductive Mode where
  | between
  /-- Inside quotes. -/
  | quoted (q : Quoted)
  /-- Behind a backslash. -/
  | escape (q : Quoted)
  /-- Inside the digits of a unit escape: the digits so far and how many are missing. -/
  | unit (q : Quoted) (value missing : Nat)
  /-- Inside a bare word or numeral, last character first. -/
  | word (chars : List Char)

/-- Characters that bare words and numerals are made of. -/
def isWordChar (c : Char) : Bool := c.isAlphanum || c == '-' || c == '+' || c == '.'

def isBlank (c : Char) : Bool := c == ' ' || c == '\t' || c == '\n' || c == '\r'

/-- The token of a bare word or numeral. -/
def ofWord? (chars : List Char) : Option JsonToken :=
  if chars = ['n', 'u', 'l', 'l'] then some .null
  else if chars = ['t', 'r', 'u', 'e'] then some (.bool true)
  else if chars = ['f', 'a', 'l', 's', 'e'] then some (.bool false)
  else (JsonNumber.Numeral.ofText? chars).map fun n => .number n.value?

/-- The token of a mark. -/
def ofMark? : Char → Option JsonToken
  | '\x7b' => some .leftBrace
  | '\x7d' => some .rightBrace
  | '[' => some .leftBracket
  | ']' => some .rightBracket
  | ':' => some .colon
  | ',' => some .comma
  | _ => none

/-- The character a short escape stands for. -/
def ofEscape? : Char → Option Char
  | '"' => some '"'
  | '\\' => some '\\'
  | '/' => some '/'
  | 'b' => some '\x08'
  | 'f' => some '\x0c'
  | 'n' => some '\n'
  | 'r' => some '\r'
  | 't' => some '\t'
  | _ => none

def hexValue? (c : Char) : Option Nat :=
  if '0' ≤ c ∧ c ≤ '9' then some (c.toNat - '0'.toNat)
  else if 'a' ≤ c ∧ c ≤ 'f' then some (c.toNat - 'a'.toNat + 10)
  else if 'A' ≤ c ∧ c ≤ 'F' then some (c.toNat - 'A'.toNat + 10)
  else none

/-- Tokens read so far, last first, and where the reader stands. -/
structure Scan where
  tokens : List JsonToken := []
  mode : Mode := .between

/-- Read a character that belongs to no quoted text and no word. -/
def scanBetween (tokens : List JsonToken) (c : Char) : Option Scan :=
  if isBlank c then some ⟨tokens, .between⟩
  else if c = '"' then some ⟨tokens, .quoted {}⟩
  else if isWordChar c then some ⟨tokens, .word [c]⟩
  else (ofMark? c).map fun token => ⟨token :: tokens, .between⟩

/-- Read one character. -/
def scanChar (s : Scan) (c : Char) : Option Scan :=
  match s.mode with
  | .between => scanBetween s.tokens c
  | .quoted q =>
    if c = '"' then some ⟨.text q.text? :: s.tokens, .between⟩
    else if c = '\\' then some ⟨s.tokens, .escape q⟩
    else if c.toNat < 0x20 then none
    else some ⟨s.tokens, .quoted (q.push c)⟩
  | .escape q =>
    if c = 'u' then some ⟨s.tokens, .unit q 0 4⟩
    else (ofEscape? c).map fun d => ⟨s.tokens, .quoted (q.push d)⟩
  | .unit q value missing => do
    let digit ← hexValue? c
    let value := 16 * value + digit
    if missing ≤ 1 then some ⟨s.tokens, .quoted (q.pushUnit value)⟩
    else some ⟨s.tokens, .unit q value (missing - 1)⟩
  | .word chars =>
    if isWordChar c then some ⟨s.tokens, .word (c :: chars)⟩
    else do
      let token ← ofWord? chars.reverse
      scanBetween (token :: s.tokens) c

/-- The tokens once the text has ended. -/
def Scan.finish (s : Scan) : Option (List JsonToken) :=
  match s.mode with
  | .between => some s.tokens.reverse
  | .word chars => (ofWord? chars.reverse).map fun token => (token :: s.tokens).reverse
  | _ => none

/-- The tokens of a text. -/
def ofText? (text : String) : Option (List JsonToken) :=
  (text.toList.foldlM scanChar {}).bind Scan.finish

end JsonToken

end NetLower
