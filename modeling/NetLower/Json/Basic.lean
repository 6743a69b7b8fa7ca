/-
JSON values and how they are read from text.  The reader keeps the containers it
has opened in a list, so a text may nest as deep as it likes.
-/
import NetLower.Json.Token

namespace NetLower

/-- A JSON value. As with tokens, a number may be out of range and a text without characters;
whoever reads the value refuses them, and whoever skips it does not care. -/
inductive Json where
  | null
  | bool (value : Bool)
  | number (value : Option JsonNumber)
  | text (value : Option String)
  | list (items : List Json)
  | record (fields : List (Option String × Json))

namespace Json

instance : Inhabited Json := ⟨null⟩

/-- A container that is still open; its members are listed last first. -/
inductive Frame where
  | list (done : List Json)
  | record (done : List (Option String × Json)) (key : Option String)

/-- What may come next. -/
inductive Reader where
  | value (stack : List Frame)
  /-- The first item of a list, or its end. -/
  | listStart (stack : List Frame)
  /-- The first key of a record, or its end. -/
  | recordStart (stack : List Frame)
  | key (done : List (Option String × Json)) (stack : List Frame)
  | colon (done : List (Option String × Json)) (key : Option String) (stack : List Frame)
  /-- A comma or the end of the innermost container, or of the text. -/
  | after (value : Json) (stack : List Frame)

/-- Read a token where a value may start. -/
def readValue (stack : List Frame) : JsonToken → Option Reader
  | .null => some (.after .null stack)
  | .bool value => some (.after (.bool value) stack)
  | .number value => some (.after (.number value) stack)
  | .text value => some (.after (.text value) stack)
  | .leftBracket => some (.listStart stack)
  | .leftBrace => some (.recordStart stack)
  | _ => none

/-- Read a token where a key may start. -/
def readKey (done : List (Option String × Json)) (stack : List Frame) : JsonToken → Option Reader
  | .text key => some (.colon done key stack)
  | _ => none

/-- Read one token. -/
def Reader.read (r : Reader) (token : JsonToken) : Option Reader :=
  match r, token with
  | .value stack, token => readValue stack token
  | .listStart stack, .rightBracket => some (.after (.list []) stack)
  | .listStart stack, token => readValue (.list [] :: stack) token
  | .recordStart stack, .rightBrace => some (.after (.record []) stack)
  | .recordStart stack, token => readKey [] stack token
  | .key done stack, token => readKey done stack token
  | .colon done k stack, .colon => some (.value (.record done k :: stack))
  | .after v (.list done :: stack), .comma => some (.value (.list (v :: done) :: stack))
  | .after v (.list done :: stack), .rightBracket => some (.after (.list (v :: done).reverse) stack)
  | .after v (.record done k :: stack), .comma => some (.key ((k, v) :: done) stack)
  | .after v (.record done k :: stack), .rightBrace =>
    some (.after (.record ((k, v) :: done).reverse) stack)
  | _, _ => none

/-- The value, if the text has ended behind it. -/
def Reader.finish : Reader → Option Json
  | .after v [] => some v
  | _ => none

/-- The value of a list of tokens. -/
def ofTokens? (tokens : List JsonToken) : Option Json :=
  (tokens.foldlM Reader.read (.value [])).bind Reader.finish

/-- The value a text stands for. -/
def parse? (text : String) : Option Json := (JsonToken.ofText? text).bind ofTokens?

end Json

end NetLower
