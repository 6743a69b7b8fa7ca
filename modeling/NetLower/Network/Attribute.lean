/-
Reading the attributes of a layer as values of a certain type.
-/
import NetLower.Network.Basic

namespace NetLower

namespace LayerAttr

/-- The values of the attribute if it can be read in a certain way, or why not. -/
def refuse (reading : AttrReading) : Outcome α := .error (.network (.attributeType reading))

/-- A number; a whole one is rounded to the nearest. -/
def toFloat : LayerAttr → Outcome F32
  | float v => .ok v
  | int v => .ok (F32.ofInt v)
  | _ => refuse .float

def toInt : LayerAttr → Outcome Int
  | int v => .ok v
  | _ => refuse .int

def toText : LayerAttr → Outcome String
  | string v => .ok v
  | _ => refuse .string

/-- A list of whole numbers; a single one is a list too. -/
def toInts : LayerAttr → Outcome (List Int)
  | ints v => .ok v
  | int v => .ok [v]
  | _ => refuse .ints

end LayerAttr

namespace Layer

def attr? (l : Layer) (name : String) : Option LayerAttr := l.attributes.lookup name

def hasAttr (l : Layer) (name : String) : Bool := (l.attr? name).isSome

/-- An attribute, read in a certain way. -/
def attr (l : Layer) (read : LayerAttr → Outcome α) (name : String) : Outcome α :=
  match l.attr? name with
  | some value => read value
  | none => .error (.network (.noAttribute l.name name))

/-- An attribute read in a certain way, or a default where it is absent. -/
def attrOr (l : Layer) (read : LayerAttr → Outcome α) (name : String) (default : α) : Outcome α :=
  match l.attr? name with
  | some value => read value
  | none => .ok default

end Layer

end NetLower
