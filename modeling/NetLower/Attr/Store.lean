/-
The attributes of a stage.  Each key is written at most once, with a value of the
kind it admits, and attributes are kept in the order of their keys.
-/
import NetLower.Bytes
import NetLower.Error

namespace NetLower

/-- Attributes in the order of their keys. -/
structure Attrs where
  entries : List Attr
  deriving DecidableEq

namespace Attrs

def empty : Attrs := ⟨[]⟩

instance : Inhabited Attrs := ⟨empty⟩

/-- The value of a key. -/
def get? (a : Attrs) (key : AttrKey) : Option AttrValue :=
  (a.entries.find? fun e => e.key == key).map Attr.value

def has (a : Attrs) (key : AttrKey) : Bool := (a.get? key).isSome

/-- Entries with one more in its place. -/
def insertEntry (entry : Attr) : List Attr → List Attr
  | [] => [entry]
  | e :: rest =>
    if entry.key.rank < e.key.rank then entry :: e :: rest else e :: insertEntry entry rest

/-- Write an attribute. -/
def set (a : Attrs) (key : AttrKey) (value : AttrValue) : Outcome Attrs :=
  if h : value.kind = key.kind then
    if a.has key then .error (.attr (.alreadySet key))
    else .ok ⟨insertEntry ⟨key, value, h⟩ a.entries⟩
  else .error (.attr (.wrongKind key value.kind))

/-- Write attributes one after the other. -/
def setAll (a : Attrs) (entries : List (AttrKey × AttrValue)) : Outcome Attrs :=
  entries.foldlM (fun a (key, value) => a.set key value) a

def getInt (a : Attrs) (key : AttrKey) : Outcome Int32 :=
  match a.get? key with
  | some (.int v) => .ok v
  | some other => .error (.attr (.notInt key other))
  | none => .error (.attr (.missing key))

/-- A whole number, or a default where the key is absent. -/
def getIntOr (a : Attrs) (key : AttrKey) (default : Int32) : Outcome Int32 :=
  if a.has key then a.getInt key else .ok default

def getFloat (a : Attrs) (key : AttrKey) : Outcome F32 :=
  match a.get? key with
  | some (.float v) => .ok v
  | some other => .error (.attr (.notFloat key other))
  | none => .error (.attr (.missing key))

def getBool (a : Attrs) (key : AttrKey) : Outcome Bool :=
  match a.get? key with
  | some (.bool v) => .ok v
  | some other => .error (.attr (.notBool key other))
  | none => .error (.attr (.missing key))

/-- Whether a switch is present and on. -/
def isOn (a : Attrs) (key : AttrKey) : Outcome Bool :=
  if a.has key then a.getBool key else .ok false

/-- An entry with its number multiplied. -/
def scaleEntry (factor : F32) (e : Attr) : Attr :=
  match e with
  | ⟨key, .float v, typed⟩ => ⟨key, .float (v * factor), typed⟩
  | other => other

/-- The attributes with the number of one key multiplied. -/
def mulFloat (a : Attrs) (key : AttrKey) (factor : F32) : Outcome Attrs := do
  let _ ← a.getFloat key
  return ⟨a.entries.map fun e => if e.key = key then scaleEntry factor e else e⟩

/-- Whether two stores hold equal values under the same keys. A NaN equals nothing. -/
def same (a b : Attrs) : Bool :=
  a.entries.length == b.entries.length &&
    (a.entries.zip b.entries).all fun (x, y) => x.key == y.key && x.value.same y.value

/-- The window kept in attributes. Depth, padding and spread have defaults. -/
def window (a : Attrs) : Outcome Window := do
  let kernel : Axes Int32 :=
    ⟨← a.getInt .kernelSizeX, ← a.getInt .kernelSizeY, ← a.getIntOr .kernelSizeZ 1⟩
  let stride : Axes Int32 :=
    ⟨← a.getInt .kernelStrideX, ← a.getInt .kernelStrideY, ← a.getIntOr .kernelStrideZ 1⟩
  let left ← a.getIntOr .padLeft 0
  let right ← a.getIntOr .padRight 0
  let top ← a.getIntOr .padTop 0
  let bottom ← a.getIntOr .padBottom 0
  let front ← a.getIntOr .padFront 0
  let back ← a.getIntOr .padBack 0
  let dilation : Axes Int32 :=
    ⟨← a.getIntOr .dilationX 1, ← a.getIntOr .dilationY 1, ← a.getIntOr .dilationZ 1⟩
  return {
    kernel, stride, dilation
    padsBegin := ⟨left, top, front⟩
    padsEnd := ⟨right, bottom, back⟩ }

/-- The attributes that keep a window; depth is kept for volumes only. -/
def ofWindow (w : Window) (volume : Bool) : List (AttrKey × AttrValue) :=
  [(.kernelSizeX, .int w.kernel.x), (.kernelSizeY, .int w.kernel.y),
   (.kernelStrideX, .int w.stride.x), (.kernelStrideY, .int w.stride.y),
   (.padLeft, .int w.padsBegin.x), (.padRight, .int w.padsEnd.x),
   (.padTop, .int w.padsBegin.y), (.padBottom, .int w.padsEnd.y),
   (.dilationX, .int w.dilation.x), (.dilationY, .int w.dilation.y)] ++
  if volume then
    [(.kernelSizeZ, .int w.kernel.z), (.kernelStrideZ, .int w.stride.z),
     (.padFront, .int w.padsBegin.z), (.padBack, .int w.padsEnd.z),
     (.dilationZ, .int w.dilation.z)]
  else []

end Attrs

/-- The fields of a window as 32-bit numbers. -/
def Window.bytes (w : Window) : Bytes :=
  w.fields.foldl (fun bytes v => bytes ++ Bytes.ofInt32 v) #[]

end NetLower
