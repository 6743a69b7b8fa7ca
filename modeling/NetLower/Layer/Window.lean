/-
The window of a layer.  Lists give the outermost axis first, as shapes do, and a
single value counts for every axis.
-/
import NetLower.Network.Attribute
import NetLower.Outcome
import NetLower.Stage.Window

namespace NetLower

namespace Layer

/-- What is wrong with a layer. -/
def fail (l : Layer) (cause : LayerError) : Outcome α := .error (.layer l.name cause)

/-- A whole number of 32 bits. -/
def word (l : Layer) (name : String) (value : Int) : Outcome Int32 :=
  if Int32.minValue.toInt ≤ value ∧ value ≤ Int32.maxValue.toInt then .ok (Int32.ofInt value)
  else l.fail (.listRange name value)

/-- A list attribute by axis. `axes` is 2 or 3; where the attribute or an axis is absent, the
default holds. -/
def spatial (l : Layer) (name : String) (axes : Nat) (default : Int32) : Outcome (Axes Int32) := do
  if !l.hasAttr name then return .all default
  let given ← l.attr LayerAttr.toInts name
  let values := match given with
    | [value] => List.replicate axes value
    | values => values
  if values.length ≠ axes then l.fail (.listLength name values.length axes)
  else
    let innermostFirst ← values.reverse.mapM (l.word name)
    return ⟨innermostFirst.getD 0 default, innermostFirst.getD 1 default,
      innermostFirst.getD 2 default⟩

/-- The window of a layer. Steps and spreads are 1 unless given, paddings 0, and the paddings at
the end are those at the beginning; layers that are not `dilated` have no spread. -/
def window (l : Layer) (axes : Nat) (dilated : Bool) : Outcome Window := do
  Outcome.require (l.hasAttr "kernel") (.network (.noAttribute l.name "kernel"))
  let kernel ← l.spatial "kernel" axes 1
  let stride ← l.spatial "strides" axes 1
  let padsBegin ← l.spatial "pads_begin" axes 0
  let padsEnd ← if l.hasAttr "pads_end" then l.spatial "pads_end" axes 0 else pure padsBegin
  let dilation ← if dilated then l.spatial "dilations" axes 1 else pure (.all 1)
  let window : Window := { kernel, stride, padsBegin, padsEnd, dilation }
  if window.valid then return window else l.fail (.window window)

end Layer

end NetLower
