/-
The window that a convolution or pooling moves over its input.
-/
namespace NetLower

/-- One value for each axis of space. -/
structure Axes (α : Type) where
  x : α
  y : α
  z : α
  deriving DecidableEq, Repr

namespace Axes

def all (a : α) : Axes α := ⟨a, a, a⟩

def toList (a : Axes α) : List α := [a.x, a.y, a.z]

end Axes

/-- Size, step, padding and spread of a window. -/
structure Window where
  kernel : Axes Int32
  stride : Axes Int32
  padsBegin : Axes Int32
  padsEnd : Axes Int32
  dilation : Axes Int32
  deriving DecidableEq, Repr

namespace Window

/-- The paddings side by side: left, right, top, bottom, front, back. -/
def pads (w : Window) : List Int32 :=
  [w.padsBegin.x, w.padsEnd.x, w.padsBegin.y, w.padsEnd.y, w.padsBegin.z, w.padsEnd.z]

/-- The fifteen numbers a blob holds for a window. -/
def fields (w : Window) : List Int32 :=
  w.kernel.toList ++ w.stride.toList ++ w.pads ++ w.dilation.toList

/-- Whether the window moves: every size and step is at least 1. -/
def moves (w : Window) : Bool := (w.kernel.toList ++ w.stride.toList).all fun v => 1 ≤ v

/-- Whether a window makes sense: positive sizes, steps and spreads, and no negative padding. -/
def valid (w : Window) : Bool :=
  w.moves && w.dilation.toList.all (fun v => 1 ≤ v)
    && (w.padsBegin.toList ++ w.padsEnd.toList).all fun v => 0 ≤ v

end Window

end NetLower
