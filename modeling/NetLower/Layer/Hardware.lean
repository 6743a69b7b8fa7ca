/-
Which operations may run on the hardware.
-/
import NetLower.Config
import NetLower.Stage.Check

namespace NetLower

/-- Whether the hardware can move a window: even steps, small kernel and step, no depth. -/
def Window.fitsHardware (w : Window) : Bool :=
  w.stride.x == w.stride.y && decide (w.kernel.x ≤ maxHwKernel)
    && decide (w.kernel.y ≤ maxHwKernel) && decide (w.kernel.z ≤ 1)
    && decide (w.stride.x ≤ maxHwStride)

/-- Whether a window is spread on some axis. -/
def Window.isDilated (w : Window) : Bool := w.dilation.toList.any fun d => d != 1

namespace Config

/-- Whether a layer may run on the hardware at all. -/
def allowsHardware (config : Config) (layer : String) : Bool :=
  config.hwOptimization && !config.isHwDisabled layer

/-- Whether a layer with a window may run on the hardware. -/
def allowsWindow (config : Config) (layer : String) (window : Window) (rank : Nat) : Bool :=
  config.allowsHardware layer && window.fitsHardware
    && (config.hwDilation || !window.isDilated) && rank == 4

end Config

end NetLower
