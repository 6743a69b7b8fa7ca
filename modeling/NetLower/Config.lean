/-
Compilation options.
-/
import NetLower.Error
import NetLower.Text.Blank

namespace NetLower

structure Config where
  /-- Give eligible operations to the hardware. -/
  hwOptimization : Bool := true
  /-- Let the hardware run dilated windows. -/
  hwDilation : Bool := false
  /-- Layers that stay in software, each named once. -/
  hwDisabledLayers : List String := []
  deriving DecidableEq, Repr

namespace Config

instance : Inhabited Config := ⟨{}⟩

/-- The option that turns the hardware on. -/
def hwStagesKey : String := "HW_STAGES_OPTIMIZATION"

/-- The option that lets the hardware run dilated windows. -/
def hwDilationKey : String := "HW_DILATION"

/-- The option that names the layers kept in software. -/
def hwDisabledLayersKey : String := "HW_DISABLED_LAYERS"

/-- The state of a switch. -/
def readSwitch (key value : String) : Outcome Bool :=
  if value = "YES" then .ok true
  else if value = "NO" then .ok false
  else .error (.config (.notSwitch key value))

/-- The names in a comma-separated list. Blanks around a name and empty names do not count. -/
def readNames (value : String) : List String :=
  ((Text.splitAt ',' value).map Text.trim).filter (· ≠ "") |>.eraseDups

/-- The configuration with one option applied. -/
def apply (config : Config) (key value : String) : Outcome Config :=
  if key = hwStagesKey then do
    return { config with hwOptimization := ← readSwitch key value }
  else if key = hwDilationKey then do
    return { config with hwDilation := ← readSwitch key value }
  else if key = hwDisabledLayersKey then
    .ok { config with hwDisabledLayers := readNames value }
  else .error (.config (.unknownOption key))

/-- The configuration a list of options asks for. -/
def ofOptions (options : List (String × String)) : Outcome Config :=
  options.foldlM (fun config (key, value) => config.apply key value) {}

/-- Whether a layer stays in software. -/
def isHwDisabled (config : Config) (layer : String) : Bool :=
  config.hwDisabledLayers.contains layer

end Config

end NetLower
