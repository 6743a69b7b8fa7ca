/-
Families of stage kinds.  Kinds of one family ask for the same things and are
written alike.
-/
import NetLower.Stage.Kind

namespace NetLower

inductive StageFamily where
  /-- Operations still to be given to the hardware or to software. -/
  | stub
  | convolution
  | fullyConnected
  | pooling
  | hardware
  | power
  | permute
  | copy
  | split
  | concat
  deriving DecidableEq, Repr

/-- The family of a kind. -/
def StageKind.family : StageKind → StageFamily
  | .stubConv | .stubFullyConnected | .stubDeconv | .stubMaxPool | .stubAvgPool => .stub
  | .convolution | .deconvolution => .convolution
  | .fullyConnected => .fullyConnected
  | .maxPool | .avgPool => .pooling
  | .hardware => .hardware
  | .power => .power
  | .permute => .permute
  | .copy => .copy
  | .split => .split
  | .concat => .concat

end NetLower
