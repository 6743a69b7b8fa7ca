import NetLower.Attr.Key
import NetLower.Attr.Store
import NetLower.Blob.Basic
import NetLower.Blob.Describe
import NetLower.Blob.Header
import NetLower.Blob.Write
import NetLower.Bytes
import NetLower.Cli.Arguments
import NetLower.Cli.Command
import NetLower.Cli.Directory
import NetLower.Cli.Failure
import NetLower.Cli.Path
import NetLower.Cli.Session
import NetLower.Compile
import NetLower.Config
import NetLower.Decimal.Notation
import NetLower.Decimal.Shortest
import NetLower.Dim
import NetLower.Error
import NetLower.Error.Message
import NetLower.Float.Double
import NetLower.Float.Format
import NetLower.Float.Single
import NetLower.Graph.Basic
import NetLower.Graph.Edit
import NetLower.Graph.Id
import NetLower.Graph.Order
import NetLower.Json.Basic
import NetLower.Json.Decode
import NetLower.Json.Document
import NetLower.Json.Number
import NetLower.Json.Token
import NetLower.Layer.Affine
import NetLower.Layer.Constants
import NetLower.Layer.Convolve
import NetLower.Layer.Dense
import NetLower.Layer.Hardware
import NetLower.Layer.Pool
import NetLower.Layer.Window
import NetLower.Main
import NetLower.Network.Attribute
import NetLower.Network.Basic
import NetLower.Network.Decode
import NetLower.Network.Graph
import NetLower.Network.Text
import NetLower.Network.Validate
import NetLower.Outcome
import NetLower.Pass.Basic
import NetLower.Pass.Batch
import NetLower.Pass.Check
import NetLower.Pass.DataOrder
import NetLower.Pass.Layout
import NetLower.Pass.Lower
import NetLower.Pass.Memory
import NetLower.Pass.Scale
import NetLower.Pass.Strides
import NetLower.Proofs.Attr
import NetLower.Proofs.Blob
import NetLower.Proofs.Blob.Areas
import NetLower.Proofs.Blob.Descriptors
import NetLower.Proofs.Graph.Edits
import NetLower.Proofs.Graph.Fits
import NetLower.Proofs.Graph.Layering
import NetLower.Proofs.Graph.Possible
import NetLower.Proofs.Graph.Protection
import NetLower.Proofs.Graph.Rearranged
import NetLower.Proofs.Graph.RunOrder
import NetLower.Proofs.Graph.Sites
import NetLower.Proofs.Graph.Splice
import NetLower.Proofs.Graph.Walk
import NetLower.Proofs.Graph.WellFormed
import NetLower.Proofs.Network.Constants
import NetLower.Proofs.Network.Fresh
import NetLower.Proofs.Network.Layers
import NetLower.Proofs.Outcome
import NetLower.Proofs.Pass.Batch
import NetLower.Proofs.Pass.BatchFit
import NetLower.Proofs.Pass.BatchKept
import NetLower.Proofs.Pass.DataOrder
import NetLower.Proofs.Pass.DataOrderFit
import NetLower.Proofs.Pass.Layout
import NetLower.Proofs.Pass.LayoutFit
import NetLower.Proofs.Pass.Memory
import NetLower.Proofs.Pass.OrderFixpoint
import NetLower.Proofs.Pass.OrderRest
import NetLower.Proofs.Pass.Rearranged
import NetLower.Proofs.Pass.Scale
import NetLower.Proofs.Pass.ScaleFit
import NetLower.Proofs.Pass.Strides
import NetLower.Proofs.Pass.StridesFit
import NetLower.Proofs.Pipeline
import NetLower.Proofs.Progress
import NetLower.Proofs.Stage.AtRest
import NetLower.Proofs.Stage.Fit
import NetLower.Proofs.Stage.Settled
import NetLower.Proofs.Stage.Slots
import NetLower.Proofs.Tensor
import NetLower.Proofs.Tensor.Encode
import NetLower.Proofs.Tensor.OrderCode
import NetLower.Proofs.Tensor.OrderWord
import NetLower.Proofs.Tensor.Places
import NetLower.Size
import NetLower.Stage.Batch
import NetLower.Stage.Check
import NetLower.Stage.Family
import NetLower.Stage.Kind
import NetLower.Stage.Layout
import NetLower.Stage.Scale
import NetLower.Stage.Section
import NetLower.Stage.Site
import NetLower.Stage.Slices
import NetLower.Stage.Slots
import NetLower.Stage.Window
import NetLower.Tensor.Desc
import NetLower.Tensor.ElementType
import NetLower.Tensor.Encode
import NetLower.Tensor.Order
import NetLower.Tensor.Strides
import NetLower.Tensor.Usage
import NetLower.Text.Blank
import NetLower.Text.Show
import NetLower.Proofs.Blob.Constants
import NetLower.Proofs.Graph.Gaps
import NetLower.Proofs.Pass.Frame
import NetLower.Proofs.Pass.Gaps
import NetLower.Proofs.Network.Reads
import NetLower.Proofs.Pass.ScaleTaken
import NetLower.Proofs.Network.Scales
import NetLower.Proofs.Tensor.Rules
import NetLower.Proofs.Pass.StridesMet
import NetLower.Proofs.Network.Hardware
import NetLower.Proofs.Network.Interface
import NetLower.Proofs.Pass.ScaleMap
import NetLower.Proofs.Pass.ScaleVisits
import NetLower.Proofs.Pass.ScaleBalance
import NetLower.Proofs.Faults
import NetLower.Proofs.Stage.Faults
import NetLower.Proofs.Pass.FrontFaults
import NetLower.Proofs.Tensor.Room
import NetLower.Proofs.Tensor.Image
import NetLower.Proofs.Stage.Permutation
import NetLower.Proofs.Layer.Window
import NetLower.Proofs.Pass.Weights
import NetLower.Proofs.Blob.Faults
import NetLower.Proofs.Network.Faults
import NetLower.Proofs.Graph.ScaledConst
import NetLower.Proofs.Graph.Sorted
import NetLower.Proofs.SizeFaults
import NetLower.Proofs.Pass.Unroll
import NetLower.Proofs.Pass.BatchExact
import NetLower.Proofs.Json.Spells
import NetLower.Proofs.Json.Numerals
import NetLower.Proofs.Network.Again
import NetLower.Proofs.Stage.Slices
import NetLower.Proofs.Blob.Sections
import NetLower.Proofs.Graph.Atomic
