/-
Identifiers of the nodes and links of a stage graph.  An identifier is a place in
the order of creation and is never given out twice.
-/
namespace NetLower

/-- A tensor of the graph. -/
structure DataId where
  index : Nat
  deriving DecidableEq, Repr, Inhabited

/-- A stage of the graph. -/
structure StageId where
  index : Nat
  deriving DecidableEq, Repr, Inhabited

/-- A link between a tensor and a stage. -/
structure EdgeId where
  index : Nat
  deriving DecidableEq, Repr, Inhabited

def DataId.text (id : DataId) : String := "DataId(" ++ toString id.index ++ ")"

def StageId.text (id : StageId) : String := "StageId(" ++ toString id.index ++ ")"

def EdgeId.text (id : EdgeId) : String := "EdgeId(" ++ toString id.index ++ ")"

end NetLower
