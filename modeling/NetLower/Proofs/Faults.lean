/-
Where faults come from.  An operation may refuse a request as it likes; it is its faults
that are counted here.  Most operations on attributes, descriptors and graphs have none,
and those of the others come from products and sums of sizes.
-/
import Mathlib.Algebra.Order.BigOperators.GroupWithZero.List
import Mathlib.Algebra.Order.Ring.Nat
import NetLower.Compile
import NetLower.Proofs.Graph.Edits
import NetLower.Proofs.Tensor

namespace NetLower

/-- The error is no fault, or one of these. -/
@[simp] def Error.FaultIn (P : Fault → Prop) : Error → Prop
  | .fault cause => P cause
  | _ => True

/-- Any fault of the operation is one of these. -/
abbrev Outcome.FaultsOnly (P : Fault → Prop) (x : Outcome α) : Prop := FailsOnly (Error.FaultIn P) x

open Outcome

variable {P : Fault → Prop}

theorem Outcome.FaultsOnly.fault {x : Outcome α} {cause : Fault} (h : FaultsOnly P x)
    (hx : x = .error (.fault cause)) : P cause := h _ hx

/-! ## Sizes -/

namespace Size

@[simp] theorem faultsOnly_mul {a b : Nat} : FaultsOnly P (mul a b) ↔ (range ≤ a * b → P .multiply) := by
  simp [mul]

@[simp] theorem faultsOnly_add {a b : Nat} : FaultsOnly P (add a b) ↔ (range ≤ a + b → P .add) := by
  simp [add]

@[simp] theorem faultsOnly_alignUp {a b : Nat} :
    FaultsOnly P (alignUp a b) ↔ (range ≤ ceilDiv a b * b → P .multiply) := faultsOnly_mul

/-- The product of sizes, where a size of zero counts as one. -/
def volume (sizes : List Nat) : Nat := (sizes.map (max 1)).prod

@[simp] theorem volume_nil : volume [] = 1 := rfl

@[simp] theorem volume_cons (size : Nat) (sizes : List Nat) :
    volume (size :: sizes) = max 1 size * volume sizes := by
  simp [volume]

theorem volume_pos : ∀ sizes : List Nat, 0 < volume sizes
  | [] => Nat.one_pos
  | size :: sizes => by
    rw [volume_cons]
    exact Nat.mul_pos (Nat.le_max_left 1 size) (volume_pos sizes)

theorem volume_perm {sizes sizes' : List Nat} (h : sizes.Perm sizes') : volume sizes = volume sizes' :=
  (h.map _).prod_eq

theorem volume_eq_prod {sizes : List Nat} (hpos : 0 ∉ sizes) : volume sizes = sizes.prod := by
  have hmap : sizes.map (max 1) = sizes := by
    refine List.map_congr_left (g := id) (fun size hsize => ?_) |>.trans (List.map_id _)
    exact Nat.max_eq_right (Nat.pos_of_ne_zero fun h0 => hpos (h0 ▸ hsize))
  rw [volume, hmap]

@[simp] theorem volume_append (sizes sizes' : List Nat) :
    volume (sizes ++ sizes') = volume sizes * volume sizes' := by
  simp [volume]

theorem prod_le_volume : ∀ sizes : List Nat, sizes.prod ≤ volume sizes
  | [] => Nat.le_refl 1
  | size :: sizes => by
    rw [volume_cons, List.prod_cons]
    exact Nat.mul_le_mul (Nat.le_max_right 1 size) (prod_le_volume sizes)

theorem le_volume {size : Nat} {sizes : List Nat} (h : size ∈ sizes) : size ≤ volume sizes := by
  rw [volume_perm (List.perm_cons_erase h), volume_cons]
  exact Nat.le_trans (Nat.le_max_right 1 size) (Nat.le_mul_of_pos_right _ (volume_pos _))

/-- The product of the first sizes is out of range only if the volume of all is. -/
theorem faultsOnly_product {sizes : List Nat} (h : range ≤ volume sizes → P .multiply) :
    FaultsOnly P (product sizes) := by
  have from_acc : ∀ {sizes : List Nat} {start : Nat}, (range ≤ start * volume sizes → P .multiply) →
      FaultsOnly P (sizes.foldlM mul start) := by
    intro sizes
    induction sizes with
    | nil => simp
    | cons size sizes ih =>
      intro start h
      rw [volume_cons, ← Nat.mul_assoc] at h
      have hsize : start * size ≤ start * max 1 size := Nat.mul_le_mul_left _ (Nat.le_max_right 1 size)
      simp only [List.foldlM_cons, failsOnly_bind, faultsOnly_mul]
      refine ⟨fun hlarge => h ?_, fun next hnext => ih fun hlarge => h ?_⟩
      · exact Nat.le_trans (Nat.le_trans hlarge hsize) (Nat.le_mul_of_pos_right _ (volume_pos sizes))
      · rw [mul_eq_ok hnext] at hlarge
        exact Nat.le_trans hlarge (Nat.mul_le_mul_right _ hsize)
  exact from_acc (by simpa using h)

end Size

/-! ## Attributes and descriptors -/

namespace Attrs

variable (a : Attrs) (key : AttrKey)

@[simp] theorem faultsOnly_set (value : AttrValue) : FaultsOnly P (a.set key value) := by
  unfold set
  split <;> simp

@[simp] theorem faultsOnly_setAll (entries : List (AttrKey × AttrValue)) : FaultsOnly P (a.setAll entries) := by
  simp [setAll]

@[simp] theorem faultsOnly_getInt : FaultsOnly P (a.getInt key) := by
  unfold getInt
  split <;> simp

@[simp] theorem faultsOnly_getIntOr (default : Int32) : FaultsOnly P (a.getIntOr key default) := by simp [getIntOr]

@[simp] theorem faultsOnly_getFloat : FaultsOnly P (a.getFloat key) := by
  unfold getFloat
  split <;> simp

@[simp] theorem faultsOnly_isOn : FaultsOnly P (a.isOn key) := by
  unfold isOn getBool
  split
  · split <;> simp
  · simp

@[simp] theorem faultsOnly_mulFloat (factor : F32) : FaultsOnly P (a.mulFloat key factor) := by simp [mulFloat]

@[simp] theorem faultsOnly_window : FaultsOnly P a.window := by simp [window]

end Attrs

@[simp] theorem Order.faultsOnly_canonical (rank : Nat) : FaultsOnly P (canonical rank) := by
  unfold canonical
  split <;> simp

@[simp] theorem Order.faultsOnly_interleaved (rank : Nat) : FaultsOnly P (interleaved rank) := by
  unfold interleaved
  split <;> simp

namespace Desc

variable (t : Desc)

@[simp] theorem faultsOnly_new (dtype : ElementType) (dims : List Nat) : FaultsOnly P (new dtype dims) := by
  unfold new
  split <;> simp

@[simp] theorem faultsOnly_setDim (dim : Dim) (size : Nat) : FaultsOnly P (t.setDim dim size) := by
  unfold setDim
  split <;> simp

@[simp] theorem faultsOnly_setOrder (order : Order) : FaultsOnly P (t.setOrder order) := by
  unfold setOrder
  split <;> simp

end Desc

/-! ## Graphs -/

namespace Graph

variable (g : Graph)

@[simp] theorem faultsOnly_data (id : DataId) : FaultsOnly P (g.data id) := by
  unfold data
  split <;> simp

@[simp] theorem faultsOnly_stage (id : StageId) : FaultsOnly P (g.stage id) := by
  unfold stage
  split <;> simp

@[simp] theorem faultsOnly_edge (id : EdgeId) : FaultsOnly P (g.edge id) := by
  unfold edge
  split <;> simp

@[simp] theorem faultsOnly_inputIds (s : Stage) : FaultsOnly P (g.inputIds s) := by simp [inputIds]

@[simp] theorem faultsOnly_outputIds (s : Stage) : FaultsOnly P (g.outputIds s) := by simp [outputIds]

@[simp] theorem faultsOnly_site (id : StageId) : FaultsOnly P (g.site id) := by simp [site]

@[simp] theorem faultsOnly_inputData (id : StageId) (slot : Nat) : FaultsOnly P (g.inputData id slot) := by
  simp only [inputData, failsOnly_bind, faultsOnly_stage, true_and]
  intro s _
  split <;> simp

@[simp] theorem faultsOnly_outputData (id : StageId) (slot : Nat) : FaultsOnly P (g.outputData id slot) := by
  simp only [outputData, failsOnly_bind, faultsOnly_stage, true_and]
  intro s _
  split <;> simp

@[simp] theorem faultsOnly_runOrder : FaultsOnly P g.runOrder := by
  unfold runOrder
  split <;> simp

@[simp] theorem faultsOnly_addData (name : String) (desc : Desc) (usage : Usage) :
    FaultsOnly P (g.addData name desc usage) := by
  cases usage <;> simp [addData]

theorem faultsOnly_addConst (name : String) {desc : Desc} (content : Array F32) (h : FaultsOnly P desc.total) :
    FaultsOnly P (g.addConst name desc content) := by simp [addConst, h]

@[simp] theorem faultsOnly_addPlaceholder : FaultsOnly P g.addPlaceholder := by
  unfold addPlaceholder
  split <;> simp

theorem faultsOnly_duplicate (source : DataId) (suffix : String) {desc : Desc} (h : FaultsOnly P desc.total) :
    FaultsOnly P (g.duplicate source suffix desc) := by
  simp only [duplicate, failsOnly_bind, faultsOnly_data, true_and]
  intro d _
  split <;> simp [h]

theorem faultsOnly_scaledConst {source : DataId} {d : Data} (factor : F32) (hd : g.data? source = some d)
    (h : ∀ content, d.role = .const content → FaultsOnly P d.desc.total) :
    FaultsOnly P (g.scaledConst source factor) := by
  simp only [scaledConst, failsOnly_bind, faultsOnly_data, true_and]
  intro d' hd'
  rw [data_eq_ok, hd, Option.some.injEq] at hd'
  subst hd'
  split
  · simp
  next content hcontent =>
    split
    · simp
    · exact g.faultsOnly_addConst _ _ (h content (Data.content?_eq_some.1 hcontent))

@[simp] theorem faultsOnly_addLike (source : DataId) (suffix : String) :
    FaultsOnly P (g.addLike source suffix) := by
  simp [addLike]

@[simp] theorem faultsOnly_setDataOrder (id : DataId) (order : Order) :
    FaultsOnly P (g.setDataOrder id order) := by
  simp [setDataOrder]

@[simp] theorem faultsOnly_checkWritable (id : DataId) : FaultsOnly P (g.checkWritable id) := by
  simp only [checkWritable, failsOnly_bind, faultsOnly_data, failsOnly_ite, true_and]
  intro d _
  refine ⟨fun _ => by simp, fun _ => ?_⟩
  split <;> simp

@[simp] theorem faultsOnly_addStage (template : StageTemplate) (inputs outputs : List DataId) :
    FaultsOnly P (g.addStage template inputs outputs) := by simp [addStage]

@[simp] theorem faultsOnly_replaceStage (id : StageId) (kind : StageKind) :
    FaultsOnly P (g.replaceStage id kind) := by
  simp [replaceStage]

@[simp] theorem faultsOnly_setAttr (id : StageId) (key : AttrKey) (value : AttrValue) :
    FaultsOnly P (g.setAttr id key value) := by simp [setAttr]

@[simp] theorem faultsOnly_removeStage (id : StageId) : FaultsOnly P (g.removeStage id) := by simp [removeStage]

@[simp] theorem faultsOnly_replaceInput (edge : EdgeId) (data : DataId) :
    FaultsOnly P (g.replaceInput edge data) := by
  simp [replaceInput]

@[simp] theorem faultsOnly_replaceOutput (edge : EdgeId) (data : DataId) :
    FaultsOnly P (g.replaceOutput edge data) := by
  simp [replaceOutput]

end Graph

end NetLower
