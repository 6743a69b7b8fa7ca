/-
Faults of the front end.  A network is refused with a reason, except that counting the values
of a constant with too large a shape is a fault; and a sound network has its graph, or a reason
why not, unless the weights that a layer calls for are too many.
-/
import NetLower.Network.Decode
import NetLower.Proofs.Network.Reads
import NetLower.Proofs.Stage.Faults
import NetLower.Proofs.Tensor.Room

namespace NetLower

open NetLower.Graph Outcome

variable {P : Fault → Prop}

/-! ## Validation -/

theorem Outcome.bind_eq_error {x : Outcome α} {f : α → Outcome β} {e : Error} :
    (x >>= f) = .error e ↔ x = .error e ∨ ∃ a, x = .ok a ∧ f a = .error e := by
  cases x <;> simp [bind, Except.bind]

namespace Size

theorem lt_of_product {sizes : List Nat} {c : Nat} (h : product sizes = .ok c) : c < range := by
  refine Outcome.foldlM_keeps (fun _ c => c < range) (fun _ _ _ _ _ hmul => lt_of_mul hmul) ?_ h
  decide

/-- Positive sizes cannot be multiplied if and only if their product is out of range. -/
theorem product_eq_error {sizes : List Nat} (hpos : 0 ∉ sizes) {e : Error} :
    product sizes = .error e ↔ e = .fault .multiply ∧ range ≤ sizes.prod := by
  constructor
  · intro h
    have hfails : FailsOnly (· = .fault .multiply) (product sizes) :=
      FailsOnly.foldlM_of_forall fun _ _ _ => by simp [mul]
    obtain rfl := hfails e h
    have hlarge : FaultsOnly (fun _ => range ≤ sizes.prod) (product sizes) :=
      faultsOnly_product (by rw [volume_eq_prod hpos]; exact fun h => h)
    exact ⟨rfl, hlarge _ h⟩
  · rintro ⟨rfl, hlarge⟩
    cases h : product sizes with
    | error e =>
      have hfails : FailsOnly (· = .fault .multiply) (product sizes) :=
        FailsOnly.foldlM_of_forall fun _ _ _ => by simp [mul]
      rw [hfails e h]
    | ok c =>
      have hlt := lt_of_product h
      rw [product_eq_ok h] at hlt
      omega

end Size

/-- A constant whose shape calls for more values than can be counted. -/
structure TensorInfo.Overstated (t : TensorInfo) : Prop where
  weight : t.kind = .weight
  data : t.data ≠ none
  shape : t.shape ≠ [] ∧ 0 ∉ t.shape
  large : Size.range ≤ t.shape.prod

/-- A refusal of the front end. -/
def Error.Refusal (e : Error) : Prop := ∃ cause, e = .network cause

@[simp] theorem Error.refusal_network (cause : NetworkError) : Refusal (.network cause) := ⟨cause, rfl⟩

@[simp] theorem Error.not_refusal_fault (cause : Fault) : ¬ Refusal (.fault cause) := nofun

namespace TensorInfo

variable {t : TensorInfo}

theorem failsOnly_validate (t : TensorInfo) :
    FailsOnly (fun e => e.Refusal ∨ e = .fault .multiply ∧ t.Overstated) t.validate := by
  simp only [validate, failsOnly_bind, failsOnly_require, Error.refusal_network, true_or, implies_true, true_and]
  intro _ hshape
  have hshape := require_eq_ok.1 hshape
  split
  · simp
  next values hkind hdata =>
    simp only [failsOnly_bind, failsOnly_require, Error.refusal_network, true_or, implies_true, and_true]
    intro e he
    obtain ⟨rfl, hlarge⟩ := (Size.product_eq_error hshape.2).1 he
    exact .inr ⟨rfl, hkind, by simp [hdata], hshape, hlarge⟩
  · simp

theorem Overstated.validate (h : t.Overstated) : t.validate = .error (.fault .multiply) := by
  obtain ⟨values, hvalues⟩ := Option.ne_none_iff_exists'.1 h.data
  have hcount : t.elements = .error (.fault .multiply) := (Size.product_eq_error h.shape.2).2 ⟨rfl, h.large⟩
  rw [TensorInfo.validate, require_eq_ok.2 h.shape, h.weight, hvalues, hcount]
  rfl

end TensorInfo

namespace Network

variable {n : Network} {seen : List String}

/-- All is well with the tensors up to one that is overstated. -/
def Overstates (seen : List String) (tensors : List TensorInfo) : Prop :=
  ∃ before t after, tensors = before ++ t :: after ∧ validateTensors seen before = .ok () ∧ t.name ∉ seen ∧
    (∀ u ∈ before, u.name ≠ t.name) ∧ t.Overstated

theorem overstates_cons {u : TensorInfo} {rest : List TensorInfo} :
    Overstates seen (u :: rest) ↔
      u.name ∉ seen ∧ (u.Overstated ∨ u.validate = .ok () ∧ Overstates (u.name :: seen) rest) := by
  constructor
  · rintro ⟨before, t, after, htensors, hbefore, hseen, hnew, hlarge⟩
    cases before with
    | nil =>
      cases htensors
      exact ⟨hseen, .inl hlarge⟩
    | cons v before =>
      rw [List.cons_append, List.cons.injEq] at htensors
      obtain ⟨rfl, rfl⟩ := htensors
      simp only [validateTensors, check_bind_eq_ok, require_eq_ok] at hbefore
      obtain ⟨hfresh, hvalid, hbefore⟩ := hbefore
      have hother : t.name ∉ u.name :: seen := by
        simpa [hseen] using (hnew u (by simp)).symm
      exact ⟨hfresh, .inr ⟨hvalid, before, t, after, rfl, hbefore, hother, fun w hw =>
        hnew w (by simp [hw]), hlarge⟩⟩
  · rintro ⟨hfresh, hlarge | ⟨hvalid, before, t, after, rfl, hbefore, hseen, hnew, hlarge⟩⟩
    · exact ⟨[], u, rest, rfl, rfl, hfresh, by simp, hlarge⟩
    · simp only [List.mem_cons, not_or] at hseen
      refine ⟨u :: before, t, after, rfl, ?_, hseen.2, ?_, hlarge⟩
      · simp only [validateTensors, check_bind_eq_ok, require_eq_ok]
        exact ⟨hfresh, hvalid, hbefore⟩
      · exact List.forall_mem_cons.2 ⟨fun h => hseen.1 h.symm, hnew⟩

theorem failsOnly_validateTensors : ∀ {tensors : List TensorInfo} {seen : List String},
    FailsOnly (fun e => e.Refusal ∨ e = .fault .multiply ∧ Overstates seen tensors) (validateTensors seen tensors)
  | [], _ => failsOnly_ok _
  | u :: rest, seen => by
    simp only [validateTensors, failsOnly_bind, failsOnly_require, Error.refusal_network, true_or, implies_true,
      true_and, overstates_cons]
    intro _ hfresh
    have hfresh := require_eq_ok.1 hfresh
    refine ⟨u.failsOnly_validate.mono fun e he => ?_, fun _ hvalid => failsOnly_validateTensors.mono
      fun e he => ?_⟩
    · exact he.imp_right fun h => ⟨h.1, hfresh, .inl h.2⟩
    · exact he.imp_right fun h => ⟨h.1, hfresh, .inr ⟨hvalid, h.2⟩⟩

theorem Overstates.validateTensors : ∀ {tensors : List TensorInfo} {seen : List String}, Overstates seen tensors →
    validateTensors seen tensors = .error (.fault .multiply)
  | [], _, h => by
    obtain ⟨_, _, _, h, _⟩ := h
    simp at h
  | u :: rest, seen, h => by
    obtain ⟨hfresh, hlarge | ⟨hvalid, hrest⟩⟩ := overstates_cons.1 h
    · rw [Network.validateTensors, require_eq_ok.2 hfresh, hlarge.validate]
      rfl
    · rw [Network.validateTensors, require_eq_ok.2 hfresh, hvalid]
      exact hrest.validateTensors

/-- A version that can be read, and tensors that are sound up to one with more values than can be
counted. -/
def Overstated (n : Network) : Prop :=
  (minVersion ≤ n.version ∧ n.version ≤ maxVersion) ∧ Overstates [] n.tensors

theorem validateVersion_eq_ok : n.validateVersion = .ok () ↔ minVersion ≤ n.version ∧ n.version ≤ maxVersion := by
  unfold validateVersion
  split
  · simp; omega
  · split <;> simp <;> omega

section refusal

variable {E : Error → Prop} (hE : ∀ cause, E (.network cause))

include hE

theorem failsOnly_tensor (name : String) : FailsOnly E (n.tensor name) := by
  unfold tensor
  split <;> simp [hE]

theorem failsOnly_validateNames (names : List String) : FailsOnly E (n.validateNames names) :=
  FailsOnly.forEach fun name _ => (failsOnly_tensor hE name).check

theorem failsOnly_validateLayers : ∀ (layers : List Layer) (seen : List String),
    FailsOnly E (n.validateLayers seen layers)
  | [], _ => failsOnly_ok _
  | l :: rest, seen => by
    have hconsts : FailsOnly E (n.validateConstants l) := by
      refine FailsOnly.forEach fun name _ => (failsOnly_tensor hE name).bind fun t _ => ?_
      simp [hE]
    simp [validateLayers, hE, hconsts, failsOnly_validateNames hE, failsOnly_validateLayers rest]

end refusal

theorem failsOnly_validate (n : Network) :
    FailsOnly (fun e => e.Refusal ∨ e = .fault .multiply ∧ n.Overstated) n.validate := by
  let E (e : Error) : Prop := e.Refusal ∨ e = .fault .multiply ∧ n.Overstated
  have hE (cause : NetworkError) : E (.network cause) := .inl (Error.refusal_network cause)
  have hnames (names : List String) : FailsOnly E (n.validateNames names) := failsOnly_validateNames hE names
  have hlayers : FailsOnly E (n.validateLayers [] n.layers) := failsOnly_validateLayers hE _ _
  simp only [E] at hnames hlayers
  simp only [validate, failsOnly_bind, hnames, hlayers, implies_true, and_true]
  refine ⟨?_, fun _ hversion => failsOnly_validateTensors.mono fun e he => ?_⟩
  · simp [validateVersion]
  · exact he.imp_right fun h => ⟨h.1, validateVersion_eq_ok.1 hversion, h.2⟩

theorem validate_eq_fault {cause : Fault} :
    n.validate = .error (.fault cause) ↔ cause = .multiply ∧ n.Overstated := by
  constructor
  · intro h
    rcases n.failsOnly_validate _ h with hrefusal | ⟨hcause, hlarge⟩
    · exact absurd hrefusal (Error.not_refusal_fault cause)
    · exact ⟨Error.fault.inj hcause, hlarge⟩
  · rintro ⟨rfl, hversion, htensors⟩
    rw [validate, validateVersion_eq_ok.2 hversion, htensors.validateTensors]
    rfl

/-! ## Texts -/

/-- A text is refused with a reason, unless it describes an overstated network. -/
theorem failsOnly_parse (text : String) : FailsOnly (fun e => e.Refusal ∨ e = .fault .multiply) (parse text) := by
  unfold parse
  split
  · simp
  · unfold ofJson
    split
    · simp
    next n _ =>
      simp only [failsOnly_bind, failsOnly_pure, implies_true, and_true]
      exact n.failsOnly_validate.mono fun e he => he.imp_right And.left

theorem parse_eq_fault {text : String} {cause : Fault} :
    parse text = .error (.fault cause) ↔
      cause = .multiply ∧ ∃ j n, Json.parse? text = some j ∧ ofJson? j = some n ∧ n.Overstated := by
  unfold parse
  split
  next hnone => simp [hnone]
  next j hj =>
    unfold ofJson
    split
    next hnone => simp [hj, hnone]
    next n hn =>
      rw [bind_eq_error, validate_eq_fault]
      simp [hj, hn, pure, Except.pure]

end Network

/-! ## Tensors -/

namespace Network

variable {n : Network} {config : Config} {g : Graph}

theorem validateTensors_valid : ∀ {tensors : List TensorInfo} {seen : List String},
    validateTensors seen tensors = .ok () → ∀ t ∈ tensors, t.validate = .ok ()
  | [], _, _ => nofun
  | u :: rest, seen, h => by
    simp only [validateTensors, check_bind_eq_ok] at h
    obtain ⟨_, hvalid, hrest⟩ := h
    exact List.forall_mem_cons.2 ⟨hvalid, validateTensors_valid hrest⟩

end Network

/-- The values of a sound constant were counted before. -/
theorem TensorInfo.faultsOnly_addTo {t : TensorInfo} (g : Graph) (h : t.validate = .ok ()) :
    FaultsOnly P (t.addTo g) := by
  simp only [addTo, failsOnly_bind, Desc.faultsOnly_new, true_and]
  intro desc hdesc
  cases hkind : t.kind with
  | weight =>
    simp only [validate, hkind, check_bind_eq_ok] at h
    have hcount : ∃ needed, t.elements = .ok needed := by
      cases hdata : t.data with
      | none => simp [hdata] at h
      | some values =>
        simp only [hdata, bind_eq_ok] at h
        exact h.2.imp fun _ h => h.1
    have htotal : desc.total = t.elements := by
      rw [Desc.total, (Desc.new_eq_ok hdesc).2.1]
      rfl
    obtain ⟨needed, hneeded⟩ := hcount
    have hconst := g.faultsOnly_addConst (P := P) t.name (t.data.getD []).toArray
      (.of_eq_ok (htotal.trans hneeded))
    simp [hconst]
  | input => simp
  | output => simp
  | intermediate => simp

/-! ## Layers -/

theorem Window.volume_kernelSizes (w : Window) (deep : Bool) :
    Size.volume (w.kernelSizes deep) = (w.kernelSizes deep).prod := by
  refine Size.volume_eq_prod ?_
  cases deep <;> simp [kernelSizes] <;> omega

theorem ConvKind.volume_weightChannels_le (kind : ConvKind) (input output groups : Nat) :
    Size.volume (kind.weightChannels input output groups) ≤ max 1 input * max 1 output := by
  have hdiv (k : Nat) : max 1 (k / groups) ≤ max 1 k := by
    have := Nat.div_le_self k groups
    omega
  cases kind <;> simp only [weightChannels, Size.volume_cons, Size.volume_nil, Nat.mul_one]
  · rw [Nat.mul_comm]
    exact Nat.mul_le_mul_right _ (hdiv input)
  · exact Nat.mul_le_mul_left _ (hdiv output)

namespace Layer

variable {l : Layer} {config : Config} {g g' : Graph} {input output : DataId} {inNode outNode : Data}

/-- The number of elements of the kernel that a layer moves over a tensor, if it has one. -/
def kernelVolume (l : Layer) (rank : Nat) : Nat :=
  match l.window (spatialAxes rank) true with
  | .ok window => (window.kernelSizes (rank == 5)).prod
  | .error _ => 1

theorem kernelVolume_pos (l : Layer) (rank : Nat) : 0 < l.kernelVolume rank := by
  unfold kernelVolume
  split
  · rw [← Window.volume_kernelSizes]
    exact Size.volume_pos _
  · exact Nat.one_pos

@[simp] theorem faultsOnly_fail (cause : LayerError) : FaultsOnly P (l.fail cause : Outcome α) := by simp [fail]

section attributes

variable {read : LayerAttr → Outcome α} (hread : ∀ value, FaultsOnly P (read value)) (name : String)

include hread

theorem faultsOnly_attr : FaultsOnly P (l.attr read name) := by
  unfold attr
  split <;> simp [hread]

theorem faultsOnly_attrOr (default : α) : FaultsOnly P (l.attrOr read name default) := by
  unfold attrOr
  split <;> simp [hread]

end attributes

theorem faultsOnly_toInt (value : LayerAttr) : FaultsOnly P value.toInt := by
  cases value <;> simp [LayerAttr.toInt, LayerAttr.refuse]

theorem faultsOnly_toInts (value : LayerAttr) : FaultsOnly P value.toInts := by
  cases value <;> simp [LayerAttr.toInts, LayerAttr.refuse]

theorem faultsOnly_toFloat (value : LayerAttr) : FaultsOnly P value.toFloat := by
  cases value <;> simp [LayerAttr.toFloat, LayerAttr.refuse]

theorem faultsOnly_toText (value : LayerAttr) : FaultsOnly P value.toText := by
  cases value <;> simp [LayerAttr.toText, LayerAttr.refuse]

@[simp] theorem faultsOnly_spatial (name : String) (axes : Nat) (default : Int32) :
    FaultsOnly P (l.spatial name axes default) := by
  have hword (value : Int) : FaultsOnly P (l.word name value) := by simp [word]
  simp [spatial, faultsOnly_attr faultsOnly_toInts, hword]

@[simp] theorem faultsOnly_layerWindow (axes : Nat) (dilated : Bool) : FaultsOnly P (l.window axes dilated) := by
  simp [window]

@[simp] theorem faultsOnly_groups : FaultsOnly P l.groups := by simp [groups, faultsOnly_attrOr faultsOnly_toInt]

@[simp] theorem faultsOnly_channels (desc : Desc) : FaultsOnly P (l.channels desc) := by
  unfold channels
  split <;> simp

theorem channels_eq_ok {desc : Desc} {count : Nat} (h : l.channels desc = .ok count) :
    desc.dim? .c = some count := by
  unfold channels at h
  split at h
  next found hfound => exact hfound.trans (congrArg some (Except.ok.inj h))
  · cases h

@[simp] theorem faultsOnly_constNamed (name : String) : FaultsOnly P (l.constNamed g name) := by
  unfold constNamed
  split <;> simp

theorem faultsOnly_addWeights (suffix : String) {desc : Desc} (h : FaultsOnly P desc.total) :
    FaultsOnly P (l.addWeights g suffix desc) := by
  unfold addWeights
  split
  · simp
  · simp [faultsOnly_duplicate, h]

theorem faultsOnly_addBiases (suffix : String) {channels : Nat} (h : Size.range ≤ max 1 channels → P .multiply) :
    FaultsOnly P (l.addBiases g suffix channels) := by
  unfold addBiases
  split
  · simp
  · simp only [failsOnly_bind, faultsOnly_constNamed, Desc.faultsOnly_new, true_and]
    intro source _ desc hdesc
    refine g.faultsOnly_duplicate source suffix (Desc.faultsOnly_total fun hlarge => h ?_)
    simpa [Desc.volume, (Desc.new_eq_ok hdesc).2.1] using hlarge

/-- An upper bound for the weights that a layer calls for: one for each element that it reads, each
that it writes and each of its kernel. -/
def demand (l : Layer) (inDesc outDesc : Desc) : Nat := inDesc.volume * outDesc.volume * l.kernelVolume inDesc.rank

theorem input_le_demand (l : Layer) (inDesc outDesc : Desc) : inDesc.volume ≤ l.demand inDesc outDesc :=
  calc inDesc.volume ≤ inDesc.volume * outDesc.volume := Nat.le_mul_of_pos_right _ (Size.volume_pos _)
    _ ≤ l.demand inDesc outDesc := Nat.le_mul_of_pos_right _ (l.kernelVolume_pos _)

theorem output_le_demand (l : Layer) (inDesc outDesc : Desc) : outDesc.volume ≤ l.demand inDesc outDesc :=
  calc outDesc.volume ≤ inDesc.volume * outDesc.volume := Nat.le_mul_of_pos_left _ (Size.volume_pos _)
    _ ≤ l.demand inDesc outDesc := Nat.le_mul_of_pos_right _ (l.kernelVolume_pos _)

/-- There are no more biases than elements that are written. -/
theorem channels_le_demand {inDesc outDesc : Desc} {count : Nat} (h : l.channels outDesc = .ok count) :
    max 1 count ≤ l.demand inDesc outDesc := by
  have hle := Desc.dim?_le_volume (channels_eq_ok h)
  have hpos : 0 < outDesc.volume := Size.volume_pos _
  have houtput := l.output_le_demand inDesc outDesc
  omega

section stages

variable (hin : g.data? input = some inNode) (hout : g.data? output = some outNode)
    (h : Size.range ≤ l.demand inNode.desc outNode.desc → P .multiply)

include hin hout h

theorem faultsOnly_addConvolve (kind : ConvKind) : FaultsOnly P (addConvolve kind l config g input output) := by
  refine .after (data_eq_ok.2 hin) (.after (data_eq_ok.2 hout) ?_)
  simp only [failsOnly_ite, faultsOnly_fail, implies_true, true_and, failsOnly_bind, faultsOnly_layerWindow,
    faultsOnly_groups, faultsOnly_channels, Desc.faultsOnly_new, Attrs.faultsOnly_setAll, faultsOnly_addStage,
    and_true]
  intro _ _ window hwindow groups _ inChannels hinChannels outChannels houtChannels _ desc hdesc
  have hweights : desc.volume ≤ l.demand inNode.desc outNode.desc := by
    have hinLe := Desc.dim?_le_volume (channels_eq_ok hinChannels)
    have houtLe := Desc.dim?_le_volume (channels_eq_ok houtChannels)
    have hinPos : 0 < inNode.desc.volume := Size.volume_pos _
    have houtPos : 0 < outNode.desc.volume := Size.volume_pos _
    have hkernel : Size.volume (window.kernelSizes (inNode.desc.rank == 5)) = l.kernelVolume inNode.desc.rank := by
      rw [Window.volume_kernelSizes, kernelVolume, hwindow]
    rw [Desc.volume, (Desc.new_eq_ok hdesc).2.1, Size.volume_append, hkernel]
    refine Nat.mul_le_mul_right _ (Nat.le_trans (kind.volume_weightChannels_le ..) ?_)
    exact Nat.mul_le_mul (by omega) (by omega)
  refine ⟨faultsOnly_addWeights _ (Desc.faultsOnly_total fun hlarge => h (Nat.le_trans hlarge hweights)),
    fun _ _ => ?_⟩
  exact faultsOnly_addBiases _ fun hlarge => h (Nat.le_trans hlarge (channels_le_demand houtChannels))

theorem faultsOnly_addDense : FaultsOnly P (l.addDense config g input output) := by
  refine .after (data_eq_ok.2 hin) (.after (data_eq_ok.2 hout) ?_)
  simp only [failsOnly_ite, faultsOnly_fail, implies_true, true_and, failsOnly_bind, faultsOnly_channels,
    Desc.faultsOnly_new, Attrs.faultsOnly_set, faultsOnly_addStage, and_true]
  intro _ _ _
  refine ⟨Desc.faultsOnly_total fun hlarge => h (Nat.le_trans hlarge (l.input_le_demand _ _)),
    fun total htotal => ?_⟩
  intro outChannels houtChannels desc hdesc
  have hweights : desc.volume ≤ l.demand inNode.desc outNode.desc := by
    have hsize : total ≤ inNode.desc.volume := Size.product_eq_ok htotal ▸ Size.prod_le_volume _
    have hbatch := Nat.div_le_self total ((inNode.desc.dim? .n).getD 1)
    have houtLe := Desc.dim?_le_volume (channels_eq_ok houtChannels)
    have hinPos : 0 < inNode.desc.volume := Size.volume_pos _
    have houtPos : 0 < outNode.desc.volume := Size.volume_pos _
    rw [Desc.volume, (Desc.new_eq_ok hdesc).2.1]
    simp only [Size.volume_cons, Size.volume_nil, Nat.mul_one]
    rw [Nat.mul_comm]
    calc _ ≤ inNode.desc.volume * outNode.desc.volume := Nat.mul_le_mul (by omega) (by omega)
      _ ≤ l.demand inNode.desc outNode.desc := Nat.le_mul_of_pos_right _ (l.kernelVolume_pos _)
  refine ⟨faultsOnly_addWeights _ (Desc.faultsOnly_total fun hlarge => h (Nat.le_trans hlarge hweights)),
    fun _ _ => ?_⟩
  exact faultsOnly_addBiases _ fun hlarge => h (Nat.le_trans hlarge (channels_le_demand houtChannels))

end stages

theorem faultsOnly_addPool : FaultsOnly P (l.addPool config g input output) := by
  have hstub : FaultsOnly P l.poolStub := by
    simp only [poolStub, failsOnly_bind, faultsOnly_attrOr faultsOnly_toText, true_and]
    intro method _
    split <;> simp
  have hpad : FaultsOnly P l.excludesPad := by simp [excludesPad, faultsOnly_attrOr faultsOnly_toText]
  simp [addPool, hstub, hpad]

theorem faultsOnly_addPower : FaultsOnly P (l.addPower g input output) := by
  simp [addPower, faultsOnly_attrOr faultsOnly_toFloat]

/-- The stage of a layer is made, or refused, unless the layer calls for too many weights. -/
theorem faultsOnly_addTo {inputs outputs : List DataId}
    (h : ∀ input output, inputs = [input] → outputs = [output] → ∃ inNode outNode, g.data? input = some inNode ∧
      g.data? output = some outNode ∧ (Size.range ≤ l.demand inNode.desc outNode.desc → P .multiply)) :
    FaultsOnly P (l.addTo config g inputs outputs) := by
  have hscale : FaultsOnly P l.scaleFactor? := by simp [scaleFactor?, faultsOnly_attr faultsOnly_toFloat]
  have hslots : FaultsOnly P (l.slots inputs outputs) := by
    unfold slots
    split <;> simp
  have hstage : FaultsOnly P (l.addStage config g inputs outputs) := by
    unfold addStage
    split
    · simp
    next operation _ =>
      refine hslots.bind ?_
      rintro ⟨input, output⟩ hends
      obtain ⟨rfl, rfl⟩ := slots_eq_ok hends
      obtain ⟨inNode, outNode, hin, hout, hlarge⟩ := h input output rfl rfl
      cases operation with
      | convolve kind => exact faultsOnly_addConvolve hin hout hlarge kind
      | dense => exact faultsOnly_addDense hin hout hlarge
      | pool => exact faultsOnly_addPool
      | power => exact faultsOnly_addPower
  simp only [addTo, failsOnly_bind, hstage, hscale, true_and]
  intro added _ scale _
  cases scale <;> simp

end Layer

/-! ## The graph of a network -/

namespace Network

variable {n : Network} {config : Config} {g g' : Graph}

/-- Tensors have the same numbers and sizes in network and graph. -/
def Shapes (n : Network) (g : Graph) : Prop :=
  ∀ (k : Nat) (t : TensorInfo), n.tensors[k]? = some t → ∃ node, g.data? ⟨k⟩ = some node ∧ node.desc.dims = t.shape

theorem shapes_of_stand (h : List.Forall₂ TensorInfo.Stands n.tensors g.datas.toList) : n.Shapes g := by
  intro k t ht
  obtain ⟨node, hnode, desc, hdesc, rfl⟩ := forall₂_getElem? h ht
  exact ⟨_, Array.getElem?_toList.symm.trans hnode, (Desc.new_eq_ok hdesc).2.1⟩

theorem Shapes.addTo {l : Layer} {inputs outputs : List DataId} (s : n.Shapes g)
    (h : l.addTo config g inputs outputs = .ok g') : n.Shapes g' := by
  obtain ⟨_, _, _, _, _, _, _, _, _, _, hconsts, hadd, _⟩ := Layer.addTo_eq_ok h
  intro k t ht
  obtain ⟨node, hnode, hdims⟩ := s k t ht
  obtain ⟨node', hnode', hlook⟩ := hadd.sameLooks.data_of (hconsts.grown.data? hnode)
  exact ⟨node', hnode', by rw [show node'.desc = node.desc from congrArg Look.desc hlook, hdims]⟩

/-- A tensor that the layer reads, one that it writes, and its kernel have too many elements among
them. -/
def Outgrows (n : Network) (l : Layer) : Prop :=
  ∃ a ∈ n.tensors, ∃ b ∈ n.tensors, a.name ∈ l.inputs ∧ b.name ∈ l.outputs ∧
    Size.range ≤ a.shape.prod * b.shape.prod * l.kernelVolume a.shape.length

theorem Shapes.dataId (s : n.Shapes g) {name : String} {d : DataId} (hd : n.dataId name = .ok d) :
    ∃ t ∈ n.tensors, t.name = name ∧ ∃ node, g.data? d = some node ∧ node.desc.dims = t.shape := by
  obtain ⟨t, _, ht, hname⟩ := tensor_of_dataId hd
  exact ⟨t, List.mem_of_getElem? ht, hname, s d.index t ht⟩

theorem prod_of_valid {t : TensorInfo} (h : t.validate = .ok ()) {desc : Desc} (hdims : desc.dims = t.shape) :
    desc.volume = t.shape.prod := by
  simp only [TensorInfo.validate, check_bind_eq_ok, require_eq_ok] at h
  rw [Desc.volume, hdims, Size.volume_eq_prod h.1.2]

theorem Shapes.faultsOnly_addTo {l : Layer} {inputs outputs : List DataId} (s : n.Shapes g)
    (hvalid : ∀ t ∈ n.tensors, t.validate = .ok ()) (hinputs : l.inputs.mapM n.dataId = .ok inputs)
    (houtputs : l.outputs.mapM n.dataId = .ok outputs) (h : n.Outgrows l → P .multiply) :
    FaultsOnly P (l.addTo config g inputs outputs) := by
  rw [mapM_eq_ok] at hinputs houtputs
  refine Layer.faultsOnly_addTo ?_
  rintro input output rfl rfl
  obtain ⟨name, _, hname, _, hinputs⟩ := List.forall₂_cons_right_iff.1 hinputs
  obtain ⟨name', _, hname', _, houtputs⟩ := List.forall₂_cons_right_iff.1 houtputs
  obtain ⟨a, ha, hnameA, inNode, hin, hdims⟩ := s.dataId hname
  obtain ⟨b, hb, hnameB, outNode, hout, hdims'⟩ := s.dataId hname'
  refine ⟨inNode, outNode, hin, hout, fun hlarge => ?_⟩
  refine h ⟨a, ha, b, hb, by simp [hinputs, hnameA], by simp [houtputs, hnameB], ?_⟩
  rw [Layer.demand, prod_of_valid (hvalid a ha) hdims, prod_of_valid (hvalid b hb) hdims', Desc.rank,
    hdims] at hlarge
  exact hlarge

/-- The network is too large for its graph to be made. -/
def Outgrown (n : Network) : Prop := n.Overstated ∨ ∃ l ∈ n.layers, n.Outgrows l

theorem faultsOnly_graph (n : Network) (config : Config) :
    FaultsOnly (fun cause => cause = .multiply ∧ n.Outgrown) (n.graph config) := by
  simp only [graph, failsOnly_bind]
  refine ⟨fun e he => ?_, fun _ hvalid => ?_⟩
  · cases e with
    | fault cause => exact (validate_eq_fault.1 he).imp_right .inl
    | _ => trivial
  have hvalid : ∀ t ∈ n.tensors, t.validate = .ok () := by
    simp only [validate, check_bind_eq_ok] at hvalid
    exact validateTensors_valid hvalid.2.1
  refine ⟨FailsOnly.foldlM_of_forall fun g t ht => TensorInfo.faultsOnly_addTo g (hvalid t ht),
    fun g₁ htensors => ?_⟩
  refine FailsOnly.foldlM (fun rest g => (∀ l ∈ rest, l ∈ n.layers) ∧ n.Shapes g) ?_ ?_
    ⟨fun _ hl => hl, shapes_of_stand (tensors_stand htensors).1⟩
  · rintro l rest g g' ⟨hmem, s⟩ h
    simp only [bind_eq_ok] at h
    obtain ⟨inputs, _, outputs, _, h⟩ := h
    exact ⟨fun l' hl' => hmem l' (by simp [hl']), s.addTo h⟩
  · rintro l rest g ⟨hmem, s⟩
    have hid (name : String) : FaultsOnly (fun cause => cause = .multiply ∧ n.Outgrown) (n.dataId name) := by
      unfold dataId
      split <;> simp
    refine (FailsOnly.mapM fun name _ => hid name).bind fun inputs hinputs => ?_
    refine (FailsOnly.mapM fun name _ => hid name).bind fun outputs houtputs => ?_
    exact s.faultsOnly_addTo hvalid hinputs houtputs fun hlarge => ⟨rfl, .inr ⟨l, hmem l (by simp), hlarge⟩⟩

/-- No tensor has a place yet. -/
theorem graph_unplaced (h : n.graph config = .ok g) : g.Unplaced := by
  have grown {x x' : Graph} (hx : x.Unplaced) (h : Grown x x') : x'.Unplaced := by
    induction h with
    | refl => exact hx
    | push _ _ _ _ hplace ih => exact ih.pushData hplace
  simp only [graph, bind_eq_ok] at h
  obtain ⟨_, _, g₁, htensors, hlayers⟩ := h
  have start : g₁.Unplaced := Outcome.foldlM_keeps (fun _ x => x.Unplaced)
    (fun _ _ _ _ hx h => grown hx (TensorInfo.addTo_grown h)) (fun d node hd => by simp [data?] at hd) htensors
  refine Outcome.foldlM_keeps (fun _ x => x.Unplaced) (fun l _ x x' hx h => ?_) start hlayers
  simp only [bind_eq_ok] at h
  obtain ⟨_, _, _, _, h⟩ := h
  obtain ⟨_, _, _, _, _, _, _, _, _, _, hconsts, hadd, _⟩ := Layer.addTo_eq_ok h
  exact (grown hx hconsts.grown).of_map hadd.data? fun _ _ => rfl

end Network

end NetLower
