/-
What a layer adds to a graph: copies of its constants, or the placeholder, and one stage
behind its tensors.  The graph of a network is well-formed, since every layer writes one
tensor and nothing else is linked.
-/
import NetLower.Network.Graph
import NetLower.Proofs.Graph.Fits
import NetLower.Proofs.Stage.Fit

namespace NetLower

open NetLower.Graph

variable {l : Layer} {config : Config} {g g' : Graph} {input output : DataId} {z : StageId}

namespace Layer

/-! ## Constants -/

theorem constNamed_eq_ok {name : String} {d : DataId} :
    l.constNamed g name = .ok d ↔ g.dataNamed? name = some d := by
  unfold constNamed
  split <;> simp_all [fail]

theorem addWeights_eq_ok {suffix : String} {desc : Desc} {d : DataId}
    (h : l.addWeights g suffix desc = .ok (d, g')) :
    ∃ name source, l.weights = some name ∧ g.dataNamed? name = some source ∧
      g.duplicate source suffix desc = .ok (d, g') := by
  simp only [addWeights] at h
  split at h
  · cases h
  next name hname =>
    simp only [Outcome.bind_eq_ok, constNamed_eq_ok] at h
    obtain ⟨source, hsource, h⟩ := h
    exact ⟨name, source, hname, hsource, h⟩

theorem addBiases_eq_ok {suffix : String} {channels : Nat} {d : DataId}
    (h : l.addBiases g suffix channels = .ok (d, g')) :
    (l.biases = none ∧ g.addPlaceholder = .ok (d, g')) ∨
      ∃ name source desc, l.biases = some name ∧ g.dataNamed? name = some source ∧
        Desc.new .f16 [channels] = .ok desc ∧ g.duplicate source suffix desc = .ok (d, g') := by
  simp only [addBiases] at h
  split at h
  next hnone => exact .inl ⟨hnone, h⟩
  next name hname =>
    simp only [Outcome.bind_eq_ok, constNamed_eq_ok] at h
    obtain ⟨source, hsource, desc, hdesc, h⟩ := h
    exact .inr ⟨name, source, desc, hname, hsource, hdesc, h⟩

end Layer

/-- The placeholder that is there, or a new one. -/
theorem Graph.addPlaceholder_eq_ok {d : DataId} (h : g.addPlaceholder = .ok (d, g')) :
    (g.placeholder? = some d ∧ g' = g) ∨
      ∃ desc, g.placeholder? = none ∧ Desc.new .f16 [1] = .ok desc ∧
        d = (g.pushData { name := placeholderName, desc, role := .fake }).1 ∧
        g' = (g.pushData { name := placeholderName, desc, role := .fake }).2 := by
  simp only [addPlaceholder] at h
  split at h
  next id hid =>
    cases h
    exact .inl ⟨hid, rfl⟩
  next hnone =>
    simp only [Outcome.bind_eq_ok, Outcome.pure_eq_ok] at h
    obtain ⟨desc, hdesc, h⟩ := h
    rw [Prod.ext_iff] at h
    exact .inr ⟨desc, hnone, hdesc, h.1.symm, h.2.symm⟩

namespace Layer

/-! ## Stages -/

theorem addConvolve_eq_ok {kind : ConvKind} (h : addConvolve kind l config g input output = .ok (z, g')) :
    ∃ (inNode outNode : Data) (window : Window) (groups : Int32) (inChannels outChannels : Nat) (desc : Desc)
      (weights biases : DataId) (g₁ g₂ : Graph) (attrs : Attrs),
      g.data? input = some inNode ∧ g.data? output = some outNode ∧
      3 ≤ inNode.desc.rank ∧ inNode.desc.rank ≤ 5 ∧ outNode.desc.rank = inNode.desc.rank ∧
      l.window (spatialAxes inNode.desc.rank) true = .ok window ∧ l.groups = .ok groups ∧
      Desc.new .f16 (kind.weightChannels inChannels outChannels groups.toInt.toNat ++
        window.kernelSizes (inNode.desc.rank == 5)) = .ok desc ∧
      l.addWeights g kind.suffix desc = .ok (weights, g₁) ∧
      l.addBiases g₁ kind.suffix outChannels = .ok (biases, g₂) ∧
      Attrs.empty.setAll (Attrs.ofWindow window (inNode.desc.rank == 5) ++
        [(.groupSize, .int groups), (.tryHw, .bool (config.allowsWindow l.name window inNode.desc.rank))]) =
          .ok attrs ∧
      Added g₂ { name := l.name, kind := kind.stub, attrs } [input, weights, biases] [output] z g' := by
  simp only [addConvolve, Outcome.bind_eq_ok, data_eq_ok] at h
  obtain ⟨inNode, hin, outNode, hout, h⟩ := h
  split at h
  · cases h
  next hrank =>
  split at h
  · cases h
  next hranks =>
  simp only [Outcome.bind_eq_ok] at h
  obtain ⟨window, hwindow, groups, hgroups, inChannels, _, outChannels, _, h⟩ := h
  split at h
  · cases h
  simp only [Outcome.bind_eq_ok] at h
  obtain ⟨desc, hdesc, ⟨weights, g₁⟩, hweights, ⟨biases, g₂⟩, hbiases, attrs, hattrs, h⟩ := h
  rw [not_or, Nat.not_lt, Nat.not_lt] at hrank
  exact ⟨inNode, outNode, window, groups, inChannels, outChannels, desc, weights, biases, g₁, g₂, attrs, hin, hout,
    hrank.1, hrank.2, by simpa using hranks, hwindow, hgroups, hdesc, hweights, hbiases, hattrs, addStage_added h⟩

theorem addDense_eq_ok (h : l.addDense config g input output = .ok (z, g')) :
    ∃ (inNode outNode : Data) (inSize outChannels : Nat) (desc : Desc) (weights biases : DataId) (g₁ g₂ : Graph)
      (attrs : Attrs),
      g.data? input = some inNode ∧ g.data? output = some outNode ∧ outNode.desc.rank = 2 ∧
      Desc.new .f16 [outChannels, inSize] = .ok desc ∧
      l.addWeights g denseSuffix desc = .ok (weights, g₁) ∧
      l.addBiases g₁ denseSuffix outChannels = .ok (biases, g₂) ∧
      Attrs.empty.set .tryHw (.bool (config.allowsHardware l.name)) = .ok attrs ∧
      Added g₂ { name := l.name, kind := .stubFullyConnected, attrs } [input, weights, biases] [output] z g' := by
  simp only [addDense, Outcome.bind_eq_ok, data_eq_ok] at h
  obtain ⟨inNode, hin, outNode, hout, h⟩ := h
  split at h
  · cases h
  split at h
  · cases h
  next hrank =>
  split at h
  · cases h
  simp only [Outcome.bind_eq_ok] at h
  obtain ⟨total, _, outChannels, _, desc, hdesc, ⟨weights, g₁⟩, hweights, ⟨biases, g₂⟩, hbiases, attrs,
    hattrs, h⟩ := h
  exact ⟨inNode, outNode, _, outChannels, desc, weights, biases, g₁, g₂, attrs, hin, hout, by simpa using hrank,
    hdesc, hweights, hbiases, hattrs, addStage_added h⟩

theorem addPool_eq_ok (h : l.addPool config g input output = .ok (z, g')) :
    ∃ (inNode outNode : Data) (kind : StageKind) (excludePad : Bool) (window : Window) (attrs : Attrs),
      g.data? input = some inNode ∧ g.data? output = some outNode ∧ 3 ≤ inNode.desc.rank ∧
      inNode.desc.rank ≤ 5 ∧ outNode.desc.rank = inNode.desc.rank ∧
      (kind = .stubMaxPool ∨ kind = .stubAvgPool) ∧
      l.window (spatialAxes inNode.desc.rank) false = .ok window ∧
      Attrs.empty.setAll (Attrs.ofWindow window (inNode.desc.rank == 5) ++
        (if kind = .stubAvgPool then [(.excludePad, .bool excludePad)] else []) ++
        [(.tryHw, .bool (config.allowsWindow l.name window inNode.desc.rank))]) = .ok attrs ∧
      Added g { name := l.name, kind, attrs } [input] [output] z g' := by
  simp only [addPool, Outcome.bind_eq_ok, data_eq_ok] at h
  obtain ⟨inNode, hin, outNode, hout, h⟩ := h
  split at h
  · cases h
  next hrank =>
  simp only [Outcome.bind_eq_ok] at h
  obtain ⟨_, _, _, _, h⟩ := h
  split at h
  · cases h
  simp only [Outcome.bind_eq_ok] at h
  obtain ⟨kind, hkind, excludePad, _, window, hwindow, attrs, hattrs, h⟩ := h
  simp only [not_or, Nat.not_lt, ne_eq, not_not] at hrank
  have hstub : kind = .stubMaxPool ∨ kind = .stubAvgPool := by
    simp only [poolStub, Outcome.bind_eq_ok] at hkind
    obtain ⟨method, _, hkind⟩ := hkind
    split at hkind
    · exact .inl (Outcome.pure_eq_ok.1 hkind).symm
    · exact .inr (Outcome.pure_eq_ok.1 hkind).symm
    · cases hkind
  exact ⟨inNode, outNode, kind, excludePad, window, attrs, hin, hout, hrank.1, hrank.2.1, hrank.2.2, hstub,
    hwindow, hattrs, addStage_added h⟩

theorem addPower_eq_ok (h : l.addPower g input output = .ok (z, g')) :
    ∃ (inNode outNode : Data) (scale power shift : F32) (attrs : Attrs),
      g.data? input = some inNode ∧ g.data? output = some outNode ∧ inNode.desc.dims = outNode.desc.dims ∧
      Attrs.empty.setAll [(.scale, .float scale), (.power, .float power), (.bias, .float shift)] = .ok attrs ∧
      Added g { name := l.name, kind := .power, attrs } [input] [output] z g' := by
  simp only [addPower, Outcome.bind_eq_ok, data_eq_ok] at h
  obtain ⟨inNode, hin, outNode, hout, h⟩ := h
  split at h
  · cases h
  next hdims =>
  simp only [Outcome.bind_eq_ok] at h
  obtain ⟨scale, _, power, _, shift, _, attrs, hattrs, h⟩ := h
  exact ⟨inNode, outNode, scale, power, shift, attrs, hin, hout, by simpa using hdims, hattrs, addStage_added h⟩

end Layer

/-! ## What becomes of a layer -/

/-- A graph with any number of tensors more, none of them linked or in its place. -/
inductive Graph.Grown : Graph → Graph → Prop
  | refl {g : Graph} : Grown g g
  | push {g g' : Graph} {node : Data} : Grown g g' → node.consumers = [] → node.producer = none → node.Stocked →
    node.location = none → Grown g (g'.pushData node).2

namespace Graph.Grown

theorem trans {g₁ : Graph} (h : Grown g g₁) (h' : Grown g₁ g') : Grown g g' := by
  induction h' with
  | refl => exact h
  | push _ hc hp hstocked hplace ih => exact ih.push hc hp hstocked hplace

theorem wellFormed (h : Grown g g') (wf : g.WellFormed) : g'.WellFormed := by
  induction h with
  | refl => exact wf
  | push _ hc hp _ _ ih => exact ih.pushData hc hp

theorem data? {d : DataId} {node : Data} (h : Grown g g') (hd : g.data? d = some node) :
    g'.data? d = some node := by
  induction h with
  | refl => exact hd
  | push _ _ _ _ _ ih => exact data?_pushData_old ih

theorem fits {P : Site → Prop} {R : SlotRel} (h : Grown g g') (wf : g.WellFormed) (st : Site.Stable P R)
    (f : g.Fits P) : g'.Fits P := by
  induction h with
  | refl => exact f
  | push hg _ _ hstocked _ ih => exact ih.pushData st (hg.wellFormed wf) hstocked

theorem duplicate {g₁ : Graph} {source d : DataId} {suffix : String} {desc : Desc} (hg : Grown g g₁)
    (h : g₁.duplicate source suffix desc = .ok (d, g')) : Grown g g' := by
  obtain ⟨_, _, _, _, _, hneeded, hle, rfl, rfl⟩ := duplicate_eq_ok.1 h
  exact hg.push rfl rfl (Data.stocked_of_total rfl hneeded hle) rfl

end Graph.Grown

namespace Layer

/-- What the constants of a layer are called by, if it has any. -/
def suffix? (l : Layer) : Option String :=
  match Operation.ofName? l.type with
  | some (.convolve kind) => some kind.suffix
  | some .dense => some denseSuffix
  | _ => none

theorem addBiases_grown {suffix : String} {channels : Nat} {d : DataId}
    (h : l.addBiases g suffix channels = .ok (d, g')) : Grown g g' := by
  rcases addBiases_eq_ok h with ⟨_, h⟩ | ⟨_, _, _, _, _, _, h⟩
  · rcases addPlaceholder_eq_ok h with ⟨_, rfl⟩ | ⟨_, _, _, _, rfl⟩
    · exact .refl
    · exact Grown.refl.push rfl rfl nofun rfl
  · exact Grown.refl.duplicate h

/-- The constants that the stage of a layer reads behind its input. -/
inductive Consts (l : Layer) (g : Graph) : List DataId → Graph → Prop
  | without : l.suffix? = none → Consts l g [] g
  | weighted {suffix : String} {desc : Desc} {channels : Nat} {weights biases : DataId} {g₁ g₂ : Graph} :
    l.suffix? = some suffix → l.addWeights g suffix desc = .ok (weights, g₁) →
    l.addBiases g₁ suffix channels = .ok (biases, g₂) → Consts l g [weights, biases] g₂

theorem Consts.grown {consts : List DataId} (h : l.Consts g consts g') : Grown g g' := by
  cases h with
  | without => exact .refl
  | weighted _ hweights hbiases =>
    obtain ⟨_, _, _, _, hweights⟩ := addWeights_eq_ok hweights
    exact (Grown.refl.duplicate hweights).trans (addBiases_grown hbiases)

end Layer

/-- The kind of stage that an operation becomes. -/
def Operation.Becomes : Operation → StageKind → Prop
  | .convolve kind, k => k = kind.stub
  | .dense, k => k = .stubFullyConnected
  | .pool, k => k = .stubMaxPool ∨ k = .stubAvgPool
  | .power, k => k = .power

/-- The stage of a layer is named as its origin, does its operation and has the scale it asks for. -/
structure Layer.Makes (l : Layer) (t : StageTemplate) : Prop where
  origin : t.origin = some l.name
  kind : ∃ operation, Operation.ofName? l.type = some operation ∧ operation.Becomes t.kind
  scale : ∃ scale, l.scaleFactor? = .ok scale ∧ t.attrs.get? .scaleFactor = scale.map AttrValue.float

/-- The kind and the attributes of a stage suit the ranks of what it reads and writes. -/
structure StageTemplate.Sound (t : StageTemplate) (input output : Nat) : Prop where
  kind : t.kind.isStub = true ∨ t.kind = .power
  unset : t.attrs.get? .hwOpKind = none
  flat : t.kind = .stubFullyConnected → output = 2
  windowed : t.kind ≠ .stubFullyConnected → t.kind ≠ .power →
    output = input ∧ (t.attrs.get? .tryHw = some (.bool true) → input = 4 ∧ t.attrs.Fast)

/-- A window that the hardware can move under the options. -/
structure Window.Movable (w : Window) (config : Config) : Prop where
  kernel : (1 ≤ w.kernel.x ∧ w.kernel.x ≤ 15) ∧ (1 ≤ w.kernel.y ∧ w.kernel.y ≤ 15) ∧ w.kernel.z = 1
  stride : w.stride.x = w.stride.y ∧ 1 ≤ w.stride.x ∧ w.stride.x ≤ 8
  dilation : config.hwDilation = false → w.dilation.x = 1 ∧ w.dilation.y = 1

/-- The attributes keep such a window. -/
def Attrs.Movable (a : Attrs) (config : Config) : Prop := ∃ w, a.window = .ok w ∧ w.Movable config

/-- A stage of a layer may try the hardware only if the options and its window allow it. -/
def Layer.Clears (l : Layer) (config : Config) (t : StageTemplate) : Prop :=
  t.attrs.get? .tryHw = some (.bool true) →
    config.allowsHardware l.name = true ∧ (t.kind ≠ .stubFullyConnected → t.attrs.Movable config)

/-- A requested scale says nothing about the operation. -/
theorem StageTemplate.Sound.set {t : StageTemplate} {input output : Nat} {scale : F32} {attrs : Attrs}
    (h : t.Sound input output) (hset : t.attrs.set .scaleFactor (.float scale) = .ok attrs) :
    StageTemplate.Sound { t with attrs } input output := by
  have others (key) (hkey : key ≠ .scaleFactor) : attrs.get? key = t.attrs.get? key := by
    rw [Attrs.get?_set hset, if_neg hkey]
  refine ⟨h.kind, (others _ (by decide)).trans h.unset, h.flat, fun hflat hpower => ?_⟩
  obtain ⟨hrank, hfast⟩ := h.windowed hflat hpower
  refine ⟨hrank, fun hon => ?_⟩
  obtain ⟨hfour, w, hw, hsmall⟩ := hfast ((others _ (by decide)).symm.trans hon)
  exact ⟨hfour, w, (Attrs.window_set hset (by decide)).trans hw, hsmall⟩

theorem Layer.Clears.set {t : StageTemplate} {scale : F32} {attrs : Attrs} (h : l.Clears config t)
    (hset : t.attrs.set .scaleFactor (.float scale) = .ok attrs) : l.Clears config { t with attrs } := by
  intro hon
  rw [Attrs.get?_set hset, if_neg (by decide)] at hon
  obtain ⟨hallows, hmovable⟩ := h hon
  refine ⟨hallows, fun hkind => ?_⟩
  obtain ⟨w, hw, hmoves⟩ := hmovable hkind
  exact ⟨w, (Attrs.window_set hset (by decide)).trans hw, hmoves⟩

namespace Layer

/-- What a layer says about its window, list by list. -/
theorem window_eq_ok {axes : Nat} {dilated : Bool} {window : Window} (h : l.window axes dilated = .ok window) :
    l.spatial "kernel" axes 1 = .ok window.kernel ∧ l.spatial "strides" axes 1 = .ok window.stride ∧
      l.spatial "pads_begin" axes 0 = .ok window.padsBegin ∧
      (if l.hasAttr "pads_end" then l.spatial "pads_end" axes 0 else .ok window.padsBegin) = .ok window.padsEnd ∧
      (if dilated then l.spatial "dilations" axes 1 else .ok (.all 1)) = .ok window.dilation ∧
        window.valid = true := by
  have last {w : Window} (h : (if w.valid = true then pure w else l.fail (.window w)) = Except.ok window) :
      w = window ∧ window.valid = true := by
    split at h
    next hvalid =>
      cases h
      exact ⟨rfl, hvalid⟩
    · cases h
  simp only [Layer.window, Outcome.bind_eq_ok] at h
  obtain ⟨_, _, kernel, hkernel, stride, hstride, padsBegin, hbegin, h⟩ := h
  split at h
  all_goals
    obtain ⟨padsEnd, hend, h⟩ := Outcome.bind_eq_ok.1 h
    split at h
    all_goals
      obtain ⟨dilation, hdilation, h⟩ := Outcome.bind_eq_ok.1 h
      obtain ⟨rfl, hvalid⟩ := last h
      exact ⟨hkernel, hstride, hbegin, by simp_all [pure, Except.pure], by simp_all [pure, Except.pure], hvalid⟩

/-- A window that may go to the hardware is written to the attributes as it is. -/
theorem fast_of_on {window : Window} {rank axes : Nat} {dilated : Bool} {entries : List (AttrKey × AttrValue)}
    {attrs : Attrs} (hattrs : Attrs.empty.setAll (Attrs.ofWindow window (rank == 5) ++ entries) = .ok attrs)
    (hwindow : l.window axes dilated = .ok window) (hdepth : entries.lookup .kernelSizeZ = none)
    (hentry : entries.lookup .tryHw = some (.bool (config.allowsWindow l.name window rank)))
    (hon : attrs.get? .tryHw = some (.bool true)) :
    rank = 4 ∧ attrs.Fast ∧ config.allowsHardware l.name = true ∧ attrs.Movable config := by
  have hallows : config.allowsWindow l.name window rank = true := by
    rw [Attrs.get?_setAll hattrs, show (Attrs.ofWindow window (rank == 5) ++ entries).lookup .tryHw =
      entries.lookup .tryHw by cases rank == 5 <;> rfl, hentry] at hon
    exact AttrValue.bool.inj (Option.some.inj hon)
  simp only [Config.allowsWindow, Window.fitsHardware, Bool.and_eq_true, beq_iff_eq, decide_eq_true_eq] at hallows
  obtain ⟨⟨⟨hlayer, ⟨⟨⟨heven, hkx⟩, hky⟩, _⟩, hsx⟩, hspread⟩, rfl⟩ := hallows
  have read {key value} (h : (Attrs.ofWindow window false ++ entries).lookup key = some value) :
      attrs.get? key = some value := by
    rw [Attrs.get?_setAll hattrs, show (4 == 5) = false from rfl, h]
    rfl
  have flat : attrs.get? .kernelSizeZ = none := by
    rw [Attrs.get?_setAll hattrs, show (4 == 5) = false from rfl,
      show (Attrs.ofWindow window false ++ entries).lookup .kernelSizeZ = entries.lookup .kernelSizeZ
        from rfl, hdepth]
    rfl
  obtain ⟨w, hw, ⟨hwkx, hwky, hwkz⟩, ⟨hwsx, hwsy⟩, hwdx, hwdy⟩ := Attrs.window_of_get? (@read .kernelSizeX _ rfl)
    (@read .kernelSizeY _ rfl) (@read .kernelStrideX _ rfl) (@read .kernelStrideY _ rfl)
  rw [Attrs.getIntOr_of_none flat, Except.ok.injEq] at hwkz
  rw [Attrs.getIntOr_of_get? (@read .dilationX _ rfl), Except.ok.injEq] at hwdx
  rw [Attrs.getIntOr_of_get? (@read .dilationY _ rfl), Except.ok.injEq] at hwdy
  obtain ⟨-, -, -, -, -, hvalid⟩ := window_eq_ok hwindow
  simp only [Window.valid, Window.moves, Axes.toList, List.cons_append, List.nil_append, List.all_cons,
    List.all_nil, Bool.and_true, Bool.and_eq_true, decide_eq_true_eq] at hvalid
  obtain ⟨⟨⟨hposx, hposy, _, hstep, _⟩, _⟩, _⟩ := hvalid
  refine ⟨rfl, ⟨w, hw, hwkx ▸ hkx, hwky ▸ hky, hwsx ▸ hsx⟩, hlayer, w, hw, ?_, ?_, fun hoff => ?_⟩
  · exact ⟨⟨hwkx ▸ hposx, hwkx ▸ hkx⟩, ⟨hwky ▸ hposy, hwky ▸ hky⟩, hwkz.symm⟩
  · exact ⟨by rw [hwsx, hwsy, heven], hwsx ▸ hstep, hwsx ▸ hsx⟩
  · rw [hoff, Bool.false_or, Bool.not_eq_true', Window.isDilated] at hspread
    simp only [Axes.toList, List.any_cons, List.any_nil, Bool.or_false, Bool.or_eq_false_iff, bne_eq_false_iff_eq]
      at hspread
    exact ⟨hwdx ▸ hspread.1, hwdy ▸ hspread.2.1⟩

theorem slots_eq_ok {inputs outputs : List DataId} (h : l.slots inputs outputs = .ok (input, output)) :
    inputs = [input] ∧ outputs = [output] := by
  unfold slots at h
  split at h
  · cases h
    exact ⟨rfl, rfl⟩
  · cases h

/-- The stage of a layer reads the input of the layer and its constants, and writes its output. -/
theorem addStage_eq_ok {inputs outputs : List DataId} (h : l.addStage config g inputs outputs = .ok (z, g')) :
    ∃ input output template consts g₁ inNode outNode, inputs = [input] ∧ outputs = [output] ∧
      l.Consts g consts g₁ ∧ Added g₁ template (input :: consts) [output] z g' ∧ g.data? input = some inNode ∧
      g.data? output = some outNode ∧
      (∃ operation, Operation.ofName? l.type = some operation ∧ operation.Becomes template.kind) ∧
      template.attrs.get? .scaleFactor = none ∧ template.Sound inNode.desc.rank outNode.desc.rank ∧
      l.Clears config template := by
  simp only [addStage] at h
  split at h
  · cases h
  next operation hoperation =>
  simp only [Outcome.bind_eq_ok] at h
  obtain ⟨⟨input, output⟩, hslots, h⟩ := h
  obtain ⟨rfl, rfl⟩ := slots_eq_ok hslots
  split at h
  next kind =>
    obtain ⟨inNode, outNode, window, groups, _, _, _, weights, biases, g₁, g₂, attrs, hin, hout, _, _, hrank,
      hwindow, _, _, hw, hb, hattrs, hadd⟩ := addConvolve_eq_ok h
    have hsuffix : l.suffix? = some kind.suffix := by rw [suffix?, hoperation]
    have unset (key : AttrKey) (hkey : key = .scaleFactor ∨ key = .hwOpKind) : attrs.get? key = none := by
      rw [Attrs.get?_setAll hattrs]
      rcases hkey with rfl | rfl <;> cases inNode.desc.rank == 5 <;> rfl
    have on := fast_of_on hattrs hwindow rfl rfl
    exact ⟨input, output, _, [weights, biases], g₂, inNode, outNode, rfl, rfl, .weighted hsuffix hw hb, hadd, hin,
      hout, ⟨_, hoperation, rfl⟩, unset _ (.inl rfl), ⟨.inl (by cases kind <;> rfl), unset _ (.inr rfl),
        by cases kind <;> nofun, fun _ _ => ⟨hrank, fun hon => ⟨(on hon).1, (on hon).2.1⟩⟩⟩,
      fun hon => ⟨(on hon).2.2.1, fun _ => (on hon).2.2.2⟩⟩
  · obtain ⟨inNode, outNode, _, _, _, weights, biases, g₁, g₂, attrs, hin, hout, hflat, _, hw, hb, hattrs, hadd⟩ :=
      addDense_eq_ok h
    have hsuffix : l.suffix? = some denseSuffix := by rw [suffix?, hoperation]
    have unset (key : AttrKey) (hkey : key ≠ .tryHw) : attrs.get? key = none := by
      rw [Attrs.get?_set hattrs, if_neg hkey]
      rfl
    have on (h : attrs.get? .tryHw = some (.bool true)) : config.allowsHardware l.name = true := by
      rw [Attrs.get?_set hattrs, if_pos rfl] at h
      exact AttrValue.bool.inj (Option.some.inj h)
    exact ⟨input, output, _, [weights, biases], g₂, inNode, outNode, rfl, rfl, .weighted hsuffix hw hb, hadd, hin,
      hout, ⟨_, hoperation, rfl⟩, unset _ (by decide), ⟨.inl rfl, unset _ (by decide), fun _ => hflat,
        fun h => absurd rfl h⟩, fun h => ⟨on h, fun h => absurd rfl h⟩⟩
  · obtain ⟨inNode, outNode, kind, excludePad, window, attrs, hin, hout, _, _, hrank, hkind, hwindow,
      hattrs, hadd⟩ :=
      addPool_eq_ok h
    have hsuffix : l.suffix? = none := by rw [suffix?, hoperation]
    rw [List.append_assoc] at hattrs
    have unset (key : AttrKey) (hkey : key = .scaleFactor ∨ key = .hwOpKind) : attrs.get? key = none := by
      rw [Attrs.get?_setAll hattrs]
      rcases hkey with rfl | rfl <;> rcases hkind with rfl | rfl <;> cases inNode.desc.rank == 5 <;> rfl
    have on := fast_of_on hattrs hwindow (by rcases hkind with rfl | rfl <;> rfl)
      (by rcases hkind with rfl | rfl <;> rfl)
    exact ⟨input, output, _, [], g, inNode, outNode, rfl, rfl, .without hsuffix, hadd, hin, hout,
      ⟨_, hoperation, hkind⟩, unset _ (.inl rfl),
      ⟨.inl (by rcases hkind with rfl | rfl <;> rfl), unset _ (.inr rfl),
        by rcases hkind with rfl | rfl <;> nofun, fun _ _ => ⟨hrank, fun hon => ⟨(on hon).1, (on hon).2.1⟩⟩⟩,
      fun hon => ⟨(on hon).2.2.1, fun _ => (on hon).2.2.2⟩⟩
  · obtain ⟨inNode, outNode, _, _, _, attrs, hin, hout, _, hattrs, hadd⟩ := addPower_eq_ok h
    have hsuffix : l.suffix? = none := by rw [suffix?, hoperation]
    have unset (key : AttrKey) (hkey : key = .scaleFactor ∨ key = .hwOpKind ∨ key = .tryHw) :
        attrs.get? key = none := by
      rw [Attrs.get?_setAll hattrs]
      rcases hkey with rfl | rfl | rfl <;> rfl
    refine ⟨input, output, _, [], g, inNode, outNode, rfl, rfl, .without hsuffix, hadd, hin, hout,
      ⟨_, hoperation, rfl⟩, unset _ (.inl rfl),
      ⟨.inr rfl, unset _ (.inr (.inl rfl)), nofun, fun _ h => absurd rfl h⟩, fun hon => ?_⟩
    rw [unset .tryHw (.inr (.inr rfl))] at hon
    cases hon

/-- The stage of a layer, with the layer and the scale noted. -/
theorem addTo_eq_ok {inputs outputs : List DataId} (h : l.addTo config g inputs outputs = .ok g') :
    ∃ input output template consts g₁ z inNode outNode, inputs = [input] ∧ outputs = [output] ∧
      l.Consts g consts g₁ ∧
      Added g₁ template (input :: consts) [output] z g' ∧ l.Makes template ∧ g.data? input = some inNode ∧
      g.data? output = some outNode ∧ template.Sound inNode.desc.rank outNode.desc.rank ∧
        l.Clears config template := by
  simp only [addTo, Outcome.bind_eq_ok] at h
  obtain ⟨⟨z, g₂⟩, hstage, scale, hscale, h⟩ := h
  obtain ⟨input, output, template, consts, g₁, inNode, outNode, rfl, rfl, hconsts, hadd, hin, hout, hkind,
    hunscaled, sound, clears⟩ := addStage_eq_ok hstage
  have hnoted : Added g₁ { template with origin := some l.name } (input :: consts) [output] z
      (g₂.modifyStage z fun s => { s with origin := some l.name }) := hadd.modifyStage fun _ _ => rfl
  have sound' : StageTemplate.Sound { template with origin := some l.name } inNode.desc.rank outNode.desc.rank :=
    ⟨sound.kind, sound.unset, sound.flat, sound.windowed⟩
  have clears' : l.Clears config { template with origin := some l.name } := clears
  cases scale with
  | none =>
    obtain rfl := Outcome.pure_eq_ok.1 h
    exact ⟨input, output, _, consts, g₁, z, inNode, outNode, rfl, rfl, hconsts, hnoted,
      ⟨rfl, hkind, none, hscale, hunscaled⟩, hin, hout, sound', clears'⟩
  | some scale =>
    obtain ⟨attrs, hset, hscaled⟩ := hnoted.setAttr h
    have hscale' : attrs.get? .scaleFactor = some (.float scale) := by rw [Attrs.get?_set hset, if_pos rfl]
    exact ⟨input, output, _, consts, g₁, z, inNode, outNode, rfl, rfl, hconsts, hscaled,
      ⟨rfl, hkind, some scale, hscale, hscale'⟩, hin, hout, sound'.set hset, clears'.set hset⟩

end Layer

/-! ## The whole network -/

/-- The role of a tensor of a network in the graph. -/
def TensorInfo.role (t : TensorInfo) : Role :=
  match t.kind with
  | .input => .input
  | .output => .output
  | .intermediate => .intermediate
  | .weight => .const (t.data.getD []).toArray

theorem TensorInfo.addTo_eq_ok {t : TensorInfo} (h : t.addTo g = .ok g') :
    ∃ desc, Desc.new t.dtype t.shape = .ok desc ∧
      (∀ content, t.role = .const content → ∃ needed, desc.total = .ok needed ∧ needed ≤ content.size) ∧
      g' = (g.pushData { name := t.name, desc, role := t.role }).2 := by
  simp only [addTo, Outcome.bind_eq_ok] at h
  obtain ⟨desc, hdesc, h⟩ := h
  refine ⟨desc, hdesc, ?_⟩
  cases hkind : t.kind with
  | weight =>
    simp only [hkind, Outcome.bind_eq_ok, Outcome.pure_eq_ok] at h
    obtain ⟨⟨_, _⟩, h, rfl⟩ := h
    obtain ⟨needed, hneeded, hle, _, rfl⟩ := addConst_eq_ok.1 h
    simp only [role, hkind, Role.const.injEq, and_true]
    rintro _ rfl
    exact ⟨needed, hneeded, hle⟩
  | _ =>
    simp only [hkind, Graph.addData, Outcome.bind_eq_ok, Outcome.pure_eq_ok] at h
    obtain ⟨_, h, rfl⟩ := h
    cases h
    simp [role, hkind]

theorem TensorInfo.addTo_grown {t : TensorInfo} (h : t.addTo g = .ok g') : Grown g g' := by
  obtain ⟨desc, _, henough, rfl⟩ := addTo_eq_ok h
  exact Grown.push .refl rfl rfl henough rfl

theorem wellFormed_empty (name : String) : ({ name } : Graph).WellFormed := by
  constructor <;> intros <;> simp_all [stage?, data?]

/-- The graph of a network is well-formed. -/
theorem Network.graph_wellFormed {n : Network} (h : n.graph config = .ok g) : g.WellFormed := by
  simp only [Network.graph, Outcome.bind_eq_ok] at h
  obtain ⟨_, _, g₁, htensors, hlayers⟩ := h
  have wf₁ := Outcome.foldlM_keeps (fun _ g => g.WellFormed)
    (fun _ _ _ _ wf h => (TensorInfo.addTo_grown h).wellFormed wf) (wellFormed_empty n.name) htensors
  refine Outcome.foldlM_keeps (fun _ g => g.WellFormed) (fun l _ g g' wf h => ?_) wf₁ hlayers
  simp only [Outcome.bind_eq_ok] at h
  obtain ⟨_, _, _, _, h⟩ := h
  obtain ⟨_, _, _, _, _, _, _, _, _, _, hconsts, hadd, _⟩ := Layer.addTo_eq_ok h
  exact (hconsts.grown.wellFormed wf).added hadd (by simp)

end NetLower
