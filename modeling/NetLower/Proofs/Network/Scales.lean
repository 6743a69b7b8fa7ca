/-
The scales that layers ask for.  A stage remembers its layer and the scale of the layer;
batches are split and scales are passed on without mixing them up, so that at the visit of
a stage the scale it takes in is the one that its layer asks for.
-/
import NetLower.Compile
import NetLower.Proofs.Pass.BatchKept
import NetLower.Proofs.Pass.ScaleTaken

namespace NetLower

open NetLower.Graph

/-- No answer about scales changes the scale that a stage asks for. -/
theorem Site.scaleFactor_of_scale {s : Site} {scales : List F32} {step : ScaleStep} {report : Report F32}
    {attrs : Attrs} (h : s.kind.family.scale s scales step = .ok (report, attrs)) :
    attrs.get? .scaleFactor = s.attrs.get? .scaleFactor := by
  rcases Site.scale_attrs h with rfl | hpower
  · rfl
  rw [hpower] at h
  have kept {a a' : Attrs} {key : AttrKey} (h : a.mulFloat key (mainScale scales) = .ok a')
      (hkey : key ≠ .scaleFactor) : a'.get? .scaleFactor = a.get? .scaleFactor :=
    (Attrs.get?_mulFloat h).2 .scaleFactor hkey.symm
  simp only [StageFamily.scale, Site.powerScale, Outcome.bind_eq_ok] at h
  obtain ⟨_, _, _, _, exponent, _, h⟩ := h
  split at h
  · cases h
    rfl
  cases step <;> simp only [reduceCtorEq, if_false, if_true, ne_eq, not_true_eq_false, not_false_eq_true,
    Outcome.bind_eq_ok, Outcome.pure_eq_ok, Prod.mk.injEq, exists_eq_left'] at h
  case check =>
    obtain ⟨_, rfl⟩ := h
    rfl
  case scaleInput =>
    obtain ⟨a, hscale, b, hbias, _, rfl⟩ := h
    exact (kept hbias (by decide)).trans (kept hscale (by decide))
  case propagate =>
    obtain ⟨b, hbias, _, rfl⟩ := h
    exact kept hbias (by decide)

/-- What a stage has from its layer. -/
def StageTemplate.mark (t : StageTemplate) : Option String × StageKind × Option AttrValue :=
  (t.origin, t.kind, t.attrs.get? .scaleFactor)

namespace Graph

variable {g₀ g g' : Graph} {id : StageId} {template : StageTemplate} {changed : Bool}

/-! ## Stages and their layers -/

/-- A stage that comes from a layer has its mark from a stage that was there before. -/
def Inherits (g g' : Graph) : Prop :=
  ∀ id s', g'.stage? id = some s' → s'.origin = none ∨ ∃ id₀ s, g.stage? id₀ = some s ∧ s.mark = s'.mark

namespace Inherits

theorem refl : Inherits g g := fun id s hs => .inr ⟨id, s, hs, rfl⟩

theorem trans {g₁ : Graph} (h : Inherits g g₁) (h' : Inherits g₁ g') : Inherits g g' := by
  intro id s' hs'
  rcases h' id s' hs' with hnone | ⟨id₁, s₁, hs₁, hmark⟩
  · exact .inl hnone
  · rcases h id₁ s₁ hs₁ with hnone | ⟨id₀, s₀, hs₀, hmark₀⟩
    · exact .inl ((congrArg Prod.fst hmark).symm.trans hnone)
    · exact .inr ⟨id₀, s₀, hs₀, hmark₀.trans hmark⟩

theorem of_marks (h : ∀ id s', g'.stage? id = some s' → ∃ s, g.stage? id = some s ∧ s.mark = s'.mark) :
    Inherits g g' := by
  intro id s' hs'
  obtain ⟨s, hs, hmark⟩ := h id s' hs'
  exact .inr ⟨id, s, hs, hmark⟩

theorem of_stage? (h : ∀ id, g'.stage? id = g.stage? id) : Inherits g g' :=
  of_marks fun id s' hs' => ⟨s', (h id).symm.trans hs', rfl⟩

theorem added {inputs outputs : List DataId} {z : StageId} (h : Inherits g₀ g)
    (hadd : Added g template inputs outputs z g')
    (hnew : template.origin = none ∨ ∃ id₀ s, g₀.stage? id₀ = some s ∧ s.mark = template.mark) :
    Inherits g₀ g' := by
  intro id s' hs'
  rw [hadd.stage?] at hs'
  split at hs'
  · cases hs'
    exact hnew
  · exact h id s' hs'

theorem adjustBatch {config : Config} (h : Pass.adjustBatch.run config g = .ok (g', changed)) : Inherits g g' := by
  have staff : g.Staff fun t => t.origin = none ∨ ∃ id₀ s, g.stage? id₀ = some s ∧ s.mark = t.mark := refl
  exact staff.adjustBatch (fun _ _ ht => ht) (fun _ _ horigin => .inl horigin) (fun _ _ horigin => .inl horigin) h

/-! ## Scales -/

theorem askScale {scales : List F32} {step : ScaleStep} {report : Report F32}
    (h : g.askScale id scales step = .ok (report, g')) : Inherits g g' := by
  obtain ⟨site, attrs, hsite, hsaid, rfl⟩ := askScale_eq_ok h
  refine of_marks fun x s' hs' => ?_
  rw [setAttrs, stage?_modifyStage] at hs'
  split at hs'
  next hx =>
    subst hx
    rw [(site_eq_ok.1 hsite).1] at hs'
    cases hs'
    exact ⟨site.stage, (site_eq_ok.1 hsite).1,
      by simp [StageTemplate.mark, Site.scaleFactor_of_scale hsaid, Site.attrs]⟩
  · exact ⟨s', hs', rfl⟩

theorem meetScale {scales scales' : Scales} {edge : EdgeId} {wanted : Option F32}
    (h : Graph.meetScale (scales, g) edge wanted = .ok ((scales', g'), changed)) : Inherits g g' := by
  rcases meetScale_eq_ok h with rfl | ⟨r, node, suffix, template, z, g₁, r', _, _, _, ⟨_, horigin⟩, hadd, hled⟩
  · exact refl
  · have pushed : Inherits g (g.pushData (intermediate (node.name ++ suffix) node.desc)).2 :=
      of_stage? fun _ => rfl
    exact (pushed.added hadd (.inl horigin)).trans (of_stage? hled.stage?)

theorem scaleConst {edge : EdgeId} {scale : Option F32} (h : g.scaleConst edge scale = .ok (g', changed)) :
    Inherits g g' := of_stage? fun _ => scaleConst_stage? h

theorem meetScales {state mid : Scales × Graph} (h : Graph.meetScales state id = .ok (mid, changed)) :
    Inherits state.2 mid.2 := by
  obtain ⟨scales, g⟩ := state
  simp only [Graph.meetScales, Outcome.bind_eq_ok] at h
  obtain ⟨_, _, _, _, ⟨_, g₁⟩, hask, hmeet⟩ := h
  exact Pass.sweepWith_keeps (fun _ x => Inherits g x.2) (fun _ _ _ _ _ hx h => hx.trans (meetScale h))
    (askScale hask) hmeet

theorem scaleStage {state state' : Scales × Graph} (h : Graph.scaleStage state id = .ok (state', changed)) :
    Inherits state.2 state'.2 := by
  obtain ⟨_, _, mid, _, _, _, _, asked, _, _, _, hmeet, _, _, hask, hfold, _⟩ := scaleStage_eq_ok h
  exact Pass.sweep_keeps (fun _ x => Inherits state.2 x) (fun _ _ _ _ _ hx h => hx.trans (scaleConst h))
    ((meetScales hmeet).trans (askScale hask)) hfold

end Inherits

end Graph

theorem Graph.scaleHint_of_get? {g : Graph} {id : StageId} {s : Stage} {scale : F32} (hs : g.stage? id = some s)
    (h : s.attrs.get? .scaleFactor = some (.float scale)) : g.scaleHint id = .ok scale := by
  refine Outcome.bind_eq_ok.2 ⟨s, stage_eq_ok.2 hs, ?_⟩
  rw [if_pos (by simp [Attrs.has, h])]
  exact Attrs.getFloat_of_get? h

/-! ## Layers and their stages -/

namespace Network

variable {n : Network} {config : Config} {g : Graph} {id : StageId} {s : Stage} {l l' : Layer}

/-- Every stage of the graph of a network is the one of a layer. -/
theorem graph_makes (h : n.graph config = .ok g) (hs : g.stage? id = some s) :
    ∃ l ∈ n.layers, l.Makes s.toStageTemplate ∧ l.Clears config s.toStageTemplate := by
  simp only [Network.graph, Outcome.bind_eq_ok] at h
  obtain ⟨_, _, g₁, htensors, hlayers⟩ := h
  let T (t : StageTemplate) : Prop := ∃ l ∈ n.layers, l.Makes t ∧ l.Clears config t
  have empty : g₁.Staff T := by
    intro id s hs
    rw [stage?, (tensors_stand htensors).2] at hs
    cases hs
  refine (Outcome.foldlM_keeps (fun rest x => (∀ l ∈ rest, l ∈ n.layers) ∧ x.Staff T) (fun l rest x x' hx h => ?_)
    ⟨fun _ hl => hl, empty⟩ hlayers).2 id s hs
  simp only [Outcome.bind_eq_ok] at h
  obtain ⟨_, _, _, _, h⟩ := h
  obtain ⟨_, _, template, _, x₁, z, _, _, _, _, hconsts, hadd, makes, _, _, _, clears⟩ := Layer.addTo_eq_ok h
  have staff₁ : x₁.Staff T := hx.2.congr fun id => by rw [stage?, hconsts.grown.tables.1, stage?]
  exact ⟨fun l' hl' => hx.1 l' (List.mem_cons_of_mem _ hl'),
    staff₁.added hadd ⟨l, hx.1 l List.mem_cons_self, makes, clears⟩⟩

theorem validateLayers_names : ∀ {seen : List String} {layers : List Layer},
    n.validateLayers seen layers = .ok () → (∀ l ∈ layers, l.name ∉ seen) ∧ (layers.map Layer.name).Nodup
  | _, [], _ => ⟨nofun, .nil⟩
  | seen, l :: rest, h => by
    simp only [validateLayers, Outcome.check_bind_eq_ok, Outcome.require_eq_ok] at h
    obtain ⟨hseen, _, _, hrest⟩ := h
    obtain ⟨hfresh, hnodup⟩ := validateLayers_names hrest
    refine ⟨List.forall_mem_cons.2 ⟨hseen, fun l' hl' hmem => hfresh l' hl' (List.mem_cons_of_mem _ hmem)⟩, ?_⟩
    refine List.nodup_cons.2 ⟨fun hmem => ?_, hnodup⟩
    obtain ⟨l', hl', hname⟩ := List.mem_map.1 hmem
    exact hfresh l' hl' (hname ▸ List.mem_cons_self)

theorem layer_unique (h : n.graph config = .ok g) (hl : l ∈ n.layers) (hl' : l' ∈ n.layers)
    (hname : l.name = l'.name) : l = l' := by
  simp only [Network.graph, validate, Outcome.bind_eq_ok] at h
  obtain ⟨_, ⟨_, _, _, _, _, _, hlayers⟩, _⟩ := h
  exact List.inj_on_of_nodup_map (validateLayers_names hlayers).2 hl hl' hname

/-! ## The visit of a stage -/

/-- Scale propagation through the graph of a network gets to a stage: what it has before the visit
and behind it. -/
def Visits (n : Network) (config : Config) (before : Scales × Graph) (id : StageId)
    (after : Scales × Graph) : Prop :=
  ∃ g g₁ visited rest changed changed', n.graph config = .ok g ∧
    Pass.runAll config [Pass.initialCheck, Pass.adjustBatch] g = .ok g₁ ∧ config.hwOptimization = true ∧
    g₁.runOrder = .ok (visited ++ id :: rest) ∧
    Pass.sweepWith visited Graph.scaleStage ([], g₁) = .ok (before, changed) ∧
    Graph.scaleStage before id = .ok (after, changed')

variable {before mid after : Scales × Graph} {rescaled : Bool} {site : Site} {actual : List F32} {scale : F32}
  {d : DataId}

/-- At the visit of a stage all stages fit, and they are still the ones of their layers. -/
theorem Visits.fits (h : n.Visits config before id after) :
    before.2.Fits Site.Early ∧ before.2.Orderly ∧ ∃ g, n.graph config = .ok g ∧ Inherits g before.2 := by
  obtain ⟨g, g₁, visited, rest, _, _, hg, hfront, _, _, hsweep, _⟩ := h
  simp only [Pass.runAll, Outcome.bind_eq_ok] at hfront
  obtain ⟨⟨g₂, _⟩, hcheck, ⟨g₃, _⟩, hbatch, h⟩ := hfront
  cases h
  have f₂ := (Network.graph_fresh hg).initialCheck hcheck
  obtain ⟨rfl, order, horder, _⟩ := Pass.checkAll_eq_ok hcheck
  have o₂ := (Network.graph_wellFormed hg).orderly horder
  obtain ⟨f, o, inherits⟩ := Pass.sweepWith_keeps
    (fun _ x => x.2.Fits Site.Early ∧ x.2.Orderly ∧ Inherits g₂ x.2)
    (fun _ _ _ _ _ hx h => ⟨hx.1.scaleStage hx.2.1 h, hx.2.1.scaleStage h, hx.2.2.trans (.scaleStage h)⟩)
    ⟨f₂.adjustBatch o₂ hbatch, o₂.adjustBatch hbatch, .adjustBatch hbatch⟩ hsweep
  exact ⟨f, o, g₂, hg, inherits⟩

/-- The stage of a layer as it is visited does the operation of the layer and asks for its scale. -/
theorem Visits.makes (h : n.Visits config before id after) (hmeet : meetScales before id = .ok (mid, rescaled))
    (hs : mid.2.stage? id = some s) (hl : l ∈ n.layers) (horigin : s.origin = some l.name) :
    l.Makes s.toStageTemplate := by
  obtain ⟨_, _, g, hg, inherits⟩ := h.fits
  rcases inherits.trans (.meetScales hmeet) id s hs with hnone | ⟨id₀, s₀, hs₀, hmark⟩
  · rw [hnone] at horigin
    cases horigin
  obtain ⟨l', hl', makes, _⟩ := graph_makes hg hs₀
  simp only [StageTemplate.mark, Prod.mk.injEq] at hmark
  obtain ⟨horigin₀, hkind, hscale⟩ := hmark
  obtain rfl : l = l' := by
    refine layer_unique hg hl hl' (Option.some.inj ?_)
    rw [← horigin, ← horigin₀, makes.origin]
  exact ⟨horigin, hkind ▸ makes.kind, hscale ▸ makes.scale⟩

theorem becomes_layer_kind {operation : Operation} {kind : StageKind} (h : operation.Becomes kind) :
    (kind.isStub = true ∨ kind = .power) ∧
      (kind.isWeightable = true ∨ kind = .power ↔ operation ≠ .pool) := by
  cases operation with
  | convolve conv =>
    cases h
    cases conv <;> simp [ConvKind.stub, StageKind.isStub, StageKind.code?, StageKind.isWeightable]
  | dense =>
    cases h
    simp [StageKind.isStub, StageKind.code?, StageKind.isWeightable]
  | pool =>
    rcases h with rfl | rfl <;> simp [StageKind.isStub, StageKind.code?, StageKind.isWeightable]
  | power =>
    cases h
    simp

/-- A noted scale is a scale that was taken in, with two exceptions. Where the stage of a layer that
asks for a scale takes it in and another scale than 1 is noted for its output, then that is the
scale of the layer; and the weights and biases that the stage reads became multiples by it, or the
numbers of the power did, exactly if the layer is no pool and no constant has the name of one of the
multiples and other values. -/
theorem noted_scale_taken_iff (visit : n.Visits config before id after) (hl : l ∈ n.layers)
    (hscale : l.scaleFactor? = .ok (some scale)) (hmeet : meetScales before id = .ok (mid, rescaled))
    (hsite : mid.2.site id = .ok site) (horigin : site.stage.origin = some l.name)
    (hactual : mid.2.inputScales mid.1 id = .ok actual) (hstarts : startsScale scale actual = true)
    (hd : after.2.outputData id 0 = .ok d) (hnoted : (after.1.get d).numEq F32.one = false) :
    after.1.get d = scale ∧ ∃ site', after.2.site id = .ok site' ∧
      (site.Took site' scale ↔ Operation.ofName? l.type ≠ some .pool ∧ site.Unshadowed mid.2.consts scale) := by
  have hs := (site_eq_ok.1 hsite).1
  have makes := visit.makes hmeet hs hl horigin
  obtain ⟨operation, hoperation, hbecomes⟩ := makes.kind
  obtain ⟨hkind, htakes⟩ := becomes_layer_kind hbecomes
  have hhint : mid.2.scaleHint id = .ok scale := by
    obtain ⟨asked, hasked, hattr⟩ := makes.scale
    rw [hscale, Except.ok.injEq] at hasked
    subst hasked
    exact scaleHint_of_get? hs hattr
  obtain ⟨f, o, _⟩ := visit.fits
  obtain ⟨_, _, _, _, _, _, _, _, _, _, _, hvisit⟩ := visit
  obtain ⟨hget, site', hsite', htook⟩ :=
    scaleStage_took_iff f o hvisit hmeet hsite hkind hactual hhint hstarts hd hnoted
  refine ⟨hget, site', hsite', ?_⟩
  rw [htook, show site.kind = site.stage.kind from rfl, htakes, hoperation]
  simp

/-! ### Two layers that ask for a scale -/

def four : F32 := ⟨0x40800000⟩

/-- A network of one layer that asks for a scale of 4 and has a window as large as its input. The
constants it names, if any, are weights and biases. -/
def asking (type : String) (shape : List Nat) (constants : List TensorInfo) : Network :=
  { name := "asking", version := 7
    tensors :=
      [{ name := "given", shape, kind := .input }, { name := "result", shape := [1, 1, 1, 1], kind := .output }] ++
        constants
    layers :=
      [{ name := "layer", type, inputs := ["given"], outputs := ["result"]
         attributes := [("kernel", .ints ((shape.drop 2).map Int.ofNat)), ("scale_factor", .float four)]
         weights := constants[0]?.map TensorInfo.name, biases := constants[1]?.map TensorInfo.name }]
    inputs := ["given"], outputs := ["result"] }

/-- Where no batch is split, the visits begin with the graph of the network. -/
theorem visits_first {rest : List StageId} {changed : Bool} (hg : n.graph config = .ok g)
    (hfront : (do
      let g ← n.graph config
      let g₁ ← Pass.runAll config [Pass.initialCheck, Pass.adjustBatch] g
      let order ← g₁.runOrder
      return (decide (g₁ = g), order)) = Except.ok (true, id :: rest))
    (hon : config.hwOptimization = true) (h : Graph.scaleStage ([], g) id = .ok (after, changed)) :
    n.Visits config ([], g) id after := by
  simp only [hg, Outcome.bind_eq_ok, Outcome.pure_eq_ok, Except.ok.injEq, exists_eq_left', Prod.mk.injEq,
    decide_eq_true_eq] at hfront
  obtain ⟨g₁, hfront, order, horder, rfl, rfl⟩ := hfront
  exact ⟨g₁, g₁, [], rest, false, changed, hg, hfront, hon, horder, rfl, h⟩

def convolved : Network :=
  asking "Convolution" [1, 1, 1, 1] [.weight "kernel" [1, 1, 1, 1] [four], .weight "shift" [1] [.one]]

/-- A convolution takes the scale into its weights and biases. -/
theorem convolved_scale_taken :
    ∃ before mid after site site' d, convolved.Visits {} before ⟨0⟩ after ∧
      meetScales before ⟨0⟩ = .ok (mid, false) ∧ mid.2.site ⟨0⟩ = .ok site ∧ after.2.site ⟨0⟩ = .ok site' ∧
      after.2.outputData ⟨0⟩ 0 = .ok d ∧ after.1.get d = four ∧ site.Took site' four := by
  have hfront : (do
      let g ← convolved.graph {}
      let g₁ ← Pass.runAll {} [Pass.initialCheck, Pass.adjustBatch] g
      let order ← g₁.runOrder
      return (decide (g₁ = g), order)) = Except.ok (true, [⟨0⟩]) := by decide +kernel
  have hvisit : (do
      let g ← convolved.graph {}
      let met ← meetScales ([], g) ⟨0⟩
      let scaled ← Graph.scaleStage ([], g) ⟨0⟩
      let site ← met.1.2.site ⟨0⟩
      let actual ← met.1.2.inputScales met.1.1 ⟨0⟩
      let d ← scaled.1.2.outputData ⟨0⟩ 0
      return ((met.2, site.stage.origin), startsScale four actual, (scaled.1.1.get d).numEq F32.one,
        decide (site.Unshadowed met.1.2.consts four))) = Except.ok ((false, some "layer"), true, false, true) := by
    decide +kernel
  simp only [Outcome.bind_eq_ok, Outcome.pure_eq_ok, Prod.mk.injEq, decide_eq_true_eq] at hvisit
  obtain ⟨g, hg, ⟨mid, _⟩, hmeet, ⟨after, _⟩, hscale, site, hsite, actual, hactual, d, hd, ⟨rfl, horigin⟩, hstarts,
    hnoted, hclear⟩ := hvisit
  have visit := visits_first hg hfront rfl hscale
  obtain ⟨hget, site', hsite', htook⟩ := noted_scale_taken_iff visit (List.mem_singleton.2 rfl)
    (show Layer.scaleFactor? _ = .ok (some four) from rfl) hmeet hsite horigin hactual hstarts hd hnoted
  exact ⟨_, mid, after, site, site', d, visit, hmeet, hsite, hsite', hd, hget, htook.2 ⟨by decide, hclear⟩⟩

def pooled : Network := asking "Pooling" [1, 1, 2, 2] []

/-- A pool takes no scale in, and yet its output is noted to have it. -/
theorem pooled_scale_not_taken :
    ∃ before mid after site site' actual d, pooled.Visits {} before ⟨0⟩ after ∧
      meetScales before ⟨0⟩ = .ok (mid, false) ∧ mid.2.site ⟨0⟩ = .ok site ∧ site.stage.origin = some "layer" ∧
      mid.2.inputScales mid.1 ⟨0⟩ = .ok actual ∧ startsScale four actual = true ∧
      after.2.outputData ⟨0⟩ 0 = .ok d ∧ after.1.get d = four ∧ after.2.site ⟨0⟩ = .ok site' ∧
      ¬ site.Took site' four := by
  have hfront : (do
      let g ← pooled.graph {}
      let g₁ ← Pass.runAll {} [Pass.initialCheck, Pass.adjustBatch] g
      let order ← g₁.runOrder
      return (decide (g₁ = g), order)) = Except.ok (true, [⟨0⟩]) := by decide +kernel
  have hvisit : (do
      let g ← pooled.graph {}
      let met ← meetScales ([], g) ⟨0⟩
      let scaled ← Graph.scaleStage ([], g) ⟨0⟩
      let site ← met.1.2.site ⟨0⟩
      let site' ← scaled.1.2.site ⟨0⟩
      let actual ← met.1.2.inputScales met.1.1 ⟨0⟩
      let d ← scaled.1.2.outputData ⟨0⟩ 0
      return ((met.2, site.stage.origin), startsScale four actual, scaled.1.1.get d, site.kind,
        (site.const? 1).isNone)) =
        Except.ok ((false, some "layer"), true, four, .stubMaxPool, true) := by decide +kernel
  simp only [Outcome.bind_eq_ok, Outcome.pure_eq_ok, Prod.mk.injEq, Option.isNone_iff_eq_none] at hvisit
  obtain ⟨g, hg, ⟨mid, _⟩, hmeet, ⟨after, _⟩, hscale, site, hsite, site', hsite', actual, hactual, d, hd,
    ⟨rfl, horigin⟩, hstarts, hget, hkind, hnone⟩ := hvisit
  refine ⟨_, mid, after, site, site', actual, d, visits_first hg hfront rfl hscale, hmeet, hsite, horigin, hactual,
    hstarts, hd, hget, hsite', ?_⟩
  simp [Site.Took, hnone, hkind]

end Network

end NetLower
