/-
The frame of the passes.  A pass adds tensors and stages, and it leads edges elsewhere, but
a tensor that was there keeps what it is, and a stage that was there and still is keeps
everything but two of its numbers, if it is an affine power and scales are propagated, and
its kind, if it is a stub that is lowered.
-/
import NetLower.Proofs.Pass.BatchKept
import NetLower.Proofs.Pass.DataOrder
import NetLower.Proofs.Pass.Memory
import NetLower.Proofs.Pass.ScaleFit
import NetLower.Proofs.Pass.Strides
import NetLower.Proofs.Pipeline

namespace NetLower

/-! ## Nodes -/

/-- What no pass changes of a tensor. Its order in memory may change only where stages alone see it. -/
structure Data.Kept (d d' : Data) : Prop where
  name : d'.name = d.name
  role : d'.role = d.role
  dtype : d'.desc.dtype = d.desc.dtype
  dims : d'.desc.dims = d.desc.dims
  order : d'.desc.order = d.desc.order ∨ d.usage = .intermediate ∨ d.usage = .const

namespace Data.Kept

variable {d d' d'' : Data}

theorem of_desc (hname : d'.name = d.name) (hrole : d'.role = d.role) (hdesc : d'.desc = d.desc) : d.Kept d' :=
  ⟨hname, hrole, congrArg Desc.dtype hdesc, congrArg Desc.dims hdesc, .inl (congrArg Desc.order hdesc)⟩

theorem refl : d.Kept d := of_desc rfl rfl rfl

theorem trans (h : d.Kept d') (h' : d'.Kept d'') : d.Kept d'' := by
  have husage : d'.usage = d.usage := congrArg Role.usage h.role
  refine ⟨h'.name.trans h.name, h'.role.trans h.role, h'.dtype.trans h.dtype, h'.dims.trans h.dims, ?_⟩
  rcases h.order with ho | hu
  · rcases h'.order with ho' | hu'
    · exact .inl (ho'.trans ho)
    · exact .inr (husage ▸ hu')
  · exact .inr hu

theorem reordered {order : Order} {desc : Desc} (h : d.desc.setOrder order = .ok desc)
    (husage : d.usage = .intermediate ∨ d.usage = .const) : d.Kept { d with desc } :=
  ⟨rfl, rfl, (Desc.setOrder_eq_ok h).1, (Desc.setOrder_eq_ok h).2.1, .inr husage⟩

end Data.Kept

/-- An attribute before and after a pass of a phase over a stage of a kind. -/
inductive AttrKept (phase : Phase) (kind : StageKind) (key : AttrKey) : Option AttrValue → Option AttrValue → Prop
  | same {value : Option AttrValue} : AttrKept phase kind key value value
  /-- The multiplier and the offset of an affine power take scales in. -/
  | rescaled {x y : F32} : phase = .scale → kind = .power → key = .scale ∨ key = .bias →
      AttrKept phase kind key (some (.float x)) (some (.float y))
  /-- A stub that becomes a hardware stage is told the operation. -/
  | told {op : HardwareOp} : phase = .lowering → kind.isStub = true → key = .hwOpKind →
      AttrKept phase kind key none (some (.int op.code))

/-- What a pass of a phase leaves of a stage. -/
structure Stage.Kept (phase : Phase) (s s' : Stage) : Prop where
  name : s'.name = s.name
  origin : s'.origin = s.origin
  slots : s'.slots = s.slots
  kind : s'.kind = s.kind ∨ phase = .lowering ∧ s.kind.isStub = true ∧ s'.kind.isStub = false
  attrs : ∀ key, AttrKept phase s.kind key (s.attrs.get? key) (s'.attrs.get? key)

/-- Only stubs are lowered. -/
theorem StageKind.isStub_of_lowering {k software : StageKind} {op : Option HardwareOp}
    (h : k.lowering = .ok (op, software)) : k.isStub = true := by
  cases k <;> cases h <;> rfl

namespace Stage.Kept

variable {phase : Phase} {s s' s'' : Stage}

theorem refl : s.Kept phase s := ⟨rfl, rfl, rfl, .inl rfl, fun _ => .same⟩

/-- A stub is lowered once, and only while no scales are propagated. -/
theorem trans (h : s.Kept phase s') (h' : s'.Kept phase s'') : s.Kept phase s'' := by
  have hkind : s''.kind = s.kind ∨ phase = .lowering ∧ s.kind.isStub = true ∧ s''.kind.isStub = false := by
    rcases h.kind with hk | ⟨hp, hstub, hreal⟩ <;> rcases h'.kind with hk' | ⟨hp', hstub', hreal'⟩
    · exact .inl (hk'.trans hk)
    · exact .inr ⟨hp', hk ▸ hstub', hreal'⟩
    · exact .inr ⟨hp, hstub, hk' ▸ hreal⟩
    · simp [hreal] at hstub'
  refine ⟨h'.name.trans h.name, h'.origin.trans h.origin, h'.slots.trans h.slots, hkind, fun key => ?_⟩
  have first := h.attrs key
  have second := h'.attrs key
  generalize s.attrs.get? key = a, s'.attrs.get? key = b, s''.attrs.get? key = c at first second
  cases second with
  | same => exact first
  | rescaled hp hpower hkey =>
    have hk : s'.kind = s.kind := h.kind.resolve_right fun hl => by simp [hp] at hl
    cases first with
    | same => exact .rescaled hp (hk ▸ hpower) hkey
    | rescaled => exact .rescaled hp (hk ▸ hpower) hkey
  | told hp hstub hkey =>
    have hk : s'.kind = s.kind := h.kind.resolve_right fun hl => by simp [hl.2.2] at hstub
    cases first with
    | same => exact .told hp (hk ▸ hstub) hkey

/-- Lowering touches the kind and adds one attribute. -/
theorem lowered (h : s.toStageTemplate.Lowered s'.toStageTemplate)
    (hslots : s'.slots = s.slots) : s.Kept .lowering s' := by
  obtain ⟨t, inputs, outputs⟩ := s
  obtain ⟨t', inputs', outputs'⟩ := s'
  cases h with
  | @software op software hlowering =>
    have hstub := StageKind.isStub_of_lowering hlowering
    exact ⟨rfl, rfl, hslots, .inr ⟨rfl, hstub, (StageKind.software_of_lowering hlowering).1⟩, fun _ => .same⟩
  | @hardware op software attrs hlowering _ hattrs =>
    have hstub := (StageKind.hardware_of_lowering hlowering).1
    refine ⟨rfl, rfl, hslots, .inr ⟨rfl, hstub, rfl⟩, fun key => ?_⟩
    rw [Attrs.get?_set hattrs key]
    split
    next hkey =>
      have hnew : t.attrs.get? key = none := by simpa [Attrs.has, hkey] using Attrs.has_of_set hattrs
      exact hnew ▸ .told rfl hstub hkey
    · exact .same

end Stage.Kept

namespace Site

/-- What an affine power says about scales: it needs none, or it hands on the scale of its input and
takes it into its offset and its multiplier, as far as it is asked to. -/
theorem powerScale_eq_ok {s : Site} {scales : List F32} {step : ScaleStep} {report : Report F32} {attrs : Attrs}
    (h : s.powerScale scales step = .ok (report, attrs)) :
    ∃ power, s.attrs.getFloat .power = .ok power ∧
      (power.numEq F32.one = false ∧ report = ((Report.blank s).setInput 0 F32.one).setOutput 0 F32.one ∧
          attrs = s.attrs ∨
        power.numEq F32.one = true ∧ report = (Report.blank s).setOutput 0 (mainScale scales) ∧
          ∃ a, (a = s.attrs ∨ s.attrs.mulFloat .scale (mainScale scales) = .ok a) ∧
            (attrs = a ∨ a.mulFloat .bias (mainScale scales) = .ok attrs)) := by
  simp only [powerScale, Outcome.bind_eq_ok] at h
  obtain ⟨_, _, _, _, power, hpower, h⟩ := h
  refine ⟨power, hpower, ?_⟩
  split at h
  next hcurved =>
    cases h
    exact .inl ⟨by simpa using hcurved, rfl, rfl⟩
  next hlinear =>
    refine .inr ⟨by simpa using hlinear, ?_⟩
    cases step with
    | check =>
      cases h
      exact ⟨rfl, _, .inl rfl, .inl rfl⟩
    | scaleInput =>
      simp only [if_true, ne_eq, reduceCtorEq, not_false_eq_true, Outcome.bind_eq_ok, Outcome.pure_eq_ok,
        Prod.mk.injEq] at h
      obtain ⟨a, hscale, _, hbias, rfl, rfl⟩ := h
      exact ⟨rfl, a, .inr hscale, .inr hbias⟩
    | propagate =>
      simp only [reduceCtorEq, if_false, ne_eq, not_false_eq_true, if_true, Outcome.bind_eq_ok, Outcome.pure_eq_ok,
        Prod.mk.injEq] at h
      obtain ⟨a, rfl, _, hbias, rfl, rfl⟩ := h
      exact ⟨rfl, _, .inl rfl, .inr hbias⟩

/-- Asking a stage about scales changes two numbers of an affine power and nothing else. -/
theorem scale_attrKept {s : Site} {scales : List F32} {step : ScaleStep} {report : Report F32} {attrs : Attrs}
    (h : s.kind.family.scale s scales step = .ok (report, attrs)) (key : AttrKey) :
    AttrKept .scale s.kind key (s.attrs.get? key) (attrs.get? key) := by
  rcases scale_attrs h with rfl | hfamily
  · exact .same
  have hpower : s.kind = .power := by
    revert hfamily
    cases s.kind <;> decide
  -- Multiplying one of the two numbers leaves it a number, and leaves the others alone.
  have mul {a a' : Attrs} {factor : F32} {changed : AttrKey} (hchanged : changed = .scale ∨ changed = .bias)
      (hmul : a.mulFloat changed factor = .ok a')
      (ha : AttrKept .scale s.kind key (s.attrs.get? key) (a.get? key)) :
      AttrKept .scale s.kind key (s.attrs.get? key) (a'.get? key) := by
    obtain ⟨⟨x, hx, hy⟩, others⟩ := Attrs.get?_mulFloat hmul
    by_cases hkey : key = changed
    · subst hkey
      rw [Attrs.get?_of_getFloat hx] at ha
      rw [Attrs.get?_of_getFloat hy]
      generalize s.attrs.get? key = before at ha ⊢
      cases ha with
      | same => exact .rescaled rfl hpower hchanged
      | rescaled => exact .rescaled rfl hpower hchanged
    · rw [others key hkey]
      exact ha
  rw [hfamily] at h
  obtain ⟨power, _, ⟨_, _, rfl⟩ | ⟨_, _, a, hscale, hbias⟩⟩ := powerScale_eq_ok h
  · exact .same
  have kept : AttrKept .scale s.kind key (s.attrs.get? key) (a.get? key) := by
    rcases hscale with rfl | hscale
    · exact .same
    · exact mul (.inl rfl) hscale .same
  rcases hbias with rfl | hbias
  · exact kept
  · exact mul (.inr rfl) hbias kept

end Site

namespace Graph

variable {g g' g'' : Graph} {phase : Phase} {changed : Bool} {config : Config}

/-! ## Tensors -/

/-- Every tensor is still there and is what it was. -/
def KeepsTensors (g g' : Graph) : Prop :=
  ∀ d node, g.data? d = some node → ∃ node', g'.data? d = some node' ∧ node.Kept node'

namespace KeepsTensors

theorem refl : g.KeepsTensors g := fun _ node hnode => ⟨node, hnode, .refl⟩

theorem trans (h : g.KeepsTensors g') (h' : g'.KeepsTensors g'') : g.KeepsTensors g'' := by
  intro d node hnode
  obtain ⟨node', hnode', kept⟩ := h d node hnode
  obtain ⟨node'', hnode'', kept'⟩ := h' d node' hnode'
  exact ⟨node'', hnode'', kept.trans kept'⟩

theorem pushData (new : Data) : g.KeepsTensors (g.pushData new).2 :=
  fun _ node hnode => ⟨node, data?_pushData_old hnode, .refl⟩

theorem pushAll (nodes : List Data) : g.KeepsTensors (g.pushAll nodes) :=
  fun _ node hnode => ⟨node, data?_pushAll_old hnode, .refl⟩

/-- Links, requirements, strides and places may change. -/
theorem of_map {f : DataId → Data → Data} (h : ∀ d, g'.data? d = (g.data? d).map (f d))
    (hf : ∀ d node, (f d node).name = node.name ∧ (f d node).role = node.role ∧ (f d node).desc = node.desc) :
    g.KeepsTensors g' := by
  intro d node hnode
  obtain ⟨hname, hrole, hdesc⟩ := hf d node
  exact ⟨f d node, by rw [h, hnode]; rfl, .of_desc hname hrole hdesc⟩

theorem modifyData {d : DataId} {f : Data → Data} (hf : ∀ node, g.data? d = some node → node.Kept (f node)) :
    g.KeepsTensors (g.modifyData d f) := by
  intro x node hnode
  rw [data?_modifyData]
  split
  next hx =>
    subst hx
    exact ⟨f node, by rw [hnode]; rfl, hf node hnode⟩
  · exact ⟨node, hnode, .refl⟩

theorem added {template : StageTemplate} {inputs outputs : List DataId} {z : StageId}
    (h : Added g template inputs outputs z g') : g.KeepsTensors g' := of_map h.data? fun _ _ => ⟨rfl, rfl, rfl⟩

end KeepsTensors

/-! ## Passes that take no stage out -/

/-- Every tensor and every stage is still there and is what it was, as far as a phase keeps it, and
no places are given out. -/
structure Framed (phase : Phase) (g g' : Graph) : Prop where
  tensors : g.KeepsTensors g'
  stages : ∀ id s, g.stage? id = some s → ∃ s', g'.stage? id = some s' ∧ s.Kept phase s'
  unplaced : g.Unplaced → g'.Unplaced

namespace Framed

theorem refl : g.Framed phase g := ⟨.refl, fun _ s hs => ⟨s, hs, .refl⟩, fun h => h⟩

theorem trans (h : g.Framed phase g') (h' : g'.Framed phase g'') : g.Framed phase g'' := by
  refine ⟨h.tensors.trans h'.tensors, fun id s hs => ?_, fun hg => h'.unplaced (h.unplaced hg)⟩
  obtain ⟨s', hs', kept⟩ := h.stages id s hs
  obtain ⟨s'', hs'', kept'⟩ := h'.stages id s' hs'
  exact ⟨s'', hs'', kept.trans kept'⟩

theorem keepsSlots (h : g.Framed phase g') : g.Extends g' := by
  intro id s hs
  obtain ⟨s', hs', kept⟩ := h.stages id s hs
  exact ⟨s', hs', kept.slots⟩

theorem of_stages (h : g.KeepsTensors g') (hs : ∀ id, g'.stage? id = g.stage? id)
    (hfree : g.Unplaced → g'.Unplaced) : g.Framed phase g' :=
  ⟨h, fun id s hs' => ⟨s, (hs id).trans hs', .refl⟩, hfree⟩

theorem pushData {new : Data} (hnew : new.location = none) : g.Framed phase (g.pushData new).2 :=
  of_stages (.pushData new) (fun _ => rfl) fun h => h.pushData hnew

theorem modifyData {d : DataId} {f : Data → Data} (hf : ∀ node, g.data? d = some node → node.Kept (f node))
    (hplace : ∀ node, (f node).location = node.location) : g.Framed phase (g.modifyData d f) :=
  of_stages (.modifyData hf) (fun _ => rfl) fun h => h.modifyData hplace

theorem modifyStage {id : StageId} {f : Stage → Stage} (hf : ∀ s, g.stage? id = some s → s.Kept phase (f s)) :
    g.Framed phase (g.modifyStage id f) := by
  refine ⟨.refl, fun x s hs => ?_, fun h => h⟩
  rw [stage?_modifyStage]
  split
  next hx =>
    subst hx
    exact ⟨f s, by rw [hs]; rfl, hf s hs⟩
  · exact ⟨s, hs, .refl⟩

theorem added {template : StageTemplate} {inputs outputs : List DataId} {z : StageId}
    (h : Added g template inputs outputs z g') : g.Framed phase g' :=
  ⟨.added h, fun _ s hs => ⟨s, (h.stage?_of_old hs).2, .refl⟩, fun hg => hg.of_map h.data? fun _ _ => rfl⟩

theorem inputLed {e : EdgeId} {r : Edge} {d : DataId} (h : InputLed g e r d g') : g.Framed phase g' :=
  of_stages (.of_map h.data? fun _ _ => ⟨rfl, rfl, rfl⟩) h.stage? fun hg => hg.of_map h.data? fun _ _ => rfl

theorem outputLed {e : EdgeId} {r : Edge} {d : DataId} (h : OutputLed g e r d g') : g.Framed phase g' :=
  of_stages (.of_map h.data? fun _ _ => ⟨rfl, rfl, rfl⟩) h.stage? fun hg => hg.of_map h.data? fun _ _ => rfl

theorem reordered {d : DataId} {node : Data} {order : Order} {desc : Desc} (hnode : g.data? d = some node)
    (husage : node.usage = .intermediate ∨ node.usage = .const) (hdesc : node.desc.setOrder order = .ok desc) :
    g.Framed phase (g.modifyData d fun node => { node with desc }) := by
  refine modifyData (fun x hx => ?_) fun _ => rfl
  rw [hnode, Option.some.injEq] at hx
  exact hx ▸ .reordered hdesc husage

/-! ### Scales -/

theorem askScale {id : StageId} {scales : List F32} {step : ScaleStep} {report : Report F32}
    (h : g.askScale id scales step = .ok (report, g')) : g.Framed .scale g' := by
  obtain ⟨site, attrs, hsite, hscale, rfl⟩ := askScale_eq_ok h
  refine modifyStage fun s hs => ?_
  rw [(site_eq_ok.1 hsite).1, Option.some.injEq] at hs
  subst hs
  exact ⟨rfl, rfl, rfl, .inl rfl, Site.scale_attrKept hscale⟩

theorem meetScale {scales scales' : Scales} {edge : EdgeId} {wanted : Option F32}
    (h : Graph.meetScale (scales, g) edge wanted = .ok ((scales', g'), changed)) : g.Framed phase g' := by
  rcases meetScale_eq_ok h with rfl | ⟨_, _, _, _, _, _, _, _, _, _, _, hadd, hled⟩
  · exact .refl
  · exact ((pushData rfl).trans (.added hadd)).trans (.inputLed hled)

theorem scaleConst {edge : EdgeId} {scale : Option F32} (h : g.scaleConst edge scale = .ok (g', changed)) :
    g.Framed phase g' := by
  rcases scaleConst_eq_ok h with rfl | ⟨_, _, _, _, _, _, _, _, _, _, _, _, rfl | ⟨_, _, _, hplace, rfl⟩, hled⟩
  · exact .refl
  · exact .inputLed hled
  · exact (pushData hplace).trans (.inputLed hled)

theorem descaleOutput {scales : Scales} {d : DataId} (h : Graph.descaleOutput scales g d = .ok (g', changed)) :
    g.Framed phase g' := by
  rcases descaleOutput_eq_ok h with rfl | ⟨_, new, _, _, _, _, _, g₁, g₂, _, _, hnew, hled, _, hmove, _, hadd⟩
  · exact .refl
  have moved : g₁.Framed phase g₂ := by
    refine Outcome.foldlM_keeps (fun _ x => g₁.Framed phase x) (fun _ _ x x' hx h => ?_) .refl hmove
    obtain ⟨_, h⟩ := replaceInput_led h
    exact hx.trans (.inputLed h)
  have hplace : new.location = none := by rw [hnew]; rfl
  exact (((pushData hplace).trans (.outputLed hled)).trans moved).trans (.added hadd)

theorem scalePropagation (h : Pass.scalePropagation.run config g = .ok (g', changed)) : g.Framed .scale g' := by
  simp only [Pass.scalePropagation] at h
  split at h
  · simp only [propagateScales, Outcome.bind_eq_ok, Outcome.pure_eq_ok, Prod.mk.injEq] at h
    obtain ⟨order, _, ⟨⟨scales, g₁⟩, _⟩, hstages, ⟨g₂, _⟩, houtputs, rfl, _⟩ := h
    have step {x x' : Graph} (hx : g.Framed .scale x) (hstep : x.Framed .scale x') :
        g.Framed .scale x' ∧ x.Extends x' := ⟨hx.trans hstep, hstep.keepsSlots⟩
    have visited := Pass.sweepWith_keeps (fun _ state => g.Framed .scale state.2)
      (fun _ _ _ _ _ hx hvisit => scaleStage_keeps (I := g.Framed .scale)
        (fun hx h => step hx (.askScale h)) (fun hx _ _ h => step hx (.meetScale h))
        (fun hx _ _ h => step hx (.scaleConst h)) hx hvisit)
      .refl hstages
    exact Pass.sweep_keeps (fun _ x => g.Framed .scale x) (fun _ _ _ _ _ hx h => hx.trans (.descaleOutput h))
      visited houtputs
  · cases h
    exact .refl

/-! ### Stubs -/

theorem replaceStubs (h : Pass.replaceStubs.run config g = .ok (g', changed)) : g.Framed .lowering g' := by
  refine Pass.sweep_keeps (fun _ x => g.Framed .lowering x) (fun id _ x x' _ hx hlower => hx.trans ?_) .refl h
  obtain ⟨s, f, hs, rfl, hslots, hlowered⟩ := lowerStage_eq_ok hlower
  refine modifyStage fun s' hs' => ?_
  rw [hs, Option.some.injEq] at hs'
  subst hs'
  exact .lowered hlowered (hslots s)

/-! ### Orders -/

theorem permutedCopy {permuted permuted' : Permuted} {d t : DataId} {order : Order}
    (h : Graph.permutedCopy permuted g d order = .ok (t, permuted', g')) : g.Framed phase g' := by
  rcases permutedCopy_eq_ok h with ⟨_, _, rfl⟩ | ⟨_, _, _, _, _, _, _, _, _, hadd⟩
  · exact .refl
  · exact (pushData rfl).trans (.added hadd)

theorem orderInput {permuted permuted' : Permuted} {edge : EdgeId} {wanted : Option Order}
    (h : InputOrdered g edge permuted wanted permuted' g') : g.Framed phase g' := by
  cases h with
  | unwanted | met => exact .refl
  | inPlace _ hnode hconst _ hdesc => exact .reordered hnode (.inr hconst) hdesc
  | duplicated _ _ _ _ _ _ hled => exact (pushData rfl).trans (.inputLed hled)
  | copied _ _ _ _ hcopy hled => exact (permutedCopy hcopy).trans (.inputLed hled)

/-- What a stage writes is an intermediate if the caller does not see it. -/
theorem orderOutput {edge : EdgeId} {wanted : Option Order} {id : StageId} {s : Stage} (wf : g.WellFormed)
    (hs : g.stage? id = some s) (he : edge ∈ s.outputs) (h : OutputOrdered g edge wanted g') :
    g.Framed phase g' := by
  cases h with
  | unwanted | met => exact .refl
  | staged _ _ _ hled hadd => exact ((pushData rfl).trans (.outputLed hled)).trans (.added hadd)
  | inPlace hr hnode hunseen hdesc =>
    have hwritten := wf.usage_of_written ⟨id, s, hs, he, target?_of_edge? hr⟩ hnode
    exact .reordered hnode (.inl (hwritten.resolve_left hunseen)) hdesc

theorem dataOrder (wf : g.WellFormed) (h : Pass.dataOrder.run config g = .ok (g', changed)) :
    g.Framed phase g' := by
  obtain ⟨_, _, framed⟩ := dataOrder_keeps (I := fun permuted x => Ordering g permuted x ∧ g.Framed phase x)
    (fun hid hx hs he h => by
      obtain ⟨o, hext⟩ := hx.1.orderInput hid hs he h
      exact ⟨⟨o, hx.2.trans (.orderInput h)⟩, hext⟩)
    (fun hid hx hs he h => by
      obtain ⟨o, hext⟩ := hx.1.orderOutput hid hs he h
      exact ⟨⟨o, hx.2.trans (.orderOutput hx.1.orderly.wellFormed hs he h)⟩, hext⟩)
    (fun _ horder => ⟨(wf.orderly horder).ordering, .refl⟩) h
  exact framed

/-! ### Strides -/

theorem setReq (d : DataId) (req : StrideReq) : g.Framed phase (g.setReq d req) :=
  modifyData (fun _ _ => .of_desc rfl rfl rfl) fun _ => rfl

theorem meetWriter {reqs : EdgeReqs} {current current' : StrideReq} {d : DataId}
    (h : g.meetWriter reqs d current = .ok (current', g', changed)) : g.Framed phase g' := by
  cases meetWriter_eq_ok h with
  | silent | merged => exact .refl
  | staged _ _ _ _ _ _ _ hplace hled hadd => exact ((pushData hplace).trans (.outputLed hled)).trans (.added hadd)

theorem meetReader {reqs : EdgeReqs} {current current' : StrideReq} {d : DataId} {reader : EdgeId × Nat}
    (h : Graph.meetReader reqs d (current, g) reader = .ok ((current', g'), changed)) : g.Framed phase g' := by
  cases meetReader_eq_ok h with
  | silent | merged => exact .refl
  | copied _ _ _ _ _ _ _ hplace hadd hled => exact ((pushData hplace).trans (.added hadd)).trans (.inputLed hled)

theorem resolveStrides {reqs : EdgeReqs} {d : DataId} (h : g.resolveStrides reqs d = .ok (g', changed)) :
    g.Framed phase g' := by
  simp only [Graph.resolveStrides, Outcome.bind_eq_ok, data_eq_ok] at h
  obtain ⟨node, _, h⟩ := h
  split at h
  · cases h
    exact .refl
  simp only [Outcome.bind_eq_ok, Outcome.pure_eq_ok, Prod.mk.injEq] at h
  obtain ⟨⟨current, g₁, _⟩, hwriter, ⟨⟨current', g₂⟩, _⟩, hreaders, rfl, _⟩ := h
  have read := Pass.sweepWith_keeps (fun _ state => g.Framed phase state.2)
    (fun _ _ _ _ _ hx h => hx.trans (.meetReader h)) (meetWriter hwriter) hreaders
  exact read.trans (.setReq _ _)

theorem strides (h : Pass.strides.run config g = .ok (g', changed)) : g.Framed phase g' := by
  simp only [Pass.strides, Outcome.bind_eq_ok] at h
  obtain ⟨reqs, _, h⟩ := h
  exact Pass.sweep_keeps (fun _ x => g.Framed phase x) (fun _ _ _ _ _ hx h => hx.trans (.resolveStrides h)) .refl h

/-! ### Layout and memory -/

theorem finalizeLayout {id : StageId} {f : StageFamily} (h : g.finalizeLayout id f = .ok g') :
    g.Framed phase g' := by
  rcases finalizeLayout_eq_ok h with rfl | ⟨order, h⟩
  · exact .refl
  rcases reorderConst_eq_ok h with rfl | ⟨_, _, _, _, _, _, _, _, hnode, hconst, hdesc,
    ⟨_, rfl⟩ | ⟨_, _, _, _, _, _, hled⟩⟩
  · exact .refl
  · exact .reordered hnode (.inr hconst) hdesc
  · exact (pushData rfl).trans (.inputLed hled)

theorem finalizeLayoutPass (h : Pass.finalizeLayout.run config g = .ok (g', changed)) : g.Framed phase g' := by
  simp only [Pass.finalizeLayout, finalizeStages, Outcome.bind_eq_ok, Outcome.pure_eq_ok, Prod.mk.injEq] at h
  obtain ⟨g₁, ⟨order, _, hstages⟩, g₂, hstrides, rfl, _⟩ := h
  have settled : g.Framed phase g₁ := by
    refine Outcome.foldlM_keeps (fun _ x => g.Framed phase x) (fun id _ x x' hx h => ?_) .refl hstages
    obtain ⟨_, _, h⟩ := Outcome.bind_eq_ok.1 h
    exact hx.trans (.finalizeLayout h)
  refine Outcome.foldlM_keeps (fun _ x => g.Framed phase x) (fun id _ x x' hx h => hx.trans ?_) settled hstrides
  obtain ⟨_, _, _, _, rfl⟩ := computeStrides_eq_ok h
  exact modifyData (fun _ _ => .of_desc rfl rfl rfl) fun _ => rfl

theorem checkAll {check : StageFamily → Site → Outcome Unit} (h : Pass.checkAll check g = .ok (g', changed)) :
    g.Framed phase g' := by
  simp only [Pass.checkAll, Outcome.bind_eq_ok, Outcome.pure_eq_ok, Prod.mk.injEq] at h
  obtain ⟨_, _, _, _, rfl, _⟩ := h
  exact .refl

end Framed

/-! ## Splitting batches -/

theorem Unplaced.pushAll (u : g.Unplaced) {nodes : List Data} (hnodes : ∀ node ∈ nodes, node.location = none) :
    (g.pushAll nodes).Unplaced := by
  intro d node hd
  simp only [data?, Graph.pushAll, Array.getElem?_append] at hd
  split at hd
  · exact u d node hd
  · exact hnodes node (List.mem_of_getElem? (by simpa using hd))

/-- Every tensor is what it was, and no places are given out; a stage is one that was there,
unchanged, or a new one. -/
structure Thinned (g g' : Graph) : Prop where
  tensors : g.KeepsTensors g'
  unplaced : g.Unplaced → g'.Unplaced
  stages : ∀ id s, g'.stage? id = some s → g.stage? id = some s ∨ g.stages.size ≤ id.index
  size : g.stages.size ≤ g'.stages.size

namespace Thinned

theorem refl : g.Thinned g := ⟨.refl, fun h => h, fun _ _ hs => .inl hs, Nat.le_refl _⟩

theorem trans (h : g.Thinned g') (h' : g'.Thinned g'') : g.Thinned g'' := by
  refine ⟨h.tensors.trans h'.tensors, fun hg => h'.unplaced (h.unplaced hg), fun id s hs => ?_,
    Nat.le_trans h.size h'.size⟩
  rcases h'.stages id s hs with hs | hnew
  · exact h.stages id s hs
  · exact .inr (Nat.le_trans h.size hnew)

theorem removed {z : StageId} {s : Stage} (h : Removed g z s g') : g.Thinned g' := by
  refine ⟨.of_map h.data? fun _ _ => ⟨rfl, rfl, rfl⟩, fun hg => hg.of_map h.data? fun _ _ => rfl,
    fun id s' hs' => ?_, Nat.le_of_eq h.size.symm⟩
  rw [h.stage?] at hs'
  split at hs'
  · cases hs'
  · exact .inl hs'

theorem added {template : StageTemplate} {inputs outputs : List DataId} {z : StageId}
    (h : Added g template inputs outputs z g') : g.Thinned g' := by
  refine ⟨.added h, fun hg => hg.of_map h.data? fun _ _ => rfl, fun id s hs => ?_,
    by rw [h.size]; exact Nat.le_succ _⟩
  rw [h.stage?] at hs
  split at hs
  next hz => exact .inr (by rw [hz, h.id])
  · exact .inl hs

/-- The items of a batch have no places yet. -/
theorem items (name : String) (desc : Desc) (indices : List Nat) :
    g.Thinned (g.pushAll (itemNodes name desc indices)) := by
  refine ⟨.pushAll _, fun hg => hg.pushAll fun node hnode => ?_, fun _ _ hs => .inl hs, Nat.le_refl _⟩
  obtain ⟨_, _, rfl⟩ := List.mem_map.1 hnode
  rfl

theorem addBatchStage {name : String} {kind : StageKind} {inputs outputs : List DataId}
    (h : g.addBatchStage name kind inputs outputs = .ok g') : g.Thinned g' := by
  obtain ⟨z, attrs, _, hadd⟩ := addBatchStage_axis h
  exact .added hadd

theorem addClones {template : StageTemplate} {extra : List DataId} {items : List (DataId × DataId)}
    (h : g.addClones template extra items = .ok g') : g.Thinned g' := by
  refine Outcome.foldlM_keeps (fun _ x => g.Thinned x) (fun item _ x x' hx hadd => ?_) .refl h
  simp only [Outcome.bind_eq_ok, Outcome.pure_eq_ok] at hadd
  obtain ⟨⟨z, _⟩, hadd, rfl⟩ := hadd
  exact hx.trans (.added (addStage_added hadd))

theorem splitStage {id : StageId} {batch : Nat} (h : g.splitStage id batch = .ok g') : g.Thinned g' := by
  obtain ⟨s, _, _, _, _, _, _, _, g₁, g₂, g₃, g₄, g₅, _, _, _, _, hremoved, ⟨_, _, hg₂⟩, ⟨_, _, hg₃⟩, hsplit,
    hclones, hconcat⟩ := splitStage_eq_ok h
  have split : g.Thinned g₃ := by
    rw [hg₃, hg₂]
    exact ((removed hremoved).trans (.items _ _ _)).trans (.items _ _ _)
  exact ((split.trans (.addBatchStage hsplit)).trans (.addClones hclones)).trans (.addBatchStage hconcat)

theorem adjustBatch (h : Pass.adjustBatch.run config g = .ok (g', changed)) : g.Thinned g' := by
  simp only [Pass.adjustBatch, Outcome.bind_eq_ok] at h
  obtain ⟨order, _, h⟩ := h
  refine Pass.sweep_keeps (fun _ x => g.Thinned x) (fun id _ x x' _ hx hvisit => ?_) .refl h
  obtain ⟨_, _, ⟨_, rfl⟩ | ⟨batch, _, hvisit⟩⟩ := adjustBatch_eq_ok hvisit
  · exact hx
  · exact hx.trans (.splitStage hvisit)

end Thinned

/-! ## Every pass -/

/-- Allocation gives out places and leaves all else alone. -/
theorem allocateMemory_kept {phase : Phase} (h : Pass.allocateMemory.run config g = .ok (g', changed)) :
    g.KeepsTensors g' ∧ ∀ id s s', g.stage? id = some s → g'.stage? id = some s' → s.Kept phase s' := by
  obtain ⟨place, _, _, hplaced⟩ := allocateMemory_eq_ok h
  refine ⟨.of_map hplaced fun _ _ => ⟨rfl, rfl, rfl⟩, fun id s s' hs hs' => ?_⟩
  simp only [Pass.allocateMemory, Outcome.bind_eq_ok, Outcome.pure_eq_ok, Prod.mk.injEq] at h
  obtain ⟨plan, _, rfl, _⟩ := h
  obtain ⟨datas, heq, _⟩ := setLocations_eq plan g
  rw [heq] at hs'
  obtain rfl : s = s' := Option.some.inj (hs.symm.trans hs')
  exact .refl

/-- A pass that goes through on a well-formed graph keeps every tensor, and of every stage that
it does not take out it changes no more than its phase may. -/
theorem WellFormed.kept_by_pass {p : Pass} (wf : g.WellFormed) (hp : p ∈ Pass.standard)
    (h : p.run config g = .ok (g', changed)) :
    (∀ d node, g.data? d = some node → ∃ node', g'.data? d = some node' ∧ node.Kept node') ∧
      ∀ id s s', g.stage? id = some s → g'.stage? id = some s' → s.Kept p.phase s' := by
  have framed {phase : Phase} (f : g.Framed phase g') : g.KeepsTensors g' ∧
      ∀ id s s', g.stage? id = some s → g'.stage? id = some s' → s.Kept phase s' := by
    refine ⟨f.tensors, fun id s s' hs hs' => ?_⟩
    obtain ⟨s'', hs'', kept⟩ := f.stages id s hs
    rw [hs', Option.some.injEq] at hs''
    exact hs'' ▸ kept
  simp only [Pass.standard, List.mem_cons, List.not_mem_nil, or_false] at hp
  rcases hp with rfl | rfl | rfl | rfl | rfl | rfl | rfl | rfl | rfl
  · exact framed (.checkAll h)
  · have t := Thinned.adjustBatch h
    refine ⟨t.tensors, fun id s s' hs hs' => ?_⟩
    rcases t.stages id s' hs' with hs'' | hnew
    · rw [hs, Option.some.injEq] at hs''
      exact hs'' ▸ .refl
    · exact absurd (lt_of_stage? hs) (Nat.not_lt.2 hnew)
  · exact framed (.scalePropagation h)
  · exact framed (.replaceStubs h)
  · exact framed (.dataOrder wf h)
  · exact framed (.strides h)
  · exact framed (.finalizeLayoutPass h)
  · exact allocateMemory_kept h
  · exact framed (.checkAll h)

end Graph

/-- The stubs of the two images are lowered, and nothing else becomes of them. -/
theorem Network.twoImages_kept_by_lowering :
    ∃ g g' : Graph, g.WellFormed ∧ Pass.replaceStubs.run {} g = .ok (g', true) ∧
      (∀ d node, g.data? d = some node → ∃ node', g'.data? d = some node' ∧ node.Kept node') ∧
        ∀ id s s', g.stage? id = some s → g'.stage? id = some s' → s.Kept .lowering s' := by
  have hall : (do return (← Pass.replaceStubs.run {} (← twoImages.graph {})).2) = Except.ok true := by
    decide +kernel
  simp only [Outcome.bind_eq_ok, Outcome.pure_eq_ok] at hall
  obtain ⟨g, hg, ⟨g', changed⟩, hstubs, rfl⟩ := hall
  have wf := Network.graph_wellFormed hg
  exact ⟨g, g', wf, hstubs, wf.kept_by_pass (by simp [Pass.standard]) hstubs⟩

end NetLower
