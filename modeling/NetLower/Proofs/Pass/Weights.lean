/-
Weights after the final layout.  Stages settle their weights one after the other; a constant
that has several readers is duplicated for each that wants it in another order, until one
reader is left.  In the end every stage has its weights in the order it wants, whoever shared
them, and every slot has the values it had.
-/
import NetLower.Proofs.Graph.Sites
import NetLower.Proofs.Network.Layers
import NetLower.Proofs.Pass.Layout
import NetLower.Proofs.Tensor

namespace NetLower

theorem HardwareOp.isWeightable_iff {op : HardwareOp} :
    op.isWeightable = true ↔ op = .conv ∨ op = .fullyConnected := by
  cases op <;> decide

namespace Site

/-- Convolutions want their weights with the channel innermost. -/
def WantsInterleaved (s : Site) : Prop := s.kind = .convolution ∨ s.kind = .deconvolution

/-- The hardware wants its weights in canonical order. -/
def WantsCanonical (s : Site) : Prop :=
  s.kind = .hardware ∧ (s.hardwareOp = .ok .conv ∨ s.hardwareOp = .ok .fullyConnected)

/-- What the final layout makes of the tensor at a slot: the constant at input slot 1 is brought
into the order that the stage wants, if it wants one, and nothing else changes. -/
structure Lays (s : Site) (kind : EdgeKind) (k : Nat) (d d' : Data) : Prop where
  role : d'.role = d.role
  dtype : d'.desc.dtype = d.desc.dtype
  dims : d'.desc.dims = d.desc.dims
  interleaved : kind = .input → k = 1 → d.usage = .const → s.WantsInterleaved →
    Order.interleaved d.desc.rank = .ok d'.desc.order
  canonical : kind = .input → k = 1 → d.usage = .const → s.WantsCanonical →
    Order.canonical d.desc.rank = .ok d'.desc.order
  order : (kind = .input → k = 1 → d.usage = .const → ¬ s.WantsInterleaved ∧ ¬ s.WantsCanonical) →
    d'.desc.order = d.desc.order

end Site

/-- What the layout minds of a tensor. -/
def Data.substance (d : Data) : Desc × Role := (d.desc, d.role)

theorem Data.substance_eq {d c : Data} : d.substance = c.substance ↔ d.desc = c.desc ∧ d.role = c.role :=
  Prod.mk.injEq .. ▸ Iff.rfl

/-- What a stage wants is a matter of its own, and of the substance of its tensors. -/
theorem Site.Lays.congr {s t : Site} {kind : EdgeKind} {k : Nat} {d d' c c' : Data} (h : s.Lays kind k d d')
    (hstage : t.stage = s.stage) (hsub : c.substance = d.substance) (hsub' : c'.substance = d'.substance) :
    t.Lays kind k c c' := by
  obtain ⟨hdesc, hrole⟩ := Data.substance_eq.1 hsub
  obtain ⟨hdesc', hrole'⟩ := Data.substance_eq.1 hsub'
  have husage : c.usage = d.usage := congrArg Role.usage hrole
  obtain ⟨stage, inputs, outputs⟩ := t
  subst hstage
  refine ⟨?_, ?_, ?_, ?_, ?_, ?_⟩
  · rw [hrole, hrole', h.role]
  · rw [hdesc, hdesc', h.dtype]
  · rw [hdesc, hdesc', h.dims]
  · rw [hdesc, hdesc', husage]
    exact h.interleaved
  · rw [hdesc, hdesc', husage]
    exact h.canonical
  · rw [hdesc, hdesc', husage]
    exact h.order

namespace Graph

variable {g g' : Graph} {id : StageId} {s : Stage} {site : Site} {e x : EdgeId} {node : Data} {order : Order}

/-- A constant is reordered for one edge; whatever else leads to it finds it as it was. -/
theorem ConstReordered.tensor (wf : g.WellFormed) (h : ConstReordered g e order g') (hs : g.stage? id = some s)
    (he : e ∈ s.inputs) {id' : StageId} {s' : Stage} {kind : EdgeKind} (hs' : g.stage? id' = some s')
    (hx : x ∈ s'.slots kind) (hnode : g.tensor? x = some node) :
    ∃ node', g'.tensor? x = some node' ∧ node'.role = node.role ∧ node'.desc.dtype = node.desc.dtype ∧
      node'.desc.dims = node.desc.dims ∧
      node'.desc.order = if x = e ∧ node.usage = .const then order else node.desc.order := by
  obtain ⟨d, hd, hnode⟩ := tensor?_eq_some.1 hnode
  cases h with
  | @met r old hr hold hmet =>
    refine ⟨node, tensor?_eq_some.2 ⟨d, hd, hnode⟩, rfl, rfl, rfl, ?_⟩
    split
    next hxe =>
      obtain ⟨rfl, hconst⟩ := hxe
      rw [target?_of_edge? hr, Option.some.injEq] at hd
      rw [hd, hnode, Option.some.injEq] at hold
      exact hold ▸ hmet (hold ▸ hconst)
    · rfl
  | @inPlace r old desc hr hold hconst hdesc hone =>
    obtain ⟨hdtype, hdims, horder⟩ := Desc.setOrder_eq_ok hdesc
    by_cases hsame : d = r.data
    · subst hsame
      rw [hnode, Option.some.injEq] at hold
      subst hold
      -- The constant is read once, so this is the edge it is read by.
      obtain ⟨_, rfl⟩ := wf.only_edge hnode hconst hone ⟨id, s, hs, he, target?_of_edge? hr⟩ ⟨id', s', hs', hx, hd⟩
      refine ⟨{ node with desc }, tensor?_eq_some.2 ⟨r.data, hd, ?_⟩, rfl, hdtype, hdims, ?_⟩
      · rw [data?_modifyData, if_pos rfl, hnode, Option.map_some]
      · exact horder.trans (if_pos ⟨rfl, hconst⟩).symm
    · refine ⟨node, tensor?_eq_some.2 ⟨d, hd, ?_⟩, rfl, rfl, rfl, ?_⟩
      · rw [data?_modifyData, if_neg hsame, hnode]
      · refine (if_neg fun hxe => hsame ?_).symm
        rw [hxe.1, target?_of_edge? hr, Option.some.injEq] at hd
        exact hd.symm
  | @duplicated r r' old desc name content needed _ hr hold hrole hdesc _ _ hled =>
    obtain ⟨hdtype, hdims, horder⟩ := Desc.setOrder_eq_ok hdesc
    by_cases hxe : x = e
    · subst hxe
      rw [target?_of_edge? hr, Option.some.injEq] at hd
      rw [hd, hnode, Option.some.injEq] at hold
      subst hold
      have hdata := hled.data? (g.pushData { name, desc, role := .const content }).1
      rw [data?_pushData_self, Option.map_some] at hdata
      refine ⟨_, tensor?_eq_some.2 ⟨_, by rw [hled.target?, if_pos rfl], hdata⟩, hrole.symm, hdtype, hdims, ?_⟩
      exact horder.trans (if_pos ⟨rfl, congrArg Role.usage hrole⟩).symm
    · have hdata := hled.data? d
      rw [data?_pushData_old hnode, Option.map_some] at hdata
      refine ⟨_, tensor?_eq_some.2 ⟨d, ?_, hdata⟩, rfl, rfl, rfl, ?_⟩
      · rw [hled.target?, if_neg hxe]
        exact hd
      · exact (if_neg fun h => hxe h.1).symm

/-- The tensor at an input slot, looked up in the graph. -/
theorem input_of_lookup {k : Nat} {d : DataId} (hsite : g.site id = .ok site) (hd : g.inputData id k = .ok d)
    (hnode : g.data d = .ok node) : site.inputs[k]? = some node := by
  obtain ⟨s, e, hs, he, ht⟩ := inputData_eq_ok.1 hd
  rw [(site_eq_ok.1 hsite).1, Option.some.injEq] at hs
  subst hs
  exact (slot_of_site hsite he).trans ((tensor?_of_target? ht).trans (data_eq_ok.1 hnode))

/-- A stage reorders its weights if it wants them in some order, and else does nothing. -/
theorem finalizeLayout_cases (hsite : g.site id = .ok site) (h : g.finalizeLayout id site.kind.family = .ok g') :
    (∃ w order, site.inputs[1]? = some w ∧ g.reorderConst id 1 order = .ok g' ∧
      (site.WantsInterleaved ∧ ¬ site.WantsCanonical ∧ Order.interleaved w.desc.rank = .ok order ∨
        site.WantsCanonical ∧ ¬ site.WantsInterleaved ∧ Order.canonical w.desc.rank = .ok order)) ∨
      ¬ site.WantsInterleaved ∧ ¬ site.WantsCanonical ∧ g' = g := by
  unfold Site.WantsInterleaved Site.WantsCanonical
  cases hkind : site.kind <;> simp only [hkind, StageKind.family, Graph.finalizeLayout, Outcome.bind_eq_ok,
    Outcome.pure_eq_ok] at h
  case convolution | deconvolution =>
    obtain ⟨_, ⟨d, hd, w, hw, rfl⟩, order, horder, h⟩ := h
    exact .inl ⟨w, order, input_of_lookup hsite hd hw, h, .inl ⟨by simp, by simp, horder⟩⟩
  case hardware =>
    obtain ⟨site', hsite', op, hop, h⟩ := h
    rw [hsite, Except.ok.injEq] at hsite'
    subst hsite'
    rw [hop, Except.ok.injEq, Except.ok.injEq, ← HardwareOp.isWeightable_iff]
    split at h
    next hweights =>
      simp only [Outcome.bind_eq_ok, Outcome.pure_eq_ok] at h
      obtain ⟨_, ⟨d, hd, w, hw, rfl⟩, order, horder, h⟩ := h
      exact .inl ⟨w, order, input_of_lookup hsite hd hw, h, .inr ⟨⟨rfl, hweights⟩, by simp, horder⟩⟩
    next hnone => exact .inr ⟨by simp, fun hwants => hnone hwants.2, (Except.ok.inj h).symm⟩
  case stubConv | stubFullyConnected | stubDeconv | stubMaxPool | stubAvgPool =>
    obtain ⟨_, _, h⟩ := h
    cases h
  all_goals exact .inr ⟨by simp, by simp, h.symm⟩

/-- One stage settles its weights; all other slots keep what they have. -/
theorem finalizeLayout_tensor (wf : g.WellFormed) (hsite : g.site id = .ok site)
    (h : g.finalizeLayout id site.kind.family = .ok g') {id' : StageId} {s' : Stage} {kind : EdgeKind} {k : Nat}
    (hs' : g.stage? id' = some s') (hx : (s'.slots kind)[k]? = some x) (hnode : g.tensor? x = some node) :
    ∃ node', g'.tensor? x = some node' ∧ (id' ≠ id → node'.substance = node.substance) ∧
      (id' = id → site.Lays kind k node node') := by
  rcases finalizeLayout_cases hsite h with ⟨w, order, hw, hreorder, hwants⟩ | ⟨hinterleaved, hcanonical, rfl⟩
  · obtain ⟨s, e, hs, he, hreordered⟩ := reorderConst_reordered hreorder
    obtain ⟨node', hnode', hrole, hdtype, hdims, horder⟩ := hreordered.tensor wf hs (List.mem_of_getElem? he) hs'
      (List.mem_of_getElem? hx) hnode
    refine ⟨node', hnode', fun hne => ?_, fun hid => ?_⟩
    · have hxe : x ≠ e := by
        rintro rfl
        exact hne (wf.owner_unique hs' (List.mem_of_getElem? hx) hs
          (List.mem_of_getElem? he : x ∈ s.slots .input)).1
      rw [if_neg fun h => hxe h.1] at horder
      exact Prod.ext (Desc.ext hdtype hdims horder) hrole
    · subst hid
      rw [hs, Option.some.injEq] at hs'
      subst hs'
      have hstage : site.stage = s := Option.some.inj ((site_eq_ok.1 hsite).1.symm.trans hs)
      have hweights (hkind : kind = .input) (hk : k = 1) : x = e ∧ w = node := by
        subst hkind hk
        have hxe : x = e := Option.some.inj (hx.symm.trans he)
        have hslot := slot_of_site hsite (show (site.stage.slots .input)[1]? = some x from hstage ▸ hx)
        exact ⟨hxe, Option.some.inj (hw.symm.trans (hslot.trans hnode))⟩
      refine ⟨hrole, hdtype, hdims, fun hkind hk hconst hinterleaved => ?_, fun hkind hk hconst hcanonical => ?_,
        fun hother => ?_⟩
      · obtain ⟨hxe, rfl⟩ := hweights hkind hk
        rw [horder, if_pos ⟨hxe, hconst⟩]
        rcases hwants with ⟨_, _, horder⟩ | ⟨_, hnot, _⟩
        · exact horder
        · exact absurd hinterleaved hnot
      · obtain ⟨hxe, rfl⟩ := hweights hkind hk
        rw [horder, if_pos ⟨hxe, hconst⟩]
        rcases hwants with ⟨_, hnot, _⟩ | ⟨_, _, horder⟩
        · exact absurd hcanonical hnot
        · exact horder
      · rw [horder]
        refine if_neg fun hxe => ?_
        obtain ⟨rfl, hconst⟩ := hxe
        obtain ⟨hkind, hk⟩ := wf.slot_unique hs (show (s.slots .input)[1]? = some x from he) hx
        obtain ⟨hinterleaved, hcanonical⟩ := hother hkind hk hconst
        rcases hwants with ⟨hwants, _⟩ | ⟨hwants, _⟩
        · exact hinterleaved hwants
        · exact hcanonical hwants
  · exact ⟨node, hnode, fun _ => rfl, fun _ => ⟨rfl, rfl, rfl, fun _ _ _ hwants => absurd hwants hinterleaved,
      fun _ _ _ hwants => absurd hwants hcanonical, fun _ => rfl⟩⟩

/-! ## All stages -/

/-- A graph whose stages are being settled: those of the rest are as they were. -/
structure Laying (g₀ : Graph) (rest : List StageId) (g : Graph) : Prop where
  orderly : g.Orderly
  nodup : rest.Nodup
  stage? : ∀ id, g.stage? id = g₀.stage? id
  tensor : ∀ id site kind k e node, g₀.site id = .ok site → (site.stage.slots kind)[k]? = some e →
    g₀.tensor? e = some node → ∃ node', g.tensor? e = some node' ∧ (id ∈ rest → node'.substance = node.substance) ∧
      (id ∉ rest → site.Lays kind k node node')

theorem Laying.step {g₀ : Graph} {rest : List StageId} (l : Laying g₀ (id :: rest) g) (hs : g.stage? id = some s)
    (h : g.finalizeLayout id s.kind.family = .ok g') : Laying g₀ rest g' := by
  obtain ⟨site, hsite, rfl⟩ := l.orderly.wellFormed.site_of_stage hs
  obtain ⟨hnew, hnodup⟩ := List.nodup_cons.1 l.nodup
  refine ⟨l.orderly.finalizeLayout h, hnodup, fun x => (finalizeLayout_stage? h x).trans (l.stage? x), ?_⟩
  intro id' site' kind k e node hsite' he hnode
  have hs' := (site_eq_ok.1 hsite').1
  obtain ⟨mid, hmid, hkept, hlaid⟩ := l.tensor id' site' kind k e node hsite' he hnode
  obtain ⟨node', hnode', hother, hthis⟩ := finalizeLayout_tensor l.orderly.wellFormed hsite h
    ((l.stage? id').trans hs') he hmid
  refine ⟨node', hnode', fun hid => ?_, fun hid => ?_⟩
  · have hne : id' ≠ id := fun heq => hnew (heq ▸ hid)
    exact (hother hne).trans (hkept (List.mem_cons_of_mem _ hid))
  · by_cases heq : id' = id
    · subst heq
      have hstage : site'.stage = site.stage := Option.some.inj (hs'.symm.trans ((l.stage? id').symm.trans hs))
      exact (hthis rfl).congr hstage (hkept List.mem_cons_self).symm rfl
    · exact (hlaid (by simp [heq, hid])).congr rfl rfl (hother heq)

theorem WellFormed.finalizeStages_laying (wf : g.WellFormed) (h : g.finalizeStages = .ok g') : Laying g [] g' := by
  obtain ⟨order, horder, h⟩ := Outcome.bind_eq_ok.1 h
  have hperm := runOrder_perm horder
  refine Outcome.foldlM_keeps (Laying g) (fun id rest x x' l hstep => ?_)
    ⟨wf.orderly horder, ?_, fun _ => rfl, ?_⟩ h
  · obtain ⟨s, hs, hstep⟩ := Outcome.bind_eq_ok.1 hstep
    exact l.step (stage_eq_ok.1 hs) hstep
  · exact hperm.nodup_iff.2 nodup_liveIds
  · intro id site kind k e node hsite _ hnode
    have hlive : id ∈ order := hperm.mem_iff.2 (mem_liveIds.2 ⟨_, (site_eq_ok.1 hsite).1⟩)
    exact ⟨node, hnode, fun _ => rfl, fun hid => absurd hlive hid⟩

/-- The same stages, with a tensor of the same substance at every edge. -/
structure SameSubstance (g g' : Graph) : Prop where
  stage? : ∀ id, g'.stage? id = g.stage? id
  tensor : ∀ e node, g.tensor? e = some node → ∃ node', g'.tensor? e = some node' ∧
    node'.substance = node.substance

theorem SameSubstance.refl : SameSubstance g g := ⟨fun _ => rfl, fun _ node hnode => ⟨node, hnode, rfl⟩⟩

theorem SameSubstance.trans {g'' : Graph} (h : SameSubstance g g') (h' : SameSubstance g' g'') :
    SameSubstance g g'' := by
  refine ⟨fun id => (h'.stage? id).trans (h.stage? id), fun e node hnode => ?_⟩
  obtain ⟨mid, hmid, hsub⟩ := h.tensor e node hnode
  obtain ⟨node', hnode', hsub'⟩ := h'.tensor e mid hmid
  exact ⟨node', hnode', hsub'.trans hsub⟩

theorem SameSubstance.computeStrides {d : DataId} (h : g.computeStrides d = .ok g') : SameSubstance g g' := by
  obtain ⟨_, _, strides, _, rfl⟩ := computeStrides_eq_ok h
  refine ⟨fun _ => rfl, fun e node hnode => ?_⟩
  obtain ⟨t, ht, hnode⟩ := tensor?_eq_some.1 hnode
  have hdata := data?_modifyData (g := g) d (fun node => { node with strides := some strides }) t
  rw [hnode, Option.map_some] at hdata
  by_cases hd : t = d
  · rw [if_pos hd] at hdata
    exact ⟨_, tensor?_eq_some.2 ⟨t, ht, hdata⟩, rfl⟩
  · rw [if_neg hd] at hdata
    exact ⟨node, tensor?_eq_some.2 ⟨t, ht, hdata⟩, rfl⟩

/-- After the final layout of a graph every stage has its weights in the order it wants, whoever
shared them before: a constant at input slot 1 is interleaved for a convolution or deconvolution,
and canonical for a convolution or full connection of the hardware. The stages are the same, at
every slot there is a tensor of the same role, values, type and sizes, and at every other slot it
has the same order. -/
theorem WellFormed.finalizeLayout_lays_weights {config : Config} {changed : Bool} (wf : g.WellFormed)
    (h : Pass.finalizeLayout.run config g = .ok (g', changed)) :
    (∀ id, g'.stage? id = g.stage? id) ∧
      ∀ id site, g.site id = .ok site → ∃ site', g'.site id = .ok site' ∧ site'.stage = site.stage ∧
        ∀ kind k d, (site.slots kind)[k]? = some d → ∃ d', (site'.slots kind)[k]? = some d' ∧
          site.Lays kind k d d' := by
  have hrun := h
  simp only [Pass.finalizeLayout, Outcome.bind_eq_ok, Outcome.pure_eq_ok, Prod.mk.injEq] at h
  obtain ⟨g₁, hstages, g₂, hstrides, rfl, _⟩ := h
  have laid := wf.finalizeStages_laying hstages
  obtain ⟨order, horder, -⟩ := Outcome.bind_eq_ok.1 hstages
  have wf₂ := ((wf.orderly horder).finalizeLayoutPass hrun).wellFormed
  have same : SameSubstance g₁ g₂ :=
    Outcome.foldlM_keeps (fun _ x => SameSubstance g₁ x) (fun _ _ _ _ hx h => hx.trans (.computeStrides h))
    .refl hstrides
  refine ⟨fun id => (same.stage? id).trans (laid.stage? id), fun id site hsite => ?_⟩
  have hs : g₂.stage? id = some site.stage :=
    (same.stage? id).trans ((laid.stage? id).trans (site_eq_ok.1 hsite).1)
  obtain ⟨site', hsite', hsame⟩ := wf₂.site_of_stage hs
  refine ⟨site', hsite', hsame, fun kind k d hd => ?_⟩
  obtain ⟨e, he, hnode⟩ := edge_of_site hsite hd
  obtain ⟨mid, hmid, -, hlays⟩ := laid.tensor id site kind k e d hsite he hnode
  obtain ⟨d', hd', hsub⟩ := same.tensor e mid hmid
  exact ⟨d', (slot_of_site hsite' (hsame ▸ he)).trans hd', (hlays List.not_mem_nil).congr rfl rfl hsub⟩

/-- Weights of which memory holds neither of the two orders. -/
def looseWeights : Data where
  name := "weights"
  desc :=
    { dtype := .f16, dims := [2, 2, 1, 1], order := { memory := [.n, .c, .h, .w] }, fits := ⟨.nchw, rfl, rfl⟩ }
  role := .const #[⟨0x3f800000⟩, ⟨0x40000000⟩, ⟨0x40400000⟩, ⟨0x40800000⟩]

/-- An input, the weights and two outputs. -/
def unconnected : Graph :=
  let column : Desc := { dtype := .f16, dims := [1, 2, 1, 1], order := .nchw, fits := ⟨.nchw, rfl, rfl⟩ }
  let g := (Graph.pushData { name := "shared weights" } { name := "x", desc := column, role := .input }).2
  let g := (g.pushData looseWeights).2
  let g := (g.pushData { name := "y", desc := column, role := .output }).2
  (g.pushData { name := "z", desc := column, role := .output }).2

/-- The weights are read by a convolution in software and by one in hardware. -/
def shareWeights : Outcome Graph := do
  let (_, g) ← unconnected.addStage { name := "software", kind := .convolution } [⟨0⟩, ⟨1⟩] [⟨2⟩]
  let (_, g) ← g.addStage
    { name := "hardware", kind := .hardware, attrs := ⟨[⟨.hwOpKind, .int HardwareOp.conv.code, rfl⟩]⟩ }
    [⟨0⟩, ⟨1⟩] [⟨3⟩]
  return g

theorem shareWeights_wellFormed (h : shareWeights = .ok g) : g.WellFormed := by
  simp only [shareWeights, Outcome.bind_eq_ok, Outcome.pure_eq_ok] at h
  obtain ⟨⟨z, g₁⟩, hsoftware, ⟨z', g₂⟩, hhardware, rfl⟩ := h
  have wf : unconnected.WellFormed :=
    ((((wellFormed_empty _).pushData rfl rfl).pushData rfl rfl).pushData rfl rfl).pushData rfl rfl
  exact (wf.added (addStage_added hsoftware) (by decide)).added (addStage_added hhardware) (by decide)

/-- The convolution in software is given a copy, and the one in hardware keeps the weights; both are
in the order that is wanted. -/
theorem shareWeights_lays_weights :
    ∃ g g' changed software hardware w w', shareWeights = .ok g ∧ g.WellFormed ∧
      Pass.finalizeLayout.run {} g = .ok (g', changed) ∧
      g'.site ⟨0⟩ = .ok software ∧ software.inputs[1]? = some w ∧ w.desc.order = .nhwc ∧
      g'.site ⟨1⟩ = .ok hardware ∧ hardware.inputs[1]? = some w' ∧ w'.desc.order = .nchw ∧
      w.role = w'.role ∧ w.desc.dims = w'.desc.dims := by
  have hrun : (do Pass.finalizeLayout.run {} (← shareWeights)).isOk = true := by decide +kernel
  obtain ⟨⟨g', changed⟩, hrun⟩ := Outcome.isOk_iff.1 hrun
  obtain ⟨g, hg, hrun⟩ := Outcome.bind_eq_ok.1 hrun
  have wf := shareWeights_wellFormed hg
  obtain ⟨-, hlays⟩ := wf.finalizeLayout_lays_weights hrun
  have hfacts : (do
      let software ← (← shareWeights).site ⟨0⟩
      return (software.kind, software.inputs[1]?.map Data.substance)) =
      Except.ok (.convolution, some looseWeights.substance) := by decide +kernel
  have hfacts' : (do
      let hardware ← (← shareWeights).site ⟨1⟩
      return (hardware.kind, ← hardware.hardwareOp, hardware.inputs[1]?.map Data.substance)) =
      Except.ok (.hardware, .conv, some looseWeights.substance) := by decide +kernel
  simp only [hg, Outcome.bind_eq_ok, Outcome.pure_eq_ok, Prod.mk.injEq, Except.ok.injEq, exists_eq_left',
    Option.map_eq_some_iff] at hfacts hfacts'
  obtain ⟨software, hsoftware, hkind, w, hw, hsub⟩ := hfacts
  obtain ⟨hardware, hhardware, op, hop, hkind', rfl, w', hw', hsub'⟩ := hfacts'
  obtain ⟨software', hsite, -, hslots⟩ := hlays ⟨0⟩ software hsoftware
  obtain ⟨hardware', hsite', -, hslots'⟩ := hlays ⟨1⟩ hardware hhardware
  obtain ⟨v, hv, laid⟩ := hslots .input 1 w hw
  obtain ⟨v', hv', laid'⟩ := hslots' .input 1 w' hw'
  have laid : software.Lays .input 1 looseWeights v := laid.congr rfl hsub.symm rfl
  have laid' : hardware.Lays .input 1 looseWeights v' := laid'.congr rfl hsub'.symm rfl
  have horder : v.desc.order = .nhwc := (Except.ok.inj (laid.interleaved rfl rfl rfl (.inl hkind))).symm
  have horder' : v'.desc.order = .nchw := (Except.ok.inj (laid'.canonical rfl rfl rfl ⟨hkind', .inl hop⟩)).symm
  exact ⟨g, g', changed, software', hardware', v, v', hg, wf, hrun, hsite, hv, horder, hsite', hv', horder',
    laid.role.trans laid'.role.symm, laid.dims.trans laid'.dims.symm⟩

end Graph

end NetLower
