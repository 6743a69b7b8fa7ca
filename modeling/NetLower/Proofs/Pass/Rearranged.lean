/-
Scale propagation, orders, strides, layout and allocation rearrange a graph and do nothing
else to it.
-/
import NetLower.Proofs.Graph.Rearranged
import NetLower.Proofs.Pass.DataOrder
import NetLower.Proofs.Pass.Memory
import NetLower.Proofs.Pass.ScaleFit
import NetLower.Proofs.Pass.Strides

namespace NetLower.Graph

variable {g₀ g g' : Graph} {id b : StageId} {s : Stage} {edge : EdgeId} {d t : DataId} {changed : Bool}

theorem loose_intermediate (name : String) (desc : Desc) : (intermediate name desc).Loose := ⟨rfl, rfl, rfl, rfl⟩

/-! ## Scales -/

theorem Rearranged.askScale {scales : List F32} {step : ScaleStep} {report : Report F32} (h : g₀.Rearranged g)
    (wf : g.WellFormed) (hask : g.askScale id scales step = .ok (report, g')) : g₀.Rearranged g' := by
  obtain ⟨site, attrs, hsite, hscale, rfl⟩ := askScale_eq_ok hask
  refine h.step wf (.setAttrs fun s hs => ?_)
  rw [(site_eq_ok.1 hsite).1, Option.some.injEq] at hs
  subst hs
  rcases Site.scale_attrs hscale with hsame | hpower
  · exact .inr hsame
  · refine .inl ?_
    revert hpower
    show site.stage.kind.family = .power → _
    cases site.stage.kind <;> decide

theorem Rearranged.meetScale {scales scales' : Scales} {wanted : Option F32} (h : g₀.Rearranged g)
    (wf : g.WellFormed) (hmeet : Graph.meetScale (scales, g) edge wanted = .ok ((scales', g'), changed)) :
    g₀.Rearranged g' := by
  rcases meetScale_eq_ok hmeet with rfl | ⟨r, node, suffix, template, z, g₁, r', hr, hnode, _, ⟨hkind, _⟩,
    hadd, hled⟩
  · exact h
  have hr' := hled.edge
  rw [hadd.edge? edge r hr, Option.some.injEq] at hr'
  exact h.tap wf (loose_intermediate _ _) hadd (by rw [hkind]; rfl) hled (hr' ▸ rfl) hnode rfl

theorem Rearranged.scaleConst {scale : Option F32} (h : g₀.Rearranged g) (wf : g.WellFormed)
    (hfold : g.scaleConst edge scale = .ok (g', changed)) : g₀.Rearranged g' := by
  rcases scaleConst_eq_ok hfold with rfl | ⟨r, node, scaled, t, r', g₁, hr, hnode, _, ht, husage, hdesc,
    hgraph, hled⟩
  · exact h
  have hout : scaled.outer? = none := Data.outer?_eq_none.2 (by rw [husage]; decide)
  have hdims : scaled.desc.dims = node.desc.dims := congrArg Desc.dims hdesc
  rcases hgraph with rfl | ⟨_, hc, hp, hl, rfl⟩
  · have hr' := hled.edge
    rw [hr, Option.some.injEq] at hr'
    exact h.step wf (.readElsewhere hled ⟨node, scaled, hr' ▸ hnode, ht, hdims⟩)
  · have hr' := hled.edge
    rw [edge?_pushData, hr, Option.some.injEq] at hr'
    refine (h.step wf (.push ⟨hc, hp, hout, hl⟩)).step (wf.pushData hc hp)
      (.readElsewhere hled ⟨node, scaled, ?_, ht, hdims⟩)
    exact data?_pushData_old (hr' ▸ hnode)

theorem Rearranged.descaleOutput {scales : Scales} (h : g₀.Rearranged g) (o : g.Orderly)
    (hdescale : Graph.descaleOutput scales g d = .ok (g', changed)) : g₀.Rearranged g' := by
  rcases descaleOutput_eq_ok hdescale with rfl | ⟨node, new, edge, r, node₁, template, z, g₁, g₂, hnode, hproducer,
    rfl, hled, hnode₁, hmove, hkind, hadd⟩
  · exact h
  have wf := o.wellFormed
  obtain ⟨b, s, hs, he, ht⟩ := (wf.producer d node edge hnode).1 hproducer
  rw [target?_of_edge? (show g.edge? edge = some r from hled.edge), Option.some.injEq] at ht
  subst ht
  obtain ⟨wf₁, level, _⟩ := o.divert rfl rfl (.inr rfl) hled hs he
  have h₁ := h.divert wf (loose_intermediate _ _) hled hnode rfl
  have shape :=
    (@sameShape_pushData g r.data (intermediate (node.name ++ "@scaled") node.desc) node hnode rfl).kept
    hled.sameLooks.keeps.shapes
  -- One reader after the other moves to the new tensor, which keeps its shape.
  obtain ⟨wf₂, _, h₂, _⟩ := level.moveAll wf₁ (wf₁.nodup _ node₁ hnode₁)
    (I := fun x => g₀.Rearranged x ∧ x.SameShape r.data
      (g.pushData (intermediate (node.name ++ "@scaled") node.desc)).1)
    (fun x hx => (wf₁.consumers _ node₁ x hnode₁).1 hx) ⟨h₁, shape⟩
    (fun wf hI hled hdata => ⟨hI.1.step wf (.readElsewhere hled (hdata ▸ hI.2)),
      hI.2.kept hled.sameLooks.keeps.shapes⟩)
    hmove
  exact h₂.step wf₂ (.relay hadd (by rw [hkind]; rfl))

theorem Orderly.scalePropagation_rearranged {config : Config} (o : g.Orderly)
    (h : Pass.scalePropagation.run config g = .ok (g', changed)) : g.Rearranged g' := by
  simp only [Pass.scalePropagation] at h
  split at h
  · simp only [propagateScales, Outcome.bind_eq_ok, Outcome.pure_eq_ok, Prod.mk.injEq] at h
    obtain ⟨order, _, ⟨⟨scales, g₁⟩, _⟩, hstages, ⟨g₂, _⟩, houtputs, rfl, _⟩ := h
    have visited := Pass.sweepWith_keeps (fun _ state => state.2.Orderly ∧ g.Rearranged state.2)
      (fun id _ state state' _ hstate hvisit => scaleStage_keeps (I := fun x => x.Orderly ∧ g.Rearranged x)
        (fun hx h => ⟨⟨(hx.1.askScale h).1, hx.2.askScale hx.1.wellFormed h⟩, (hx.1.askScale h).2⟩)
        (fun hx hs he h =>
          ⟨⟨(hx.1.meetScale hs he h).1, hx.2.meetScale hx.1.wellFormed h⟩, (hx.1.meetScale hs he h).2⟩)
        (fun hx hs he h =>
          ⟨⟨(hx.1.scaleConst hs he h).1, hx.2.scaleConst hx.1.wellFormed h⟩, (hx.1.scaleConst hs he h).2⟩)
        hstate hvisit)
      ⟨o, .refl⟩ hstages
    exact (Pass.sweep_keeps (fun _ x => x.Orderly ∧ g.Rearranged x)
      (fun _ _ _ _ _ hx h => ⟨hx.1.descaleOutput h, hx.2.descaleOutput hx.1 h⟩) visited houtputs).2
  · cases h
    exact .refl

/-! ## Orders -/

/-- Between two edges: the graph is rearranged, and copies have the shapes of what they were made
of. -/
structure Permuting (g₀ : Graph) (permuted : Permuted) (g : Graph) : Prop extends Ordering g₀ permuted g where
  rearranged : g₀.Rearranged g
  shapes : ∀ entry ∈ permuted, g.SameShape entry.1.1 entry.2

theorem Permuting.permutedCopy {permuted permuted' : Permuted} {order : Order} {node : Data}
    (p : Permuting g₀ permuted g) (hnode : g.data? d = some node)
    (h : Graph.permutedCopy permuted g d order = .ok (t, permuted', g')) :
    Permuting g₀ permuted' g' ∧ g'.SameShape d t := by
  have o := (p.toOrdering.permutedCopy ⟨node, hnode⟩ h).1
  rcases permutedCopy_eq_ok h with ⟨hmem, rfl, rfl⟩ | ⟨x, desc, name, name', z, hx, hdesc, rfl, rfl, hadd⟩
  · exact ⟨p, p.shapes _ hmem⟩
  rw [hnode, Option.some.injEq] at hx
  subst hx
  have hdims : (intermediate name desc).desc.dims = node.desc.dims := (Desc.setOrder_eq_ok hdesc).2.1
  have shape := (sameShape_pushData hnode hdims).kept hadd.sameLooks.keeps.shapes
  have keeps := ((keepsLooks_pushData (intermediate name desc)).trans hadd.sameLooks.keeps).shapes
  refine ⟨⟨o, p.rearranged.relayNew p.orderly.wellFormed (loose_intermediate _ _) hadd rfl, ?_⟩, shape⟩
  intro entry hentry
  rcases List.mem_cons.1 hentry with rfl | hentry
  · exact shape
  · exact (p.shapes entry hentry).kept keeps

theorem Permuting.reorder {permuted : Permuted} {order : Order} {node : Data} {desc : Desc}
    (p : Permuting g₀ permuted g) (hnode : g.data? d = some node) (hout : node.outer? = none)
    (hdesc : node.desc.setOrder order = .ok desc) :
    Permuting g₀ permuted (g.modifyData d fun node => { node with desc }) := by
  have hstep : g.Rearrange (g.modifyData d fun node => { node with desc }) := .reorder hnode hout hdesc
  exact ⟨p.sameLinks (.setDesc _ _), p.rearranged.step p.orderly.wellFormed hstep,
    fun entry hentry => (p.shapes entry hentry).kept hstep.keepsShapes⟩

theorem Permuting.orderInput {permuted permuted' : Permuted} {wanted : Option Order} (p : Permuting g₀ permuted g)
    (hb : ∃ s, g₀.stage? b = some s) (hs : g.stage? b = some s) (he : edge ∈ s.inputs)
    (h : InputOrdered g edge permuted wanted permuted' g') : Permuting g₀ permuted' g' ∧ g.Extends g' := by
  obtain ⟨o, hext⟩ := p.toOrdering.orderInput hb hs he h
  have wf := p.orderly.wellFormed
  refine ⟨?_, hext⟩
  cases h with
  | unwanted => exact p
  | met => exact p
  | inPlace _ hnode hconst _ hdesc =>
    exact p.reorder hnode (Data.outer?_eq_none.2 (by rw [hconst]; decide)) hdesc
  | @duplicated order r r' node desc name content needed g' hr hnode hconst hdesc _ _ hled =>
    have hr' := hled.edge
    rw [edge?_pushData, hr, Option.some.injEq] at hr'
    subst hr'
    refine ⟨o, p.rearranged.moveToNew wf ⟨rfl, rfl, rfl, rfl⟩ hled hnode (Desc.setOrder_eq_ok hdesc).2.1,
      fun entry hentry => ?_⟩
    exact (p.shapes entry hentry).kept ((keepsLooks_pushData _).trans hled.sameLooks.keeps).shapes
  | @copied order r r' node copy permuted' g₁ g' hr hnode _ _ hcopy hled =>
    obtain ⟨p₁, hshape⟩ := p.permutedCopy hnode hcopy
    have hr' := hled.edge
    rw [(p.toOrdering.permutedCopy ⟨node, hnode⟩ hcopy).2.2.1 edge r hr, Option.some.injEq] at hr'
    subst hr'
    have hstep : g₁.Rearrange g' := .readElsewhere hled hshape
    exact ⟨o, p₁.rearranged.step p₁.orderly.wellFormed hstep,
      fun entry hentry => (p₁.shapes entry hentry).kept hstep.keepsShapes⟩

theorem Permuting.orderOutput {permuted : Permuted} {wanted : Option Order} (p : Permuting g₀ permuted g)
    (hb : ∃ s, g₀.stage? b = some s) (hs : g.stage? b = some s) (he : edge ∈ s.outputs)
    (h : OutputOrdered g edge wanted g') : Permuting g₀ permuted g' ∧ g.Extends g' := by
  obtain ⟨o, hext⟩ := p.toOrdering.orderOutput hb hs he h
  have wf := p.orderly.wellFormed
  refine ⟨?_, hext⟩
  cases h with
  | unwanted => exact p
  | met => exact p
  | @staged order r node desc name name' z g₁ g' hr hnode hdesc hled hadd =>
    obtain ⟨wf₁, _, _⟩ := p.orderly.divert rfl rfl (.inr rfl) hled hs he
    have h₁ := p.rearranged.divert wf (loose_intermediate name desc) hled hnode (Desc.setOrder_eq_ok hdesc).2.1
    refine ⟨o, h₁.step wf₁ (.relay hadd rfl), fun entry hentry => (p.shapes entry hentry).kept ?_⟩
    exact ((keepsLooks_pushData _).trans (hled.sameLooks.trans hadd.sameLooks).keeps).shapes
  | @inPlace order r node desc hr hnode hunseen hdesc =>
    have hjoins : g.Joins .output edge r.data := ⟨b, s, hs, he, target?_of_edge? hr⟩
    refine p.reorder hnode (Data.outer?_eq_none.2 ⟨?_, hunseen⟩) hdesc
    rcases wf.usage_of_written hjoins hnode with hu | hu <;> simp [hu]

theorem Orderly.dataOrder_rearranged {config : Config} (o : g.Orderly)
    (h : Pass.dataOrder.run config g = .ok (g', changed)) : g.Rearranged g' := by
  obtain ⟨_, p⟩ := dataOrder_keeps (fun hid p hs he h => p.orderInput hid hs he h)
    (fun hid p hs he h => p.orderOutput hid hs he h)
    (fun _ _ => (⟨o.ordering, .refl, by simp⟩ : Permuting g [] g)) h
  exact p.rearranged

/-! ## Strides -/

theorem Rearrange.setReq (d : DataId) (req : StrideReq) : g.Rearrange (g.setReq d req) :=
  .touchUp (fun _ => rfl) (fun _ => rfl) (.modifyData fun _ => rfl) fun h => h.modifyData fun _ hnode => hnode

theorem Rearranged.meetWriter {reqs : EdgeReqs} {current current' : StrideReq} (h : g₀.Rearranged g)
    (o : g.Orderly) (hmeet : g.meetWriter reqs d current = .ok (current', g', changed)) : g₀.Rearranged g' := by
  cases meetWriter_eq_ok hmeet with
  | silent | merged => exact h
  | @staged node new edge req r name z g₁ _ hnode hproducer _ hc hp hlook _ hl hled hadd =>
    obtain ⟨b, s, hs, he, ht⟩ := (o.wellFormed.producer d node edge hnode).1 hproducer
    rw [target?_of_edge? (show g.edge? edge = some r from hled.edge), Option.some.injEq] at ht
    subst ht
    have hu : new.usage = .intermediate := congrArg Look.usage hlook
    obtain ⟨wf₁, _, _⟩ := o.divert hc hp (.inr hu) hled hs he
    have hout : new.outer? = none := Data.outer?_eq_none.2 (by rw [hu]; decide)
    have h₁ := h.divert o.wellFormed ⟨hc, hp, hout, hl⟩ hled hnode (congrArg (·.desc.dims) hlook)
    exact h₁.step wf₁ (.relay hadd rfl)

theorem Rearranged.meetReader {reqs : EdgeReqs} {current current' : StrideReq} {index : Nat} (h : g₀.Rearranged g)
    (wf : g.WellFormed) (hedge : g.Joins .input edge d)
    (hmeet : Graph.meetReader reqs d (current, g) (edge, index) = .ok ((current', g'), changed)) :
    g₀.Rearranged g' := by
  cases meetReader_eq_ok hmeet with
  | silent | merged => exact h
  | @copied node new req r name z g₁ _ _ _ hnode hc hp hlook _ hl hadd hled =>
    have hout : new.outer? = none :=
      Data.outer?_eq_none.2 (by rw [show new.usage = .intermediate from congrArg Look.usage hlook]; decide)
    obtain ⟨_, _, _, _, _, _, hr, _⟩ := wf.edge_of_joins hedge
    have hr' := hled.edge
    rw [hadd.edge? edge _ hr, Option.some.injEq] at hr'
    exact h.tap wf ⟨hc, hp, hout, hl⟩ hadd rfl hled (hr' ▸ rfl) hnode (congrArg (·.desc.dims) hlook)

theorem Rearranged.resolveStrides {reqs : EdgeReqs} (h : g₀.Rearranged g) (o : g.Orderly)
    (hresolve : g.resolveStrides reqs d = .ok (g', changed)) : g₀.Rearranged g' := by
  simp only [Graph.resolveStrides, Outcome.bind_eq_ok, data_eq_ok] at hresolve
  obtain ⟨node, hnode, hresolve⟩ := hresolve
  split at hresolve
  · cases hresolve
    exact h
  simp only [Outcome.bind_eq_ok, Outcome.pure_eq_ok, Prod.mk.injEq] at hresolve
  obtain ⟨⟨current, g₁, _⟩, hwriter, ⟨⟨current', g₂⟩, _⟩, hreaders, rfl, _⟩ := hresolve
  have done := Pass.sweepWith_keeps (Reading d fun state => g₀.Rearranged state.2)
    (fun x _ _ _ _ hr hmeet => hr.step
      (fun h => h.meetReader hr.orderly.wellFormed (hr.joins x (by simp)) hmeet) hmeet)
    (o.reading hnode hwriter (h.meetWriter o hwriter)) hreaders
  exact done.inv.step done.orderly.wellFormed (.setReq _ _)

theorem Orderly.strides_rearranged {config : Config} (o : g.Orderly)
    (h : Pass.strides.run config g = .ok (g', changed)) : g.Rearranged g' := by
  simp only [Pass.strides, Outcome.bind_eq_ok] at h
  obtain ⟨reqs, _, h⟩ := h
  exact (Pass.sweep_keeps (fun _ x => x.Orderly ∧ g.Rearranged x)
    (fun _ _ _ _ _ hx h => ⟨hx.1.resolveStrides h, hx.2.resolveStrides hx.1 h⟩) ⟨o, .refl⟩ h).2

/-! ## Layout and memory -/

theorem Rearranged.reorderConst {slot : Nat} {order : Order} (h : g₀.Rearranged g) (wf : g.WellFormed)
    (hreorder : g.reorderConst id slot order = .ok g') : g₀.Rearranged g' := by
  rcases reorderConst_eq_ok hreorder with rfl | ⟨s, e, r, node, desc, hs, he, hr, hnode, hconst, hdesc, ⟨_, rfl⟩ |
    ⟨content, _, name, r', _, _, hled⟩⟩
  · exact h
  · exact h.step wf (.reorder hnode (Data.outer?_eq_none.2 (by rw [hconst]; decide)) hdesc)
  · have hr' := hled.edge
    rw [edge?_pushData, hr, Option.some.injEq] at hr'
    exact h.moveToNew wf ⟨rfl, rfl, rfl, rfl⟩ hled (hr' ▸ hnode) (Desc.setOrder_eq_ok hdesc).2.1

theorem Orderly.finalizeLayoutPass_rearranged {config : Config} (o : g.Orderly)
    (h : Pass.finalizeLayout.run config g = .ok (g', changed)) : g.Rearranged g' := by
  simp only [Pass.finalizeLayout, finalizeStages, Outcome.bind_eq_ok, Outcome.pure_eq_ok, Prod.mk.injEq] at h
  obtain ⟨g₁, ⟨order, _, hstages⟩, g₂, hstrides, rfl, _⟩ := h
  have settled : g₁.Orderly ∧ g.Rearranged g₁ := by
    refine Outcome.foldlM_keeps (fun _ x => x.Orderly ∧ g.Rearranged x) (fun id _ x x' hx h => ?_)
      ⟨o, .refl⟩ hstages
    simp only [Outcome.bind_eq_ok] at h
    obtain ⟨_, _, h⟩ := h
    refine ⟨hx.1.finalizeLayout h, ?_⟩
    rcases finalizeLayout_eq_ok h with rfl | ⟨order, h⟩
    · exact hx.2
    · exact hx.2.reorderConst hx.1.wellFormed h
  refine (Outcome.foldlM_keeps (fun _ x => x.Orderly ∧ g.Rearranged x) (fun id _ x x' hx h => ?_) settled
    hstrides).2
  refine ⟨hx.1.sameLinks (.computeStrides h), hx.2.step hx.1.wellFormed ?_⟩
  obtain ⟨_, _, _, _, rfl⟩ := computeStrides_eq_ok h
  exact .touchUp (fun _ => rfl) (fun _ => rfl) (.modifyData fun _ => rfl) fun h =>
    h.modifyData fun _ hnode => hnode

theorem WellFormed.allocateMemory_rearranged {config : Config} (wf : g.WellFormed)
    (h : Pass.allocateMemory.run config g = .ok (g', changed)) : g.Rearranged g' := by
  obtain ⟨place, a, _, hplaced⟩ := allocateMemory_eq_ok h
  have hareas (hg : g.InAreas) : g'.InAreas := by
    intro id node hnode l hl
    rw [hplaced] at hnode
    obtain ⟨old, hold, rfl⟩ := Option.map_eq_some_iff.1 hnode
    have harea := a.area id old hold
    replace hl : (place id).or old.location = some l := hl
    rw [Option.or_eq_some_iff] at hl
    rcases hl with hl | ⟨_, hl⟩
    · rw [hl, Option.map_some] at harea
      exact (neededArea?_eq_some.1 harea.symm).1
    · exact hg id old hold l hl
  simp only [Pass.allocateMemory, Outcome.bind_eq_ok, Outcome.pure_eq_ok, Prod.mk.injEq] at h
  obtain ⟨plan, _, rfl, _⟩ := h
  obtain ⟨datas, heq, _⟩ := setLocations_eq plan g
  refine Rearranged.refl.step wf (.touchUp (fun _ => ?_) (fun _ => ?_) (.of_map hplaced fun _ _ => rfl) hareas)
  · rw [heq]
    rfl
  · rw [heq]
    rfl

end NetLower.Graph
