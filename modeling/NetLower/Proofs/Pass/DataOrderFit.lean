/-
Settling orders gets done.  Stages that fit can have every order they ask for, they still
fit once they have it, and with it they pass the final check.
-/
import NetLower.Proofs.Graph.Possible
import NetLower.Proofs.Pass.OrderRest

namespace NetLower.Graph

open Outcome (FailsOnly Succeeds)

variable {g₀ g g' : Graph} {rest : List StageId} {edge : EdgeId} {slot : Nat} {b : StageId} {s : Stage} {r : Edge}
  {d t : DataId} {order : Order}

/-! ## Steps keep stages fit -/

section fits

variable {permuted permuted' : Permuted} {wanted : Option Order} {node : Data} {desc : Desc}

theorem Fits.setDesc (f : g.Fits Site.Real) (wf : g.WellFormed) (hnode : g.data? d = some node)
    (hdesc : node.desc.setOrder order = .ok desc) :
    (g.modifyData d fun node => { node with desc }).Fits Site.Real := by
  obtain ⟨hdtype, hdims, _⟩ := Desc.setOrder_eq_ok hdesc
  refine f.modifyData Site.stable_real wf (fun _ _ _ _ old _ _ hold => ?_) fun old hold => ?_
  all_goals
    rw [hnode, Option.some.injEq] at hold
    subst hold
  · exact .of_dims hdims hdtype .rfl fun _ => .rfl
  · exact fun hstocked => hstocked.setOrder hdims

theorem Fits.permutedCopy (f : g.Fits Site.Real) (wf : g.WellFormed) (hnode : g.data? d = some node)
    (hhalf : node.desc.dtype = .f16) (h : Graph.permutedCopy permuted g d order = .ok (t, permuted', g')) :
    g'.Fits Site.Real := by
  rcases permutedCopy_eq_ok h with ⟨_, _, rfl⟩ | ⟨x, desc, name, name', z, hx, hdesc, rfl, rfl, hadd⟩
  · exact f
  rw [hnode, Option.some.injEq] at hx
  subst hx
  obtain ⟨hdtype, hdims, _⟩ := Desc.setOrder_eq_ok hdesc
  have f₁ := f.pushData Site.stable_real wf (stocked_intermediate name desc)
  refine f₁.addRelay Site.stable_real (wf.pushIntermediate name desc) hadd (data?_pushData_old hnode)
    (data?_pushData_self _) fun site hrelay => ?_
  exact hrelay.real_permute rfl hhalf (hdtype.trans hhalf) hdims

theorem Fits.orderInput (f : g.Fits Site.Real) (st : Resting g₀ (b :: rest) permuted g) (hs : g.stage? b = some s)
    (hmem : edge ∈ s.slots .input) (h : InputOrdered g edge permuted wanted permuted' g') : g'.Fits Site.Real := by
  have wf := st.orderly.wellFormed
  cases h with
  | unwanted => exact f
  | met => exact f
  | inPlace _ hnode _ _ hdesc => exact f.setDesc wf hnode hdesc
  | @duplicated order r r' node desc name content needed g' hr hnode hconst hdesc hneeded hle hled =>
    obtain ⟨hdtype, hdims, _⟩ := Desc.setOrder_eq_ok hdesc
    have hr' := hled.edge
    rw [edge?_pushData, hr, Option.some.injEq] at hr'
    subst hr'
    exact f.moveToNew Site.stable_real wf rfl rfl (Data.stocked_of_total rfl hneeded hle) hled hnode
      (.constant hdims hdtype hconst)
  | @copied order r r' node copy _ g₁ g' hr hnode hconst hfake hcopy hled =>
    have hhalf := f.half (fun _ h => h.fit) wf ⟨b, s, hs, hmem, target?_of_edge? hr⟩ hnode
    obtain ⟨st₁, _, hcopyOf, looks⟩ := @Resting.permutedCopy g₀ g g₁ rest edge 0 b s r.data copy order permuted
      permuted' .input node st hs hmem hnode hcopy
    have hr' := hled.edge
    rw [(st.toOrdering.permutedCopy ⟨node, hnode⟩ hcopy).2.2.1 edge r hr, Option.some.injEq] at hr'
    subst hr'
    obtain ⟨x, hx, hlook⟩ := looks r.data node hnode
    have hu : x.usage = node.usage := congrArg Look.usage hlook
    obtain ⟨new, hnew, _, halike⟩ := hcopyOf.alike hx (hu ▸ hconst) (hu ▸ hfake)
    refine (f.permutedCopy wf hnode hhalf hcopy).inputLed Site.stable_real st₁.orderly.wellFormed hled
      fun old new' hold hnew' => ?_
    rw [hx, Option.some.injEq] at hold
    rw [hnew, Option.some.injEq] at hnew'
    exact hold ▸ hnew' ▸ halike r.slot

theorem Fits.orderOutput (f : g.Fits Site.Real) (o : g.Orderly) (hs : g.stage? b = some s)
    (hmem : edge ∈ s.slots .output) (h : OutputOrdered g edge wanted g') : g'.Fits Site.Real := by
  have wf := o.wellFormed
  cases h with
  | unwanted => exact f
  | met => exact f
  | inPlace _ hnode _ hdesc => exact f.setDesc wf hnode hdesc
  | @staged order r node desc name name' z g₁ g' hr hnode hdesc hled hadd =>
    obtain ⟨hdtype, hdims, _⟩ := Desc.setOrder_eq_ok hdesc
    have hjoins : g.Joins .output edge r.data := ⟨b, s, hs, hmem, target?_of_edge? hr⟩
    have hhalf := f.half (fun _ h => h.fit) wf hjoins hnode
    obtain ⟨wf₂, _, _⟩ := o.divert rfl rfl (.inr rfl) hled hs hmem
    obtain ⟨f₁, ⟨x, hx, hxlook⟩, y, hy, hylook⟩ :=
      f.divert Site.stable_real wf rfl rfl (stocked_intermediate name desc)
      hnode hled (.written hdims hdtype (wf.usage_of_written hjoins hnode))
    refine f₁.addRelay Site.stable_real wf₂ hadd hy hx fun site hrelay => ?_
    rw [hxlook, hylook] at hrelay
    exact hrelay.real_permute rfl (hdtype.trans hhalf) hhalf hdims.symm

end fits

/-! ## Steps succeed -/

section steps

variable {permuted permuted' : Permuted} {wanted : Option Order} {node : Data}

theorem addPermute_possible (hd : ∃ x, g.data? d = some x) (ht : g.data? t = some node)
    (hproducer : node.producer = none) (husage : node.usage = .output ∨ node.usage = .intermediate) :
    ∃ g', g.addPermute d t = .ok g' := by
  obtain ⟨z, g', hadd⟩ := @addStage_possible g { name := node.name ++ "@permute", kind := .permute } [d] [t]
    (by simpa using hd) (by simpa using ⟨node, ht, hproducer, husage⟩)
  exact ⟨g', Outcome.bind_eq_ok.2 ⟨node, data_eq_ok.2 ht, Outcome.bind_eq_ok.2 ⟨_, hadd, rfl⟩⟩⟩

theorem permutedCopy_possible (hnode : g.data? d = some node) (hallows : node.desc.Allows order) :
    ∃ t permuted' g', Graph.permutedCopy permuted g d order = .ok (t, permuted', g') := by
  unfold Graph.permutedCopy
  split
  · exact ⟨_, _, _, rfl⟩
  · obtain ⟨desc, hdesc⟩ := hallows.setOrder
    have h := addInOrder_eq_ok.2 ⟨node, desc, hnode, hdesc, rfl, rfl⟩
    obtain ⟨g₂, h'⟩ := addPermute_possible ⟨node, data?_pushData_old hnode⟩
      (@data?_pushData_self g (intermediate _ desc)) rfl (.inr rfl)
    exact ⟨_, _, g₂, Outcome.bind_eq_ok.2 ⟨_, h, Outcome.bind_eq_ok.2 ⟨g₂, h', rfl⟩⟩⟩

theorem Resting.orderInput_succeeds {pending : List StageId} (st : Resting g₀ pending permuted g)
    (hstocked : ∀ d node, g.data? d = some node → node.Stocked) (hr : g.edge? edge = some r)
    (hkind : r.kind = .input) (hnode : g.data? r.data = some node)
    (hallows : ∀ order, wanted = some order → node.desc.Allows order) :
    Succeeds (Graph.orderInput (permuted, g) edge wanted) := by
  cases wanted with
  | none => exact .of_eq_ok rfl
  | some order =>
  have hallows := hallows order rfl
  obtain ⟨desc, hdesc⟩ := hallows.setOrder
  refine .after (edge_eq_ok.2 hr) (.after (data_eq_ok.2 hnode) ?_)
  split
  · exact .of_eq_ok rfl
  split
  · exact .of_eq_ok rfl
  next hconst =>
    split
    · exact .after (setDataOrder_eq_ok.2 ⟨node, desc, hnode, hdesc, rfl⟩) (.pure _)
    · obtain ⟨copy, g₁, hcopy⟩ := @duplicate_possible g r.data node (orderSuffix order) desc hnode hconst
        (hstocked _ node hnode) (Desc.total_congr (Desc.setOrder_eq_ok hdesc).2.1)
      refine .after hdesc (.after hcopy ?_)
      obtain ⟨_, _, _, _, _, _, _, rfl, rfl⟩ := duplicate_eq_ok.1 hcopy
      obtain ⟨g₂, h⟩ := replaceInput_possible (g := (g.pushData _).2) hr hkind ⟨_, data?_pushData_self _⟩
      exact .after h (.pure _)
  · obtain ⟨copy, permuted', g₁, hcopy⟩ := @permutedCopy_possible g r.data order permuted node hnode hallows
    obtain ⟨o₁, _, hedge, z, _, relay⟩ := st.toOrdering.permutedCopy ⟨node, hnode⟩ hcopy
    obtain ⟨g₂, h⟩ := replaceInput_possible (hedge edge r hr) hkind
      (o₁.orderly.wellFormed.data_of_touches relay.writes)
    exact .after hcopy (.after h (.pure _))

theorem orderOutput_succeeds (hr : g.edge? edge = some r) (hkind : r.kind = .output)
    (hnode : g.data? r.data = some node) (hallows : ∀ order, wanted = some order → node.desc.Allows order) :
    Succeeds (g.orderOutput edge wanted) := by
  cases wanted with
  | none => exact .of_eq_ok rfl
  | some order =>
  have hallows := hallows order rfl
  obtain ⟨desc, hdesc⟩ := hallows.setOrder
  refine .after (edge_eq_ok.2 hr) (.after (data_eq_ok.2 hnode) ?_)
  split
  · exact .of_eq_ok rfl
  split
  next husage =>
    have hstaged := addInOrder_eq_ok.2 ⟨node, desc, hnode, hdesc, rfl, rfl⟩
    obtain ⟨g₂, h⟩ := replaceOutput_possible (g := (g.pushData _).2) hr hkind
      (@data?_pushData_self g (intermediate (node.name ++ orderSuffix order) desc)) rfl
    obtain ⟨r', hled⟩ := replaceOutput_led h
    have hr' := hled.edge
    rw [edge?_pushData, hr, Option.some.injEq] at hr'
    subst hr'
    have hne : r.data ≠ (g.pushData node).1 := ne_pushData hnode
    obtain ⟨new, hnew, _⟩ := hled.sameLooks.data_of (data?_pushData_self _)
    obtain ⟨g₃, h'⟩ := addPermute_possible ⟨new, hnew⟩ (hled.bereaved hne (data?_pushData_old hnode)) rfl
      (.inl husage)
    exact .after hstaged (.after h (.after h' (.pure _)))
  · exact .after (setDataOrder_eq_ok.2 ⟨node, desc, hnode, hdesc, rfl⟩) (.pure _)

end steps

/-! ## One stage -/

/-- What stands at an edge of the visited stage, and that it can have the order that is wanted. -/
theorem Visit.place {permuted : Permuted} {site : Site} {report : Report Order}
    {left : List (EdgeId × Option Order)} {wanted : Option Order} (kind : EdgeKind)
    (v : Visit g₀ b rest site report left permuted g) (hcan : site.CanHave report)
    (he : (site.stage.slots kind)[slot]? = some edge) (hw : (report.slots kind)[slot]? = some wanted) :
    ∃ d node, g.edge? edge = some ⟨kind, d, b, slot⟩ ∧ g.data? d = some node ∧
      ∀ order, wanted = some order → node.desc.Allows order := by
  obtain ⟨d, node, hedge, hnode⟩ := v.orderly.wellFormed.slots b site.stage kind slot edge v.stage he
  refine ⟨d, node, hedge, hnode, fun order hwanted => ?_⟩
  obtain ⟨site', hsite', heq⟩ := v.orderly.wellFormed.site_of_stage v.stage
  have hslot : (site'.slots kind)[slot]? = some node := by
    rw [slot_of_site hsite' (heq ▸ he), tensor?_of_target? (target?_of_edge? hedge), hnode]
  obtain ⟨old, hold, hrank, _⟩ := (v.like hsite').slot_of hslot
  exact (hcan kind slot order old (hwanted ▸ hw) hold).congr hrank

/-- A visit succeeds and keeps stages fit. -/
theorem Fits.orderStage {permuted : Permuted} (f : g.Fits Site.Real) (st : Resting g₀ (b :: rest) permuted g)
    (hb : g₀.Has b) (hnot : b ∉ rest) (hahead : ∀ c, g₀.Feeds b c → c ∈ rest) :
    Succeeds (Graph.orderStage (permuted, g) b) ∧
      ∀ {state here}, Graph.orderStage (permuted, g) b = .ok (state, here) → state.2.Fits Site.Real := by
  obtain ⟨s, hs, _⟩ := st.kept b _ hb.choose_spec
  obtain ⟨site, hsite, rfl⟩ := st.orderly.wellFormed.site_of_stage hs
  have real := f.all b site hsite
  obtain ⟨report, horders, hcan⟩ := real.fit.orders real.stub
  have reads : ∀ p left state state' here,
      (VisitReads g₀ b rest site report (p :: left) state ∧ state.2.Fits Site.Real) →
      Graph.orderInput state p.1 p.2 = .ok (state', here) →
      VisitReads g₀ b rest site report left state' ∧ state'.2.Fits Site.Real := by
    intro p left state state' here hstate h
    obtain ⟨k, he, _⟩ := mem_zip.1 (hstate.1.mem p (by simp))
    exact ⟨hstate.1.step hb hnot h, hstate.2.orderInput hstate.1.visit.toResting hstate.1.visit.stage
      (List.mem_of_getElem? he) (orderInput_eq_ok h)⟩
  have writes (permuted₁) : ∀ p left x x' here,
      (VisitWrites g₀ b rest site report permuted₁ (p :: left) x ∧ x.Fits Site.Real) →
      x.orderOutput p.1 p.2 = .ok (x', here) →
      VisitWrites g₀ b rest site report permuted₁ left x' ∧ x'.Fits Site.Real := by
    intro p left x x' here hx h
    obtain ⟨k, he, _⟩ := mem_zip.1 (hx.1.mem p (by simp))
    exact ⟨hx.1.step hb hnot hahead h, hx.2.orderOutput hx.1.visit.orderly hx.1.visit.stage
      (List.mem_of_getElem? he) (orderOutput_eq_ok h)⟩
  have read {permuted₁ g₁ here} (h : Pass.sweepWith (site.stage.inputs.zip report.inputs)
      (fun state x => Graph.orderInput state x.1 x.2) (permuted, g) = .ok ((permuted₁, g₁), here)) :
      VisitWrites g₀ b rest site report permuted₁ (site.stage.outputs.zip report.outputs) g₁ ∧
        g₁.Fits Site.Real := by
    obtain ⟨v, f₁⟩ := Pass.sweepWith_keeps
      (fun left state => VisitReads g₀ b rest site report left state ∧ state.2.Fits Site.Real) reads
      ⟨st.reads hsite, f⟩ h
    exact ⟨v.writes, f₁⟩
  constructor
  · refine .after hsite (.after horders (FailsOnly.bind ?_ ?_))
    · refine Pass.failsOnly_sweepWith
        (fun left state => VisitReads g₀ b rest site report left state ∧ state.2.Fits Site.Real) reads ?_
        ⟨st.reads hsite, f⟩
      rintro ⟨edge, wanted⟩ left ⟨permuted₁, g₁⟩ ⟨v, f₁⟩
      obtain ⟨k, he, hw⟩ := mem_zip.1 (v.mem (edge, wanted) (by simp))
      obtain ⟨d, node, hedge, hnode, hallows⟩ := v.visit.place .input hcan he hw
      exact v.visit.toResting.orderInput_succeeds f₁.stocked hedge rfl hnode hallows
    · rintro ⟨⟨permuted₁, g₁⟩, _⟩ hread
      refine FailsOnly.bind (Pass.failsOnly_sweep
        (fun left x => VisitWrites g₀ b rest site report permuted₁ left x ∧ x.Fits Site.Real) (writes permuted₁) ?_
        (read hread)) fun _ _ => .pure _
      rintro ⟨edge, wanted⟩ left x ⟨v, _⟩
      obtain ⟨k, he, hw⟩ := mem_zip.1 (v.mem (edge, wanted) (by simp))
      obtain ⟨d, node, hedge, hnode, hallows⟩ := v.visit.place .output hcan he hw
      exact orderOutput_succeeds hedge rfl hnode hallows
  · intro state here h
    simp only [Graph.orderStage, Outcome.bind_eq_ok, Outcome.pure_eq_ok, Prod.mk.injEq] at h
    obtain ⟨site', hsite', report', horders', ⟨⟨permuted₁, g₁⟩, _⟩, hread, ⟨g₂, _⟩, hwrite, rfl, _⟩ := h
    rw [hsite, Except.ok.injEq] at hsite'
    subst hsite'
    rw [horders, Except.ok.injEq] at horders'
    subst horders'
    exact (Pass.sweep_keeps (fun left x => VisitWrites g₀ b rest site report permuted₁ left x ∧ x.Fits Site.Real)
      (writes permuted₁) (read hread) hwrite).2

/-! ## The pass -/

/-- Settling orders succeeds, and then every stage has the orders it needs. -/
theorem Fits.dataOrder (f : g.Fits Site.Real) (o : g.Orderly) (config : Config) :
    Succeeds (Pass.dataOrder.run config g) ∧ ∀ {g' changed}, Pass.dataOrder.run config g = .ok (g', changed) →
      g'.Fits Site.Done := by
  obtain ⟨order, horder⟩ := o.runOrder
  let I (pending : List StageId) (state : Permuted × Graph) : Prop :=
    Resting g pending state.1 state.2 ∧ state.2.Fits Site.Real ∧ ∃ done, order = done ++ pending
  have start : I order ([], g) := ⟨o.resting horder, f, [], rfl⟩
  have visit {b rest state} (h : I (b :: rest) state) :
      Succeeds (Graph.orderStage state b) ∧ ∀ {state' here}, Graph.orderStage state b = .ok (state', here) →
        I rest state' := by
    obtain ⟨st, f, done, hsplit⟩ := h
    obtain ⟨hb, hnot, hahead⟩ := o.wellFormed.ahead horder hsplit
    obtain ⟨hvisit, hfits⟩ := f.orderStage st hb hnot hahead
    exact ⟨hvisit, fun h => ⟨st.orderStage hb hnot hahead h, hfits h, done ++ [b], by simp [hsplit]⟩⟩
  constructor
  · refine .after horder (FailsOnly.bind ?_ fun _ _ => .pure _)
    exact Pass.failsOnly_sweepWith I (fun _ _ _ _ _ hI h => (visit hI).2 h) (fun _ _ _ hI => (visit hI).1) start
  · intro g' changed h
    have atRest {id site} := @WellFormed.dataOrder_atRest g g' id config changed site o.wellFormed h
    have wf' := (o.dataOrder h).wellFormed
    simp only [Pass.dataOrder, Outcome.bind_eq_ok, Outcome.pure_eq_ok, Prod.mk.injEq] at h
    obtain ⟨order', horder', ⟨⟨permuted, g₁⟩, _⟩, h, rfl, _⟩ := h
    rw [horder, Except.ok.injEq] at horder'
    subst horder'
    obtain ⟨_, f', _⟩ := Pass.sweepWith_keeps I (fun _ _ _ _ _ hI h => (visit hI).2 h) start h
    refine ⟨fun id site hsite => ?_, f'.stocked⟩
    have real := f'.all id site hsite
    refine ⟨real.fit, real.stub, (atRest hsite).settled real.fit real.copy fun d hd => ?_⟩
    obtain ⟨k, hk⟩ := List.mem_iff_getElem?.1 hd
    obtain ⟨e, x, he, hedge, hnode⟩ := wf'.edge_of_slot hsite (show (site.slots .output)[k]? = some d from hk)
    exact wf'.written_at (site_eq_ok.1 hsite).1 (List.mem_of_getElem? he) hedge hnode

end NetLower.Graph
