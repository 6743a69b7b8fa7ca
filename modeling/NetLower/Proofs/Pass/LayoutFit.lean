/-
Lowering, the final layout and the allocation run on graphs whose stages fit.  A stub
becomes a real stage that fits in its place; the layout reorders weights, which no check
minds; and by the time places are given out every tensor has its strides.
-/
import NetLower.Pass.Check
import NetLower.Proofs.Graph.Possible
import NetLower.Proofs.Pass.Layout
import NetLower.Proofs.Stage.Settled

namespace NetLower

open Outcome (FailsOnly Runs Succeeds)

/-! ## Stubs -/

section restage

variable {s : Site}

theorem Site.Unary.restage (h : s.Unary) (x : Stage) : Site.Unary { s with stage := x } := ⟨h.inputs, h.outputs⟩

theorem Site.Weighted.restage (h : s.Weighted) (x : Stage) : Site.Weighted { s with stage := x } :=
  ⟨h.inputs, h.outputs, h.solid, h.weights, h.biases⟩

/-- What a family needs at the slots has nothing to do with the stage between them. -/
theorem StageFamily.Suits.restage {f : StageFamily} (h : f.Suits s) (hf : f.sized = false) (x : Stage) :
    f.Suits { s with stage := x } := by
  cases f with
  | convolution => exact ⟨h.1.restage x, h.2⟩
  | fullyConnected => exact ⟨h.1.restage x, h.2⟩
  | pooling => exact ⟨h.1.restage x, h.2⟩
  | power => exact Site.Unary.restage h x
  | stub => exact h
  | hardware => exact h
  | permute => cases hf
  | copy => cases hf
  | split => cases hf
  | concat => cases hf

theorem HardwareOp.Suits.restage {op : HardwareOp} (h : op.Suits s) (x : Stage)
    (hwindow : x.attrs.window = s.attrs.window) : op.Suits { s with stage := x } := by
  refine ⟨?_, fun hop => ?_⟩
  · have hslots := h.slots
    split at hslots
    next hw =>
      rw [if_pos hw]
      exact hslots.restage x
    next hw =>
      rw [if_neg hw]
      exact ⟨hslots.1.restage x, hslots.2⟩
  · obtain ⟨⟨w, hw, hfast⟩, hrank⟩ := h.window hop
    exact ⟨⟨w, hwindow.trans hw, hfast⟩, hrank⟩

end restage

theorem HardwareOp.ofCode?_code (op : HardwareOp) : ofCode? op.code = some op := by
  cases op <;> decide

namespace Site

variable {s : Site} {op : Option HardwareOp} {software : StageKind}

theorem Lowerable.software_real (h : s.Lowerable op software) :
    software.isStub = false ∧ software ≠ .copy ∧ software.family.sized = false ∧ software.family ≠ .hardware := by
  have hlowering := h.lowering
  revert hlowering
  cases s.kind <;> intro hlowering <;> cases hlowering <;> decide

/-- A stub lowered to software. -/
theorem Lowerable.toSoftware (h : s.Lowerable op software) (half : s.Half) :
    Real { s with stage := { s.stage with kind := software } } := by
  obtain ⟨hstub, hcopy, hsized, hhard⟩ := h.software_real
  refine ⟨⟨⟨half, ?_⟩, hcopy⟩, hstub⟩
  have hsuits := h.software.restage hsized { s.stage with kind := software }
  split
  next hf => exact absurd hf (StageKind.family_ne_stub hstub)
  next hf => exact absurd hf hhard
  · exact hsuits

/-- A stub lowered to the hardware. -/
theorem Lowerable.toHardware {o : HardwareOp} {attrs : Attrs} (h : s.Lowerable op software) (half : s.Half)
    (hop : op = some o) (hon : s.attrs.isOn .tryHw = .ok true)
    (hattrs : s.attrs.set .hwOpKind (.int o.code) = .ok attrs) :
    Real { s with stage := { s.stage with kind := .hardware, attrs } } := by
  refine ⟨⟨⟨half, o, ?_, ?_⟩, nofun⟩, rfl⟩
  · have hcode : attrs.getInt .hwOpKind = .ok o.code :=
      Attrs.getInt_of_get? (by rw [Attrs.get?_set hattrs, if_pos rfl])
    simp only [hardwareOp, Outcome.bind_eq_ok]
    exact ⟨o.code, hcode, by rw [HardwareOp.ofCode?_code]; rfl⟩
  · exact (h.hardware hon o hop).restage _ (Attrs.window_set hattrs (by decide))

end Site

namespace Graph

variable {g g' : Graph} {id : StageId} {site : Site} {changed : Bool}

/-- A stub that fits can be lowered. -/
theorem lowerStage_of_stub (hsite : g.site id = .ok site) (hfit : site.Fit) (hstub : site.kind.isStub = true) :
    ∃ f, g.lowerStage id = .ok (g.modifyStage id f, true) ∧ (∀ s, (f s).slots = s.slots) ∧
      Site.Real { site with stage := f site.stage } := by
  obtain ⟨op, software, hlow⟩ : ∃ op software, site.Lowerable op software := by
    have hkind := hfit.2
    revert hkind hstub
    cases site.kind <;> intro hstub hkind
    case stubConv | stubFullyConnected | stubDeconv | stubMaxPool | stubAvgPool => exact hkind
    all_goals cases hstub
  have hs := (site_eq_ok.1 hsite).1
  have hstage := stage_eq_ok.2 hs
  have replaced (kind : StageKind) : g.replaceStage id kind = .ok (g.modifyStage id fun s => { s with kind }) := by
    simp only [replaceStage, hstage]
    rfl
  have toSoftware (h : g.lowerStage id = .ok (g.modifyStage id fun s => { s with kind := software }, true)) :
      ∃ f, g.lowerStage id = .ok (g.modifyStage id f, true) ∧ (∀ s, (f s).slots = s.slots) ∧
        Site.Real { site with stage := f site.stage } := ⟨_, h, fun _ => rfl, hlow.toSoftware hfit.1⟩
  have hlowering : site.stage.kind.lowering = .ok (op, software) := hlow.lowering
  obtain ⟨on, hon⟩ := @Attrs.isOn_eq_ok site.stage.attrs .tryHw rfl
  cases op with
  | none =>
    refine toSoftware ?_
    simp only [lowerStage, hstage, hon, hlowering, replaced, bind, Except.bind, pure, Except.pure]
  | some o =>
    cases on with
    | false =>
      refine toSoftware ?_
      simp only [lowerStage, hstage, hon, hlowering, replaced, bind, Except.bind, pure, Except.pure]
      rfl
    | true =>
      obtain ⟨attrs, hattrs⟩ := @Attrs.set_of_not_has site.attrs .hwOpKind (.int o.code) rfl hlow.unset
      refine ⟨fun s => { s with kind := .hardware, attrs }, ?_, fun _ => rfl,
        hlow.toHardware hfit.1 rfl hon hattrs⟩
      have hmoved : (g.modifyStage id fun s => { s with kind := .hardware }).stage id =
          .ok { site.stage with kind := .hardware } := by
        rw [stage_eq_ok, stage?_modifyStage, if_pos rfl, hs]
        rfl
      have hset : (g.modifyStage id fun s => { s with kind := .hardware }).setAttr id .hwOpKind (.int o.code) =
          .ok (g.modifyStage id fun s => { s with kind := .hardware, attrs }) := by
        simp only [setAttr, hmoved, Outcome.bind_eq_ok, Except.ok.injEq, exists_eq_left', Outcome.pure_eq_ok]
        exact ⟨attrs, hattrs, modifyStage_modifyStage _ _⟩
      simp only [lowerStage, hstage, hon, hlowering, replaced, hset, bind, Except.bind, pure, Except.pure, if_true]

/-- Between two stubs: what is still to be lowered are the stubs that are left. -/
structure Lowering (rest : List StageId) (g : Graph) : Prop where
  fits : g.Fits Site.Early
  wellFormed : g.WellFormed
  nodup : rest.Nodup
  stubs : ∀ id, id ∈ rest ↔ ∃ s, g.stage? id = some s ∧ s.kind.isStub = true

theorem mem_stubs : id ∈ g.stubs ↔ ∃ s, g.stage? id = some s ∧ s.kind.isStub = true := by
  simp only [stubs, List.mem_filterMap, Prod.exists, mem_liveStages, Option.ite_none_right_eq_some,
    Option.some.injEq]
  constructor
  · rintro ⟨_, s, hs, hstub, rfl⟩
    exact ⟨s, hs, hstub⟩
  · rintro ⟨s, hs, hstub⟩
    exact ⟨id, s, hs, hstub, rfl⟩

theorem nodup_stubs : g.stubs.Nodup := by
  have hstubs : g.stubs = (g.liveStages.filter fun x => x.2.kind.isStub).map Prod.fst := by
    rw [stubs]
    induction g.liveStages with
    | nil => rfl
    | cons x xs ih =>
      rw [List.filterMap_cons, List.filter_cons, ih]
      cases h : x.2.kind.isStub <;> simp [h]
  rw [hstubs]
  exact (List.filter_sublist.map Prod.fst).nodup nodup_liveIds

theorem Lowering.step {rest : List StageId} (h : Lowering (id :: rest) g) :
    ∃ g', g.lowerStage id = .ok (g', true) ∧ Lowering rest g' := by
  obtain ⟨s, hs, hstub⟩ := (h.stubs id).1 (by simp)
  obtain ⟨site, hsite, rfl⟩ := h.wellFormed.site_of_stage hs
  obtain ⟨f, hlower, hslots, hreal⟩ := lowerStage_of_stub hsite (h.fits.all id site hsite).fit hstub
  have hnodup := List.nodup_cons.1 h.nodup
  refine ⟨_, hlower, ?_, (SameLinks.modifyStage hslots).wellFormed h.wellFormed, hnodup.2, fun x => ?_⟩
  · refine h.fits.modifyStage Site.stable_early h.wellFormed fun site' hsite' => ?_
    obtain ⟨old, hold, rfl⟩ := site_modifyStage hslots hsite'
    rw [hsite, Except.ok.injEq] at hold
    exact hold ▸ hreal.toEarly
  · rw [stage?_modifyStage]
    by_cases hx : x = id
    · subst hx
      rw [if_pos rfl, hs]
      refine iff_of_false hnodup.1 ?_
      rintro ⟨_, hsome, hstub'⟩
      cases hsome
      exact absurd hreal.stub (by rw [Site.kind, hstub']; decide)
    · rw [if_neg hx, ← h.stubs x, List.mem_cons]
      simp [hx]

/-- Every stub can be lowered, and then there are none. -/
theorem Fits.replaceStubs (f : g.Fits Site.Early) (wf : g.WellFormed) (config : Config) :
    Succeeds (Pass.replaceStubs.run config g) ∧
      ∀ {g' changed}, Pass.replaceStubs.run config g = .ok (g', changed) → g'.Fits Site.Real := by
  have start : Lowering g.stubs g := ⟨f, wf, nodup_stubs, fun _ => mem_stubs⟩
  have step : ∀ id rest g g' here, Lowering (id :: rest) g → g.lowerStage id = .ok (g', here) →
      Lowering rest g' := by
    intro id rest g g' here h hlower
    obtain ⟨g₁, hlower₁, h₁⟩ := h.step
    rw [hlower₁, Except.ok.injEq, Prod.mk.injEq] at hlower
    exact hlower.1 ▸ h₁
  constructor
  · refine Pass.failsOnly_sweep Lowering step (fun id rest g h => ?_) start
    obtain ⟨_, hlower, _⟩ := h.step
    exact .of_eq_ok hlower
  · intro g' changed hrun
    have done := Pass.sweep_keeps Lowering step start hrun
    refine ⟨fun id site hsite => ⟨done.fits.all id site hsite, ?_⟩, done.fits.stocked⟩
    have hno := mt (done.stubs id).2 (by simp)
    cases hk : site.kind.isStub with
    | false => rfl
    | true => exact absurd ⟨_, (site_eq_ok.1 hsite).1, hk⟩ hno

/-! ## The final layout -/

/-- Weights may be reordered for the stage that reads them. -/
theorem Fits.reorderConst {slot : Nat} {order : Order} (f : g.Fits Site.Done) (wf : g.WellFormed)
    (hslot : slot ≠ 0) (h : g.reorderConst id slot order = .ok g') : g'.Fits Site.Done := by
  rcases reorderConst_eq_ok h with rfl | ⟨s, e, r, node, desc, hs, he, hr, hnode, hconst, hdesc, h⟩
  · exact f
  obtain ⟨hdtype, hdims, _⟩ := Desc.setOrder_eq_ok hdesc
  obtain ⟨_, _, hedge, _⟩ := wf.slots id s .input slot e hs he
  rw [hr, Option.some.injEq] at hedge
  have hfixed {new : Data} (hd : new.desc = desc) (hu : new.usage = node.usage) :
      Look.fixed .input slot node.look new.look := by
    refine ⟨.of_dims ?_ ?_ ?_ fun _ => ?_, fun h => absurd h hslot⟩
    · exact (congrArg Desc.dims hd).trans hdims
    · exact (congrArg Desc.dtype hd).trans hdtype
    · exact iff_of_eq (congrArg (· = Usage.fake) hu)
    · exact iff_of_eq (congrArg (· = Usage.const) hu)
  rcases h with ⟨hone, rfl⟩ | ⟨content, needed, name, r', hneeded, hle, hled⟩
  · have hjoins : g.Joins .input e r.data := ⟨id, s, hs, List.mem_of_getElem? he, target?_of_edge? hr⟩
    refine f.modifyData Site.stable_done wf (fun kind k e' id' node' hj hedge' hnode' => ?_)
      fun node' hnode' hstocked => ?_
    · -- The constant is read once, at this very slot, and written nowhere.
      rw [hnode, Option.some.injEq] at hnode'
      subst hnode'
      obtain ⟨rfl, rfl⟩ := wf.only_edge hnode hconst hone hjoins hj
      rw [hr, hedge, Option.some.injEq] at hedge'
      cases hedge'
      exact hfixed rfl rfl
    · rw [hnode, Option.some.injEq] at hnode'
      exact hstocked.setOrder (hdims.trans (by rw [hnode']))
  · have hr' := hled.edge
    rw [edge?_pushData, hr, Option.some.injEq] at hr'
    subst hr'
    refine f.moveToNew Site.stable_done wf rfl rfl (Data.stocked_of_total rfl hneeded hle) hled hnode ?_
    rw [hedge]
    exact hfixed rfl hconst.symm

theorem reorderConst_succeeds {k : Nat} {order : Order} {node : Data} (wf : g.WellFormed)
    (hsite : g.site id = .ok site) (hslot : site.inputs[k]? = some node) (hallows : node.desc.Allows order)
    (hstocked : node.Stocked) : Succeeds (g.reorderConst id k order) := by
  obtain ⟨e, d, he, hedge, hnode⟩ := wf.edge_of_slot hsite (show (site.slots .input)[k]? = some node from hslot)
  have hs := (site_eq_ok.1 hsite).1
  obtain ⟨desc, hdesc⟩ := hallows.setOrder
  refine .after (inputData_eq_ok.2 ⟨_, _, hs, he, target?_of_edge? hedge⟩) (.after (data_eq_ok.2 hnode) ?_)
  split
  · exact .pure _
  next hcond =>
  rw [not_or, not_not] at hcond
  split
  · exact .of_eq_ok (setDataOrder_eq_ok.2 ⟨node, desc, hnode, hdesc, rfl⟩)
  · refine .after hdesc (.after (stage_eq_ok.2 hs) ?_)
    rw [show site.stage.inputs[k]? = some e from he]
    obtain ⟨copy, g₁, hcopy⟩ := @duplicate_possible g d node ("@" ++ order.text) desc hnode hcond.1 hstocked
      (Desc.total_congr (Desc.setOrder_eq_ok hdesc).2.1)
    refine .after hcopy ?_
    obtain ⟨_, content, _, _, _, _, _, rfl, rfl⟩ := duplicate_eq_ok.1 hcopy
    obtain ⟨g', h⟩ := replaceInput_possible (show (g.pushData _).2.edge? e = some _ from hedge) rfl
      ⟨_, data?_pushData_self { name := _, desc, role := .const content }⟩
    exact .of_eq_ok h

/-- A stage that is settled can have its final layout. -/
theorem Fits.finalizeLayout_succeeds (f : g.Fits Site.Done) (wf : g.WellFormed) (hsite : g.site id = .ok site) :
    Succeeds (g.finalizeLayout id site.kind.family) := by
  have hdone := f.all id site hsite
  have hfit := hdone.fit.2
  have weights (hw : site.Weighted) : ∃ w, site.inputs[1]? = some w ∧ w.Stocked ∧
      (do return (← g.data (← g.inputData id 1)).desc.rank) = Except.ok w.desc.rank := by
    obtain ⟨a, w, b, y, hins, _⟩ := hw.eq
    have hslot : (site.slots .input)[1]? = some w := by simp [Site.slots, hins]
    obtain ⟨e, d, he, hedge, hnode⟩ := wf.edge_of_slot hsite hslot
    refine ⟨w, hslot, f.stocked d w hnode, Outcome.bind_eq_ok.2 ⟨d, ?_, ?_⟩⟩
    · exact inputData_eq_ok.2 ⟨_, _, (site_eq_ok.1 hsite).1, he, target?_of_edge? hedge⟩
    · exact Outcome.bind_eq_ok.2 ⟨w, data_eq_ok.2 hnode, rfl⟩
  cases hf : site.kind.family <;> rw [hf] at hfit
  case stub => exact absurd hf (StageKind.family_ne_stub hdone.stub)
  case convolution =>
    obtain ⟨w, hslot, hstocked, hrank⟩ := weights hfit.1
    obtain ⟨order, horder, hallows⟩ := w.desc.interleaved_eq_ok
    exact .after hrank (.after horder (reorderConst_succeeds wf hsite hslot hallows hstocked))
  case hardware =>
    obtain ⟨op, hop, hsuits⟩ := hfit
    refine .after hsite (.after hop ?_)
    split
    next hw =>
      have hslots := hsuits.slots
      rw [if_pos hw] at hslots
      obtain ⟨w, hslot, hstocked, hrank⟩ := weights hslots
      exact .after hrank (.after w.desc.canonical_eq_ok
        (reorderConst_succeeds wf hsite hslot w.desc.allows_canonical hstocked))
    · exact .pure _
  all_goals exact .of_eq_ok rfl

theorem Fits.finalizeLayout {family : StageFamily} (f : g.Fits Site.Done) (wf : g.WellFormed)
    (h : g.finalizeLayout id family = .ok g') : g'.Fits Site.Done := by
  rcases finalizeLayout_eq_ok h with rfl | ⟨order, h⟩
  · exact f
  · exact f.reorderConst wf (by decide) h

theorem Fits.finalizeStages (f : g.Fits Site.Done) (o : g.Orderly) :
    Succeeds g.finalizeStages ∧ ∀ {g'}, g.finalizeStages = .ok g' → g'.Fits Site.Done ∧ g'.Orderly := by
  obtain ⟨order, horder⟩ := o.runOrder
  let I (rest : List StageId) (x : Graph) : Prop :=
    x.Fits Site.Done ∧ x.Orderly ∧ ∀ id ∈ rest, ∃ s, x.stage? id = some s
  have start : I order g := ⟨f, o, fun id hid => mem_liveIds.1 ((runOrder_perm horder).mem_iff.1 hid)⟩
  have step : ∀ id rest x x', I (id :: rest) x →
      (do x.finalizeLayout id (← x.stage id).kind.family) = Except.ok x' → I rest x' := by
    rintro id rest x x' ⟨f, o, hlive⟩ h
    obtain ⟨s, _, h⟩ := Outcome.bind_eq_ok.1 h
    refine ⟨f.finalizeLayout o.wellFormed h, o.finalizeLayout h, fun y hy => ?_⟩
    rw [finalizeLayout_stage? h]
    exact hlive y (by simp [hy])
  constructor
  · refine .after horder (.foldlM I step (fun id rest x hI => ?_) start)
    obtain ⟨f, o, hlive⟩ := hI
    obtain ⟨s, hs⟩ := hlive id (by simp)
    obtain ⟨site, hsite, rfl⟩ := o.wellFormed.site_of_stage hs
    exact .after (stage_eq_ok.2 hs) (f.finalizeLayout_succeeds o.wellFormed hsite)
  · intro g' h
    obtain ⟨order', horder', h⟩ := Outcome.bind_eq_ok.1 h
    rw [horder, Except.ok.injEq] at horder'
    subst horder'
    obtain ⟨f', o', _⟩ := Outcome.foldlM_keeps I step start h
    exact ⟨f', o'⟩

/-- All tensors but those that are listed have their strides. -/
def Strided (rest : List DataId) (g : Graph) : Prop :=
  ∀ d node, g.data? d = some node → d ∈ rest ∨ node.strides.isSome

theorem mem_dataIds {d : DataId} : d ∈ g.dataIds ↔ ∃ node, g.data? d = some node := by
  rw [dataIds, List.mem_map, ← Option.isSome_iff_exists, data?_isSome]
  constructor
  · rintro ⟨k, hk, rfl⟩
    exact List.mem_range.1 hk
  · exact fun h => ⟨d.index, List.mem_range.2 h, rfl⟩

/-- The final layout can be settled, and then every tensor has its strides. -/
theorem Fits.finalizeLayoutPass (f : g.Fits Site.Done) (o : g.Orderly) (config : Config) :
    Runs (Pass.finalizeLayout.run config g) ∧
      ∀ {g' changed}, Pass.finalizeLayout.run config g = .ok (g', changed) →
        g'.Fits Site.Done ∧ g'.Strided [] := by
  obtain ⟨hstages, hkeeps⟩ := f.finalizeStages o
  let I (rest : List DataId) (x : Graph) : Prop :=
    x.Fits Site.Done ∧ x.WellFormed ∧ x.Strided rest ∧ ∀ d ∈ rest, ∃ node, x.data? d = some node
  have step : ∀ d rest x x', I (d :: rest) x → x.computeStrides d = Except.ok x' → I rest x' := by
    rintro d rest x x' ⟨f, wf, hstrided, hknown⟩ h
    have wf' := (SameLinks.computeStrides h).wellFormed wf
    obtain ⟨_, _, strides, _, rfl⟩ := computeStrides_eq_ok h
    refine ⟨f.touchUp Site.stable_done wf fun _ => ⟨rfl, rfl⟩, wf', fun y node hy => ?_, fun y hy => ?_⟩
    · rw [data?_modifyData] at hy
      split at hy
      · obtain ⟨_, _, rfl⟩ := Option.map_eq_some_iff.1 hy
        exact .inr rfl
      next hne => exact (hstrided y node hy).imp_left fun hmem => (List.mem_cons.1 hmem).resolve_left hne
    · obtain ⟨node, hnode⟩ := hknown y (by simp [hy])
      rw [data?_modifyData, hnode]
      split <;> exact ⟨_, rfl⟩
  have start {g₁ : Graph} (h : g.finalizeStages = .ok g₁) : I g₁.dataIds g₁ := by
    obtain ⟨f₁, o₁⟩ := hkeeps h
    exact ⟨f₁, o₁.wellFormed, fun d node hd => .inl (mem_dataIds.2 ⟨node, hd⟩), fun d hd => mem_dataIds.1 hd⟩
  constructor
  · refine hstages.failsOnly.bind fun g₁ h => FailsOnly.bind (.foldlM I step (fun d rest x hI => ?_) (start h))
      fun _ _ => .pure _
    obtain ⟨node, hnode⟩ := hI.2.2.2 d (by simp)
    exact .after (data_eq_ok.2 hnode) ((node.desc.strides_runs node.req).bind fun _ _ => .pure _)
  · intro g' changed h
    simp only [Pass.finalizeLayout, Outcome.bind_eq_ok, Outcome.pure_eq_ok, Prod.mk.injEq] at h
    obtain ⟨g₁, h₁, g₂, hstrides, rfl, _⟩ := h
    obtain ⟨f₂, _, hstrided, _⟩ := Outcome.foldlM_keeps I step (start h₁) hstrides
    exact ⟨f₂, hstrided⟩

/-! ## Allocation -/

/-- Tensors with strides can be given places. -/
theorem Strided.allocateMemory_runs {config : Config} (h : g.Strided []) :
    Runs (Pass.allocateMemory.run config g) := by
  refine FailsOnly.bind (FailsOnly.bind ?_ fun _ _ => .pure _) fun _ _ => .pure _
  refine .foldlM (fun rest _ => ∀ d ∈ rest, ∃ node, g.data? d = some node)
    (fun _ _ _ _ hknown _ y hy => hknown y (by simp [hy])) (fun d rest state hknown => ?_) fun d hd =>
      mem_dataIds.1 hd
  obtain ⟨node, hnode⟩ := hknown d (by simp)
  refine .after (data_eq_ok.2 hnode) ?_
  split
  · exact .pure _
  · obtain ⟨strides, hstrides⟩ := Option.isSome_iff_exists.1 ((h d node hnode).resolve_left (by simp))
    rw [hstrides]
    refine (node.desc.byteSize_runs strides).bind fun size _ => (Runs.alignUp _ _).bind fun _ _ => ?_
    exact (Runs.add _ _).bind fun _ _ => .pure _

theorem Fits.setLocations : ∀ (plan : List (DataId × Location)) {g : Graph}, g.Fits Site.Done → g.WellFormed →
    (plan.foldl (fun g x => g.setLocation x.1 x.2) g).Fits Site.Done
  | [], _, f, _ => f
  | x :: plan, g, f, wf => by
    have same : SameLinks g (g.setLocation x.1 x.2) := .modifyData fun _ => ⟨rfl, rfl, rfl⟩
    exact setLocations plan (f.touchUp Site.stable_done wf fun _ => ⟨rfl, rfl⟩) (same.wellFormed wf)

theorem Fits.allocateMemory {config : Config} (f : g.Fits Site.Done) (wf : g.WellFormed)
    (h : Pass.allocateMemory.run config g = .ok (g', changed)) : g'.Fits Site.Done := by
  simp only [Pass.allocateMemory, Outcome.bind_eq_ok, Outcome.pure_eq_ok, Prod.mk.injEq] at h
  obtain ⟨plan, _, rfl, _⟩ := h
  exact f.setLocations plan wf

/-! ## The final check -/

/-- A graph whose stages are settled passes the final check, unless a size is too large. -/
theorem Fits.finalCheck_runs {E : Error → Prop} {config : Config} (f : g.Fits Site.Done) (o : g.Orderly)
    (hE : ∀ d node x size, g.data? d = some node → node.desc.dim? x = some size → Size.range ≤ size →
      E (.fault .add)) :
    FailsOnly E (Pass.finalCheck.run config g) := by
  obtain ⟨order, horder⟩ := o.runOrder
  refine .after horder (FailsOnly.bind (.forEach fun id hid => ?_) fun _ _ => .pure _)
  obtain ⟨s, hs⟩ := mem_liveIds.1 ((runOrder_perm horder).mem_iff.1 hid)
  obtain ⟨site, hsite, rfl⟩ := o.wellFormed.site_of_stage hs
  have hdone := f.all id site hsite
  refine .after hsite (hdone.fit.finalCheck_runs hdone.settled hdone.stub fun kind node hnode x size => ?_)
  obtain ⟨k, hk⟩ := List.mem_iff_getElem?.1 hnode
  obtain ⟨_, d, _, _, hd⟩ := o.wellFormed.edge_of_slot hsite hk
  exact hE d node x size hd

end Graph

end NetLower
