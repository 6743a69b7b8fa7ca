/-
Fresh graphs.  What the front end takes care of, together with what the initial check
finds out, is all that a stage needs to get through the passes.
-/
import NetLower.Proofs.Network.Layers
import NetLower.Proofs.Stage.Settled

namespace NetLower

open NetLower.Graph

theorem StageTemplate.Sound.congr {t t' : StageTemplate} {input output : Nat} (h : t.Sound input output)
    (hkind : t'.kind = t.kind) (hattrs : t'.attrs = t.attrs) : t'.Sound input output :=
  ⟨hkind ▸ h.kind, hattrs ▸ h.unset, hkind ▸ h.flat, hkind ▸ hattrs ▸ h.windowed⟩

namespace Site

variable {s s' : Site}

/-- What the front end takes care of. -/
structure Fresh (s : Site) : Prop where
  solid : s.Solid
  main : ∃ x y, s.inputs[0]? = some x ∧ s.outputs[0]? = some y ∧ s.stage.Sound x.desc.rank y.desc.rank

theorem stable_fresh : Stable Fresh Look.alike := by
  refine ⟨fun _ _ _ => .refl, fun s s' like h => ⟨h.solid.akin like.akin, ?_⟩⟩
  obtain ⟨x, y, hx, hy, sound⟩ := h.main
  have here {kind : EdgeKind} {d : Data} (hd : (s.slots kind)[0]? = some d) :
      ∃ d', (s'.slots kind)[0]? = some d' ∧ d'.desc.rank = d.desc.rank := by
    obtain ⟨hlt, _⟩ := List.getElem?_eq_some_iff.1 hd
    rw [← like.length] at hlt
    have hd' := List.getElem?_eq_getElem hlt
    exact ⟨_, hd', (like.slot kind 0 d _ hd hd').rank⟩
  obtain ⟨x', hx', hxrank⟩ := here (show (s.slots .input)[0]? = some x from hx)
  obtain ⟨y', hy', hyrank⟩ := here (show (s.slots .output)[0]? = some y from hy)
  exact ⟨x', y', hx', hy', hxrank ▸ hyrank ▸ sound.congr like.kind like.attrs⟩

theorem Lowerable.early {op : Option HardwareOp} {software : StageKind} (h : s.Lowerable op software)
    (half : s.Half) : s.Early := by
  have hlowering := h.lowering
  refine ⟨⟨half, ?_⟩, fun hcopy => by simp [hcopy, StageKind.lowering] at hlowering⟩
  rw [show s.kind.family = .stub by revert hlowering; cases s.kind <;> first | exact fun _ => rfl | exact nofun]
  exact ⟨op, software, h⟩

/-- A fresh stage that passes the initial check has what it needs. -/
theorem Fresh.early (h : s.Fresh) (hcheck : s.kind.family.initialCheck s = .ok ()) : s.Early := by
  obtain ⟨x, y, hx, hy, sound⟩ := h.main
  have unset : s.attrs.has .hwOpKind = false := by rw [Attrs.has, Site.attrs, sound.unset]; rfl
  have windowed (hflat : s.kind ≠ .stubFullyConnected) (hpower : s.kind ≠ .power) :
      s.MainRank x.desc.rank ∧ (s.attrs.isOn .tryHw = .ok true → s.attrs.Fast ∧ s.MainRank 4) := by
    obtain ⟨hrank, hfast⟩ := sound.windowed hflat hpower
    have main : s.MainRank x.desc.rank := by
      intro kind d hd
      cases kind with
      | input =>
        rw [show (s.slots .input)[0]? = s.inputs[0]? from rfl, hx, Option.some.injEq] at hd
        rw [hd]
      | output =>
        rw [show (s.slots .output)[0]? = s.outputs[0]? from rfl, hy, Option.some.injEq] at hd
        rw [← hd, hrank]
    refine ⟨main, fun hon => ?_⟩
    obtain ⟨hfour, hfast⟩ := hfast (Attrs.get?_of_isOn hon)
    exact ⟨hfast, hfour ▸ main⟩
  -- A pool that may run on the hardware, and that software can run anyway.
  have pools {op : HardwareOp} {software : StageKind} (hlowering : s.kind.lowering = .ok (some op, software))
      (hop : op.isWeightable = false) (hsoftware : software.family = .pooling)
      (hflat : s.kind ≠ .stubFullyConnected) (hpower : s.kind ≠ .power) (hcheck : s.checkUnary = .ok ()) :
      s.Early := by
    obtain ⟨unary, half⟩ := checkUnary_eq_ok.1 hcheck
    obtain ⟨main, hfast⟩ := windowed hflat hpower
    refine Lowerable.early ⟨hlowering, ?_, unset, fun hon o ho => ?_⟩ half
    · rw [hsoftware]
      exact ⟨unary, h.solid, _, main⟩
    · cases ho
      refine ⟨?_, fun _ => hfast hon⟩
      rw [hop]
      exact ⟨unary, h.solid⟩
  have hkind := sound.kind
  change s.kind.isStub = true ∨ s.kind = .power at hkind
  cases hk : s.kind <;> simp only [hk, StageKind.family, StageFamily.initialCheck, stubSort] at hcheck
  case stubConv =>
    obtain ⟨weighted, half⟩ := checkWeightable_eq_ok.1 hcheck
    obtain ⟨main, hfast⟩ := windowed (by simp [hk]) (by simp [hk])
    refine @Lowerable.early s (some .conv) .convolution
      ⟨by rw [hk]; rfl, ⟨weighted, _, main⟩, unset, fun hon o ho => ?_⟩ half
    cases ho
    exact ⟨weighted, fun _ => hfast hon⟩
  case stubDeconv =>
    obtain ⟨weighted, half⟩ := checkWeightable_eq_ok.1 hcheck
    obtain ⟨main, _⟩ := windowed (by simp [hk]) (by simp [hk])
    exact @Lowerable.early s none .deconvolution
      ⟨by rw [hk]; rfl, ⟨weighted, _, main⟩, unset, fun _ o ho => by cases ho⟩ half
  case stubFullyConnected =>
    obtain ⟨weighted, half⟩ := checkWeightable_eq_ok.1 hcheck
    refine @Lowerable.early s (some .fullyConnected) .fullyConnected
      ⟨by rw [hk]; rfl, ⟨weighted, fun d hd => ?_⟩, unset, fun _ o ho => ?_⟩ half
    · rw [hy, Option.some.injEq] at hd
      exact hd ▸ sound.flat hk
    · cases ho
      exact ⟨weighted, fun h => absurd rfl h⟩
  case stubMaxPool => exact pools (by rw [hk]; rfl) rfl rfl (by simp [hk]) (by simp [hk]) hcheck
  case stubAvgPool => exact pools (by rw [hk]; rfl) rfl rfl (by simp [hk]) (by simp [hk]) hcheck
  case power =>
    obtain ⟨unary, half⟩ := checkUnary_eq_ok.1 (Outcome.check_bind_eq_ok.1 hcheck).1
    refine ⟨⟨half, ?_⟩, by simp [hk]⟩
    rw [hk]
    exact unary
  all_goals simp [hk, StageKind.isStub, StageKind.code?] at hkind

end Site

/-! ## The front end -/

/-- The node of a tensor of a network. -/
def TensorInfo.Stands (t : TensorInfo) (node : Data) : Prop :=
  ∃ desc, Desc.new t.dtype t.shape = .ok desc ∧ node = { name := t.name, desc, role := t.role }

namespace Network

variable {n : Network} {config : Config} {g g' : Graph}

/-- First there is one node for each tensor, in the same order. -/
theorem tensors_stand (h : n.tensors.foldlM (fun g t => t.addTo g) { name := n.name } = .ok g) :
    List.Forall₂ TensorInfo.Stands n.tensors g.datas.toList ∧ g.stages = #[] := by
  have := Outcome.foldlM_keeps
    (fun rest g => ∃ done, n.tensors = done ++ rest ∧ List.Forall₂ TensorInfo.Stands done g.datas.toList ∧
      g.stages = #[])
    (by
      rintro t rest g g' ⟨done, hsplit, hstand, hstages⟩ h
      obtain ⟨desc, hdesc, _, rfl⟩ := TensorInfo.addTo_eq_ok h
      refine ⟨done ++ [t], by simp [hsplit], ?_, hstages⟩
      rw [pushData, Array.toList_push]
      exact List.rel_append hstand (.cons ⟨desc, hdesc, rfl⟩ .nil))
    ⟨[], rfl, .nil, rfl⟩ h
  obtain ⟨done, hsplit, hstand⟩ := this
  rw [List.append_nil] at hsplit
  exact hsplit ▸ hstand

/-- Tensors keep their numbers, and are none of them placeholders. -/
theorem data_of_dataId {name : String} {d : DataId} (h : List.Forall₂ TensorInfo.Stands n.tensors g.datas.toList)
    (hd : n.dataId name = .ok d) : ∃ node, g.data? d = some node ∧ node.usage ≠ .fake := by
  unfold dataId at hd
  split at hd
  next index hindex =>
    cases hd
    obtain ⟨t, ht, _⟩ := List.findIdx?_eq_some_iff_getElem.1 hindex
    obtain ⟨node, hnode, desc, _, rfl⟩ := forall₂_getElem? h (List.getElem?_eq_getElem t)
    refine ⟨_, by simpa [data?] using hnode, ?_⟩
    show Role.usage (TensorInfo.role _) ≠ .fake
    unfold TensorInfo.role
    split <;> simp [Role.usage]
  · cases hd

/-- The stages of a fresh graph suit what they read and write. -/
theorem graph_fresh (h : n.graph config = .ok g) : g.Fits Site.Fresh := by
  simp only [Network.graph, Outcome.bind_eq_ok] at h
  obtain ⟨_, _, g₁, htensors, hlayers⟩ := h
  let I (x : Graph) : Prop := x.WellFormed ∧ x.Fits Site.Fresh ∧
    ∀ name d, n.dataId name = .ok d → ∃ node, x.data? d = some node ∧ node.usage ≠ .fake
  have start : I g₁ := by
    have grown := Outcome.foldlM_keeps (fun _ x => Grown { name := n.name } x)
      (fun _ _ _ _ hx h => hx.trans (TensorInfo.addTo_grown h)) .refl htensors
    have empty : ({ name := n.name } : Graph).Fits Site.Fresh := by
      refine ⟨fun id site hsite => ?_, fun d node hd => ?_⟩
      · have hs := (site_eq_ok.1 hsite).1
        simp [stage?] at hs
      · simp [data?] at hd
    exact ⟨grown.wellFormed (wellFormed_empty _), grown.fits (wellFormed_empty _) Site.stable_fresh empty,
      fun _ _ => data_of_dataId (tensors_stand htensors).1⟩
  have step {l : Layer} {x x' : Graph} {inputs outputs : List DataId}
      (hinputs : l.inputs.mapM n.dataId = .ok inputs)
      (hx : I x) (h : l.addTo config x inputs outputs = .ok x') : I x' := by
    obtain ⟨wf, fits, hdatas⟩ := hx
    obtain ⟨input, output, template, consts, x₁, z, inNode, outNode, rfl, rfl, hconsts, hadd, _, hin, hout,
      sound, _⟩ :=
      Layer.addTo_eq_ok h
    have wf₁ := hconsts.grown.wellFormed wf
    refine ⟨wf₁.added hadd (by simp), ?_, fun name d hd => ?_⟩
    · refine (hconsts.grown.fits wf Site.stable_fresh fits).added Site.stable_fresh wf₁ hadd fun site hsite => ?_
      obtain ⟨a, old, ha, hold, halook⟩ :=
        @Added.slot_of_site x₁ x' site input template (input :: consts) [output] z hadd hsite .input 0 rfl
      obtain ⟨b, old', hb, hold', hblook⟩ :=
        @Added.slot_of_site x₁ x' site output template (input :: consts) [output] z hadd hsite .output 0 rfl
      rw [hconsts.grown.data? hin, Option.some.injEq] at hold
      rw [hconsts.grown.data? hout, Option.some.injEq] at hold'
      subst hold hold'
      obtain ⟨hkind, hattrs⟩ := hadd.kind_of_site hsite
      refine ⟨fun d hd => ?_, a, b, ha, hb, ?_⟩
      · obtain ⟨name, _, hname, _⟩ := List.forall₂_cons_right_iff.1 (Outcome.mapM_eq_ok.1 hinputs)
        obtain ⟨node, hnode, hfake⟩ := hdatas name input hname
        rw [hin, Option.some.injEq] at hnode
        rw [show site.inputs[0]? = some a from ha, Option.some.injEq] at hd
        exact hd ▸ show a.look.usage ≠ .fake from halook ▸ hnode ▸ hfake
      · rw [show a.desc = inNode.desc from congrArg Look.desc halook,
          show b.desc = outNode.desc from congrArg Look.desc hblook]
        exact sound.congr hkind hattrs
    · obtain ⟨node, hnode, hfake⟩ := hdatas name d hd
      obtain ⟨node', hnode', hlook⟩ := hadd.sameLooks.data_of (hconsts.grown.data? hnode)
      exact ⟨node', hnode', show node'.look.usage ≠ .fake from hlook ▸ hfake⟩
  refine (Outcome.foldlM_keeps (fun _ x => I x) (fun l _ x x' hx h => ?_) start hlayers).2.1
  simp only [Outcome.bind_eq_ok] at h
  obtain ⟨inputs, hinputs, outputs, _, h⟩ := h
  exact step hinputs hx h

end Network

/-- The initial check finds out what the front end leaves open. -/
theorem Graph.Fits.initialCheck {config : Config} {g g' : Graph} {changed : Bool} (f : g.Fits Site.Fresh)
    (h : Pass.initialCheck.run config g = .ok (g', changed)) : g'.Fits Site.Early := by
  obtain ⟨rfl, order, horder, hall⟩ := Pass.checkAll_eq_ok h
  refine ⟨fun id site hsite => ?_, f.stocked⟩
  have hid := (runOrder_perm horder).mem_iff.2 (mem_liveIds.2 ⟨_, (site_eq_ok.1 hsite).1⟩)
  obtain ⟨site', hsite', hcheck⟩ := hall id hid
  rw [hsite, Except.ok.injEq] at hsite'
  exact (f.all id site hsite).early (hsite' ▸ hcheck)

end NetLower
