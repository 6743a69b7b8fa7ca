/-
Scale propagation keeps every stage in a place where it fits.  What it puts in are affine
powers, which take any tensor of halves, and constants with the descriptors of those they
stand for; what it changes of a stage are the factors of an affine power.
-/
import NetLower.Proofs.Pass.Scale
import NetLower.Proofs.Stage.Settled

namespace NetLower

namespace Site

variable {s : Site}

/-- Only an affine power changes its attributes when it is asked about scales. -/
theorem scale_attrs {scales : List F32} {step : ScaleStep} {report : Report F32} {attrs : Attrs}
    (h : s.kind.family.scale s scales step = .ok (report, attrs)) : attrs = s.attrs ∨ s.kind.family = .power := by
  have keep {r : Outcome (Report F32)} (h : (do return (← r, s.attrs)) = Except.ok (report, attrs)) :
      attrs = s.attrs := by
    simp only [Outcome.bind_eq_ok, Outcome.pure_eq_ok, Prod.mk.injEq] at h
    obtain ⟨_, _, _, rfl⟩ := h
    rfl
  cases hf : s.kind.family <;> rw [hf] at h
  case power => exact .inr rfl
  all_goals refine .inl ?_
  case convolution | fullyConnected | concat => exact keep h
  case pooling | permute | copy | split =>
    cases h
    rfl
  case stub =>
    simp only [StageFamily.scale, Outcome.bind_eq_ok] at h
    obtain ⟨sort, _, h⟩ := h
    cases sort with
    | weightable => exact keep h
    | pooling =>
      obtain ⟨_, _, h⟩ := Outcome.bind_eq_ok.1 h
      cases h
      rfl
  case hardware =>
    simp only [StageFamily.scale, Outcome.bind_eq_ok] at h
    obtain ⟨op, _, h⟩ := h
    split at h
    · exact keep h
    · cases h
      rfl

theorem early_power (half : s.Half) (hunary : s.Unary) (hkind : s.kind = .power) : s.Early := by
  refine ⟨⟨half, ?_⟩, by simp [hkind]⟩
  rw [hkind]
  exact hunary

/-- An affine power between two tensors of halves. -/
theorem Relays.early_power {template : StageTemplate} {v w : Look} (h : s.Relays template v w)
    (hkind : template.kind = .power) (hv : v.desc.dtype = .f16) (hw : w.desc.dtype = .f16) : s.Early :=
  Site.early_power (h.half hv hw) h.unary (h.kind.trans hkind)

end Site

namespace Graph

variable {g g' : Graph} {b id : StageId} {s : Stage} {edge : EdgeId} {d : DataId} {changed : Bool}

theorem Fits.askScale {scales : List F32} {step : ScaleStep} {report : Report F32} (f : g.Fits Site.Early)
    (wf : g.WellFormed) (h : g.askScale id scales step = .ok (report, g')) : g'.Fits Site.Early := by
  obtain ⟨site, attrs, hsite, hscale, rfl⟩ := askScale_eq_ok h
  refine f.modifyStage Site.stable_early wf fun site' hsite' => ?_
  obtain ⟨old, hold, rfl⟩ := @site_modifyStage g id site' (fun s => { s with attrs }) (fun _ => rfl) hsite'
  rw [hsite, Except.ok.injEq] at hold
  subst hold
  have hearly := f.all id site hsite
  rcases Site.scale_attrs hscale with rfl | hpower
  · exact hearly
  · have hfit := hearly.fit.2
    rw [hpower] at hfit
    refine Site.early_power hearly.fit.1 ⟨hfit.inputs, hfit.outputs⟩ ?_
    revert hpower
    show site.stage.kind.family = .power → site.stage.kind = .power
    cases site.stage.kind <;> decide

theorem Fits.meetScale {scales scales' : Scales} {wanted : Option F32} (f : g.Fits Site.Early) (wf : g.WellFormed)
    (hs : g.stage? b = some s) (he : edge ∈ s.inputs)
    (h : Graph.meetScale (scales, g) edge wanted = .ok ((scales', g'), changed)) : g'.Fits Site.Early := by
  rcases meetScale_eq_ok h with rfl | ⟨r, node, suffix, template, z, g₁, r', hr, hnode, ⟨hconst, hfake⟩,
    ⟨hkind, _⟩, hadd, hled⟩
  · exact f
  have hhalf := f.half (fun _ h => h.fit) wf
    ⟨b, s, hs, show edge ∈ s.slots .input from he, target?_of_edge? hr⟩ hnode
  have hr' := hled.edge
  rw [hadd.edge? edge r hr, Option.some.injEq] at hr'
  refine f.tap Site.stable_early wf rfl rfl (stocked_intermediate _ _) hnode hadd hled (hr' ▸ rfl)
    (fun site hrelay => hrelay.early_power hkind hhalf hhalf) ?_
  exact .intermediate rfl rfl hfake fun _ => hconst

theorem Fits.scaleConst {scale : Option F32} (f : g.Fits Site.Early) (wf : g.WellFormed)
    (h : g.scaleConst edge scale = .ok (g', changed)) : g'.Fits Site.Early := by
  rcases scaleConst_eq_ok h with rfl | ⟨r, node, scaled, t, r', g₁, hr, hnode, husage, ht, husage', hdesc,
    hgraph, hled⟩
  · exact f
  have f₁ : g₁.Fits Site.Early := by
    rcases hgraph with rfl | ⟨hstocked, _, _, _, rfl⟩
    · exact f
    · exact f.pushData Site.stable_early wf hstocked
  have wf₁ : g₁.WellFormed := by
    rcases hgraph with rfl | ⟨_, hc, hp, _, rfl⟩
    · exact wf
    · exact wf.pushData hc hp
  have hnode₁ : g₁.data? r.data = some node := by
    rcases hgraph with rfl | ⟨_, _, _, _, rfl⟩
    · exact hnode
    · exact data?_pushData_old hnode
  have hr' : r = r' := by
    have hedge : g₁.edge? edge = some r := by
      rcases hgraph with rfl | ⟨_, _, _, _, rfl⟩ <;> exact hr
    rwa [hled.edge, Option.some.injEq, eq_comm] at hedge
  refine f₁.inputLed Site.stable_early wf₁ hled fun x y hx hy => ?_
  rw [← hr', hnode₁, Option.some.injEq] at hx
  rw [ht, Option.some.injEq] at hy
  subst hx hy
  refine .of_dims (congrArg Desc.dims hdesc) (congrArg Desc.dtype hdesc) ?_ fun _ => ?_
  · show scaled.usage = .fake ↔ node.usage = .fake
    rw [husage, husage']
  · show scaled.usage = .const ↔ node.usage = .const
    rw [husage, husage']

theorem Fits.descaleOutput {scales : Scales} (f : g.Fits Site.Early) (o : g.Orderly)
    (h : Graph.descaleOutput scales g d = .ok (g', changed)) : g'.Fits Site.Early := by
  rcases descaleOutput_eq_ok h with rfl | ⟨node, new, edge, r, node₁, template, z, g₁, g₂, hnode, hproducer, rfl,
    hled, hnode₁, hmove, hkind, hadd⟩
  · exact f
  have wf := o.wellFormed
  have hjoins := (wf.producer d node edge hnode).1 hproducer
  have hhalf := f.half (fun _ h => h.fit) wf hjoins hnode
  have husage := wf.usage_of_written hjoins hnode
  obtain ⟨b, s, hs, he, ht⟩ := hjoins
  rw [target?_of_edge? (show g.edge? edge = some r from hled.edge), Option.some.injEq] at ht
  subst ht
  have halike {slot : Nat} : node.look.Alike slot ⟨node.desc, .intermediate⟩ := .written rfl rfl husage
  obtain ⟨f₁, hold, hnew⟩ := f.divert Site.stable_early wf rfl rfl (stocked_intermediate _ _) hnode hled halike
  obtain ⟨wf₁, level, _⟩ := o.divert rfl rfl (.inr rfl) hled hs he
  obtain ⟨wf₂, _, f₂, ⟨x, hx, hxlook⟩, y, hy, hylook⟩ := @Level.moveAll g₁ g₂ _ _ _
    (fun g' => g'.Fits Site.Early ∧ (∃ x, g'.data? r.data = some x ∧ x.look = node.look) ∧
      ∃ y, g'.data? (g.pushData (intermediate (node.name ++ "@scaled") node.desc)).1 = some y ∧
        y.look = ⟨node.desc, .intermediate⟩)
    level wf₁ (wf₁.nodup _ node₁ hnode₁) (fun x hx => (wf₁.consumers _ node₁ x hnode₁).1 hx) ⟨f₁, hold, hnew⟩
    (by
      rintro g₁ g₂ e r₁ wf₁ ⟨f₁, ⟨x, hx, hxlook⟩, y, hy, hylook⟩ hled₁ hdata
      refine ⟨f₁.inputLed Site.stable_early wf₁ hled₁ fun x' y' hx' hy' => ?_, ?_, ?_⟩
      · rw [hdata, hx, Option.some.injEq] at hx'
        rw [hy, Option.some.injEq] at hy'
        rw [← hx', ← hy', hxlook, hylook]
        exact halike
      · obtain ⟨x', hx', hlook⟩ := hled₁.sameLooks.data_of hx
        exact ⟨x', hx', hlook.trans hxlook⟩
      · obtain ⟨y', hy', hlook⟩ := hled₁.sameLooks.data_of hy
        exact ⟨y', hy', hlook.trans hylook⟩)
    hmove
  refine f₂.addRelay Site.stable_early wf₂ hadd hy hx fun site hrelay => hrelay.early_power hkind ?_ ?_
  · rw [hylook]
    exact hhalf
  · rw [hxlook]
    exact hhalf

theorem Fits.scaleStage {state state' : Scales × Graph} (f : state.2.Fits Site.Early) (o : state.2.Orderly)
    (h : Graph.scaleStage state id = .ok (state', changed)) : state'.2.Fits Site.Early := by
  refine (@scaleStage_keeps changed (fun g => g.Fits Site.Early ∧ g.Orderly) state state' id ?_ ?_ ?_ ⟨f, o⟩ h).1
  · rintro g g' scales step report ⟨f, o⟩ h
    obtain ⟨o', hext⟩ := o.askScale h
    exact ⟨⟨f.askScale o.wellFormed h, o'⟩, hext⟩
  · rintro g g' s edge scales scales' wanted changed ⟨f, o⟩ hs he h
    obtain ⟨o', hext⟩ := o.meetScale hs he h
    exact ⟨⟨f.meetScale o.wellFormed hs he h, o'⟩, hext⟩
  · rintro g g' s edge scale changed ⟨f, o⟩ hs he h
    obtain ⟨o', hext⟩ := o.scaleConst hs he h
    exact ⟨⟨f.scaleConst o.wellFormed h, o'⟩, hext⟩

theorem Fits.scalePropagation {config : Config} (f : g.Fits Site.Early) (o : g.Orderly)
    (h : Pass.scalePropagation.run config g = .ok (g', changed)) : g'.Fits Site.Early := by
  simp only [Pass.scalePropagation] at h
  split at h
  · simp only [propagateScales, Outcome.bind_eq_ok, Outcome.pure_eq_ok, Prod.mk.injEq] at h
    obtain ⟨order, _, ⟨⟨scales, g₁⟩, _⟩, hstages, ⟨g₂, _⟩, houtputs, rfl, _⟩ := h
    have h₁ := Pass.sweepWith_keeps (fun _ state => state.2.Fits Site.Early ∧ state.2.Orderly)
      (fun _ _ _ _ _ hg h => ⟨hg.1.scaleStage hg.2 h, hg.2.scaleStage h⟩) ⟨f, o⟩ hstages
    exact (Pass.sweep_keeps (fun _ g => g.Fits Site.Early ∧ g.Orderly)
      (fun _ _ _ _ _ hg h => ⟨hg.1.descaleOutput hg.2 h, hg.2.descaleOutput h⟩) h₁ houtputs).1
  · cases h
    exact f

end Graph

end NetLower
