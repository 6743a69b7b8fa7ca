/-
Scale propagation keeps a graph orderly.  It works through the input edges that a stage
had at the start of its visit: affine powers are put before the stage and constants are
exchanged, but the edges at its slots stay the same ones.
-/
import NetLower.Pass.Scale
import NetLower.Proofs.Graph.Fits
import NetLower.Proofs.Pass.Layout

namespace NetLower.Graph

variable {g g' : Graph} {b : StageId} {s : Stage} {edge : EdgeId} {changed : Bool}

theorem addRescale_added {name : String} {factor : F32} {source target : DataId}
    (h : g.addRescale name factor source target = .ok g') :
    ∃ attrs z, rescaleAttrs factor = .ok attrs ∧
      Added g { name, kind := .power, attrs } [source] [target] z g' := by
  simp only [addRescale, Outcome.bind_eq_ok, Outcome.pure_eq_ok] at h
  obtain ⟨attrs, hattrs, ⟨z, _⟩, h, rfl⟩ := h
  exact ⟨attrs, z, hattrs, addStage_added h⟩

/-- A constant with the same descriptor, new or found. -/
theorem scaledConst_eq_ok {d t : DataId} {factor : F32} (h : g.scaledConst d factor = .ok (t, g')) :
    ∃ node scaled, g.data? d = some node ∧ node.usage = .const ∧ g'.data? t = some scaled ∧
      scaled.usage = .const ∧ scaled.desc = node.desc ∧
      (g' = g ∨ scaled.Stocked ∧ scaled.consumers = [] ∧ scaled.producer = none ∧ scaled.location = none ∧
        g' = (g.pushData scaled).2) := by
  simp only [scaledConst, Outcome.bind_eq_ok, data_eq_ok] at h
  obtain ⟨node, hnode, h⟩ := h
  split at h
  · cases h
  next content hcontent =>
  have husage : node.usage = .const := by
    cases hrole : node.role <;> simp_all [Data.content?, Role.content?, Data.usage, Role.usage]
  split at h
  next existing hfound =>
    simp only [Outcome.bind_eq_ok, data_eq_ok] at h
    obtain ⟨scaled, hscaled, h⟩ := h
    split at h
    next hsame =>
      cases h
      exact ⟨node, scaled, hnode, husage, hscaled, hsame.1, hsame.2, .inl rfl⟩
    · cases h
  · obtain ⟨needed, hneeded, hle, rfl, rfl⟩ := addConst_eq_ok.1 h
    refine ⟨node, _, hnode, husage, data?_pushData_self _, rfl, rfl, .inr ⟨?_, rfl, rfl, rfl, rfl⟩⟩
    exact Data.stocked_of_total rfl hneeded hle

/-! ## One stage -/

/-- Where a stage needs another scale, and the tensor may be rescaled, an affine power is put in. -/
theorem meetScale_cases {scales scales' : Scales} {wanted : Option F32}
    (h : Graph.meetScale (scales, g) edge wanted = .ok ((scales', g'), changed)) :
    ∃ r node, g.edge? edge = some r ∧ g.data? r.data = some node ∧
      (scales' = scales ∧ g' = g ∧ (∀ x, wanted = some x →
          (node.usage = .const ∨ node.usage = .fake) ∨ x.numEq (scales.get r.data) = true) ∨
        ∃ x suffix name attrs z g₁ r', wanted = some x ∧ (node.usage ≠ .const ∧ node.usage ≠ .fake) ∧
          rescaleAttrs (x / scales.get r.data) = .ok attrs ∧
          Added (g.pushData (intermediate (node.name ++ suffix) node.desc)).2 { name, kind := .power, attrs }
            [r.data] [(g.pushData (intermediate (node.name ++ suffix) node.desc)).1] z g₁ ∧
          InputLed g₁ edge r' (g.pushData (intermediate (node.name ++ suffix) node.desc)).1 g' ∧
          scales' = scales.set (g.pushData (intermediate (node.name ++ suffix) node.desc)).1 x) := by
  simp only [Graph.meetScale, Outcome.bind_eq_ok, data_eq_ok, edge_eq_ok] at h
  obtain ⟨r, hr, node, hnode, h⟩ := h
  refine ⟨r, node, hr, hnode, ?_⟩
  have unchanged (h : (pure ((scales, g), false) : Outcome _) = .ok ((scales', g'), changed)) :
      scales' = scales ∧ g' = g := by
    cases h
    exact ⟨rfl, rfl⟩
  split at h
  next hconst => exact .inl ⟨(unchanged h).1, (unchanged h).2, fun _ _ => .inl (.inl hconst)⟩
  next hfake => exact .inl ⟨(unchanged h).1, (unchanged h).2, fun _ _ => .inl (.inr hfake)⟩
  next => exact .inl ⟨(unchanged h).1, (unchanged h).2, nofun⟩
  next x hconst hfake =>
  split at h
  next heq =>
    refine .inl ⟨(unchanged h).1, (unchanged h).2, fun y hy => .inr ?_⟩
    cases hy
    exact heq
  simp only [insertRescale, Outcome.bind_eq_ok, Outcome.pure_eq_ok, Prod.mk.injEq] at h
  obtain ⟨⟨_, _⟩, ⟨_, _, ⟨t, g₁⟩, hlike, g₂, hadd, g₃, hled, rfl, rfl⟩, ⟨rfl, rfl⟩, _⟩ := h
  obtain ⟨node', hnode', rfl, rfl⟩ := addLike_eq_ok.1 hlike
  rw [hnode, Option.some.injEq] at hnode'
  subst hnode'
  obtain ⟨attrs, z, hattrs, hadd⟩ := addRescale_added hadd
  obtain ⟨r', hled⟩ := replaceInput_led hled
  exact .inr ⟨x, _, _, attrs, z, g₂, r', rfl, ⟨hconst, hfake⟩, hattrs, hadd, hled, rfl⟩

/-- An affine power may be put before a reader of a tensor that is computed or given. -/
theorem meetScale_eq_ok {scales scales' : Scales} {wanted : Option F32}
    (h : Graph.meetScale (scales, g) edge wanted = .ok ((scales', g'), changed)) :
    g' = g ∨ ∃ r node suffix template z g₁ r', g.edge? edge = some r ∧ g.data? r.data = some node ∧
      (node.usage ≠ .const ∧ node.usage ≠ .fake) ∧ (template.kind = .power ∧ template.origin = none) ∧
      Added (g.pushData (intermediate (node.name ++ suffix) node.desc)).2 template [r.data]
        [(g.pushData (intermediate (node.name ++ suffix) node.desc)).1] z g₁ ∧
      InputLed g₁ edge r' (g.pushData (intermediate (node.name ++ suffix) node.desc)).1 g' := by
  obtain ⟨r, node, hr, hnode, ⟨_, rfl, _⟩ | ⟨x, suffix, name, attrs, z, g₁, r', _, husage, _, hadd, hled, _⟩⟩ :=
    meetScale_cases h
  · exact .inl rfl
  · exact .inr ⟨r, node, suffix, _, z, g₁, r', hr, hnode, husage, ⟨rfl, rfl⟩, hadd, hled⟩

/-- A reader of a constant may move to another constant with the same descriptor. -/
theorem scaleConst_eq_ok {scale : Option F32} (h : g.scaleConst edge scale = .ok (g', changed)) :
    g' = g ∨ ∃ r node scaled t r' g₁, g.edge? edge = some r ∧ g.data? r.data = some node ∧ node.usage = .const ∧
      g₁.data? t = some scaled ∧ scaled.usage = .const ∧ scaled.desc = node.desc ∧
      (g₁ = g ∨ scaled.Stocked ∧ scaled.consumers = [] ∧ scaled.producer = none ∧ scaled.location = none ∧
        g₁ = (g.pushData scaled).2) ∧
      InputLed g₁ edge r' t g' := by
  simp only [Graph.scaleConst, Outcome.bind_eq_ok, data_eq_ok, edge_eq_ok] at h
  obtain ⟨r, hr, node, hnode, h⟩ := h
  split at h
  · split at h
    · cases h
      exact .inl rfl
    simp only [Outcome.bind_eq_ok, Outcome.pure_eq_ok, Prod.mk.injEq] at h
    obtain ⟨⟨t, g₁⟩, hscaled, g₂, hled, rfl, _⟩ := h
    obtain ⟨r', hled⟩ := replaceInput_led hled
    obtain ⟨node', scaled, hnode', husage, ht, husage', hdesc, hgraph⟩ := scaledConst_eq_ok hscaled
    rw [hnode, Option.some.injEq] at hnode'
    subst hnode'
    exact .inr ⟨r, node, scaled, t, r', g₁, hr, hnode, husage, ht, husage', hdesc, hgraph, hled⟩
  · cases h
    exact .inl rfl

theorem scaleConst_stage? {id : StageId} {scale : Option F32} (h : g.scaleConst edge scale = .ok (g', changed)) :
    g'.stage? id = g.stage? id := by
  rcases scaleConst_eq_ok h with rfl | ⟨_, _, _, _, _, g₁, _, _, _, _, _, _, hgraph, hled⟩
  · rfl
  · rw [hled.stage?]
    rcases hgraph with rfl | ⟨_, _, _, _, rfl⟩ <;> rfl

theorem askScale_eq_ok {id : StageId} {scales : List F32} {step : ScaleStep} {report : Report F32}
    (h : g.askScale id scales step = .ok (report, g')) :
    ∃ site attrs, g.site id = .ok site ∧ site.kind.family.scale site scales step = .ok (report, attrs) ∧
      g' = g.setAttrs id attrs := by
  simp only [Graph.askScale, Outcome.bind_eq_ok, Outcome.pure_eq_ok, Prod.mk.injEq] at h
  obtain ⟨site, hsite, ⟨report, attrs⟩, hscale, rfl, rfl⟩ := h
  exact ⟨site, attrs, hsite, hscale, rfl⟩

theorem Orderly.meetScale {scales scales' : Scales} {wanted : Option F32} (o : g.Orderly)
    (hs : g.stage? b = some s) (he : edge ∈ s.inputs)
    (h : Graph.meetScale (scales, g) edge wanted = .ok ((scales', g'), changed)) :
    g'.Orderly ∧ g.Extends g' := by
  rcases meetScale_eq_ok h with rfl | ⟨r, node, suffix, template, z, g₁, r', hr, hnode, _, _, hadd, hled⟩
  · exact ⟨o, .refl⟩
  · refine ⟨(o.tap rfl rfl hadd hled hs he (target?_of_edge? hr)).1, ?_⟩
    exact (hadd.extends (g := (g.pushData _).2)).trans hled.extends

theorem Orderly.scaleConst {scale : Option F32} (o : g.Orderly) (hs : g.stage? b = some s)
    (he : edge ∈ s.inputs) (h : g.scaleConst edge scale = .ok (g', changed)) :
    g'.Orderly ∧ g.Extends g' := by
  rcases scaleConst_eq_ok h with rfl | ⟨r, node, scaled, t, r', g₁, _, _, _, ht, husage, _, hgraph, hled⟩
  · exact ⟨o, .refl⟩
  have o₁ : g₁.Orderly := by
    rcases hgraph with rfl | ⟨_, hc, hp, _, rfl⟩
    · exact o
    · exact o.pushData hc hp
  have hext : g.Extends g₁ := by
    rcases hgraph with rfl | ⟨_, _, _, _, rfl⟩
    · exact .refl
    · exact extends_pushData scaled
  obtain ⟨s₁, hs₁, he₁⟩ := hext.mem hs (show edge ∈ s.slots .input from he)
  refine ⟨o₁.moveToSource hled hs₁ he₁ fun x hx => ?_, hext.trans hled.extends⟩
  rw [ht, Option.some.injEq] at hx
  exact hx ▸ o₁.wellFormed.sources t scaled ht (.inl husage)

theorem Orderly.askScale {id : StageId} {scales : List F32} {step : ScaleStep} {report : Report F32}
    (o : g.Orderly) (h : g.askScale id scales step = .ok (report, g')) : g'.Orderly ∧ g.Extends g' := by
  obtain ⟨site, attrs, _, _, rfl⟩ := askScale_eq_ok h
  have same : SameLinks g (g.setAttrs id attrs) := .setAttrs id attrs
  exact ⟨o.sameLinks same, same.extends⟩

/-- The first half of a visit: the inputs of a stage are brought to the scales it needs. -/
def meetScales (state : Scales × Graph) (id : StageId) : Outcome ((Scales × Graph) × Bool) := do
  let (scales, g) := state
  let edges := (← g.stage id).inputs
  let (required, g) ← g.askScale id (← g.inputScales scales id) .check
  Pass.sweepWith (edges.zip required.inputs) (fun state (edge, wanted) => meetScale state edge wanted) (scales, g)

/-- Whether a stage takes a scale in, which it does if it asks for one and its inputs have none. -/
def startsScale (hint : F32) (actual : List F32) : Bool := !hint.numEq F32.one && actual.all (·.numEq F32.one)

/-- What a visit does: inputs are met, the stage is asked, constants are exchanged, and the scales
of the outputs are noted. -/
theorem scaleStage_eq_ok {state state' : Scales × Graph} {id : StageId}
    (h : Graph.scaleStage state id = .ok (state', changed)) :
    ∃ (s s' : Stage) (mid : Scales × Graph) (rescaled : Bool) (actual : List F32) (hint : F32)
      (report : Report F32) (asked : Graph) (folded : Bool) (outputs : List DataId), state.2.stage? id = some s ∧
      meetScales state id = .ok (mid, rescaled) ∧ mid.2.inputScales mid.1 id = .ok actual ∧
      mid.2.scaleHint id = .ok hint ∧
      mid.2.askScale id (if startsScale hint actual then actual.map fun _ => hint else actual)
        (if startsScale hint actual then .scaleInput else .propagate) = .ok (report, asked) ∧
      Pass.sweep (s.inputs.zip report.inputs) (fun g x => g.scaleConst x.1 x.2) asked = .ok (state'.2, folded) ∧
      state'.2.stage? id = some s' ∧ state'.2.outputIds s' = .ok outputs ∧
      state'.1 = (outputs.zip report.outputs).foldl (fun scales x => scales.set x.1 (x.2.getD F32.one)) mid.1 := by
  obtain ⟨scales, g⟩ := state
  simp only [Graph.scaleStage, Outcome.bind_eq_ok, Outcome.pure_eq_ok, Prod.mk.injEq, stage_eq_ok] at h
  obtain ⟨s, hs, given, hgiven, ⟨required, g₁⟩, hask, ⟨mid, rescaled⟩, hmeet, actual, hactual, hint, hhint,
    ⟨report, g₃⟩, hask', ⟨g₄, folded⟩, hfold, s', hs', outputs, houtputs, rfl, _⟩ := h
  refine ⟨s, s', mid, rescaled, actual, hint, report, g₃, folded, outputs, hs, ?_, hactual, hhint, hask', hfold,
    hs', houtputs, rfl⟩
  exact Outcome.bind_eq_ok.2 ⟨s, stage_eq_ok.2 hs, Outcome.bind_eq_ok.2 ⟨given, hgiven,
    Outcome.bind_eq_ok.2 ⟨_, hask, hmeet⟩⟩⟩

/-- What edits keep, the first half of a visit keeps. -/
theorem meetScales_keeps {I : Graph → Prop} {state mid : Scales × Graph} {id : StageId}
    (ask : ∀ {g g' scales step report}, I g → g.askScale id scales step = .ok (report, g') → I g' ∧ g.Extends g')
    (meet : ∀ {g g' s edge scales scales' wanted changed}, I g → g.stage? id = some s → edge ∈ s.inputs →
      Graph.meetScale (scales, g) edge wanted = .ok ((scales', g'), changed) → I g' ∧ g.Extends g')
    (hI : I state.2) (h : meetScales state id = .ok (mid, changed)) : I mid.2 ∧ state.2.Extends mid.2 := by
  obtain ⟨scales, g⟩ := state
  simp only [meetScales, Outcome.bind_eq_ok, stage_eq_ok] at h
  obtain ⟨s, hs, given, _, ⟨required, g₁⟩, hask, hmeet⟩ := h
  obtain ⟨hI₁, hext₁⟩ := ask hI hask
  obtain ⟨hI₂, hext₂, _⟩ := Pass.sweepWith_keeps
    (fun rest state => I state.2 ∧ g.Extends state.2 ∧ ∀ x ∈ rest, x.1 ∈ s.slots .input)
    (by
      rintro ⟨edge, wanted⟩ rest ⟨c, g₁⟩ ⟨c', g₂⟩ here ⟨hI₁, hext, hmem⟩ h
      obtain ⟨s₁, hs₁, he⟩ := hext.mem hs (hmem (edge, wanted) (by simp))
      obtain ⟨hI₂, hext₂⟩ := meet hI₁ hs₁ he h
      exact ⟨hI₂, hext.trans hext₂, fun x hx => hmem x (by simp [hx])⟩)
    (⟨hI₁, hext₁, fun x hx => (List.of_mem_zip hx).1⟩) hmeet
  exact ⟨hI₂, hext₂⟩

/-- A visit keeps whatever its edits keep: the stage is asked, its inputs are brought to the scales
it needs, and constants it reads are exchanged. The edges of the stage are the same ones throughout. -/
theorem scaleStage_keeps {I : Graph → Prop} {state state' : Scales × Graph} {id : StageId}
    (ask : ∀ {g g' scales step report}, I g → g.askScale id scales step = .ok (report, g') → I g' ∧ g.Extends g')
    (meet : ∀ {g g' s edge scales scales' wanted changed}, I g → g.stage? id = some s → edge ∈ s.inputs →
      Graph.meetScale (scales, g) edge wanted = .ok ((scales', g'), changed) → I g' ∧ g.Extends g')
    (fold : ∀ {g g' s edge scale changed}, I g → g.stage? id = some s → edge ∈ s.inputs →
      g.scaleConst edge scale = .ok (g', changed) → I g' ∧ g.Extends g')
    (hI : I state.2) (h : Graph.scaleStage state id = .ok (state', changed)) : I state'.2 := by
  obtain ⟨s, _, mid, _, _, _, report, g₃, _, _, hs, hmeet, _, _, hask, hfold, _⟩ := scaleStage_eq_ok h
  obtain ⟨hI₂, hext₂⟩ := meetScales_keeps ask meet hI hmeet
  obtain ⟨hI₃, hext₃⟩ := ask hI₂ hask
  exact (Pass.sweep_keeps
    (fun rest g' => I g' ∧ state.2.Extends g' ∧ ∀ x ∈ rest, x.1 ∈ s.slots .input)
    (by
      rintro ⟨edge, scale⟩ rest g₁ g₂ here ⟨hI₁, hext, hmem⟩ h
      obtain ⟨s₁, hs₁, he⟩ := hext.mem hs (hmem (edge, scale) (by simp))
      obtain ⟨hI₂, hext₂⟩ := fold hI₁ hs₁ he h
      exact ⟨hI₂, hext.trans hext₂, fun x hx => hmem x (by simp [hx])⟩)
    (⟨hI₃, hext₂.trans hext₃, fun x hx => (List.of_mem_zip hx).1⟩) hfold).1

theorem Orderly.scaleStage {state state' : Scales × Graph} {id : StageId} (o : state.2.Orderly)
    (h : Graph.scaleStage state id = .ok (state', changed)) : state'.2.Orderly :=
  scaleStage_keeps (fun o h => o.askScale h) (fun o hs he h => o.meetScale hs he h)
    (fun o hs he h => o.scaleConst hs he h) o h

/-! ## Outputs of the network -/

/-- The readers of a tensor move to one of the same height, one after the other; what one move keeps
is kept. -/
theorem Level.moveAll {t d : DataId} {readers : List EdgeId} {I : Graph → Prop} (level : g.Level t d)
    (wf : g.WellFormed) (hn : readers.Nodup) (hr : ∀ x ∈ readers, g.Joins .input x d) (hI : I g)
    (move : ∀ {g g' e r}, g.WellFormed → I g → InputLed g e r t g' → r.data = d → I g')
    (h : readers.foldlM (fun g edge => g.replaceInput edge t) g = .ok g') :
    g'.WellFormed ∧ g'.Level t d ∧ I g' := by
  obtain ⟨wf', level', hI', _⟩ := Outcome.foldlM_keeps
    (fun rest g => g.WellFormed ∧ g.Level t d ∧ I g ∧ rest.Nodup ∧ ∀ x ∈ rest, g.Joins .input x d)
    (by
      rintro edge rest g g' ⟨wf, level, hI, hn, hr⟩ h
      obtain ⟨r, hled⟩ := replaceInput_led h
      have he := hr edge (by simp)
      have hdata : r.data = d := by
        have := he.target
        rw [target?_of_edge? hled.edge, Option.some.injEq] at this
        exact this
      obtain ⟨wf', level'⟩ := level.moved wf hled he
      rw [List.nodup_cons] at hn
      refine ⟨wf', level', move wf hI hled hdata, hn.2, fun x hx => ?_⟩
      refine (hr x (by simp [hx])).inputLed wf hled (hdata ▸ he) ?_
      rintro rfl
      exact hn.1 hx)
    ⟨wf, level, hI, hn, hr⟩ h
  exact ⟨wf', level', hI'⟩

/-- An output of the network that something writes, and that is scaled, is written through an affine
power. -/
theorem descaleOutput_cases {scales : Scales} {d : DataId}
    (h : Graph.descaleOutput scales g d = .ok (g', changed)) :
    ∃ node, g.data? d = some node ∧
      (g' = g ∧ (node.producer = none ∨ (scales.get d).numEq F32.one = true) ∨
        ∃ new edge r node₁ name attrs z g₁ g₂, node.producer = some edge ∧
          new = intermediate (node.name ++ "@scaled") node.desc ∧
          OutputLed (g.pushData new).2 edge r (g.pushData new).1 g₁ ∧ g₁.data? d = some node₁ ∧
          node₁.consumers.foldlM (fun g₁ edge => g₁.replaceInput edge (g.pushData new).1) g₁ = .ok g₂ ∧
          rescaleAttrs (F32.one / scales.get d) = .ok attrs ∧
          Added g₂ { name, kind := .power, attrs } [(g.pushData new).1] [d] z g') := by
  simp only [Graph.descaleOutput, Outcome.bind_eq_ok, data_eq_ok] at h
  obtain ⟨node, hnode, h⟩ := h
  refine ⟨node, hnode, ?_⟩
  split at h
  next hproducer =>
    cases h
    exact .inl ⟨rfl, .inl hproducer⟩
  next edge hproducer =>
  split at h
  next hone =>
    cases h
    exact .inl ⟨rfl, .inr hone⟩
  simp only [Outcome.bind_eq_ok, Outcome.pure_eq_ok, Prod.mk.injEq, data_eq_ok] at h
  obtain ⟨⟨t, g₁⟩, hlike, g₂, hled, node₂, hnode₂, g₃, hmove, g₄, hadd, rfl, _⟩ := h
  obtain ⟨node', hnode', rfl, rfl⟩ := addLike_eq_ok.1 hlike
  rw [hnode, Option.some.injEq] at hnode'
  subst hnode'
  obtain ⟨r, hled⟩ := replaceOutput_led hled
  obtain ⟨attrs, z, hattrs, hadd⟩ := addRescale_added hadd
  exact .inr ⟨_, edge, r, node₂, _, attrs, z, g₂, g₃, hproducer, rfl, hled, hnode₂, hmove, hattrs, hadd⟩

/-- An output of the network may be written through an affine power. -/
theorem descaleOutput_eq_ok {scales : Scales} {d : DataId}
    (h : Graph.descaleOutput scales g d = .ok (g', changed)) :
    g' = g ∨ ∃ node new edge r node₁ template z g₁ g₂, g.data? d = some node ∧ node.producer = some edge ∧
      new = intermediate (node.name ++ "@scaled") node.desc ∧
      OutputLed (g.pushData new).2 edge r (g.pushData new).1 g₁ ∧ g₁.data? d = some node₁ ∧
      node₁.consumers.foldlM (fun g₁ edge => g₁.replaceInput edge (g.pushData new).1) g₁ = .ok g₂ ∧
      template.kind = .power ∧ Added g₂ template [(g.pushData new).1] [d] z g' := by
  obtain ⟨node, hnode, ⟨rfl, _⟩ | ⟨new, edge, r, node₁, name, attrs, z, g₁, g₂, hproducer, hnew, hled, hnode₁,
    hmove, _, hadd⟩⟩ := descaleOutput_cases h
  · exact .inl rfl
  · exact .inr ⟨node, new, edge, r, node₁, _, z, g₁, g₂, hnode, hproducer, hnew, hled, hnode₁, hmove, rfl, hadd⟩

theorem Orderly.descaleOutput {scales : Scales} {d : DataId} (o : g.Orderly)
    (h : Graph.descaleOutput scales g d = .ok (g', changed)) : g'.Orderly := by
  rcases descaleOutput_eq_ok h with rfl | ⟨node, new, edge, r, node₁, template, z, g₁, g₂, hnode, hproducer, rfl,
    hled, hnode₁, hmove, _, hadd⟩
  · exact o
  obtain ⟨b, s, hs, he, ht⟩ := (o.wellFormed.producer d node edge hnode).1 hproducer
  rw [target?_of_edge? (show g.edge? edge = some r from hled.edge), Option.some.injEq] at ht
  subst ht
  obtain ⟨wf₁, level, hne⟩ := o.divert rfl rfl (.inr rfl) hled hs he
  obtain ⟨wf₂, level₂, _⟩ := level.moveAll wf₁ (wf₁.nodup _ node₁ hnode₁)
    (fun x hx => (wf₁.consumers _ node₁ x hnode₁).1 hx) trivial (fun _ _ _ _ => trivial) hmove
  exact level₂.restored wf₂ hadd hne

theorem Orderly.scalePropagation {config : Config} (o : g.Orderly)
    (h : Pass.scalePropagation.run config g = .ok (g', changed)) : g'.Orderly := by
  simp only [Pass.scalePropagation] at h
  split at h
  · simp only [propagateScales, Outcome.bind_eq_ok, Outcome.pure_eq_ok, Prod.mk.injEq] at h
    obtain ⟨order, _, ⟨⟨scales, g₁⟩, _⟩, hstages, ⟨g₂, _⟩, houtputs, rfl, _⟩ := h
    have o₁ := Pass.sweepWith_keeps (fun _ state => state.2.Orderly)
      (fun _ _ _ _ _ o h => o.scaleStage h) o hstages
    exact Pass.sweep_keeps (fun _ g => g.Orderly) (fun _ _ _ _ _ o h => o.descaleOutput h) o₁ houtputs
  · cases h
    exact o

end NetLower.Graph
