/-
Strides can be settled once orders are, and settled stages stay settled.  Stages ask for
dense tensors, and at slot 0 possibly for aligned rows; so weights and biases, which are
dense, are never copied, and a copy of anything else has the descriptor of the original.
-/
import NetLower.Proofs.Graph.Possible
import NetLower.Proofs.Pass.LayoutFit
import NetLower.Proofs.Pass.Strides
import NetLower.Proofs.Pass.StridesAsked
import NetLower.Proofs.Tensor.Rules

namespace NetLower.Graph

open Outcome (FailsOnly Succeeds)

variable {g₀ g g' : Graph} {d : DataId} {id : StageId} {site : Site} {reqs : EdgeReqs} {e : EdgeId}

/-! ## Wishes -/

/-- What a stage may ask for at an edge. -/
def Modest (g : Graph) (e : EdgeId) (req : StrideReq) : Prop :=
  req = .compact ∨ req = alignedRows ∧ ∃ r, g.edge? e = some r ∧ r.slot = 0

/-- What is asked for at the edges of a graph. -/
def Wishes (reqs : EdgeReqs) (g : Graph) : Prop := ∀ e req, reqs[e.index]?.join = some req → g.Modest e req

theorem Wishes.imp (h : Wishes reqs g)
    (hedge : ∀ e r, g.edge? e = some r → ∃ r', g'.edge? e = some r' ∧ r'.slot = r.slot) : Wishes reqs g' := by
  intro e req hreq
  rcases h e req hreq with hreq | ⟨hreq, r, hr, hslot⟩
  · exact .inl hreq
  · obtain ⟨r', hr', hslot'⟩ := hedge e r hr
    exact .inr ⟨hreq, r', hr', hslot'.trans hslot⟩

theorem Wishes.added {template : StageTemplate} {inputs outputs : List DataId} {z : StageId} (h : Wishes reqs g)
    (ha : Added g template inputs outputs z g') : Wishes reqs g' :=
  h.imp fun e r hr => ⟨r, ha.edge? e r hr, rfl⟩

theorem Wishes.inputLed {r : Edge} (h : Wishes reqs g) (hl : InputLed g e r d g') : Wishes reqs g' := by
  refine h.imp fun x r' hr' => ?_
  rw [hl.edge?]
  split
  next hx =>
    rw [hx, hl.edge, Option.some.injEq] at hr'
    exact ⟨_, rfl, by rw [← hr']⟩
  · exact ⟨r', hr', rfl⟩

theorem Wishes.outputLed {r : Edge} (h : Wishes reqs g) (hl : OutputLed g e r d g') : Wishes reqs g' := by
  refine h.imp fun x r' hr' => ?_
  rw [hl.edge?]
  split
  next hx =>
    rw [hx, hl.edge, Option.some.injEq] at hr'
    exact ⟨_, rfl, by rw [← hr']⟩
  · exact ⟨r', hr', rfl⟩

theorem Wishes.setReq (h : Wishes reqs g) (d : DataId) (req : StrideReq) : Wishes reqs (g.setReq d req) :=
  h.imp fun _ r hr => ⟨r, hr, rfl⟩

/-- Stages are modest. -/
theorem WellFormed.wishes (wf : g.WellFormed) (h : g.edgeReqs = .ok reqs) : Wishes reqs g := by
  intro e req hreq
  obtain ⟨id, site, report, hsite, hreport, hmem⟩ := (wf.edgeReqs_eq_ok h).2.1 hreq
  obtain ⟨kind, k, he, hwish⟩ := Site.mem_asked.1 hmem
  refine (Site.strides_modest hreport hwish).imp_right fun hrows => ⟨hrows.2, ?_⟩
  obtain ⟨d, _, hedge, _⟩ := wf.slots id site.stage kind k e (site_eq_ok.1 hsite).1 he
  exact ⟨_, hedge, hrows.1⟩

/-- Settled stages can say what they ask for. -/
theorem Fits.edgeReqs_succeeds (f : g.Fits Site.Done) (o : g.Orderly) : Succeeds g.edgeReqs := by
  obtain ⟨order, horder⟩ := o.runOrder
  refine .after horder (.foldlM (fun rest _ => ∀ id ∈ rest, ∃ s, g.stage? id = some s)
    (fun _ _ _ _ hlive _ x hx => hlive x (by simp [hx])) (fun id rest reqs hlive => ?_) fun id hid => ?_)
  · obtain ⟨s, hs⟩ := hlive id (by simp)
    obtain ⟨site, hsite, rfl⟩ := o.wellFormed.site_of_stage hs
    have hdone := f.all id site hsite
    obtain ⟨report, hreport⟩ := hdone.fit.strides hdone.stub
    exact .after hsite (.after hreport (.pure _))
  · exact mem_liveIds.1 ((runOrder_perm horder).mem_iff.1 hid)

/-! ## One tensor -/

/-- Between two edits: stages are settled, wishes are modest, and tensors show what they showed. -/
structure Straight (reqs : EdgeReqs) (g₀ g : Graph) : Prop where
  fits : g.Fits Site.Done
  wishes : Wishes reqs g
  looks : KeepsLooks g₀ g

theorem SameLooks.setReq (d : DataId) (req : StrideReq) : SameLooks g (g.setReq d req) := .modifyData fun _ => rfl

theorem Fits.setReq (f : g.Fits Site.Done) (wf : g.WellFormed) (d : DataId) (req : StrideReq) :
    (g.setReq d req).Fits Site.Done := f.touchUp Site.stable_done wf fun _ => ⟨rfl, rfl⟩

theorem Straight.setReq (st : Straight reqs g₀ g) (wf : g.WellFormed) (d : DataId) (req : StrideReq) :
    Straight reqs g₀ (g.setReq d req) :=
  ⟨st.fits.setReq wf d req, st.wishes.setReq d req, st.looks.trans (SameLooks.setReq d req).keeps⟩

theorem Straight.meetWriter {node : Data} {current current' : StrideReq} {changed : Bool} (st : Straight reqs g₀ g)
    (o : g.Orderly) (hnode : g.data? d = some node)
    (h : g.meetWriter reqs d current = .ok (current', g', changed)) :
    Straight reqs g₀ g' ∧ (node.usage = .const → current' = current) := by
  have wf := o.wellFormed
  rcases meetWriter_eq_ok h with _ | ⟨hnode', hproducer, _, _⟩ |
    @⟨node', new, edge, req, r, name, z, g₁, _, hnode', hproducer, _, hc, hp, hlook, _, _, hled, hadd⟩
  · exact ⟨st, fun _ => rfl⟩
  · refine ⟨st, fun hconst => ?_⟩
    rw [hnode, Option.some.injEq] at hnode'
    rw [← hnode', wf.sources d node hnode (.inl hconst)] at hproducer
    cases hproducer
  rw [hnode, Option.some.injEq] at hnode'
  subst hnode'
  have hjoins := (wf.producer d node edge hnode).1 hproducer
  have husage := wf.usage_of_written hjoins hnode
  have hhalf := st.fits.half (fun _ h => h.fit) wf hjoins hnode
  obtain ⟨b, s, hs, he, ht⟩ := hjoins
  rw [target?_of_edge? (show g.edge? edge = some r from hled.edge), Option.some.injEq] at ht
  subst ht
  have hu : new.usage = .intermediate := congrArg Look.usage hlook
  have hfixed : Look.fixed .output r.slot node.look new.look := by
    rw [hlook]
    exact ⟨.written rfl rfl husage, fun _ => rfl⟩
  obtain ⟨f₁, ⟨x, hx, hxlook⟩, y, hy, hylook⟩ :=
    st.fits.divert Site.stable_done wf hc hp (Data.stocked_of_usage (by rw [hu]; decide)) hnode hled hfixed
  obtain ⟨wf₁, _, _⟩ := o.divert hc hp (.inr hu) hled hs he
  have wishes₁ : Wishes reqs (g.pushData new).2 := st.wishes.imp fun _ r hr => ⟨r, hr, rfl⟩
  have looks₁ := (keepsLooks_pushData new).trans hled.sameLooks.keeps
  refine ⟨⟨?_, (wishes₁.outputLed hled).added hadd, st.looks.trans (looks₁.trans hadd.sameLooks.keeps)⟩,
    fun _ => rfl⟩
  refine f₁.addRelay Site.stable_done wf₁ hadd hy hx fun site hrelay => ?_
  rw [hxlook, hylook, hlook] at hrelay
  exact hrelay.done_copy rfl hhalf rfl

theorem Straight.meetReader {node : Data} {current current' : StrideReq} {edge : EdgeId} {index : Nat}
    {changed : Bool} (st : Straight reqs g₀ g) (o : g.Orderly) (hnode : g.data? d = some node)
    (hfake : node.usage ≠ .fake) (hdense : node.usage = .const → current = .compact)
    (hjoins : g.Joins .input edge d)
    (h : Graph.meetReader reqs d (current, g) (edge, index) = .ok ((current', g'), changed)) :
    Straight reqs g₀ g' ∧ (node.usage = .const → current' = .compact) := by
  have wf := o.wellFormed
  rcases meetReader_eq_ok h with _ | ⟨hreq, hmerge⟩ |
    @⟨node', new, req, r, name, z, g₁, _, hreq, hmerge, hnode', hc, hp, hlook, _, _, hadd, hled⟩
  · exact ⟨st, hdense⟩
  · refine ⟨st, fun hconst => ?_⟩
    rw [hdense hconst] at hmerge
    exact (StrideReq.covers_of_merge hmerge).1.eq_compact
  rw [hnode, Option.some.injEq] at hnode'
  subst hnode'
  have hhalf := st.fits.half (fun _ h => h.fit) wf hjoins hnode
  obtain ⟨_, _, slot, _, _, _, hedge, _⟩ := wf.edge_of_joins hjoins
  have hr := hled.edge
  rw [hadd.edge? edge _ hedge, Option.some.injEq] at hr
  -- A constant is dense, and only slot 0 can ask for anything else.
  have hconst (hslot : r.slot ≠ 0) : node.usage ≠ .const := by
    intro hconst
    rcases st.wishes edge req hreq with rfl | ⟨_, r', hr', hzero⟩
    · rw [hdense hconst, show StrideReq.compact.merge .compact = some .compact by decide] at hmerge
      cases hmerge
    · rw [hedge, Option.some.injEq] at hr'
      rw [← hr, hr'] at hslot
      exact hslot hzero
  have hstocked : new.Stocked :=
    Data.stocked_of_usage (by rw [show new.usage = .intermediate from congrArg Look.usage hlook]; decide)
  have wishes₁ : Wishes reqs (g.pushData new).2 := st.wishes.imp fun _ r hr => ⟨r, hr, rfl⟩
  refine ⟨⟨st.fits.tap Site.stable_done wf hc hp hstocked hnode hadd hled (hr ▸ rfl) (fun site hrelay => ?_) ?_,
    (wishes₁.added hadd).inputLed hled,
    st.looks.trans ((keepsLooks_pushData new).trans (hadd.sameLooks.trans hled.sameLooks).keeps)⟩, hdense⟩
  · exact hrelay.done_copy rfl hhalf (by rw [hlook]; rfl)
  · rw [hlook]
    exact ⟨.intermediate rfl rfl hfake hconst, fun _ => rfl⟩

theorem addCopy_possible {source target : DataId} {node : Data} (hs : ∃ node, g.data? source = some node)
    (ht : g.data? target = some node) (hp : node.producer = none)
    (hu : node.usage = .output ∨ node.usage = .intermediate) : ∃ g', g.addCopy source target = .ok g' := by
  obtain ⟨z, g', h⟩ := @addStage_possible g { name := node.name ++ "@copy", kind := .copy } [source] [target]
    (by simpa using hs) (by simpa using ⟨node, ht, hp, hu⟩)
  exact ⟨g', Outcome.bind_eq_ok.2 ⟨node, data_eq_ok.2 ht, Outcome.bind_eq_ok.2 ⟨_, h, rfl⟩⟩⟩

theorem Orderly.meetWriter_succeeds {node : Data} {current : StrideReq} (o : g.Orderly)
    (hnode : g.data? d = some node) : Succeeds (g.meetWriter reqs d current) := by
  have wf := o.wellFormed
  refine .after (data_eq_ok.2 hnode) ?_
  split
  · exact .pure _
  next edge hproducer =>
  split
  · exact .pure _
  next req _ =>
  split
  · exact .pure _
  refine .after (addLike_eq_ok.2 ⟨node, hnode, rfl, rfl⟩) ?_
  have hjoins := (wf.producer d node edge hnode).1 hproducer
  have husage := wf.usage_of_written hjoins hnode
  obtain ⟨b, s, slot, _, hs, he, hedge, _⟩ := wf.edge_of_joins hjoins
  obtain ⟨g₁, hreplace⟩ := replaceOutput_possible
    (show (g.pushData (intermediate (node.name ++ "@strided") node.desc)).2.edge? edge = some _ from hedge) rfl
    (data?_pushData_self _) rfl
  refine .after hreplace ?_
  obtain ⟨r, hled⟩ := replaceOutput_led hreplace
  have hr := hled.edge
  rw [edge?_pushData, hedge, Option.some.injEq] at hr
  subst hr
  obtain ⟨_, _, hne⟩ := o.divert rfl rfl (.inr rfl) hled hs (List.mem_of_getElem? he)
  have hold := hled.bereaved hne.symm (data?_pushData_old hnode)
  obtain ⟨y, hy, _⟩ := hled.sameLooks.data_of
    (@data?_pushData_self g (intermediate (node.name ++ "@strided") node.desc))
  obtain ⟨g₂, hcopy⟩ := @addCopy_possible
    (g₁.setReq (g.pushData (intermediate (node.name ++ "@strided") node.desc)).1 req)
    (g.pushData (intermediate (node.name ++ "@strided") node.desc)).1 d { node with producer := none }
    (by
      obtain ⟨y', hy', _⟩ := (SameLooks.setReq _ req).data_of hy
      exact ⟨y', hy'⟩)
    (by rw [Graph.setReq, data?_modifyData, if_neg hne.symm, hold]) rfl husage
  exact .after hcopy (.pure _)

theorem Orderly.meetReader_succeeds {current : StrideReq} {edge : EdgeId} {index : Nat} (o : g.Orderly)
    (hjoins : g.Joins .input edge d) : Succeeds (Graph.meetReader reqs d (current, g) (edge, index)) := by
  obtain ⟨b, s, slot, node, hs, he, hedge, hnode⟩ := o.wellFormed.edge_of_joins hjoins
  simp only [Graph.meetReader]
  split
  · exact .pure _
  next req _ =>
  split
  · exact .pure _
  refine .after (addLike_eq_ok.2 ⟨node, hnode, rfl, rfl⟩) ?_
  simp only [Graph.setReq, modifyData_pushData]
  generalize hnew :
    ({ intermediate (node.name ++ ("@strides=" ++ toString index)) node.desc with req } : Data) = new
  obtain ⟨g₁, hcopy⟩ := @addCopy_possible (g.pushData new).2 d (g.pushData new).1 new
    ⟨node, data?_pushData_old hnode⟩ (data?_pushData_self new) (hnew ▸ rfl) (hnew ▸ .inr rfl)
  refine .after hcopy ?_
  obtain ⟨name, z, hadd⟩ := addCopy_added hcopy
  obtain ⟨x, hx, _⟩ := hadd.sameLooks.data_of (data?_pushData_self new)
  obtain ⟨g₂, hreplace⟩ := replaceInput_possible (hadd.edge? edge _ hedge) rfl ⟨x, hx⟩
  exact .after hreplace (.pure _)

/-- The strides of a tensor can be settled. -/
theorem Straight.resolveStrides (st : Straight reqs g g) (o : g.Orderly) (hd : ∃ node, g.data? d = some node) :
    Succeeds (g.resolveStrides reqs d) ∧
      ∀ {g' changed}, g.resolveStrides reqs d = .ok (g', changed) → Straight reqs g g' := by
  obtain ⟨node, hnode⟩ := hd
  by_cases hfake : node.usage = .fake
  · have hsame : g.resolveStrides reqs d = .ok (g, false) := by
      simp only [Graph.resolveStrides, data_eq_ok.2 hnode, Outcome.bind_eq_ok, Except.ok.injEq, exists_eq_left',
        if_pos hfake]
      rfl
    refine ⟨.of_eq_ok hsame, fun h => ?_⟩
    rw [hsame] at h
    cases h
    exact st
  let I (state : StrideReq × Graph) : Prop := Straight reqs g state.2 ∧ (node.usage = .const → state.1 = .compact)
  have start {current g₁ changed} (h : g.meetWriter reqs d (usageReq node.usage) = .ok (current, g₁, changed)) :
      Reading d I node.consumers.zipIdx (current, g₁) := by
    obtain ⟨st₁, hcurrent⟩ := st.meetWriter o hnode h
    exact o.reading hnode h ⟨st₁, fun hconst => (hcurrent hconst).trans (by rw [hconst]; rfl)⟩
  have step : ∀ x rest state state' changed, Reading d I (x :: rest) state →
      Graph.meetReader reqs d state x = .ok (state', changed) → Reading d I rest state' := by
    intro x rest state state' changed hr h
    refine hr.step (fun inv => ?_) h
    obtain ⟨st, hdense⟩ := inv
    obtain ⟨node₁, hnode₁, hlook⟩ := st.looks d node hnode
    have husage : node₁.usage = node.usage := congrArg Look.usage hlook
    have := st.meetReader hr.orderly hnode₁ (husage ▸ hfake) (husage ▸ hdense) (hr.joins x (by simp)) h
    rwa [husage] at this
  constructor
  · refine .after (data_eq_ok.2 hnode) ?_
    rw [if_neg hfake]
    refine (o.meetWriter_succeeds hnode).bind fun written hwriter => ?_
    obtain ⟨current, g₁, _⟩ := written
    refine FailsOnly.bind (Pass.failsOnly_sweepWith (Reading d I) step (fun x rest state hr => ?_) (start hwriter))
      fun _ _ => .pure _
    exact hr.orderly.meetReader_succeeds (hr.joins x (by simp))
  · intro g' changed h
    simp only [Graph.resolveStrides, data_eq_ok.2 hnode, Outcome.bind_eq_ok, Except.ok.injEq, exists_eq_left',
      if_neg hfake, Outcome.pure_eq_ok, Prod.mk.injEq] at h
    obtain ⟨⟨current, g₁, _⟩, hwriter, ⟨⟨current', g₂⟩, _⟩, hreaders, rfl, _⟩ := h
    have done := Pass.sweepWith_keeps (Reading d I) step (start hwriter) hreaders
    exact done.inv.1.setReq done.orderly.wellFormed d current'

/-- Strides can be settled, and stages stay settled. -/
theorem Fits.strides (f : g.Fits Site.Done) (o : g.Orderly) (config : Config) :
    Succeeds (Pass.strides.run config g) ∧
      ∀ {g' changed}, Pass.strides.run config g = .ok (g', changed) → g'.Fits Site.Done := by
  let I (reqs : EdgeReqs) (rest : List DataId) (x : Graph) : Prop :=
    x.Fits Site.Done ∧ Wishes reqs x ∧ x.Orderly ∧ ∀ d ∈ rest, ∃ node, x.data? d = some node
  have settle {reqs d rest x} (h : I reqs (d :: rest) x) := @Straight.resolveStrides x d reqs
    ⟨h.1, h.2.1, fun _ node hnode => ⟨node, hnode, rfl⟩⟩ h.2.2.1 (h.2.2.2 d (by simp))
  have step (reqs) : ∀ d rest x x' changed, I reqs (d :: rest) x → x.resolveStrides reqs d = .ok (x', changed) →
      I reqs rest x' := by
    intro d rest x x' changed hI h
    have st := (settle hI).2 h
    refine ⟨st.fits, st.wishes, hI.2.2.1.resolveStrides h, fun y hy => ?_⟩
    obtain ⟨node, hnode⟩ := hI.2.2.2 y (by simp [hy])
    obtain ⟨node', hnode', _⟩ := st.looks y node hnode
    exact ⟨node', hnode'⟩
  have start {reqs} (h : g.edgeReqs = .ok reqs) : I reqs g.dataIds g :=
    ⟨f, o.wellFormed.wishes h, o, fun d hd => mem_dataIds.1 hd⟩
  constructor
  · exact (f.edgeReqs_succeeds o).bind fun reqs h =>
      Pass.failsOnly_sweep (I reqs) (step reqs) (fun _ _ _ hI => (settle hI).1) (start h)
  · intro g' changed h
    simp only [Pass.strides, Outcome.bind_eq_ok] at h
    obtain ⟨reqs, hreqs, h⟩ := h
    exact (Pass.sweep_keeps (I reqs) (step reqs) (start hreqs) h).1

end NetLower.Graph
