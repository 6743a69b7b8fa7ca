/-
No pass closes a gap or opens one: a tensor of the network that nothing writes is read
after the passes if it was read before them, and all that passes add is written.
-/
import NetLower.Proofs.Graph.Gaps
import NetLower.Proofs.Pass.BatchFit
import NetLower.Proofs.Pass.DataOrder
import NetLower.Proofs.Pass.Scale
import NetLower.Proofs.Pass.Strides

namespace NetLower.Graph

variable {g₀ g g' : Graph} {id b : StageId} {s : Stage} {site : Site} {edge : EdgeId} {d t : DataId}
  {changed : Bool}

/-! ## Batches -/

theorem attached_pushAll {nodes : List Data} {kind : EdgeKind} :
    (g.pushAll nodes).Attached kind d ↔ g.Attached kind d := Iff.rfl

theorem mem_freshIds {nodes : List Data} {node : Data} (h : (g.pushAll nodes).data? d = some node)
    (hnone : g.data? d = none) : d ∈ g.freshIds nodes.length := by
  have hlt := lt_of_data? h
  rw [data?, Array.getElem?_eq_none_iff] at hnone
  simp only [pushAll, Array.size_append, List.size_toArray] at hlt
  simp only [freshIds, List.mem_map, List.mem_range'_1]
  exact ⟨d.index, ⟨hnone, hlt⟩, rfl⟩

/-- The clones read the items and what they share, and write the items of the result. -/
theorem WellFormed.addClones {template : StageTemplate} {extra : List DataId} {items : List (DataId × DataId)}
    (wf : g.WellFormed) (h : g.addClones template extra items = .ok g') :
    g'.WellFormed ∧ SameUses g g' ∧ ∀ kind d, g'.Attached kind d ↔
      g.Attached kind d ∨ ∃ item ∈ items, d ∈ slotsOf (item.1 :: extra) [item.2] kind := by
  have step := Outcome.foldlM_keeps
    (fun rest x => x.WellFormed ∧ SameUses g x ∧ ∃ done, items.zipIdx = done ++ rest ∧
      ∀ kind d, x.Attached kind d ↔
        g.Attached kind d ∨ ∃ item ∈ done, d ∈ slotsOf (item.1.1 :: extra) [item.1.2] kind)
    (by
      rintro ⟨⟨itemInput, itemOutput⟩, index⟩ rest x x' ⟨wf, uses, done, hsplit, hattached⟩ h
      simp only [Outcome.bind_eq_ok, Outcome.pure_eq_ok] at h
      obtain ⟨⟨z, _⟩, hadd, rfl⟩ := h
      have hadd := addStage_added hadd
      refine ⟨wf.added hadd (by simp), uses.trans hadd.sameLooks.sameUses,
        done ++ [((itemInput, itemOutput), index)], by simp [hsplit], fun kind d => ?_⟩
      rw [hadd.attached wf, hattached, or_assoc]
      simp only [List.mem_append, List.mem_singleton, or_and_right, exists_or, exists_eq_left])
    ⟨wf, fun _ => rfl, [], rfl, by simp⟩ h
  obtain ⟨wf', uses, done, hdone, hattached⟩ := step
  refine ⟨wf', uses, fun kind d => (hattached kind d).trans (or_congr_right ?_)⟩
  rw [List.append_nil] at hdone
  subst hdone
  constructor
  · intro hd
    obtain ⟨item, hitem, hd⟩ := hd
    exact ⟨item.1, List.fst_mem_of_mem_zipIdx hitem, hd⟩
  · intro hd
    obtain ⟨item, hitem, hd⟩ := hd
    obtain ⟨k, hk⟩ := List.getElem?_of_mem hitem
    exact ⟨(item, k), List.mem_zipIdx_iff_getElem?.2 hk, hd⟩

/-- What a stage with one output writes. -/
theorem target_of_single {kind : EdgeKind} (h : g.AtSlot kind id 0 t) (hs : g.stage? id = some s)
    (hone : (s.slots kind).length = 1) : (∃ e ∈ s.slots kind, g.target? e = some d) ↔ d = t := by
  obtain ⟨s', e, hs', he, ht⟩ := h
  rw [hs, Option.some.injEq] at hs'
  subst hs'
  obtain ⟨x, hx⟩ := List.length_eq_one_iff.1 hone
  rw [hx, List.getElem?_cons_zero, Option.some.injEq] at he
  subst he
  simp [hx, ht, eq_comm]

theorem mem_inputIds {reads : List DataId} (h : g.AtSlot .input id 0 t) (hs : g.stage? id = some s)
    (hreads : g.inputIds s = .ok reads) : d ∈ reads ↔ d = t ∨ d ∈ reads.drop 1 := by
  obtain ⟨s', e, hs', he, ht⟩ := h
  rw [hs, Option.some.injEq] at hs'
  subst hs'
  obtain ⟨rest, hinputs⟩ : ∃ rest, s.inputs = e :: rest := by
    cases hin : s.inputs with
    | nil => simp [Stage.slots, hin] at he
    | cons x rest =>
      simp only [Stage.slots, hin, List.getElem?_cons_zero, Option.some.injEq] at he
      exact ⟨rest, by rw [he]⟩
  rw [inputIds, hinputs, Outcome.mapM_eq_ok, List.forall₂_cons_left_iff] at hreads
  obtain ⟨x, ids, hx, _, rfl⟩ := hreads
  rw [edgeData_eq_ok, ht, Option.some.injEq] at hx
  simp [hx]

theorem links_itemNodes {name : String} {desc : Desc} {indices : List Nat} :
    ∀ node ∈ itemNodes name desc indices, node.consumers = [] ∧ node.producer = none := by
  intro node hnode
  obtain ⟨index, _, rfl⟩ := List.mem_map.1 hnode
  exact ⟨rfl, rfl⟩

/-- A stage taken apart: a split of its input into items, clones that make an item of the result out
of each, and a concatenation of these. -/
structure Parted (g : Graph) (id : StageId) (batch : Nat) (s : Stage) (input output : DataId)
    (reads items results : List DataId) (g₁ g' : Graph) : Prop where
  stage : g.stage? id = some s
  mainInput : g.AtSlot .input id 0 input
  mainOutput : g.AtSlot .output id 0 output
  inputIds : g.inputIds s = .ok reads
  removed : Removed g id s g₁
  itemCount : items.length = batch
  resultCount : results.length = batch
  attached : ∀ kind d, g'.Attached kind d ↔ ((g₁.Attached kind d ∨ d ∈ slotsOf [input] items kind) ∨
    ∃ item ∈ items.zip results, d ∈ slotsOf (item.1 :: reads.drop 1) [item.2] kind) ∨
    d ∈ slotsOf results [output] kind
  old : ∀ d node, g.data? d = some node → d ∉ items ∧ d ∉ results
  kept : ∀ d node, g.data? d = some node → ∃ node', g'.data? d = some node' ∧ node'.usage = node.usage
  new : ∀ d node, g.data? d = none → g'.data? d = some node → d ∈ items ∨ d ∈ results

theorem WellFormed.splitStage_parted {batch : Nat} (wf : g.WellFormed) (h : g.splitStage id batch = .ok g') :
    ∃ s input output reads items results g₁, g.Parted id batch s input output reads items results g₁ g' := by
  obtain ⟨s, input, output, reads, nodeIn, nodeOut, descIn, descOut, g₁, g₂, g₃, g₄, g₅, hs, hin, hout, hreads,
    hremoved, ⟨hnodeIn, _, hg₂⟩, ⟨hnodeOut, _, hg₃⟩, hsplit, hclones, hconcat⟩ := splitStage_eq_ok h
  have wf₁ := wf.removed hremoved
  have wf₃ : g₃.WellFormed := by
    rw [hg₃, hg₂]
    exact (wf₁.pushAll links_itemNodes).pushAll links_itemNodes
  obtain ⟨z, attrs, _, hadd⟩ := addBatchStage_axis hsplit
  obtain ⟨wf₅, uses₅, hcloned⟩ := (wf₃.added hadd (nodup_freshIds _)).addClones hclones
  obtain ⟨z', attrs', _, hadd'⟩ := addBatchStage_axis hconcat
  have uses : SameUses g₃ g' := (hadd.sameLooks.sameUses.trans uses₅).trans hadd'.sameLooks.sameUses
  have here {d node} (hnode : g.data? d = some node) : ∃ node', g₁.data? d = some node' ∧
      node'.usage = node.usage :=
    hremoved.sameLooks.sameUses.data_of hnode
  refine ⟨s, input, output, reads, g₁.freshIds batch, g₂.freshIds batch, g₁, hs, inputData_eq_ok.1 hin,
    outputData_eq_ok.1 hout, hreads, hremoved, length_freshIds _, length_freshIds _, fun kind d => ?_,
    fun d node hnode => ?_, fun d node hnode => ?_, fun d node hnone hnode => ?_⟩
  · rw [hadd'.attached wf₅, hcloned, hadd.attached wf₃, hg₃, attached_pushAll, hg₂, attached_pushAll]
  · obtain ⟨node₁, hnode₁, _⟩ := here hnode
    constructor
    · intro hmem
      rw [data?_freshIds hmem] at hnode₁
      cases hnode₁
    · intro hmem
      have hnone := data?_freshIds hmem
      rw [hg₂, data?_pushAll_old hnode₁] at hnone
      cases hnone
  · obtain ⟨node₁, hnode₁, husage₁⟩ := here hnode
    have hnode₃ : g₃.data? d = some node₁ := by
      rw [hg₃, hg₂]
      exact data?_pushAll_old (data?_pushAll_old hnode₁)
    obtain ⟨node', hnode', husage'⟩ := uses.data_of hnode₃
    exact ⟨node', hnode', husage'.trans husage₁⟩
  · have hnone₁ : g₁.data? d = none := by rw [hremoved.data?, hnone, Option.map_none]
    obtain ⟨node₃, hnode₃, _⟩ := uses.symm.data_of hnode
    cases hnode₂ : g₂.data? d with
    | some node₂ =>
      rw [hg₂] at hnode₂
      have hmem := mem_freshIds hnode₂ hnone₁
      rw [itemNodes, List.length_map, List.length_range] at hmem
      exact .inl hmem
    | none =>
      rw [hg₃] at hnode₃
      have hmem := mem_freshIds hnode₃ hnode₂
      rw [itemNodes, List.length_map, List.length_range] at hmem
      exact .inr hmem

/-- In place of a stage with one output there are a split, clones and a concatenation: together they
read what the stage read and write what it wrote, and they write all the items. -/
theorem SameGaps.splitStage {batch : Nat} (wf : g.WellFormed) (hsite : g.site id = .ok site)
    (hone : site.outputs.length = 1) (hmany : 1 < batch) (h : g.splitStage id batch = .ok g') : SameGaps g g' := by
  obtain ⟨s, input, output, reads, items, results, g₁, parted⟩ := wf.splitStage_parted h
  have hone' : (s.slots .output).length = 1 := by
    have hstage := (site_eq_ok.1 hsite).1
    rw [parted.stage, Option.some.injEq] at hstage
    rw [hstage, ← length_of_site hsite]
    exact hone
  have hpairs : (items.zip results).length = batch := by
    rw [List.length_zip, parted.itemCount, parted.resultCount, Nat.min_self]
  refine ⟨parted.kept, fun d node hnode => ?_, fun d node hnode _ _ => ?_, fun d node hnone hnode _ => ?_⟩
  · obtain ⟨hnot, hnot'⟩ := parted.old d node hnode
    have hclone : ¬ ∃ item ∈ items.zip results, d = item.2 := by
      rintro ⟨item, hitem, rfl⟩
      exact hnot' (List.of_mem_zip hitem).2
    rw [parted.attached, parted.removed.attached wf, target_of_single parted.mainOutput parted.stage hone']
    simp only [slotsOf, List.mem_singleton]
    rw [or_iff_left hnot, or_iff_left hclone]
  · obtain ⟨hnot, hnot'⟩ := parted.old d node hnode
    have hclone : (∃ item ∈ items.zip results, d ∈ item.1 :: reads.drop 1) ↔ d ∈ reads.drop 1 := by
      constructor
      · rintro ⟨item, hitem, hd⟩
        refine (List.mem_cons.1 hd).resolve_left fun heq => ?_
        exact hnot (heq ▸ (List.of_mem_zip hitem).1)
      · intro hd
        exact ⟨_, List.getElem_mem (show 0 < (items.zip results).length by omega), List.mem_cons_of_mem _ hd⟩
    have hread : (∃ e ∈ s.slots .input, g.target? e = some d) ↔ d = input ∨ d ∈ reads.drop 1 :=
      (mem_mapM_target parted.inputIds).symm.trans (mem_inputIds parted.mainInput parted.stage parted.inputIds)
    rw [parted.attached, parted.removed.attached wf, hread]
    simp only [slotsOf, List.mem_singleton]
    rw [or_iff_left hnot', hclone, or_assoc]
  · rw [parted.attached]
    rcases parted.new d node hnone hnode with hmem | hmem
    · exact .inl (.inl (.inr hmem))
    · have hle : results.length ≤ items.length := by
        have hitems := parted.itemCount
        have hresults := parted.resultCount
        omega
      rw [← List.map_snd_zip hle] at hmem
      obtain ⟨item, hitem, rfl⟩ := List.mem_map.1 hmem
      exact .inl (.inr ⟨item, hitem, List.mem_singleton.2 rfl⟩)

theorem SameGaps.adjustBatch {config : Config} (o : g.Orderly) (f : g.Fits Site.Early)
    (h : Pass.adjustBatch.run config g = .ok (g', changed)) : SameGaps g g' := by
  simp only [Pass.adjustBatch, Outcome.bind_eq_ok] at h
  obtain ⟨order, _, h⟩ := h
  refine (Pass.sweep_keeps (fun _ x => x.Fits Site.Early ∧ x.Orderly ∧ SameGaps g x)
    (fun id _ x x' _ hx h => ?_) ⟨f, o, .refl⟩ h).2.2
  obtain ⟨f, o, same⟩ := hx
  obtain ⟨site, hsite, ⟨_, rfl⟩ | ⟨batch, hbatch, h⟩⟩ := adjustBatch_eq_ok h
  · exact ⟨f, o, same⟩
  · obtain ⟨weighted, _, hmany, _⟩ := splitBatch?_eq_some (f.all id site hsite).fit hbatch
    refine ⟨f.splitStage o.wellFormed hsite hbatch h, o.splitStage h, same.trans ?_⟩
    exact .splitStage o.wellFormed hsite weighted.outputs hmany h

/-! ## Scales -/

theorem not_flows_const {node : Data} (h : node.usage = .const) : ¬ node.Flows := by
  simp [Data.Flows, h]

/-- A reader of a constant moves to another constant. -/
theorem SameGaps.moveConst {r : Edge} {node new : Data} (h : InputLed g edge r t g') (wf : g.WellFormed)
    (hs : g.stage? b = some s) (he : edge ∈ s.inputs) (hnode : g.data? r.data = some node)
    (hconst : node.usage = .const) (ht : g.data? t = some new) (hnew : new.usage = .const) : SameGaps g g' := by
  refine .inputLed h wf ⟨b, s, hs, he, target?_of_edge? h.edge⟩ (.inl fun x hx => ?_) fun x hx hflows => ?_
  · rw [hnode, Option.some.injEq] at hx
    exact hx ▸ not_flows_const hconst
  · rw [ht, Option.some.injEq] at hx
    exact absurd hflows (hx ▸ not_flows_const hnew)

/-- A reader of a constant moves to a constant in a graph with one constant more. -/
theorem SameGaps.moveToNew {r r' : Edge} {node new x : Data} (wf : g.WellFormed) (hc : new.consumers = [])
    (hp : new.producer = none) (hnew : new.usage = .const) (hs : g.stage? b = some s) (he : edge ∈ s.inputs)
    (hr : g.edge? edge = some r) (hnode : g.data? r.data = some node) (hconst : node.usage = .const)
    (h : InputLed (g.pushData new).2 edge r' t g') (ht : (g.pushData new).2.data? t = some x)
    (hx : x.usage = .const) : SameGaps g g' := by
  have hr' := h.edge
  rw [edge?_pushData, hr, Option.some.injEq] at hr'
  subst hr'
  refine (SameGaps.pushData (not_flows_const hnew)).trans ?_
  exact .moveConst h (wf.pushData hc hp) hs he (data?_pushData_old hnode) hconst ht hx

theorem SameGaps.meetScale {scales scales' : Scales} {wanted : Option F32} (o : g.Orderly)
    (hs : g.stage? b = some s) (he : edge ∈ s.inputs)
    (h : Graph.meetScale (scales, g) edge wanted = .ok ((scales', g'), changed)) : SameGaps g g' := by
  rcases meetScale_eq_ok h with rfl | ⟨r, node, suffix, template, z, g₁, r', hr, hnode, _, _, hadd, hled⟩
  · exact .refl
  · exact .tap o rfl rfl hadd hled hs he (target?_of_edge? hr)

theorem SameGaps.scaleConst {scale : Option F32} (o : g.Orderly) (hs : g.stage? b = some s) (he : edge ∈ s.inputs)
    (h : g.scaleConst edge scale = .ok (g', changed)) : SameGaps g g' := by
  rcases scaleConst_eq_ok h with rfl | ⟨r, node, scaled, t, r', g₁, hr, hnode, hconst, ht, hscaled, _,
    hgraph, hled⟩
  · exact .refl
  rcases hgraph with rfl | ⟨_, hc, hp, _, rfl⟩
  · have hr' := hled.edge
    rw [hr, Option.some.injEq] at hr'
    subst hr'
    exact .moveConst hled o.wellFormed hs he hnode hconst ht hscaled
  · exact .moveToNew o.wellFormed hc hp hscaled hs he hr hnode hconst hled ht hscaled

theorem SameGaps.descaleOutput {scales : Scales} (o : g.Orderly)
    (h : Graph.descaleOutput scales g d = .ok (g', changed)) : SameGaps g g' := by
  rcases descaleOutput_eq_ok h with rfl | ⟨node, new, edge, r, node₁, template, z, g₁, g₂, hnode, hproducer, rfl,
    hled, hnode₁, hmove, _, hadd⟩
  · exact .refl
  have hj := (o.wellFormed.producer d node edge hnode).1 hproducer
  obtain ⟨b, s, hs, he, ht⟩ := hj
  rw [target?_of_edge? (show g.edge? edge = some r from hled.edge), Option.some.injEq] at ht
  subst ht
  obtain ⟨wf₁, level, hne⟩ := o.divert rfl rfl (.inr rfl) hled hs he
  -- Moving the readers of the one tensor to the other matters to these two only.
  obtain ⟨wf₂, _, uses, hwritten, hread⟩ := level.moveAll wf₁ (wf₁.nodup _ node₁ hnode₁)
    (I := fun x => SameUses g₁ x ∧ (∀ y, x.Attached .output y ↔ g₁.Attached .output y) ∧
      ∀ y, y ≠ (g.pushData (intermediate (node.name ++ "@scaled") node.desc)).1 → y ≠ r.data →
        (x.Attached .input y ↔ g₁.Attached .input y))
    (fun x hx => (wf₁.consumers _ node₁ x hnode₁).1 hx)
    ⟨fun _ => rfl, fun _ => Iff.rfl, fun _ _ _ => Iff.rfl⟩
    (fun wf ⟨uses, hwritten, hread⟩ hled hdata => ⟨uses.trans hled.sameLooks.sameUses,
      fun y => (hled.attached_output wf).trans (hwritten y),
      fun y hy hyd => (hled.attached_of_ne hy (hdata ▸ hyd)).trans (hread y hy hyd)⟩)
    hmove
  exact .buffer o.wellFormed rfl rfl hled ⟨b, s, hs, he, target?_of_edge? hled.edge⟩ wf₂ uses hwritten hread hadd

theorem SameGaps.scalePropagation {config : Config} (o : g.Orderly)
    (h : Pass.scalePropagation.run config g = .ok (g', changed)) : SameGaps g g' := by
  simp only [Pass.scalePropagation] at h
  split at h
  · simp only [propagateScales, Outcome.bind_eq_ok, Outcome.pure_eq_ok, Prod.mk.injEq] at h
    obtain ⟨order, _, ⟨⟨scales, g₁⟩, _⟩, hstages, ⟨g₂, _⟩, houtputs, rfl, _⟩ := h
    obtain ⟨o₁, same₁⟩ := Pass.sweepWith_keeps (fun _ state => state.2.Orderly ∧ SameGaps g state.2)
      (fun id _ state state' _ hstate h => scaleStage_keeps (I := fun x => x.Orderly ∧ SameGaps g x)
        (by
          rintro _ _ _ _ _ ⟨o, same⟩ h
          obtain ⟨o', hext⟩ := o.askScale h
          obtain ⟨site, attrs, _, _, rfl⟩ := askScale_eq_ok h
          exact ⟨⟨o', same.trans (.of_sameLinks (.setAttrs _ attrs))⟩, hext⟩)
        (by
          rintro _ _ _ _ _ _ _ _ ⟨o, same⟩ hs he h
          obtain ⟨o', hext⟩ := o.meetScale hs he h
          exact ⟨⟨o', same.trans (.meetScale o hs he h)⟩, hext⟩)
        (by
          rintro _ _ _ _ _ _ ⟨o, same⟩ hs he h
          obtain ⟨o', hext⟩ := o.scaleConst hs he h
          exact ⟨⟨o', same.trans (.scaleConst o hs he h)⟩, hext⟩)
        hstate h)
      ⟨o, .refl⟩ hstages
    exact (Pass.sweep_keeps (fun _ x => x.Orderly ∧ SameGaps g x)
      (fun _ _ _ _ _ hx h => ⟨hx.1.descaleOutput h, hx.2.trans (.descaleOutput hx.1 h)⟩) ⟨o₁, same₁⟩ houtputs).2
  · cases h
    exact .refl

/-! ## Stubs and orders -/

theorem SameGaps.replaceStubs {config : Config} (h : Pass.replaceStubs.run config g = .ok (g', changed)) :
    SameGaps g g' := by
  refine Pass.sweep_keeps (fun _ x => SameGaps g x) ?_ .refl h
  exact fun _ _ _ _ _ same h => same.trans (.of_sameLinks (.lowerStage h))

theorem SameGaps.orderInput {permuted permuted' : Permuted} {wanted : Option Order} (o : Ordering g₀ permuted g)
    (hb : ∃ s, g₀.stage? b = some s) (hs : g.stage? b = some s) (he : edge ∈ s.inputs)
    (h : InputOrdered g edge permuted wanted permuted' g') : SameGaps g g' := by
  cases h with
  | unwanted => exact .refl
  | met => exact .refl
  | inPlace => exact .of_sameLinks (.setDesc _ _)
  | @duplicated order r r' node desc name content needed g' hr hnode hconst _ _ _ hled =>
    exact .moveToNew o.orderly.wellFormed rfl rfl rfl hs he hr hnode hconst hled (data?_pushData_self _) rfl
  | @copied order r r' node copy permuted' g₁ g' hr hnode _ _ hcopy hled =>
    obtain ⟨o₁, hext, hedge, z, hz, R⟩ := o.permutedCopy ⟨node, hnode⟩ hcopy
    obtain ⟨s₁, hs₁, he₁⟩ := hext.mem hs (show edge ∈ s.slots .input from he)
    have hr' := hled.edge
    rw [hedge edge r hr, Option.some.injEq] at hr'
    subst hr'
    have hne : b ≠ z := by
      rintro rfl
      simp [hz] at hb
    have copied : SameGaps g g₁ := by
      rcases permutedCopy_eq_ok hcopy with ⟨_, _, rfl⟩ | ⟨_, _, _, _, _, _, _, _, _, hadd⟩
      · exact .refl
      · exact .addRelay o.orderly.wellFormed rfl rfl hadd ⟨edge, b, s, hs, he, target?_of_edge? hr⟩
    exact copied.trans (.relayed o₁.orderly.wellFormed R hled hs₁ he₁ rfl hne)

theorem SameGaps.orderOutput {wanted : Option Order} (o : g.Orderly) (hs : g.stage? b = some s)
    (he : edge ∈ s.outputs) (h : OutputOrdered g edge wanted g') : SameGaps g g' := by
  cases h with
  | unwanted => exact .refl
  | met => exact .refl
  | @staged order r node desc name name' z g₁ g' hr hnode _ hled hadd =>
    obtain ⟨wf₁, _, _⟩ := o.divert rfl rfl (.inr rfl) hled hs he
    exact .buffer o.wellFormed rfl rfl hled ⟨b, s, hs, he, target?_of_edge? hr⟩ wf₁ (fun _ => rfl)
      (fun _ => Iff.rfl) (fun _ _ _ => Iff.rfl) hadd
  | inPlace => exact .of_sameLinks (.setDesc _ _)

theorem SameGaps.dataOrder {config : Config} (o : g.Orderly)
    (h : Pass.dataOrder.run config g = .ok (g', changed)) : SameGaps g g' := by
  obtain ⟨_, _, same⟩ := dataOrder_keeps (I := fun permuted x => Ordering g permuted x ∧ SameGaps g x)
    (fun hid hx hs he h => by
      obtain ⟨o', hext⟩ := hx.1.orderInput hid hs he h
      exact ⟨⟨o', hx.2.trans (.orderInput hx.1 hid hs he h)⟩, hext⟩)
    (fun hid hx hs he h => by
      obtain ⟨o', hext⟩ := hx.1.orderOutput hid hs he h
      exact ⟨⟨o', hx.2.trans (.orderOutput hx.1.orderly hs he h)⟩, hext⟩)
    (fun _ _ => ⟨o.ordering, .refl⟩) h
  exact same

/-! ## Strides -/

theorem SameGaps.meetWriter {reqs : EdgeReqs} {current current' : StrideReq} (o : g.Orderly)
    (h : g.meetWriter reqs d current = .ok (current', g', changed)) : SameGaps g g' := by
  rcases meetWriter_eq_ok h with _ | _ |
    @⟨node, new, edge, req, r, name, z, g₁, _, hnode, hproducer, _, hc, hp, hlook, _, _, hled, hadd⟩
  · exact .refl
  · exact .refl
  have hj := (o.wellFormed.producer d node edge hnode).1 hproducer
  obtain ⟨b, s, hs, he, ht⟩ := hj
  rw [target?_of_edge? (show g.edge? edge = some r from hled.edge), Option.some.injEq] at ht
  subst ht
  obtain ⟨wf₁, _, _⟩ := o.divert hc hp (.inr (congrArg Look.usage hlook)) hled hs he
  exact .buffer o.wellFormed hc hp hled ⟨b, s, hs, he, target?_of_edge? hled.edge⟩ wf₁ (fun _ => rfl)
    (fun _ => Iff.rfl) (fun _ _ _ => Iff.rfl) hadd

theorem SameGaps.meetReader {reqs : EdgeReqs} {current current' : StrideReq} {index : Nat} (o : g.Orderly)
    (hedge : g.Joins .input edge d)
    (h : Graph.meetReader reqs d (current, g) (edge, index) = .ok ((current', g'), changed)) : SameGaps g g' := by
  rcases meetReader_eq_ok h with _ | _ | ⟨_, _, _, hc, hp, _, _, _, hadd, hled⟩
  · exact .refl
  · exact .refl
  obtain ⟨b, s, hs, he, ht⟩ := hedge
  exact .tap o hc hp hadd hled hs he ht

theorem SameGaps.resolveStrides {reqs : EdgeReqs} (o : g.Orderly)
    (h : g.resolveStrides reqs d = .ok (g', changed)) : SameGaps g g' := by
  simp only [Graph.resolveStrides, Outcome.bind_eq_ok, data_eq_ok] at h
  obtain ⟨node, hnode, h⟩ := h
  split at h
  · cases h
    exact .refl
  simp only [Outcome.bind_eq_ok, Outcome.pure_eq_ok, Prod.mk.injEq] at h
  obtain ⟨⟨current, g₁, _⟩, hwriter, ⟨⟨current', g₂⟩, _⟩, hreaders, rfl, _⟩ := h
  have done := Pass.sweepWith_keeps (Reading d fun state => SameGaps g state.2)
    (fun x _ _ _ _ hr h => hr.step (fun same => same.trans (.meetReader hr.orderly (hr.joins x (by simp)) h)) h)
    (o.reading hnode hwriter (.meetWriter o hwriter)) hreaders
  exact done.inv.trans (.of_sameLinks (.setReq _ _))

theorem SameGaps.strides {config : Config} (o : g.Orderly) (h : Pass.strides.run config g = .ok (g', changed)) :
    SameGaps g g' := by
  simp only [Pass.strides, Outcome.bind_eq_ok] at h
  obtain ⟨reqs, _, h⟩ := h
  exact (Pass.sweep_keeps (fun _ x => x.Orderly ∧ SameGaps g x)
    (fun _ _ _ _ _ hx h => ⟨hx.1.resolveStrides h, hx.2.trans (.resolveStrides hx.1 h)⟩) ⟨o, .refl⟩ h).2

/-! ## Layout and memory -/

theorem SameGaps.reorderConst {slot : Nat} {order : Order} (o : g.Orderly)
    (h : g.reorderConst id slot order = .ok g') : SameGaps g g' := by
  rcases reorderConst_eq_ok h with rfl | ⟨s, e, r, node, desc, hs, he, hr, hnode, hconst, _,
    ⟨_, rfl⟩ | ⟨content, _, name, r', _, _, hled⟩⟩
  · exact .refl
  · exact .of_sameLinks (.setDesc _ _)
  · exact .moveToNew o.wellFormed rfl rfl rfl hs (List.mem_of_getElem? he) hr hnode hconst hled
      (data?_pushData_self _) rfl

theorem SameGaps.finalizeLayoutPass {config : Config} (o : g.Orderly)
    (h : Pass.finalizeLayout.run config g = .ok (g', changed)) : SameGaps g g' := by
  simp only [Pass.finalizeLayout, finalizeStages, Outcome.bind_eq_ok, Outcome.pure_eq_ok, Prod.mk.injEq] at h
  obtain ⟨g₁, ⟨order, _, hstages⟩, g₂, hstrides, rfl, _⟩ := h
  have same₁ : SameGaps g g₁ := by
    refine (Outcome.foldlM_keeps (fun _ x => x.Orderly ∧ SameGaps g x) (fun id _ x x' hx h => ?_) ⟨o, .refl⟩
      hstages).2
    obtain ⟨o, same⟩ := hx
    simp only [Outcome.bind_eq_ok] at h
    obtain ⟨_, _, h⟩ := h
    refine ⟨o.finalizeLayout h, ?_⟩
    rcases finalizeLayout_eq_ok h with rfl | ⟨order, h⟩
    · exact same
    · exact same.trans (.reorderConst o h)
  exact Outcome.foldlM_keeps (fun _ x => SameGaps g x)
    (fun _ _ _ _ same h => same.trans (.of_sameLinks (.computeStrides h))) same₁ hstrides

theorem SameGaps.allocateMemory {config : Config} (h : Pass.allocateMemory.run config g = .ok (g', changed)) :
    SameGaps g g' := by
  simp only [Pass.allocateMemory, Outcome.bind_eq_ok, Outcome.pure_eq_ok, Prod.mk.injEq] at h
  obtain ⟨plan, _, rfl, _⟩ := h
  exact .of_sameLinks (.setLocations plan g)

end NetLower.Graph
