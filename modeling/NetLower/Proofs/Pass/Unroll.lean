/-
What splitting a stage puts in its place.  A split, a clone for every item of the batch and a
concatenation are added one after the other, so that each of them has a known identifier and known
tensors at its slots; all other stages, and all edges, stay where they are.
-/
import NetLower.Proofs.Pass.BatchFit

namespace NetLower.Graph

variable {g g' g'' : Graph} {id z : StageId} {template : StageTemplate} {inputs outputs : List DataId}

/-! ## Stages with their tensors -/

/-- A stage of the graph, by what it does and by the tensors at its slots. -/
def Stands (g : Graph) (z : StageId) (template : StageTemplate) (inputs outputs : List DataId) : Prop :=
  ∃ s, g.stage? z = some s ∧ s.toStageTemplate = template ∧
    ∀ kind, List.Forall₂ (fun e d => g.target? e = some d) (s.slots kind) (slotsOf inputs outputs kind)

theorem Added.stands (h : Added g template inputs outputs z g') : g'.Stands z template inputs outputs := by
  refine ⟨_, by rw [h.stage?, if_pos rfl], rfl, fun kind => List.forall₂_iff_get.2 ?_⟩
  cases kind with
  | input =>
    refine ⟨by simp [Stage.slots, slotsOf, edgeIds], fun k _ hk => ?_⟩
    have hedge := h.input k _ (List.getElem?_eq_getElem hk)
    simpa [Stage.slots, slotsOf, edgeIds] using target?_of_edge? hedge
  | output =>
    refine ⟨by simp [Stage.slots, slotsOf, edgeIds], fun k _ hk => ?_⟩
    have hedge := h.output k _ (List.getElem?_eq_getElem hk)
    simpa [Stage.slots, slotsOf, edgeIds] using target?_of_edge? hedge

/-- A stage and its site. -/
theorem stands_of_site {site : Site} (h : g.site id = .ok site) : ∃ reads writes,
    g.inputIds site.stage = .ok reads ∧ g.Stands id site.stage.toStageTemplate reads writes := by
  simp only [Graph.site, Outcome.bind_eq_ok, Outcome.pure_eq_ok, stage_eq_ok] at h
  obtain ⟨s, hs, reads, hreads, _, _, writes, hwrites, _, _, rfl⟩ := h
  refine ⟨reads, writes, hreads, s, hs, rfl, fun kind => ?_⟩
  cases kind with
  | input => exact (Outcome.mapM_eq_ok.1 hreads).imp fun _ _ => edgeData_eq_ok.1
  | output => exact (Outcome.mapM_eq_ok.1 hwrites).imp fun _ _ => edgeData_eq_ok.1

/-- The tensors at the slots of a stage, from its site. -/
theorem Stands.slots_of_site {site : Site} (h : g.Stands z template inputs outputs) (hsite : g.site z = .ok site) :
    site.stage.toStageTemplate = template ∧
      ∀ kind, List.Forall₂ (fun d node => g.data? d = some node) (slotsOf inputs outputs kind)
        (site.slots kind) := by
  obtain ⟨s, hs, htemplate, htargets⟩ := h
  obtain ⟨hs', htensors⟩ := site_eq_ok.1 hsite
  rw [hs, Option.some.injEq] at hs'
  subst hs'
  refine ⟨htemplate, fun kind => ?_⟩
  have hlen := (htargets kind).length_eq.symm.trans (htensors kind).length_eq
  refine List.forall₂_iff_get.2 ⟨hlen, fun k hk hk' => ?_⟩
  have hd := List.forall₂_iff_get.1 (htargets kind)
  have hnode := List.forall₂_iff_get.1 (htensors kind)
  have hlt : k < (site.stage.slots kind).length := by rw [hd.1]; exact hk
  have htensor := hnode.2 k hlt hk'
  rwa [tensor?_of_target? (hd.2 k hlt hk)] at htensor

theorem Stands.slot {kind : EdgeKind} {k : Nat} {d : DataId} (h : g.Stands z template inputs outputs)
    (hd : g.AtSlot kind z k d) : (slotsOf inputs outputs kind)[k]? = some d := by
  obtain ⟨s, hs, _, htargets⟩ := h
  obtain ⟨s', e, hs', he, ht⟩ := hd
  rw [hs, Option.some.injEq] at hs'
  subst hs'
  obtain ⟨d', hd', ht'⟩ := forall₂_getElem? (htargets kind) he
  rw [ht, Option.some.injEq] at ht'
  rw [hd', ht']

/-! ## What stays -/

/-- Tensors keep their looks, edges stay where they are, and identifiers of stages are not used
again. -/
structure Steady (g g' : Graph) : Prop where
  looks : KeepsLooks g g'
  edges : ∀ e r, g.edge? e = some r → g'.edge? e = some r
  size : g.stages.size ≤ g'.stages.size

namespace Steady

theorem refl : Steady g g := ⟨fun _ node hnode => ⟨node, hnode, rfl⟩, fun _ _ hr => hr, Nat.le_refl _⟩

theorem trans (h : Steady g g') (h' : Steady g' g'') : Steady g g'' :=
  ⟨h.looks.trans h'.looks, fun e r hr => h'.edges e r (h.edges e r hr), Nat.le_trans h.size h'.size⟩

theorem removed {s : Stage} (h : Removed g z s g') : Steady g g' :=
  ⟨h.sameLooks.keeps, fun e _ hr => (h.edge? e).trans hr, Nat.le_of_eq h.size.symm⟩

theorem target? (h : Steady g g') {e : EdgeId} {d : DataId} (hd : g.target? e = some d) :
    g'.target? e = some d := by
  obtain ⟨r, hr, rfl⟩ := Option.map_eq_some_iff.1 hd
  exact target?_of_edge? (h.edges e r hr)

theorem stands (h : Steady g g') (hstage : g'.stage? z = g.stage? z) (hz : g.Stands z template inputs outputs) :
    g'.Stands z template inputs outputs := by
  obtain ⟨s, hs, htemplate, htargets⟩ := hz
  exact ⟨s, hstage.trans hs, htemplate, fun kind => (htargets kind).imp fun _ _ => h.target?⟩

end Steady

/-- The graph has a number of stages more, and the others stay. -/
structure Grows (g : Graph) (count : Nat) (g' : Graph) : Prop extends Steady g g' where
  old : ∀ z, z.index < g.stages.size → g'.stage? z = g.stage? z
  count : g'.stages.size = g.stages.size + count

namespace Grows

theorem trans {m n : Nat} (h : g.Grows m g') (h' : g'.Grows n g'') : g.Grows (m + n) g'' where
  toSteady := h.toSteady.trans h'.toSteady
  old z hz := (h'.old z (Nat.lt_of_lt_of_le hz h.size)).trans (h.old z hz)
  count := by rw [h'.count, h.count, Nat.add_assoc]

theorem added (h : Added g template inputs outputs z g') : g.Grows 1 g' := by
  refine ⟨⟨h.sameLooks.keeps, h.edge?, by rw [h.size]; exact Nat.le_succ _⟩, fun x hx => ?_, h.size⟩
  rw [h.stage?, if_neg]
  rintro rfl
  rw [h.id] at hx
  exact Nat.lt_irrefl _ hx

theorem pushAll (nodes : List Data) : g.Grows 0 (g.pushAll nodes) :=
  ⟨⟨keepsLooks_pushAll nodes, fun _ _ hr => hr, Nat.le_refl _⟩, fun _ _ => rfl, rfl⟩

/-- A stage that stood stands. -/
theorem stands {count : Nat} (h : g.Grows count g') (hlt : z.index < g.stages.size)
    (hz : g.Stands z template inputs outputs) : g'.Stands z template inputs outputs :=
  h.toSteady.stands (h.old z hlt) hz

end Grows

/-- The clones get the next identifiers, in the order of the items. -/
theorem addClones_stands {extra : List DataId} {items : List (DataId × DataId)}
    (h : g.addClones template extra items = .ok g') :
    g.Grows items.length g' ∧ ∀ i item, items[i]? = some item →
      g'.Stands ⟨g.stages.size + i⟩ { template with name := itemName template.name i } (item.1 :: extra)
        [item.2] := by
  let I (rest : List ((DataId × DataId) × Nat)) (x : Graph) : Prop :=
    ∃ done, items.zipIdx = done ++ rest ∧ g.Grows done.length x ∧
      ∀ i item, i < done.length → items[i]? = some item →
        x.Stands ⟨g.stages.size + i⟩ { template with name := itemName template.name i } (item.1 :: extra) [item.2]
  have start : I items.zipIdx g :=
    ⟨[], rfl, ⟨.refl, fun _ _ => rfl, rfl⟩, fun i _ hi => absurd hi (Nat.not_lt_zero i)⟩
  obtain ⟨done, hdone, grows, stands⟩ := Outcome.foldlM_keeps I (fun x rest y y' hI hadd => by
    obtain ⟨⟨itemInput, itemOutput⟩, index⟩ := x
    obtain ⟨done, hsplit, grows, stands⟩ := hI
    simp only [Outcome.bind_eq_ok, Outcome.pure_eq_ok] at hadd
    obtain ⟨⟨z, _⟩, hadd, rfl⟩ := hadd
    have hadded := addStage_added hadd
    have hnext : items.zipIdx[done.length]? = some ((itemInput, itemOutput), index) := by simp [hsplit]
    rw [List.getElem?_zipIdx, Option.map_eq_some_iff] at hnext
    obtain ⟨_, hitem, heq⟩ := hnext
    simp only [Nat.zero_add, Prod.mk.injEq] at heq
    obtain ⟨rfl, rfl⟩ := heq
    refine ⟨done ++ [((itemInput, itemOutput), done.length)], by simp [hsplit], ?_, fun i item hi hi' => ?_⟩
    · rw [List.length_append]
      exact grows.trans (.added hadded)
    · rw [List.length_append, List.length_singleton] at hi
      by_cases hold : i < done.length
      · exact (Grows.added hadded).stands (by rw [grows.count]; simp only; omega) (stands i item hold hi')
      · obtain rfl : i = done.length := by omega
        rw [hitem, Option.some.injEq] at hi'
        subst hi'
        have hz : z = ⟨g.stages.size + done.length⟩ := by rw [hadded.id, grows.count]
        exact hz ▸ hadded.stands) start h
  have hlen : done.length = items.length := by simpa using (congrArg List.length hdone).symm
  exact ⟨hlen ▸ grows, fun i item hi => stands i item (hlen ▸ (List.getElem?_eq_some_iff.1 hi).1) hi⟩

/-! ## One stage -/

/-- A stage along the batch. -/
def AlongBatch (g : Graph) (z : StageId) (name : String) (kind : StageKind)
    (inputs outputs : List DataId) : Prop :=
  ∃ attrs, Attrs.empty.set .axis batchAxis = .ok attrs ∧ g.Stands z { name, kind, attrs } inputs outputs

theorem addBatchStage_along {name : String} {kind : StageKind}
    (h : g.addBatchStage name kind inputs outputs = .ok g') :
    g.Grows 1 g' ∧ g'.AlongBatch ⟨g.stages.size⟩ name kind inputs outputs := by
  obtain ⟨z, attrs, hattrs, hadd⟩ := addBatchStage_axis h
  exact ⟨.added hadd, attrs, hattrs, hadd.id ▸ hadd.stands⟩

theorem Grows.along {count : Nat} {name : String} {kind : StageKind} (h : g.Grows count g')
    (hlt : z.index < g.stages.size) (hz : g.AlongBatch z name kind inputs outputs) :
    g'.AlongBatch z name kind inputs outputs := by
  obtain ⟨attrs, hattrs, hz⟩ := hz
  exact ⟨attrs, hattrs, h.stands hlt hz⟩

/-- A stage and what takes its place. -/
structure Unrolling where
  stage : StageId
  template : StageTemplate
  input : DataId
  /-- The inputs that all items share. -/
  extra : List DataId
  output : DataId
  batch : Nat
  /-- What an item of the input looks like, and an item of the output. -/
  itemInput : Desc
  itemOutput : Desc
  itemInputs : List DataId
  itemOutputs : List DataId
  split : StageId
  clones : List StageId
  concat : StageId

namespace Unrolling

/-- The stages that are put in. -/
def stages (u : Unrolling) : List StageId := u.split :: u.clones ++ [u.concat]

/-- The stage as it was: it reads and writes whole batches. -/
structure From (u : Unrolling) (g : Graph) : Prop where
  stands : ∃ others, g.Stands u.stage u.template (u.input :: u.extra) (u.output :: others)
  input : ∃ node, g.data? u.input = some node ∧ node.desc.dim? .n = some u.batch ∧
    node.desc.setDim .n 1 = .ok u.itemInput
  output : ∃ node, g.data? u.output = some node ∧ node.desc.dim? .n = some u.batch ∧
    node.desc.setDim .n 1 = .ok u.itemOutput
  many : 1 < u.batch

/-- The stages that are put in, with their tensors. -/
structure Into (u : Unrolling) (g : Graph) : Prop where
  items : u.itemInputs.length = u.batch ∧ u.itemOutputs.length = u.batch
  itemInputs : g.Uniform u.itemInputs ⟨u.itemInput, .intermediate⟩
  itemOutputs : g.Uniform u.itemOutputs ⟨u.itemOutput, .intermediate⟩
  split : g.AlongBatch u.split (u.template.name ++ "@split-batch") .split [u.input] u.itemInputs
  clones : u.clones.length = u.batch ∧ ∀ i z a b, u.clones[i]? = some z → u.itemInputs[i]? = some a →
    u.itemOutputs[i]? = some b →
      g.Stands z { u.template with name := itemName u.template.name i } (a :: u.extra) [b]
  concat : g.AlongBatch u.concat (u.template.name ++ "@concat-batch") .concat u.itemOutputs [u.output]

end Unrolling

/-- One stage is unrolled: it goes, the next identifiers go to what takes its place, and the rest
stays. -/
structure Unrolls (g : Graph) (u : Unrolling) (g' : Graph) : Prop extends Steady g g' where
  before : u.From g
  after : u.Into g'
  gone : g'.stage? u.stage = none
  old : ∀ z, z ≠ u.stage → z.index < g.stages.size → g'.stage? z = g.stage? z
  fresh : u.stages = (List.range' g.stages.size (u.batch + 2)).map StageId.mk
  count : g'.stages.size = g.stages.size + (u.batch + 2)

/-- The tensors of a stage begin with the one at slot 0. -/
theorem slots_eq_cons {ids : List DataId} {d : DataId} (h : ids[0]? = some d) : ids = d :: ids.drop 1 := by
  cases ids with
  | nil => cases h
  | cons x ids => simpa using h

theorem splitStage_unrolls {site : Site} {batch : Nat} (hsite : g.site id = .ok site) (hmany : 1 < batch)
    (hdim : ∀ kind x, (site.slots kind)[0]? = some x → x.desc.dim? .n = some batch)
    (h : g.splitStage id batch = .ok g') : ∃ u : Unrolling, u.stage = id ∧ g.Unrolls u g' := by
  obtain ⟨s, input, output, reads, nodeIn, nodeOut, descIn, descOut, g₁, g₂, g₃, g₄, g₅, hs, hin, hout, hreads,
    hremoved, ⟨hnodeIn, hdescIn, hg₂⟩, ⟨hnodeOut, hdescOut, hg₃⟩, hsplit, hclones, hconcat⟩ := splitStage_eq_ok h
  have hstage := (site_eq_ok.1 hsite).1
  rw [hs, Option.some.injEq] at hstage
  subst hstage
  obtain ⟨reads', writes, hreads', hstands⟩ := stands_of_site hsite
  rw [hreads, Except.ok.injEq] at hreads'
  subst hreads'
  have hinput := slots_eq_cons (hstands.slot (inputData_eq_ok.1 hin))
  have houtput := slots_eq_cons (hstands.slot (outputData_eq_ok.1 hout))
  -- What is added, one piece after the other.
  have grows₃ : g₁.Grows 0 g₃ := by
    rw [hg₃, hg₂]
    exact (Grows.pushAll _).trans (.pushAll _)
  obtain ⟨grows₄, along₄⟩ := addBatchStage_along hsplit
  obtain ⟨grows₅, stands₅⟩ := addClones_stands hclones
  obtain ⟨grows₆, along₆⟩ := addBatchStage_along hconcat
  rw [List.length_zip, length_freshIds, length_freshIds, Nat.min_self] at grows₅
  have size₃ : g₃.stages.size = g.stages.size := grows₃.count.trans hremoved.size
  have size₄ := grows₄.count
  have size₅ := grows₅.count
  rw [size₃] at along₄ size₄
  rw [size₄] at stands₅ size₅
  rw [size₅] at along₆
  have looks₁ : KeepsLooks g g₁ := hremoved.sameLooks.keeps
  have looks₂ : KeepsLooks g₁ g₂ := hg₂ ▸ keepsLooks_pushAll _
  have looks₃ : KeepsLooks g₂ g₃ := hg₃ ▸ keepsLooks_pushAll _
  have grows : g₃.Grows (1 + batch + 1) g' := (grows₄.trans grows₅).trans grows₆
  let u : Unrolling :=
    { stage := id, template := site.stage.toStageTemplate, input, extra := reads.drop 1, output, batch,
      itemInput := descIn, itemOutput := descOut,
      itemInputs := g₁.freshIds batch, itemOutputs := g₂.freshIds batch,
      split := ⟨g.stages.size⟩, clones := (List.range' (g.stages.size + 1) batch).map StageId.mk,
      concat := ⟨g.stages.size + 1 + batch⟩ }
  refine ⟨u, rfl, (Steady.removed hremoved).trans (grows₃.toSteady.trans grows.toSteady), ?before, ?after, ?gone,
    ?old, ?fresh, ?count⟩
  case before =>
    have whole {kind : EdgeKind} {d : DataId} {node : Data} {item : Desc} {x : Graph} (hd : g.AtSlot kind id 0 d)
        (looks : KeepsLooks g x) (hnode : x.data? d = some node) (hitem : node.desc.setDim .n 1 = .ok item) :
        ∃ node, g.data? d = some node ∧ node.desc.dim? .n = some batch ∧ node.desc.setDim .n 1 = .ok item := by
      obtain ⟨old, hold, hdata⟩ := forall₂_getElem? ((hstands.slots_of_site hsite).2 kind) (hstands.slot hd)
      obtain ⟨node', hnode', hlook⟩ := looks d old hdata
      rw [hnode, Option.some.injEq] at hnode'
      rw [show node.desc = old.desc from hnode' ▸ congrArg Look.desc hlook] at hitem
      exact ⟨old, hdata, hdim kind old hold, hitem⟩
    exact ⟨⟨writes.drop 1, hinput ▸ houtput ▸ hstands⟩, whole (inputData_eq_ok.1 hin) looks₁ hnodeIn hdescIn,
      whole (outputData_eq_ok.1 hout) (looks₁.trans looks₂) hnodeOut hdescOut, hmany⟩
  case after =>
    have items₂ : g₂.Uniform u.itemInputs ⟨descIn, .intermediate⟩ := hg₂ ▸ uniform_items _ _ _
    have items₃ : g₃.Uniform u.itemOutputs ⟨descOut, .intermediate⟩ := hg₃ ▸ uniform_items _ _ _
    refine ⟨⟨length_freshIds _, length_freshIds _⟩, items₂.keeps (looks₃.trans grows.looks),
      items₃.keeps grows.looks, (grows₅.trans grows₆).along (by rw [size₄]; exact Nat.lt_succ_self _) along₄,
      ⟨by simp [u], ?_⟩, along₆⟩
    intro i z a b hz ha hb
    obtain ⟨hlt, rfl⟩ := List.getElem?_eq_some_iff.1 hz
    have hi : i < batch := by simpa [u] using hlt
    have hstands := stands₅ i (a, b) (List.getElem?_zip_eq_some.2 ⟨ha, hb⟩)
    have hz : u.clones[i] = ⟨g.stages.size + 1 + i⟩ := by simp [u]
    rw [hz]
    exact grows₆.stands (by rw [size₅]; simp only; omega) hstands
  case gone =>
    have hlt : id.index < g.stages.size := lt_of_stage? hs
    rw [grows.old id (size₃ ▸ hlt), grows₃.old id (hremoved.size ▸ hlt), hremoved.stage?, if_pos rfl]
  case old =>
    intro z hz hlt
    rw [grows.old z (size₃ ▸ hlt), grows₃.old z (hremoved.size ▸ hlt), hremoved.stage?, if_neg hz]
  case fresh =>
    rw [List.range'_succ, List.range'_concat]
    simp [Unrolling.stages, u]
  case count =>
    rw [grows.count, size₃]
    simp only [u]
    omega

end NetLower.Graph
