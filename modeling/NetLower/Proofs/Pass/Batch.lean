/-
Splitting batches keeps a graph orderly.  The split, the copies of the stage and the
concatenation take the place of one stage, so three levels are needed where one was.
-/
import NetLower.Pass.Batch
import NetLower.Proofs.Pass.Layout

namespace NetLower.Graph

variable {g g' : Graph}

/-! ## Many new tensors -/

/-- The graph with tensors more. -/
def pushAll (g : Graph) (nodes : List Data) : Graph := { g with datas := g.datas ++ nodes.toArray }

/-- The identifiers of the next tensors. -/
def freshIds (g : Graph) (count : Nat) : List DataId := (List.range' g.datas.size count).map DataId.mk

theorem pushAll_cons (node : Data) (nodes : List Data) :
    g.pushAll (node :: nodes) = (g.pushData node).2.pushAll nodes := by
  simp [pushAll, pushData]

theorem freshIds_succ (node : Data) (count : Nat) :
    g.freshIds (count + 1) = (g.pushData node).1 :: (g.pushData node).2.freshIds count := by
  simp [freshIds, pushData, List.range'_succ]

theorem WellFormed.pushAll {nodes : List Data} (wf : g.WellFormed)
    (hlinks : ∀ node ∈ nodes, node.consumers = [] ∧ node.producer = none) : (g.pushAll nodes).WellFormed := by
  induction nodes generalizing g with
  | nil => simpa [Graph.pushAll] using wf
  | cons node nodes ih =>
    rw [pushAll_cons]
    obtain ⟨hc, hp⟩ := hlinks node (by simp)
    exact ih (wf.pushData hc hp) fun x hx => hlinks x (by simp [hx])

theorem data?_pushAll_old {nodes : List Data} {d : DataId} {node : Data} (h : g.data? d = some node) :
    (g.pushAll nodes).data? d = some node := by
  have := lt_of_data? h
  simp only [data?, pushAll] at h ⊢
  rw [Array.getElem?_append_left this, h]

theorem data?_freshIds {d : DataId} {count : Nat} (h : d ∈ g.freshIds count) : g.data? d = none := by
  simp only [freshIds, List.mem_map, List.mem_range'_1] at h
  obtain ⟨k, hk, rfl⟩ := h
  simp only [data?, Array.getElem?_eq_none_iff]
  exact hk.1

theorem data?_pushAll_new {nodes : List Data} {d : DataId} (h : d ∈ g.freshIds nodes.length) :
    ∃ node ∈ nodes, (g.pushAll nodes).data? d = some node := by
  simp only [freshIds, List.mem_map, List.mem_range'_1] at h
  obtain ⟨k, ⟨hle, hlt⟩, rfl⟩ := h
  have hk : k - g.datas.size < nodes.length := by omega
  refine ⟨nodes[k - g.datas.size], List.getElem_mem hk, ?_⟩
  simp only [data?, pushAll]
  rw [Array.getElem?_append_right hle, List.getElem?_toArray, List.getElem?_eq_getElem hk]

theorem nodup_freshIds (count : Nat) : (g.freshIds count).Nodup :=
  List.Nodup.map (fun a b h => by simpa using h) List.nodup_range'

/-- The tensors for the items of a batch. -/
def itemNodes (name : String) (desc : Desc) (indices : List Nat) : List Data :=
  indices.map fun index => intermediate (itemName name index) desc

theorem addItems_eq (name : String) (desc : Desc) : ∀ (indices : List Nat) (g : Graph),
    addItems name desc indices g = .ok (g.freshIds indices.length, g.pushAll (itemNodes name desc indices))
  | [], g => by simp [addItems, freshIds, pushAll, itemNodes]
  | index :: rest, g => by
    simp only [addItems, addData_intermediate, bind, Except.bind, addItems_eq name desc rest, pure, Except.pure,
      List.length_cons, itemNodes, List.map_cons, pushAll_cons]
    rw [freshIds_succ (intermediate (itemName name index) desc)]

theorem batchItems_eq_ok {d : DataId} {batch : Nat} {ids : List DataId} :
    g.batchItems d batch = .ok (ids, g') ↔ ∃ node desc, g.data? d = some node ∧
      node.desc.setDim .n 1 = .ok desc ∧ ids = g.freshIds batch ∧
      g' = g.pushAll (itemNodes node.name desc (List.range batch)) := by
  simp only [batchItems, Outcome.bind_eq_ok, data_eq_ok, addItems_eq, Except.ok.injEq, Prod.mk.injEq,
    List.length_range]
  constructor
  · rintro ⟨node, hnode, desc, hdesc, rfl, rfl⟩
    exact ⟨node, desc, hnode, hdesc, rfl, rfl⟩
  · rintro ⟨node, desc, hnode, hdesc, rfl, rfl⟩
    exact ⟨node, hnode, desc, hdesc, rfl, rfl⟩

theorem addBatchStage_added {name : String} {kind : StageKind} {inputs outputs : List DataId}
    (h : g.addBatchStage name kind inputs outputs = .ok g') :
    ∃ z g₁, Added g { name, kind } inputs outputs z g₁ ∧ g₁.setAttr z .axis batchAxis = .ok g' := by
  simp only [addBatchStage, Outcome.bind_eq_ok] at h
  obtain ⟨⟨z, g₁⟩, hadd, hattr⟩ := h
  exact ⟨z, g₁, addStage_added hadd, hattr⟩

/-! ## One stage -/

/-- The stages for the items of a batch, each with its own input and output. -/
def addClones (g : Graph) (template : StageTemplate) (extra : List DataId) (items : List (DataId × DataId)) :
    Outcome Graph :=
  items.zipIdx.foldlM (fun g ((itemInput, itemOutput), index) => do
    let (_, g) ← g.addStage { template with name := itemName template.name index } (itemInput :: extra)
      [itemOutput]
    return g) g

/-- What splitting a stage does: the stage is taken out, its items get tensors, and a split, the
clones and a concatenation are put in. -/
theorem splitStage_eq_ok {id : StageId} {batch : Nat} (h : g.splitStage id batch = .ok g') :
    ∃ (s : Stage) (input output : DataId) (reads : List DataId) (nodeIn nodeOut : Data) (descIn descOut : Desc)
      (g₁ g₂ g₃ g₄ g₅ : Graph), g.stage? id = some s ∧ g.inputData id 0 = .ok input ∧
      g.outputData id 0 = .ok output ∧ g.inputIds s = .ok reads ∧ Removed g id s g₁ ∧
      (g₁.data? input = some nodeIn ∧ nodeIn.desc.setDim .n 1 = .ok descIn ∧
        g₂ = g₁.pushAll (itemNodes nodeIn.name descIn (List.range batch))) ∧
      (g₂.data? output = some nodeOut ∧ nodeOut.desc.setDim .n 1 = .ok descOut ∧
        g₃ = g₂.pushAll (itemNodes nodeOut.name descOut (List.range batch))) ∧
      g₃.addBatchStage (s.name ++ "@split-batch") .split [input] (g₁.freshIds batch) = .ok g₄ ∧
      g₄.addClones s.toStageTemplate (reads.drop 1) ((g₁.freshIds batch).zip (g₂.freshIds batch)) = .ok g₅ ∧
      g₅.addBatchStage (s.name ++ "@concat-batch") .concat (g₂.freshIds batch) [output] = .ok g' := by
  simp only [Graph.splitStage, Outcome.bind_eq_ok, stage_eq_ok] at h
  obtain ⟨s, hs, input, hin, output, hout, reads, hreads, g₁, hremove, ⟨_, g₂⟩, hitems, ⟨_, g₃⟩, hitems', g₄,
    hsplit, g₅, hclones, hconcat⟩ := h
  obtain ⟨s', hremoved⟩ := removeStage_removed hremove
  have hss := hremoved.stage
  rw [hs, Option.some.injEq] at hss
  subst hss
  obtain ⟨nodeIn, descIn, hnodeIn, hdescIn, rfl, rfl⟩ := batchItems_eq_ok.1 hitems
  obtain ⟨nodeOut, descOut, hnodeOut, hdescOut, rfl, rfl⟩ := batchItems_eq_ok.1 hitems'
  exact ⟨s, input, output, reads, nodeIn, nodeOut, descIn, descOut, g₁, _, _, g₄, g₅, hs, hin, hout, hreads,
    hremoved, ⟨hnodeIn, hdescIn, rfl⟩, ⟨hnodeOut, hdescOut, rfl⟩, hsplit, hclones, hconcat⟩

theorem AtSlot.touches {kind : EdgeKind} {id : StageId} {slot : Nat} {d : DataId} (h : g.AtSlot kind id slot d) :
    g.Touches kind id d := by
  obtain ⟨s, e, hs, he, ht⟩ := h
  exact ⟨s, hs, e, List.mem_of_getElem? he, ht⟩

theorem inputIds_touches {id : StageId} {s : Stage} {reads : List DataId} {d : DataId}
    (hs : g.stage? id = some s) (h : g.inputIds s = .ok reads) (hd : d ∈ reads) : g.Touches .input id d := by
  obtain ⟨e, he, ht⟩ := (mem_mapM_target h).1 hd
  exact ⟨s, hs, e, he, ht⟩

/-- Heights for tensors that no stage touches. -/
def Layering.setFresh (L : Layering g) (height : DataId → Option Nat)
    (h : ∀ d, height d ≠ none → g.Untouched d) : Layering g where
  stage := L.stage
  data d := (height d).getD (L.data d)
  reads {id d} hr := by
    cases hd : height d with
    | none => exact L.reads hr
    | some v => exact absurd hr (h d (by simp [hd]) _ _)
  writes {id d} hw := by
    cases hd : height d with
    | none => exact L.writes hw
    | some v => exact absurd hw (h d (by simp [hd]) _ _)

/-- Well-formed, with a layering that gives the tensors prescribed heights. -/
def Heights (g : Graph) (height : DataId → Nat) : Prop :=
  g.WellFormed ∧ ∃ L : Layering g, ∀ d, L.data d = height d

section heights

variable {height : DataId → Nat} {inputs outputs : List DataId}

theorem Heights.sameLinks (h : g.Heights height) (same : SameLinks g g') : g'.Heights height := by
  obtain ⟨wf, L, hL⟩ := h
  exact ⟨same.wellFormed wf, L.ofTouches same.touches, hL⟩

theorem Heights.added {template : StageTemplate} {z : StageId} (h : g.Heights height)
    (ha : Added g template inputs outputs z g') (hn : outputs.Nodup) (v : Nat)
    (hin : ∀ d ∈ inputs, height d < v) (hout : ∀ d ∈ outputs, v ≤ height d) : g'.Heights height := by
  obtain ⟨wf, L, hL⟩ := h
  exact ⟨wf.added ha hn, L.added wf ha v (fun d hd => hL d ▸ hin d hd) (fun d hd => hL d ▸ hout d hd), hL⟩

theorem Heights.addBatchStage {name : String} {kind : StageKind} (h : g.Heights height)
    (ha : g.addBatchStage name kind inputs outputs = .ok g') (hn : outputs.Nodup) (v : Nat)
    (hin : ∀ d ∈ inputs, height d < v) (hout : ∀ d ∈ outputs, v ≤ height d) : g'.Heights height := by
  obtain ⟨z, g₁, hadd, hattr⟩ := addBatchStage_added ha
  exact (h.added hadd hn v hin hout).sameLinks (.setAttr hattr)

theorem Heights.addClones {template : StageTemplate} {extra : List DataId} {items : List (DataId × DataId)}
    (h : g.Heights height) (ha : g.addClones template extra items = .ok g') (v : Nat)
    (hextra : ∀ d ∈ extra, height d < v) (hin : ∀ x ∈ items, height x.1 < v)
    (hout : ∀ x ∈ items, v ≤ height x.2) : g'.Heights height := by
  have := Outcome.foldlM_keeps (fun rest g => g.Heights height ∧ ∀ x ∈ rest, x.1 ∈ items)
    (by
      rintro ⟨⟨itemInput, itemOutput⟩, index⟩ rest g g' ⟨hg, hmem⟩ h
      simp only [Outcome.bind_eq_ok, Outcome.pure_eq_ok] at h
      obtain ⟨⟨z, _⟩, hadd, rfl⟩ := h
      have hitem := hmem ((itemInput, itemOutput), index) (by simp)
      refine ⟨hg.added (addStage_added hadd) (by simp) v (fun d hd => ?_) (fun d hd => ?_),
        fun x hx => hmem x (by simp [hx])⟩
      · rcases List.mem_cons.1 hd with rfl | hd
        · exact hin _ hitem
        · exact hextra d hd
      · rw [List.mem_singleton.1 hd]
        exact hout _ hitem)
    ⟨h, fun x hx => List.fst_mem_of_mem_zipIdx hx⟩ ha
  exact this.1

end heights

/-- Heights around a split stage of height `v`: what the split writes, what the clones write, and
the rest. -/
def splitHeight (itemInputs itemOutputs : List DataId) (v : Nat) (old : DataId → Nat) (d : DataId) : Nat :=
  if d ∈ itemInputs then 3 * v - 2 else if d ∈ itemOutputs then 3 * v - 1 else 3 * old d

theorem Layering.splitHeights {id : StageId} {s : Stage} {g₁ : Graph} {nodes nodes' : List Data}
    {count count' : Nat} (L : Layering g) (wf : g.WellFormed) (hremoved : Removed g id s g₁)
    (hnodes : ∀ node ∈ nodes ++ nodes', node.consumers = [] ∧ node.producer = none) :
    ((g₁.pushAll nodes).pushAll nodes').Heights
      (splitHeight (g₁.freshIds count) ((g₁.pushAll nodes).freshIds count') (L.stage id) L.data) := by
  have wf₁ := wf.removed hremoved
  have fresh {d} (hd : d ∈ g₁.freshIds count ∨ d ∈ (g₁.pushAll nodes).freshIds count') : g₁.Untouched d := by
    intro kind z ht
    obtain ⟨node, hnode⟩ := wf₁.data_of_touches ht
    rcases hd with hd | hd
    · rw [data?_freshIds hd] at hnode
      cases hnode
    · have := data?_freshIds hd
      rw [data?_pushAll_old hnode] at this
      cases this
  refine ⟨(wf₁.pushAll fun x hx => hnodes x (by simp [hx])).pushAll fun x hx => hnodes x (by simp [hx]), ?_⟩
  let M := ((L.ofTouches hremoved.touches).scale 3 (by omega)).setFresh
    (fun d => if d ∈ g₁.freshIds count then some (3 * L.stage id - 2)
      else if d ∈ (g₁.pushAll nodes).freshIds count' then some (3 * L.stage id - 1) else none)
    (fun d hd => fresh (by
      by_contra hno
      rw [not_or] at hno
      simp [hno.1, hno.2] at hd))
  refine ⟨M.ofTouches fun ht => ht, fun d => ?_⟩
  show (ite _ _ _ : Option Nat).getD (3 * L.data d) = splitHeight _ _ _ _ d
  rw [splitHeight]
  split
  · rfl
  · split <;> rfl

theorem splitHeight_old {g₁ : Graph} {nodes : List Data} {count count' v : Nat} {old : DataId → Nat} {d : DataId}
    {node : Data} (h : g₁.data? d = some node) :
    splitHeight (g₁.freshIds count) ((g₁.pushAll nodes).freshIds count') v old d = 3 * old d := by
  rw [splitHeight, if_neg, if_neg]
  · intro hd
    have := data?_freshIds hd
    rw [data?_pushAll_old h] at this
    cases this
  · intro hd
    rw [data?_freshIds hd] at h
    cases h

theorem splitHeight_output {g₁ : Graph} {nodes : List Data} {count' v : Nat} {old : DataId → Nat} {d : DataId}
    (h : d ∈ (g₁.pushAll nodes).freshIds count') :
    splitHeight (g₁.freshIds nodes.length) ((g₁.pushAll nodes).freshIds count') v old d = 3 * v - 1 := by
  rw [splitHeight, if_neg, if_pos h]
  intro hd
  obtain ⟨node, _, hnode⟩ := data?_pushAll_new hd
  rw [data?_freshIds h] at hnode
  cases hnode

theorem Orderly.splitStage {id : StageId} {batch : Nat} (o : g.Orderly)
    (h : g.splitStage id batch = .ok g') : g'.Orderly := by
  obtain ⟨s, input, output, reads, nodeIn, nodeOut, descIn, descOut, g₁, g₂, g₃, g₄, g₅, hs, hin, hout, hreads,
    hremoved, ⟨hnodeIn, _, rfl⟩, ⟨hnodeOut, _, rfl⟩, hsplit, hclones, hconcat⟩ := splitStage_eq_ok h
  obtain ⟨L⟩ := o.layered
  have hlow := L.reads (inputData_eq_ok.1 hin).touches
  have hhigh := L.writes (outputData_eq_ok.1 hout).touches
  have known {d kind} (ht : g.Touches kind id d) : ∃ node, g₁.data? d = some node := by
    obtain ⟨node, hnode⟩ := o.wellFormed.data_of_touches ht
    rw [hremoved.data?, hnode]
    exact ⟨_, rfl⟩
  have hlen : (itemNodes nodeIn.name descIn (List.range batch)).length = batch := by simp [itemNodes]
  have hitem {d} (hd : d ∈ g₁.freshIds batch) (other : List DataId) :
      splitHeight (g₁.freshIds batch) other (L.stage id) L.data d = 3 * L.stage id - 2 := if_pos hd
  have heights := @Layering.splitHeights g id s g₁ (itemNodes nodeIn.name descIn (List.range batch))
    (itemNodes nodeOut.name descOut (List.range batch)) batch batch L o.wellFormed hremoved
    (by
      intro node hnode
      simp only [itemNodes, List.mem_append, List.mem_map] at hnode
      rcases hnode with ⟨_, _, rfl⟩ | ⟨_, _, rfl⟩ <;> exact ⟨rfl, rfl⟩)
  generalize hnodes : itemNodes nodeIn.name descIn (List.range batch) = nodes at *
  subst hlen
  have heights₄ := heights.addBatchStage hsplit (nodup_freshIds _) (3 * L.stage id - 2)
    (fun d hd => by
      obtain ⟨node, hnode⟩ := known (inputData_eq_ok.1 hin).touches
      rw [List.mem_singleton.1 hd, splitHeight_old hnode]
      omega)
    (fun d hd => Nat.le_of_eq (hitem hd _).symm)
  have heights₅ := heights₄.addClones hclones (3 * L.stage id - 1)
    (fun d hd => by
      have ht := inputIds_touches hs hreads (List.mem_of_mem_drop hd)
      obtain ⟨node, hnode⟩ := known ht
      have := L.reads ht
      rw [splitHeight_old hnode]
      omega)
    (fun x hx => by
      rw [hitem (List.of_mem_zip hx).1]
      omega)
    (fun x hx => Nat.le_of_eq (splitHeight_output (List.of_mem_zip hx).2).symm)
  obtain ⟨wf, M, _⟩ := heights₅.addBatchStage hconcat (by simp) (3 * L.stage id)
    (fun d hd => by
      rw [splitHeight_output hd]
      omega)
    (fun d hd => by
      obtain ⟨node, hnode⟩ := known (outputData_eq_ok.1 hout).touches
      rw [List.mem_singleton.1 hd, splitHeight_old hnode]
      omega)
  exact ⟨wf, ⟨M⟩⟩

/-- A visit either leaves the graph as it is or splits the stage. -/
theorem adjustBatch_eq_ok {id : StageId} {changed : Bool} (h : g.adjustBatch id = .ok (g', changed)) :
    ∃ site, g.site id = .ok site ∧
      (site.splitBatch? = .ok none ∧ g' = g ∨
        ∃ batch, site.splitBatch? = .ok (some batch) ∧ g.splitStage id batch = .ok g') := by
  simp only [Graph.adjustBatch, Outcome.bind_eq_ok] at h
  obtain ⟨site, hsite, split, hsplit, h⟩ := h
  refine ⟨site, hsite, ?_⟩
  cases split with
  | none =>
    cases h
    exact .inl ⟨hsplit, rfl⟩
  | some batch =>
    simp only [Outcome.bind_eq_ok, Outcome.pure_eq_ok, Prod.mk.injEq] at h
    obtain ⟨_, h, rfl, _⟩ := h
    exact .inr ⟨batch, hsplit, h⟩

theorem Orderly.adjustBatch {config : Config} {changed : Bool} (o : g.Orderly)
    (h : Pass.adjustBatch.run config g = .ok (g', changed)) : g'.Orderly := by
  simp only [Pass.adjustBatch, Outcome.bind_eq_ok] at h
  obtain ⟨order, _, h⟩ := h
  refine Pass.sweep_keeps (fun _ g => g.Orderly) (fun id _ g g' _ o h => ?_) o h
  obtain ⟨_, _, ⟨_, rfl⟩ | ⟨batch, _, h⟩⟩ := adjustBatch_eq_ok h
  · exact o
  · exact o.splitStage h

end NetLower.Graph
