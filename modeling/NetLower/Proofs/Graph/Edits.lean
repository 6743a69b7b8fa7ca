/-
What an edit does to the three tables of a graph, entry by entry.  Look-ups that may
fail stand for the tables: an edit is described by what it makes of every look-up.
-/
import Mathlib.Data.List.Nodup
import NetLower.Graph.Edit
import NetLower.Proofs.Outcome

namespace NetLower

/-- The edges of a stage in one direction, by slot. -/
def Stage.slots (s : Stage) : EdgeKind → List EdgeId
  | .input => s.inputs
  | .output => s.outputs

theorem Data.content?_eq_some {d : Data} {content : Array F32} :
    d.content? = some content ↔ d.role = .const content := by
  unfold Data.content? Role.content?
  split <;> simp_all

namespace Graph

/-- The tensor with an identifier, if there is one. -/
def data? (g : Graph) (d : DataId) : Option Data := g.datas[d.index]?

/-- The edge with an identifier, if there is one. -/
def edge? (g : Graph) (e : EdgeId) : Option Edge := g.edges[e.index]?

/-- The tensor an edge leads to, if there is such an edge. -/
def target? (g : Graph) (e : EdgeId) : Option DataId := (g.edge? e).map Edge.data

theorem target?_of_edge? {g : Graph} {e : EdgeId} {r : Edge} (h : g.edge? e = some r) :
    g.target? e = some r.data := by simp [target?, h]

theorem data_eq_ok {g : Graph} {d : DataId} {node : Data} :
    g.data d = .ok node ↔ g.data? d = some node := by
  unfold data data?
  split <;> simp_all

theorem stage_eq_ok {g : Graph} {id : StageId} {s : Stage} :
    g.stage id = .ok s ↔ g.stage? id = some s := by
  unfold stage
  split <;> simp_all

theorem edge_eq_ok {g : Graph} {e : EdgeId} {r : Edge} : g.edge e = .ok r ↔ g.edge? e = some r := by
  unfold edge edge?
  split <;> simp_all

theorem edgeData_eq_ok {g : Graph} {e : EdgeId} {d : DataId} :
    (do return (← g.edge e).data) = Except.ok d ↔ g.target? e = some d := by
  simp only [Outcome.bind_eq_ok, Outcome.pure_eq_ok, edge_eq_ok, target?, Option.map_eq_some_iff]

/-- A slot of a stage leads to a tensor. -/
def AtSlot (g : Graph) (kind : EdgeKind) (id : StageId) (slot : Nat) (d : DataId) : Prop :=
  ∃ s e, g.stage? id = some s ∧ (s.slots kind)[slot]? = some e ∧ g.target? e = some d

theorem inputData_eq_ok {g : Graph} {id : StageId} {slot : Nat} {d : DataId} :
    g.inputData id slot = .ok d ↔ g.AtSlot .input id slot d := by
  simp only [inputData, Outcome.bind_eq_ok, stage_eq_ok, AtSlot, Stage.slots, exists_and_left]
  refine exists_congr fun s => and_congr_right fun _ => ?_
  cases s.inputs[slot]? with
  | none => simp
  | some e => simp only [edgeData_eq_ok, Option.some.injEq, exists_eq_left']

theorem outputData_eq_ok {g : Graph} {id : StageId} {slot : Nat} {d : DataId} :
    g.outputData id slot = .ok d ↔ g.AtSlot .output id slot d := by
  simp only [outputData, Outcome.bind_eq_ok, stage_eq_ok, AtSlot, Stage.slots, exists_and_left]
  refine exists_congr fun s => and_congr_right fun _ => ?_
  cases s.outputs[slot]? with
  | none => simp
  | some e => simp only [edgeData_eq_ok, Option.some.injEq, exists_eq_left']

theorem data?_isSome {g : Graph} {d : DataId} : (g.data? d).isSome ↔ d.index < g.datas.size := by
  simp [data?]

theorem lt_of_data? {g : Graph} {d : DataId} {node : Data} (h : g.data? d = some node) :
    d.index < g.datas.size := data?_isSome.1 (by simp [h])

theorem lt_of_edge? {g : Graph} {e : EdgeId} {r : Edge} (h : g.edge? e = some r) :
    e.index < g.edges.size := (Array.getElem?_eq_some_iff.1 h).1

theorem lt_of_stage? {g : Graph} {id : StageId} {s : Stage} (h : g.stage? id = some s) :
    id.index < g.stages.size := by
  simp only [stage?, Option.join_eq_some_iff] at h
  exact (Array.getElem?_eq_some_iff.1 h).1

/-! ## One entry changed -/

section modify

variable (g : Graph)

@[simp] theorem stage?_modifyData (d : DataId) (f : Data → Data) (id : StageId) :
    (g.modifyData d f).stage? id = g.stage? id := rfl

@[simp] theorem edge?_modifyData (d : DataId) (f : Data → Data) (e : EdgeId) :
    (g.modifyData d f).edge? e = g.edge? e := rfl

theorem data?_modifyData (d : DataId) (f : Data → Data) (x : DataId) :
    (g.modifyData d f).data? x = if x = d then (g.data? x).map f else g.data? x := by
  obtain ⟨i⟩ := d
  obtain ⟨j⟩ := x
  simp only [data?, modifyData, Array.getElem?_modify, DataId.mk.injEq, eq_comm]

@[simp] theorem data?_modifyStage (id : StageId) (f : Stage → Stage) (d : DataId) :
    (g.modifyStage id f).data? d = g.data? d := rfl

@[simp] theorem edge?_modifyStage (id : StageId) (f : Stage → Stage) (e : EdgeId) :
    (g.modifyStage id f).edge? e = g.edge? e := rfl

theorem stage?_modifyStage (id : StageId) (f : Stage → Stage) (x : StageId) :
    (g.modifyStage id f).stage? x = if x = id then (g.stage? x).map f else g.stage? x := by
  obtain ⟨i⟩ := id
  obtain ⟨j⟩ := x
  simp only [stage?, modifyStage, Array.getElem?_modify, StageId.mk.injEq, eq_comm]
  split
  · cases g.stages[j]? <;> simp
  · rfl

@[simp] theorem data?_pointEdge (e : EdgeId) (target d : DataId) : (g.pointEdge e target).data? d = g.data? d :=
  rfl

@[simp] theorem stage?_pointEdge (e : EdgeId) (target : DataId) (id : StageId) :
    (g.pointEdge e target).stage? id = g.stage? id := rfl

theorem edge?_pointEdge (e : EdgeId) (target : DataId) (x : EdgeId) :
    (g.pointEdge e target).edge? x =
      if x = e then (g.edge? x).map fun r => { r with data := target } else g.edge? x := by
  obtain ⟨i⟩ := e
  obtain ⟨j⟩ := x
  simp only [edge?, pointEdge, Array.getElem?_modify, EdgeId.mk.injEq, eq_comm]

@[simp] theorem stage?_pushData (node : Data) (id : StageId) :
    (g.pushData node).2.stage? id = g.stage? id := rfl

@[simp] theorem edge?_pushData (node : Data) (e : EdgeId) : (g.pushData node).2.edge? e = g.edge? e := rfl

theorem data?_pushData (node : Data) (d : DataId) :
    (g.pushData node).2.data? d = if d = (g.pushData node).1 then some node else g.data? d := by
  obtain ⟨i⟩ := d
  simp only [data?, pushData, Array.getElem?_push, DataId.mk.injEq]

/-- The id of a new tensor was not in use. -/
theorem data?_fresh (node : Data) : g.data? (g.pushData node).1 = none := by
  simp [data?, pushData]

end modify

theorem ne_pushData {g : Graph} {d : DataId} {new node : Data} (h : g.data? d = some node) :
    d ≠ (g.pushData new).1 := by
  rintro rfl
  rw [data?_fresh] at h
  cases h

/-! ## Back references of many edges at once -/

/-- A fold keeps whatever part of the graph its steps leave alone. -/
theorem foldl_keeps {f : Graph → α → Graph} (part : Graph → β) (step : ∀ g a, part (f g a) = part g) :
    ∀ (as : List α) (g : Graph), part (as.foldl f g) = part g
  | [], _ => rfl
  | a :: as, g => (foldl_keeps part step as (f g a)).trans (step g a)

theorem data?_addConsumers : ∀ (links : List (EdgeId × Edge)) (g : Graph) (d : DataId),
    (links.foldl (fun g x => g.addConsumer x.2.data x.1) g).data? d =
      (g.data? d).map fun node => { node with
        consumers := node.consumers ++ (links.filter (·.2.data = d)).map Prod.fst }
  | [], g, d => by simp
  | (e, r) :: links, g, d => by
    rw [List.foldl_cons, data?_addConsumers, addConsumer, data?_modifyData]
    by_cases hd : d = r.data
    · subst hd
      simp [Function.comp_def]
    · have : ¬ r.data = d := fun h => hd h.symm
      simp [hd, this]

theorem data?_setProducers : ∀ (links : List (EdgeId × Edge)) (g : Graph) (d : DataId),
    (links.foldl (fun g x => g.setProducer x.2.data (some x.1)) g).data? d =
      (g.data? d).map fun node => { node with
        producer := (((links.filter (·.2.data = d)).map Prod.fst).getLast?).or node.producer }
  | [], g, d => by simp
  | (e, r) :: links, g, d => by
    rw [List.foldl_cons, data?_setProducers, setProducer, data?_modifyData]
    by_cases hd : d = r.data
    · subst hd
      simp only [if_true, Option.map_map, Function.comp_def, decide_true, List.filter_cons_of_pos,
        List.map_cons, List.getLast?_cons]
      congr 1
      funext node
      cases (List.map Prod.fst (links.filter (·.2.data = r.data))).getLast? <;> simp
    · have : ¬ r.data = d := fun h => hd h.symm
      simp [hd, this]

theorem data?_dropConsumers : ∀ (links : List (EdgeId × DataId)) (g : Graph) (d : DataId),
    (links.foldl (fun g x => g.dropConsumer x.2 x.1) g).data? d =
      (g.data? d).map fun node => { node with
        consumers := node.consumers.filter fun e => (e, d) ∉ links }
  | [], g, d => by simp
  | (e, x) :: links, g, d => by
    rw [List.foldl_cons, data?_dropConsumers, dropConsumer, data?_modifyData]
    by_cases hd : d = x
    · subst hd
      simp only [if_true, Option.map_map, Function.comp_def, List.filter_filter, List.mem_cons,
        Prod.mk.injEq, and_true, not_or, Bool.decide_and, Bool.and_comm, ne_eq]
    · simp [hd]

theorem data?_dropProducers : ∀ (written : List DataId) (g : Graph) (d : DataId),
    (written.foldl (fun g x => g.setProducer x none) g).data? d =
      (g.data? d).map fun node => { node with producer := if d ∈ written then none else node.producer }
  | [], g, d => by simp
  | x :: written, g, d => by
    rw [List.foldl_cons, data?_dropProducers, setProducer, data?_modifyData]
    by_cases hd : d = x
    · subst hd
      simp [Function.comp_def]
    · simp [hd]

/-! ## A stage more -/

/-- Identifiers of edges, numbered from `first` on. -/
def edgeIds (first count : Nat) : List EdgeId := (List.range count).map fun k => ⟨first + k⟩

@[simp] theorem getElem?_edgeIds {first count k : Nat} {e : EdgeId} :
    (edgeIds first count)[k]? = some e ↔ k < count ∧ e = ⟨first + k⟩ := by
  simp only [edgeIds, List.getElem?_map, Option.map_eq_some_iff, List.getElem?_eq_some_iff,
    List.length_range, List.getElem_range]
  constructor
  · rintro ⟨_, ⟨hk, rfl⟩, rfl⟩
    exact ⟨hk, rfl⟩
  · rintro ⟨hk, rfl⟩
    exact ⟨k, ⟨hk, rfl⟩, rfl⟩

@[simp] theorem mem_edgeIds {first count : Nat} {e : EdgeId} :
    e ∈ edgeIds first count ↔ ∃ k, k < count ∧ e = ⟨first + k⟩ := by
  simp [edgeIds, eq_comm]

/-- The edges to one tensor among edges numbered from `first` on. -/
def edgesTo (first : Nat) (datas : List DataId) (d : DataId) : List EdgeId :=
  datas.zipIdx.filterMap fun (x, k) => if x = d then some ⟨first + k⟩ else none

theorem mem_edgesTo {first : Nat} {datas : List DataId} {d : DataId} {e : EdgeId} :
    e ∈ edgesTo first datas d ↔ ∃ k, datas[k]? = some d ∧ e = ⟨first + k⟩ := by
  simp only [edgesTo, List.mem_filterMap, Prod.exists, List.mem_zipIdx_iff_getElem?,
    Option.ite_none_right_eq_some, Option.some.injEq]
  constructor
  · rintro ⟨x, k, hx, rfl, rfl⟩
    exact ⟨k, hx, rfl⟩
  · rintro ⟨k, hk, rfl⟩
    exact ⟨d, k, hk, rfl, rfl⟩

theorem nodup_edgeIds (first count : Nat) : (edgeIds first count).Nodup := by
  refine List.Nodup.map (fun a b h => ?_) List.nodup_range
  simpa using h

theorem slotEdges_fst {kind : EdgeKind} {z : StageId} {first : Nat} {datas : List DataId} :
    (slotEdges kind z first datas).map Prod.fst = edgeIds first datas.length := by
  simp only [edgeIds, List.range_eq_range', ← List.zipIdx_map_snd 0 datas, slotEdges, List.map_map]
  rfl

theorem slotEdges_to {kind : EdgeKind} {z : StageId} {first : Nat} {datas : List DataId} {d : DataId} :
    ((slotEdges kind z first datas).filter (·.2.data = d)).map Prod.fst = edgesTo first datas d := by
  rw [← List.filterMap_eq_filter, List.map_filterMap, slotEdges, List.filterMap_map, edgesTo]
  congr 1
  funext ⟨x, k⟩
  by_cases hx : x = d <;> simp [hx, Option.guard]

theorem nodup_edgesTo (first : Nat) (datas : List DataId) (d : DataId) :
    (edgesTo first datas d).Nodup := by
  rw [← @slotEdges_to .input ⟨0⟩]
  exact (List.filter_sublist.map Prod.fst).nodup (slotEdges_fst ▸ nodup_edgeIds _ _)

theorem getElem?_slotEdges {kind : EdgeKind} {z : StageId} {first : Nat} {datas : List DataId} {k : Nat} :
    (slotEdges kind z first datas)[k]? =
      datas[k]?.map fun d => ((⟨first + k⟩ : EdgeId), (⟨kind, d, z, k⟩ : Edge)) := by
  simp [slotEdges, List.getElem?_zipIdx, Function.comp_def]

/-- What adding a stage does: the stage `z` is there with new edges to its tensors, which refer
back to them, and everything else is as before. -/
structure Added (g : Graph) (template : StageTemplate) (inputs outputs : List DataId) (z : StageId)
    (g' : Graph) : Prop where
  known : ∀ d ∈ inputs ++ outputs, ∃ node, g.data? d = some node
  writable : ∀ d ∈ outputs, ∀ node, g.data? d = some node →
    node.producer = none ∧ (node.usage = .output ∨ node.usage = .intermediate)
  id : z = ⟨g.stages.size⟩
  size : g'.stages.size = g.stages.size + 1
  stage? : ∀ id, g'.stage? id = if id = z then
      some { template with
        inputs := edgeIds g.edges.size inputs.length
        outputs := edgeIds (g.edges.size + inputs.length) outputs.length }
    else g.stage? id
  edge? : ∀ e r, g.edge? e = some r → g'.edge? e = some r
  input : ∀ k d, inputs[k]? = some d → g'.edge? ⟨g.edges.size + k⟩ = some ⟨.input, d, z, k⟩
  output : ∀ k d, outputs[k]? = some d →
    g'.edge? ⟨g.edges.size + inputs.length + k⟩ = some ⟨.output, d, z, k⟩
  data? : ∀ d, g'.data? d = (g.data? d).map fun node => { node with
    consumers := node.consumers ++ edgesTo g.edges.size inputs d
    producer := (edgesTo (g.edges.size + inputs.length) outputs d).getLast?.or node.producer }

theorem checkWritable_eq_ok {g : Graph} {d : DataId} : g.checkWritable d = .ok () ↔
    ∃ node, g.data? d = some node ∧ node.producer = none ∧
      (node.usage = .output ∨ node.usage = .intermediate) := by
  simp only [checkWritable, Outcome.bind_eq_ok, data_eq_ok]
  constructor
  · rintro ⟨node, hnode, h⟩
    refine ⟨node, hnode, ?_⟩
    cases hp : node.producer <;> cases hu : node.usage <;> simp_all
  · rintro ⟨node, hnode, hp, hu⟩
    refine ⟨node, hnode, ?_⟩
    rcases hu with hu | hu <;> simp [hp, hu]

theorem addStage_added {g g' : Graph} {template : StageTemplate} {inputs outputs : List DataId}
    {z : StageId} (h : g.addStage template inputs outputs = .ok (z, g')) :
    Added g template inputs outputs z g' := by
  simp only [addStage, Outcome.bind_eq_ok, Outcome.pure_eq_ok, Prod.mk.injEq] at h
  obtain ⟨⟨⟩, hknown, ⟨⟩, hwritable, rfl, rfl⟩ := h
  rw [Outcome.forEach_eq_ok] at hknown hwritable
  -- Back references are the only thing the two folds touch.
  have stages (gs : Graph) (reads writes : List (EdgeId × Edge)) :
      (writes.foldl (fun g x => g.setProducer x.2.data (some x.1))
        (reads.foldl (fun g x => g.addConsumer x.2.data x.1) gs)).stages = gs.stages := by
    refine (foldl_keeps Graph.stages ?_ writes _).trans (foldl_keeps Graph.stages ?_ reads gs) <;>
      exact fun _ _ => rfl
  have edges (gs : Graph) (reads writes : List (EdgeId × Edge)) :
      (writes.foldl (fun g x => g.setProducer x.2.data (some x.1))
        (reads.foldl (fun g x => g.addConsumer x.2.data x.1) gs)).edges = gs.edges := by
    refine (foldl_keeps Graph.edges ?_ writes _).trans (foldl_keeps Graph.edges ?_ reads gs) <;>
      exact fun _ _ => rfl
  refine ⟨fun d hd => ?_, fun d hd node hnode => ?_, rfl, by rw [stages, Array.size_push], fun id => ?_,
    fun e r he => ?_, fun k d hk => ?_, fun k d hk => ?_, fun d => ?_⟩
  · obtain ⟨node, hnode⟩ := Outcome.check_eq_ok.1 (hknown d hd)
    exact ⟨node, data_eq_ok.1 hnode⟩
  · obtain ⟨node', hnode', h⟩ := checkWritable_eq_ok.1 (hwritable d hd)
    rw [hnode] at hnode'
    cases hnode'
    exact h
  · obtain ⟨i⟩ := id
    simp only [Graph.stage?, stages, slotEdges_fst, Array.getElem?_push, StageId.mk.injEq]
    split <;> simp
  · have := lt_of_edge? he
    simp only [Graph.edge?, edges] at he ⊢
    rw [Array.getElem?_append_left this, he]
  · have hlt := (List.getElem?_eq_some_iff.1 hk).1
    simp only [Graph.edge?, edges]
    rw [Array.getElem?_append_right (by omega)]
    simp only [List.getElem?_toArray, List.map_append, Nat.add_sub_cancel_left]
    rw [List.getElem?_append_left (by simpa [slotEdges] using hlt)]
    simp [getElem?_slotEdges, hk]
  · simp only [Graph.edge?, edges]
    rw [Array.getElem?_append_right (by omega)]
    simp only [List.getElem?_toArray, List.map_append]
    rw [List.getElem?_append_right (by simp [slotEdges]; omega)]
    simp [slotEdges, List.getElem?_zipIdx, Nat.add_assoc, hk]
  · rw [data?_setProducers, data?_addConsumers, slotEdges_to, slotEdges_to]
    simp [Graph.data?, Function.comp_def]

/-! ## A stage less -/

/-- What taking a stage out does: there is a hole in its place, and its tensors no longer refer
back to its edges. -/
structure Removed (g : Graph) (z : StageId) (s : Stage) (g' : Graph) : Prop where
  stage : g.stage? z = some s
  size : g'.stages.size = g.stages.size
  stage? : ∀ id, g'.stage? id = if id = z then none else g.stage? id
  edge? : ∀ e, g'.edge? e = g.edge? e
  data? : ∀ d, g'.data? d = (g.data? d).map fun node => { node with
    consumers := node.consumers.filter fun e => ¬ (e ∈ s.inputs ∧ g.target? e = some d)
    producer := if ∃ e ∈ s.outputs, g.target? e = some d then none else node.producer }

theorem mem_mapM_target {g : Graph} {edges : List EdgeId} {found : List DataId} {d : DataId}
    (h : (edges.mapM fun e => do return (← g.edge e).data) = .ok found) :
    d ∈ found ↔ ∃ e ∈ edges, g.target? e = some d := by
  rw [Outcome.mapM_eq_ok] at h
  induction h with
  | nil => simp
  | cons he _ ih => simp [ih, edgeData_eq_ok.1 he, eq_comm]

theorem mem_mapM_link {g : Graph} {edges : List EdgeId} {found : List (EdgeId × DataId)} {e : EdgeId}
    {d : DataId} (h : (edges.mapM fun e => do return (e, (← g.edge e).data)) = .ok found) :
    (e, d) ∈ found ↔ e ∈ edges ∧ g.target? e = some d := by
  rw [Outcome.mapM_eq_ok] at h
  induction h with
  | nil => simp
  | cons he _ ih =>
    simp only [Outcome.bind_eq_ok, Outcome.pure_eq_ok, edge_eq_ok] at he
    obtain ⟨r, hr, rfl⟩ := he
    simp only [List.mem_cons, Prod.mk.injEq, ih]
    constructor
    · rintro (⟨rfl, rfl⟩ | ⟨he, hd⟩)
      · exact ⟨.inl rfl, target?_of_edge? hr⟩
      · exact ⟨.inr he, hd⟩
    · rintro ⟨rfl | he, hd⟩
      · rw [target?_of_edge? hr] at hd
        exact .inl ⟨rfl, (Option.some.inj hd).symm⟩
      · exact .inr ⟨he, hd⟩

theorem removeStage_removed {g g' : Graph} {z : StageId} (h : g.removeStage z = .ok g') :
    ∃ s, Removed g z s g' := by
  simp only [removeStage, Outcome.bind_eq_ok, Outcome.pure_eq_ok, stage_eq_ok] at h
  obtain ⟨s, hs, reads, hreads, writes, hwrites, rfl⟩ := h
  have stages (gs : Graph) : (writes.foldl (fun g x => g.setProducer x none)
      (reads.foldl (fun g x => g.dropConsumer x.2 x.1) gs)).stages = gs.stages := by
    refine (foldl_keeps Graph.stages ?_ writes _).trans (foldl_keeps Graph.stages ?_ reads gs) <;>
      exact fun _ _ => rfl
  have edges (gs : Graph) : (writes.foldl (fun g x => g.setProducer x none)
      (reads.foldl (fun g x => g.dropConsumer x.2 x.1) gs)).edges = gs.edges := by
    refine (foldl_keeps Graph.edges ?_ writes _).trans (foldl_keeps Graph.edges ?_ reads gs) <;>
      exact fun _ _ => rfl
  refine ⟨s, hs, by simp [stages], fun id => ?_, fun e => ?_, fun d => ?_⟩
  · obtain ⟨i⟩ := id
    obtain ⟨j⟩ := z
    simp only [Graph.stage?, stages, Array.getElem?_setIfInBounds, StageId.mk.injEq]
    by_cases hij : i = j
    · subst hij
      by_cases hi : i < g.stages.size <;> simp [hi]
    · have : ¬ j = i := fun h => hij h.symm
      simp [hij, this]
  · simp only [Graph.edge?, edges]
  · rw [data?_dropProducers, data?_dropConsumers]
    simp only [mem_mapM_link hreads, mem_mapM_target hwrites, Option.map_map]
    rfl

/-! ## An edge led elsewhere -/

/-- What leading an input edge to the tensor `d` does. -/
structure InputLed (g : Graph) (e : EdgeId) (r : Edge) (d : DataId) (g' : Graph) : Prop where
  edge : g.edge? e = some r
  kind : r.kind = .input
  known : ∃ node, g.data? d = some node
  stage? : ∀ id, g'.stage? id = g.stage? id
  edge? : ∀ x, g'.edge? x = if x = e then some { r with data := d } else g.edge? x
  data? : ∀ x, g'.data? x = (g.data? x).map fun node => { node with
    consumers := (if x = r.data then node.consumers.filter (· ≠ e) else node.consumers) ++
      if x = d then [e] else [] }

theorem replaceInput_led {g g' : Graph} {e : EdgeId} {d : DataId} (h : g.replaceInput e d = .ok g') :
    ∃ r, InputLed g e r d g' := by
  simp only [replaceInput, Outcome.bind_eq_ok, data_eq_ok, edge_eq_ok] at h
  obtain ⟨node, hnode, r, hr, h⟩ := h
  split at h
  · cases h
  next hkind =>
  cases h
  refine ⟨r, hr, by simpa using hkind, ⟨node, hnode⟩, fun _ => rfl, fun x => ?_, fun x => ?_⟩
  · rw [edge?_pointEdge]
    by_cases hx : x = e
    · subst hx
      simp [addConsumer, dropConsumer, hr]
    · simp [addConsumer, dropConsumer, hx]
  · simp only [data?_pointEdge, addConsumer, dropConsumer, data?_modifyData]
    cases g.data? x with
    | none => split <;> split <;> rfl
    | some node =>
      by_cases hd : x = d
      · rw [if_pos hd, if_pos hd]
        split <;> simp
      · rw [if_neg hd, if_neg hd]
        split <;> simp

/-- What leading an output edge to the tensor `d` does. -/
structure OutputLed (g : Graph) (e : EdgeId) (r : Edge) (d : DataId) (g' : Graph) : Prop where
  edge : g.edge? e = some r
  kind : r.kind = .output
  known : ∃ node, g.data? d = some node ∧ node.producer = none
  stage? : ∀ id, g'.stage? id = g.stage? id
  edge? : ∀ x, g'.edge? x = if x = e then some { r with data := d } else g.edge? x
  data? : ∀ x, g'.data? x = (g.data? x).map fun node => { node with
    producer := if x = d then some e else if x = r.data then none else node.producer }

theorem replaceOutput_led {g g' : Graph} {e : EdgeId} {d : DataId} (h : g.replaceOutput e d = .ok g') :
    ∃ r, OutputLed g e r d g' := by
  simp only [replaceOutput, Outcome.bind_eq_ok, data_eq_ok] at h
  obtain ⟨node, hnode, h⟩ := h
  split at h
  · cases h
  next hproducer =>
  simp only [Outcome.bind_eq_ok, edge_eq_ok] at h
  obtain ⟨r, hr, h⟩ := h
  split at h
  · cases h
  next hkind =>
  cases h
  refine ⟨r, hr, by simpa using hkind, ⟨node, hnode, by simpa using hproducer⟩, fun _ => rfl, fun x => ?_,
    fun x => ?_⟩
  · rw [edge?_pointEdge]
    by_cases hx : x = e
    · subst hx
      simp [setProducer, hr]
    · simp [setProducer, hx]
  · simp only [data?_pointEdge, setProducer, data?_modifyData]
    cases g.data? x with
    | none => split <;> split <;> rfl
    | some node => split <;> split <;> simp_all

end Graph

end NetLower
