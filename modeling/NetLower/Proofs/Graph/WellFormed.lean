/-
Graphs whose three tables agree.  An edge is kept at a slot of its stage, in its own
record and as a back reference of its tensor; in a well-formed graph the three say the
same about every edge of a stage still in the graph.  Edges of stages that were taken
out stay in the table but no longer count.
-/
import NetLower.Proofs.Graph.Edits

namespace NetLower.Graph

/-- An edge of a stage still in the graph leads to a tensor. -/
def Joins (g : Graph) (kind : EdgeKind) (e : EdgeId) (d : DataId) : Prop :=
  ∃ id s, g.stage? id = some s ∧ e ∈ s.slots kind ∧ g.target? e = some d

/-- The tables of the graph agree. -/
structure WellFormed (g : Graph) : Prop where
  /-- The edge at a slot of a stage knows its direction, its stage, its slot and a tensor. -/
  slots : ∀ id s kind k e, g.stage? id = some s → (s.slots kind)[k]? = some e →
    ∃ d node, g.edge? e = some ⟨kind, d, id, k⟩ ∧ g.data? d = some node
  /-- A tensor lists each of its readers once. -/
  nodup : ∀ d node, g.data? d = some node → node.consumers.Nodup
  /-- The readers of a tensor are the input edges that lead to it. -/
  consumers : ∀ d node e, g.data? d = some node → (e ∈ node.consumers ↔ g.Joins .input e d)
  /-- The writer of a tensor is the output edge that leads to it, so there is at most one. -/
  producer : ∀ d node e, g.data? d = some node → (node.producer = some e ↔ g.Joins .output e d)
  /-- Nothing writes a constant, a placeholder or what the caller gives. -/
  sources : ∀ d node, g.data? d = some node →
    node.usage = .const ∨ node.usage = .fake ∨ node.usage = .input → node.producer = none

namespace WellFormed

variable {g : Graph}

theorem edge_of_mem (wf : g.WellFormed) {id : StageId} {s : Stage} {kind : EdgeKind} {e : EdgeId}
    (hs : g.stage? id = some s) (he : e ∈ s.slots kind) :
    ∃ k d node, (s.slots kind)[k]? = some e ∧ g.edge? e = some ⟨kind, d, id, k⟩ ∧
      g.data? d = some node := by
  obtain ⟨k, hk⟩ := List.mem_iff_getElem?.1 he
  obtain ⟨d, node, hedge, hnode⟩ := wf.slots id s kind k e hs hk
  exact ⟨k, d, node, hk, hedge, hnode⟩

/-- An edge belongs to one stage and one direction. -/
theorem owner_unique (wf : g.WellFormed) {id id' : StageId} {s s' : Stage} {kind kind' : EdgeKind}
    {e : EdgeId} (hs : g.stage? id = some s) (he : e ∈ s.slots kind) (hs' : g.stage? id' = some s')
    (he' : e ∈ s'.slots kind') : id = id' ∧ kind = kind' := by
  obtain ⟨_, _, _, _, hedge, _⟩ := wf.edge_of_mem hs he
  obtain ⟨_, _, _, _, hedge', _⟩ := wf.edge_of_mem hs' he'
  rw [hedge] at hedge'
  simp only [Option.some.injEq, Edge.mk.injEq] at hedge'
  exact ⟨hedge'.2.2.1, hedge'.1⟩

/-- An edge has one slot of a stage. -/
theorem slot_unique (wf : g.WellFormed) {id : StageId} {s : Stage} {kind kind' : EdgeKind} {k k' : Nat}
    {e : EdgeId} (hs : g.stage? id = some s) (he : (s.slots kind)[k]? = some e)
    (he' : (s.slots kind')[k']? = some e) : kind' = kind ∧ k' = k := by
  obtain ⟨_, _, hedge, _⟩ := wf.slots id s kind k e hs he
  obtain ⟨_, _, hedge', _⟩ := wf.slots id s kind' k' e hs he'
  rw [hedge, Option.some.injEq] at hedge'
  cases hedge'
  exact ⟨rfl, rfl⟩

/-- The slots of a stage have edges of their own. -/
theorem nodup_slots (wf : g.WellFormed) {id : StageId} {s : Stage} (hs : g.stage? id = some s) (kind : EdgeKind) :
    (s.slots kind).Nodup := by
  refine List.nodup_iff_injective_getElem.2 fun i j hij => Fin.ext ?_
  have hi : (s.slots kind)[i.val]? = some (s.slots kind)[i] := List.getElem?_eq_getElem i.isLt
  have hj : (s.slots kind)[j.val]? = some (s.slots kind)[j] := List.getElem?_eq_getElem j.isLt
  rw [show (s.slots kind)[i] = (s.slots kind)[j] from hij] at hi
  exact (wf.slot_unique hs hj hi).2

theorem edge_of_joins (wf : g.WellFormed) {kind : EdgeKind} {e : EdgeId} {d : DataId}
    (h : g.Joins kind e d) :
    ∃ id s k node, g.stage? id = some s ∧ (s.slots kind)[k]? = some e ∧
      g.edge? e = some ⟨kind, d, id, k⟩ ∧ g.data? d = some node := by
  obtain ⟨id, s, hs, he, hd⟩ := h
  obtain ⟨k, d', node, hk, hedge, hnode⟩ := wf.edge_of_mem hs he
  rw [target?_of_edge? hedge, Option.some.injEq] at hd
  subst hd
  exact ⟨id, s, k, node, hs, hk, hedge, hnode⟩

theorem data_of_joins (wf : g.WellFormed) {kind : EdgeKind} {e : EdgeId} {d : DataId}
    (h : g.Joins kind e d) : ∃ node, g.data? d = some node := by
  obtain ⟨_, _, _, node, _, _, _, hnode⟩ := wf.edge_of_joins h
  exact ⟨node, hnode⟩

theorem writer_unique (wf : g.WellFormed) {d : DataId} {e e' : EdgeId} (h : g.Joins .output e d)
    (h' : g.Joins .output e' d) : e = e' := by
  obtain ⟨node, hnode⟩ := wf.data_of_joins h
  have hp := (wf.producer d node e hnode).2 h
  rw [(wf.producer d node e' hnode).2 h', Option.some.injEq] at hp
  exact hp.symm

/-- What a stage writes is an output of the network or an intermediate. -/
theorem usage_of_written (wf : g.WellFormed) {d : DataId} {e : EdgeId} {node : Data} (h : g.Joins .output e d)
    (hnode : g.data? d = some node) : node.usage = .output ∨ node.usage = .intermediate := by
  have hproducer := (wf.producer d node e hnode).2 h
  have hsource := wf.sources d node hnode
  cases hu : node.usage <;> simp_all

/-- A constant with one reader is at that reader's slot and at no other. -/
theorem only_edge (wf : g.WellFormed) {d : DataId} {node : Data} {e x : EdgeId} {kind : EdgeKind}
    (hnode : g.data? d = some node) (hconst : node.usage = .const) (hone : node.consumers.length = 1)
    (h : g.Joins .input e d) (hx : g.Joins kind x d) : kind = .input ∧ x = e := by
  cases kind with
  | output => rcases wf.usage_of_written hx hnode with hu | hu <;> simp [hu] at hconst
  | input =>
    obtain ⟨y, hy⟩ := List.length_eq_one_iff.1 hone
    have he := (wf.consumers d node e hnode).2 h
    have hx := (wf.consumers d node x hnode).2 hx
    rw [hy, List.mem_singleton] at he hx
    exact ⟨rfl, hx.trans he.symm⟩

end WellFormed

/-! ## Edits that leave the links alone -/

/-- Two graphs with the same links between their nodes; nodes may differ otherwise. -/
structure SameLinks (g g' : Graph) : Prop where
  stage? : ∀ id, (g'.stage? id).map Stage.slots = (g.stage? id).map Stage.slots
  edge? : ∀ e, g'.edge? e = g.edge? e
  data? : ∀ d, (g'.data? d).map (fun node => (node.usage, node.producer, node.consumers)) =
    (g.data? d).map fun node => (node.usage, node.producer, node.consumers)

namespace SameLinks

variable {g g' : Graph}

theorem refl : SameLinks g g := ⟨fun _ => rfl, fun _ => rfl, fun _ => rfl⟩

theorem trans {g'' : Graph} (h : SameLinks g g') (h' : SameLinks g' g'') : SameLinks g g'' :=
  ⟨fun id => (h'.stage? id).trans (h.stage? id), fun e => (h'.edge? e).trans (h.edge? e),
    fun d => (h'.data? d).trans (h.data? d)⟩

theorem symm (h : SameLinks g g') : SameLinks g' g :=
  ⟨fun id => (h.stage? id).symm, fun e => (h.edge? e).symm, fun d => (h.data? d).symm⟩

theorem stage_eq (h : SameLinks g g') {id : StageId} {s' : Stage} (hs : g'.stage? id = some s') :
    ∃ s, g.stage? id = some s ∧ s.slots = s'.slots := by
  have := h.stage? id
  rw [hs, Option.map_some, eq_comm, Option.map_eq_some_iff] at this
  exact this

theorem data_eq (h : SameLinks g g') {d : DataId} {node' : Data} (hd : g'.data? d = some node') :
    ∃ node, g.data? d = some node ∧ node.usage = node'.usage ∧ node.producer = node'.producer ∧
      node.consumers = node'.consumers := by
  have := h.data? d
  rw [hd, Option.map_some, eq_comm, Option.map_eq_some_iff] at this
  obtain ⟨node, hnode, heq⟩ := this
  simp only [Prod.mk.injEq] at heq
  exact ⟨node, hnode, heq⟩

theorem target?_eq (h : SameLinks g g') (e : EdgeId) : g'.target? e = g.target? e := by
  simp only [Graph.target?, h.edge?]

theorem joins (h : SameLinks g g') {kind : EdgeKind} {e : EdgeId} {d : DataId}
    (hj : g'.Joins kind e d) : g.Joins kind e d := by
  obtain ⟨id, s', hs', he, hd⟩ := hj
  obtain ⟨s, hs, hslots⟩ := h.stage_eq hs'
  exact ⟨id, s, hs, hslots ▸ he, h.target?_eq e ▸ hd⟩

theorem joins_iff (h : SameLinks g g') {kind : EdgeKind} {e : EdgeId} {d : DataId} :
    g'.Joins kind e d ↔ g.Joins kind e d := ⟨h.joins, h.symm.joins⟩

theorem wellFormed (h : SameLinks g g') (wf : g.WellFormed) : g'.WellFormed where
  slots id s' kind k e hs' hk := by
    obtain ⟨s, hs, hslots⟩ := h.stage_eq hs'
    obtain ⟨d, node, hedge, hnode⟩ := wf.slots id s kind k e hs (hslots ▸ hk)
    obtain ⟨node', hnode', _⟩ := h.symm.data_eq hnode
    exact ⟨d, node', (h.edge? e).trans hedge, hnode'⟩
  nodup d node' hd := by
    obtain ⟨node, hnode, _, _, hc⟩ := h.data_eq hd
    exact hc ▸ wf.nodup d node hnode
  consumers d node' e hd := by
    obtain ⟨node, hnode, _, _, hc⟩ := h.data_eq hd
    rw [← hc, wf.consumers d node e hnode, h.joins_iff]
  producer d node' e hd := by
    obtain ⟨node, hnode, _, hp, _⟩ := h.data_eq hd
    rw [← hp, wf.producer d node e hnode, h.joins_iff]
  sources d node' hd hu := by
    obtain ⟨node, hnode, hu', hp, _⟩ := h.data_eq hd
    exact hp ▸ wf.sources d node hnode (hu' ▸ hu)

theorem modifyData {d : DataId} {f : Data → Data}
    (hf : ∀ node, (f node).usage = node.usage ∧ (f node).producer = node.producer ∧
      (f node).consumers = node.consumers) : SameLinks g (g.modifyData d f) where
  stage? _ := rfl
  edge? _ := rfl
  data? x := by
    rw [data?_modifyData]
    split
    · cases g.data? x with
      | none => rfl
      | some node => simp [hf node]
    · rfl

theorem modifyStage {id : StageId} {f : Stage → Stage} (hf : ∀ s, (f s).slots = s.slots) :
    SameLinks g (g.modifyStage id f) where
  stage? x := by
    rw [stage?_modifyStage]
    split
    · cases g.stage? x with
      | none => rfl
      | some s => simp [hf s]
    · rfl
  edge? _ := rfl
  data? _ := rfl

end SameLinks

/-! ## A tensor more -/

theorem data?_pushData_old {g : Graph} {new : Data} {d : DataId} {node : Data}
    (h : g.data? d = some node) : (g.pushData new).2.data? d = some node := by
  rw [data?_pushData, if_neg (ne_pushData h), h]

theorem joins_pushData {g : Graph} {new : Data} {kind : EdgeKind} {e : EdgeId} {d : DataId} :
    (g.pushData new).2.Joins kind e d ↔ g.Joins kind e d := Iff.rfl

/-- A new tensor that nothing reads or writes. -/
theorem WellFormed.pushData {g : Graph} (wf : g.WellFormed) {new : Data} (hc : new.consumers = [])
    (hp : new.producer = none) : (g.pushData new).2.WellFormed := by
  have unjoined (kind : EdgeKind) (e : EdgeId) : ¬ g.Joins kind e (g.pushData new).1 := by
    intro hj
    obtain ⟨node, hnode⟩ := wf.data_of_joins hj
    exact ne_pushData hnode rfl
  refine ⟨fun id s kind k e hs hk => ?_, fun d node hd => ?_, fun d node e hd => ?_,
    fun d node e hd => ?_, fun d node hd hu => ?_⟩
  · obtain ⟨d, node, hedge, hnode⟩ := wf.slots id s kind k e hs hk
    exact ⟨d, node, hedge, data?_pushData_old hnode⟩
  all_goals
    rw [data?_pushData] at hd
    split at hd
    next heq => cases hd; subst heq; simp [hc, hp, joins_pushData, unjoined]
  · exact wf.nodup d node hd
  · exact wf.consumers d node e hd
  · exact wf.producer d node e hd
  · exact wf.sources d node hd hu

/-! ## A stage more -/

section added

variable {g g' : Graph} {template : StageTemplate} {inputs outputs : List DataId} {z : StageId}

theorem Added.stage?_of_old (h : Added g template inputs outputs z g') {id : StageId} {s : Stage}
    (hs : g.stage? id = some s) : id ≠ z ∧ g'.stage? id = some s := by
  have hne : id ≠ z := by
    rintro rfl
    have := lt_of_stage? hs
    rw [h.id] at this
    exact Nat.lt_irrefl _ this
  exact ⟨hne, by rw [h.stage?, if_neg hne, hs]⟩

theorem Added.data_of_old (h : Added g template inputs outputs z g') {d : DataId} {node : Data}
    (hd : g.data? d = some node) : ∃ node', g'.data? d = some node' := by
  rw [h.data?, hd]
  exact ⟨_, rfl⟩

/-- The new edges of a direction that lead to a tensor. -/
def newEdges (g : Graph) (inputs outputs : List DataId) (d : DataId) : EdgeKind → List EdgeId
  | .input => edgesTo g.edges.size inputs d
  | .output => edgesTo (g.edges.size + inputs.length) outputs d

theorem lt_of_mem_newEdges {d : DataId} {kind : EdgeKind} {e : EdgeId}
    (h : e ∈ newEdges g inputs outputs d kind) : g.edges.size ≤ e.index := by
  cases kind <;> obtain ⟨k, _, rfl⟩ := mem_edgesTo.1 h
  · exact Nat.le_add_right _ _
  · exact Nat.le_add_right_of_le (Nat.le_add_right _ _)

/-- The edges at the slots of the new stage are the new edges. -/
theorem Added.new_slots (h : Added g template inputs outputs z g') {s : Stage} {kind : EdgeKind}
    {k : Nat} {e : EdgeId} (hs : g'.stage? z = some s) (hk : (s.slots kind)[k]? = some e) :
    ∃ d, d ∈ inputs ++ outputs ∧ g'.edge? e = some ⟨kind, d, z, k⟩ ∧
      e ∈ newEdges g inputs outputs d kind := by
  rw [h.stage?, if_pos rfl, Option.some.injEq] at hs
  subst hs
  cases kind with
  | input =>
    obtain ⟨hlt, rfl⟩ := getElem?_edgeIds.1 hk
    have hd := List.getElem?_eq_getElem hlt
    exact ⟨inputs[k], by simp, h.input k _ hd, mem_edgesTo.2 ⟨k, hd, rfl⟩⟩
  | output =>
    obtain ⟨hlt, rfl⟩ := getElem?_edgeIds.1 hk
    have hd := List.getElem?_eq_getElem hlt
    exact ⟨outputs[k], by simp, h.output k _ hd, mem_edgesTo.2 ⟨k, hd, rfl⟩⟩

theorem Added.new_edge (h : Added g template inputs outputs z g') {d : DataId} {kind : EdgeKind}
    {e : EdgeId} (he : e ∈ newEdges g inputs outputs d kind) : g'.Joins kind e d := by
  refine ⟨z, _, by rw [h.stage?, if_pos rfl], ?_⟩
  cases kind with
  | input =>
    obtain ⟨k, hk, rfl⟩ := mem_edgesTo.1 he
    exact ⟨mem_edgeIds.2 ⟨k, (List.getElem?_eq_some_iff.1 hk).1, rfl⟩, target?_of_edge? (h.input k d hk)⟩
  | output =>
    obtain ⟨k, hk, rfl⟩ := mem_edgesTo.1 he
    exact ⟨mem_edgeIds.2 ⟨k, (List.getElem?_eq_some_iff.1 hk).1, rfl⟩, target?_of_edge? (h.output k d hk)⟩

theorem Added.joins (h : Added g template inputs outputs z g') (wf : g.WellFormed) {kind : EdgeKind}
    {e : EdgeId} {d : DataId} :
    g'.Joins kind e d ↔ g.Joins kind e d ∨ e ∈ newEdges g inputs outputs d kind := by
  constructor
  · rintro ⟨id, s, hs, he, hd⟩
    by_cases hz : id = z
    · subst hz
      obtain ⟨k, hk⟩ := List.mem_iff_getElem?.1 he
      obtain ⟨d', _, hedge, hnew⟩ := h.new_slots hs hk
      rw [target?_of_edge? hedge, Option.some.injEq] at hd
      exact .inr (hd ▸ hnew)
    · rw [h.stage?, if_neg hz] at hs
      obtain ⟨k, d', node, _, hedge, _⟩ := wf.edge_of_mem hs he
      rw [target?_of_edge? (h.edge? e _ hedge)] at hd
      exact .inl ⟨id, s, hs, he, (target?_of_edge? hedge).trans hd⟩
  · rintro (hj | hnew)
    · obtain ⟨id, s, k, node, hs, hk, hedge, _⟩ := wf.edge_of_joins hj
      exact ⟨id, s, (h.stage?_of_old hs).2, List.mem_of_getElem? hk, target?_of_edge? (h.edge? e _ hedge)⟩
    · exact h.new_edge hnew

/-- With every output once, the last edge to a tensor is the only one. -/
theorem getLast?_edgesTo {first : Nat} {datas : List DataId} (hn : datas.Nodup) {d : DataId} {e : EdgeId} :
    (edgesTo first datas d).getLast? = some e ↔ e ∈ edgesTo first datas d := by
  refine ⟨List.mem_of_getLast?, fun he => ?_⟩
  cases hlast : (edgesTo first datas d).getLast? with
  | none => simp_all
  | some e' =>
    obtain ⟨k, hk, rfl⟩ := mem_edgesTo.1 he
    obtain ⟨k', hk', rfl⟩ := mem_edgesTo.1 (List.mem_of_getLast? hlast)
    rw [(List.getElem?_inj (List.getElem?_eq_some_iff.1 hk).1 hn).1 (hk.trans hk'.symm)]

/-- Adding a stage that writes no tensor twice. -/
theorem WellFormed.added (wf : g.WellFormed) (h : Added g template inputs outputs z g')
    (hn : outputs.Nodup) : g'.WellFormed := by
  have old {d node e kind} (hd : g.data? d = some node) (hj : g.Joins kind e d) : e.index < g.edges.size := by
    obtain ⟨_, _, _, _, _, _, hedge, _⟩ := wf.edge_of_joins hj
    exact lt_of_edge? hedge
  refine ⟨fun id s kind k e hs hk => ?_, fun d node' hd => ?_, fun d node' e hd => ?_,
    fun d node' e hd => ?_, fun d node' hd hu => ?_⟩
  · by_cases hz : id = z
    · subst hz
      obtain ⟨d, hmem, hedge, _⟩ := h.new_slots hs hk
      obtain ⟨node, hnode⟩ := h.known d hmem
      obtain ⟨node', hnode'⟩ := h.data_of_old hnode
      exact ⟨d, node', hedge, hnode'⟩
    · rw [h.stage?, if_neg hz] at hs
      obtain ⟨d, node, hedge, hnode⟩ := wf.slots id s kind k e hs hk
      obtain ⟨node', hnode'⟩ := h.data_of_old hnode
      exact ⟨d, node', h.edge? e _ hedge, hnode'⟩
  all_goals
    rw [h.data?, Option.map_eq_some_iff] at hd
    obtain ⟨node, hnode, rfl⟩ := hd
  · refine List.nodup_append.2 ⟨wf.nodup d node hnode, nodup_edgesTo _ _ _, fun e he e' he' => ?_⟩
    rintro rfl
    have hlt := old hnode ((wf.consumers d node e hnode).1 he)
    have hge := @lt_of_mem_newEdges g inputs outputs d .input e he'
    omega
  · rw [List.mem_append, wf.consumers d node e hnode, h.joins wf]
    rfl
  · rw [h.joins wf, ← wf.producer d node e hnode]
    show _ ↔ _ ∨ e ∈ edgesTo (g.edges.size + inputs.length) outputs d
    rw [← getLast?_edgesTo hn]
    cases hlast : (edgesTo (g.edges.size + inputs.length) outputs d).getLast? with
    | none => simp
    | some e' =>
      -- A tensor that gets a writer had none.
      obtain ⟨k, hk, _⟩ := mem_edgesTo.1 (List.mem_of_getLast? hlast)
      have hnone := (h.writable d (List.mem_of_getElem? hk) node hnode).1
      simp [hnone]
  · have hnone := wf.sources d node hnode hu
    have hempty : edgesTo (g.edges.size + inputs.length) outputs d = [] := by
      refine List.eq_nil_iff_forall_not_mem.2 fun e he => ?_
      obtain ⟨k, hk, _⟩ := mem_edgesTo.1 he
      have hw := (h.writable d (List.mem_of_getElem? hk) node hnode).2
      rcases hu with hu | hu | hu <;> rcases hw with hw | hw <;>
        rw [show node.usage = _ from hu] at hw <;> cases hw
    simp [hempty, hnone]

end added

/-! ## A stage less -/

section removed

variable {g g' : Graph} {z : StageId} {s : Stage}

theorem Removed.target?_eq (h : Removed g z s g') (e : EdgeId) : g'.target? e = g.target? e := by
  simp only [Graph.target?, h.edge?]

theorem Removed.joins (h : Removed g z s g') (wf : g.WellFormed) {kind : EdgeKind} {e : EdgeId}
    {d : DataId} : g'.Joins kind e d ↔ g.Joins kind e d ∧ e ∉ s.slots kind := by
  constructor
  · rintro ⟨id, s', hs', he, hd⟩
    rw [h.stage?] at hs'
    split at hs'
    · cases hs'
    next hne =>
    rw [h.target?_eq] at hd
    exact ⟨⟨id, s', hs', he, hd⟩, fun hz => hne (wf.owner_unique hs' he h.stage hz).1⟩
  · rintro ⟨⟨id, s', hs', he, hd⟩, hnot⟩
    have hne : id ≠ z := by
      rintro rfl
      rw [h.stage, Option.some.injEq] at hs'
      exact hnot (hs' ▸ he)
    exact ⟨id, s', by rw [h.stage?, if_neg hne, hs'], he, by rw [h.target?_eq, hd]⟩

theorem WellFormed.removed (wf : g.WellFormed) (h : Removed g z s g') : g'.WellFormed := by
  refine ⟨fun id s' kind k e hs hk => ?_, fun d node' hd => ?_, fun d node' e hd => ?_,
    fun d node' e hd => ?_, fun d node' hd hu => ?_⟩
  · rw [h.stage?] at hs
    split at hs
    · cases hs
    obtain ⟨d, node, hedge, hnode⟩ := wf.slots id s' kind k e hs hk
    exact ⟨d, _, (h.edge? e).trans hedge, by rw [h.data?, hnode]; rfl⟩
  all_goals
    rw [h.data?, Option.map_eq_some_iff] at hd
    obtain ⟨node, hnode, rfl⟩ := hd
  · exact (wf.nodup d node hnode).filter _
  · rw [h.joins wf, ← wf.consumers d node e hnode, List.mem_filter, decide_eq_true_eq]
    refine and_congr_right fun he => not_congr ⟨And.left, fun hin => ⟨hin, ?_⟩⟩
    obtain ⟨_, _, _, _, hd⟩ := (wf.consumers d node e hnode).1 he
    exact hd
  · rw [h.joins wf, ← wf.producer d node e hnode]
    show (if _ then none else node.producer) = some e ↔ _
    split
    next hex =>
      obtain ⟨e', he', hd⟩ := hex
      have hp := (wf.producer d node e' hnode).2 ⟨z, s, h.stage, he', hd⟩
      simp only [reduceCtorEq, hp, Option.some.injEq, false_iff, not_and, not_not]
      rintro rfl
      exact he'
    next hno =>
      refine ⟨fun hp => ⟨hp, fun he => hno ⟨e, he, ?_⟩⟩, And.left⟩
      obtain ⟨_, _, _, _, hd⟩ := (wf.producer d node e hnode).1 hp
      exact hd
  · simp [wf.sources d node hnode hu]

end removed

/-! ## An edge led elsewhere -/

section led

variable {g g' : Graph} {e : EdgeId} {r : Edge} {d : DataId}

theorem InputLed.target? (h : InputLed g e r d g') (x : EdgeId) :
    g'.target? x = if x = e then some d else g.target? x := by
  simp only [Graph.target?, h.edge?]
  split <;> rfl

theorem OutputLed.target? (h : OutputLed g e r d g') (x : EdgeId) :
    g'.target? x = if x = e then some d else g.target? x := by
  simp only [Graph.target?, h.edge?]
  split <;> rfl

/-- What a stage's edge joins once that edge alone leads to `d`. -/
theorem WellFormed.joins_led (wf : g.WellFormed) {kind : EdgeKind} {d₀ : DataId}
    (he : g.Joins kind e d₀) (hstage : ∀ id, g'.stage? id = g.stage? id)
    (htarget : ∀ x, g'.target? x = if x = e then some d else g.target? x) {kind' : EdgeKind}
    {x : EdgeId} {y : DataId} :
    g'.Joins kind' x y ↔ (x = e ∧ kind' = kind ∧ y = d) ∨ (x ≠ e ∧ g.Joins kind' x y) := by
  obtain ⟨id₀, s₀, hs₀, he₀, _⟩ := he
  constructor
  · rintro ⟨id, s, hs, hx, hy⟩
    rw [hstage] at hs
    rw [htarget] at hy
    by_cases hxe : x = e
    · subst hxe
      rw [if_pos rfl, Option.some.injEq] at hy
      exact .inl ⟨rfl, (wf.owner_unique hs hx hs₀ he₀).2, hy.symm⟩
    · rw [if_neg hxe] at hy
      exact .inr ⟨hxe, id, s, hs, hx, hy⟩
  · rintro (⟨rfl, rfl, rfl⟩ | ⟨hxe, id, s, hs, hx, hy⟩)
    · exact ⟨id₀, s₀, (hstage id₀).trans hs₀, he₀, by rw [htarget, if_pos rfl]⟩
    · exact ⟨id, s, (hstage id).trans hs, hx, by rw [htarget, if_neg hxe, hy]⟩

/-- An edge leads to one tensor. -/
theorem Joins.unique {kind kind' : EdgeKind} {x y : DataId} (h : g.Joins kind e x)
    (h' : g.Joins kind' e y) : x = y := by
  obtain ⟨_, _, _, _, hx⟩ := h
  obtain ⟨_, _, _, _, hy⟩ := h'
  rw [hx, Option.some.injEq] at hy
  exact hy

theorem Joins.target {kind : EdgeKind} {x : DataId} (h : g.Joins kind e x) : g.target? e = some x := by
  obtain ⟨_, _, _, _, hx⟩ := h
  exact hx

/-- Leading an edge of a stage elsewhere keeps the slots in order. -/
theorem WellFormed.slots_led (wf : g.WellFormed) (hedge : g.edge? e = some r)
    (hstage : ∀ id, g'.stage? id = g.stage? id)
    (hedges : ∀ x, g'.edge? x = if x = e then some { r with data := d } else g.edge? x)
    (hdata : ∀ x node, g.data? x = some node → ∃ node', g'.data? x = some node')
    (hd : ∃ node, g.data? d = some node) {id : StageId} {s : Stage} {kind : EdgeKind} {k : Nat}
    {x : EdgeId} (hs : g'.stage? id = some s) (hk : (s.slots kind)[k]? = some x) :
    ∃ y node, g'.edge? x = some ⟨kind, y, id, k⟩ ∧ g'.data? y = some node := by
  rw [hstage] at hs
  obtain ⟨y, node, hx, hnode⟩ := wf.slots id s kind k x hs hk
  rw [hedges]
  by_cases hxe : x = e
  · subst hxe
    rw [hedge, Option.some.injEq] at hx
    obtain ⟨node, hnode⟩ := hd
    obtain ⟨node', hnode'⟩ := hdata d node hnode
    exact ⟨d, node', by rw [if_pos rfl, hx], hnode'⟩
  · obtain ⟨node', hnode'⟩ := hdata y node hnode
    exact ⟨y, node', by rw [if_neg hxe, hx], hnode'⟩

theorem WellFormed.inputLed (wf : g.WellFormed) (h : InputLed g e r d g')
    (he : g.Joins .input e r.data) : g'.WellFormed := by
  have joins {kind x y} := @WellFormed.joins_led g g' e d wf .input r.data he h.stage? h.target? kind x y
  refine ⟨fun id s kind k x hs hk => ?_, fun x node' hx => ?_, fun x node' e' hx => ?_,
    fun x node' e' hx => ?_, fun x node' hx hu => ?_⟩
  · refine wf.slots_led h.edge h.stage? h.edge? (fun x node hx => ?_) h.known hs hk
    rw [h.data?, hx]
    exact ⟨_, rfl⟩
  all_goals
    rw [h.data?, Option.map_eq_some_iff] at hx
    obtain ⟨node, hnode, rfl⟩ := hx
  · have keep : (if x = r.data then node.consumers.filter (· ≠ e) else node.consumers).Nodup := by
      split
      · exact (wf.nodup x node hnode).filter _
      · exact wf.nodup x node hnode
    by_cases hxd : x = d
    · simp only [if_pos hxd]
      refine List.nodup_append.2 ⟨keep, by simp, fun a ha b hb hab => ?_⟩
      rw [hab, List.mem_singleton.1 hb] at ha
      split at ha
      · simp at ha
      next hne => exact hne (((wf.consumers x node e hnode).1 ha).unique he)
    · simp only [if_neg hxd, List.append_nil]
      exact keep
  · rw [joins]
    show e' ∈ _ ++ (if x = d then [e] else []) ↔ _
    rw [List.mem_append, or_comm]
    refine or_congr ?_ ?_
    · by_cases hxd : x = d <;> simp [hxd]
    · rw [← wf.consumers x node e' hnode]
      split
      · simp [and_comm]
      next hne =>
        refine ⟨fun hmem => ⟨?_, hmem⟩, And.right⟩
        rintro rfl
        exact hne (((wf.consumers x node e' hnode).1 hmem).unique he)
  · rw [joins, wf.producer x node e' hnode]
    refine ⟨fun hj => .inr ⟨?_, hj⟩, ?_⟩
    · rintro rfl
      obtain ⟨id, s, hs, hx, _⟩ := hj
      obtain ⟨id', s', hs', hx', _⟩ := he
      cases (wf.owner_unique hs hx hs' hx').2
    · rintro (⟨_, hkind, _⟩ | ⟨_, hj⟩)
      · cases hkind
      · exact hj
  · exact wf.sources x node hnode hu

theorem WellFormed.outputLed (wf : g.WellFormed) (h : OutputLed g e r d g')
    (he : g.Joins .output e r.data) {node : Data} (hd : g.data? d = some node)
    (hu : node.usage = .output ∨ node.usage = .intermediate) : g'.WellFormed := by
  have joins {kind x y} := @WellFormed.joins_led g g' e d wf .output r.data he h.stage? h.target? kind x y
  refine ⟨fun id s kind k x hs hk => ?_, fun x node' hx => ?_, fun x node' e' hx => ?_,
    fun x node' e' hx => ?_, fun x node' hx hu' => ?_⟩
  · refine wf.slots_led h.edge h.stage? h.edge? (fun x node hx => ?_) ⟨node, hd⟩ hs hk
    rw [h.data?, hx]
    exact ⟨_, rfl⟩
  all_goals
    rw [h.data?, Option.map_eq_some_iff] at hx
    obtain ⟨node', hnode', rfl⟩ := hx
  · exact wf.nodup x node' hnode'
  · rw [joins, wf.consumers x node' e' hnode']
    refine ⟨fun hj => .inr ⟨?_, hj⟩, ?_⟩
    · rintro rfl
      obtain ⟨id, s, hs, hx, _⟩ := hj
      obtain ⟨id', s', hs', hx', _⟩ := he
      cases (wf.owner_unique hs hx hs' hx').2
    · rintro (⟨_, hkind, _⟩ | ⟨_, hj⟩)
      · cases hkind
      · exact hj
  · rw [joins]
    show (if x = d then some e else if x = r.data then none else node'.producer) = some e' ↔ _
    rw [← wf.producer x node' e' hnode']
    split
    next hxd =>
      -- The tensor that the edge now leads to had no writer.
      obtain ⟨_, hnode, hnone⟩ := h.known
      rw [← hxd, hnode', Option.some.injEq] at hnode
      subst hnode
      simp [hxd, hnone, eq_comm]
    next hxd =>
      split
      next hxr =>
        have hp := (wf.producer x node' e hnode').2 (hxr ▸ he)
        simp [hxd, hp, eq_comm]
      next hxr =>
        refine ⟨fun hp => .inr ⟨?_, hp⟩, ?_⟩
        · rintro rfl
          exact hxr (((wf.producer x node' e' hnode').1 hp).unique he)
        · rintro (⟨_, _, hxd'⟩ | ⟨_, hp⟩)
          · exact absurd hxd' hxd
          · exact hp
  · have hnone := wf.sources x node' hnode' hu'
    have hxd : x ≠ d := by
      rintro rfl
      rw [hd, Option.some.injEq] at hnode'
      subst hnode'
      rcases hu' with hu' | hu' | hu' <;> rcases hu with hu | hu <;>
        rw [show node.usage = _ from hu'] at hu <;> cases hu
    simp [hxd, hnone]

end led

end NetLower.Graph
