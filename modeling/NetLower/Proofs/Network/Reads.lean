/-
What the running program reads.  Stages run in the order of the table, so a tensor that
some stage writes is written before it is read.  Whether every tensor that is read has a
writer is decided by the network alone: nothing on the way to the blob asks for one.
-/
import NetLower.Proofs.Blob.Areas
import NetLower.Proofs.Network.Constants
import NetLower.Proofs.Pass.Gaps
import NetLower.Proofs.Stations

namespace NetLower

open NetLower.Graph

/-! ## Names and numbers -/

namespace Network

variable {n : Network} {config : Config} {g g' : Graph} {name : String} {d : DataId}

theorem tensor_of_dataId (h : n.dataId name = .ok d) :
    ∃ t, n.tensor name = .ok t ∧ n.tensors[d.index]? = some t ∧ t.name = name := by
  unfold dataId at h
  split at h
  next index hindex =>
    cases h
    obtain ⟨hlt, hname, hfirst⟩ := List.findIdx?_eq_some_iff_getElem.1 hindex
    refine ⟨n.tensors[index], ?_, List.getElem?_eq_getElem hlt, by simpa using hname⟩
    have hfind : (n.tensors.find? fun t => t.name == name) = some n.tensors[index] :=
      List.find?_eq_some_iff_getElem.2 ⟨hname, index, hlt, rfl, fun j hj => by simpa using hfirst j hj⟩
    rw [tensor, hfind]
  · cases h

theorem dataId_of_tensor {t : TensorInfo} (h : n.tensor name = .ok t) : ∃ d, n.dataId name = .ok d := by
  obtain ⟨hname, i, hlt, ht, hfirst⟩ := List.find?_eq_some_iff_getElem.1 (tensor_eq_ok h)
  have hindex : (n.tensors.findIdx? fun t => t.name == name) = some i :=
    List.findIdx?_eq_some_iff_getElem.2 ⟨hlt, ht ▸ hname, fun j hj => by simpa using hfirst j hj⟩
  exact ⟨⟨i⟩, by rw [dataId, hindex]⟩

theorem dataId_injective {name' : String} (h : n.dataId name = .ok d) (h' : n.dataId name' = .ok d) :
    name = name' := by
  obtain ⟨t, _, ht, rfl⟩ := tensor_of_dataId h
  obtain ⟨t', _, ht', rfl⟩ := tensor_of_dataId h'
  rw [ht, Option.some.injEq] at ht'
  rw [ht']

end Network

/-! ## The graph of a network -/

theorem Graph.Grown.attached {g g' : Graph} {kind : EdgeKind} {d : DataId} (h : Grown g g') :
    g'.Attached kind d ↔ g.Attached kind d := by
  obtain ⟨hstages, hedges⟩ := h.tables
  simp only [Attached, Joins, stage?, target?, edge?, hstages, hedges]

/-- The constants of a layer, and the placeholder, do not flow. -/
theorem Layer.Consts.still {l : Layer} {g g' : Graph} {consts : List DataId} {d : DataId}
    (h : l.Consts g consts g') (hd : d ∈ consts) : ∃ node, g'.data? d = some node ∧ ¬ node.Flows := by
  have copied {g g' : Graph} {source t : DataId} {suffix : String} {desc : Desc}
      (h : g.duplicate source suffix desc = .ok (t, g')) : ∃ node, g'.data? t = some node ∧ ¬ node.Flows := by
    obtain ⟨_, _, _, _, _, _, _, rfl, rfl⟩ := duplicate_eq_ok.1 h
    exact ⟨_, data?_pushData_self _, not_flows_const rfl⟩
  cases h with
  | without => cases hd
  | @weighted suffix desc channels weights biases g₁ _ _ hweights hbiases =>
    rcases List.mem_cons.1 hd with rfl | hd
    · obtain ⟨_, _, _, _, hcopy⟩ := addWeights_eq_ok hweights
      obtain ⟨node, hnode, hstill⟩ := copied hcopy
      exact ⟨node, (addBiases_grown hbiases).data? hnode, hstill⟩
    · rw [List.mem_singleton] at hd
      subst hd
      rcases addBiases_eq_ok hbiases with ⟨_, hplace⟩ | ⟨_, _, _, _, _, _, hcopy⟩
      · have fake {node : Data} (hrole : node.role = .fake) : ¬ node.Flows := by
          simp [Data.Flows, Data.usage, hrole, Role.usage]
        rcases addPlaceholder_eq_ok hplace with ⟨hd, rfl⟩ | ⟨_, _, _, rfl, rfl⟩
        · obtain ⟨node, hnode, hrole⟩ := data_of_placeholder? hd
          exact ⟨node, hnode, fake hrole⟩
        · exact ⟨_, data?_pushData_self _, fake rfl⟩
      · exact copied hcopy

namespace Network

variable {n : Network} {config : Config} {g g' : Graph} {layers : List Layer}

/-- The graph of some layers: tensors have their uses, and stages are attached to what their layers
name, and to things that do not flow. -/
structure Wired (n : Network) (layers : List Layer) (g : Graph) : Prop where
  wellFormed : g.WellFormed
  stands : ∀ i t, n.tensors[i]? = some t → ∃ node, g.data? ⟨i⟩ = some node ∧ node.usage = t.role.usage
  written : ∀ d, g.Attached .output d ↔ ∃ l ∈ layers, ∃ name ∈ l.outputs, n.dataId name = .ok d
  read : ∀ d, (∃ l ∈ layers, ∃ name ∈ l.inputs, n.dataId name = .ok d) → g.Attached .input d
  only : ∀ d, g.Attached .input d → (∃ l ∈ layers, ∃ name ∈ l.inputs, n.dataId name = .ok d) ∨
    ∃ node, g.data? d = some node ∧ ¬ node.Flows

theorem Wired.step {l : Layer} {inputs outputs : List DataId} (w : n.Wired layers g)
    (hinputs : l.inputs.mapM n.dataId = .ok inputs) (houtputs : l.outputs.mapM n.dataId = .ok outputs)
    (h : l.addTo config g inputs outputs = .ok g') : n.Wired (layers ++ [l]) g' := by
  obtain ⟨input, output, template, consts, g₁, z, _, _, rfl, rfl, hconsts, hadd, _⟩ := Layer.addTo_eq_ok h
  have wf₁ := hconsts.grown.wellFormed w.wellFormed
  have uses := hadd.sameLooks.sameUses
  have named {names : List String} {id d : DataId} (hnames : names.mapM n.dataId = .ok [id]) :
      d = id ↔ ∃ name ∈ names, n.dataId name = .ok d := by
    obtain ⟨name, rest, hname, hrest, rfl⟩ := List.forall₂_cons_right_iff.1 (Outcome.mapM_eq_ok.1 hnames)
    rw [List.forall₂_nil_right_iff] at hrest
    subst hrest
    simp [hname, eq_comm]
  have more (names : Layer → List String) (d : DataId) :
      (∃ l' ∈ layers ++ [l], ∃ name ∈ names l', n.dataId name = .ok d) ↔
        (∃ l' ∈ layers, ∃ name ∈ names l', n.dataId name = .ok d) ∨ ∃ name ∈ names l, n.dataId name = .ok d := by
    simp only [List.mem_append, List.mem_singleton, or_and_right, exists_or, exists_eq_left]
  have still {d : DataId} {node : Data} (hnode : g₁.data? d = some node) (hstill : ¬ node.Flows) :
      ∃ node', g'.data? d = some node' ∧ ¬ node'.Flows := by
    obtain ⟨node', hnode', husage'⟩ := uses.data_of hnode
    exact ⟨node', hnode', by rwa [Data.Flows, husage']⟩
  have attached (kind : EdgeKind) (d : DataId) :
      g'.Attached kind d ↔ g.Attached kind d ∨ d ∈ slotsOf (input :: consts) [output] kind := by
    rw [hadd.attached wf₁, hconsts.grown.attached]
  refine ⟨wf₁.added hadd (by simp), fun i t ht => ?_, fun d => ?_, fun d hd => ?_, fun d hd => ?_⟩
  · obtain ⟨node, hnode, husage⟩ := w.stands i t ht
    obtain ⟨node', hnode', husage'⟩ := uses.data_of (hconsts.grown.data? hnode)
    exact ⟨node', hnode', husage'.trans husage⟩
  · rw [attached, w.written, more Layer.outputs, slotsOf, List.mem_singleton, named houtputs]
  · rw [more Layer.inputs, ← named hinputs] at hd
    rw [attached]
    rcases hd with hname | rfl
    · exact .inl (w.read d hname)
    · exact .inr List.mem_cons_self
  · rw [more Layer.inputs, ← named hinputs]
    rcases (attached .input d).1 hd with hold | hnew
    · rcases w.only d hold with hname | ⟨node, hnode, hstill⟩
      · exact .inl (.inl hname)
      · exact .inr (still (hconsts.grown.data? hnode) hstill)
    · rcases List.mem_cons.1 hnew with rfl | hconst
      · exact .inl (.inr rfl)
      · obtain ⟨node, hnode, hstill⟩ := hconsts.still hconst
        exact .inr (still hnode hstill)

/-- The graph of a network is wired as its layers say. -/
theorem graph_wired (h : n.graph config = .ok g) : n.Wired n.layers g := by
  simp only [Network.graph, Outcome.bind_eq_ok] at h
  obtain ⟨_, _, g₁, htensors, hlayers⟩ := h
  obtain ⟨hstand, hempty⟩ := tensors_stand htensors
  have bare (kind : EdgeKind) (d : DataId) : ¬ g₁.Attached kind d := by
    rintro ⟨e, id, s, hs, _⟩
    simp [stage?, hempty] at hs
  have start : n.Wired [] g₁ := by
    refine ⟨?_, fun i t ht => ?_, fun d => by simp [bare], by simp,
      fun d hd => absurd hd (bare .input d)⟩
    · exact Outcome.foldlM_keeps (fun _ g => g.WellFormed)
        (fun _ _ _ _ wf h => (TensorInfo.addTo_grown h).wellFormed wf) (wellFormed_empty n.name) htensors
    · obtain ⟨node, hnode, desc, _, rfl⟩ := forall₂_getElem? hstand ht
      exact ⟨_, by simpa [data?] using hnode, rfl⟩
  have done := Outcome.foldlM_keeps (fun rest x => ∃ layers, n.layers = layers ++ rest ∧ n.Wired layers x)
    (by
      rintro l rest x x' ⟨layers, hsplit, w⟩ h
      simp only [Outcome.bind_eq_ok] at h
      obtain ⟨inputs, hinputs, outputs, houtputs, h⟩ := h
      exact ⟨layers ++ [l], by simp [hsplit], w.step hinputs houtputs h⟩)
    ⟨[], rfl, start⟩ hlayers
  obtain ⟨layers, hlayers, w⟩ := done
  rw [List.append_nil] at hlayers
  exact hlayers ▸ w

end Network

/-! ## The running order -/

namespace Graph

variable {g : Graph} {order : List StageId} {d : DataId}

/-- Going through the stages in an order, whatever flows is written before it is read. -/
def ReadsDefined (g : Graph) (order : List StageId) : Prop :=
  ∀ (j : Nat) id d node, order[j]? = some id → g.Touches .input id d → g.data? d = some node → node.Flows →
    ∃ (i : Nat) (writer : StageId), i < j ∧ order[i]? = some writer ∧ g.Touches .output writer d

/-- A tensor lies in the area of outputs, and one of the stages writes it. -/
def Delivers (g : Graph) (order : List StageId) (d : DataId) : Prop :=
  (∃ node l, g.data? d = some node ∧ node.location = some l ∧ l.area = .output) ∧
    ∃ id ∈ order, g.Touches .output id d

theorem mem_of_touches {kind : EdgeKind} {id : StageId} (horder : g.runOrder = .ok order)
    (h : g.Touches kind id d) : id ∈ order := by
  obtain ⟨s, hs, _⟩ := h
  exact (runOrder_perm horder).mem_iff.2 (mem_liveIds.2 ⟨s, hs⟩)

theorem attached_iff_mem {kind : EdgeKind} (horder : g.runOrder = .ok order) :
    g.Attached kind d ↔ ∃ id ∈ order, g.Touches kind id d := by
  rw [attached_iff_touches]
  exact exists_congr fun id => ⟨fun h => ⟨mem_of_touches horder h, h⟩, And.right⟩

/-- In running order, only a gap is read before it is written. -/
theorem WellFormed.readsDefined_iff (wf : g.WellFormed) (horder : g.runOrder = .ok order) :
    g.ReadsDefined order ↔
      ∀ d node, g.data? d = some node → node.Flows → g.Attached .input d → g.Attached .output d := by
  constructor
  · intro h d node hnode hflows hread
    obtain ⟨id, hid, ht⟩ := (attached_iff_mem horder).1 hread
    obtain ⟨j, hj⟩ := List.getElem?_of_mem hid
    obtain ⟨i, writer, _, _, hw⟩ := h j id d node hj ht hnode hflows
    exact attached_iff_touches.2 ⟨writer, hw⟩
  · intro h j id d node hj ht hnode hflows
    obtain ⟨writer, hmem, hw⟩ := (attached_iff_mem horder).1
      (h d node hnode hflows (attached_iff_touches.2 ⟨id, ht⟩))
    have hlt := wf.runOrder_lt horder ⟨d, hw, ht⟩
    have hnodup : order.Nodup := (runOrder_perm horder).nodup_iff.2 nodup_liveIds
    obtain ⟨hlen, rfl⟩ := List.getElem?_eq_some_iff.1 hj
    rw [hnodup.idxOf_getElem] at hlt
    exact ⟨order.idxOf writer, writer, hlt, List.getElem?_idxOf hmem, hw⟩

/-- What the passes make of a graph with an order: the gaps are the same, and whoever needs a place
has one. -/
theorem lower_eq_ok {config : Config} {lowered : Graph} (f : g.Fits Site.Fresh) (wf : g.WellFormed)
    (h : g.lower config = .ok lowered) : lowered.WellFormed ∧ SameGaps g lowered ∧
      ∀ d node area, lowered.data? d = some node → node.neededArea? = some area →
        ∃ l, node.location = some l ∧ l.area = area := by
  obtain ⟨st⟩ := stations_of_lower h
  obtain ⟨_, hbatch⟩ := st.batch
  obtain ⟨_, hscale⟩ := st.scale
  obtain ⟨_, hstubs⟩ := st.stubs
  obtain ⟨_, horders⟩ := st.orders
  obtain ⟨_, hstrides⟩ := st.strides
  obtain ⟨_, hlayout⟩ := st.layout
  obtain ⟨_, hmemory⟩ := st.memory
  refine ⟨(st.lowered_orderly wf).wellFormed, ?_, fun d node area hnode hneeded => ?_⟩
  · have same₂ := (SameGaps.adjustBatch (st.orderly wf) (st.early f) hbatch).trans
      (.scalePropagation (st.batched_orderly wf) hscale)
    have same₄ := (same₂.trans (.replaceStubs hstubs)).trans (.dataOrder (st.real_orderly wf) horders)
    have same₆ := (same₄.trans (.strides (st.ordered_orderly wf) hstrides)).trans
      (.finalizeLayoutPass (st.spaced_orderly wf) hlayout)
    exact same₆.trans (.allocateMemory hmemory)
  · obtain ⟨l, hl, harea, _⟩ := placed_of_needed hmemory hnode hneeded
    exact ⟨l, hl, harea⟩

end Graph

/-! ## What the network decides -/

/-- A tensor that its network computes. -/
def TensorInfo.Flows (t : TensorInfo) : Prop := t.kind = .intermediate ∨ t.kind = .output

namespace Network

variable {n : Network} {config : Config} {g lowered : Graph} {order : List StageId} {name : String} {d : DataId}

/-- A layer writes the tensor of a name. -/
def Writes (n : Network) (name : String) : Prop := ∃ l ∈ n.layers, name ∈ l.outputs

/-- Every tensor that a layer reads and that has to be computed is written by a layer. -/
def ReadsWritten (n : Network) : Prop :=
  ∀ l ∈ n.layers, ∀ name ∈ l.inputs, ∀ t, n.tensor name = .ok t → t.Flows → n.Writes name

theorem usage_role (t : TensorInfo) : t.role.usage = .output ↔ t.kind = .output := by
  unfold TensorInfo.role
  cases t.kind <;> simp [Role.usage]

theorem flows_role (t : TensorInfo) : (t.role.usage = .intermediate ∨ t.role.usage = .output) ↔ t.Flows := by
  unfold TensorInfo.role TensorInfo.Flows
  cases t.kind <;> simp [Role.usage]

theorem Wired.writes_iff (w : n.Wired n.layers g) (hd : n.dataId name = .ok d) :
    g.Attached .output d ↔ n.Writes name := by
  rw [w.written]
  constructor
  · intro h
    obtain ⟨l, hl, name', hname', hd'⟩ := h
    exact ⟨l, hl, dataId_injective hd hd' ▸ hname'⟩
  · intro h
    obtain ⟨l, hl, hname⟩ := h
    exact ⟨l, hl, name, hname, hd⟩

/-- There is a tensor for every output of a network. -/
theorem tensor_of_output (hg : n.graph config = .ok g) (hname : name ∈ n.outputs) :
    ∃ t, n.tensor name = .ok t := by
  simp only [Network.graph, validate, validateNames, Outcome.bind_eq_ok] at hg
  obtain ⟨_, ⟨_, _, _, _, _, hnames, _⟩, _⟩ := hg
  exact Outcome.check_eq_ok.1 (Outcome.forEach_eq_ok.1 hnames name (List.mem_append_right _ hname))

/-- The gaps of a network are the gaps of its graph. -/
theorem Wired.readsWritten_iff (w : n.Wired n.layers g) (same : SameGaps g lowered) :
    n.ReadsWritten ↔ ∀ d node, lowered.data? d = some node → node.Flows → lowered.Attached .input d →
      lowered.Attached .output d := by
  constructor
  · intro h d node hnode hflows hread
    cases hold : g.data? d with
    | none => exact same.new d node hold hnode hflows
    | some old =>
      obtain ⟨node', hnode', husage⟩ := same.kept d old hold
      rw [hnode, Option.some.injEq] at hnode'
      subst hnode'
      have hflows' : old.Flows := by rwa [Data.Flows, ← husage]
      by_contra hgap
      rw [same.written d old hold] at hgap
      rcases w.only d ((same.read d old hold hflows' hgap).1 hread) with ⟨l, hl, name, hname, hd⟩ | ⟨x, hx, hstill⟩
      · obtain ⟨t, ht, hindex, _⟩ := tensor_of_dataId hd
        obtain ⟨x, hx, hrole⟩ := w.stands d.index t hindex
        rw [show g.data? ⟨d.index⟩ = some old from hold, Option.some.injEq] at hx
        subst hx
        have htflows : t.Flows := by rwa [← flows_role, ← hrole]
        exact hgap ((w.writes_iff hd).2 (h l hl name hname t ht htflows))
      · rw [hold, Option.some.injEq] at hx
        exact hstill (hx ▸ hflows')
  · intro h l hl name hname t ht hflows
    obtain ⟨d, hd⟩ := dataId_of_tensor ht
    obtain ⟨t', ht', hindex, _⟩ := tensor_of_dataId hd
    rw [ht, Except.ok.injEq] at ht'
    subst ht'
    obtain ⟨old, hold, hrole⟩ := w.stands d.index t hindex
    have hflows' : old.Flows := by rwa [Data.Flows, hrole, flows_role]
    rw [← w.writes_iff hd]
    by_contra hgap
    obtain ⟨node, hnode, husage⟩ := same.kept d old hold
    have hread := (same.read d old hold hflows' hgap).2 (w.read d ⟨l, hl, name, hname, hd⟩)
    exact hgap ((same.written d old hold).1 (h d node hnode (by rwa [Data.Flows, husage]) hread))

/-- An output of the network is delivered exactly if it is declared as one and some layer writes it. -/
theorem Wired.delivers_iff {t : TensorInfo} (w : n.Wired n.layers g) (same : SameGaps g lowered)
    (wf : lowered.WellFormed) (horder : lowered.runOrder = .ok order)
    (hplaced : ∀ d node area, lowered.data? d = some node → node.neededArea? = some area →
      ∃ l, node.location = some l ∧ l.area = area)
    (ht : n.tensor name = .ok t) (hd : n.dataId name = .ok d) :
    lowered.Delivers order d ↔ t.kind = .output ∧ n.Writes name := by
  obtain ⟨t', ht', hindex, _⟩ := tensor_of_dataId hd
  rw [ht, Except.ok.injEq] at ht'
  subst ht'
  obtain ⟨old, hold, hrole⟩ := w.stands d.index t hindex
  obtain ⟨node, hnode, husage⟩ := same.kept d old hold
  rw [Delivers, ← attached_iff_mem horder, same.written d old hold, w.writes_iff hd]
  refine and_congr_left fun hwrites => ?_
  have hwritten : lowered.Attached .output d := (same.written d old hold).2 ((w.writes_iff hd).2 hwrites)
  obtain ⟨id, htouches⟩ := attached_iff_touches.1 hwritten
  have hlinked : node.isLinked = true := wf.isLinked htouches hnode
  -- A tensor that is written flows, so it has a place, and the area tells which use it has.
  have hneeded : node.neededArea? = some (if node.usage = .output then .output else .bss) := by
    rw [neededArea?_eq_some]
    rcases wf.flows_of_attached hwritten hnode with hu | hu
    · simp [hu, hlinked, Usage.area?]
    · simp [hu, Usage.area?]
  obtain ⟨l, hl, harea⟩ := hplaced d node _ hnode hneeded
  rw [← usage_role, ← hrole, ← husage]
  constructor
  · intro h
    obtain ⟨node', l', hnode', hl', harea'⟩ := h
    rw [hnode, Option.some.injEq] at hnode'
    subst hnode'
    rw [hl, Option.some.injEq] at hl'
    subst hl'
    by_contra hother
    rw [if_neg hother, harea'] at harea
    cases harea
  · intro h
    rw [if_pos h] at harea
    exact ⟨node, l, hnode, hl, harea⟩

/-- The running program reads what it has not written only if the network does: going through the
table of the blob, whatever flows is written before it is read exactly if every tensor that a layer
reads and that has to be computed is written by a layer; and an output of the network lies in the
area of outputs and is written exactly if it is declared as an output and a layer writes it. -/
theorem reads_defined_iff_written {n : Network} {config : Config} {b : Blob} (h : n.compile config = .ok b) :
    ∃ g lowered order records, n.graph config = .ok g ∧ g.lower config = .ok lowered ∧ lowered.blob = .ok b ∧
      lowered.runOrder = .ok order ∧ b.stages = .ok records ∧ List.Forall₂ lowered.Describes order records ∧
      (lowered.ReadsDefined order ↔ n.ReadsWritten) ∧
      ∀ name ∈ n.outputs, ∃ d t, n.dataId name = .ok d ∧ n.tensor name = .ok t ∧
        (lowered.Delivers order d ↔ t.kind = .output ∧ n.Writes name) := by
  simp only [compile, Outcome.bind_eq_ok] at h
  obtain ⟨g, hg, lowered, hlowered, hb⟩ := h
  obtain ⟨order, records, horder, hstages, hrecords⟩ := stages_of_blob hb
  obtain ⟨wf, same, hplaced⟩ := lower_eq_ok (graph_fresh hg) (graph_wellFormed hg) hlowered
  have w := graph_wired hg
  refine ⟨g, lowered, order, records, hg, hlowered, hb, horder, hstages, hrecords, ?_, fun name hname => ?_⟩
  · rw [wf.readsDefined_iff horder, w.readsWritten_iff same]
  · obtain ⟨t, ht⟩ := tensor_of_output hg hname
    obtain ⟨d, hd⟩ := dataId_of_tensor ht
    exact ⟨d, t, hd, ht, w.delivers_iff same wf horder hplaced ht hd⟩

/-- Powers from tensor to tensor, one for each layer that is given. -/
def powers (layers : List (String × String × String)) : Network :=
  { name := "powers", version := 7
    tensors :=
      [{ name := "given", shape := [1], kind := .input },
        { name := "between", shape := [1], kind := .intermediate },
        { name := "result", shape := [1], kind := .output }]
    layers := layers.map fun (name, input, output) =>
      { name, type := "Power", inputs := [input], outputs := [output] }
    inputs := ["given"], outputs := ["result"] }

/-- A tensor of the powers behind the passes. -/
def powerData (name : String) (role : Role) (area : MemoryArea) (producer : Option EdgeId)
    (consumers : List EdgeId) : Data :=
  { name, role, producer, consumers, req := .compact, strides := some [2], location := some ⟨area, 0⟩
    desc := half }

def powerStage (name : String) (input output : EdgeId) : Stage :=
  { name, kind := .power, origin := some name, inputs := [input], outputs := [output]
    attrs := ⟨[⟨.scale, .float .one, rfl⟩, ⟨.power, .float .one, rfl⟩, ⟨.bias, .float .zero, rfl⟩]⟩ }

/-- A power of a power. -/
def chain : Network := powers [("first", "given", "between"), ("second", "between", "result")]

def chainLowered : Graph :=
  { name := "powers"
    datas := #[powerData "given" .input .input none [⟨0⟩], powerData "between" .intermediate .bss (some ⟨1⟩) [⟨2⟩],
      powerData "result" .output .output (some ⟨3⟩) []]
    stages := #[some (powerStage "first" ⟨0⟩ ⟨1⟩), some (powerStage "second" ⟨2⟩ ⟨3⟩)]
    edges := #[⟨.input, ⟨0⟩, ⟨0⟩, 0⟩, ⟨.output, ⟨1⟩, ⟨0⟩, 0⟩, ⟨.input, ⟨1⟩, ⟨1⟩, 0⟩, ⟨.output, ⟨2⟩, ⟨1⟩, 0⟩] }

/-- A power of what nothing writes. -/
def unfed : Network := powers [("second", "between", "result")]

def unfedLowered : Graph :=
  { name := "powers"
    datas := #[powerData "given" .input .input none [], powerData "between" .intermediate .bss none [⟨0⟩],
      powerData "result" .output .output (some ⟨1⟩) []]
    stages := #[some (powerStage "second" ⟨0⟩ ⟨1⟩)]
    edges := #[⟨.input, ⟨1⟩, ⟨0⟩, 0⟩, ⟨.output, ⟨2⟩, ⟨0⟩, 0⟩] }

theorem compile_of_lowered {b : Blob} (hlowered : (do (← n.graph config).lower config) = .ok lowered)
    (hb : lowered.blob = .ok b) : n.compile config = .ok b := by
  rw [Outcome.bind_eq_ok] at hlowered
  obtain ⟨g, hg, hlowered⟩ := hlowered
  exact Outcome.bind_eq_ok.2 ⟨g, hg, Outcome.bind_eq_ok.2 ⟨lowered, hlowered, hb⟩⟩

/-- In the power of a power every read is defined, and the result is delivered. -/
theorem chain_reads_defined :
    ∃ b, chain.compile { hwOptimization := false } = .ok b ∧
      ∃ g lowered order records, chain.graph { hwOptimization := false } = .ok g ∧
        g.lower { hwOptimization := false } = .ok lowered ∧ lowered.blob = .ok b ∧ lowered.runOrder = .ok order ∧
        b.stages = .ok records ∧ List.Forall₂ lowered.Describes order records ∧ lowered.ReadsDefined order ∧
        ∃ d, chain.dataId "result" = .ok d ∧ lowered.Delivers order d := by
  have hlowered : (do (← chain.graph { hwOptimization := false }).lower { hwOptimization := false }) =
      .ok chainLowered := by decide +kernel
  have horder : chainLowered.runOrder = .ok [⟨0⟩, ⟨1⟩] := by decide +kernel
  have hwritten : chainLowered.blob.isOk := by
    rw [blob, horder]
    decide +kernel
  cases hb : chainLowered.blob with
  | error e => simp [hb, Except.isOk, Except.toBool] at hwritten
  | ok b =>
    have hcompiled := compile_of_lowered hlowered hb
    obtain ⟨g, lowered, order, records, hg, hlow, hblob, horder', hstages, hrecords, hreads, houtputs⟩ :=
      reads_defined_iff_written hcompiled
    have hfed : chain.ReadsWritten := by
      intro l hl name hname t ht hflows
      simp only [chain, powers, List.map_cons, List.map_nil, List.mem_cons, List.not_mem_nil, or_false] at hl
      rcases hl with rfl | rfl
      · rw [List.mem_singleton] at hname
        subst hname
        cases ht
        simp [TensorInfo.Flows] at hflows
      · rw [List.mem_singleton] at hname
        subst hname
        exact ⟨_, List.mem_cons_self, List.mem_cons_self⟩
    obtain ⟨d, t, hd, ht, hdelivers⟩ := houtputs "result" List.mem_cons_self
    cases ht
    refine ⟨b, hcompiled, g, lowered, order, records, hg, hlow, hblob, horder', hstages, hrecords, hreads.2 hfed,
      d, hd, hdelivers.2 ⟨rfl, ?_⟩⟩
    exact ⟨_, List.mem_cons_of_mem _ List.mem_cons_self, List.mem_cons_self⟩

/-- The power of what nothing writes is compiled, and its one stage reads it all the same. -/
theorem unfed_reads_undefined :
    ∃ b order, unfed.compile { hwOptimization := false } = .ok b ∧
      (do (← unfed.graph { hwOptimization := false }).lower { hwOptimization := false }) = .ok unfedLowered ∧
      unfedLowered.blob = .ok b ∧ unfedLowered.runOrder = .ok order ∧ ¬ unfedLowered.ReadsDefined order := by
  have hlowered : (do (← unfed.graph { hwOptimization := false }).lower { hwOptimization := false }) =
      .ok unfedLowered := by decide +kernel
  have horder : unfedLowered.runOrder = .ok [⟨0⟩] := by decide +kernel
  have hwritten : unfedLowered.blob.isOk := by
    rw [blob, horder]
    decide +kernel
  cases hb : unfedLowered.blob with
  | error e => simp [hb, Except.isOk, Except.toBool] at hwritten
  | ok b =>
    refine ⟨b, _, compile_of_lowered hlowered hb, hlowered, rfl, horder, fun h => ?_⟩
    -- Nothing comes before the first stage.
    obtain ⟨i, _, hi, _⟩ := h 0 ⟨0⟩ ⟨1⟩ _ rfl ⟨_, rfl, ⟨0⟩, List.mem_cons_self, rfl⟩ rfl (.inl rfl)
    exact Nat.not_lt_zero i hi

end Network

end NetLower
