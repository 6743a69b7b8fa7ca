/-
Constants by name.  A layer looks for its weights and biases under their names, among all
constants that the graph has by then.  Copies of constants have names too, so that what a
layer finds depends on the copies that the layers before it have made.
-/
import Mathlib.Data.List.Induction
import NetLower.Proofs.Network.Fresh

namespace NetLower

open NetLower.Graph

/-! ## The constants of a graph -/

/-- The name and the values of a constant. -/
def Data.const? (d : Data) : Option (String × Array F32) := d.content?.map (d.name, ·)

namespace Graph

variable {g g' : Graph} {name : String} {d : DataId} {node : Data} {values : Array F32}

/-- The constants of a graph, the youngest first. -/
def consts (g : Graph) : List (String × Array F32) := (g.datas.toList.filterMap Data.const?).reverse

theorem consts_pushData (g : Graph) (node : Data) :
    (g.pushData node).2.consts = node.const?.toList ++ g.consts := by
  simp only [consts, pushData, Array.toList_push, List.filterMap_append, List.reverse_append,
    List.append_cancel_right_eq]
  cases hconst : node.const? <;> simp [hconst]

/-- The constants of a graph are told from what its tensors show. -/
theorem consts_congr (h : ∀ d, (g'.data? d).map Data.const? = (g.data? d).map Data.const?) :
    g'.consts = g.consts := by
  have hshown : g'.datas.toList.map Data.const? = g.datas.toList.map Data.const? := by
    refine List.ext_getElem? fun k => ?_
    simp only [List.getElem?_map, Array.getElem?_toList]
    exact h ⟨k⟩
  have hall (x : Graph) : x.consts = ((x.datas.toList.map Data.const?).filterMap fun c => c).reverse := by
    rw [consts, List.filterMap_map]
    rfl
  rw [hall g', hall g, hshown]

theorem Added.consts_eq {template : StageTemplate} {inputs outputs : List DataId} {z : StageId}
    (h : Added g template inputs outputs z g') : g'.consts = g.consts := by
  refine consts_congr fun d => ?_
  rw [h.data?, Option.map_map]
  rfl

theorem InputLed.consts_eq {e : EdgeId} {r : Edge} (h : InputLed g e r d g') : g'.consts = g.consts := by
  refine consts_congr fun x => ?_
  rw [h.data?, Option.map_map]
  rfl

/-- Where no tensor has a name, no constant has it. -/
theorem lookup_consts_of_none (h : g.dataNamed? name = none) : g.consts.lookup name = none := by
  have hnames : ∀ node ∈ g.datas.toList, node.name ≠ name := by
    intro node hnode
    obtain ⟨k, hk⟩ := List.mem_iff_getElem?.1 hnode
    have hmem : (node, k) ∈ g.datas.toList.zipIdx.reverse := by
      rw [List.mem_reverse, List.mem_zipIdx_iff_getElem?]
      exact hk
    have hother := List.find?_eq_none.1 (Option.map_eq_none_iff.1 h) (node, k) hmem
    simpa using hother
  refine List.lookup_eq_none_iff.2 fun c hc => ?_
  rw [consts, List.mem_reverse, List.mem_filterMap] at hc
  obtain ⟨node, hnode, hconst⟩ := hc
  obtain ⟨_, _, rfl⟩ := Option.map_eq_some_iff.1 hconst
  exact bne_iff_ne.2 (Ne.symm (hnames node hnode))

/-- A constant that is found by its name is the youngest one with the name. -/
theorem lookup_consts (hd : g.dataNamed? name = some d) (hnode : g.data? d = some node)
    (hvalues : node.content? = some values) : node.name = name ∧ g.consts.lookup name = some values := by
  obtain ⟨⟨found, index⟩, hfind, rfl⟩ := Option.map_eq_some_iff.1 hd
  have hmem := List.mem_of_find?_eq_some hfind
  rw [List.mem_reverse, List.mem_zipIdx_iff_getElem?] at hmem
  obtain rfl : found = node := by
    rw [Graph.data?, ← Array.getElem?_toList, hmem, Option.some.injEq] at hnode
    exact hnode
  have hname : found.name = name := by simpa using List.find?_some hfind
  refine ⟨hname, ?_⟩
  have hfound : (g.datas.toList.reverse.find? fun x => x.name == name) = some found :=
    calc (g.datas.toList.reverse.find? fun x => x.name == name)
      _ = (g.datas.toList.zipIdx.reverse.map Prod.fst).find? fun x => x.name == name := by
        rw [List.map_reverse, List.zipIdx_map_fst]
      _ = some found := List.find?_map.trans (congrArg (Option.map Prod.fst) hfind)
  rw [consts, ← List.filterMap_reverse]
  generalize g.datas.toList.reverse = nodes at hfound
  induction nodes with
  | nil => cases hfound
  | cons x nodes ih =>
    by_cases hx : x.name = name
    · rw [List.find?_cons_of_pos (by simpa using hx), Option.some.injEq] at hfound
      rw [List.filterMap_cons_some
        (show x.const? = some (name, values) by rw [hfound, Data.const?, hvalues, hname]; rfl),
        List.lookup_cons_self]
    · rw [List.find?_cons_of_neg (by simpa using hx)] at hfound
      cases hconst : x.const? with
      | none => rw [List.filterMap_cons_none hconst, ih hfound]
      | some c =>
        obtain ⟨_, _, rfl⟩ := Option.map_eq_some_iff.1 hconst
        have hother : (name == x.name) = false := beq_false_of_ne (Ne.symm hx)
        simp only [List.filterMap_cons_some hconst, List.lookup_cons, hother, ih hfound]

end Graph

/-! ## Copies -/

/-- The values of a constant. -/
def TensorInfo.values (t : TensorInfo) : Array F32 := (t.data.getD []).toArray

/-- The name and the values of a constant. -/
def TensorInfo.const? (t : TensorInfo) : Option (String × Array F32) := t.role.content?.map (t.name, ·)

/-- The constants that a layer asks for, and what their copies are called by. -/
def Layer.requests (l : Layer) : List (String × String) :=
  match l.suffix? with
  | some suffix => (l.weights.toList ++ l.biases.toList).map (·, suffix)
  | none => []

namespace Network

/-- The constants of a network, the last first. -/
def consts (n : Network) : List (String × Array F32) := (n.tensors.filterMap TensorInfo.const?).reverse

/-- The copies that requests lead to, the youngest first. A copy has the values of the youngest
constant with the name, be it a copy itself. -/
def copies (n : Network) (requests : List (String × String)) : List (String × Array F32) :=
  requests.foldl (fun copies (name, suffix) =>
    match (copies ++ n.consts).lookup name with
    | some values => (name ++ suffix, values) :: copies
    | none => copies) []

/-- The values that a name leads to when requests were met. -/
def found? (n : Network) (requests : List (String × String)) (name : String) : Option (Array F32) :=
  (n.copies requests ++ n.consts).lookup name

/-- Under the name of a tensor there are other values, in a copy. -/
def Hidden (n : Network) (requests : List (String × String)) (t : TensorInfo) : Prop :=
  ∃ values, (n.copies requests).lookup t.name = some values ∧ values ≠ t.values

/-- The constants of a graph are copies that requests lead to, and behind them those of the network. -/
def Holds (n : Network) (requests : List (String × String)) (g : Graph) : Prop :=
  g.consts = n.copies requests ++ n.consts

variable {n : Network} {config : Config} {g g' : Graph} {requests : List (String × String)}

theorem copies_append (name suffix : String) : n.copies (requests ++ [(name, suffix)]) =
    match n.found? requests name with
    | some values => (name ++ suffix, values) :: n.copies requests
    | none => n.copies requests := by
  rw [copies, List.foldl_append, List.foldl_cons, List.foldl_nil]
  rfl

/-- A copy of a constant that was found by its name. -/
theorem Holds.duplicate {name suffix : String} {source d : DataId} {desc : Desc} (h : n.Holds requests g)
    (hsource : g.dataNamed? name = some source) (hcopy : g.duplicate source suffix desc = .ok (d, g')) :
    n.Holds (requests ++ [(name, suffix)]) g' ∧ ∃ values node, n.found? requests name = some values ∧
      g'.data? d = some node ∧ node.role = .const values := by
  obtain ⟨node, values, _, hnode, hvalues, _, _, rfl, rfl⟩ := duplicate_eq_ok.1 hcopy
  obtain ⟨rfl, hlookup⟩ := lookup_consts hsource hnode hvalues
  rw [h] at hlookup
  refine ⟨?_, values, _, hlookup, data?_pushData_self _, rfl⟩
  rw [Holds, consts_pushData, copies_append, show n.found? requests node.name = some values from hlookup, h]
  rfl

theorem holds_of_stand (h : List.Forall₂ TensorInfo.Stands n.tensors g.datas.toList) : n.Holds [] g := by
  show (g.datas.toList.filterMap Data.const?).reverse = (n.tensors.filterMap TensorInfo.const?).reverse
  generalize g.datas.toList = nodes, n.tensors = tensors at h
  induction h with
  | nil => rfl
  | cons hstands _ ih =>
    obtain ⟨desc, _, rfl⟩ := hstands
    rw [List.filterMap_cons, List.filterMap_cons, List.reverse_inj.1 ih]
    rfl

/-! ## Tensors and their names -/

theorem validateTensors_eq_ok : ∀ {seen : List String} {tensors : List TensorInfo},
    validateTensors seen tensors = .ok () → (∀ t ∈ tensors, t.name ∉ seen) ∧ (tensors.map TensorInfo.name).Nodup
  | _, [], _ => ⟨nofun, .nil⟩
  | seen, t :: rest, h => by
    simp only [validateTensors, Outcome.check_bind_eq_ok, Outcome.require_eq_ok] at h
    obtain ⟨hseen, _, hrest⟩ := h
    obtain ⟨hfresh, hnodup⟩ := validateTensors_eq_ok hrest
    refine ⟨List.forall_mem_cons.2 ⟨hseen, fun u hu hmem => hfresh u hu (List.mem_cons_of_mem _ hmem)⟩, ?_⟩
    refine List.nodup_cons.2 ⟨fun hmem => ?_, hnodup⟩
    obtain ⟨u, hu, hname⟩ := List.mem_map.1 hmem
    exact hfresh u hu (hname ▸ List.mem_cons_self)

theorem validateLayers_eq_ok : ∀ {seen : List String} {layers : List Layer},
    n.validateLayers seen layers = .ok () → ∀ l ∈ layers, n.validateConstants l = .ok ()
  | _, [], _ => nofun
  | seen, l :: rest, h => by
    simp only [validateLayers, Outcome.check_bind_eq_ok] at h
    obtain ⟨_, _, hconsts, hrest⟩ := h
    exact List.forall_mem_cons.2 ⟨hconsts, validateLayers_eq_ok hrest⟩

/-- In a sound network the names of tensors differ, and a layer asks for tensors that are constants. -/
theorem validate_eq_ok (h : n.validate = .ok ()) :
    (n.tensors.map TensorInfo.name).Nodup ∧
      ∀ l ∈ n.layers, ∀ name ∈ l.weights.toList ++ l.biases.toList, ∃ t, n.tensor name = .ok t ∧
        t.kind = .weight := by
  simp only [validate, Outcome.check_bind_eq_ok] at h
  obtain ⟨_, htensors, _, hlayers⟩ := h
  refine ⟨(validateTensors_eq_ok htensors).2, fun l hl name hname => ?_⟩
  have hconst := Outcome.forEach_eq_ok.1 (validateLayers_eq_ok hlayers l hl) name hname
  simpa only [Outcome.bind_eq_ok, Outcome.require_eq_ok] using hconst

theorem tensor_eq_ok {name : String} {t : TensorInfo} (h : n.tensor name = .ok t) :
    (n.tensors.find? fun t => t.name == name) = some t := by
  unfold tensor at h
  split at h
  next found hfound => exact hfound.trans (congrArg some (Except.ok.inj h))
  · cases h

/-- Where names differ, a constant is found by its name. -/
theorem lookup_of_tensor {name : String} {t : TensorInfo} (hnodup : (n.tensors.map TensorInfo.name).Nodup)
    (h : n.tensor name = .ok t) (hkind : t.kind = .weight) :
    t.name = name ∧ n.consts.lookup name = some t.values := by
  obtain ⟨hname, front, back, hsplit, _⟩ := List.find?_eq_some_iff_append.1 (tensor_eq_ok h)
  replace hname : t.name = name := by simpa using hname
  have hconst : t.const? = some (name, t.values) := by
    rw [TensorInfo.const?, TensorInfo.role, hkind, hname]
    rfl
  refine ⟨hname, List.lookup_eq_some_iff.2
    ⟨(back.filterMap TensorInfo.const?).reverse, (front.filterMap TensorInfo.const?).reverse, ?_, fun p hp => ?_⟩⟩
  · rw [consts, hsplit, List.filterMap_append, List.filterMap_cons_some hconst]
    simp
  · rw [List.mem_reverse, List.mem_filterMap] at hp
    obtain ⟨u, hu, hconst'⟩ := hp
    obtain ⟨_, _, rfl⟩ := Option.map_eq_some_iff.1 hconst'
    rw [hsplit, List.map_append, List.map_cons] at hnodup
    have hother := (List.nodup_cons.1 hnodup.of_append_right).1
    rw [bne_iff_ne, ← hname]
    exact fun heq => hother (List.mem_map.2 ⟨u, hu, heq.symm⟩)

end Network

/-! ## Graphs that grow -/

namespace Graph

variable {g g' : Graph} {id : StageId} {slot : Nat} {role : Role}

/-- A graph with more in it: stages and edges are as they were, and tensors have their roles. -/
structure Retains (g g' : Graph) : Prop where
  stage : ∀ id s, g.stage? id = some s → g'.stage? id = some s
  edge : ∀ e r, g.edge? e = some r → g'.edge? e = some r
  data : ∀ d node, g.data? d = some node → ∃ node', g'.data? d = some node' ∧ node'.role = node.role

theorem Retains.trans {g₁ : Graph} (h : Retains g g₁) (h' : Retains g₁ g') : Retains g g' := by
  refine ⟨fun id s hs => h'.stage id s (h.stage id s hs), fun e r hr => h'.edge e r (h.edge e r hr),
    fun d node hd => ?_⟩
  obtain ⟨node₁, hd₁, hrole₁⟩ := h.data d node hd
  obtain ⟨node', hd', hrole'⟩ := h'.data d node₁ hd₁
  exact ⟨node', hd', hrole'.trans hrole₁⟩

theorem Grown.tables (h : Grown g g') : g'.stages = g.stages ∧ g'.edges = g.edges := by
  induction h with
  | refl => exact ⟨rfl, rfl⟩
  | push _ _ _ _ _ ih => exact ih

theorem Grown.retains (h : Grown g g') : Retains g g' := by
  obtain ⟨hstages, hedges⟩ := h.tables
  refine ⟨fun id s hs => ?_, fun e r hr => ?_, fun d node hd => ⟨node, h.data? hd, rfl⟩⟩
  · rwa [stage?, hstages]
  · rwa [edge?, hedges]

theorem Added.retains {template : StageTemplate} {inputs outputs : List DataId} {z : StageId}
    (h : Added g template inputs outputs z g') : Retains g g' := by
  refine ⟨fun id s hs => ?_, h.edge?, fun d node hd => ?_⟩
  · have hne : id ≠ z := by
      rintro rfl
      exact absurd (lt_of_stage? hs) (by simp [h.id])
    rw [h.stage?, if_neg hne, hs]
  · rw [h.data?, hd]
    exact ⟨_, rfl, rfl⟩

/-- A stage reads a tensor with a role at a slot. -/
def Reads (g : Graph) (id : StageId) (slot : Nat) (role : Role) : Prop :=
  ∃ d node, g.inputData id slot = .ok d ∧ g.data d = .ok node ∧ node.role = role

theorem Reads.retained (h : g.Reads id slot role) (hg : Retains g g') : g'.Reads id slot role := by
  obtain ⟨d, node, hd, hnode, rfl⟩ := h
  obtain ⟨s, e, hs, he, ht⟩ := inputData_eq_ok.1 hd
  obtain ⟨r, hr, rfl⟩ := Option.map_eq_some_iff.1 ht
  obtain ⟨node', hnode', hrole⟩ := hg.data _ node (data_eq_ok.1 hnode)
  exact ⟨_, node', inputData_eq_ok.2 ⟨s, e, hg.stage _ s hs, he, target?_of_edge? (hg.edge e r hr)⟩,
    data_eq_ok.2 hnode', hrole⟩

/-- A new stage reads what its inputs are. -/
theorem Added.reads {template : StageTemplate} {inputs outputs : List DataId} {z : StageId} {d : DataId}
    {node : Data} (h : Added g template inputs outputs z g') (hd : inputs[slot]? = some d)
    (hnode : g.data? d = some node) : g'.Reads z slot node.role := by
  obtain ⟨node', hnode', hrole⟩ := h.retains.data d node hnode
  obtain ⟨hlt, _⟩ := List.getElem?_eq_some_iff.1 hd
  have hz := h.stage? z
  rw [if_pos rfl] at hz
  exact ⟨d, node', inputData_eq_ok.2 ⟨_, _, hz, getElem?_edgeIds.2 ⟨hlt, rfl⟩,
    target?_of_edge? (h.input slot d hd)⟩,
    data_eq_ok.2 hnode', hrole⟩

theorem data_of_placeholder? {d : DataId} (h : g.placeholder? = some d) :
    ∃ node, g.data? d = some node ∧ node.role = .fake := by
  have hmem := List.mem_of_head? h
  simp only [datasUsed, List.mem_filterMap] at hmem
  obtain ⟨⟨node, index⟩, hnode, hd⟩ := hmem
  split at hd
  next husage =>
    cases hd
    refine ⟨node, by simpa [Graph.data?] using List.mem_zipIdx_iff_getElem?.1 hnode, ?_⟩
    revert husage
    cases hrole : node.role <;> simp [Data.usage, hrole, Role.usage]
  · cases hd

end Graph

/-! ## What layers find -/

/-- What a layer that copies constants reads for weights and biases. -/
structure Network.Supplies (n : Network) (requests : List (String × String)) (l : Layer) (weights biases : Role) :
    Prop where
  weights : ∃ name values, l.weights = some name ∧ n.found? requests name = some values ∧ weights = .const values
  unbiased : l.biases = none → biases = .fake
  biased : ∀ name, l.biases = some name →
    ∃ values, n.found? (requests ++ l.requests.take 1) name = some values ∧ biases = .const values

namespace Layer

variable {n : Network} {requests : List (String × String)} {l : Layer} {g g' : Graph}

theorem biases_supplied {suffix : String} {channels : Nat} {d : DataId} (hg : n.Holds requests g)
    (h : l.addBiases g suffix channels = .ok (d, g')) :
    n.Holds (requests ++ l.biases.toList.map (·, suffix)) g' ∧ ∃ node, g'.data? d = some node ∧
      (l.biases = none → node.role = .fake) ∧
      ∀ name, l.biases = some name → ∃ values, n.found? requests name = some values ∧
        node.role = .const values := by
  rcases addBiases_eq_ok h with ⟨hnone, hplace⟩ | ⟨name, source, desc, hname, hsource, _, hcopy⟩
  · rw [hnone, Option.toList_none, List.map_nil, List.append_nil]
    rcases addPlaceholder_eq_ok hplace with ⟨hd, rfl⟩ | ⟨desc, _, _, rfl, rfl⟩
    · obtain ⟨node, hnode, hrole⟩ := data_of_placeholder? hd
      exact ⟨hg, node, hnode, fun _ => hrole, nofun⟩
    · refine ⟨?_, _, data?_pushData_self _, fun _ => rfl, nofun⟩
      rw [Network.Holds, consts_pushData]
      exact hg
  · obtain ⟨hg', values, node, hvalues, hnode, hrole⟩ := hg.duplicate hsource hcopy
    rw [hname]
    refine ⟨hg', node, hnode, nofun, fun _ h => ?_⟩
    cases h
    exact ⟨values, hvalues, hrole⟩

/-- A layer makes the copies that it asks for, and reads them. -/
theorem Consts.supplied {consts : List DataId} (h : l.Consts g consts g') (hg : n.Holds requests g) :
    n.Holds (requests ++ l.requests) g' ∧ (l.suffix? ≠ none → ∃ weights biases x y, consts = [weights, biases] ∧
      g'.data? weights = some x ∧ g'.data? biases = some y ∧ n.Supplies requests l x.role y.role) := by
  cases h with
  | without hsuffix => exact ⟨by simpa [Layer.requests, hsuffix] using hg, fun h => absurd hsuffix h⟩
  | @weighted suffix desc channels weights biases g₁ _ hsuffix hweights hbiases =>
    obtain ⟨name, source, hname, hsource, hcopy⟩ := addWeights_eq_ok hweights
    obtain ⟨hg₁, values, x, hvalues, hx, hxrole⟩ := hg.duplicate hsource hcopy
    obtain ⟨hg', y, hy, hunbiased, hbiased⟩ := biases_supplied hg₁ hbiases
    have hfirst : l.requests = (name, suffix) :: l.biases.toList.map (·, suffix) := by
      simp [Layer.requests, hsuffix, hname]
    refine ⟨?_, fun _ => ⟨weights, biases, x, y, rfl, (addBiases_grown hbiases).data? hx, hy,
      ⟨name, values, hname, hvalues, hxrole⟩, hunbiased, ?_⟩⟩
    · rw [hfirst, List.append_cons]
      exact hg'
    · rw [hfirst]
      exact hbiased

end Layer

namespace Network

variable {n : Network} {config : Config} {g g' : Graph} {before : List Layer} {l : Layer}

/-- A stage for a layer behind others: it has the number of the layer and reads what the layer
finds. -/
structure Serves (n : Network) (g : Graph) (before : List Layer) (l : Layer) : Prop where
  stage : ∃ s, g.stage? ⟨before.length⟩ = some s ∧ s.origin = some l.name
  reads : l.suffix? ≠ none → ∃ weights biases, n.Supplies (before.flatMap Layer.requests) l weights biases ∧
    g.Reads ⟨before.length⟩ 1 weights ∧ g.Reads ⟨before.length⟩ 2 biases

theorem Serves.retained (h : n.Serves g before l) (hg : Retains g g') : n.Serves g' before l := by
  obtain ⟨s, hs, horigin⟩ := h.stage
  refine ⟨⟨s, hg.stage _ s hs, horigin⟩, fun hsuffix => ?_⟩
  obtain ⟨weights, biases, hsupplies, hw, hb⟩ := h.reads hsuffix
  exact ⟨weights, biases, hsupplies, hw.retained hg, hb.retained hg⟩

/-- The graph behind the layers that are done. -/
structure Built (n : Network) (done : List Layer) (g : Graph) : Prop where
  size : g.stages.size = done.length
  holds : n.Holds (done.flatMap Layer.requests) g
  serves : ∀ before l after, done = before ++ l :: after → n.Serves g before l

/-- The stage that was added last serves its layer. -/
theorem serves_added {consts : List DataId} {input output : DataId} {template : StageTemplate} {g₁ : Graph}
    (hholds : n.Holds (before.flatMap Layer.requests) g) (hconsts : l.Consts g consts g₁)
    (hadded : Added g₁ template (input :: consts) [output] ⟨before.length⟩ g')
    (horigin : template.origin = some l.name) : n.Serves g' before l := by
  refine ⟨⟨_, by rw [hadded.stage?, if_pos rfl], horigin⟩, fun hsuffix => ?_⟩
  obtain ⟨weights, biases, x, y, rfl, hx, hy, hsupplies⟩ := (hconsts.supplied hholds).2 hsuffix
  exact ⟨_, _, hsupplies, hadded.reads rfl hx, hadded.reads rfl hy⟩

theorem Built.addTo {done : List Layer} {inputs outputs : List DataId} (h : n.Built done g)
    (hadd : l.addTo config g inputs outputs = .ok g') : n.Built (done ++ [l]) g' := by
  obtain ⟨input, output, template, consts, g₁, z, _, _, rfl, rfl, hconsts, hadded, makes, _⟩ :=
    Layer.addTo_eq_ok hadd
  have hstages : g₁.stages.size = done.length := by rw [hconsts.grown.tables.1, h.size]
  obtain rfl : z = ⟨done.length⟩ := by rw [hadded.id, hstages]
  refine ⟨by rw [hadded.size, hstages, List.length_append]; rfl, ?_, fun before l' after hsplit => ?_⟩
  · rw [Holds, hadded.consts_eq, List.flatMap_append, List.flatMap_singleton]
    exact (hconsts.supplied h.holds).1
  · rcases List.eq_nil_or_concat after with rfl | ⟨after, last, rfl⟩
    · obtain ⟨rfl, hlast⟩ := List.append_inj' hsplit rfl
      cases hlast
      exact serves_added h.holds hconsts hadded makes.origin
    · rw [List.concat_eq_append, ← List.cons_append, ← List.append_assoc] at hsplit
      obtain ⟨hdone, _⟩ := List.append_inj' hsplit rfl
      exact (h.serves before l' after hdone).retained (hconsts.grown.retains.trans hadded.retains)

theorem graph_built (h : n.graph config = .ok g) : n.Built n.layers g := by
  simp only [Network.graph, Outcome.bind_eq_ok] at h
  obtain ⟨_, _, g₁, htensors, hlayers⟩ := h
  obtain ⟨hstand, hstages⟩ := tensors_stand htensors
  have start : n.Built [] g₁ := ⟨by rw [hstages]; rfl, holds_of_stand hstand, fun before l after h => by simp at h⟩
  obtain ⟨done, hsplit, hbuilt⟩ := Outcome.foldlM_keeps
    (fun rest x => ∃ done, n.layers = done ++ rest ∧ n.Built done x)
    (by
      rintro l rest x x' ⟨done, hsplit, hbuilt⟩ h
      simp only [Outcome.bind_eq_ok] at h
      obtain ⟨_, _, _, _, h⟩ := h
      exact ⟨done ++ [l], by rw [hsplit, List.append_assoc]; rfl, hbuilt.addTo h⟩)
    ⟨[], rfl, start⟩ hlayers
  rwa [hsplit, List.append_nil]

/-- A name leads to the values of its tensor if the tensor is not hidden. -/
theorem eq_values_iff {requests : List (String × String)} {name : String} {t : TensorInfo} {values : Array F32}
    (hnodup : (n.tensors.map TensorInfo.name).Nodup) (ht : n.tensor name = .ok t) (hkind : t.kind = .weight)
    (hfound : n.found? requests name = some values) : values = t.values ↔ ¬ n.Hidden requests t := by
  obtain ⟨rfl, hlookup⟩ := lookup_of_tensor hnodup ht hkind
  rw [found?, List.lookup_append, hlookup] at hfound
  rw [Hidden]
  cases hcopy : (n.copies requests).lookup t.name with
  | none =>
    rw [hcopy, Option.none_or, Option.some.injEq] at hfound
    simp [hfound]
  | some copied =>
    rw [hcopy, Option.some_or, Option.some.injEq] at hfound
    simp [hfound]

/-- Only a copy with the name of a tensor hides it. -/
theorem not_hidden {requests : List (String × String)} {t : TensorInfo}
    (h : ∀ r ∈ requests, r.1 ++ r.2 ≠ t.name) : ¬ n.Hidden requests t := by
  have named : ∀ p ∈ n.copies requests, p.1 ≠ t.name := by
    induction requests using List.reverseRecOn with
    | nil => exact nofun
    | append_singleton requests r ih =>
      rw [List.forall_mem_append, List.forall_mem_singleton] at h
      rw [copies_append]
      cases n.found? requests r.1 with
      | none => exact ih h.1
      | some values => exact List.forall_mem_cons.2 ⟨h.2, ih h.1⟩
  rintro ⟨values, hcopy, _⟩
  obtain ⟨front, back, hsplit, _⟩ := List.lookup_eq_some_iff.1 hcopy
  exact named (t.name, values) (by simp [hsplit]) rfl

end Network

theorem Layer.suffix?_ne_none {l : Layer}
    (h : l.type ∈ ["Convolution", "Deconvolution", "FullyConnected", "InnerProduct"]) : l.suffix? ≠ none := by
  simp only [List.mem_cons, List.not_mem_nil, or_false] at h
  rcases h with h | h | h | h <;> simp [suffix?, h, Operation.ofName?]

namespace Network

variable {n : Network} {config : Config} {g : Graph} {before after : List Layer} {l : Layer}

/-- The stage of a layer with weights reads copies of the tensors that the layer names, unless these
are hidden: where a layer before it has made a copy under the same name, the youngest such copy is
read in place of the tensor. Biases may be hidden by the copy of the layer's own weights as well. -/
theorem reads_tensors_unless_hidden (h : n.graph config = .ok g) (hlayers : n.layers = before ++ l :: after)
    (htype : l.type ∈ ["Convolution", "Deconvolution", "FullyConnected", "InnerProduct"]) :
    ∃ s weights biases, g.stage? ⟨before.length⟩ = some s ∧ s.origin = some l.name ∧
      (g.inputData ⟨before.length⟩ 1 >>= g.data) = .ok weights ∧
      (g.inputData ⟨before.length⟩ 2 >>= g.data) = .ok biases ∧
      (∃ name t, l.weights = some name ∧ n.tensor name = .ok t ∧ weights.usage = .const ∧
        (weights.content? = some t.values ↔ ¬ n.Hidden (before.flatMap Layer.requests) t)) ∧
      (l.biases = none → biases.usage = .fake) ∧
      ∀ name, l.biases = some name → ∃ t, n.tensor name = .ok t ∧ biases.usage = .const ∧
        (biases.content? = some t.values ↔ ¬ n.Hidden (before.flatMap Layer.requests ++ l.requests.take 1) t) := by
  have hserves := (graph_built h).serves before l after hlayers
  obtain ⟨s, hs, horigin⟩ := hserves.stage
  obtain ⟨_, _, hsupplies, ⟨_, weights, hinput, hweights, rfl⟩, ⟨_, biases, hinput', hbiases, rfl⟩⟩ :=
    hserves.reads (Layer.suffix?_ne_none htype)
  have hvalid : n.validate = .ok () := by
    obtain ⟨⟨⟩, hvalid, _⟩ := Outcome.bind_eq_ok.1 h
    exact hvalid
  obtain ⟨hnodup, htensors⟩ := validate_eq_ok hvalid
  have asked {name : String} (hname : l.weights = some name ∨ l.biases = some name) :
      ∃ t, n.tensor name = .ok t ∧ t.kind = .weight :=
    htensors l (by simp [hlayers]) name (by simpa using hname)
  -- A constant that was found under the name of a tensor.
  have const {node : Data} {requests : List (String × String)} {name : String} {t : TensorInfo}
      {values : Array F32} (hrole : node.role = .const values) (hfound : n.found? requests name = some values)
      (ht : n.tensor name = .ok t) (hkind : t.kind = .weight) :
      node.usage = .const ∧ (node.content? = some t.values ↔ ¬ n.Hidden requests t) := by
    rw [Data.usage, Data.content?, hrole]
    exact ⟨rfl, Option.some_inj.trans (eq_values_iff hnodup ht hkind hfound)⟩
  refine ⟨s, weights, biases, hs, horigin, Outcome.bind_eq_ok.2 ⟨_, hinput, hweights⟩,
    Outcome.bind_eq_ok.2 ⟨_, hinput', hbiases⟩, ?_, fun hnone => ?_, fun name hname => ?_⟩
  · obtain ⟨name, values, hname, hfound, hrole⟩ := hsupplies.weights
    obtain ⟨t, ht, hkind⟩ := asked (.inl hname)
    exact ⟨name, t, hname, ht, const hrole hfound ht hkind⟩
  · rw [Data.usage, hsupplies.unbiased hnone]
    rfl
  · obtain ⟨values, hfound, hrole⟩ := hsupplies.biased name hname
    obtain ⟨t, ht, hkind⟩ := asked (.inr hname)
    exact ⟨t, ht, const hrole hfound ht hkind⟩

/-- Two convolutions. The weights of the second have the name that the copy of the first ones gets. -/
def clash : Network :=
  { name := "clash", version := 7
    tensors :=
      [{ name := "image", shape := [1, 1, 1, 1], kind := .input },
        { name := "between", shape := [1, 1, 1, 1], kind := .intermediate },
        { name := "result", shape := [1, 1, 1, 1], kind := .output },
        .weight "kernel" [1, 1, 1, 1] [.one], .weight "kernel@conv" [1, 1, 1, 1] [.zero]]
    layers :=
      [{ name := "first", type := "Convolution", inputs := ["image"], outputs := ["between"]
         weights := some "kernel", attributes := [("kernel", .ints [1, 1])] },
        { name := "second", type := "Convolution", inputs := ["between"], outputs := ["result"]
          weights := some "kernel@conv", attributes := [("kernel", .ints [1, 1])] }]
    inputs := ["image"], outputs := ["result"] }

/-- The second convolution reads the weights of the first. -/
theorem clash_reads_other_weights :
    ∃ g weights t, clash.graph {} = .ok g ∧ (g.inputData ⟨1⟩ 1 >>= g.data) = .ok weights ∧
      (clash.layers[1]?.bind Layer.weights) = some t.name ∧ clash.tensor t.name = .ok t ∧
      weights.content? = some #[.one] ∧ t.values = #[.zero] := by
  have hread : (do
      let g ← clash.graph {}
      let weights ← g.inputData ⟨1⟩ 1 >>= g.data
      return weights.content?) = Except.ok (some #[.one]) := by decide +kernel
  obtain ⟨g, hg, hread⟩ := Outcome.bind_eq_ok.1 hread
  obtain ⟨weights, hweights, hcontent⟩ := Outcome.bind_eq_ok.1 hread
  exact ⟨g, weights, .weight "kernel@conv" [1, 1, 1, 1] [.zero], hg, hweights, rfl, rfl,
    Except.ok.inj hcontent, rfl⟩

/-- Of the two convolutions, the first reads the tensor it names and the second does not. -/
theorem clash_reads_tensors_unless_hidden :
    ∃ g first second, clash.graph {} = .ok g ∧ (g.inputData ⟨0⟩ 1 >>= g.data) = .ok first ∧
      first.content? = some #[.one] ∧ (g.inputData ⟨1⟩ 1 >>= g.data) = .ok second ∧
      second.content? ≠ some #[.zero] := by
  have hbuilt : (clash.graph {}).isOk := by decide +kernel
  cases hg : clash.graph {} with
  | error e => simp [hg, Except.isOk, Except.toBool] at hbuilt
  | ok g =>
    obtain ⟨_, first, _, _, _, hfirst, _, ⟨_, t, hname, ht, _, hiff⟩, _⟩ :=
      @reads_tensors_unless_hidden clash {} g [] _ _ hg rfl (by decide)
    obtain ⟨_, second, _, _, _, hsecond, _, ⟨_, t', hname', ht', _, hiff'⟩, _⟩ :=
      @reads_tensors_unless_hidden clash {} g (clash.layers.take 1) _ _ hg rfl (by decide)
    cases hname
    cases hname'
    cases ht
    cases ht'
    refine ⟨g, first, second, rfl, hfirst, hiff.2 (not_hidden fun _ h => by cases h), hsecond,
      fun h => hiff'.1 h ?_⟩
    exact ⟨#[.one], rfl, by decide⟩

end Network

end NetLower
