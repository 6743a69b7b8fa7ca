/-
A graph in one store that is written to in place.  Beside the graph the store keeps a table of
names and a note of the placeholder.  A program on the store that fails leaves behind what it
has written until then, so it matters in which order an edit looks things up and writes.
-/
import NetLower.Proofs.Graph.ScaledConst

namespace NetLower.Graph

/-- A graph that is changed in place. -/
structure Store extends Graph where
  /-- The youngest tensor that was added under a name. -/
  names : Std.HashMap String DataId := ∅
  /-- The placeholder for absent tensors, once there is one. -/
  placeholder : Option DataId := none

/-- Programs on a store. What such a program has written stays when it fails. -/
abbrev InPlace := EStateM Error Store

namespace InPlace

/-! ## Steps -/

/-- Look something up in the graph. -/
def ask (f : Graph → Outcome α) : InPlace α := do
  match f (← get).toGraph with
  | .ok a => return a
  | .error e => throw e

/-- Write to the graph. -/
def change (f : Graph → Graph) : InPlace Unit := modify fun s => { s with toGraph := f s.toGraph }

/-- Write to a tensor that has to be there. -/
def changeData (id : DataId) (f : Data → Data) : InPlace Unit := do
  let _ ← ask (·.data id)
  change (·.modifyData id f)

/-- Enter a tensor under its name and put it behind the others. -/
def push (d : Data) : InPlace DataId := do
  let id : DataId := ⟨(← get).datas.size⟩
  modify fun s => { s with names := s.names.insert d.name id }
  change fun g => { g with datas := g.datas.push d }
  return id

def pushEdge (e : Edge) : InPlace EdgeId := do
  let id : EdgeId := ⟨(← get).edges.size⟩
  change fun g => { g with edges := g.edges.push e }
  return id

/-- The tensor with a new edge at it. -/
def attach : EdgeKind → EdgeId → Data → Data
  | .input, edge, d => { d with consumers := d.consumers ++ [edge] }
  | .output, edge, d => { d with producer := some edge }

/-- The tensor without an edge. -/
def detach : EdgeKind → EdgeId → Data → Data
  | .input, edge, d => { d with consumers := d.consumers.filter (· ≠ edge) }
  | .output, _, d => { d with producer := none }

/-- Link a tensor with a slot of a stage. -/
def connect (kind : EdgeKind) (stage : StageId) (link : DataId × Nat) : InPlace EdgeId := do
  let edge ← pushEdge { kind, data := link.1, stage, slot := link.2 }
  changeData link.1 (attach kind edge)
  return edge

/-- Take an edge off its tensor. -/
def disconnect (kind : EdgeKind) (edge : EdgeId) : InPlace Unit := do
  let e ← ask (·.edge edge)
  changeData e.data (detach kind edge)

/-- Take an edge off one tensor and to another. -/
def lead (kind : EdgeKind) (edge : EdgeId) (source target : DataId) : InPlace Unit := do
  changeData source (detach kind edge)
  changeData target (attach kind edge)
  change (·.pointEdge edge target)

/-- Take a stage out of its place. The place is emptied before it is seen whether there was a stage. -/
def takeStage (id : StageId) : InPlace Stage := do
  let found := (← get).stage? id
  change fun g => { g with stages := g.stages.setIfInBounds id.index none }
  match found with
  | some s => return s
  | none => throw (.graph (.noStage id))

/-! ## Edits -/

def addData (name : String) (desc : Desc) (usage : Usage) : InPlace DataId :=
  match usage with
  | .input => push { name, desc, role := .input }
  | .output => push { name, desc, role := .output }
  | .intermediate => push { name, desc, role := .intermediate }
  | .const | .fake => throw (.graph (.needsConstructor usage))

def addConst (name : String) (desc : Desc) (content : Array F32) : InPlace DataId := do
  let needed ← ask fun _ => desc.total
  if content.size < needed then throw (.shape (.constTooShort name content.size needed))
  else push { name, desc, role := .const content }

def addPlaceholder : InPlace DataId := do
  match (← get).placeholder with
  | some id => return id
  | none =>
    let desc ← ask fun _ => Desc.new .f16 [1]
    let id ← push { name := placeholderName, desc, role := .fake }
    modify fun s => { s with placeholder := some id }
    return id

def duplicate (source : DataId) (suffix : String) (desc : Desc) : InPlace DataId := do
  let d ← ask (·.data source)
  match d.content? with
  | none => throw (.graph (.notDuplicable d.name d.usage))
  | some content =>
    let needed ← ask fun _ => desc.total
    if content.size < needed then throw (.shape (.duplicateTooShort d.name content.size needed))
    else push { name := d.name ++ suffix, desc, role := .const content }

def scaledConst (source : DataId) (factor : F32) : InPlace DataId := do
  let d ← ask (·.data source)
  match d.content? with
  | none => throw (.graph (.notConst d.name))
  | some content =>
    let name := scaledName d.name factor
    match (← get).names[name]? with
    | some existing =>
      let e ← ask (·.data existing)
      if e.usage = .const ∧ e.desc = d.desc then return existing
      else throw (.graph (.otherLayout name))
    | none => addConst name d.desc (content.map (· * factor))

/-- Put a stage behind the others and link it. -/
def linkStage (template : StageTemplate) (inputs outputs : List DataId) : InPlace StageId := do
  let id : StageId := ⟨(← get).stages.size⟩
  let reads ← inputs.zipIdx.mapM (connect .input id)
  let writes ← outputs.zipIdx.mapM (connect .output id)
  change fun g => { g with stages := g.stages.push (some { template with inputs := reads, outputs := writes }) }
  return id

def addStage (template : StageTemplate) (inputs outputs : List DataId) : InPlace StageId := do
  ask fun g => Outcome.forEach (inputs ++ outputs) fun id => Outcome.check (g.data id)
  ask fun g => Outcome.forEach outputs g.checkWritable
  linkStage template inputs outputs

def replaceStage (id : StageId) (kind : StageKind) : InPlace Unit := do
  let _ ← ask (·.stage id)
  change (·.modifyStage id fun s => { s with kind })

def removeStage (id : StageId) : InPlace Unit := do
  let s ← takeStage id
  s.inputs.forM (disconnect .input)
  s.outputs.forM (disconnect .output)

def replaceInput (edge : EdgeId) (data : DataId) : InPlace Unit := do
  let _ ← ask (·.data data)
  let e ← ask (·.edge edge)
  if e.kind ≠ .input then throw (.graph (.edgeNotInput edge))
  else lead .input edge e.data data

def replaceOutput (edge : EdgeId) (data : DataId) : InPlace Unit := do
  let target ← ask (·.data data)
  if target.producer.isSome then throw (.graph (.hasProducer target.name))
  else
    let e ← ask (·.edge edge)
    if e.kind ≠ .output then throw (.graph (.edgeNotOutput edge))
    else lead .output edge e.data data

end InPlace

namespace Edit

/-- Make the edit on a store. -/
def perform : Edit → InPlace Unit
  | addData name desc usage => discard (InPlace.addData name desc usage)
  | addConst name desc content => discard (InPlace.addConst name desc content)
  | addPlaceholder => discard InPlace.addPlaceholder
  | duplicate source suffix desc => discard (InPlace.duplicate source suffix desc)
  | scaledConst source factor => discard (InPlace.scaledConst source factor)
  | addStage template inputs outputs => discard (InPlace.addStage template inputs outputs)
  | replaceStage id kind => InPlace.replaceStage id kind
  | removeStage id => InPlace.removeStage id
  | replaceInput edge data => InPlace.replaceInput edge data
  | replaceOutput edge data => InPlace.replaceOutput edge data

end Edit

/-! ## Changes of tensors -/

/-- Changes of tensors leave the rest of the graph alone. -/
theorem foldl_modifyData (id : α → DataId) (f : α → Data → Data) : ∀ (links : List α) (g : Graph),
    links.foldl (fun g x => g.modifyData (id x) (f x)) g =
      { g with datas := links.foldl (fun datas x => datas.modify (id x).index (f x)) g.datas }
  | [], _ => rfl
  | x :: links, g => foldl_modifyData id f links (g.modifyData (id x) (f x))

theorem known_modifyData {g : Graph} {x d : DataId} {f : Data → Data} (h : ∃ node, g.data? x = some node) :
    ∃ node, (g.modifyData d f).data? x = some node := by
  obtain ⟨node, hnode⟩ := h
  rw [data?_modifyData, hnode]
  split
  · exact ⟨f node, rfl⟩
  · exact ⟨node, rfl⟩

theorem known_foldl {x : DataId} (id : α → DataId) (f : α → Data → Data) : ∀ (links : List α) (g : Graph),
    (∃ node, g.data? x = some node) →
    ∃ node, (links.foldl (fun g y => g.modifyData (id y) (f y)) g).data? x = some node
  | [], _, h => h
  | _ :: links, _, h => known_foldl id f links _ (known_modifyData h)

theorem mapM_link {g : Graph} {edges : List EdgeId} {datas : List DataId}
    (h : List.Forall₂ (fun e d => g.target? e = some d) edges datas) :
    (edges.mapM fun e => do return (e, (← g.edge e).data)) = .ok (edges.zip datas) := by
  rw [Outcome.mapM_eq_ok]
  induction h with
  | nil => exact .nil
  | cons htarget _ ih =>
    obtain ⟨r, hr, rfl⟩ := Option.map_eq_some_iff.1 htarget
    exact .cons (Outcome.bind_eq_ok.2 ⟨r, edge_eq_ok.2 hr, rfl⟩) ih

namespace InPlace

variable {s : Store}

/-! ## What the steps do -/

theorem get_bind {k : Store → InPlace α} : (get >>= k : InPlace α) s = k s s := rfl

theorem ask_bind {f : Graph → Outcome α} {k : α → InPlace β} :
    (ask f >>= k) s = match f s.toGraph with
      | .ok a => k a s
      | .error e => .error e s := by
  rw [ask, bind_assoc, get_bind]
  cases f s.toGraph <;> rfl

theorem ask_bind_of_ok {f : Graph → Outcome α} {k : α → InPlace β} {a : α} (h : f s.toGraph = .ok a) :
    (ask f >>= k) s = k a s := by rw [ask_bind, h]

theorem bind_of_ok {x : InPlace α} {k : α → InPlace β} {a : α} {s' : Store} (h : x s = .ok a s') :
    (x >>= k) s = k a s' := by simp only [bind, EStateM.bind, h]

theorem bind_of_error {x : InPlace α} {k : α → InPlace β} {e : Error} {s' : Store} (h : x s = .error e s') :
    (x >>= k) s = .error e s' := by simp only [bind, EStateM.bind, h]

theorem push_run (d : Data) : push d s =
    .ok (s.toGraph.pushData d).1 { s with
      toGraph := (s.toGraph.pushData d).2, names := s.names.insert d.name (s.toGraph.pushData d).1 } := rfl

theorem changeData_run {id : DataId} {f : Data → Data} {node : Data} (h : s.data? id = some node) :
    changeData id f s = .ok () { s with toGraph := s.toGraph.modifyData id f } := ask_bind_of_ok (data_eq_ok.2 h)

theorem lead_run {kind : EdgeKind} {edge : EdgeId} {source target : DataId} {old : Data}
    (hsource : s.data? source = some old) (htarget : ∃ node, s.data? target = some node) :
    lead kind edge source target s = .ok () { s with
      toGraph := ((s.toGraph.modifyData source (detach kind edge)).modifyData target (attach kind edge)).pointEdge
        edge target } := by
  obtain ⟨node, hnode⟩ := known_modifyData htarget
  exact (bind_of_ok (changeData_run hsource)).trans (bind_of_ok (changeData_run hnode))

/-- Linking tensors with the slots from `slot` on numbers the edges from `first + slot` on. -/
theorem connect_run (kind : EdgeKind) (stage : StageId) (first : Nat) :
    ∀ (datas : List DataId) (slot : Nat) (s : Store),
    s.edges.size = first + slot → (∀ d ∈ datas, ∃ node, s.data? d = some node) →
    let links := (datas.zipIdx slot).map fun x => ((⟨first + x.2⟩ : EdgeId), (⟨kind, x.1, stage, x.2⟩ : Edge))
    (datas.zipIdx slot).mapM (connect kind stage) s = .ok (links.map Prod.fst) { s with
      datas := links.foldl (fun datas x => datas.modify x.2.data.index (attach kind x.1)) s.datas
      edges := s.edges ++ (links.map Prod.snd).toArray }
  | [], _, s, _, _ => by simp [pure, EStateM.pure]
  | d :: datas, slot, s, hsize, hknown => by
    -- `first` stays; with every slot the store has an edge more.
    obtain ⟨node, hnode⟩ := hknown d List.mem_cons_self
    let linked : Store := { s with edges := s.edges.push ⟨kind, d, stage, slot⟩ }
    let known : Store := { linked with toGraph := linked.toGraph.modifyData d (attach kind ⟨first + slot⟩) }
    have hstep : connect kind stage (d, slot) s = .ok ⟨first + slot⟩ known := by
      have hrun : connect kind stage (d, slot) s = .ok ⟨s.edges.size⟩
          { linked with toGraph := linked.toGraph.modifyData d (attach kind ⟨s.edges.size⟩) } :=
        bind_of_ok (changeData_run (s := linked) hnode)
      rwa [hsize] at hrun
    have hrest := connect_run kind stage first datas (slot + 1) known
      (by simp [known, linked, modifyData, hsize, Nat.add_assoc])
      fun x hx => known_modifyData (hknown x (List.mem_cons_of_mem d hx))
    rw [List.zipIdx_cons, List.mapM_cons, bind_of_ok hstep, bind_of_ok hrest]
    simp [known, linked, modifyData, pure, EStateM.pure]

/-- A stage is linked as an edit of the graph alone links it, slot by slot or all at once. -/
theorem linkStage_run {template : StageTemplate} {inputs outputs : List DataId} {z : StageId} {g' : Graph}
    (h : s.toGraph.addStage template inputs outputs = .ok (z, g')) :
    linkStage template inputs outputs s = .ok z { s with toGraph := g' } ∧
      g'.edges = s.edges ++ ((slotEdges .input z s.edges.size inputs ++
        slotEdges .output z (s.edges.size + inputs.length) outputs).map Prod.snd).toArray := by
  have hknown := (addStage_added h).known
  simp only [Graph.addStage, Outcome.bind_eq_ok, Outcome.pure_eq_ok, Prod.mk.injEq] at h
  obtain ⟨_, -, _, -, rfl, rfl⟩ := h
  let z : StageId := ⟨s.stages.size⟩
  let reads := slotEdges .input z s.edges.size inputs
  let writes := slotEdges .output z (s.edges.size + inputs.length) outputs
  let mid : Store := { s with
    datas := reads.foldl (fun datas x => datas.modify x.2.data.index (attach .input x.1)) s.datas
    edges := s.edges ++ (reads.map Prod.snd).toArray }
  let stage : Stage := { template with inputs := reads.map Prod.fst, outputs := writes.map Prod.fst }
  have hreads : inputs.zipIdx.mapM (connect .input z) s = .ok (reads.map Prod.fst) mid :=
    connect_run .input z s.edges.size inputs 0 s rfl fun d hd => hknown d (List.mem_append_left outputs hd)
  have hmid : mid.toGraph = reads.foldl (fun g x => g.modifyData x.2.data (attach .input x.1))
      { s.toGraph with edges := s.edges ++ (reads.map Prod.snd).toArray } := by rw [foldl_modifyData]
  have hwrites : outputs.zipIdx.mapM (connect .output z) mid = .ok (writes.map Prod.fst) { mid with
      datas := writes.foldl (fun datas x => datas.modify x.2.data.index (attach .output x.1)) mid.datas
      edges := mid.edges ++ (writes.map Prod.snd).toArray } := by
    refine connect_run .output z (s.edges.size + inputs.length) outputs 0 mid (by simp [mid, reads, slotEdges])
      fun d hd => ?_
    rw [hmid]
    exact known_foldl _ _ reads _ (hknown d (List.mem_append_right inputs hd))
  have hfold : writes.foldl (fun g x => g.modifyData x.2.data (attach .output x.1))
      (reads.foldl (fun g x => g.modifyData x.2.data (attach .input x.1))
        { s.toGraph with
          stages := s.stages.push (some stage), edges := s.edges ++ ((reads ++ writes).map Prod.snd).toArray }) =
      { mid.toGraph with
        datas := writes.foldl (fun datas x => datas.modify x.2.data.index (attach .output x.1)) mid.datas
        stages := s.stages.push (some stage), edges := mid.edges ++ (writes.map Prod.snd).toArray } := by
    rw [foldl_modifyData, foldl_modifyData]
    simp [mid]
  -- In place, each edge is put in and noted before the next, and the stage comes last; the edit of the
  -- graph alone puts in the stage and all edges first. Either way tensors change in the same order, and
  -- nothing else depends on the order.
  refine ⟨?_, (congrArg Graph.edges hfold).trans (by simp [mid, reads, writes, z])⟩
  refine (bind_of_ok hreads).trans ((bind_of_ok hwrites).trans ?_)
  exact congrArg (fun g => EStateM.Result.ok z { s with toGraph := g }) hfold.symm

/-- Taking edges off their tensors. -/
theorem disconnect_run (kind : EdgeKind) : ∀ {edges : List EdgeId} {datas : List DataId} {s : Store},
    List.Forall₂ (fun e d => s.target? e = some d ∧ ∃ node, s.data? d = some node) edges datas →
    edges.forM (disconnect kind) s = .ok () { s with
      toGraph := (edges.zip datas).foldl (fun g x => g.modifyData x.2 (detach kind x.1)) s.toGraph }
  | [], _, s, .nil => rfl
  | e :: edges, d :: datas, s, .cons ⟨htarget, node, hnode⟩ h => by
    obtain ⟨r, hr, rfl⟩ := Option.map_eq_some_iff.1 htarget
    let after : Store := { s with toGraph := s.toGraph.modifyData r.data (detach kind e) }
    have hstep : disconnect kind e s = .ok () after :=
      (ask_bind_of_ok (edge_eq_ok.2 hr)).trans (changeData_run hnode)
    have hrest : List.Forall₂ (fun e d => after.target? e = some d ∧ ∃ node, after.data? d = some node)
        edges datas :=
      h.imp fun _ _ hlink => ⟨hlink.1, known_modifyData hlink.2⟩
    exact (bind_of_ok hstep).trans (disconnect_run kind hrest)

/-- The place of a stage that is not there is empty as it is. -/
theorem takeStage_none {id : StageId} (h : s.stage? id = none) :
    takeStage id s = .error (.graph (.noStage id)) s := by
  have hsame : s.stages.setIfInBounds id.index none = s.stages := by
    refine Array.ext_getElem? fun i => ?_
    rw [Array.getElem?_setIfInBounds]
    split
    next heq =>
      subst heq
      cases hi : s.stages[id.index]? with
      | none => rw [if_neg (by simpa using hi)]
      | some place =>
        rw [stage?, hi, Option.join_some] at h
        rw [if_pos (Array.getElem?_eq_some_iff.1 hi).1, h]
    · rfl
  have hstays : ({ s with stages := s.stages.setIfInBounds id.index none } : Store) = s := by rw [hsame]
  rw [takeStage, get_bind, h]
  exact congrArg (EStateM.Result.error _) hstays

/-- A stage is taken out as an edit of the graph alone takes it out. -/
theorem removeStage_run {id : StageId} {stage : Stage} {reads writes : List DataId} (h : s.stage? id = some stage)
    (hreads : List.Forall₂ (fun e d => s.target? e = some d ∧ ∃ node, s.data? d = some node) stage.inputs reads)
    (hwrites : List.Forall₂ (fun e d => s.target? e = some d ∧ ∃ node, s.data? d = some node) stage.outputs
      writes) :
    ∃ g', s.toGraph.removeStage id = .ok g' ∧ removeStage id s = .ok () { s with toGraph := g' } := by
  let hole : Store := { s with stages := s.stages.setIfInBounds id.index none }
  let mid : Store := { hole with
    toGraph := (stage.inputs.zip reads).foldl (fun g x => g.modifyData x.2 (detach .input x.1)) hole.toGraph }
  have htake : takeStage id s = .ok stage hole := by
    rw [takeStage, get_bind, h]
    rfl
  have hinputs : stage.inputs.forM (disconnect .input) hole = .ok () mid := disconnect_run .input hreads
  have hmid : mid.edges = s.edges := by
    change ((stage.inputs.zip reads).foldl (fun g x => g.modifyData x.2 (detach .input x.1))
      hole.toGraph).edges = _
    rw [foldl_modifyData]
  have houtputs := disconnect_run .output (s := mid) (hwrites.imp fun e d hlink => by
    refine ⟨?_, known_foldl _ _ _ _ hlink.2⟩
    rw [target?, edge?, hmid]
    exact hlink.1)
  have hlinks : (stage.inputs.mapM fun e => do return (e, (← s.toGraph.edge e).data)) =
      .ok (stage.inputs.zip reads) :=
    mapM_link (hreads.imp fun _ _ hlink => hlink.1)
  have hdatas : (stage.outputs.mapM fun e => do return (← s.toGraph.edge e).data) = .ok writes :=
    Outcome.mapM_eq_ok.2 (hwrites.imp fun _ _ hlink => edgeData_eq_ok.2 hlink.1)
  refine ⟨_, Outcome.bind_eq_ok.2 ⟨stage, stage_eq_ok.2 h, Outcome.bind_eq_ok.2 ⟨_, hlinks, Outcome.bind_eq_ok.2
    ⟨_, hdatas, rfl⟩⟩⟩, (bind_of_ok htake).trans ((bind_of_ok hinputs).trans (houtputs.trans ?_))⟩
  have hfold : writes.foldl (fun g d => g.setProducer d none) mid.toGraph =
      (stage.outputs.zip writes).foldl (fun g x => g.modifyData x.2 (detach .output x.1)) mid.toGraph := by
    conv_lhs => rw [← List.map_snd_zip hwrites.length_eq.ge, List.foldl_map]
    rfl
  exact congrArg (fun g => EStateM.Result.ok () { s with toGraph := g }) hfold.symm

end InPlace

end NetLower.Graph
