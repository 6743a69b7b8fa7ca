/-
A failed edit changes nothing, also in place.  Every edit looks up and checks all it needs
before its first write, with one exception: taking a stage out empties its place first.  But a
place that is found empty was empty before.  That the writes behind the checks cannot fail
rests on an invariant of the store: the edges of a stage are there, and so are the tensors at
the ends of the edges.
-/
import NetLower.Proofs.Graph.Store

namespace NetLower.Graph

variable {g g' : Graph}

/-! ## Names and uses -/

/-- What the tables of a store depend on: the names and the uses of the tensors. -/
def labels (g : Graph) : List (String × Usage) := g.datas.toList.map fun d => (d.name, d.usage)

theorem dataNamed?_eq_labels (g : Graph) (name : String) : g.dataNamed? name =
    (g.labels.zipIdx.reverse.find? fun x => x.1.1 == name).map fun x => ⟨x.2⟩ := by
  simp only [labels, List.zipIdx_map, ← List.map_reverse, List.find?_map, Option.map_map]
  rfl

theorem datasUsed_eq_labels (g : Graph) (usage : Usage) : g.datasUsed usage =
    g.labels.zipIdx.filterMap fun x => if x.1.2 = usage then some ⟨x.2⟩ else none := by
  simp only [labels, List.zipIdx_map, List.filterMap_map]
  rfl

/-- Changes of tensors that keep name and role keep the labels. -/
theorem labels_of_map {f : DataId → Data → Data} (h : ∀ d, g'.data? d = (g.data? d).map (f d))
    (hf : ∀ d node, (f d node).name = node.name ∧ (f d node).role = node.role) : g'.labels = g.labels := by
  refine List.ext_getElem? fun i => ?_
  have hi : g'.datas[i]? = g.datas[i]?.map (f ⟨i⟩) := h ⟨i⟩
  simp only [labels, List.getElem?_map, Array.getElem?_toList, hi, Option.map_map]
  congr 1
  funext node
  simp [Data.usage, hf]

theorem dataNamed?_push (g : Graph) (d : Data) (name : String) : (g.pushData d).2.dataNamed? name =
    if d.name == name then some (g.pushData d).1 else g.dataNamed? name := by
  simp only [dataNamed?, pushData, Array.toList_push, List.zipIdx_append, List.reverse_append,
    List.zipIdx_singleton, List.reverse_singleton, List.singleton_append, List.find?_cons]
  split <;> simp_all

theorem placeholder?_push (g : Graph) (d : Data) : (g.pushData d).2.placeholder? =
    g.placeholder?.or (if d.usage = .fake then some (g.pushData d).1 else none) := by
  simp only [placeholder?, datasUsed, pushData, Array.toList_push, List.zipIdx_append, List.filterMap_append,
    List.head?_append, List.zipIdx_singleton, List.filterMap_cons, List.filterMap_nil]
  split <;> simp_all

/-- The tables of the store are those of its graph. -/
structure Store.Indexed (s : Store) : Prop where
  names : ∀ name, s.names[name]? = s.toGraph.dataNamed? name
  placeholder : s.placeholder = s.toGraph.placeholder?

namespace Store.Indexed

variable {s : Store}

theorem of_labels (h : s.Indexed) (hlabels : g.labels = s.labels) : { s with toGraph := g : Store }.Indexed where
  names name := by
    rw [dataNamed?_eq_labels, hlabels, ← dataNamed?_eq_labels]
    exact h.names name
  placeholder := by
    rw [placeholder?, datasUsed_eq_labels, hlabels, ← datasUsed_eq_labels]
    exact h.placeholder

theorem push (h : s.Indexed) (d : Data) :
    { s with
      toGraph := (s.toGraph.pushData d).2, names := s.names.insert d.name (s.toGraph.pushData d).1
      placeholder := s.placeholder.or
        (if d.usage = .fake then some (s.toGraph.pushData d).1 else none) : Store }.Indexed where
  names name := by
    rw [Std.HashMap.getElem?_insert, dataNamed?_push, h.names]
  placeholder := by rw [placeholder?_push, h.placeholder]

end Store.Indexed

/-! ## Links -/

/-- Edges at the slots of stages are edges of the graph, and tensors at edges are tensors of the
graph. -/
structure Anchored (g : Graph) : Prop where
  slots : ∀ id s kind e, g.stage? id = some s → e ∈ s.slots kind → ∃ r, g.edge? e = some r
  targets : ∀ e r, g.edge? e = some r → ∃ node, g.data? r.data = some node

namespace Anchored

theorem empty (name : String) : ({ name } : Graph).Anchored where
  slots _ _ _ _ h := by simp [stage?] at h
  targets _ _ h := by simp [edge?] at h

theorem pushData (h : g.Anchored) (d : Data) : (g.pushData d).2.Anchored where
  slots := h.slots
  targets e r he := by
    obtain ⟨node, hnode⟩ := h.targets e r he
    exact ⟨node, data?_pushData_old hnode⟩

theorem modifyData (h : g.Anchored) (d : DataId) (f : Data → Data) : (g.modifyData d f).Anchored where
  slots := h.slots
  targets e r he := known_modifyData (h.targets e r he)

theorem modifyStage (h : g.Anchored) (id : StageId) {f : Stage → Stage} (hf : ∀ s, (f s).slots = s.slots) :
    (g.modifyStage id f).Anchored where
  slots x s kind e hs he := by
    rw [stage?_modifyStage] at hs
    split at hs
    · obtain ⟨old, hold, rfl⟩ := Option.map_eq_some_iff.1 hs
      exact h.slots x old kind e hold (hf old ▸ he)
    · exact h.slots x s kind e hs he
  targets := h.targets

theorem known_of_map {f : DataId → Data → Data} (hdata : ∀ d, g'.data? d = (g.data? d).map (f d)) {d : DataId}
    (h : ∃ node, g.data? d = some node) : ∃ node, g'.data? d = some node := by
  obtain ⟨node, hnode⟩ := h
  exact ⟨f d node, by rw [hdata, hnode, Option.map_some]⟩

theorem added (h : g.Anchored) {template : StageTemplate} {inputs outputs : List DataId} {z : StageId}
    (hadded : Added g template inputs outputs z g')
    (hedges : g'.edges = g.edges ++ ((slotEdges .input z g.edges.size inputs ++
      slotEdges .output z (g.edges.size + inputs.length) outputs).map Prod.snd).toArray) : g'.Anchored where
  slots id s kind e hs he := by
    rw [hadded.stage?] at hs
    split at hs
    · cases hs
      cases kind with
      | input =>
        obtain ⟨k, hk, rfl⟩ := mem_edgeIds.1 he
        exact ⟨_, hadded.input k _ (List.getElem?_eq_getElem hk)⟩
      | output =>
        obtain ⟨k, hk, rfl⟩ := mem_edgeIds.1 he
        exact ⟨_, hadded.output k _ (List.getElem?_eq_getElem hk)⟩
    · obtain ⟨r, hr⟩ := h.slots id s kind e hs he
      exact ⟨r, hadded.edge? e r hr⟩
  targets e r he := by
    refine known_of_map hadded.data? ?_
    have hmem := Array.mem_of_getElem? he
    rw [hedges, Array.mem_append] at hmem
    rcases hmem with hold | hnew
    · obtain ⟨i, hi⟩ := Array.getElem?_of_mem hold
      exact h.targets ⟨i⟩ r hi
    · refine hadded.known r.data ?_
      simp only [slotEdges, List.mem_toArray, List.map_append, List.map_map, List.mem_append, List.mem_map,
        Function.comp_apply] at hnew
      rcases hnew with ⟨⟨d, k⟩, hd, rfl⟩ | ⟨⟨d, k⟩, hd, rfl⟩
      · exact List.mem_append_left _ (List.mem_of_getElem? (List.mem_zipIdx_iff_getElem?.1 hd))
      · exact List.mem_append_right _ (List.mem_of_getElem? (List.mem_zipIdx_iff_getElem?.1 hd))

theorem removed (h : g.Anchored) {z : StageId} {s : Stage} (hremoved : Removed g z s g') : g'.Anchored where
  slots id s kind e hs he := by
    rw [hremoved.stage?] at hs
    split at hs
    · cases hs
    · rw [hremoved.edge?]
      exact h.slots id s kind e hs he
  targets e r he := by
    rw [hremoved.edge?] at he
    exact known_of_map hremoved.data? (h.targets e r he)

theorem led (h : g.Anchored) {e : EdgeId} {r : Edge} {d : DataId} {f : DataId → Data → Data}
    (hstage : ∀ id, g'.stage? id = g.stage? id)
    (hedge : ∀ x, g'.edge? x = if x = e then some { r with data := d } else g.edge? x)
    (hdata : ∀ x, g'.data? x = (g.data? x).map (f x)) (hknown : ∃ node, g.data? d = some node) : g'.Anchored where
  slots id s kind x hs hx := by
    obtain ⟨old, hold⟩ := h.slots id s kind x (hstage id ▸ hs) hx
    rw [hedge]
    split
    · exact ⟨_, rfl⟩
    · exact ⟨old, hold⟩
  targets x new hx := by
    refine known_of_map hdata ?_
    rw [hedge] at hx
    split at hx
    · cases hx
      exact hknown
    · exact h.targets x new hx

/-- The tensors at the slots of a stage. -/
theorem exists_targets (h : g.Anchored) {id : StageId} {s : Stage} (hs : g.stage? id = some s) (kind : EdgeKind) :
    ∃ datas, List.Forall₂ (fun e d => g.target? e = some d ∧ ∃ node, g.data? d = some node)
    (s.slots kind) datas := by
  have hall : ∀ e ∈ s.slots kind, ∃ d, g.target? e = some d ∧ ∃ node, g.data? d = some node := by
    intro e he
    obtain ⟨r, hr⟩ := h.slots id s kind e hs he
    exact ⟨r.data, target?_of_edge? hr, h.targets e r hr⟩
  generalize s.slots kind = edges at hall
  induction edges with
  | nil => exact ⟨[], .nil⟩
  | cons e edges ih =>
    obtain ⟨d, hd⟩ := hall e List.mem_cons_self
    obtain ⟨datas, hdatas⟩ := ih fun x hx => hall x (List.mem_cons_of_mem e hx)
    exact ⟨d :: datas, .cons hd hdatas⟩

end Anchored

/-! ## Agreement -/

/-- A program on a store either fails and leaves the store as it is, or goes through and keeps the
invariant. If the tables were right, the outcome is that of the edit on the graph alone, and they
are right afterwards. -/
inductive Store.Agrees (s : Store) : EStateM.Result Error Store α → Outcome (α × Graph) → Prop where
  | done {a : α} {s' : Store} {out : Outcome (α × Graph)} : s'.Anchored →
      (s.Indexed → out = .ok (a, s'.toGraph) ∧ s'.Indexed) → Agrees s (.ok a s') out
  | failed {e : Error} {out : Outcome (α × Graph)} : (s.Indexed → out = .error e) → Agrees s (.error e s) out

namespace Store.Agrees

variable {s : Store}

theorem fail (e : Error) : s.Agrees ((throw e : InPlace α) s) (.error e) := .failed fun _ => rfl

theorem congr {r : EStateM.Result Error Store α} {out out' : Outcome (α × Graph)} (h : s.Indexed → out' = out)
    (hr : s.Agrees r out) : s.Agrees r out' := by
  cases hr with
  | done hanchored hout =>
    exact .done hanchored fun hs => by
      rw [h hs]
      exact hout hs
  | failed hout =>
    exact .failed fun hs => by
      rw [h hs]
      exact hout hs

theorem ask {f : Graph → Outcome β} {k : β → InPlace α} {k' : β → Outcome (α × Graph)}
    (h : ∀ b, f s.toGraph = .ok b → s.Agrees (k b s) (k' b)) :
    s.Agrees ((InPlace.ask f >>= k) s) (f s.toGraph >>= k') := by
  rw [InPlace.ask_bind]
  cases hf : f s.toGraph with
  | error e => exact .failed fun _ => rfl
  | ok b => exact h b hf

theorem discard {x : InPlace α} {out : Outcome (α × Graph)} (h : s.Agrees (x s) out) :
    s.Agrees (Functor.discard x s) (Prod.mk () <$> do return (← out).2) := by
  have hrun : Functor.discard x s = match x s with
      | .ok _ s' => .ok () s'
      | .error e s' => .error e s' := by
    change EStateM.map (Function.const α ()) x s = _
    rw [EStateM.map]
    cases x s <;> rfl
  rw [hrun]
  generalize x s = r at h
  cases h with
  | done hanchored hout =>
    refine .done hanchored fun hs => ?_
    obtain ⟨rfl, hindexed⟩ := hout hs
    exact ⟨rfl, hindexed⟩
  | failed hout =>
    refine .failed fun hs => ?_
    rw [hout hs]
    rfl

/-- The graph has changed, and all its tensors have kept their names and uses. -/
theorem keep {r : EStateM.Result Error Store α} {a : α} (hrun : r = .ok a { s with toGraph := g })
    (hanchored : g.Anchored) (hlabels : g.labels = s.labels) : s.Agrees r (.ok (a, g)) :=
  hrun ▸ .done hanchored fun hs => ⟨rfl, hs.of_labels hlabels⟩

theorem push (h : s.Anchored) {d : Data} (hd : d.usage ≠ .fake) :
    s.Agrees (InPlace.push d s) (.ok (s.toGraph.pushData d)) := by
  rw [InPlace.push_run]
  refine .done (h.pushData d) fun hs => ⟨rfl, ?_⟩
  have hpushed := hs.push d
  rwa [if_neg hd, Option.or_none] at hpushed

theorem addConst (h : s.Anchored) (name : String) (desc : Desc) (content : Array F32) :
    s.Agrees (InPlace.addConst name desc content s) (s.toGraph.addConst name desc content) := by
  refine .ask fun needed _ => ?_
  split
  · exact .fail _
  · exact .push h nofun

theorem addData (h : s.Anchored) (name : String) (desc : Desc) (usage : Usage) :
    s.Agrees (InPlace.addData name desc usage s) (s.toGraph.addData name desc usage) := by
  cases usage with
  | input | output | intermediate => exact .push h nofun
  | const | fake => exact .fail _

theorem addPlaceholder (h : s.Anchored) : s.Agrees (InPlace.addPlaceholder s) s.toGraph.addPlaceholder := by
  rw [InPlace.addPlaceholder, InPlace.get_bind]
  cases hplaceholder : s.placeholder with
  | some id =>
    refine .done h fun hs => ⟨?_, hs⟩
    rw [Graph.addPlaceholder, ← hs.placeholder, hplaceholder]
  | none =>
    refine .congr (fun hs => show s.toGraph.addPlaceholder = (do
        let desc ← Desc.new .f16 [1]
        return s.toGraph.pushData { name := placeholderName, desc, role := .fake }) by
      rw [Graph.addPlaceholder, ← hs.placeholder, hplaceholder]) (.ask fun desc _ => ?_)
    let fake : Data := { name := placeholderName, desc, role := .fake }
    refine .done (h.pushData fake) fun hs => ⟨rfl, ?_⟩
    have husage : fake.usage = .fake := rfl
    have hpushed := hs.push fake
    rwa [hplaceholder, if_pos husage, Option.none_or] at hpushed

theorem duplicate (h : s.Anchored) (source : DataId) (suffix : String) (desc : Desc) :
    s.Agrees (InPlace.duplicate source suffix desc s) (s.toGraph.duplicate source suffix desc) := by
  refine .ask fun d _ => ?_
  cases d.content? with
  | none => exact .fail _
  | some content =>
    refine .ask fun needed _ => ?_
    split
    · exact .fail _
    · exact .push h nofun

theorem scaledConst (h : s.Anchored) (source : DataId) (factor : F32) :
    s.Agrees (InPlace.scaledConst source factor s) (s.toGraph.scaledConst source factor) := by
  refine .ask fun d _ => ?_
  cases d.content? with
  | none => exact .fail _
  | some content =>
    simp only [InPlace.get_bind]
    cases hname : s.names[scaledName d.name factor]? with
    | some existing =>
      refine .congr (fun hs => show _ = (do
          let e ← s.toGraph.data existing
          if e.usage = .const ∧ e.desc = d.desc then .ok (existing, s.toGraph)
          else .error (.graph (.otherLayout (scaledName d.name factor))) : Outcome (DataId × Graph)) by
        rw [← hs.names, hname]) (.ask fun e _ => ?_)
      split
      · exact .done h fun hs => ⟨rfl, hs⟩
      · exact .fail _
    | none =>
      exact .congr (fun hs => by rw [← hs.names, hname]) (.addConst h _ _ _)

theorem addStage (h : s.Anchored) (template : StageTemplate) (inputs outputs : List DataId) :
    s.Agrees (InPlace.addStage template inputs outputs s) (s.toGraph.addStage template inputs outputs) := by
  refine .ask fun _ hknown => .ask fun _ hwritable => ?_
  -- All that can fail is behind.
  have hok : s.toGraph.addStage template inputs outputs = .ok _ :=
    Outcome.bind_eq_ok.2 ⟨_, hknown, Outcome.bind_eq_ok.2 ⟨_, hwritable, rfl⟩⟩
  have hadded := addStage_added hok
  obtain ⟨hrun, hedges⟩ := InPlace.linkStage_run hok
  exact .keep hrun (h.added hadded hedges) (labels_of_map hadded.data? fun _ _ => ⟨rfl, rfl⟩)

theorem replaceStage (h : s.Anchored) (id : StageId) (kind : StageKind) :
    s.Agrees (InPlace.replaceStage id kind s) (Prod.mk () <$> s.toGraph.replaceStage id kind) := by
  rw [Graph.replaceStage, map_bind]
  exact .ask fun _ _ => .keep rfl (h.modifyStage id fun _ => rfl) rfl

theorem removeStage (h : s.Anchored) (id : StageId) :
    s.Agrees (InPlace.removeStage id s) (Prod.mk () <$> s.toGraph.removeStage id) := by
  cases hs : s.stage? id with
  | none =>
    have hpure : s.toGraph.removeStage id = .error (.graph (.noStage id)) := by
      rw [Graph.removeStage, Graph.stage, hs]
      rfl
    have hrun : InPlace.removeStage id s = .error (.graph (.noStage id)) s := by
      rw [InPlace.removeStage, InPlace.bind_of_error (InPlace.takeStage_none hs)]
    rw [hpure, hrun]
    exact .failed fun _ => rfl
  | some stage =>
    obtain ⟨reads, hreads⟩ := h.exists_targets hs .input
    obtain ⟨writes, hwrites⟩ := h.exists_targets hs .output
    obtain ⟨g', hpure, hrun⟩ := InPlace.removeStage_run hs hreads hwrites
    obtain ⟨_, hremoved⟩ := removeStage_removed hpure
    rw [hpure]
    exact .keep hrun (h.removed hremoved) (labels_of_map hremoved.data? fun _ _ => ⟨rfl, rfl⟩)

theorem replaceInput (h : s.Anchored) (edge : EdgeId) (data : DataId) :
    s.Agrees (InPlace.replaceInput edge data s) (Prod.mk () <$> s.toGraph.replaceInput edge data) := by
  simp only [Graph.replaceInput, map_bind]
  refine .ask fun node hnode => .ask fun e he => ?_
  split
  · exact .fail _
  next hkind =>
    have hok : s.toGraph.replaceInput edge data = .ok _ :=
      Outcome.bind_eq_ok.2 ⟨node, hnode, Outcome.bind_eq_ok.2 ⟨e, he, if_neg hkind⟩⟩
    obtain ⟨r, hled⟩ := replaceInput_led hok
    obtain ⟨old, hold⟩ := h.targets edge e (edge_eq_ok.1 he)
    exact .keep (InPlace.lead_run hold hled.known) (h.led hled.stage? hled.edge? hled.data? hled.known)
      (labels_of_map hled.data? fun _ _ => ⟨rfl, rfl⟩)

theorem replaceOutput (h : s.Anchored) (edge : EdgeId) (data : DataId) :
    s.Agrees (InPlace.replaceOutput edge data s) (Prod.mk () <$> s.toGraph.replaceOutput edge data) := by
  rw [Graph.replaceOutput, map_bind]
  refine .ask fun node hnode => ?_
  by_cases hproducer : node.producer.isSome
  · rw [if_pos hproducer, if_pos hproducer]
    exact .fail _
  rw [if_neg hproducer, if_neg hproducer, map_bind]
  refine .ask fun e he => ?_
  split
  · exact .fail _
  next hkind =>
    have hok : s.toGraph.replaceOutput edge data = .ok _ :=
      Outcome.bind_eq_ok.2 ⟨node, hnode, (if_neg hproducer).trans (Outcome.bind_eq_ok.2 ⟨e, he, if_neg hkind⟩)⟩
    obtain ⟨r, hled⟩ := replaceOutput_led hok
    obtain ⟨old, hold⟩ := h.targets edge e (edge_eq_ok.1 he)
    have hknown : ∃ node, s.data? data = some node := ⟨node, data_eq_ok.1 hnode⟩
    exact .keep (InPlace.lead_run hold hknown) (h.led hled.stage? hled.edge? hled.data? hknown)
      (labels_of_map hled.data? fun _ _ => ⟨rfl, rfl⟩)

/-- Each edit in place agrees with the edit of the graph alone. -/
theorem perform (h : s.Anchored) (edit : Edit) :
    s.Agrees (edit.perform s) (Prod.mk () <$> edit.apply s.toGraph) := by
  cases edit with
  | addData name desc usage => exact .discard (.addData h name desc usage)
  | addConst name desc content => exact .discard (.addConst h name desc content)
  | addPlaceholder => exact .discard (.addPlaceholder h)
  | duplicate source suffix desc => exact .discard (.duplicate h source suffix desc)
  | scaledConst source factor => exact .discard (.scaledConst h source factor)
  | addStage template inputs outputs => exact .discard (.addStage h template inputs outputs)
  | replaceStage id kind => exact .replaceStage h id kind
  | removeStage id => exact .removeStage h id
  | replaceInput edge data => exact .replaceInput h edge data
  | replaceOutput edge data => exact .replaceOutput h edge data

end Store.Agrees

/-! ## Stores a caller can reach -/

namespace Store

/-- The store after an edit, as the edit leaves it, whether it went through or failed. -/
def after (s : Store) (edit : Edit) : Store :=
  match edit.perform s with
  | .ok _ s' => s'
  | .error _ s' => s'

/-- The stores a caller can reach: edits are made, some of which may fail, and between them anything
may be written to a tensor, its name included, and to a stage anything but its slots. -/
inductive Reached : Store → Prop where
  | empty (name : String) : Reached { name }
  | edit {s : Store} (edit : Edit) : Reached s → Reached (s.after edit)
  | tensor {s : Store} (id : DataId) (f : Data → Data) : Reached s →
      Reached { s with toGraph := s.toGraph.modifyData id f }
  | stage {s : Store} (id : StageId) {f : Stage → Stage} : Reached s → (∀ stage, (f stage).slots = stage.slots) →
      Reached { s with toGraph := s.toGraph.modifyStage id f }

theorem Reached.anchored {s : Store} (h : s.Reached) : s.Anchored := by
  induction h with
  | empty name => exact .empty name
  | @edit s edit _ ih =>
    have hagrees := Agrees.perform ih edit
    unfold after
    generalize edit.perform s = r at hagrees
    cases hagrees with
    | done hanchored => exact hanchored
    | failed => exact ih
  | tensor id f _ ih => exact ih.modifyData id f
  | stage id _ hf ih => exact ih.modifyStage id hf

variable {s : Store}

/-- While the tables are right, the outcome is that of the edit of the graph alone. -/
theorem perform_of_indexed (h : s.Anchored) (hs : s.Indexed) (edit : Edit) :
    match edit.apply s.toGraph with
      | .ok g' => ∃ s', edit.perform s = .ok () s' ∧ s'.toGraph = g' ∧ s'.Indexed
      | .error e => edit.perform s = .error e s := by
  have hagrees := Agrees.perform h edit
  generalize edit.perform s = r at hagrees ⊢
  cases hagrees with
  | done _ hout =>
    obtain ⟨hout, hindexed⟩ := hout hs
    cases happly : edit.apply s.toGraph with
    | ok g' =>
      rw [happly] at hout
      cases hout
      exact ⟨_, rfl, rfl, hindexed⟩
    | error e =>
      rw [happly] at hout
      cases hout
  | failed hout =>
    cases happly : edit.apply s.toGraph with
    | ok g' =>
      have hok := hout hs
      rw [happly] at hok
      cases hok
    | error e =>
      have herror := hout hs
      rw [happly] at herror
      cases herror
      rfl

theorem after_of_indexed (h : s.Anchored) (hs : s.Indexed) (edit : Edit) :
    (s.after edit).toGraph = s.toGraph.attempt edit ∧ (s.after edit).Indexed := by
  have hperform := perform_of_indexed h hs edit
  unfold after attempt
  cases happly : edit.apply s.toGraph with
  | ok g' =>
    rw [happly] at hperform
    obtain ⟨s', hrun, rfl, hindexed⟩ := hperform
    rw [hrun]
    exact ⟨rfl, hindexed⟩
  | error e =>
    rw [happly] at hperform
    rw [hperform]
    exact ⟨rfl, hs⟩

/-- Edits alone keep the tables right, and in place they make the graph that they make of the graph
alone. -/
theorem Reached.edits (h : s.Reached) (hs : s.Indexed) (edits : List Edit) :
    (edits.foldl after s).Reached ∧ (edits.foldl after s).Indexed ∧
      (edits.foldl after s).toGraph = s.toGraph.attemptAll edits := by
  induction edits generalizing s with
  | nil => exact ⟨h, hs, rfl⟩
  | cons edit edits ih =>
    obtain ⟨hgraph, hindexed⟩ := after_of_indexed h.anchored hs edit
    rw [List.foldl_cons, attemptAll, List.foldl_cons, ← hgraph]
    exact ih (h.edit edit) hindexed

theorem indexed_empty (name : String) : ({ name } : Store).Indexed where
  names _ := Std.HashMap.getElem?_empty
  placeholder := rfl

/-- An edit that fails leaves all of the store as it was: tensors, stages, edges, names and
placeholder. As long as the tables are those of the graph, the edit in place goes through exactly if
the edit of the graph alone does, with the same graph and with tables that are those of the graph
again, and fails with the same error otherwise. -/
theorem Reached.failed_edit_changes_nothing (h : s.Reached) (edit : Edit) :
    (∀ e s', edit.perform s = .error e s' → s' = s) ∧
      (s.Indexed → match edit.apply s.toGraph with
        | .ok g' => ∃ s', edit.perform s = .ok () s' ∧ s'.toGraph = g' ∧ s'.Indexed
        | .error e => edit.perform s = .error e s) := by
  refine ⟨fun e s' hrun => ?_, fun hs => perform_of_indexed h.anchored hs edit⟩
  have hagrees := Agrees.perform h.anchored edit
  rw [hrun] at hagrees
  cases hagrees
  rfl

/-- A stage that was taken out is taken out once more, a stage is to write what the caller gives,
and an edge that wrote is to read. -/
theorem readsAfterwards_unchanged :
    ∃ s : Store, s.Reached ∧ s.toGraph = ({ name := "net" } : Graph).attemptAll readsAfterwards ∧
      (Edit.removeStage ⟨0⟩).perform s = .error (.graph (.noStage ⟨0⟩)) s ∧
      (Edit.addStage { name := "back", kind := .copy } [⟨1⟩] [⟨0⟩]).perform s =
      .error (.graph (.notWritable .input "x")) s ∧
      (Edit.replaceInput ⟨1⟩ ⟨0⟩).perform s = .error (.graph (.edgeNotInput ⟨1⟩)) s := by
  obtain ⟨hreached, hindexed, hgraph⟩ := (Reached.empty "net").edits (indexed_empty "net") readsAfterwards
  have hagain := (hreached.failed_edit_changes_nothing (.removeStage ⟨0⟩)).2 hindexed
  have hback := (hreached.failed_edit_changes_nothing (.addStage { name := "back", kind := .copy } [⟨1⟩] [⟨0⟩])).2
    hindexed
  have hread := (hreached.failed_edit_changes_nothing (.replaceInput ⟨1⟩ ⟨0⟩)).2 hindexed
  rw [hgraph] at hagain hback hread
  exact ⟨_, hreached, hgraph, hagain, hback, hread⟩

end Store

end NetLower.Graph
