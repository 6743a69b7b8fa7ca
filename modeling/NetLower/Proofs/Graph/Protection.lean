/-
Sequences of edits by a caller who may pass anything.  A failed edit leaves the graph as it
was.  The links of the graph agree after every edit exactly if no edit that went through was
careless: three edits go through on arguments that they do not check, and each of these breaks
the links at once.  A stage may be given one tensor twice to write, an edge of a stage that was
taken out may be led elsewhere, and an edge may be made to write a tensor that nothing writes.
-/
import Mathlib.Data.List.Induction
import NetLower.Proofs.Blob.Areas
import NetLower.Proofs.Network.Layers
import NetLower.Proofs.Pass.Scale

namespace NetLower.Graph

/-- An edit with its arguments. -/
inductive Edit where
  | addData (name : String) (desc : Desc) (usage : Usage)
  | addConst (name : String) (desc : Desc) (content : Array F32)
  | addPlaceholder
  | duplicate (source : DataId) (suffix : String) (desc : Desc)
  | scaledConst (source : DataId) (factor : F32)
  | addStage (template : StageTemplate) (inputs outputs : List DataId)
  | replaceStage (id : StageId) (kind : StageKind)
  | removeStage (id : StageId)
  | replaceInput (edge : EdgeId) (data : DataId)
  | replaceOutput (edge : EdgeId) (data : DataId)

namespace Edit

/-- What the edit makes of a graph. -/
def apply (g : Graph) : Edit → Outcome Graph
  | addData name desc usage => return (← g.addData name desc usage).2
  | addConst name desc content => return (← g.addConst name desc content).2
  | addPlaceholder => return (← g.addPlaceholder).2
  | duplicate source suffix desc => return (← g.duplicate source suffix desc).2
  | scaledConst source factor => return (← g.scaledConst source factor).2
  | addStage template inputs outputs => return (← g.addStage template inputs outputs).2
  | replaceStage id kind => g.replaceStage id kind
  | removeStage id => g.removeStage id
  | replaceInput edge data => g.replaceInput edge data
  | replaceOutput edge data => g.replaceOutput edge data

/-- The caller sees to what the edit does not check: the outputs of a stage differ, an edge that
is led elsewhere is of a stage still in the graph, and what it then writes may be written. -/
def Careful (g : Graph) : Edit → Prop
  | addStage _ _ outputs => outputs.Nodup
  | replaceInput edge _ => ∃ d, g.Joins .input edge d
  | replaceOutput edge data => (∃ d, g.Joins .output edge d) ∧
      ∀ node, g.data? data = some node → node.usage = .output ∨ node.usage = .intermediate
  | _ => True

end Edit

/-- The graph after an edit; a failed edit changes nothing. -/
def attempt (g : Graph) (edit : Edit) : Graph :=
  match edit.apply g with
  | .ok g' => g'
  | .error _ => g

/-- The graph after a sequence of edits. -/
def attemptAll (g : Graph) (edits : List Edit) : Graph := edits.foldl attempt g

/-- Tensors and the stages still in the graph agree on who writes and reads a tensor. -/
structure Protected (g : Graph) : Prop where
  /-- At most one edge writes a tensor. -/
  oneWriter : ∀ d e e', g.Joins .output e d → g.Joins .output e' d → e = e'
  /-- The tensor knows it. -/
  producer : ∀ d node e, g.data? d = some node → (node.producer = some e ↔ g.Joins .output e d)
  /-- A tensor lists the edges that read it, each once. -/
  consumers : ∀ d node, g.data? d = some node →
    node.consumers.Nodup ∧ ∀ e, e ∈ node.consumers ↔ g.Joins .input e d
  /-- Nothing writes a constant, a placeholder or what the caller gives. -/
  sources : ∀ d node, g.data? d = some node →
    node.usage = .const ∨ node.usage = .fake ∨ node.usage = .input → node.producer = none

theorem WellFormed.protected {g : Graph} (wf : g.WellFormed) : g.Protected where
  oneWriter _ _ _ h h' := wf.writer_unique h h'
  producer := wf.producer
  consumers d node hd := ⟨wf.nodup d node hd, fun e => wf.consumers d node e hd⟩
  sources := wf.sources

variable {g g' : Graph}

/-! ## One edit -/

theorem snd_eq_ok {α : Type} {x : Outcome (α × Graph)} :
    (do return (← x).2) = (.ok g' : Outcome Graph) ↔ ∃ a, x = .ok (a, g') := by
  simp only [Outcome.bind_eq_ok, Outcome.pure_eq_ok, Prod.exists]
  exact ⟨fun ⟨a, _, h, heq⟩ => ⟨a, heq ▸ h⟩, fun ⟨a, h⟩ => ⟨a, g', h, rfl⟩⟩

theorem addData_eq_ok {name : String} {desc : Desc} {usage : Usage} {d : DataId}
    (h : g.addData name desc usage = .ok (d, g')) :
    ∃ role : Role, role.usage = usage ∧ g' = (g.pushData { name, desc, role }).2 := by
  cases usage <;> simp only [addData, Except.ok.injEq, reduceCtorEq] at h <;> rw [Prod.ext_iff] at h
  · exact ⟨.input, rfl, h.2.symm⟩
  · exact ⟨.output, rfl, h.2.symm⟩
  · exact ⟨.intermediate, rfl, h.2.symm⟩

/-- An edit that goes through on arguments that the caller has seen to keeps the links. -/
theorem WellFormed.edit (wf : g.WellFormed) {edit : Edit} (h : edit.apply g = .ok g')
    (careful : edit.Careful g) : g'.WellFormed := by
  cases edit with
  | addData name desc usage =>
    obtain ⟨d, h⟩ := snd_eq_ok.1 h
    obtain ⟨role, _, rfl⟩ := addData_eq_ok h
    exact wf.pushData rfl rfl
  | addConst name desc content =>
    obtain ⟨d, h⟩ := snd_eq_ok.1 h
    obtain ⟨_, _, _, _, rfl⟩ := addConst_eq_ok.1 h
    exact wf.pushData rfl rfl
  | addPlaceholder =>
    obtain ⟨d, h⟩ := snd_eq_ok.1 h
    obtain ⟨_, rfl⟩ | ⟨_, _, _, _, rfl⟩ := addPlaceholder_eq_ok h
    · exact wf
    · exact wf.pushData rfl rfl
  | duplicate source suffix desc =>
    obtain ⟨d, h⟩ := snd_eq_ok.1 h
    obtain ⟨_, _, _, _, _, _, _, _, rfl⟩ := duplicate_eq_ok.1 h
    exact wf.pushData rfl rfl
  | scaledConst source factor =>
    obtain ⟨d, h⟩ := snd_eq_ok.1 h
    obtain ⟨_, _, _, _, _, _, _, rfl | ⟨_, hconsumers, hproducer, _, rfl⟩⟩ := scaledConst_eq_ok h
    · exact wf
    · exact wf.pushData hconsumers hproducer
  | addStage template inputs outputs =>
    obtain ⟨z, h⟩ := snd_eq_ok.1 h
    exact wf.added (addStage_added h) careful
  | replaceStage id kind =>
    simp only [Edit.apply, replaceStage, Outcome.bind_eq_ok, Outcome.pure_eq_ok] at h
    obtain ⟨_, _, rfl⟩ := h
    exact SameLinks.wellFormed (.modifyStage fun _ => rfl) wf
  | removeStage id =>
    obtain ⟨_, hremoved⟩ := removeStage_removed h
    exact wf.removed hremoved
  | replaceInput edge data =>
    obtain ⟨r, hled⟩ := replaceInput_led h
    obtain ⟨d, hjoins⟩ := careful
    have htarget : d = r.data := by simpa [target?, hled.edge, eq_comm] using hjoins.target
    exact wf.inputLed hled (htarget ▸ hjoins)
  | replaceOutput edge data =>
    obtain ⟨r, hled⟩ := replaceOutput_led h
    obtain ⟨⟨d, hjoins⟩, husage⟩ := careful
    have htarget : d = r.data := by simpa [target?, hled.edge, eq_comm] using hjoins.target
    obtain ⟨node, hnode, _⟩ := hled.known
    exact wf.outputLed hled (htarget ▸ hjoins) hnode (husage node hnode)

/-- An edit after which the links agree was made with care. -/
theorem Protected.careful (p : g'.Protected) {edit : Edit} (h : edit.apply g = .ok g') : edit.Careful g := by
  cases edit with
  | addData | addConst | addPlaceholder | duplicate | scaledConst | replaceStage | removeStage => trivial
  | addStage template inputs outputs =>
    obtain ⟨z, h⟩ := snd_eq_ok.1 h
    have hadded := addStage_added h
    -- Two slots with one tensor would be two edges that write it.
    have edgeAt {k : Nat} {d : DataId} (hk : outputs[k]? = some d) :
        g'.Joins .output ⟨g.edges.size + inputs.length + k⟩ d :=
      hadded.new_edge (show _ ∈ newEdges g inputs outputs d .output from mem_edgesTo.2 ⟨k, hk, rfl⟩)
    refine List.nodup_iff_getElem?_ne_getElem?.2 fun i j hij hj heq => ?_
    have hd := List.getElem?_eq_getElem hj
    have hedges := p.oneWriter outputs[j] _ _ (edgeAt (heq.trans hd)) (edgeAt hd)
    simp only [EdgeId.mk.injEq] at hedges
    omega
  | replaceInput edge data =>
    obtain ⟨r, hled⟩ := replaceInput_led h
    obtain ⟨node, hnode⟩ := hled.known
    have hnode' := hled.data? data
    rw [hnode, Option.map_some, if_pos rfl] at hnode'
    -- The tensor now lists the edge, so a stage reads it through that edge.
    obtain ⟨id, s, hs, he, _⟩ := ((p.consumers data _ hnode').2 edge).1 (by simp)
    exact ⟨r.data, id, s, hled.stage? id ▸ hs, he, target?_of_edge? hled.edge⟩
  | replaceOutput edge data =>
    obtain ⟨r, hled⟩ := replaceOutput_led h
    obtain ⟨node, hnode, _⟩ := hled.known
    have hnode' := hled.data? data
    rw [hnode, Option.map_some, if_pos rfl] at hnode'
    obtain ⟨id, s, hs, he, _⟩ := (p.producer data _ edge hnode').1 rfl
    refine ⟨⟨r.data, id, s, hled.stage? id ▸ hs, he, target?_of_edge? hled.edge⟩, fun node₁ hnode₁ => ?_⟩
    rw [hnode, Option.some.injEq] at hnode₁
    subst hnode₁
    have hwritten := p.sources data _ hnode'
    cases husage : node.usage <;> simp_all [Data.usage]

/-! ## A sequence of edits -/

theorem attemptAll_append (g : Graph) (edits : List Edit) (edit : Edit) :
    g.attemptAll (edits ++ [edit]) = (g.attemptAll edits).attempt edit := List.foldl_append

/-- What one edit does to well-formedness, a failed edit included. -/
theorem WellFormed.attempt (wf : g.WellFormed) {edit : Edit}
    (careful : ∀ g', edit.apply g = .ok g' → edit.Careful g) : (g.attempt edit).WellFormed := by
  unfold Graph.attempt
  split
  next g' h => exact wf.edit h (careful g' h)
  · exact wf

theorem WellFormed.attemptAll (wf : g.WellFormed) {edits : List Edit}
    (careful : ∀ before edit g', before ++ [edit] <+: edits → edit.apply (g.attemptAll before) = .ok g' →
      edit.Careful (g.attemptAll before)) : (g.attemptAll edits).WellFormed := by
  induction edits using List.reverseRecOn with
  | nil => exact wf
  | append_singleton edits edit ih =>
    rw [attemptAll_append]
    refine (ih fun before e g' hbefore => careful before e g' (hbefore.trans (List.prefix_append _ _))).attempt ?_
    exact fun g' h => careful edits edit g' (List.prefix_refl _) h

/-- Starting from the empty graph, the links agree after every edit of a sequence exactly if
every edit that went through was made with care. -/
theorem protected_throughout_iff_careful (name : String) (edits : List Edit) :
    (∀ before, before <+: edits → (({ name } : Graph).attemptAll before).Protected) ↔
      ∀ before edit g', before ++ [edit] <+: edits →
        edit.apply (({ name } : Graph).attemptAll before) = .ok g' →
        edit.Careful (({ name } : Graph).attemptAll before) := by
  constructor
  · intro p before edit g' hprefix h
    have hafter := p _ hprefix
    rw [attemptAll_append, attempt, h] at hafter
    exact hafter.careful h
  · intro careful before hbefore
    refine ((wellFormed_empty name).attemptAll fun earlier edit g' hearlier => ?_).protected
    exact careful earlier edit g' (hearlier.trans hbefore)

/-! ### Edits made without care -/

/-- A stage that writes its only tensor twice. -/
def writesTwice : List Edit :=
  [.addData "y" half .output, .addStage { name := "twice", kind := .copy } [] [⟨0⟩, ⟨0⟩]]

/-- A copy that is taken out and whose edge is then led to another tensor to read. -/
def readsAfterwards : List Edit :=
  [.addData "x" half .input, .addData "y" half .output, .addStage { name := "copy", kind := .copy } [⟨0⟩] [⟨1⟩],
    .removeStage ⟨0⟩, .replaceInput ⟨0⟩ ⟨1⟩]

/-- A copy that is made to write what the caller gives. -/
def writesInput : List Edit :=
  [.addData "x" half .input, .addData "y" half .output, .addStage { name := "copy", kind := .copy } [⟨0⟩] [⟨1⟩],
    .replaceOutput ⟨1⟩ ⟨0⟩]

/-- Each of the three goes through and leaves links that do not agree. -/
theorem careless_edits_unprotected :
    ¬ (({ name := "net" } : Graph).attemptAll writesTwice).Protected ∧
      ¬ (({ name := "net" } : Graph).attemptAll readsAfterwards).Protected ∧
      ¬ (({ name := "net" } : Graph).attemptAll writesInput).Protected := by
  refine ⟨fun p => ?_, fun p => ?_, fun p => ?_⟩
  · have joins (e : EdgeId) (he : e = ⟨0⟩ ∨ e = ⟨1⟩) :
        (({ name := "net" } : Graph).attemptAll writesTwice).Joins .output e ⟨0⟩ := by
      refine ⟨⟨0⟩, _, rfl, ?_⟩
      rcases he with rfl | rfl <;> exact ⟨by decide, rfl⟩
    cases p.oneWriter ⟨0⟩ ⟨0⟩ ⟨1⟩ (joins _ (.inl rfl)) (joins _ (.inr rfl))
  · obtain ⟨id, s, hs, _⟩ := ((p.consumers ⟨1⟩ _ rfl).2 ⟨0⟩).1 (by decide)
    have hnone : ∀ id, (({ name := "net" } : Graph).attemptAll readsAfterwards).stage? id = none := by
      rintro ⟨_ | k⟩ <;> rfl
    rw [hnone] at hs
    cases hs
  · have hnone := p.sources ⟨0⟩ _ rfl (.inr (.inr rfl))
    revert hnone
    decide

end NetLower.Graph
