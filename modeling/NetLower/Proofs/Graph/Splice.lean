/-
Stages spliced into a graph.  A relay into a new tensor is put between a tensor and one
of its readers, or between the writer of a tensor and the tensor; both keep a graph
orderly and leave the slots of the stages that were there as they are.
-/
import NetLower.Proofs.Graph.RunOrder

namespace NetLower.Graph

variable {g g' g₁ g₂ : Graph}

/-! ## New intermediates -/

/-- A new intermediate without links. -/
def intermediate (name : String) (desc : Desc) : Data := { name, desc, role := .intermediate }

theorem WellFormed.pushIntermediate (wf : g.WellFormed) (name : String) (desc : Desc) :
    (g.pushData (intermediate name desc)).2.WellFormed := wf.pushData rfl rfl

theorem Orderly.pushConst (o : g.Orderly) (name : String) (desc : Desc) (content : Array F32) :
    (g.pushData { name, desc, role := .const content }).2.Orderly := o.pushData rfl rfl

theorem addData_intermediate {name : String} {desc : Desc} :
    g.addData name desc .intermediate = .ok (g.pushData (intermediate name desc)) := rfl

theorem addLike_eq_ok {d t : DataId} {suffix : String} :
    g.addLike d suffix = .ok (t, g') ↔ ∃ node, g.data? d = some node ∧
      t = (g.pushData (intermediate (node.name ++ suffix) node.desc)).1 ∧
      g' = (g.pushData (intermediate (node.name ++ suffix) node.desc)).2 := by
  simp only [addLike, Outcome.bind_eq_ok, data_eq_ok, addData_intermediate, Except.ok.injEq, Prod.ext_iff]
  simp only [eq_comm]

theorem setDataOrder_eq_ok {d : DataId} {order : Order} :
    g.setDataOrder d order = .ok g' ↔ ∃ node desc, g.data? d = some node ∧
      node.desc.setOrder order = .ok desc ∧ g.modifyData d (fun node => { node with desc }) = g' := by
  simp only [setDataOrder, Outcome.bind_eq_ok, Outcome.pure_eq_ok, data_eq_ok]
  constructor
  · rintro ⟨node, hnode, desc, hdesc, h⟩
    exact ⟨node, desc, hnode, hdesc, h⟩
  · rintro ⟨node, desc, hnode, hdesc, h⟩
    exact ⟨node, hnode, desc, hdesc, h⟩

theorem SameLinks.setDesc (d : DataId) (desc : Desc) :
    SameLinks g (g.modifyData d fun node => { node with desc }) :=
  .modifyData fun _ => ⟨rfl, rfl, rfl⟩

/-- A new tensor changed at once. -/
theorem modifyData_pushData (node : Data) (f : Data → Data) :
    (g.pushData node).2.modifyData (g.pushData node).1 f = (g.pushData (f node)).2 := by
  simp only [pushData, modifyData, Graph.mk.injEq, true_and, and_true]
  refine Array.ext_getElem? fun i => ?_
  rw [Array.getElem?_modify, Array.getElem?_push, Array.getElem?_push]
  by_cases hi : i = g.datas.size
  · subst hi
    simp
  · have : ¬ g.datas.size = i := fun h => hi h.symm
    simp [hi, this]

theorem data?_pushData_self (node : Data) : (g.pushData node).2.data? (g.pushData node).1 = some node := by
  rw [data?_pushData, if_pos rfl]

theorem addConst_eq_ok {t : DataId} {name : String} {desc : Desc} {content : Array F32} :
    g.addConst name desc content = .ok (t, g') ↔ ∃ needed, desc.total = .ok needed ∧ needed ≤ content.size ∧
      t = (g.pushData { name, desc, role := .const content }).1 ∧
      g' = (g.pushData { name, desc, role := .const content }).2 := by
  simp only [addConst, Outcome.bind_eq_ok]
  refine exists_congr fun needed => and_congr_right fun _ => ?_
  split
  next hlt => simp [Nat.not_le.2 hlt]
  next hle => simp [Nat.le_of_not_lt hle, Prod.ext_iff, eq_comm]

theorem duplicate_eq_ok {d t : DataId} {suffix : String} {desc : Desc} :
    g.duplicate d suffix desc = .ok (t, g') ↔ ∃ node content needed, g.data? d = some node ∧
      node.content? = some content ∧ desc.total = .ok needed ∧ needed ≤ content.size ∧
      t = (g.pushData { name := node.name ++ suffix, desc, role := .const content }).1 ∧
      g' = (g.pushData { name := node.name ++ suffix, desc, role := .const content }).2 := by
  simp only [duplicate, Outcome.bind_eq_ok, data_eq_ok]
  constructor
  · rintro ⟨node, hnode, h⟩
    cases hcontent : node.content? with
    | none => simp [hcontent] at h
    | some content =>
      simp only [hcontent, Outcome.bind_eq_ok] at h
      obtain ⟨needed, hneeded, h⟩ := h
      split at h
      · cases h
      next hle =>
        cases h
        exact ⟨node, content, needed, hnode, hcontent, hneeded, Nat.le_of_not_lt hle, rfl, rfl⟩
  · rintro ⟨node, content, needed, hnode, hcontent, hneeded, hle, rfl, rfl⟩
    refine ⟨node, hnode, ?_⟩
    simp only [hcontent, Outcome.bind_eq_ok]
    exact ⟨needed, hneeded, by rw [if_neg (Nat.not_lt.2 hle)]⟩

/-! ## Stages that stay -/

/-- Every stage is still there, with the same edges at its slots. -/
def Extends (g g' : Graph) : Prop :=
  ∀ id s, g.stage? id = some s → ∃ s', g'.stage? id = some s' ∧ s'.slots = s.slots

theorem Extends.refl : g.Extends g := fun _ s hs => ⟨s, hs, rfl⟩

theorem Extends.trans (h : g.Extends g₁) (h' : g₁.Extends g₂) : g.Extends g₂ := by
  intro id s hs
  obtain ⟨s₁, hs₁, heq⟩ := h id s hs
  obtain ⟨s₂, hs₂, heq'⟩ := h' id s₁ hs₁
  exact ⟨s₂, hs₂, heq'.trans heq⟩

theorem Extends.mem (h : g.Extends g') {id : StageId} {s : Stage} {kind : EdgeKind} {e : EdgeId}
    (hs : g.stage? id = some s) (he : e ∈ s.slots kind) : ∃ s', g'.stage? id = some s' ∧ e ∈ s'.slots kind := by
  obtain ⟨s', hs', heq⟩ := h id s hs
  exact ⟨s', hs', heq ▸ he⟩

theorem SameLinks.extends (h : SameLinks g g') : g.Extends g' := fun _ _ hs => h.symm.stage_eq hs

theorem extends_pushData (node : Data) : g.Extends (g.pushData node).2 := .refl

theorem Added.extends {template : StageTemplate} {inputs outputs : List DataId} {z : StageId}
    (h : Added g template inputs outputs z g') : g.Extends g' := fun _ s hs => ⟨s, (h.stage?_of_old hs).2, rfl⟩

theorem InputLed.extends {e : EdgeId} {r : Edge} {d : DataId} (h : InputLed g e r d g') : g.Extends g' :=
  fun id s hs => ⟨s, (h.stage? id).trans hs, rfl⟩

theorem OutputLed.extends {e : EdgeId} {r : Edge} {d : DataId} (h : OutputLed g e r d g') : g.Extends g' :=
  fun id s hs => ⟨s, (h.stage? id).trans hs, rfl⟩

/-! ## Edges that stay where they are -/

section stay

variable {d : DataId}

theorem Joins.added {template : StageTemplate} {inputs outputs : List DataId} {z : StageId} {kind : EdgeKind}
    {e : EdgeId} (hj : g.Joins kind e d) (wf : g.WellFormed) (h : Added g template inputs outputs z g') :
    g'.Joins kind e d := (h.joins wf).2 (.inl hj)

/-- An edge is not moved with another one. -/
theorem Joins.inputLed {e x : EdgeId} {r : Edge} {t : DataId} {kind : EdgeKind} (hj : g.Joins kind x d)
    (wf : g.WellFormed) (h : InputLed g e r t g') (he : g.Joins .input e r.data) (hne : x ≠ e) :
    g'.Joins kind x d := (wf.joins_led he h.stage? h.target?).2 (.inr ⟨hne, hj⟩)

/-- Input edges are not moved with output edges. -/
theorem Joins.outputLed {e x : EdgeId} {r : Edge} {t : DataId} (hj : g.Joins .input x d) (wf : g.WellFormed)
    (h : OutputLed g e r t g') (he : g.Joins .output e r.data) : g'.Joins .input x d := by
  refine (wf.joins_led he h.stage? h.target?).2 (.inr ⟨?_, hj⟩)
  rintro rfl
  obtain ⟨_, _, hs, hx, _⟩ := hj
  obtain ⟨_, _, hs', hx', _⟩ := he
  cases (wf.owner_unique hs hx hs' hx').2

end stay

/-! ## A relay before a reader -/

section splice

variable {template : StageTemplate} {z b : StageId} {s : Stage} {e : EdgeId} {r : Edge} {d t : DataId}
  {new : Data}

/-- A relay from a tensor into a new one. -/
theorem Orderly.relayNew (o : g.Orderly) (hc : new.consumers = []) (hp : new.producer = none)
    (h : Added (g.pushData new).2 template [d] [(g.pushData new).1] z g')
    (hd : ∃ node, g.data? d = some node) : g'.Orderly ∧ Relay g' z d (g.pushData new).1 := by
  have o₁ := @Orderly.pushData g o new hc hp
  obtain ⟨node, hnode⟩ := hd
  exact ⟨o₁.addRelay h (o.wellFormed.untouched_pushData new) (ne_pushData hnode), h.relay o₁.wellFormed⟩

/-- A new relay between a tensor and one of its readers. -/
theorem Orderly.tap (o : g.Orderly) (hc : new.consumers = []) (hp : new.producer = none)
    (h : Added (g.pushData new).2 template [d] [(g.pushData new).1] z g₁)
    (h' : InputLed g₁ e r (g.pushData new).1 g') (hs : g.stage? b = some s) (he : e ∈ s.inputs)
    (hd : g.target? e = some d) :
    g'.Orderly ∧ ∀ {kind x y}, x ≠ e → g.Joins kind x y → g'.Joins kind x y := by
  obtain ⟨k, d', node, _, hedge, hnode⟩ := o.wellFormed.edge_of_mem hs (show e ∈ s.slots .input from he)
  rw [target?_of_edge? hedge, Option.some.injEq] at hd
  change d' = d at hd
  subst hd
  obtain ⟨o₁, R⟩ := o.relayNew hc hp h ⟨node, hnode⟩
  obtain ⟨hne, hs₁⟩ := h.stage?_of_old (show (g.pushData new).2.stage? b = some s from hs)
  have hr := h'.edge
  rw [h.edge? e _ hedge, Option.some.injEq] at hr
  refine ⟨o₁.relayed R h' hs₁ he (by rw [← hr]) hne, fun hxe hx => ?_⟩
  have hx₁ := Joins.added (joins_pushData.2 hx) (o.wellFormed.pushData hc hp) h
  exact hx₁.inputLed o₁.wellFormed h' ⟨b, s, hs₁, he, target?_of_edge? h'.edge⟩ hxe

/-- A reader moves to a tensor that nothing writes. -/
theorem Orderly.moveToSource (o : g.Orderly) (h : InputLed g e r t g') (hs : g.stage? b = some s)
    (he : e ∈ s.inputs) (ht : ∀ node, g.data? t = some node → node.producer = none) : g'.Orderly := by
  have hr : g.target? e = some r.data := target?_of_edge? h.edge
  obtain ⟨L⟩ := o.layered
  have unwritten (id) : ¬ g.Touches .output id t := by
    intro hw
    obtain ⟨x, hx⟩ := hw.joins
    obtain ⟨node, hnode⟩ := o.wellFormed.data_of_joins hx
    have := (o.wellFormed.producer t node x hnode).2 hx
    rw [ht node hnode] at this
    cases this
  let M := L.setData t 0 (fun id hid => Nat.zero_lt_of_lt (L.reads hid)) (fun id hid => absurd hid (unwritten id))
  refine ⟨o.wellFormed.inputLed h ⟨b, s, hs, he, hr⟩, ⟨M.inputLed o.wellFormed h hs he ?_⟩⟩
  rw [Layering.setData_self]
  exact Nat.zero_lt_of_lt (L.reads ⟨s, hs, e, he, hr⟩)

/-! ## A relay behind a writer -/

/-- Two tensors can be given the same height. -/
def Level (g : Graph) (t d : DataId) : Prop := ∃ L : Layering g, L.data t = L.data d

/-- What an edge wrote is written to a new tensor. -/
theorem Orderly.divert (o : g.Orderly) (hc : new.consumers = []) (hp : new.producer = none)
    (hu : new.usage = .output ∨ new.usage = .intermediate)
    (h : OutputLed (g.pushData new).2 e r (g.pushData new).1 g') (hs : g.stage? b = some s)
    (he : e ∈ s.outputs) : g'.WellFormed ∧ g'.Level (g.pushData new).1 r.data ∧ (g.pushData new).1 ≠ r.data := by
  have o₁ := @Orderly.pushData g o new hc hp
  have hr : g.target? e = some r.data := target?_of_edge? (show g.edge? e = some r from h.edge)
  obtain ⟨node, hnode⟩ := o.wellFormed.data_of_joins ⟨b, s, hs, show e ∈ s.slots .output from he, hr⟩
  have hne : r.data ≠ (g.pushData new).1 := ne_pushData hnode
  obtain ⟨L⟩ := o₁.layered
  refine ⟨o₁.wellFormed.outputLed h ⟨b, s, hs, he, hr⟩ (data?_pushData_self new) hu, ?_, hne.symm⟩
  exact h.layering o₁.wellFormed L hs he (o.wellFormed.untouched_pushData new) hne

/-- A reader moves to a tensor of the same height. -/
theorem Level.moved (h : g.Level t d) (wf : g.WellFormed) (hl : InputLed g e r t g')
    (he : g.Joins .input e d) : g'.WellFormed ∧ g'.Level t d := by
  obtain ⟨L, heq⟩ := h
  obtain ⟨b, s, hs, hmem, hd⟩ := he
  refine ⟨wf.inputLed hl ⟨b, s, hs, hmem, target?_of_edge? hl.edge⟩, L.inputLed wf hl hs hmem ?_, heq⟩
  rw [heq]
  exact L.reads ⟨s, hs, e, hmem, hd⟩

theorem Level.restored (h : g.Level t d) (wf : g.WellFormed) (ha : Added g template [t] [d] z g')
    (hne : t ≠ d) : g'.Orderly := by
  obtain ⟨L, heq⟩ := h
  exact L.restored wf ha heq hne

/-- A new relay between the writer of a tensor and the tensor. -/
theorem Orderly.buffer (o : g.Orderly) (hc : new.consumers = []) (hp : new.producer = none)
    (hu : new.usage = .output ∨ new.usage = .intermediate)
    (h : OutputLed (g.pushData new).2 e r (g.pushData new).1 g₁) (hs : g.stage? b = some s)
    (he : e ∈ s.outputs) (ha : Added g₁ template [(g.pushData new).1] [r.data] z g') :
    g'.Orderly ∧ ∀ {x y}, g.Joins .input x y → g'.Joins .input x y := by
  obtain ⟨wf₁, level, hne⟩ := o.divert hc hp hu h hs he
  refine ⟨level.restored wf₁ ha hne, fun hx => ?_⟩
  have hx₁ := Joins.outputLed (joins_pushData.2 hx) (o.wellFormed.pushData hc hp) h
    ⟨b, s, hs, he, target?_of_edge? h.edge⟩
  exact hx₁.added wf₁ ha

end splice

end NetLower.Graph
