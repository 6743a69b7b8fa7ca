/-
Which stage feeds which.  A layering numbers the stages and the tensors of a graph so
that the numbers go up along every link; a graph that has one has no cycle.  Edits of a
graph are edits of its layering: a new link needs numbers that go up along it, and
multiplying all numbers makes room for a stage between two others.
-/
import Mathlib.Logic.Function.Basic
import Mathlib.Logic.Relation
import NetLower.Proofs.Graph.WellFormed

namespace NetLower.Graph

/-- A stage still in the graph has a tensor at a slot of a direction. -/
def Touches (g : Graph) (kind : EdgeKind) (id : StageId) (d : DataId) : Prop :=
  ∃ s, g.stage? id = some s ∧ ∃ e ∈ s.slots kind, g.target? e = some d

/-- A stage writes a tensor that another one reads. -/
def Feeds (g : Graph) (a b : StageId) : Prop := ∃ d, g.Touches .output a d ∧ g.Touches .input b d

/-- No stage feeds itself, directly or through others. -/
def Acyclic (g : Graph) : Prop := ∀ id, ¬ Relation.TransGen g.Feeds id id

/-- Numbers for stages and tensors that go up along every link. -/
structure Layering (g : Graph) where
  stage : StageId → Nat
  data : DataId → Nat
  reads : ∀ {id d}, g.Touches .input id d → data d < stage id
  writes : ∀ {id d}, g.Touches .output id d → stage id ≤ data d

/-! ## What touches what after an edit -/

section touches

variable {g g' : Graph} {kind : EdgeKind} {id : StageId} {d : DataId}

theorem Touches.joins (h : g.Touches kind id d) : ∃ e, g.Joins kind e d := by
  obtain ⟨s, hs, e, he, hd⟩ := h
  exact ⟨e, id, s, hs, he, hd⟩

theorem Joins.touches {e : EdgeId} (h : g.Joins kind e d) : ∃ id, g.Touches kind id d := by
  obtain ⟨id, s, hs, he, hd⟩ := h
  exact ⟨id, s, hs, e, he, hd⟩

theorem WellFormed.data_of_touches (wf : g.WellFormed) (h : g.Touches kind id d) :
    ∃ node, g.data? d = some node := by
  obtain ⟨e, hj⟩ := h.joins
  exact wf.data_of_joins hj

/-- One stage writes a tensor. -/
theorem WellFormed.writer_stage_unique (wf : g.WellFormed) {a b : StageId}
    (ha : g.Touches .output a d) (hb : g.Touches .output b d) : a = b := by
  obtain ⟨s, hs, e, he, hd⟩ := ha
  obtain ⟨s', hs', e', he', hd'⟩ := hb
  have heq := wf.writer_unique ⟨a, s, hs, he, hd⟩ ⟨b, s', hs', he', hd'⟩
  subst heq
  exact (wf.owner_unique hs he hs' he').1

theorem SameLinks.touches (h : SameLinks g g') (ht : g'.Touches kind id d) : g.Touches kind id d := by
  obtain ⟨s', hs', e, he, hd⟩ := ht
  obtain ⟨s, hs, hslots⟩ := h.stage_eq hs'
  exact ⟨s, hs, e, hslots ▸ he, h.target?_eq e ▸ hd⟩

theorem Removed.touches {z : StageId} {s : Stage} (h : Removed g z s g') (ht : g'.Touches kind id d) :
    g.Touches kind id d := by
  obtain ⟨s', hs', e, he, hd⟩ := ht
  rw [h.stage?] at hs'
  split at hs'
  · cases hs'
  · exact ⟨s', hs', e, he, h.target?_eq e ▸ hd⟩

/-- The tensors at the slots of a direction. -/
def slotsOf (inputs outputs : List DataId) : EdgeKind → List DataId
  | .input => inputs
  | .output => outputs

theorem Added.touches {template : StageTemplate} {inputs outputs : List DataId} {z : StageId}
    (h : Added g template inputs outputs z g') (wf : g.WellFormed) :
    g'.Touches kind id d ↔ g.Touches kind id d ∨ id = z ∧ d ∈ slotsOf inputs outputs kind := by
  constructor
  · rintro ⟨s, hs, e, he, hd⟩
    by_cases hz : id = z
    · subst hz
      obtain ⟨k, hk⟩ := List.mem_iff_getElem?.1 he
      obtain ⟨d', _, hedge, hnew⟩ := h.new_slots hs hk
      rw [target?_of_edge? hedge, Option.some.injEq] at hd
      subst hd
      refine .inr ⟨rfl, ?_⟩
      cases kind <;> obtain ⟨k, hk, _⟩ := mem_edgesTo.1 hnew <;> exact List.mem_of_getElem? hk
    · rw [h.stage?, if_neg hz] at hs
      obtain ⟨k, d', node, _, hedge, _⟩ := wf.edge_of_mem hs he
      rw [target?_of_edge? (h.edge? e _ hedge)] at hd
      exact .inl ⟨s, hs, e, he, (target?_of_edge? hedge).trans hd⟩
  · rintro (⟨s, hs, e, he, hd⟩ | ⟨rfl, hmem⟩)
    · obtain ⟨k, d', node, _, hedge, _⟩ := wf.edge_of_mem hs he
      rw [target?_of_edge? hedge] at hd
      exact ⟨s, (h.stage?_of_old hs).2, e, he, (target?_of_edge? (h.edge? e _ hedge)).trans hd⟩
    · obtain ⟨k, hk⟩ := List.mem_iff_getElem?.1 hmem
      refine ⟨_, by rw [h.stage?, if_pos rfl], ?_⟩
      cases kind with
      | input =>
        exact ⟨_, mem_edgeIds.2 ⟨k, (List.getElem?_eq_some_iff.1 hk).1, rfl⟩, target?_of_edge? (h.input k d hk)⟩
      | output =>
        exact ⟨_, mem_edgeIds.2 ⟨k, (List.getElem?_eq_some_iff.1 hk).1, rfl⟩, target?_of_edge? (h.output k d hk)⟩

/-- What is touched once the edge `e` of the stage `b` leads to `x` instead. -/
theorem WellFormed.touches_led (wf : g.WellFormed) {e : EdgeId} {x : DataId} {b : StageId} {s : Stage}
    {kind' : EdgeKind} (hs : g.stage? b = some s) (he : e ∈ s.slots kind')
    (hstage : ∀ id, g'.stage? id = g.stage? id)
    (htarget : ∀ y, g'.target? y = if y = e then some x else g.target? y)
    (h : g'.Touches kind id d) : g.Touches kind id d ∨ id = b ∧ kind = kind' ∧ d = x := by
  obtain ⟨s', hs', e', he', hd⟩ := h
  rw [hstage] at hs'
  rw [htarget] at hd
  split at hd
  next heq =>
    subst heq
    obtain ⟨rfl, rfl⟩ := wf.owner_unique hs' he' hs he
    exact .inr ⟨rfl, rfl, (Option.some.inj hd).symm⟩
  · exact .inl ⟨s', hs', e', he', hd⟩

end touches

/-! ## Layerings -/

namespace Layering

variable {g g' : Graph}

/-- Along a chain of stages that feed each other the numbers go up. -/
theorem stage_lt (L : Layering g) {a b : StageId} (h : Relation.TransGen g.Feeds a b) :
    L.stage a < L.stage b := by
  have step {a b} (h : g.Feeds a b) : L.stage a < L.stage b := by
    obtain ⟨d, hw, hr⟩ := h
    exact Nat.lt_of_le_of_lt (L.writes hw) (L.reads hr)
  induction h with
  | single h => exact step h
  | tail _ h ih => exact Nat.lt_trans ih (step h)

theorem acyclic (L : Layering g) : g.Acyclic := fun _ h => Nat.lt_irrefl _ (L.stage_lt h)

/-- A graph without new links. -/
def ofTouches (L : Layering g) (h : ∀ {kind id d}, g'.Touches kind id d → g.Touches kind id d) :
    Layering g' := ⟨L.stage, L.data, fun hr => L.reads (h hr), fun hw => L.writes (h hw)⟩

/-- All numbers multiplied. -/
def scale (L : Layering g) (k : Nat) (hk : 0 < k) : Layering g where
  stage id := k * L.stage id
  data d := k * L.data d
  reads h := Nat.mul_lt_mul_of_pos_left (L.reads h) hk
  writes h := Nat.mul_le_mul_left k (L.writes h)

/-- Another number for one tensor. -/
def setData (L : Layering g) (x : DataId) (v : Nat) (hr : ∀ id, g.Touches .input id x → v < L.stage id)
    (hw : ∀ id, g.Touches .output id x → L.stage id ≤ v) : Layering g where
  stage := L.stage
  data := Function.update L.data x v
  reads {id d} h := by
    by_cases hd : d = x
    · subst hd
      rw [Function.update_self]
      exact hr id h
    · rw [Function.update_of_ne hd]
      exact L.reads h
  writes {id d} h := by
    by_cases hd : d = x
    · subst hd
      rw [Function.update_self]
      exact hw id h
    · rw [Function.update_of_ne hd]
      exact L.writes h

theorem setData_self {L : Layering g} {x : DataId} {v : Nat} {hr hw} :
    (L.setData x v hr hw).data x = v := Function.update_self _ _ _

theorem setData_of_ne {L : Layering g} {x d : DataId} {v : Nat} {hr hw} (h : d ≠ x) :
    (L.setData x v hr hw).data d = L.data d := Function.update_of_ne h _ _

/-- Another number for one stage. -/
def setStage (L : Layering g) (z : StageId) (v : Nat) (hr : ∀ d, g.Touches .input z d → L.data d < v)
    (hw : ∀ d, g.Touches .output z d → v ≤ L.data d) : Layering g where
  stage := Function.update L.stage z v
  data := L.data
  reads {id d} h := by
    by_cases hz : id = z
    · subst hz
      rw [Function.update_self]
      exact hr d h
    · rw [Function.update_of_ne hz]
      exact L.reads h
  writes {id d} h := by
    by_cases hz : id = z
    · subst hz
      rw [Function.update_self]
      exact hw d h
    · rw [Function.update_of_ne hz]
      exact L.writes h

theorem setStage_self {L : Layering g} {z : StageId} {v : Nat} {hr hw} :
    (L.setStage z v hr hw).stage z = v := Function.update_self _ _ _

theorem setStage_of_ne {L : Layering g} {z id : StageId} {v : Nat} {hr hw} (h : id ≠ z) :
    (L.setStage z v hr hw).stage id = L.stage id := Function.update_of_ne h _ _

section edits

variable {template : StageTemplate} {inputs outputs : List DataId} {z b : StageId} {s : Stage} {e : EdgeId}
  {r : Edge} {d : DataId}

/-- A number for a new stage. -/
def added (L : Layering g) (wf : g.WellFormed) (h : Added g template inputs outputs z g') (v : Nat)
    (hin : ∀ d ∈ inputs, L.data d < v) (hout : ∀ d ∈ outputs, v ≤ L.data d) : Layering g' where
  stage := Function.update L.stage z v
  data := L.data
  reads {id d} ht := by
    rcases (h.touches wf).1 ht with ⟨s, hs, hd⟩ | ⟨rfl, hd⟩
    · rw [Function.update_of_ne (h.stage?_of_old hs).1]
      exact L.reads ⟨s, hs, hd⟩
    · rw [Function.update_self]
      exact hin d hd
  writes {id d} ht := by
    rcases (h.touches wf).1 ht with ⟨s, hs, hd⟩ | ⟨rfl, hd⟩
    · rw [Function.update_of_ne (h.stage?_of_old hs).1]
      exact L.writes ⟨s, hs, hd⟩
    · rw [Function.update_self]
      exact hout d hd

/-- An input edge that leads to a tensor below its stage. -/
def inputLed (L : Layering g) (wf : g.WellFormed) (h : InputLed g e r d g') (hs : g.stage? b = some s)
    (he : e ∈ s.inputs) (hlt : L.data d < L.stage b) : Layering g' where
  stage := L.stage
  data := L.data
  reads ht := by
    rcases wf.touches_led hs (show e ∈ s.slots .input from he) h.stage? h.target? ht with ht | ⟨rfl, _, rfl⟩
    · exact L.reads ht
    · exact hlt
  writes ht := by
    rcases wf.touches_led hs (show e ∈ s.slots .input from he) h.stage? h.target? ht with ht | ⟨_, hkind, _⟩
    · exact L.writes ht
    · cases hkind

/-- An output edge that leads to a tensor not below its stage. -/
def outputLed (L : Layering g) (wf : g.WellFormed) (h : OutputLed g e r d g') (hs : g.stage? b = some s)
    (he : e ∈ s.outputs) (hle : L.stage b ≤ L.data d) : Layering g' where
  stage := L.stage
  data := L.data
  reads ht := by
    rcases wf.touches_led hs (show e ∈ s.slots .output from he) h.stage? h.target? ht with ht | ⟨_, hkind, _⟩
    · exact L.reads ht
    · cases hkind
  writes ht := by
    rcases wf.touches_led hs (show e ∈ s.slots .output from he) h.stage? h.target? ht with ht | ⟨rfl, _, rfl⟩
    · exact L.writes ht
    · exact hle

end edits

end Layering

/-! ## Graphs that can be put in order -/

/-- The tables agree and the links go one way. -/
structure Orderly (g : Graph) : Prop where
  wellFormed : g.WellFormed
  layered : Nonempty (Layering g)

/-- No stage has the tensor at a slot. -/
def Untouched (g : Graph) (d : DataId) : Prop := ∀ kind id, ¬ g.Touches kind id d

/-- A stage that copies one tensor into another and does nothing else. -/
structure Relay (g : Graph) (z : StageId) (d copy : DataId) : Prop where
  reads : g.Touches .input z d
  writes : g.Touches .output z copy
  reads_only : ∀ x, g.Touches .input z x → x = d
  writes_only : ∀ x, g.Touches .output z x → x = copy

section orderly

variable {g g' : Graph}

theorem Orderly.sameLinks (o : g.Orderly) (h : SameLinks g g') : g'.Orderly := by
  obtain ⟨L⟩ := o.layered
  exact ⟨h.wellFormed o.wellFormed, ⟨L.ofTouches h.touches⟩⟩

theorem WellFormed.untouched_pushData (wf : g.WellFormed) (node : Data) :
    (g.pushData node).2.Untouched (g.pushData node).1 := by
  intro kind id ht
  obtain ⟨x, hx⟩ := wf.data_of_touches (show g.Touches kind id _ from ht)
  exact ne_pushData hx rfl

theorem Orderly.pushData (o : g.Orderly) {node : Data} (hc : node.consumers = []) (hp : node.producer = none) :
    (g.pushData node).2.Orderly := by
  obtain ⟨L⟩ := o.layered
  exact ⟨o.wellFormed.pushData hc hp, ⟨L.ofTouches id⟩⟩

variable {template : StageTemplate} {z b : StageId} {s : Stage} {e : EdgeId} {r : Edge} {d copy : DataId}

/-- A stage that copies a tensor into an untouched one is a relay. -/
theorem Added.relay (h : Added g template [d] [copy] z g') (wf : g.WellFormed) : Relay g' z d copy := by
  have fresh {kind x} (ht : g'.Touches kind z x) : x ∈ slotsOf [d] [copy] kind := by
    rcases (h.touches wf).1 ht with ⟨_, hs, _⟩ | ⟨_, hx⟩
    · exact absurd rfl (h.stage?_of_old hs).1
    · exact hx
  exact ⟨(h.touches wf).2 (.inr ⟨rfl, by simp [slotsOf]⟩), (h.touches wf).2 (.inr ⟨rfl, by simp [slotsOf]⟩),
    fun x hx => by simpa [slotsOf] using fresh hx, fun x hx => by simpa [slotsOf] using fresh hx⟩

theorem Orderly.addRelay (o : g.Orderly) (h : Added g template [d] [copy] z g') (hc : g.Untouched copy)
    (hd : d ≠ copy) : g'.Orderly := by
  obtain ⟨L⟩ := o.layered
  let M := L.setData copy (L.data d + 1) (fun id ht => absurd ht (hc _ id)) (fun id ht => absurd ht (hc _ id))
  refine ⟨o.wellFormed.added h (by simp),
    ⟨M.added o.wellFormed h (L.data d + 1) (fun x hx => ?_) (fun x hx => ?_)⟩⟩
  · rw [List.mem_singleton.1 hx, Layering.setData_of_ne hd]
    exact Nat.lt_succ_self _
  · exact Nat.le_of_eq (by rw [List.mem_singleton.1 hx, Layering.setData_self])

/-- A relay can come right behind the tensor it copies. -/
theorem Relay.lower (R : Relay g z d copy) (wf : g.WellFormed) (L : Layering g) :
    ∃ M : Layering g, ∀ b, b ≠ z → L.data d < L.stage b → M.data copy < M.stage b := by
  have hz := L.reads R.reads
  have hcopy := L.writes R.writes
  let M := (L.scale 2 (by omega)).setStage z (2 * L.data d + 1)
    (fun x hx => by
      rw [R.reads_only x hx]
      exact Nat.lt_succ_self _)
    (fun x hx => by
      rw [R.writes_only x hx]
      show 2 * L.data d + 1 ≤ 2 * L.data copy
      omega)
  have stage_of_ne {b} (hb : b ≠ z) : M.stage b = 2 * L.stage b := Layering.setStage_of_ne hb
  refine ⟨M.setData copy (2 * L.data d + 1) (fun b hb => ?_) (fun b hb => ?_), fun b hb hlt => ?_⟩
  · have hne : b ≠ z := by
      rintro rfl
      rw [R.reads_only copy hb] at hcopy
      omega
    have := L.reads hb
    rw [stage_of_ne hne]
    omega
  · exact Nat.le_of_eq (by rw [wf.writer_stage_unique hb R.writes, Layering.setStage_self])
  · rw [Layering.setData_self]
    show 2 * L.data d + 1 < M.stage b
    rw [stage_of_ne hb]
    omega

/-- A reader of a tensor may read a relayed copy of it instead. -/
theorem Orderly.relayed (o : g.Orderly) (R : Relay g z d copy) (h : InputLed g e r copy g')
    (hs : g.stage? b = some s) (he : e ∈ s.inputs) (hd : r.data = d) (hb : b ≠ z) : g'.Orderly := by
  have ht : g.target? e = some d := hd ▸ target?_of_edge? h.edge
  obtain ⟨L⟩ := o.layered
  obtain ⟨M, hM⟩ := R.lower o.wellFormed L
  refine ⟨o.wellFormed.inputLed h ⟨b, s, hs, he, target?_of_edge? h.edge⟩, ⟨?_⟩⟩
  exact M.inputLed o.wellFormed h hs he (hM b hb (L.reads ⟨s, hs, e, he, ht⟩))

/-- An untouched tensor takes the place of what an edge writes, at the same height. -/
theorem OutputLed.layering (h : OutputLed g e r copy g') (wf : g.WellFormed) (L : Layering g)
    (hs : g.stage? b = some s) (he : e ∈ s.outputs) (hc : g.Untouched copy) (hne : r.data ≠ copy) :
    ∃ M : Layering g', M.data copy = M.data r.data := by
  let M := L.setData copy (L.data r.data) (fun id ht => absurd ht (hc _ id)) (fun id ht => absurd ht (hc _ id))
  have hle : M.stage b ≤ M.data copy := by
    rw [Layering.setData_self]
    exact L.writes ⟨s, hs, e, he, target?_of_edge? h.edge⟩
  refine ⟨M.outputLed wf h hs he hle, ?_⟩
  show M.data copy = M.data r.data
  rw [Layering.setData_self, Layering.setData_of_ne hne]

/-- A copy back into the tensor whose place was taken. -/
theorem Layering.restored (L : Layering g) (wf : g.WellFormed) (h : Added g template [copy] [d] z g')
    (heq : L.data copy = L.data d) (hne : copy ≠ d) : g'.Orderly := by
  have unwritten (id) : ¬ g.Touches .output id d := by
    intro ht
    obtain ⟨node, hnode⟩ := h.known d (by simp)
    obtain ⟨x, hx⟩ := ht.joins
    have hp := (wf.producer d node x hnode).2 hx
    rw [(h.writable d (by simp) node hnode).1] at hp
    cases hp
  let M := (L.scale 2 (by omega)).setData d (2 * L.data d + 1)
    (fun id hr => by
      have := L.reads hr
      show 2 * L.data d + 1 < 2 * L.stage id
      omega)
    (fun id hw => absurd hw (unwritten id))
  refine ⟨wf.added h (by simp), ⟨M.added wf h (2 * L.data d + 1) (fun x hx => ?_) (fun x hx => ?_)⟩⟩
  · rw [List.mem_singleton.1 hx, Layering.setData_of_ne hne]
    show 2 * L.data copy < _
    rw [heq]
    exact Nat.lt_succ_self _
  · exact Nat.le_of_eq (by rw [List.mem_singleton.1 hx, Layering.setData_self])

end orderly

end NetLower.Graph
