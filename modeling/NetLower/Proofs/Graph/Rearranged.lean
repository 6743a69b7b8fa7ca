/-
What becomes of a graph whose batches are split.  From there on passes add tensors that
the caller does not see and stages that hand tensors on, lead edges to tensors of the same
shape, and change orders and whatever does not show.  What each of these steps keeps, the passes keep:
what the caller sees, what is known of a stage by itself, and what is known of it in its
place.
-/
import Mathlib.Logic.Relation
import NetLower.Proofs.Graph.Sites
import NetLower.Proofs.Tensor

namespace NetLower

/-- What is known of a tensor by name. -/
structure Face where
  name : String
  desc : Desc
  usage : Usage

def Data.face (d : Data) : Face := ⟨d.name, d.desc, d.usage⟩

/-- The face of a tensor that the caller gives or gets back. -/
def Data.outer? (d : Data) : Option Face := if d.usage = .input ∨ d.usage = .output then some d.face else none

theorem Data.outer?_eq_none {d : Data} : d.outer? = none ↔ d.usage ≠ .input ∧ d.usage ≠ .output := by
  simp [Data.outer?, not_or]

theorem Data.outer?_eq_some {d : Data} {f : Face} :
    d.outer? = some f ↔ (d.usage = .input ∨ d.usage = .output) ∧ d.face = f := by
  simp [Data.outer?]

theorem Data.outer?_congr {d d' : Data} (h : d'.face = d.face) : d'.outer? = d.outer? := by
  have husage : d'.usage = d.usage := congrArg Face.usage h
  simp only [Data.outer?, h, husage]

/-- The tensor has no place, or one in the area of its use. -/
def Data.InArea (d : Data) : Prop := ∀ l, d.location = some l → d.usage.area? = some l.area

/-- A tensor that is linked to nothing, that the caller does not see and that has no place. -/
structure Data.Loose (d : Data) : Prop where
  consumers : d.consumers = []
  producer : d.producer = none
  unseen : d.outer? = none
  unplaced : d.location = none

theorem Data.Loose.inArea {d : Data} (h : d.Loose) : d.InArea := fun l hl => by simp [h.unplaced] at hl

/-- At every slot a tensor of the same shape. -/
def Look.sized : SlotRel := fun _ _ v v' => v'.desc.dims = v.desc.dims

/-- Kinds of stages that hand a tensor on, in another scale, order or place. -/
def StageKind.isRelay : StageKind → Bool
  | power | permute | copy => true
  | _ => false

namespace Graph

variable {g g' g₁ g₂ : Graph} {d t : DataId} {e : EdgeId} {r : Edge} {z : StageId} {template : StageTemplate}
  {inputs outputs : List DataId} {new node : Data}

/-! ## What the caller sees -/

/-- The tensors have the same faces. -/
def SameFaces (g g' : Graph) : Prop := ∀ d, (g'.data? d).map Data.face = (g.data? d).map Data.face

theorem SameFaces.of_map {f : DataId → Data → Data} (h : ∀ d, g'.data? d = (g.data? d).map (f d))
    (hf : ∀ d node, (f d node).face = node.face) : SameFaces g g' := by
  intro d
  rw [h]
  cases g.data? d with
  | none => rfl
  | some node => exact congrArg some (hf d node)

theorem SameFaces.modifyData {f : Data → Data} (hf : ∀ node, (f node).face = node.face) :
    SameFaces g (g.modifyData d f) := by
  intro x
  rw [data?_modifyData]
  split
  · cases g.data? x with
    | none => rfl
    | some node => exact congrArg some (hf node)
  · rfl

theorem SameFaces.looks (h : SameFaces g g') : SameLooks g g' := by
  intro d
  have hlook : Data.look = (fun f : Face => (⟨f.desc, f.usage⟩ : Look)) ∘ Data.face := rfl
  rw [hlook, ← Option.map_map, ← Option.map_map, h d]

/-- The caller gives and gets back the same tensors, under the same identifiers. -/
def SameInterface (g g' : Graph) : Prop := ∀ d, (g'.data? d).bind Data.outer? = (g.data? d).bind Data.outer?

namespace SameInterface

theorem refl : SameInterface g g := fun _ => rfl

theorem trans (h : SameInterface g g₁) (h' : SameInterface g₁ g₂) : SameInterface g g₂ :=
  fun d => (h' d).trans (h d)

theorem of_faces (h : SameFaces g g') : SameInterface g g' := by
  intro d
  have hd := h d
  cases hnode' : g'.data? d with
  | none =>
    rw [hnode', Option.map_none, eq_comm, Option.map_eq_none_iff] at hd
    rw [hd]
  | some node' =>
    rw [hnode', Option.map_some, eq_comm, Option.map_eq_some_iff] at hd
    obtain ⟨node, hnode, hface⟩ := hd
    rw [hnode]
    exact Data.outer?_congr hface.symm

theorem pushData (hnew : new.outer? = none) : SameInterface g (g.pushData new).2 := by
  intro d
  rw [data?_pushData]
  split
  next heq =>
    have hnone : g.data? (g.pushData new).1 = none := Array.getElem?_eq_none (Nat.le_refl _)
    rw [heq, hnone, Option.bind_some, hnew]
    rfl
  · rfl

/-- A tensor that the caller does not see is changed. -/
theorem modifyData {f : Data → Data} (hnode : g.data? d = some node) (hout : node.outer? = none)
    (hf : (f node).outer? = none) : SameInterface g (g.modifyData d f) := by
  intro x
  rw [data?_modifyData]
  split
  next heq =>
    rw [heq, hnode, Option.map_some, Option.bind_some, Option.bind_some, hf, hout]
  · rfl

/-- What the caller sees before is there afterwards. -/
theorem data_of (h : SameInterface g g') (hnode : g.data? d = some node)
    (hu : node.usage = .input ∨ node.usage = .output) :
    ∃ node', g'.data? d = some node' ∧ node'.face = node.face := by
  have hd := h d
  rw [hnode, Option.bind_some, Data.outer?_eq_some.2 ⟨hu, rfl⟩, Option.bind_eq_some_iff] at hd
  obtain ⟨node', hnode', hface⟩ := hd
  exact ⟨node', hnode', (Data.outer?_eq_some.1 hface).2⟩

theorem symm (h : SameInterface g g') : SameInterface g' g := fun d => (h d).symm

end SameInterface

/-! ## Where tensors are -/

/-- Every tensor is where those of its use are. -/
def InAreas (g : Graph) : Prop := ∀ d node, g.data? d = some node → node.InArea

namespace InAreas

theorem of_map {f : DataId → Data → Data} (h : g.InAreas) (hmap : ∀ d, g'.data? d = (g.data? d).map (f d))
    (hf : ∀ d node, node.InArea → (f d node).InArea) : g'.InAreas := by
  intro d node hnode
  rw [hmap] at hnode
  obtain ⟨old, hold, rfl⟩ := Option.map_eq_some_iff.1 hnode
  exact hf d old (h d old hold)

theorem pushData (h : g.InAreas) (hnew : new.InArea) : (g.pushData new).2.InAreas := by
  intro d node hnode
  rw [data?_pushData] at hnode
  split at hnode
  · exact Option.some.inj hnode ▸ hnew
  · exact h d node hnode

theorem modifyData {f : Data → Data} (h : g.InAreas) (hf : ∀ node, node.InArea → (f node).InArea) :
    (g.modifyData t f).InAreas := by
  intro d node hnode
  rw [data?_modifyData] at hnode
  split at hnode
  · obtain ⟨old, hold, rfl⟩ := Option.map_eq_some_iff.1 hnode
    exact hf old (h d old hold)
  · exact h d node hnode

end InAreas

/-- What the caller sees is the same, and tensors are still where those of their use are. -/
structure SameOutside (g g' : Graph) : Prop where
  interface : SameInterface g g'
  areas : g.InAreas → g'.InAreas

namespace SameOutside

theorem refl : SameOutside g g := ⟨.refl, fun h => h⟩

theorem trans {g₁ : Graph} (h : SameOutside g g₁) (h' : SameOutside g₁ g') : SameOutside g g' :=
  ⟨h.interface.trans h'.interface, fun hg => h'.areas (h.areas hg)⟩

/-- Edits of links alone. -/
theorem of_map {f : DataId → Data → Data} (h : ∀ d, g'.data? d = (g.data? d).map (f d))
    (hf : ∀ d node, (f d node).face = node.face ∧ (f d node).location = node.location) : SameOutside g g' := by
  refine ⟨.of_faces (.of_map h fun d node => (hf d node).1), fun hg => hg.of_map h fun d node hnode l hl => ?_⟩
  rw [(hf d node).2] at hl
  rw [show (f d node).usage = node.usage from congrArg Face.usage (hf d node).1]
  exact hnode l hl

theorem pushData {new : Data} (hnew : new.Loose) : SameOutside g (g.pushData new).2 :=
  ⟨.pushData hnew.unseen, fun hg => hg.pushData hnew.inArea⟩

theorem added (h : Added g template inputs outputs z g') : SameOutside g g' :=
  .of_map h.data? fun _ _ => ⟨rfl, rfl⟩

end SameOutside

/-! ## What is known of stages -/

/-- Something is known of every stage, whatever its place. -/
def Staff (T : StageTemplate → Prop) (g : Graph) : Prop := ∀ id s, g.stage? id = some s → T s.toStageTemplate

theorem Staff.congr {T : StageTemplate → Prop} (h : g.Staff T) (hstage : ∀ id, g'.stage? id = g.stage? id) :
    g'.Staff T := fun id s hs => h id s ((hstage id).symm.trans hs)

theorem Staff.added {T : StageTemplate → Prop} (h : g.Staff T) (ha : Added g template inputs outputs z g')
    (hT : T template) : g'.Staff T := by
  intro id s hs
  rw [ha.stage?] at hs
  split at hs
  · cases hs
    exact hT
  · exact h id s hs

theorem Staff.removed {T : StageTemplate → Prop} {s : Stage} (h : g.Staff T) (hr : Removed g z s g') :
    g'.Staff T := by
  intro id s hs
  rw [hr.stage?] at hs
  split at hs
  · cases hs
  · exact h id s hs

/-- What holds of the stage that is changed has to be seen anew. -/
theorem Staff.modifyStage {T : StageTemplate → Prop} {f : Stage → Stage} (h : g.Staff T)
    (hnew : ∀ s, g.stage? z = some s → T (f s).toStageTemplate) : (g.modifyStage z f).Staff T := by
  intro id s hs
  rw [stage?_modifyStage] at hs
  split at hs
  next heq =>
    obtain ⟨old, hold, rfl⟩ := Option.map_eq_some_iff.1 hs
    exact hnew old (heq ▸ hold)
  · exact h id s hs

/-- Tensors changed where it does not show. -/
theorem All.touchUp {P : Site → Prop} {R : SlotRel} (h : g.All P) (st : Site.Stable P R) (wf : g.WellFormed)
    (hstage : ∀ id, g'.stage? id = g.stage? id) (hedge : ∀ e, g'.edge? e = g.edge? e) (looks : SameLooks g g') :
    g'.All P := by
  intro id site hsite
  have hs := (site_eq_ok.1 hsite).1
  refine h.stay st wf ((hstage id).symm.trans hs) hsite hs fun _ e _ => looks.stays fun d hd => ?_
  rw [target?, hedge]
  exact hd

/-- Tensors of one shape. -/
def SameShape (g : Graph) (d t : DataId) : Prop :=
  ∃ old new, g.data? d = some old ∧ g.data? t = some new ∧ new.desc.dims = old.desc.dims

theorem SameShape.dims_eq {old new : Data} (h : g.SameShape d t) (hold : g.data? d = some old)
    (hnew : g.data? t = some new) : new.desc.dims = old.desc.dims := by
  obtain ⟨old', new', hold', hnew', hdims⟩ := h
  rw [hold, Option.some.injEq] at hold'
  rw [hnew, Option.some.injEq] at hnew'
  rw [hold', hnew', hdims]

/-- A new tensor has the shape of an old one. -/
theorem sameShape_pushData (hnode : g.data? d = some node) (hdims : new.desc.dims = node.desc.dims) :
    (g.pushData new).2.SameShape d (g.pushData new).1 :=
  ⟨node, new, data?_pushData_old hnode, data?_pushData_self new, hdims⟩

/-- The tensors of a graph are still there and have their shapes; there may be more. -/
def KeepsShapes (g g' : Graph) : Prop :=
  ∀ d node, g.data? d = some node → ∃ node', g'.data? d = some node' ∧ node'.desc.dims = node.desc.dims

theorem KeepsLooks.shapes (h : KeepsLooks g g') : KeepsShapes g g' := by
  intro d node hnode
  obtain ⟨node', hnode', hlook⟩ := h d node hnode
  exact ⟨node', hnode', congrArg (·.desc.dims) hlook⟩

theorem SameShape.kept (h : g.SameShape d t) (keeps : KeepsShapes g g') : g'.SameShape d t := by
  obtain ⟨old, new, hold, hnew, hdims⟩ := h
  obtain ⟨old', hold', hdims₁⟩ := keeps d old hold
  obtain ⟨new', hnew', hdims₂⟩ := keeps t new hnew
  exact ⟨old', new', hold', hnew', by rw [hdims₁, hdims₂, hdims]⟩

/-! ## Steps -/

/-- One step of a pass. -/
inductive Rearrange (g : Graph) : Graph → Prop
  /-- A tensor more. -/
  | push {new : Data} : new.Loose → Rearrange g (g.pushData new).2
  /-- A stage more that hands a tensor on. -/
  | relay {template : StageTemplate} {inputs outputs : List DataId} {z : StageId} {g' : Graph} :
      Added g template inputs outputs z g' → template.kind.isRelay → Rearrange g g'
  /-- A reader is led to a tensor of the shape it read. -/
  | readElsewhere {e : EdgeId} {r : Edge} {t : DataId} {g' : Graph} : InputLed g e r t g' → g.SameShape r.data t →
      Rearrange g g'
  /-- A writer is led to a tensor of the shape it wrote. -/
  | writeElsewhere {e : EdgeId} {r : Edge} {t : DataId} {g' : Graph} : OutputLed g e r t g' →
      g.SameShape r.data t → Rearrange g g'
  /-- Another order for a tensor that the caller does not see. -/
  | reorder {d : DataId} {node : Data} {order : Order} {desc : Desc} : g.data? d = some node → node.outer? = none →
      node.desc.setOrder order = .ok desc → Rearrange g (g.modifyData d fun node => { node with desc })
  /-- Tensors changed where it does not show. -/
  | touchUp {g' : Graph} : (∀ id, g'.stage? id = g.stage? id) → (∀ e, g'.edge? e = g.edge? e) → SameFaces g g' →
      (g.InAreas → g'.InAreas) → Rearrange g g'
  /-- Other attributes for a stage that hands a tensor on. -/
  | setAttrs {id : StageId} {attrs : Attrs} :
      (∀ s, g.stage? id = some s → s.kind.isRelay ∨ attrs = s.attrs) → Rearrange g (g.setAttrs id attrs)

namespace Rearrange

theorem sameOutside (h : g.Rearrange g') : SameOutside g g' := by
  cases h with
  | push hnew => exact .pushData hnew
  | relay ha => exact .added ha
  | readElsewhere hl => exact .of_map hl.data? fun _ _ => ⟨rfl, rfl⟩
  | writeElsewhere hl => exact .of_map hl.data? fun _ _ => ⟨rfl, rfl⟩
  | reorder hnode hout =>
    have hunseen := Data.outer?_eq_none.1 hout
    exact ⟨.modifyData hnode hout (Data.outer?_eq_none.2 hunseen), fun h => h.modifyData fun _ hnode => hnode⟩
  | touchUp _ _ hfaces hareas => exact ⟨.of_faces hfaces, hareas⟩
  | setAttrs => exact ⟨.refl, fun h => h⟩

theorem staff {T : StageTemplate → Prop} (hT : ∀ t : StageTemplate, t.kind.isRelay → T t) (h : g.Rearrange g')
    (hg : g.Staff T) : g'.Staff T := by
  cases h with
  | push => exact hg
  | relay ha hkind => exact hg.added ha (hT _ hkind)
  | readElsewhere hl => exact hg.congr hl.stage?
  | writeElsewhere hl => exact hg.congr hl.stage?
  | reorder => exact hg
  | touchUp hstage => exact hg.congr hstage
  | setAttrs hattrs =>
    refine hg.modifyStage fun s hs => ?_
    rcases hattrs s hs with hkind | rfl
    · exact hT _ hkind
    · exact hg _ s hs

theorem keepsShapes (h : g.Rearrange g') : KeepsShapes g g' := by
  cases h with
  | push => exact (keepsLooks_pushData _).shapes
  | relay ha => exact ha.sameLooks.keeps.shapes
  | readElsewhere hl => exact hl.sameLooks.keeps.shapes
  | writeElsewhere hl => exact hl.sameLooks.keeps.shapes
  | touchUp _ _ hfaces => exact hfaces.looks.keeps.shapes
  | setAttrs => exact fun _ node hnode => ⟨node, hnode, rfl⟩
  | reorder hnode _ hdesc =>
    intro x node hx
    rw [data?_modifyData, hx]
    split
    next heq =>
      rw [heq, hnode, Option.some.injEq] at hx
      exact ⟨_, rfl, hx ▸ (Desc.setOrder_eq_ok hdesc).2.1⟩
    · exact ⟨node, rfl, rfl⟩

theorem all {P : Site → Prop} (st : Site.Stable P Look.sized) (hP : ∀ s : Site, s.kind.isRelay → P s)
    (wf : g.WellFormed) (h : g.Rearrange g') (hg : g.All P) : g'.All P := by
  cases h with
  | push => exact hg.pushData st wf _
  | relay ha hkind => exact hg.added st wf ha fun site hsite => hP site ((ha.kind_of_site hsite).1 ▸ hkind)
  | readElsewhere hl hshape => exact hg.inputLed st wf hl fun _ _ => hshape.dims_eq
  | writeElsewhere hl hshape => exact hg.outputLed st wf hl fun _ _ => hshape.dims_eq
  | reorder hnode _ hdesc =>
    refine hg.modifyData st wf fun kind k e id old _ _ hold => ?_
    rw [hnode, Option.some.injEq] at hold
    subst hold
    exact (Desc.setOrder_eq_ok hdesc).2.1
  | touchUp hstage hedge hfaces => exact hg.touchUp st wf hstage hedge hfaces.looks
  | @setAttrs id attrs hattrs =>
    refine hg.modifyStage st wf fun site hsite => ?_
    obtain ⟨old, hold, rfl⟩ := @site_modifyStage g id site (fun s => { s with attrs }) (fun _ => rfl) hsite
    rcases hattrs old.stage (site_eq_ok.1 hold).1 with hkind | rfl
    · exact hP _ hkind
    · exact hg id old hold

end Rearrange

/-! ## Runs -/

/-- One graph comes out of another by steps that start at well-formed graphs. -/
def Rearranged : Graph → Graph → Prop := Relation.ReflTransGen fun g g' => g.WellFormed ∧ g.Rearrange g'

namespace Rearranged

theorem refl : g.Rearranged g := Relation.ReflTransGen.refl

theorem trans (h : g.Rearranged g₁) (h' : g₁.Rearranged g₂) : g.Rearranged g₂ := Relation.ReflTransGen.trans h h'

theorem step (h : g.Rearranged g₁) (wf : g₁.WellFormed) (h' : g₁.Rearrange g₂) : g.Rearranged g₂ :=
  Relation.ReflTransGen.tail h ⟨wf, h'⟩

theorem sameOutside (h : g.Rearranged g') : SameOutside g g' := by
  induction h with
  | refl => exact .refl
  | tail _ hstep ih => exact ih.trans hstep.2.sameOutside

/-- What holds of every relay is kept. -/
theorem staff {T : StageTemplate → Prop} (hT : ∀ t : StageTemplate, t.kind.isRelay → T t) (h : g.Rearranged g')
    (hg : g.Staff T) : g'.Staff T := by
  induction h with
  | refl => exact hg
  | tail _ hstep ih => exact hstep.2.staff hT ih

theorem all {P : Site → Prop} (st : Site.Stable P Look.sized) (hP : ∀ s : Site, s.kind.isRelay → P s)
    (h : g.Rearranged g') (hg : g.All P) : g'.All P := by
  induction h with
  | refl => exact hg
  | tail _ hstep ih => exact hstep.2.all st hP hstep.1 ih

/-! ## Steps that come together -/

variable {g₀ : Graph}

/-- A reader moves to a new tensor. -/
theorem moveToNew (h : g₀.Rearranged g) (wf : g.WellFormed) (hnew : new.Loose)
    (hl : InputLed (g.pushData new).2 e r (g.pushData new).1 g') (hnode : g.data? r.data = some node)
    (hdims : new.desc.dims = node.desc.dims) : g₀.Rearranged g' :=
  (h.step wf (.push hnew)).step (wf.pushData hnew.consumers hnew.producer)
    (.readElsewhere hl (sameShape_pushData hnode hdims))

/-- What an edge wrote is written to a new tensor. -/
theorem divert (h : g₀.Rearranged g) (wf : g.WellFormed) (hnew : new.Loose)
    (hl : OutputLed (g.pushData new).2 e r (g.pushData new).1 g') (hnode : g.data? r.data = some node)
    (hdims : new.desc.dims = node.desc.dims) : g₀.Rearranged g' :=
  (h.step wf (.push hnew)).step (wf.pushData hnew.consumers hnew.producer)
    (.writeElsewhere hl (sameShape_pushData hnode hdims))

/-- A new relay from a tensor into a new one. -/
theorem relayNew (h : g₀.Rearranged g) (wf : g.WellFormed) (hnew : new.Loose)
    (ha : Added (g.pushData new).2 template [d] [(g.pushData new).1] z g') (hkind : template.kind.isRelay) :
    g₀.Rearranged g' :=
  (h.step wf (.push hnew)).step (wf.pushData hnew.consumers hnew.producer) (.relay ha hkind)

/-- A new relay between a tensor and one of its readers. -/
theorem tap (h : g₀.Rearranged g) (wf : g.WellFormed) (hnew : new.Loose)
    (ha : Added (g.pushData new).2 template [d] [(g.pushData new).1] z g₁) (hkind : template.kind.isRelay)
    (hl : InputLed g₁ e r (g.pushData new).1 g') (hr : r.data = d)
    (hnode : g.data? d = some node) (hdims : new.desc.dims = node.desc.dims) : g₀.Rearranged g' := by
  have wf₁ : g₁.WellFormed := (wf.pushData hnew.consumers hnew.producer).added ha (by simp)
  refine (h.relayNew wf hnew ha hkind).step wf₁ (.readElsewhere hl ?_)
  exact hr ▸ (sameShape_pushData hnode hdims).kept ha.sameLooks.keeps.shapes

end Rearranged

end Graph

end NetLower
