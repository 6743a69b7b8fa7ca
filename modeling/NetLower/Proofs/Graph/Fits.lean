/-
Graphs in which every stage is in its proper place and every constant holds the values it
needs, under the edits that passes are made of: a relay before a reader, a relay behind a
writer, and a constant exchanged for another.
-/
import NetLower.Proofs.Graph.Sites
import NetLower.Proofs.Tensor

namespace NetLower

/-- A constant can be counted, and holds as many values as its shape needs. -/
def Data.Stocked (d : Data) : Prop :=
  ∀ content, d.role = .const content → ∃ n, d.desc.total = .ok n ∧ n ≤ content.size

theorem Data.stocked_of_usage {d : Data} (h : d.usage ≠ .const) : d.Stocked := by
  intro content hrole
  simp [Data.usage, hrole, Role.usage] at h

theorem Data.stocked_of_total {d : Data} {content : Array F32} {needed : Nat} (hrole : d.role = .const content)
    (hneeded : d.desc.total = .ok needed) (hle : needed ≤ content.size) : d.Stocked := by
  intro content' hrole'
  rw [hrole, Role.const.injEq] at hrole'
  exact ⟨needed, hneeded, hrole' ▸ hle⟩

/-- A constant in another order still holds the values it needs. -/
theorem Data.Stocked.setOrder {node : Data} {desc : Desc} (h : node.Stocked) (hdims : desc.dims = node.desc.dims) :
    Data.Stocked { node with desc } := by
  intro content hrole
  rw [show ({ node with desc } : Data).desc.total = node.desc.total from Desc.total_congr hdims]
  exact h content hrole

/-- A relay between tensors that look like this. -/
structure Site.Relays (template : StageTemplate) (v w : Look) (s : Site) : Prop where
  kind : s.kind = template.kind
  attrs : s.attrs = template.attrs
  slots : ∃ x y, s.inputs = [x] ∧ s.outputs = [y] ∧ x.look = v ∧ y.look = w

namespace Graph

theorem stocked_intermediate (name : String) (desc : Desc) : (intermediate name desc).Stocked := nofun

/-- Every stage is in such a place, and every constant holds enough values. -/
structure Fits (P : Site → Prop) (g : Graph) : Prop where
  all : g.All P
  stocked : ∀ d node, g.data? d = some node → node.Stocked

namespace Fits

variable {g g' g₁ g₂ : Graph} {P : Site → Prop} {R : SlotRel} {d : DataId} {e : EdgeId} {r : Edge} {z : StageId}
  {template : StageTemplate} {new node : Data}

theorem stocked_of_map {f : DataId → Data → Data} (h : g.Fits P) (hmap : ∀ d, g'.data? d = (g.data? d).map (f d))
    (hf : ∀ d node, node.Stocked → (f d node).Stocked) : ∀ d node, g'.data? d = some node → node.Stocked := by
  intro d node hnode
  rw [hmap, Option.map_eq_some_iff] at hnode
  obtain ⟨old, hold, rfl⟩ := hnode
  exact hf d old (h.stocked d old hold)

theorem pushData (h : g.Fits P) (st : Site.Stable P R) (wf : g.WellFormed) (hnew : new.Stocked) :
    (g.pushData new).2.Fits P := by
  refine ⟨h.all.pushData st wf new, fun d node hnode => ?_⟩
  rw [data?_pushData] at hnode
  split at hnode
  · cases hnode
    exact hnew
  · exact h.stocked d node hnode

theorem added {inputs outputs : List DataId} (h : g.Fits P) (st : Site.Stable P R) (wf : g.WellFormed)
    (ha : Added g template inputs outputs z g') (hnew : ∀ site, g'.site z = .ok site → P site) : g'.Fits P :=
  ⟨h.all.added st wf ha hnew, h.stocked_of_map ha.data? fun _ _ h => h⟩

theorem removed {s : Stage} (h : g.Fits P) (st : Site.Stable P R) (wf : g.WellFormed) (hr : Removed g z s g') :
    g'.Fits P := ⟨h.all.removed st wf hr, h.stocked_of_map hr.data? fun _ _ h => h⟩

theorem inputLed (h : g.Fits P) (st : Site.Stable P R) (wf : g.WellFormed) (hl : InputLed g e r d g')
    (hR : ∀ old new, g.data? r.data = some old → g.data? d = some new → R .input r.slot old.look new.look) :
    g'.Fits P := ⟨h.all.inputLed st wf hl hR, h.stocked_of_map hl.data? fun _ _ h => h⟩

theorem outputLed (h : g.Fits P) (st : Site.Stable P R) (wf : g.WellFormed) (hl : OutputLed g e r d g')
    (hR : ∀ old new, g.data? r.data = some old → g.data? d = some new → R .output r.slot old.look new.look) :
    g'.Fits P := ⟨h.all.outputLed st wf hl hR, h.stocked_of_map hl.data? fun _ _ h => h⟩

theorem modifyData {f : Data → Data} (h : g.Fits P) (st : Site.Stable P R) (wf : g.WellFormed)
    (hR : ∀ kind k e id node, g.Joins kind e d → g.edge? e = some ⟨kind, d, id, k⟩ → g.data? d = some node →
      R kind k node.look (f node).look)
    (hf : ∀ node, g.data? d = some node → node.Stocked → (f node).Stocked) : (g.modifyData d f).Fits P := by
  refine ⟨h.all.modifyData st wf hR, fun x node hnode => ?_⟩
  rw [data?_modifyData] at hnode
  split at hnode
  next hx =>
    subst hx
    obtain ⟨old, hold, rfl⟩ := Option.map_eq_some_iff.1 hnode
    exact hf old hold (h.stocked x old hold)
  · exact h.stocked x node hnode

/-- A tensor that is changed where it does not show. -/
theorem touchUp {f : Data → Data} (h : g.Fits P) (st : Site.Stable P R) (wf : g.WellFormed)
    (hf : ∀ node, (f node).desc = node.desc ∧ (f node).role = node.role) : (g.modifyData d f).Fits P := by
  refine h.modifyData st wf (fun kind k _ _ node _ _ _ => ?_) fun node _ hstocked => ?_
  · rw [show (f node).look = node.look by rw [Data.look, Data.usage, (hf node).1, (hf node).2]; rfl]
    exact st.refl kind k _
  · rw [Data.Stocked, (hf node).1, (hf node).2]
    exact hstocked

theorem modifyStage {id : StageId} {f : Stage → Stage} (h : g.Fits P) (st : Site.Stable P R) (wf : g.WellFormed)
    (hnew : ∀ site, (g.modifyStage id f).site id = .ok site → P site) : (g.modifyStage id f).Fits P :=
  ⟨h.all.modifyStage st wf hnew, h.stocked⟩

/-- A new relay between two tensors. -/
theorem addRelay {source target : DataId} {x y : Data} (h : g.Fits P) (st : Site.Stable P R) (wf : g.WellFormed)
    (ha : Added g template [source] [target] z g') (hsource : g.data? source = some x)
    (htarget : g.data? target = some y) (hP : ∀ site, site.Relays template x.look y.look → P site) :
    g'.Fits P := by
  refine h.added st wf ha fun site hsite => hP site ?_
  obtain ⟨hkind, hattrs⟩ := ha.kind_of_site hsite
  exact ⟨hkind, hattrs, ha.relay_site hsite hsource htarget⟩

/-- A new relay between a tensor and one of its readers. -/
theorem tap (h : g.Fits P) (st : Site.Stable P R) (wf : g.WellFormed) (hc : new.consumers = [])
    (hp : new.producer = none) (hnew : new.Stocked) (hnode : g.data? d = some node)
    (ha : Added (g.pushData new).2 template [d] [(g.pushData new).1] z g₁)
    (hl : InputLed g₁ e r (g.pushData new).1 g') (hr : r.data = d)
    (hP : ∀ site, site.Relays template node.look new.look → P site)
    (hR : R .input r.slot node.look new.look) : g'.Fits P := by
  have wf₁ : (g.pushData new).2.WellFormed := wf.pushData hc hp
  have h₁ := (h.pushData st wf hnew).addRelay st wf₁ ha (data?_pushData_old hnode) (data?_pushData_self new) hP
  refine h₁.inputLed st (wf₁.added ha (by simp)) hl fun x y hx hy => ?_
  obtain ⟨x', hx', hxlook⟩ := ha.sameLooks.data_of (data?_pushData_old hnode)
  obtain ⟨y', hy', hylook⟩ := ha.sameLooks.data_of (@data?_pushData_self g new)
  rw [hr, hx', Option.some.injEq] at hx
  rw [hy', Option.some.injEq] at hy
  rw [← hx, ← hy, hxlook, hylook]
  exact hR

/-- A reader of a tensor moves to a new one. -/
theorem moveToNew (h : g.Fits P) (st : Site.Stable P R) (wf : g.WellFormed) (hc : new.consumers = [])
    (hp : new.producer = none) (hnew : new.Stocked) (hl : InputLed (g.pushData new).2 e r (g.pushData new).1 g')
    (hnode : g.data? r.data = some node) (hR : R .input r.slot node.look new.look) : g'.Fits P := by
  refine (h.pushData st wf hnew).inputLed st (wf.pushData hc hp) hl fun x y hx hy => ?_
  rw [data?_pushData_old hnode, Option.some.injEq] at hx
  rw [data?_pushData_self, Option.some.injEq] at hy
  rw [← hx, ← hy]
  exact hR

/-- What an edge wrote is written to a new tensor. -/
theorem divert (h : g.Fits P) (st : Site.Stable P R) (wf : g.WellFormed) (hc : new.consumers = [])
    (hp : new.producer = none) (hnew : new.Stocked) (hnode : g.data? r.data = some node)
    (hl : OutputLed (g.pushData new).2 e r (g.pushData new).1 g') (hR : R .output r.slot node.look new.look) :
    g'.Fits P ∧ (∃ x, g'.data? r.data = some x ∧ x.look = node.look) ∧
      ∃ y, g'.data? (g.pushData new).1 = some y ∧ y.look = new.look := by
  refine ⟨(h.pushData st wf hnew).outputLed st (wf.pushData hc hp) hl fun x y hx hy => ?_,
    hl.sameLooks.data_of (data?_pushData_old hnode), hl.sameLooks.data_of (@data?_pushData_self g new)⟩
  rw [data?_pushData_old hnode, Option.some.injEq] at hx
  rw [data?_pushData_self, Option.some.injEq] at hy
  rw [← hx, ← hy]
  exact hR

end Fits

/-! ## Stages that are changed right after they were added -/

theorem Added.modifyStage {g g' : Graph} {template template' : StageTemplate} {inputs outputs : List DataId}
    {z : StageId} {f : Stage → Stage} (h : Added g template inputs outputs z g')
    (hf : ∀ ins outs, f { template with inputs := ins, outputs := outs } =
      { template' with inputs := ins, outputs := outs }) :
    Added g template' inputs outputs z (g'.modifyStage z f) := by
  refine ⟨h.known, h.writable, h.id, (Array.size_modify ..).trans h.size, fun id => ?_, h.edge?, h.input,
    h.output, h.data?⟩
  rw [stage?_modifyStage, h.stage?]
  split
  · rw [Option.map_some, hf]
  · rfl

theorem Added.setAttr {g g' g₁ : Graph} {template : StageTemplate} {inputs outputs : List DataId} {z : StageId}
    {key : AttrKey} {value : AttrValue} (h : Added g template inputs outputs z g₁)
    (hset : g₁.setAttr z key value = .ok g') :
    ∃ attrs, template.attrs.set key value = .ok attrs ∧ Added g { template with attrs } inputs outputs z g' := by
  simp only [Graph.setAttr, Outcome.bind_eq_ok, Outcome.pure_eq_ok, stage_eq_ok] at hset
  obtain ⟨s, hs, attrs, hattrs, rfl⟩ := hset
  rw [h.stage?, if_pos rfl, Option.some.injEq] at hs
  exact ⟨attrs, by rw [← hattrs, ← hs], h.modifyStage fun _ _ => rfl⟩

end Graph

end NetLower
