/-
Stages in their places.  What a stage needs can be read off its site, so an edit is
judged by what it does to sites: most edits leave a site as it was but for one slot, and
many change nothing that shows.
-/
import NetLower.Proofs.Graph.Splice
import NetLower.Stage.Site

namespace NetLower

/-- What shows of a tensor at a slot. -/
structure Look where
  desc : Desc
  usage : Usage

def Data.look (d : Data) : Look := ⟨d.desc, d.usage⟩

/-- The tensors at the slots of one direction. -/
def Site.slots (s : Site) : EdgeKind → List Data
  | .input => s.inputs
  | .output => s.outputs

/-- How what shows at the slots of a stage may change. -/
abbrev SlotRel := EdgeKind → Nat → Look → Look → Prop

/-- Two sites of one stage whose tensors correspond, slot by slot. -/
structure Site.Like (R : SlotRel) (s s' : Site) : Prop where
  kind : s'.kind = s.kind
  attrs : s'.attrs = s.attrs
  length : ∀ kind, (s'.slots kind).length = (s.slots kind).length
  slot : ∀ kind k d d', (s.slots kind)[k]? = some d → (s'.slots kind)[k]? = some d' → R kind k d.look d'.look

/-- The tensor at a slot of a site, seen from the other site. -/
theorem Site.Like.slot_of {R : SlotRel} {s s' : Site} (h : s.Like R s') {kind : EdgeKind} {k : Nat} {d' : Data}
    (hd' : (s'.slots kind)[k]? = some d') : ∃ d, (s.slots kind)[k]? = some d ∧ R kind k d.look d'.look := by
  obtain ⟨hlt, _⟩ := List.getElem?_eq_some_iff.1 hd'
  rw [h.length] at hlt
  have hd := List.getElem?_eq_getElem hlt
  exact ⟨_, hd, h.slot kind k _ d' hd hd'⟩

/-- A property of sites that survives changes at the slots. -/
structure Site.Stable (P : Site → Prop) (R : SlotRel) : Prop where
  refl : ∀ kind k v, R kind k v v
  closed : ∀ s s', s.Like R s' → P s → P s'

namespace Graph

variable {g g' : Graph} {id : StageId} {s : Stage} {site : Site} {e : EdgeId} {d : DataId} {node : Data}

/-- The tensor an edge leads to. -/
def tensor? (g : Graph) (e : EdgeId) : Option Data := (g.target? e).bind g.data?

theorem tensor?_of_target? (ht : g.target? e = some d) : g.tensor? e = g.data? d := by
  rw [tensor?, ht]
  rfl

theorem tensor?_eq_some : g.tensor? e = some node ↔ ∃ d, g.target? e = some d ∧ g.data? d = some node := by
  rw [tensor?, Option.bind_eq_some_iff]

theorem mem_zip {as : List α} {bs : List β} {a : α} {b : β} :
    (a, b) ∈ as.zip bs ↔ ∃ k : Nat, as[k]? = some a ∧ bs[k]? = some b := by
  simp only [List.mem_iff_getElem?, List.getElem?_zip_eq_some]

theorem fst_zip_sublist : ∀ (as : List α) (bs : List β), ((as.zip bs).map Prod.fst).Sublist as
  | [], _ => List.Sublist.refl _
  | _ :: _, [] => List.nil_sublist _
  | a :: as, _ :: bs => (fst_zip_sublist as bs).cons_cons a

/-! ## The site of a stage -/

theorem mapM_tensor {edges : List EdgeId} {nodes : List Data} :
    (∃ ids, (edges.mapM fun e => do return (← g.edge e).data) = .ok ids ∧ ids.mapM g.data = .ok nodes) ↔
      List.Forall₂ (fun e node => g.tensor? e = some node) edges nodes := by
  simp only [Outcome.mapM_eq_ok, edgeData_eq_ok, data_eq_ok]
  induction edges generalizing nodes with
  | nil => simp
  | cons e edges ih =>
    rw [List.forall₂_cons_left_iff]
    constructor
    · rintro ⟨all, hall, hnodes⟩
      obtain ⟨d, ids, hd, hids, rfl⟩ := List.forall₂_cons_left_iff.1 hall
      obtain ⟨node, rest, hnode, hrest, rfl⟩ := List.forall₂_cons_left_iff.1 hnodes
      exact ⟨node, rest, tensor?_eq_some.2 ⟨d, hd, hnode⟩, ih.1 ⟨ids, hids, hrest⟩, rfl⟩
    · rintro ⟨node, rest, hnode, hrest, rfl⟩
      obtain ⟨d, hd, hnode⟩ := tensor?_eq_some.1 hnode
      obtain ⟨ids, hids, hrest⟩ := ih.2 hrest
      exact ⟨d :: ids, .cons hd hids, .cons hnode hrest⟩

theorem site_eq_ok : g.site id = .ok site ↔ g.stage? id = some site.stage ∧
    ∀ kind, List.Forall₂ (fun e node => g.tensor? e = some node) (site.stage.slots kind) (site.slots kind) := by
  obtain ⟨s, ins, outs⟩ := site
  simp only [Graph.site, inputIds, outputIds, Outcome.bind_eq_ok, Outcome.pure_eq_ok, stage_eq_ok, Site.mk.injEq]
  constructor
  · rintro ⟨_, hs, reads, hreads, _, hins, writes, hwrites, _, houts, rfl, rfl, rfl⟩
    refine ⟨hs, fun kind => ?_⟩
    cases kind with
    | input => exact mapM_tensor.1 ⟨reads, hreads, hins⟩
    | output => exact mapM_tensor.1 ⟨writes, hwrites, houts⟩
  · rintro ⟨hs, hslots⟩
    obtain ⟨reads, hreads, hins⟩ := mapM_tensor.2 (hslots .input)
    obtain ⟨writes, hwrites, houts⟩ := mapM_tensor.2 (hslots .output)
    exact ⟨s, hs, reads, hreads, ins, hins, writes, hwrites, outs, houts, rfl, rfl, rfl⟩

theorem forall₂_getElem? {R : α → β → Prop} {as : List α} {bs : List β} (h : List.Forall₂ R as bs) {k : Nat}
    {a : α} (ha : as[k]? = some a) : ∃ b, bs[k]? = some b ∧ R a b := by
  induction h generalizing k with
  | nil => simp at ha
  | cons hab _ ih =>
    cases k with
    | zero =>
      rw [List.getElem?_cons_zero, Option.some.injEq] at ha
      exact ⟨_, rfl, ha ▸ hab⟩
    | succ k => exact ih ha

/-- The tensors a stage reads are those at its input slots. -/
theorem inputs_of_site {reads : List DataId} (h : g.site id = .ok site)
    (hreads : g.inputIds site.stage = .ok reads) :
    List.Forall₂ (fun d node => g.data? d = some node) reads site.inputs := by
  simp only [Graph.site, Outcome.bind_eq_ok, Outcome.pure_eq_ok, stage_eq_ok] at h
  obtain ⟨s, _, reads', hreads', ins, hins, _, _, _, _, rfl⟩ := h
  rw [hreads, Except.ok.injEq] at hreads'
  subst hreads'
  simpa only [data_eq_ok] using Outcome.mapM_eq_ok.1 hins

/-- The edge at a slot leads to the tensor at the slot. -/
theorem slot_of_site (h : g.site id = .ok site) {kind : EdgeKind} {k : Nat}
    (he : (site.stage.slots kind)[k]? = some e) : (site.slots kind)[k]? = g.tensor? e := by
  obtain ⟨node, hnode, htensor⟩ := forall₂_getElem? ((site_eq_ok.1 h).2 kind) he
  rw [hnode, htensor]

theorem length_of_site (h : g.site id = .ok site) (kind : EdgeKind) :
    (site.slots kind).length = (site.stage.slots kind).length := ((site_eq_ok.1 h).2 kind).length_eq.symm

/-- The tensor at a slot has an edge that leads to it. -/
theorem edge_of_site (h : g.site id = .ok site) {kind : EdgeKind} {k : Nat}
    (hnode : (site.slots kind)[k]? = some node) :
    ∃ e, (site.stage.slots kind)[k]? = some e ∧ g.tensor? e = some node := by
  obtain ⟨hlt, _⟩ := List.getElem?_eq_some_iff.1 hnode
  rw [length_of_site h] at hlt
  have he := List.getElem?_eq_getElem hlt
  exact ⟨_, he, (slot_of_site h he).symm.trans hnode⟩

theorem WellFormed.tensor (wf : g.WellFormed) (hs : g.stage? id = some s) {kind : EdgeKind}
    (he : e ∈ s.slots kind) : ∃ node, g.tensor? e = some node := by
  obtain ⟨k, d, node, _, hedge, hnode⟩ := wf.edge_of_mem hs he
  exact ⟨node, tensor?_eq_some.2 ⟨d, target?_of_edge? hedge, hnode⟩⟩

/-- Every stage of a well-formed graph has a site. -/
theorem WellFormed.site_of_stage (wf : g.WellFormed) (hs : g.stage? id = some s) :
    ∃ site, g.site id = .ok site ∧ site.stage = s := by
  have found {edges : List EdgeId} (h : ∀ e ∈ edges, ∃ node, g.tensor? e = some node) :
      ∃ nodes, List.Forall₂ (fun e node => g.tensor? e = some node) edges nodes := by
    induction edges with
    | nil => exact ⟨[], .nil⟩
    | cons e edges ih =>
      obtain ⟨node, hnode⟩ := h e (by simp)
      obtain ⟨nodes, hnodes⟩ := ih fun x hx => h x (by simp [hx])
      exact ⟨node :: nodes, .cons hnode hnodes⟩
  obtain ⟨ins, hins⟩ := found fun e he => wf.tensor hs (show e ∈ s.slots .input from he)
  obtain ⟨outs, houts⟩ := found fun e he => wf.tensor hs (show e ∈ s.slots .output from he)
  refine ⟨⟨s, ins, outs⟩, site_eq_ok.2 ⟨hs, fun kind => ?_⟩, rfl⟩
  cases kind with
  | input => exact hins
  | output => exact houts

/-- The edge behind a slot, with all it knows. -/
theorem WellFormed.edge_of_slot (wf : g.WellFormed) (h : g.site id = .ok site) {kind : EdgeKind} {k : Nat}
    (hnode : (site.slots kind)[k]? = some node) :
    ∃ e d, (site.stage.slots kind)[k]? = some e ∧ g.edge? e = some ⟨kind, d, id, k⟩ ∧ g.data? d = some node := by
  obtain ⟨e, he, htensor⟩ := edge_of_site h hnode
  obtain ⟨d, _, hedge, _⟩ := wf.slots id site.stage kind k e (site_eq_ok.1 h).1 he
  rw [tensor?_of_target? (target?_of_edge? hedge)] at htensor
  exact ⟨e, d, he, hedge, htensor⟩

/-- The site at the stage end of an edge. -/
theorem WellFormed.slot_of_joins (wf : g.WellFormed) {kind : EdgeKind} (h : g.Joins kind e d)
    (hnode : g.data? d = some node) : ∃ id k site, g.edge? e = some ⟨kind, d, id, k⟩ ∧ g.site id = .ok site ∧
      (site.slots kind)[k]? = some node := by
  obtain ⟨id, s, hs, he, ht⟩ := h
  obtain ⟨k, d', _, hk, hedge, _⟩ := wf.edge_of_mem hs he
  rw [target?_of_edge? hedge, Option.some.injEq] at ht
  change d' = d at ht
  subst ht
  obtain ⟨site, hsite, rfl⟩ := wf.site_of_stage hs
  exact ⟨id, k, site, hedge, hsite,
    by rw [slot_of_site hsite hk, tensor?_of_target? (target?_of_edge? hedge), hnode]⟩

/-- The site of a stage that was changed and kept its edges. -/
theorem site_modifyStage {f : Stage → Stage} (hf : ∀ s, (f s).slots = s.slots)
    (h : (g.modifyStage id f).site id = .ok site) :
    ∃ old, g.site id = .ok old ∧ site = { old with stage := f old.stage } := by
  obtain ⟨hs, hslots⟩ := site_eq_ok.1 h
  rw [stage?_modifyStage, if_pos rfl, Option.map_eq_some_iff] at hs
  obtain ⟨s, hs, hfs⟩ := hs
  refine ⟨{ site with stage := s }, site_eq_ok.2 ⟨hs, fun kind => ?_⟩, by rw [hfs]⟩
  have := hslots kind
  rw [← hfs, hf] at this
  exact this

/-- A stage that keeps its edges has a site like before. -/
theorem WellFormed.site_like {R : SlotRel} {s' : Stage} {site' : Site}
    (wf : g.WellFormed) (hs : g.stage? id = some s) (hsite : g'.site id = .ok site') (hs' : g'.stage? id = some s')
    (hkind : s'.kind = s.kind) (hattrs : s'.attrs = s.attrs) (hslots : s'.slots = s.slots)
    (h : ∀ kind k e node, (s.slots kind)[k]? = some e → g.tensor? e = some node →
      ∃ node', g'.tensor? e = some node' ∧ R kind k node.look node'.look) :
    ∃ site, g.site id = .ok site ∧ site.Like R site' := by
  obtain ⟨site, hold, rfl⟩ := wf.site_of_stage hs
  have hstage := (site_eq_ok.1 hsite).1
  rw [hs', Option.some.injEq] at hstage
  subst hstage
  refine ⟨site, hold, hkind, hattrs, fun kind => ?_, fun kind k d d' hd hd' => ?_⟩
  · rw [length_of_site hsite, length_of_site hold, hslots]
  · obtain ⟨e, he, hnode⟩ := edge_of_site hold hd
    obtain ⟨node', hnode', hR⟩ := h kind k e d he hnode
    rw [slot_of_site hsite (hslots ▸ he), hnode', Option.some.injEq] at hd'
    exact hd' ▸ hR

/-! ## What edits leave alone -/

/-- Two graphs with the same tensors, as far as they show. -/
def SameLooks (g g' : Graph) : Prop := ∀ d, (g'.data? d).map Data.look = (g.data? d).map Data.look

namespace SameLooks

theorem symm (h : SameLooks g g') : SameLooks g' g := fun d => (h d).symm

theorem trans {g'' : Graph} (h : SameLooks g g') (h' : SameLooks g' g'') : SameLooks g g'' :=
  fun d => (h' d).trans (h d)

theorem data_of (h : SameLooks g g') (hd : g.data? d = some node) :
    ∃ node', g'.data? d = some node' ∧ node'.look = node.look := by
  have := h d
  rw [hd, Option.map_some, Option.map_eq_some_iff] at this
  exact this

theorem of_map {f : DataId → Data → Data} (h : ∀ d, g'.data? d = (g.data? d).map (f d))
    (hf : ∀ d node, (f d node).look = node.look) : SameLooks g g' := by
  intro d
  rw [h]
  cases g.data? d with
  | none => rfl
  | some node => exact congrArg some (hf d node)

theorem modifyData {f : Data → Data} (hf : ∀ node, (f node).look = node.look) :
    SameLooks g (g.modifyData d f) := by
  intro x
  rw [data?_modifyData]
  split
  · cases g.data? x with
    | none => rfl
    | some node => exact congrArg some (hf node)
  · rfl

end SameLooks

theorem Added.sameLooks {template : StageTemplate} {inputs outputs : List DataId} {z : StageId}
    (h : Added g template inputs outputs z g') : SameLooks g g' := .of_map h.data? fun _ _ => rfl

theorem Removed.sameLooks {z : StageId} (h : Removed g z s g') : SameLooks g g' := .of_map h.data? fun _ _ => rfl

theorem InputLed.sameLooks {r : Edge} (h : InputLed g e r d g') : SameLooks g g' := .of_map h.data? fun _ _ => rfl

theorem OutputLed.sameLooks {r : Edge} (h : OutputLed g e r d g') : SameLooks g g' :=
  .of_map h.data? fun _ _ => rfl

/-- The tensors of a graph are still there and show the same; there may be more. -/
def KeepsLooks (g g' : Graph) : Prop :=
  ∀ d node, g.data? d = some node → ∃ node', g'.data? d = some node' ∧ node'.look = node.look

theorem KeepsLooks.trans {g'' : Graph} (h : KeepsLooks g g') (h' : KeepsLooks g' g'') : KeepsLooks g g'' := by
  intro d node hnode
  obtain ⟨node', hnode', hlook⟩ := h d node hnode
  obtain ⟨node'', hnode'', hlook'⟩ := h' d node' hnode'
  exact ⟨node'', hnode'', hlook'.trans hlook⟩

theorem keepsLooks_pushData (new : Data) : KeepsLooks g (g.pushData new).2 :=
  fun _ node hnode => ⟨node, data?_pushData_old hnode, rfl⟩

theorem SameLooks.keeps (h : SameLooks g g') : KeepsLooks g g' := fun _ _ hnode => h.data_of hnode

/-- An edge leads to a tensor that shows the same. -/
def Stays (g g' : Graph) (e : EdgeId) : Prop :=
  ∀ node, g.tensor? e = some node → ∃ node', g'.tensor? e = some node' ∧ node'.look = node.look

theorem SameLooks.stays (h : SameLooks g g') (ht : ∀ d, g.target? e = some d → g'.target? e = some d) :
    g.Stays g' e := by
  intro node hnode
  obtain ⟨d, hd, hnode⟩ := tensor?_eq_some.1 hnode
  obtain ⟨node', hnode', hlook⟩ := h.data_of hnode
  exact ⟨node', tensor?_eq_some.2 ⟨d, ht d hd, hnode'⟩, hlook⟩

theorem stays_pushData (new : Data) (e : EdgeId) : g.Stays (g.pushData new).2 e := by
  intro node hnode
  obtain ⟨d, hd, hnode⟩ := tensor?_eq_some.1 hnode
  exact ⟨node, tensor?_eq_some.2 ⟨d, hd, data?_pushData_old hnode⟩, rfl⟩

theorem Added.stays {template : StageTemplate} {inputs outputs : List DataId} {z : StageId}
    (h : Added g template inputs outputs z g') (e : EdgeId) : g.Stays g' e := by
  refine h.sameLooks.stays fun d hd => ?_
  obtain ⟨r, hr, rfl⟩ := Option.map_eq_some_iff.1 hd
  exact target?_of_edge? (h.edge? e r hr)

/-! ## The site of a new stage -/

section added

variable {template : StageTemplate} {inputs outputs : List DataId} {z : StageId}

theorem Added.kind_of_site (h : Added g template inputs outputs z g') (hsite : g'.site z = .ok site) :
    site.kind = template.kind ∧ site.attrs = template.attrs := by
  have hs := (site_eq_ok.1 hsite).1
  rw [h.stage?, if_pos rfl, Option.some.injEq] at hs
  rw [Site.kind, Site.attrs, ← hs]
  exact ⟨rfl, rfl⟩

theorem Added.length_of_site (h : Added g template inputs outputs z g') (hsite : g'.site z = .ok site)
    (kind : EdgeKind) : (site.slots kind).length = (slotsOf inputs outputs kind).length := by
  have hs := (site_eq_ok.1 hsite).1
  rw [h.stage?, if_pos rfl, Option.some.injEq] at hs
  rw [Graph.length_of_site hsite, ← hs]
  cases kind <;> simp [Stage.slots, slotsOf, edgeIds]

/-- The tensors at the slots of a new stage show what they showed before. -/
theorem Added.slot_of_site (h : Added g template inputs outputs z g') (hsite : g'.site z = .ok site)
    {kind : EdgeKind} {k : Nat} (hd : (slotsOf inputs outputs kind)[k]? = some d) :
    ∃ node old, (site.slots kind)[k]? = some node ∧ g.data? d = some old ∧ node.look = old.look := by
  have hmem : d ∈ inputs ++ outputs := by
    have := List.mem_of_getElem? hd
    cases kind <;> simp_all [slotsOf]
  obtain ⟨old, hold⟩ := h.known d hmem
  obtain ⟨node, hnode, hlook⟩ := h.sameLooks.data_of hold
  have hs := (site_eq_ok.1 hsite).1
  rw [h.stage?, if_pos rfl, Option.some.injEq] at hs
  obtain ⟨hlt, _⟩ := List.getElem?_eq_some_iff.1 hd
  have hedge : ∃ e, (site.stage.slots kind)[k]? = some e ∧ g'.target? e = some d := by
    rw [← hs]
    cases kind with
    | input => exact ⟨_, getElem?_edgeIds.2 ⟨hlt, rfl⟩, target?_of_edge? (h.input k d hd)⟩
    | output => exact ⟨_, getElem?_edgeIds.2 ⟨hlt, rfl⟩, target?_of_edge? (h.output k d hd)⟩
  obtain ⟨e, he, ht⟩ := hedge
  exact ⟨node, old, by rw [Graph.slot_of_site hsite he, tensor?_of_target? ht, hnode], hold, hlook⟩

/-- A new stage in a place like that of an old one. -/
theorem Added.site_like {R : SlotRel} {old : Site} (h : Added g template inputs outputs z g')
    (hsite : g'.site z = .ok site) (hkind : template.kind = old.kind) (hattrs : template.attrs = old.attrs)
    (hlen : ∀ kind, (slotsOf inputs outputs kind).length = (old.slots kind).length)
    (hslot : ∀ kind k d x node, (slotsOf inputs outputs kind)[k]? = some d → (old.slots kind)[k]? = some x →
      g.data? d = some node → R kind k x.look node.look) : old.Like R site := by
  obtain ⟨hk, ha⟩ := h.kind_of_site hsite
  refine ⟨hk.trans hkind, ha.trans hattrs, fun kind => (h.length_of_site hsite kind).trans (hlen kind), ?_⟩
  intro kind k x y hx hy
  obtain ⟨hlt, _⟩ := List.getElem?_eq_some_iff.1 hx
  rw [← hlen] at hlt
  have hd := List.getElem?_eq_getElem hlt
  obtain ⟨node, before, hnode, hbefore, hlook⟩ := h.slot_of_site hsite hd
  rw [hy, Option.some.injEq] at hnode
  rw [hnode, hlook]
  exact hslot kind k _ x before hd hx hbefore

/-- The site of a new relay. -/
theorem Added.relay_site {t : DataId} {source target : Data} (h : Added g template [d] [t] z g')
    (hsite : g'.site z = .ok site) (hd : g.data? d = some source) (ht : g.data? t = some target) :
    ∃ x y, site.inputs = [x] ∧ site.outputs = [y] ∧ x.look = source.look ∧ y.look = target.look := by
  obtain ⟨x, _, hx, hold, hxlook⟩ := @Added.slot_of_site g g' site d template [d] [t] z h hsite .input 0 rfl
  obtain ⟨y, _, hy, hold', hylook⟩ := @Added.slot_of_site g g' site t template [d] [t] z h hsite .output 0 rfl
  rw [hd, Option.some.injEq] at hold
  rw [ht, Option.some.injEq] at hold'
  subst hold hold'
  obtain ⟨x', hx'⟩ := List.length_eq_one_iff.1 (h.length_of_site hsite .input)
  obtain ⟨y', hy'⟩ := List.length_eq_one_iff.1 (h.length_of_site hsite .output)
  rw [hx', List.getElem?_cons_zero, Option.some.injEq] at hx
  rw [hy', List.getElem?_cons_zero, Option.some.injEq] at hy
  exact ⟨x, y, hx ▸ hx', hy ▸ hy', hxlook, hylook⟩

end added

/-! ## What holds of every stage -/

/-- Every stage of the graph is in such a place. -/
def All (P : Site → Prop) (g : Graph) : Prop := ∀ id site, g.site id = .ok site → P site

namespace All

variable {P : Site → Prop} {R : SlotRel}

/-- A stage that keeps its edges. -/
theorem carry {s' : Stage} {site' : Site} (h : g.All P) (st : Site.Stable P R) (wf : g.WellFormed)
    (hs : g.stage? id = some s) (hsite : g'.site id = .ok site') (hs' : g'.stage? id = some s')
    (hkind : s'.kind = s.kind) (hattrs : s'.attrs = s.attrs) (hslots : s'.slots = s.slots)
    (hslot : ∀ kind k e node, (s.slots kind)[k]? = some e → g.tensor? e = some node →
      ∃ node', g'.tensor? e = some node' ∧ R kind k node.look node'.look) : P site' := by
  obtain ⟨site, hsite₀, like⟩ := wf.site_like hs hsite hs' hkind hattrs hslots hslot
  exact st.closed site site' like (h id site hsite₀)

/-- A stage whose edges stay. -/
theorem stay (h : g.All P) (st : Site.Stable P R) (wf : g.WellFormed) {site' : Site}
    (hs : g.stage? id = some s) (hsite : g'.site id = .ok site') (hs' : g'.stage? id = some s)
    (hstay : ∀ kind, ∀ e ∈ s.slots kind, g.Stays g' e) : P site' := by
  refine h.carry st wf hs hsite hs' rfl rfl rfl fun kind k e node he hnode => ?_
  obtain ⟨node', hnode', hlook⟩ := hstay kind e (List.mem_of_getElem? he) node hnode
  exact ⟨node', hnode', hlook ▸ st.refl kind k _⟩

theorem pushData (h : g.All P) (st : Site.Stable P R) (wf : g.WellFormed) (new : Data) :
    (g.pushData new).2.All P := by
  intro id site hsite
  have hs := (site_eq_ok.1 hsite).1
  exact h.stay st wf hs hsite hs fun _ e _ => stays_pushData new e

theorem added {template : StageTemplate} {inputs outputs : List DataId} {z : StageId} (h : g.All P)
    (st : Site.Stable P R) (wf : g.WellFormed) (ha : Added g template inputs outputs z g')
    (hnew : ∀ site, g'.site z = .ok site → P site) : g'.All P := by
  intro id site hsite
  by_cases hz : id = z
  · exact hnew site (hz ▸ hsite)
  · have hs := (site_eq_ok.1 hsite).1
    have hs₀ := hs
    rw [ha.stage?, if_neg hz] at hs₀
    exact h.stay st wf hs₀ hsite hs fun _ e _ => ha.stays e

theorem removed {z : StageId} (h : g.All P) (st : Site.Stable P R) (wf : g.WellFormed) (hr : Removed g z s g') :
    g'.All P := by
  intro id site hsite
  have hs := (site_eq_ok.1 hsite).1
  have hs₀ := hs
  rw [hr.stage?] at hs₀
  split at hs₀
  · cases hs₀
  · exact h.stay st wf hs₀ hsite hs fun _ e _ => hr.sameLooks.stays fun d hd => (hr.target?_eq e).trans hd

/-- A slot whose edge leads elsewhere. -/
theorem led {r : Edge} (h : g.All P) (st : Site.Stable P R) (wf : g.WellFormed) (hedge : g.edge? e = some r)
    (looks : SameLooks g g') (hstage : ∀ id, g'.stage? id = g.stage? id)
    (htarget : ∀ x, g'.target? x = if x = e then some d else g.target? x)
    (hd : ∃ new, g.data? d = some new)
    (hR : ∀ old new, g.data? r.data = some old → g.data? d = some new → R r.kind r.slot old.look new.look) :
    g'.All P := by
  intro id site hsite
  have hs := (site_eq_ok.1 hsite).1
  have hs₀ := hs
  rw [hstage] at hs₀
  refine h.carry st wf hs₀ hsite hs rfl rfl rfl fun kind k x node hx hnode => ?_
  by_cases hxe : x = e
  · subst hxe
    obtain ⟨d₀, _, hr, _⟩ := wf.slots id site.stage kind k x hs₀ hx
    rw [hedge, Option.some.injEq] at hr
    subst hr
    rw [tensor?_of_target? (target?_of_edge? hedge)] at hnode
    obtain ⟨new, hnew⟩ := hd
    obtain ⟨new', hnew', hlook⟩ := looks.data_of hnew
    refine ⟨new', by rw [tensor?_of_target? (by rw [htarget, if_pos rfl]), hnew'], ?_⟩
    exact hlook ▸ hR node new hnode hnew
  · obtain ⟨node', hnode', hlook⟩ :=
      looks.stays (fun y hy => by rw [htarget, if_neg hxe, hy]) node hnode
    exact ⟨node', hnode', hlook ▸ st.refl kind k _⟩

theorem inputLed {r : Edge} (h : g.All P) (st : Site.Stable P R) (wf : g.WellFormed) (hl : InputLed g e r d g')
    (hR : ∀ old new, g.data? r.data = some old → g.data? d = some new → R .input r.slot old.look new.look) :
    g'.All P :=
  h.led st wf hl.edge hl.sameLooks hl.stage? hl.target? hl.known fun old new ho hn => hl.kind ▸ hR old new ho hn

theorem outputLed {r : Edge} (h : g.All P) (st : Site.Stable P R) (wf : g.WellFormed) (hl : OutputLed g e r d g')
    (hR : ∀ old new, g.data? r.data = some old → g.data? d = some new → R .output r.slot old.look new.look) :
    g'.All P := by
  obtain ⟨node, hnode, _⟩ := hl.known
  exact h.led st wf hl.edge hl.sameLooks hl.stage? hl.target? ⟨node, hnode⟩ fun old new ho hn =>
    hl.kind ▸ hR old new ho hn

/-- A tensor that looks different at every slot it stands at. -/
theorem modifyData {f : Data → Data} (h : g.All P) (st : Site.Stable P R) (wf : g.WellFormed)
    (hR : ∀ kind k e id node, g.Joins kind e d → g.edge? e = some ⟨kind, d, id, k⟩ → g.data? d = some node →
      R kind k node.look (f node).look) : (g.modifyData d f).All P := by
  intro id site hsite
  have hs := (site_eq_ok.1 hsite).1
  refine h.carry st wf hs hsite hs rfl rfl rfl fun kind k e node he hnode => ?_
  obtain ⟨x, hx, hnode⟩ := tensor?_eq_some.1 hnode
  rw [tensor?_of_target? (show (g.modifyData d f).target? e = some x from hx), data?_modifyData, hnode]
  split
  next hxd =>
    subst hxd
    obtain ⟨x', _, hedge, _⟩ := wf.slots id site.stage kind k e hs he
    rw [target?_of_edge? hedge, Option.some.injEq] at hx
    change x' = x at hx
    subst hx
    exact ⟨f node, rfl, hR kind k e id node ⟨id, site.stage, hs, List.mem_of_getElem? he, target?_of_edge? hedge⟩
      hedge hnode⟩
  · exact ⟨node, rfl, st.refl kind k _⟩

/-- A stage that is changed itself. -/
theorem modifyStage {f : Stage → Stage} (h : g.All P) (st : Site.Stable P R) (wf : g.WellFormed)
    (hnew : ∀ site, (g.modifyStage id f).site id = .ok site → P site) : (g.modifyStage id f).All P := by
  intro x site hsite
  by_cases hx : x = id
  · exact hnew site (hx ▸ hsite)
  · have hs := (site_eq_ok.1 hsite).1
    have hs₀ := hs
    rw [stage?_modifyStage, if_neg hx] at hs₀
    exact h.stay st wf hs₀ hsite hs fun _ e _ node hnode => ⟨node, hnode, rfl⟩

end All

end Graph

end NetLower
