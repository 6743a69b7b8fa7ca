/-
The strides of tensors meet what stages ask for.  A tensor that has been settled covers every
wish at its edges: wishes that agree are merged, and an edge with any other wish is led to a
tensor of its own.  The final layout moves only readers of weights, which want them dense,
to tensors of which nothing is asked, and these are dense.
-/
import NetLower.Proofs.Pass.Memory
import NetLower.Proofs.Pass.Strides
import NetLower.Proofs.Pass.StridesAsked
import NetLower.Proofs.Progress
import NetLower.Proofs.Tensor.Rules

namespace NetLower

namespace Data

/-- What a tensor is used for, and what is asked of its strides. -/
def terms (d : Data) : Usage × StrideReq := (d.usage, d.req)

/-- The tensor has strides, and in bytes they are what a requirement says. -/
def Meets (d : Data) (req : StrideReq) : Prop := ∃ strides, d.strides = some strides ∧ d.desc.Meets strides req

theorem Strided.meets {d : Data} {req : StrideReq} (h : d.Strided) (hserves : d.req.Serves req) : d.Meets req := by
  obtain ⟨strides, hstrides, hd⟩ := h
  exact ⟨strides, hd, Desc.meets_of_strides hstrides hserves⟩

end Data

/-- Every tensor of the stage has the strides that the stage asks for. -/
def Site.StridesMet (s : Site) : Prop :=
  ∃ report, s.kind.family.strides s = .ok report ∧
    ∀ (kind : EdgeKind) (k : Nat) (req : StrideReq) (d : Data), (report.slots kind)[k]? = some (some req) →
      (s.slots kind)[k]? = some d → d.usage ≠ .fake → d.Meets req

namespace Graph

variable {g₀ g g' : Graph} {reqs : EdgeReqs} {e : EdgeId} {r : Edge} {d t : DataId} {node new : Data} {z : StageId}
  {template : StageTemplate} {inputs outputs : List DataId} {current current' : StrideReq} {rest : List DataId}

/-! ## What edits keep -/

/-- Two graphs with the same tensors, as far as their use and their requirements go. -/
def SameTerms (g g' : Graph) : Prop := ∀ d, (g'.data? d).map Data.terms = (g.data? d).map Data.terms

namespace SameTerms

theorem of_map {f : DataId → Data → Data} (h : ∀ d, g'.data? d = (g.data? d).map (f d))
    (hf : ∀ d node, (f d node).terms = node.terms) : SameTerms g g' := by
  intro d
  rw [h]
  cases g.data? d with
  | none => rfl
  | some node => exact congrArg some (hf d node)

theorem modifyData {f : Data → Data} (hf : ∀ node, (f node).terms = node.terms) :
    SameTerms g (g.modifyData d f) := by
  intro x
  rw [data?_modifyData]
  split
  · cases g.data? x with
    | none => rfl
    | some node => exact congrArg some (hf node)
  · rfl

theorem symm (h : SameTerms g g') : SameTerms g' g := fun d => (h d).symm

theorem data_of (h : SameTerms g g') (hnode : g.data? d = some node) :
    ∃ node', g'.data? d = some node' ∧ node'.usage = node.usage ∧ node'.req = node.req := by
  have hd := h d
  rw [hnode, Option.map_some, Option.map_eq_some_iff] at hd
  obtain ⟨node', hnode', hterms⟩ := hd
  exact ⟨node', hnode', congrArg Prod.fst hterms, congrArg Prod.snd hterms⟩

end SameTerms

theorem joins_of_stages {kind : EdgeKind} (hstage : ∀ id, g'.stage? id = g.stage? id)
    (ht : g'.target? e = g.target? e) : g'.Joins kind e d ↔ g.Joins kind e d := by
  simp only [Joins, hstage, ht]

/-! ## Wishes that are granted -/

/-- A stage asks something of a tensor. -/
structure Asks (reqs : EdgeReqs) (g : Graph) (e : EdgeId) (t : DataId) (node : Data) (req : StrideReq) : Prop where
  asked : reqs[e.index]?.join = some req
  joins : ∃ kind, g.Joins kind e t
  data : g.data? t = some node
  real : node.usage ≠ .fake

/-- While strides are settled: `P` holds of every wish and what is asked of its tensor so far, and
apart from the tensors still to come what the network itself needs is dense. -/
structure Measuring (g₀ : Graph) (reqs : EdgeReqs) (P : EdgeId → DataId → StrideReq → StrideReq → Prop)
    (rest : List DataId) (g : Graph) : Prop where
  stages : ∀ {id s}, g.stage? id = some s → g₀.stage? id = some s ∨ s.kind = .copy
  heard : ∀ {e req}, reqs[e.index]?.join = some req → ∃ id s kind k, g.stage? id = some s ∧
    (s.slots kind)[k]? = some e ∧ (k = 0 ∨ req = .compact)
  dense : ∀ {t node}, g₀.data? t = some node → ∃ node', g.data? t = some node' ∧ node'.usage = node.usage ∧
    (usageReq node.usage = .compact → t ∈ rest ∨ node'.req = .compact)
  grants : ∀ {e t node req}, Asks reqs g e t node req → P e t node.req req

namespace Measuring

variable {P P' : EdgeId → DataId → StrideReq → StrideReq → Prop}

theorem imp (m : Measuring g₀ reqs P rest g)
    (h : ∀ {e t node req}, Asks reqs g e t node req → P e t node.req req → P' e t node.req req) :
    Measuring g₀ reqs P' rest g :=
  ⟨m.stages, m.heard, m.dense, fun hasks => h hasks (m.grants hasks)⟩

theorem heard_extends (m : Measuring g₀ reqs P rest g) (h : g.Extends g') {e : EdgeId} {req : StrideReq}
    (hreq : reqs[e.index]?.join = some req) : ∃ id s kind k, g'.stage? id = some s ∧
      (s.slots kind)[k]? = some e ∧ (k = 0 ∨ req = .compact) := by
  obtain ⟨id, s, kind, k, hs, he, hk⟩ := m.heard hreq
  obtain ⟨s', hs', hslots⟩ := h id s hs
  exact ⟨id, s', kind, k, hs', hslots ▸ he, hk⟩

theorem dense_terms (m : Measuring g₀ reqs P rest g) (h : SameTerms g g') (hnode : g₀.data? t = some node) :
    ∃ node', g'.data? t = some node' ∧ node'.usage = node.usage ∧
      (usageReq node.usage = .compact → t ∈ rest ∨ node'.req = .compact) := by
  obtain ⟨x, hx, hu, hdense⟩ := m.dense hnode
  obtain ⟨y, hy, hu', hreq⟩ := h.data_of hx
  exact ⟨y, hy, hu'.trans hu, fun husage => hreq ▸ hdense husage⟩

theorem pushData (m : Measuring g₀ reqs P rest g) (wf : g.WellFormed) (new : Data) :
    Measuring g₀ reqs P rest (g.pushData new).2 := by
  refine ⟨m.stages, m.heard, fun hnode => ?_, fun {e t node req} hasks => ?_⟩
  · obtain ⟨x, hx, hdense⟩ := m.dense hnode
    exact ⟨x, data?_pushData_old hx, hdense⟩
  · -- No edge leads to the new tensor.
    obtain ⟨kind, hjoins⟩ := hasks.joins
    have hjoins := joins_pushData.1 hjoins
    obtain ⟨x, hx⟩ := wf.data_of_joins hjoins
    have hnode := hasks.data
    rw [data?_pushData_old hx, Option.some.injEq] at hnode
    exact m.grants ⟨hasks.asked, ⟨kind, hjoins⟩, hnode ▸ hx, hasks.real⟩

theorem added (m : Measuring g₀ reqs P rest g) (wf : g.WellFormed) (ha : Added g template inputs outputs z g')
    (hkind : template.kind = .copy) : Measuring g₀ reqs P rest g' := by
  have terms : SameTerms g g' := .of_map ha.data? fun _ _ => rfl
  refine ⟨fun {id s} hs => ?_, m.heard_extends ha.extends, m.dense_terms terms, fun {e t node req} hasks => ?_⟩
  · rw [ha.stage?] at hs
    split at hs
    · cases hs
      exact .inr hkind
    · exact m.stages hs
  · obtain ⟨kind, hjoins⟩ := hasks.joins
    obtain ⟨x, hx, hu, hreq⟩ := terms.symm.data_of hasks.data
    rw [← hreq]
    rcases (ha.joins wf).1 hjoins with hjoins | hnew
    · exact m.grants ⟨hasks.asked, ⟨kind, hjoins⟩, hx, hu ▸ hasks.real⟩
    · -- A new edge has no wish.
      obtain ⟨_, _, _, _, hs, he, _⟩ := m.heard hasks.asked
      obtain ⟨_, _, _, _, hr, _⟩ := wf.edge_of_mem hs (List.mem_of_getElem? he)
      have := lt_of_edge? hr
      have := lt_of_mem_newEdges hnew
      omega

/-- An edge is led to another tensor. -/
theorem led (m : Measuring g₀ reqs P rest g) (hstage : ∀ id, g'.stage? id = g.stage? id)
    (htarget : ∀ y, g'.target? y = if y = e then some t else g.target? y) (terms : SameTerms g g')
    (hnew : ∀ {node req}, g.data? t = some node → reqs[e.index]?.join = some req → P' e t node.req req)
    (hold : ∀ {y t' held req}, y ≠ e → P y t' held req → P' y t' held req) : Measuring g₀ reqs P' rest g' := by
  refine ⟨fun hs => m.stages (hstage _ ▸ hs), m.heard_extends fun id s hs => ⟨s, (hstage id).trans hs, rfl⟩,
    m.dense_terms terms, fun {y t' node req} hasks => ?_⟩
  obtain ⟨kind, hjoins⟩ := hasks.joins
  obtain ⟨x, hx, hu, hreq⟩ := terms.symm.data_of hasks.data
  rw [← hreq]
  by_cases hy : y = e
  · subst hy
    have ht := hjoins.target
    rw [htarget, if_pos rfl, Option.some.injEq] at ht
    subst ht
    exact hnew hx hasks.asked
  · have hjoins := (joins_of_stages hstage (by rw [htarget, if_neg hy])).1 hjoins
    exact hold hy (m.grants ⟨hasks.asked, ⟨kind, hjoins⟩, hx, hu ▸ hasks.real⟩)

/-- Changes that touch neither edges nor requirements. -/
theorem touchUp (m : Measuring g₀ reqs P rest g) {f : Data → Data} (hf : ∀ node, (f node).terms = node.terms) :
    Measuring g₀ reqs P rest (g.modifyData d f) := by
  have terms : SameTerms g (g.modifyData d f) := .modifyData hf
  refine ⟨m.stages, m.heard, m.dense_terms terms, fun hasks => ?_⟩
  obtain ⟨x, hx, hu, hreq⟩ := terms.symm.data_of hasks.data
  rw [← hreq]
  exact m.grants ⟨hasks.asked, hasks.joins, hx, hu ▸ hasks.real⟩

end Measuring

/-! ## One tensor -/

/-- Between two tensors: those settled cover every wish at their edges. -/
def Left (rest : List DataId) (_ : EdgeId) (t : DataId) (held req : StrideReq) : Prop := t ∈ rest ∨ held.Covers req

/-- While one tensor is settled: what is asked of it so far covers the wishes at its edges, apart
from those edges still to come. -/
def Pending (d : DataId) (rest : List DataId) (current : StrideReq) (edges : List EdgeId) (e : EdgeId) (t : DataId)
    (held req : StrideReq) : Prop :=
  if t = d then e ∈ edges ∨ current.Covers req else t ∈ rest ∨ held.Covers req

namespace Measuring

theorem start (m : Measuring g₀ reqs (Left (d :: rest)) (d :: rest) g) (wf : g.WellFormed)
    (hnode : g.data? d = some node) (current : StrideReq) :
    Measuring g₀ reqs (Pending d rest current (node.producer.toList ++ node.consumers)) (d :: rest) g := by
  refine m.imp fun {e t x req} hasks hleft => ?_
  unfold Pending
  split
  next ht =>
    subst ht
    obtain ⟨kind, hjoins⟩ := hasks.joins
    cases kind with
    | input => simp [(wf.consumers t node e hnode).2 hjoins]
    | output => simp [(wf.producer t node e hnode).2 hjoins]
  next ht => exact hleft.imp_left fun hmem => (List.mem_cons.1 hmem).resolve_left ht

/-- An edge is done with once its wish is covered, or where it has none. -/
theorem covered {edges : List EdgeId} (m : Measuring g₀ reqs (Pending d rest current (e :: edges)) (d :: rest) g)
    (hcurrent : current'.Covers current) (hwish : ∀ {req}, reqs[e.index]?.join = some req → current'.Covers req) :
    Measuring g₀ reqs (Pending d rest current' edges) (d :: rest) g := by
  refine m.imp fun {x t node req} hasks hpending => ?_
  unfold Pending at hpending ⊢
  split at hpending
  next ht =>
    rw [if_pos ht]
    rcases hpending with hmem | hcovers
    · rcases List.mem_cons.1 hmem with rfl | hmem
      · exact .inr (hwish hasks.asked)
      · exact .inl hmem
    · exact .inr (hcurrent.trans hcovers)
  next ht =>
    rw [if_neg ht]
    exact hpending

/-- An edge is done with once it leads to another tensor, of which its wish is asked. -/
theorem diverted {edges : List EdgeId} {req : StrideReq}
    (m : Measuring g₀ reqs (Pending d rest current (e :: edges)) (d :: rest) g)
    (hstage : ∀ id, g'.stage? id = g.stage? id)
    (htarget : ∀ y, g'.target? y = if y = e then some t else g.target? y) (terms : SameTerms g g') (hne : t ≠ d)
    (hwish : reqs[e.index]?.join = some req) (hnode : g.data? t = some node) (hreq : node.req = req) :
    Measuring g₀ reqs (Pending d rest current edges) (d :: rest) g' := by
  refine m.led hstage htarget terms (fun {x req'} hx hwish' => ?_) fun {y t' held req'} hy hpending => ?_
  · rw [hnode, Option.some.injEq] at hx
    rw [hwish, Option.some.injEq] at hwish'
    rw [Pending, if_neg hne, ← hx, hreq, hwish']
    exact .inr .refl
  · unfold Pending at hpending ⊢
    split at hpending
    next ht =>
      rw [if_pos ht]
      exact hpending.imp_left fun hmem => (List.mem_cons.1 hmem).resolve_left hy
    next ht =>
      rw [if_neg ht]
      exact hpending

theorem meetWriter {changed : Bool}
    (m : Measuring g₀ reqs (Pending d rest current (node.producer.toList ++ node.consumers)) (d :: rest) g)
    (o : g.Orderly) (hnode : g.data? d = some node)
    (h : g.meetWriter reqs d current = .ok (current', g', changed)) :
    Measuring g₀ reqs (Pending d rest current' node.consumers) (d :: rest) g' ∧ current'.Covers current := by
  have wf := o.wellFormed
  have pending {edge : EdgeId} (hproducer : node.producer = some edge) :
      Measuring g₀ reqs (Pending d rest current (edge :: node.consumers)) (d :: rest) g := by
    rw [hproducer] at m
    exact m
  cases meetWriter_eq_ok h with
  | silent hsilent =>
    refine ⟨?_, .refl⟩
    cases hproducer : node.producer with
    | none =>
      rw [hproducer] at m
      exact m
    | some edge =>
      refine (pending hproducer).covered .refl fun hwish => ?_
      rw [hsilent node edge hnode hproducer] at hwish
      cases hwish
  | @merged node' edge req merged hnode' hproducer hwish hmerge =>
    rw [hnode, Option.some.injEq] at hnode'
    subst hnode'
    obtain ⟨hcurrent, hreq⟩ := StrideReq.covers_of_merge hmerge
    refine ⟨(pending hproducer).covered hcurrent fun hwish' => ?_, hcurrent⟩
    rw [hwish, Option.some.injEq] at hwish'
    exact hwish' ▸ hreq
  | @staged node' new edge req r name z g₁ _ hnode' hproducer hwish hc hp hlook hreq _ hled hadd =>
    rw [hnode, Option.some.injEq] at hnode'
    subst hnode'
    obtain ⟨b, s, hs, he, ht⟩ := (wf.producer d node edge hnode).1 hproducer
    obtain ⟨wf₁, _, _⟩ := o.divert hc hp (.inr (congrArg Look.usage hlook)) hled hs he
    have hne : (g.pushData new).1 ≠ d := (ne_pushData hnode).symm
    have m₁ := ((pending hproducer).pushData wf new).diverted hled.stage? hled.target?
      (.of_map hled.data? fun _ _ => rfl) hne hwish (data?_pushData_self new) hreq
    exact ⟨m₁.added wf₁ hadd rfl, .refl⟩

theorem meetReader {changed : Bool} {index : Nat} {edges : List EdgeId}
    (m : Measuring g₀ reqs (Pending d rest current (e :: edges)) (d :: rest) g) (wf : g.WellFormed)
    (h : Graph.meetReader reqs d (current, g) (e, index) = .ok ((current', g'), changed)) :
    Measuring g₀ reqs (Pending d rest current' edges) (d :: rest) g' ∧ current'.Covers current := by
  cases meetReader_eq_ok h with
  | silent hsilent =>
    refine ⟨m.covered .refl fun hwish => ?_, .refl⟩
    rw [hsilent] at hwish
    cases hwish
  | @merged req merged hwish hmerge =>
    obtain ⟨hcurrent, hreq⟩ := StrideReq.covers_of_merge hmerge
    refine ⟨m.covered hcurrent fun hwish' => ?_, hcurrent⟩
    rw [hwish, Option.some.injEq] at hwish'
    exact hwish' ▸ hreq
  | @copied node new req r name z g₁ _ hwish _ hnode hc hp hlook hreq _ hadd hled =>
    have hne : (g.pushData new).1 ≠ d := (ne_pushData hnode).symm
    have terms : SameTerms (g.pushData new).2 g₁ := .of_map hadd.data? fun _ _ => rfl
    obtain ⟨x, hx, _, hreq'⟩ := terms.data_of (data?_pushData_self new)
    have m₁ := (m.pushData wf new).added (wf.pushData hc hp) hadd rfl
    exact ⟨m₁.diverted hled.stage? hled.target? (.of_map hled.data? fun _ _ => rfl) hne hwish hx
      (hreq'.trans hreq), .refl⟩

/-- Once no edge is left, what was found is asked of the tensor. -/
theorem finish (m : Measuring g₀ reqs (Pending d rest current []) (d :: rest) g)
    (hcurrent : ∀ {node}, g₀.data? d = some node → usageReq node.usage = .compact → current = .compact) :
    Measuring g₀ reqs (Left rest) rest (g.setReq d current) := by
  refine ⟨m.stages, m.heard, fun {t node} hnode => ?_, fun {e t node req} hasks => ?_⟩
  · obtain ⟨x, hx, hu, hdense⟩ := m.dense hnode
    rw [Graph.setReq, data?_modifyData, hx]
    by_cases ht : t = d
    · subst ht
      rw [if_pos rfl]
      exact ⟨_, rfl, hu, fun husage => .inr (hcurrent hnode husage)⟩
    · rw [if_neg ht]
      exact ⟨x, rfl, hu, fun husage => (hdense husage).imp_left fun hmem => (List.mem_cons.1 hmem).resolve_left ht⟩
  · have hnode := hasks.data
    rw [Graph.setReq, data?_modifyData] at hnode
    by_cases ht : t = d
    · subst ht
      rw [if_pos rfl, Option.map_eq_some_iff] at hnode
      obtain ⟨x, hx, rfl⟩ := hnode
      have hpending := m.grants ⟨hasks.asked, hasks.joins, hx, hasks.real⟩
      rw [Pending, if_pos rfl] at hpending
      exact .inr (hpending.resolve_left (by simp))
    · rw [if_neg ht] at hnode
      have hpending := m.grants ⟨hasks.asked, hasks.joins, hnode, hasks.real⟩
      rwa [Pending, if_neg ht] at hpending

theorem resolveStrides {changed : Bool} (m : Measuring g₀ reqs (Left (d :: rest)) (d :: rest) g) (o : g.Orderly)
    (h : g.resolveStrides reqs d = .ok (g', changed)) : Measuring g₀ reqs (Left rest) rest g' := by
  simp only [Graph.resolveStrides, Outcome.bind_eq_ok, data_eq_ok] at h
  obtain ⟨node, hnode, h⟩ := h
  split at h
  next hfake =>
    cases h
    refine ⟨m.stages, m.heard, fun {t x} hx => ?_, fun {e t x req} hasks => ?_⟩
    · obtain ⟨y, hy, hu, hdense⟩ := m.dense hx
      refine ⟨y, hy, hu, fun husage => (hdense husage).imp_left fun hmem => (List.mem_cons.1 hmem).resolve_left ?_⟩
      rintro rfl
      rw [hnode, Option.some.injEq] at hy
      rw [← hu, ← hy, hfake] at husage
      exact absurd husage (by decide)
    · refine (m.grants hasks).imp_left fun hmem => (List.mem_cons.1 hmem).resolve_left ?_
      rintro rfl
      have hx := hasks.data
      rw [hnode, Option.some.injEq] at hx
      exact hasks.real (hx ▸ hfake)
  simp only [Outcome.bind_eq_ok, Outcome.pure_eq_ok, Prod.mk.injEq] at h
  obtain ⟨⟨current, g₁, _⟩, hwriter, ⟨⟨current', g₂⟩, _⟩, hreaders, rfl, _⟩ := h
  obtain ⟨m₁, hcovers⟩ := (m.start o.wellFormed hnode _).meetWriter o hnode hwriter
  let I (left : List (EdgeId × Nat)) (state : StrideReq × Graph) : Prop :=
    Reading d (fun _ => True) left state ∧
      Measuring g₀ reqs (Pending d rest state.1 (left.map Prod.fst)) (d :: rest) state.2 ∧
      state.1.Covers (usageReq node.usage)
  have step : ∀ x left state state' changed, I (x :: left) state →
      Graph.meetReader reqs d state x = .ok (state', changed) → I left state' := by
    intro x left state state' changed hI h
    obtain ⟨reading, m, hcovers⟩ := hI
    obtain ⟨m', hcovers'⟩ := m.meetReader reading.orderly.wellFormed h
    exact ⟨reading.step id h, m', hcovers'.trans hcovers⟩
  have first : I node.consumers.zipIdx (current, g₁) := by
    refine ⟨o.reading hnode hwriter trivial, ?_, hcovers⟩
    rw [List.zipIdx_map_fst]
    exact m₁
  obtain ⟨_, m₂, hcovers⟩ := Pass.sweepWith_keeps I step first hreaders
  refine m₂.finish fun {x} hx husage => ?_
  obtain ⟨y, hy, hu, _⟩ := m.dense hx
  rw [hnode, Option.some.injEq] at hy
  rw [hy, hu, husage] at hcovers
  exact hcovers.eq_compact

/-! ## All tensors -/

theorem edgeReqs (wf : g.WellFormed) (h : g.edgeReqs = .ok reqs) :
    Measuring g reqs (Left g.dataIds) g.dataIds g := by
  refine ⟨.inl, fun {e req} hreq => ?_, fun {t node} hnode => ?_, fun {e t node req} hasks => ?_⟩
  · obtain ⟨id, site, report, hsite, hreport, hmem⟩ := (wf.edgeReqs_eq_ok h).2.1 hreq
    obtain ⟨kind, k, he, hwish⟩ := Site.mem_asked.1 hmem
    refine ⟨id, site.stage, kind, k, (site_eq_ok.1 hsite).1, he, ?_⟩
    exact (Site.strides_modest hreport hwish).symm.imp_left And.left
  · exact ⟨node, hnode, rfl, fun _ => .inl (mem_dataIds.2 ⟨node, hnode⟩)⟩
  · exact .inl (mem_dataIds.2 ⟨node, hasks.data⟩)

theorem strides {config : Config} {changed : Bool} (wf : g.WellFormed)
    (h : Pass.strides.run config g = .ok (g', changed)) :
    ∃ reqs, g.edgeReqs = .ok reqs ∧ g'.Orderly ∧ Measuring g reqs (Left []) [] g' := by
  simp only [Pass.strides, Outcome.bind_eq_ok] at h
  obtain ⟨reqs, hreqs, h⟩ := h
  obtain ⟨order, horder, _⟩ := Outcome.bind_eq_ok.1 hreqs
  refine ⟨reqs, hreqs, Pass.sweep_keeps (fun rest x => x.Orderly ∧ Measuring g reqs (Left rest) rest x)
    (fun d rest x x' changed hx h => ?_) ⟨wf.orderly horder, .edgeReqs wf hreqs⟩ h⟩
  exact ⟨hx.1.resolveStrides h, hx.2.resolveStrides hx.1 h⟩

end Measuring

/-! ## The final layout -/

/-- Strides that are computed as asked are what every stage asks for. -/
def Served (_ : EdgeId) (_ : DataId) (held req : StrideReq) : Prop := held.Serves req

namespace Measuring

/-- Only weights are reordered, and these are wanted dense. -/
theorem reorderConst {id : StageId} {order : Order} (m : Measuring g₀ reqs Served [] g) (wf : g.WellFormed)
    (h : g.reorderConst id 1 order = .ok g') : Measuring g₀ reqs Served [] g' := by
  rcases reorderConst_eq_ok h with rfl | ⟨s, e, r, node, desc, hs, he, _, _, _, _,
    ⟨_, rfl⟩ | ⟨content, _, name, r', _, _, hled⟩⟩
  · exact m
  · exact m.touchUp fun _ => rfl
  refine (m.pushData wf _).led hled.stage? hled.target? (.of_map hled.data? fun _ _ => rfl)
    (fun {x req} hx hreq => ?_) fun _ hserves => hserves
  rw [data?_pushData_self, Option.some.injEq] at hx
  subst hx
  obtain ⟨id', s', kind, k, hs', he', hk⟩ := m.heard hreq
  have he₁ : (s.slots .input)[1]? = some e := he
  obtain ⟨rfl, rfl⟩ := wf.owner_unique hs (List.mem_of_getElem? he₁) hs' (List.mem_of_getElem? he')
  rw [hs, Option.some.injEq] at hs'
  subst hs'
  obtain ⟨_, rfl⟩ := wf.slot_unique hs he₁ he'
  rw [hk.resolve_left (by decide)]
  exact StrideReq.empty_serves_compact

theorem finalizeLayoutPass {config : Config} {changed : Bool} (m : Measuring g₀ reqs (Left []) [] g)
    (o : g.Orderly) (h : Pass.finalizeLayout.run config g = .ok (g', changed)) :
    Measuring g₀ reqs Served [] g' := by
  simp only [Pass.finalizeLayout, finalizeStages, Outcome.bind_eq_ok, Outcome.pure_eq_ok, Prod.mk.injEq] at h
  obtain ⟨g₁, ⟨order, _, hstages⟩, g₂, hstrides, rfl, _⟩ := h
  have served : Measuring g₀ reqs Served [] g := m.imp fun _ hleft => (hleft.resolve_left (by simp)).serves
  have m₁ : Measuring g₀ reqs Served [] g₁ := by
    refine (Outcome.foldlM_keeps (fun _ x => x.Orderly ∧ Measuring g₀ reqs Served [] x) (fun id _ x x' hx h => ?_)
      ⟨o, served⟩ hstages).2
    obtain ⟨o, m⟩ := hx
    simp only [Outcome.bind_eq_ok] at h
    obtain ⟨_, _, h⟩ := h
    refine ⟨o.finalizeLayout h, ?_⟩
    rcases finalizeLayout_eq_ok h with rfl | ⟨order, h⟩
    · exact m
    · exact m.reorderConst o.wellFormed h
  refine Outcome.foldlM_keeps (fun _ => Measuring g₀ reqs Served []) (fun d _ x x' m h => ?_) m₁ hstrides
  obtain ⟨_, _, _, _, rfl⟩ := computeStrides_eq_ok h
  exact m.touchUp fun _ => rfl

theorem allocateMemory {config : Config} {changed : Bool} (m : Measuring g₀ reqs P rest g)
    (h : Pass.allocateMemory.run config g = .ok (g', changed)) : Measuring g₀ reqs P rest g' := by
  simp only [Pass.allocateMemory, Outcome.bind_eq_ok, Outcome.pure_eq_ok, Prod.mk.injEq] at h
  obtain ⟨plan, _, rfl, _⟩ := h
  clear * - m
  induction plan generalizing g with
  | nil => exact m
  | cons x plan ih => exact ih (m.touchUp fun _ => rfl)

/-- Every stage gets what it asks for. -/
theorem stridesMet {id : StageId} {s : Stage} (m : Measuring g₀ reqs Served [] g) (wf₀ : g₀.WellFormed)
    (wf : g.WellFormed) (hreqs : g₀.edgeReqs = .ok reqs)
    (hstrided : ∀ d node, g.data? d = some node → node.Strided)
    (hs : g.stage? id = some s) : ∃ site, g.site id = .ok site ∧ site.StridesMet := by
  obtain ⟨site, hsite, rfl⟩ := wf.site_of_stage hs
  refine ⟨site, hsite, ?_⟩
  rcases m.stages hs with hs₀ | hcopy
  · -- A stage from before asks for what it asked for.
    obtain ⟨speak, wishes⟩ := wf₀.edgeReqs_eq_ok hreqs
    obtain ⟨site₀, report, hsite₀, hreport⟩ := speak hs₀
    obtain ⟨x, hx, like⟩ := @WellFormed.site_like g₀ g id site.stage (fun _ _ _ _ => True) site.stage site wf₀ hs₀
      hsite hs rfl rfl rfl fun kind k e node he _ => by
        obtain ⟨node', hnode'⟩ := wf.tensor hs (List.mem_of_getElem? he)
        exact ⟨node', hnode', trivial⟩
    rw [hsite₀, Except.ok.injEq] at hx
    subst hx
    refine ⟨report, by rw [like.kind]; exact Site.strides_congr hreport like,
      fun kind k req node hwish hnode hfake => ?_⟩
    obtain ⟨e, he, htensor⟩ := edge_of_site hsite hnode
    obtain ⟨d, ht, hd⟩ := tensor?_eq_some.1 htensor
    have hstage₀ : site₀.stage = site.stage := by
      have := (site_eq_ok.1 hsite₀).1
      rw [hs₀, Option.some.injEq] at this
      exact this.symm
    have hasked : reqs[e.index]?.join = some req :=
      wishes.2 ⟨id, site₀, report, hsite₀, hreport, Site.mem_asked.2 ⟨kind, k, hstage₀ ▸ he, hwish⟩⟩
    refine (hstrided d node hd).meets
      (m.grants ⟨hasked, ⟨kind, id, site.stage, hs, List.mem_of_getElem? he, ht⟩, hd, hfake⟩)
  · refine ⟨Report.blank site, by rw [show site.kind = .copy from hcopy]; rfl, fun kind k req d hwish _ _ => ?_⟩
    cases kind <;> exact absurd hwish Site.slot_of_blank

/-- The two passes together. -/
theorem layout {g g₁ g' : Graph} {config config' : Config} {changed changed' : Bool} (wf : g.WellFormed)
    (hstrides : Pass.strides.run config g = .ok (g₁, changed))
    (hlayout : Pass.finalizeLayout.run config' g₁ = .ok (g', changed')) :
    ∃ reqs, g.edgeReqs = .ok reqs ∧ g'.WellFormed ∧ Measuring g reqs Served [] g' := by
  obtain ⟨reqs, hreqs, o, m⟩ := Measuring.strides wf hstrides
  exact ⟨reqs, hreqs, (o.finalizeLayoutPass hlayout).wellFormed, m.finalizeLayoutPass o hlayout⟩

end Measuring

/-- Once strides are settled and computed, they are what is asked for. What the caller gives and
gets back and the constants are to be dense; and every stage has, at every slot where there is a
tensor, the strides in bytes that it asks for. Settling them takes a running order and stages that
are no stubs, so neither has to be assumed. -/
theorem WellFormed.strides_met {g g₁ g' : Graph} {config config' : Config} {changed changed' : Bool}
    (wf : g.WellFormed) (hstrides : Pass.strides.run config g = .ok (g₁, changed))
    (hlayout : Pass.finalizeLayout.run config' g₁ = .ok (g', changed')) :
    (∀ d node, g.data? d = some node → node.usage = .input ∨ node.usage = .output ∨ node.usage = .const →
        ∃ node', g'.data? d = some node' ∧ node'.usage = node.usage ∧ node'.req = .compact) ∧
      ∀ id s, g'.stage? id = some s → ∃ site, g'.site id = .ok site ∧ site.StridesMet := by
  obtain ⟨reqs, hreqs, wf', m⟩ := Measuring.layout wf hstrides hlayout
  refine ⟨fun d node hnode hu => ?_, fun id s hs => ?_⟩
  · obtain ⟨node', hnode', husage, hdense⟩ := m.dense hnode
    refine ⟨node', hnode', husage, (hdense ?_).resolve_left (by simp)⟩
    rcases hu with hu | hu | hu <;> rw [hu] <;> rfl
  · exact m.stridesMet wf wf' hreqs (finalizeLayoutPass_strided hlayout).1 hs

end Graph

/-- The hardware asks for aligned rows of the two images, which are given densely. -/
theorem Network.twoImages_strides_met :
    ∃ g g₁ g' : Graph, g.WellFormed ∧ Pass.strides.run {} g = .ok (g₁, true) ∧
      (∃ changed, Pass.finalizeLayout.run {} g₁ = .ok (g', changed)) ∧
      (∀ d node, g.data? d = some node → node.usage = .input ∨ node.usage = .output ∨ node.usage = .const →
        ∃ node', g'.data? d = some node' ∧ node'.usage = node.usage ∧ node'.req = .compact) ∧
      ∀ id s, g'.stage? id = some s → ∃ site, g'.site id = .ok site ∧ site.StridesMet := by
  have hall : (do
      let g ← Pass.runAll {} Pass.front (← twoImages.graph {})
      let real ← Pass.replaceStubs.run {} g
      let ordered ← Pass.dataOrder.run {} real.1
      let spaced ← Pass.strides.run {} ordered.1
      let _ ← Pass.finalizeLayout.run {} spaced.1
      return spaced.2) = Except.ok true := by decide +kernel
  simp only [Outcome.bind_eq_ok, Outcome.pure_eq_ok] at hall
  obtain ⟨g₀, hg, g₁, hfront, ⟨g₂, _⟩, hstubs, ⟨g, _⟩, horders, ⟨g₃, changed⟩, hstrides, ⟨g', _⟩, hlayout,
    hchanged⟩ := hall
  have wf := (((Network.fits_behind_front hg hfront).2.replaceStubs hstubs).dataOrder horders).wellFormed
  exact ⟨g, g₃, g', wf, hchanged ▸ hstrides, ⟨_, hlayout⟩, wf.strides_met hstrides hlayout⟩

end NetLower
