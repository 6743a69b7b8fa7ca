/-
Splitting batches splits what has a batch and nothing else.  Whether a stage is split depends on
what shows at its slots, and that stays while other stages are split; so the stages to split can
be told from the graph as it was.
-/
import NetLower.Proofs.Graph.RunOrder
import NetLower.Proofs.Pass.BatchKept
import NetLower.Proofs.Pass.Unroll
import NetLower.Proofs.Pipeline
import NetLower.Proofs.Stage.AtRest

namespace NetLower

namespace Site

variable {s s' : Site}

/-- The stage asks to be split and has more than one item at slot 0. -/
def HasBatch (s : Site) : Prop :=
  s.Marked ∧ ∃ kind x n, (s.slots kind)[0]? = some x ∧ x.desc.dim? .n = some n ∧ 1 < n

theorem Like.symm_same (like : s.Like Look.same s') : s'.Like Look.same s :=
  ⟨like.kind.symm, like.attrs.symm, fun kind => (like.length kind).symm,
    fun kind k d d' hd hd' => (like.slot kind k d' d hd' hd).symm⟩

theorem biasesUsage_eq_ok {usage : Usage} : s.biasesUsage = .ok usage ↔
    ∃ w b, s.inputs[1]? = some w ∧ s.inputs[2]? = some b ∧ w.usage = .const ∧ b.usage = usage ∧
      (usage = .const ∨ usage = .fake) := by
  simp only [biasesUsage, Outcome.bind_eq_ok, input_eq_ok]
  constructor
  · intro h
    obtain ⟨w, hw, b, hb, _, hconst, h⟩ := h
    refine ⟨w, b, hw, hb, Outcome.require_eq_ok.1 hconst, ?_⟩
    split at h
    next hu =>
      cases h
      exact ⟨rfl, .inl hu⟩
    next hu =>
      cases h
      exact ⟨rfl, .inr hu⟩
    · cases h
  · intro h
    obtain ⟨w, b, hw, hb, hconst, rfl, hu⟩ := h
    refine ⟨w, hw, b, hb, (), Outcome.require_eq_ok.2 hconst, ?_⟩
    rcases hu with hu | hu <;> rw [hu] <;> rfl

/-- A stage asks to be split if it has weights, and biases or none, and something at its main slots. -/
theorem marked_iff : s.Marked ↔
    s.Itemwise ∧ (∃ usage, s.biasesUsage = .ok usage) ∧ ∀ kind, ∃ x, (s.slots kind)[0]? = some x := by
  constructor
  · rintro ⟨report, hreport, hsplit, _⟩
    have hitems := itemwise_of_split hreport hsplit
    rw [hitems.batch_eq] at hreport
    simp only [weightableBatch, Outcome.bind_eq_ok, input_eq_ok, output_eq_ok] at hreport
    obtain ⟨usage, husage, x, hx, y, hy, _⟩ := hreport
    refine ⟨hitems, ⟨usage, husage⟩, fun kind => ?_⟩
    cases kind with
    | input => exact ⟨x, hx⟩
    | output => exact ⟨y, hy⟩
  · rintro ⟨hitems, ⟨usage, husage⟩, hslots⟩
    obtain ⟨x, hx⟩ := hslots .input
    obtain ⟨y, hy⟩ := hslots .output
    have hreport : s.weightableBatch = .ok (((Report.blank s).setInput 0 .split).setOutput 0 .split) := by
      simp only [weightableBatch, Outcome.bind_eq_ok, input_eq_ok, output_eq_ok]
      exact ⟨usage, husage, x, hx, y, hy, rfl⟩
    exact ⟨_, hitems.batch_eq.trans hreport, weightableBatch_eq_ok hreport⟩

/-- Having a batch depends on what shows at the slots. -/
theorem HasBatch.congr (h : s.HasBatch) (like : s.Like Look.same s') : s'.HasBatch := by
  obtain ⟨hmarked, kind, x, n, hx, hn, hmany⟩ := h
  obtain ⟨hitems, ⟨usage, husage⟩, hslots⟩ := marked_iff.1 hmarked
  refine ⟨marked_iff.2 ⟨hitems.congr like.kind.symm like.attrs.symm, ⟨usage, ?_⟩, fun kind => ?_⟩, ?_⟩
  · obtain ⟨w, b, hw, hb, hwu, hbu, hu⟩ := biasesUsage_eq_ok.1 husage
    obtain ⟨w', hw', hwlook⟩ := like.slot_to (show (s.slots .input)[1]? = some w from hw)
    obtain ⟨b', hb', hblook⟩ := like.slot_to (show (s.slots .input)[2]? = some b from hb)
    exact biasesUsage_eq_ok.2 ⟨w', b', hw', hb', (congrArg Look.usage hwlook).trans hwu,
      (congrArg Look.usage hblook).trans hbu, hu⟩
  · obtain ⟨y, hy⟩ := hslots kind
    obtain ⟨y', hy', _⟩ := like.slot_to hy
    exact ⟨y', hy'⟩
  · obtain ⟨x', hx', hlook⟩ := like.slot_to hx
    have hdesc : x'.desc = x.desc := congrArg Look.desc hlook
    exact ⟨kind, x', n, hx', hdesc ▸ hn, hmany⟩

/-- A stage that is not split has no batch. -/
theorem not_hasBatch_of_none (h : s.splitBatch? = .ok none) : ¬ s.HasBatch := by
  intro hbatch
  obtain ⟨hmarked, kind, z, n, hz, hn, hmany⟩ := hbatch
  obtain ⟨hitems, _, hslots⟩ := marked_iff.1 hmarked
  unfold splitBatch? at h
  split at h
  next x _ y _ hin hout =>
    simp only [Outcome.bind_eq_ok] at h
    obtain ⟨report, hreport, h⟩ := h
    rw [if_pos (hitems.batch hreport)] at h
    simp only [Outcome.check_bind_eq_ok, Outcome.require_eq_ok, Outcome.pure_eq_ok] at h
    obtain ⟨hsame, h⟩ := h
    have hone : ¬ 1 < (x.desc.dim? .n).getD 1 := by
      intro hlt
      rw [if_pos hlt] at h
      cases h
    cases kind with
    | input =>
      rw [show s.slots .input = s.inputs from rfl, hin, List.getElem?_cons_zero, Option.some.injEq] at hz
      exact hone (by rw [hz, hn]; exact hmany)
    | output =>
      rw [show s.slots .output = s.outputs from rfl, hout, List.getElem?_cons_zero, Option.some.injEq] at hz
      exact hone (by rw [hsame, hz, hn]; exact hmany)
  next hnone =>
    obtain ⟨x, hx⟩ := hslots .input
    obtain ⟨y, hy⟩ := hslots .output
    cases hin : s.inputs with
    | nil => simp [slots, hin] at hx
    | cons a ins =>
      cases hout : s.outputs with
      | nil => simp [slots, hout] at hy
      | cons b outs => exact hnone a ins b outs hin hout

end Site

/-! ## Offsets of items -/

theorem sliceOffsetsFrom_items {whole item : Desc} (stage : String) (hitem : whole.setDim .n 1 = .ok item) :
    ∀ count offset, offset + count < Size.range →
      sliceOffsetsFrom stage whole .n offset (List.replicate count item) =
        .ok (List.range' offset count, offset + count)
  | 0, _, _ => rfl
  | count + 1, offset, hlt => by
    obtain ⟨hdtype, _, hone⟩ := Desc.setDim_eq_ok hitem
    have hadd : Size.add offset 1 = .ok (offset + 1) := if_pos (by omega)
    have ih := sliceOffsetsFrom_items stage hitem count (offset + 1) (by omega)
    simp only [List.replicate_succ, sliceOffsetsFrom, hone, Option.getD_some, Outcome.bind_eq_ok,
      Outcome.pure_eq_ok]
    refine ⟨item, hitem, (), Outcome.require_eq_ok.2 ⟨rfl, hdtype⟩, offset + 1, hadd, _, ih, ?_⟩
    rw [List.range'_succ, Nat.add_assoc, Nat.add_comm 1]

/-- The items of a batch start at 0, 1, 2 and so on. -/
theorem sliceOffsets_items {whole item : Desc} {batch : Nat} (stage : String)
    (hitem : whole.setDim .n 1 = .ok item) (hbatch : whole.dim? .n = some batch) (hlt : batch < Size.range) :
    sliceOffsets stage whole (List.replicate batch item) .n = .ok (List.range batch) := by
  have hfrom := sliceOffsetsFrom_items stage hitem batch 0 (by omega)
  rw [Nat.zero_add, ← List.range_eq_range'] at hfrom
  simp only [sliceOffsets, hbatch, hfrom, Outcome.bind_eq_ok, Except.ok.injEq, exists_eq_left', Outcome.pure_eq_ok]
  exact ⟨(), Outcome.require_eq_ok.2 trivial, trivial⟩

namespace Graph

variable {g g' x x' : Graph} {id z : StageId} {site : Site}

theorem Uniform.descs {ids : List DataId} {v : Look} {nodes : List Data} (h : g.Uniform ids v)
    (hnodes : List.Forall₂ (fun d node => g.data? d = some node) ids nodes) :
    nodes.map Data.desc = List.replicate ids.length v.desc := by
  rw [List.eq_replicate_iff, List.length_map, hnodes.length_eq]
  refine ⟨rfl, fun desc hdesc => ?_⟩
  obtain ⟨node, hnode, rfl⟩ := List.mem_map.1 hdesc
  obtain ⟨k, hk⟩ := List.mem_iff_getElem?.1 hnode
  obtain ⟨d, hd, hdata⟩ := forall₂_getElem? hnodes.flip hk
  exact congrArg Look.desc (h.look (List.mem_of_getElem? hd) hdata)

/-- The tensors at a stage along the batch. -/
theorem AlongBatch.of_site {name : String} {kind : StageKind} {inputs outputs : List DataId}
    (h : g.AlongBatch z name kind inputs outputs) (hsite : g.site z = .ok site) :
    site.kind = kind ∧ site.axis = .ok .n ∧
      ∀ dir, List.Forall₂ (fun d node => g.data? d = some node) (slotsOf inputs outputs dir) (site.slots dir) := by
  obtain ⟨attrs, hattrs, hstands⟩ := h
  obtain ⟨htemplate, hslots⟩ := hstands.slots_of_site hsite
  refine ⟨congrArg StageTemplate.kind htemplate, Site.axis_of_batch ?_, hslots⟩
  rw [show site.attrs = attrs from congrArg StageTemplate.attrs htemplate, Attrs.get?_set hattrs, if_pos rfl]

/-- One tensor at a direction of a stage along the batch, and items at the other. -/
theorem AlongBatch.slices {name : String} {kind : StageKind} {inputs outputs items : List DataId}
    {one many : EdgeKind} {d : DataId} {whole : Data} {v : Look} (h : g.AlongBatch z name kind inputs outputs)
    (hsite : g.site z = .ok site) (hone : slotsOf inputs outputs one = [d])
    (hmany : slotsOf inputs outputs many = items)
    (hwhole : g.data? d = some whole) (hitems : g.Uniform items v) (hne : items ≠ []) :
    site.axis = .ok .n ∧ site.slots one = [whole] ∧
      ∃ part parts, site.slots many = part :: parts ∧
        (part :: parts).map Data.desc = List.replicate items.length v.desc := by
  obtain ⟨_, haxis, hslots⟩ := h.of_site hsite
  have hones := hslots one
  rw [hone] at hones
  obtain ⟨node, _, hnode, hnil, hslot⟩ := List.forall₂_cons_left_iff.1 hones
  rw [hwhole, Option.some.injEq] at hnode
  rw [List.forall₂_nil_left_iff.1 hnil, ← hnode] at hslot
  have hmanys := hmany ▸ hslots many
  refine ⟨haxis, hslot, ?_⟩
  cases hparts : site.slots many with
  | nil => exact absurd (List.forall₂_nil_right_iff.1 (hparts ▸ hmanys)) hne
  | cons part parts => exact ⟨part, parts, rfl, hitems.descs (hparts ▸ hmanys)⟩

/-- A stage that stands has a site. -/
theorem Stands.exists_site {template : StageTemplate} {inputs outputs : List DataId} (wf : g.WellFormed)
    (h : g.Stands z template inputs outputs) : ∃ site, g.site z = .ok site := by
  obtain ⟨s, hs, _⟩ := h
  obtain ⟨site, hsite, _⟩ := wf.site_of_stage hs
  exact ⟨site, hsite⟩

/-- What shows at the slots of a stage that stays. -/
theorem Steady.site_like (h : Steady g g') (wf : g.WellFormed) (hstage : g'.stage? id = g.stage? id)
    (hsite : g'.site id = .ok site) : ∃ old, g.site id = .ok old ∧ old.Like Look.same site := by
  have hs := (site_eq_ok.1 hsite).1
  refine wf.site_like (hstage ▸ hs) hsite hs rfl rfl rfl fun kind k e node _ hnode => ?_
  obtain ⟨d, hd, hdata⟩ := tensor?_eq_some.1 hnode
  obtain ⟨node', hdata', hlook⟩ := h.looks d node hdata
  exact ⟨node', tensor?_eq_some.2 ⟨d, h.target? hd, hdata'⟩, hlook⟩

/-- What stood before can be told from what stands. -/
theorem Steady.stands_of {template : StageTemplate} {inputs outputs : List DataId} (h : Steady g g')
    (wf : g.WellFormed) (hstage : g'.stage? z = g.stage? z) (hz : g'.Stands z template inputs outputs) :
    g.Stands z template inputs outputs := by
  obtain ⟨s, hs, htemplate, htargets⟩ := hz
  rw [hstage] at hs
  refine ⟨s, hs, htemplate, fun kind => List.forall₂_iff_get.2 ?_⟩
  obtain ⟨hlen, hget⟩ := List.forall₂_iff_get.1 (htargets kind)
  refine ⟨hlen, fun k hk hk' => ?_⟩
  obtain ⟨_, d, _, _, hedge, _⟩ := wf.edge_of_mem hs (List.get_mem (s.slots kind) ⟨k, hk⟩)
  have hd := target?_of_edge? hedge
  have hd' := h.target? hd
  rw [hget k hk hk'] at hd'
  rw [hd, ← hd']

/-! ## Unrolled stages -/

namespace Unrolling

variable {u : Unrolling}

/-- The stage as it was before other stages were split. -/
theorem From.back (h : u.From x) (steady : Steady g x) (wf : g.WellFormed)
    (hstage : x.stage? u.stage = g.stage? u.stage) : u.From g := by
  obtain ⟨others, hstands⟩ := h.stands
  have hold := steady.stands_of wf hstage hstands
  obtain ⟨site, hsite⟩ := hold.exists_site wf
  have whole {kind : EdgeKind} {d : DataId} {item : Desc}
      (hd : (slotsOf (u.input :: u.extra) (u.output :: others) kind)[0]? = some d)
      (hx : ∃ node, x.data? d = some node ∧ node.desc.dim? .n = some u.batch ∧ node.desc.setDim .n 1 = .ok item) :
      ∃ node, g.data? d = some node ∧ node.desc.dim? .n = some u.batch ∧ node.desc.setDim .n 1 = .ok item := by
    obtain ⟨node, _, hnode⟩ := forall₂_getElem? ((hold.slots_of_site hsite).2 kind) hd
    obtain ⟨node', hnode', hdesc⟩ := hx
    obtain ⟨_, hsame, hlook⟩ := steady.looks d node hnode
    rw [hnode', Option.some.injEq] at hsame
    subst hsame
    rw [show node'.desc = node.desc from congrArg Look.desc hlook] at hdesc
    exact ⟨node, hnode, hdesc⟩
  exact ⟨⟨others, hold⟩, @whole .input u.input u.itemInput rfl h.input,
    @whole .output u.output u.itemOutput rfl h.output, h.many⟩

/-- What was put in stays while other stages are split. -/
theorem Into.keeps (h : u.Into x) (steady : Steady x x') (hold : ∀ z ∈ u.stages, x'.stage? z = x.stage? z) :
    u.Into x' := by
  have along {z name kind inputs outputs} (hz : z ∈ u.stages) (ha : x.AlongBatch z name kind inputs outputs) :
      x'.AlongBatch z name kind inputs outputs := by
    obtain ⟨attrs, hattrs, hstands⟩ := ha
    exact ⟨attrs, hattrs, steady.stands (hold z hz) hstands⟩
  refine ⟨h.items, h.itemInputs.keeps steady.looks, h.itemOutputs.keeps steady.looks,
    along (by simp [stages]) h.split, ⟨h.clones.1, fun i z a b hz ha hb => ?_⟩, along (by simp [stages]) h.concat⟩
  have hmem : z ∈ u.stages := by simp [stages, List.mem_of_getElem? hz]
  exact steady.stands (hold z hmem) (h.clones.2 i z a b hz ha hb)

/-- An item has a batch of one. -/
theorem From.item_dim (h : u.From g) : u.itemInput.dim? .n = some 1 ∧ u.itemOutput.dim? .n = some 1 := by
  obtain ⟨_, _, _, hin⟩ := h.input
  obtain ⟨_, _, _, hout⟩ := h.output
  exact ⟨(Desc.setDim_eq_ok hin).2.2, (Desc.setDim_eq_ok hout).2.2⟩

/-- Nothing that is put in has a batch. -/
theorem Into.not_hasBatch (h : u.Into x) (hfrom : u.From g) (hz : z ∈ u.stages) (hsite : x.site z = .ok site) :
    ¬ site.HasBatch := by
  intro hbatch
  obtain ⟨hmarked, kind, node, n, hnode, hn, hmany⟩ := hbatch
  have along {name kind inputs outputs} (ha : x.AlongBatch z name kind inputs outputs)
      (hweights : kind.isWeightable = false) (hhard : kind ≠ .hardware) : False := by
    have hkind := (ha.of_site hsite).1
    rcases (Site.marked_iff.1 hmarked).1 with hitems | hitems
    · rw [hkind, hweights] at hitems
      cases hitems
    · exact hhard (hkind ▸ hitems.1)
  simp only [stages, List.cons_append, List.mem_cons, List.mem_append, List.not_mem_nil, or_false] at hz
  rcases hz with rfl | hz | rfl
  · exact along h.split rfl (by decide)
  · obtain ⟨i, hi⟩ := List.mem_iff_getElem?.1 hz
    have hlt := (List.getElem?_eq_some_iff.1 hi).1
    rw [h.clones.1] at hlt
    obtain ⟨a, ha⟩ : ∃ a, u.itemInputs[i]? = some a := ⟨_, List.getElem?_eq_getElem (h.items.1 ▸ hlt)⟩
    obtain ⟨b, hb⟩ : ∃ b, u.itemOutputs[i]? = some b := ⟨_, List.getElem?_eq_getElem (h.items.2 ▸ hlt)⟩
    obtain ⟨_, hslots⟩ := (h.clones.2 i z a b hi ha hb).slots_of_site hsite
    have single {ids : List DataId} {d : DataId} {item : Desc}
        (hslot : (slotsOf (a :: u.extra) [b] kind)[0]? = some d)
        (hd : d ∈ ids) (hitems : x.Uniform ids ⟨item, .intermediate⟩) (hone : item.dim? .n = some 1) : False := by
      obtain ⟨node', hnode', hdata⟩ := forall₂_getElem? (hslots kind) hslot
      rw [hnode, Option.some.injEq] at hnode'
      subst hnode'
      rw [show node.desc = item from congrArg Look.desc (hitems.look hd hdata), hone, Option.some.injEq] at hn
      omega
    cases kind with
    | input => exact single rfl (List.mem_of_getElem? ha) h.itemInputs hfrom.item_dim.1
    | output => exact single rfl (List.mem_of_getElem? hb) h.itemOutputs hfrom.item_dim.2
  · exact along h.concat rfl (by decide)

/-- The split and the concatenation pass their own check, with one item after the other. -/
theorem Into.offsets (h : u.Into g') (hfrom : u.From g) (steady : Steady g g') (wf : g'.WellFormed)
    (hlt : u.batch < Size.range) :
    (∃ site, g'.site u.split = .ok site ∧ site.splitOffsets = .ok (List.range u.batch)) ∧
      ∃ site, g'.site u.concat = .ok site ∧ site.concatOffsets = .ok (List.range u.batch) := by
  have nonempty {items : List DataId} (hlen : items.length = u.batch) : items ≠ [] := by
    intro hnil
    have := hfrom.many
    rw [hnil, List.length_nil] at hlen
    omega
  have offsets (stage : String) {d : DataId} {item : Desc} (hd : ∃ node, g.data? d = some node ∧
      node.desc.dim? .n = some u.batch ∧ node.desc.setDim .n 1 = .ok item) : ∃ whole, g'.data? d = some whole ∧
      sliceOffsets stage whole.desc (List.replicate u.batch item) .n = .ok (List.range u.batch) := by
    obtain ⟨node, hnode, hbatch, hitem⟩ := hd
    obtain ⟨whole, hwhole, hlook⟩ := steady.looks d node hnode
    refine ⟨whole, hwhole, ?_⟩
    rw [show whole.desc = node.desc from congrArg Look.desc hlook]
    exact sliceOffsets_items stage hitem hbatch hlt
  constructor
  · obtain ⟨_, _, hstands⟩ := h.split
    obtain ⟨site, hsite⟩ := hstands.exists_site wf
    obtain ⟨whole, hwhole, hoffsets⟩ := offsets site.name hfrom.input
    obtain ⟨haxis, hone, part, parts, hparts, hdescs⟩ :=
      @AlongBatch.slices g' u.split site _ _ _ _ u.itemInputs .input
      .output _ _ _ h.split hsite rfl rfl hwhole h.itemInputs (nonempty h.items.1)
    refine ⟨site, hsite, ?_⟩
    simp only [Site.splitOffsets, show site.inputs = [whole] from hone, show site.outputs = part :: parts
      from hparts, haxis, hdescs, h.items.1]
    exact hoffsets
  · obtain ⟨_, _, hstands⟩ := h.concat
    obtain ⟨site, hsite⟩ := hstands.exists_site wf
    obtain ⟨whole, hwhole, hoffsets⟩ := offsets site.name hfrom.output
    obtain ⟨haxis, hone, part, parts, hparts, hdescs⟩ :=
      @AlongBatch.slices g' u.concat site _ _ _ _ u.itemOutputs .output
      .input _ _ _ h.concat hsite rfl rfl hwhole h.itemOutputs (nonempty h.items.2)
    refine ⟨site, hsite, ?_⟩
    simp only [Site.concatOffsets, show site.outputs = [whole] from hone, show site.inputs = part :: parts
      from hparts, haxis, hdescs, h.items.2]
    exact hoffsets

end Unrolling

/-! ## The whole pass -/

/-- The stages of a plan, and only these, are split. -/
structure Carried (g : Graph) (plan : List Unrolling) (g' : Graph) : Prop where
  /-- The plan has the stages with a batch, each once. -/
  chosen : ∀ id, id ∈ plan.map Unrolling.stage ↔ ∃ site, g.site id = .ok site ∧ site.HasBatch
  once : (plan.map Unrolling.stage).Nodup
  before : ∀ u ∈ plan, u.From g
  after : ∀ u ∈ plan, u.Into g'
  gone : ∀ u ∈ plan, g'.stage? u.stage = none
  /-- Splits and concatenations pass their own check, unless an offset is too large to be written
  down. -/
  offsets : ∀ u ∈ plan, u.batch < Size.range →
    (∃ site, g'.site u.split = .ok site ∧ site.splitOffsets = .ok (List.range u.batch)) ∧
      ∃ site, g'.site u.concat = .ok site ∧ site.concatOffsets = .ok (List.range u.batch)
  /-- No two stages that are put in are the same, and none was there before. -/
  apart : (plan.flatMap Unrolling.stages).Nodup
  fresh : ∀ id ∈ plan.flatMap Unrolling.stages, g.stage? id = none
  /-- Nothing else is put in, and nothing else changes. -/
  only : ∀ id s, g'.stage? id = some s → id ∈ plan.flatMap Unrolling.stages ∨ g.stage? id = some s
  others : ∀ id s, g.stage? id = some s → id ∉ plan.map Unrolling.stage →
    g'.stage? id = some s ∧ ∀ kind, ∀ e ∈ s.slots kind, g'.edge? e = g.edge? e

/-- How far splitting has come, with stages still to visit. -/
structure Carrying (g : Graph) (rest : List StageId) (plan : List Unrolling)
    (x : Graph) : Prop extends Steady g x where
  orderly : x.Orderly
  nodup : rest.Nodup
  live : ∀ id ∈ rest, id.index < g.stages.size
  chosen : ∀ id ∈ plan.map Unrolling.stage, id ∉ rest ∧ ∃ site, g.site id = .ok site ∧ site.HasBatch
  once : (plan.map Unrolling.stage).Nodup
  before : ∀ u ∈ plan, u.From g
  after : ∀ u ∈ plan, u.Into x ∧ x.stage? u.stage = none
  old : ∀ id, id ∉ plan.map Unrolling.stage → id.index < g.stages.size → x.stage? id = g.stage? id
  numbers : plan.flatMap Unrolling.stages =
    (List.range' g.stages.size (x.stages.size - g.stages.size)).map StageId.mk
  done : x.AllBut rest fun site => ¬ site.HasBatch

namespace Carrying

variable {rest : List StageId} {plan : List Unrolling}

theorem mem_stages (c : g.Carrying rest plan x) :
    id ∈ plan.flatMap Unrolling.stages ↔ g.stages.size ≤ id.index ∧ id.index < x.stages.size := by
  have := c.size
  rw [c.numbers]
  simp only [List.mem_map, List.mem_range'_1]
  constructor
  · intro h
    obtain ⟨k, hk, rfl⟩ := h
    simp only
    omega
  · intro h
    exact ⟨id.index, by omega, rfl⟩

/-- A stage that is not split. -/
theorem skip (c : g.Carrying (id :: rest) plan x) (hsite : x.site id = .ok site) (hbatch : ¬ site.HasBatch) :
    g.Carrying rest plan x where
  toSteady := c.toSteady
  orderly := c.orderly
  nodup := (List.nodup_cons.1 c.nodup).2
  live z hz := c.live z (List.mem_cons_of_mem id hz)
  chosen z hz := (c.chosen z hz).imp_left fun hno hmem => hno (List.mem_cons_of_mem id hmem)
  once := c.once
  before := c.before
  after := c.after
  old := c.old
  numbers := c.numbers
  done z zsite hz := by
    rcases c.done z zsite hz with hmem | hno
    · rcases List.mem_cons.1 hmem with rfl | hmem
      · rw [hsite, Except.ok.injEq] at hz
        exact .inr (hz ▸ hbatch)
      · exact .inl hmem
    · exact .inr hno

/-- A stage that is split. -/
theorem split {u : Unrolling} (c : g.Carrying (u.stage :: rest) plan x) (wf : g.WellFormed)
    (hsite : x.site u.stage = .ok site) (hbatch : site.HasBatch) (h : x.Unrolls u x') (o : x'.Orderly) :
    g.Carrying rest (plan ++ [u]) x' := by
  have hlt : u.stage.index < g.stages.size := c.live _ (by simp)
  have hnew : u.stage ∉ plan.map Unrolling.stage := fun hmem => (c.chosen _ hmem).1 (by simp)
  have hstage : x.stage? u.stage = g.stage? u.stage := c.old _ hnew hlt
  have hsize := c.size
  have hadded := h.count
  refine ⟨c.toSteady.trans h.toSteady, o, (List.nodup_cons.1 c.nodup).2, fun z hz => c.live z (by simp [hz]),
    ?chosen, ?once, ?before, ?after, ?old, ?numbers, ?done⟩
  case chosen =>
    intro z hz
    rw [List.map_append, List.mem_append, List.map_singleton, List.mem_singleton] at hz
    rcases hz with hz | rfl
    · exact (c.chosen z hz).imp_left fun hno hmem => hno (List.mem_cons_of_mem _ hmem)
    · obtain ⟨old, hold, like⟩ := c.toSteady.site_like wf hstage hsite
      exact ⟨(List.nodup_cons.1 c.nodup).1, old, hold, hbatch.congr like.symm_same⟩
  case once =>
    rw [List.map_append, List.map_singleton]
    exact List.nodup_append.2 ⟨c.once, List.nodup_singleton _, fun a ha b hb hab =>
      hnew (List.mem_singleton.1 hb ▸ hab ▸ ha)⟩
  case before =>
    intro v hv
    rw [List.mem_append, List.mem_singleton] at hv
    rcases hv with hv | rfl
    · exact c.before v hv
    · exact h.before.back c.toSteady wf hstage
  case after =>
    intro v hv
    rw [List.mem_append, List.mem_singleton] at hv
    rcases hv with hv | rfl
    · obtain ⟨hinto, hgone⟩ := c.after v hv
      refine ⟨hinto.keeps h.toSteady fun z hz => ?_, ?_⟩
      · have hbounds := c.mem_stages.1 (List.mem_flatMap.2 ⟨v, hv, hz⟩)
        refine h.old z (fun heq => ?_) hbounds.2
        rw [heq] at hbounds
        omega
      · obtain ⟨_, s, hs, _⟩ := (c.before v hv).stands
        have hmem : v.stage ∈ plan.map Unrolling.stage := List.mem_map_of_mem hv
        rw [h.old v.stage (fun heq => hnew (heq ▸ hmem)) (Nat.lt_of_lt_of_le (lt_of_stage? hs) hsize), hgone]
    · exact ⟨h.after, h.gone⟩
  case old =>
    intro z hz hzlt
    rw [List.map_append, List.mem_append, List.map_singleton, List.mem_singleton, not_or] at hz
    rw [h.old z hz.2 (by omega), c.old z hz.1 hzlt]
  case numbers =>
    have hcount : x'.stages.size - g.stages.size = (x.stages.size - g.stages.size) + (u.batch + 2) := by omega
    have happend := @List.range'_append_1 g.stages.size (x.stages.size - g.stages.size) (u.batch + 2)
    rw [Nat.add_sub_cancel' hsize] at happend
    rw [List.flatMap_append, List.flatMap_singleton, c.numbers, h.fresh, ← List.map_append, hcount, happend]
  case done =>
    intro z zsite hzsite
    by_cases hz : z.index < x.stages.size
    · have hne : z ≠ u.stage := by
        intro heq
        have hs := (site_eq_ok.1 hzsite).1
        rw [heq, h.gone] at hs
        cases hs
      obtain ⟨old, hold, like⟩ := h.toSteady.site_like c.orderly.wellFormed (h.old z hne hz) hzsite
      rcases c.done z old hold with hmem | hno
      · exact .inl ((List.mem_cons.1 hmem).resolve_left hne)
      · exact .inr fun hhas => hno (hhas.congr like.symm_same)
    · have hzlt := lt_of_stage? (site_eq_ok.1 hzsite).1
      refine .inr (h.after.not_hasBatch h.before ?_ hzsite)
      rw [h.fresh, List.mem_map]
      exact ⟨z.index, List.mem_range'_1.2 (by omega), rfl⟩

/-- When all stages were visited, the plan is carried out. -/
theorem carried (c : g.Carrying [] plan g') (wf : g.WellFormed) : g.Carried plan g' := by
  have hsize := c.size
  refine ⟨fun id => ⟨fun hid => (c.chosen id hid).2, ?chosen⟩, c.once, c.before, fun u hu => (c.after u hu).1,
    fun u hu => (c.after u hu).2, ?offsets, ?apart, ?fresh, ?only, ?others⟩
  case chosen =>
    intro hid
    obtain ⟨site, hsite, hbatch⟩ := hid
    by_contra hno
    have hs := (site_eq_ok.1 hsite).1
    have hstage := c.old id hno (lt_of_stage? hs)
    obtain ⟨site', hsite', _⟩ := c.orderly.wellFormed.site_of_stage (hstage.trans hs)
    obtain ⟨old, hold, like⟩ := c.toSteady.site_like wf hstage hsite'
    rw [hsite, Except.ok.injEq] at hold
    subst hold
    exact (c.done id site' hsite').elim (fun hmem => nomatch hmem) fun hdone => hdone (hbatch.congr like)
  case offsets =>
    exact fun u hu hlt => (c.after u hu).1.offsets (c.before u hu) c.toSteady c.orderly.wellFormed hlt
  case apart =>
    rw [c.numbers]
    exact List.Nodup.map (fun a b hab => StageId.mk.inj hab) List.nodup_range'
  case fresh =>
    intro id hid
    have hle := (c.mem_stages.1 hid).1
    cases hs : g.stage? id with
    | none => rfl
    | some s =>
      have := lt_of_stage? hs
      omega
  case only =>
    intro id s hs
    by_cases hlt : id.index < g.stages.size
    · refine .inr ((c.old id (fun hmem => ?_) hlt).symm.trans hs)
      obtain ⟨u, hu, rfl⟩ := List.mem_map.1 hmem
      rw [(c.after u hu).2] at hs
      cases hs
    · exact .inl (c.mem_stages.2 ⟨by omega, lt_of_stage? hs⟩)
  case others =>
    intro id s hs hid
    refine ⟨(c.old id hid (lt_of_stage? hs)).trans hs, fun kind e he => ?_⟩
    obtain ⟨_, _, _, _, hedge, _⟩ := wf.edge_of_mem hs he
    rw [hedge, c.edges e _ hedge]

end Carrying

/-- Splitting batches is exact: it leaves no stage with a batch; each stage that had one is replaced
by a split, clones and a concatenation with offsets 0, 1, 2 and so on; and it leaves all other
stages and their edges as they were. -/
theorem WellFormed.adjustBatch_exact {config : Config} {changed : Bool} (wf : g.WellFormed)
    (h : Pass.adjustBatch.run config g = .ok (g', changed)) :
    (∀ id site, g'.site id = .ok site → ¬ site.HasBatch) ∧ ∃ plan, g.Carried plan g' := by
  simp only [Pass.adjustBatch, Outcome.bind_eq_ok] at h
  obtain ⟨order, horder, h⟩ := h
  have hperm := runOrder_perm horder
  have live {id} : id ∈ order ↔ ∃ s, g.stage? id = some s := hperm.mem_iff.trans mem_liveIds
  have start : g.Carrying order [] g :=
    { Steady.refl with
      orderly := wf.orderly horder
      nodup := hperm.nodup_iff.2 nodup_liveIds
      live := fun id hid => by
        obtain ⟨s, hs⟩ := live.1 hid
        exact lt_of_stage? hs
      chosen := by simp
      once := List.nodup_nil
      before := by simp
      after := by simp
      old := fun _ _ _ => rfl
      numbers := by simp
      done := fun id site hsite => .inl (live.2 ⟨_, (site_eq_ok.1 hsite).1⟩) }
  have run := Pass.sweep_keeps (fun rest x => ∃ plan, g.Carrying rest plan x)
    (fun id rest x x' _ hx hvisit => by
      obtain ⟨plan, c⟩ := hx
      obtain ⟨site, hsite, ⟨hnone, rfl⟩ | ⟨batch, hbatch, hvisit⟩⟩ := adjustBatch_eq_ok hvisit
      · exact ⟨plan, c.skip hsite (Site.not_hasBatch_of_none hnone)⟩
      · obtain ⟨hmarked, hmany, hdim⟩ := splitBatch?_marked hbatch
        obtain ⟨u, rfl, hunrolls⟩ := splitStage_unrolls hsite hmany hdim hvisit
        obtain ⟨_, _, hslots⟩ := Site.marked_iff.1 hmarked
        obtain ⟨y, hy⟩ := hslots .input
        have hhas : site.HasBatch := ⟨hmarked, .input, y, batch, hy, hdim .input y hy, hmany⟩
        exact ⟨plan ++ [u], c.split wf hsite hhas hunrolls (c.orderly.splitStage hvisit)⟩)
    ⟨[], start⟩ h
  obtain ⟨plan, c⟩ := run
  exact ⟨fun id site hsite => (c.done id site hsite).resolve_left (by simp), plan, c.carried wf⟩

end Graph

/-- The two images are a batch, which is split. -/
theorem Network.twoImages_split_exactly :
    ∃ g g' : Graph, g.WellFormed ∧ Pass.adjustBatch.run {} g = .ok (g', true) ∧
      (∀ id site, g'.site id = .ok site → ¬ site.HasBatch) ∧ ∃ plan, g.Carried plan g' := by
  have hall : (do return (← Pass.adjustBatch.run {} (← twoImages.graph {})).2) = Except.ok true := by
    decide +kernel
  simp only [Outcome.bind_eq_ok, Outcome.pure_eq_ok] at hall
  obtain ⟨g, hg, ⟨g', changed⟩, hbatch, rfl⟩ := hall
  have wf := Network.graph_wellFormed hg
  exact ⟨g, g', wf, hbatch, wf.adjustBatch_exact hbatch⟩

end NetLower
