/-
Splitting batches keeps every stage in a place where it fits.  Only stages with weights
are split; a clone reads and writes single items, which have the type and the rank of the
batch, and shares the constants of the stage it was made from.
-/
import NetLower.Proofs.Graph.Fits
import NetLower.Proofs.Pass.Batch
import NetLower.Proofs.Stage.Settled

namespace NetLower

namespace Site

variable {s : Site}

/-- The stage runs once for each item of a batch. -/
def Itemwise (s : Site) : Prop :=
  s.kind.isWeightable = true ∨ s.kind = .hardware ∧ ∃ op, s.hardwareOp = .ok op ∧ op.isWeightable = true

/-- The stage asks for its main input and its main output to be split. -/
def Marked (s : Site) : Prop :=
  ∃ report, s.kind.family.batch s = .ok report ∧ report.input? 0 = some .split ∧ report.output? 0 = some .split

/-- Only stages with weights ask to be run item by item. -/
theorem itemwise_of_split {report : Report BatchSupport} (hb : s.kind.family.batch s = .ok report)
    (hsplit : report.input? 0 = some .split) : s.Itemwise := by
  have blank : ¬ (Report.blank s : Report BatchSupport).input? 0 = some .split := by
    rw [Report.input?, Option.join_eq_some_iff]
    exact slot_of_blank
  unfold Itemwise
  revert hb
  cases hk : s.kind <;> simp only [StageKind.family] <;> intro hb
  case stubConv | stubFullyConnected | stubDeconv | convolution | fullyConnected | deconvolution => exact .inl rfl
  case stubMaxPool | stubAvgPool =>
    simp only [StageFamily.batch, stubSort, hk, Outcome.bind_eq_ok, Except.ok.injEq, exists_eq_left',
      Outcome.pure_eq_ok] at hb
    exact absurd (hb ▸ hsplit) blank
  case hardware =>
    simp only [StageFamily.batch, Outcome.bind_eq_ok] at hb
    obtain ⟨op, hop, hb⟩ := hb
    split at hb
    next hw => exact .inr ⟨trivial, op, hop, hw⟩
    · rw [Outcome.pure_eq_ok] at hb
      exact absurd (hb ▸ hsplit) blank
  all_goals
    rw [StageFamily.batch, Except.ok.injEq] at hb
    exact absurd (hb ▸ hsplit) blank

/-- A stage that runs item by item has weights. -/
theorem Fit.weighted (h : s.Fit) (hitems : s.Itemwise) : s.Weighted ∧ s.kind.family.sized = false := by
  obtain ⟨_, hfit⟩ := h
  rcases hitems with hweights | ⟨hhard, op, hop, hw⟩
  · revert hfit hweights
    cases hk : s.kind <;> simp only [StageKind.family] <;> intro hfit hweights
    case stubConv | stubFullyConnected | stubDeconv =>
      obtain ⟨op, software, hlow⟩ := hfit
      have hlowering := hlow.lowering
      rw [hk] at hlowering
      cases hlowering
      exact ⟨hlow.software.1, rfl⟩
    case convolution | fullyConnected | deconvolution => exact ⟨hfit.1, rfl⟩
    all_goals cases hweights
  · rw [hhard] at hfit ⊢
    obtain ⟨op', hop', hsuit⟩ := hfit
    rw [hop, Except.ok.injEq] at hop'
    have hslots := hsuit.slots
    rw [← hop', if_pos hw] at hslots
    exact ⟨hslots, rfl⟩

theorem axis_of_batch (h : s.attrs.get? .axis = some Graph.batchAxis) : s.axis = .ok .n := by
  simp only [Site.axis, Attrs.getInt_of_get? h, Outcome.bind_eq_ok, Except.ok.injEq, exists_eq_left']
  exact ⟨(), rfl, rfl⟩

end Site

/-- The items of a batch make up the batch. -/
theorem Slices.items {whole item : Desc} {batch : Nat} (hitem : whole.setDim .n 1 = .ok item)
    (hbatch : whole.dim? .n = some batch) : Slices whole .n (List.replicate batch item) := by
  obtain ⟨hdtype, _, hone⟩ := Desc.setDim_eq_ok hitem
  refine ⟨fun p hp => ?_, fun p hp => ?_, ?_⟩
  · rw [List.eq_of_mem_replicate hp, hdtype]
  · rw [List.eq_of_mem_replicate hp, hone]
    exact ⟨item, hitem, rfl⟩
  · rw [hbatch, List.map_replicate, hone, Option.getD_some, List.sum_replicate_nat, Nat.mul_one]

namespace Graph

variable {g g' : Graph} {d : DataId} {e : EdgeId} {id z : StageId} {site : Site}

/-- Tensors that all look the same. -/
def Uniform (g : Graph) (ids : List DataId) (v : Look) : Prop :=
  ∀ d ∈ ids, ∃ node, g.data? d = some node ∧ node.look = v

theorem Uniform.keeps {ids : List DataId} {v : Look} (h : g.Uniform ids v) (looks : KeepsLooks g g') :
    g'.Uniform ids v := by
  intro d hd
  obtain ⟨node, hnode, hlook⟩ := h d hd
  obtain ⟨node', hnode', hlook'⟩ := looks d node hnode
  exact ⟨node', hnode', hlook'.trans hlook⟩

theorem Uniform.look {ids : List DataId} {v : Look} {node : Data} (h : g.Uniform ids v) (hd : d ∈ ids)
    (hnode : g.data? d = some node) : node.look = v := by
  obtain ⟨node', hnode', hlook⟩ := h d hd
  rw [hnode, Option.some.injEq] at hnode'
  exact hnode' ▸ hlook

theorem keepsLooks_pushAll (nodes : List Data) : KeepsLooks g (g.pushAll nodes) :=
  fun _ node hnode => ⟨node, data?_pushAll_old hnode, rfl⟩

theorem uniform_items (name : String) (desc : Desc) (batch : Nat) :
    (g.pushAll (itemNodes name desc (List.range batch))).Uniform (g.freshIds batch) ⟨desc, .intermediate⟩ := by
  intro d hd
  obtain ⟨node, hmem, hnode⟩ := @data?_pushAll_new g (itemNodes name desc (List.range batch)) d
    (by simpa [itemNodes] using hd)
  obtain ⟨index, _, rfl⟩ := List.mem_map.1 hmem
  exact ⟨_, hnode, rfl⟩

theorem length_freshIds (count : Nat) : (g.freshIds count).length = count := by simp [freshIds]

theorem Fits.pushAll {P : Site → Prop} {R : SlotRel} {nodes : List Data} (h : g.Fits P) (st : Site.Stable P R)
    (wf : g.WellFormed)
    (hnodes : ∀ node ∈ nodes, (node.consumers = [] ∧ node.producer = none) ∧ node.Stocked) :
    (g.pushAll nodes).Fits P := by
  induction nodes generalizing g with
  | nil => simpa [Graph.pushAll] using h
  | cons node nodes ih =>
    obtain ⟨⟨hc, hp⟩, hstock⟩ := hnodes node (by simp)
    rw [pushAll_cons]
    exact ih (h.pushData st wf hstock) (wf.pushData hc hp) fun x hx => hnodes x (by simp [hx])

/-- The descriptors at the slots of a new stage whose tensors all look the same. -/
theorem Added.uniform_descs {template : StageTemplate} {inputs outputs : List DataId} {v : Look}
    (h : Added g template inputs outputs z g') (hsite : g'.site z = .ok site) (kind : EdgeKind)
    (hu : g.Uniform (slotsOf inputs outputs kind) v) :
    (site.slots kind).map Data.desc = List.replicate (slotsOf inputs outputs kind).length v.desc := by
  rw [List.eq_replicate_iff, List.length_map, h.length_of_site hsite]
  refine ⟨rfl, fun desc hdesc => ?_⟩
  obtain ⟨node, hnode, rfl⟩ := List.mem_map.1 hdesc
  obtain ⟨k, hk⟩ := List.mem_iff_getElem?.1 hnode
  obtain ⟨hlt, _⟩ := List.getElem?_eq_some_iff.1 hk
  rw [h.length_of_site hsite] at hlt
  have hd := List.getElem?_eq_getElem hlt
  obtain ⟨node', old, hnode', hold, hlook⟩ := h.slot_of_site hsite hd
  obtain ⟨old', hold', hlook'⟩ := hu _ (List.mem_of_getElem? hd)
  rw [hk, Option.some.injEq] at hnode'
  rw [hold, Option.some.injEq] at hold'
  rw [hnode', show node'.desc = old.desc from congrArg Look.desc hlook, hold']
  exact congrArg Look.desc hlook'

/-- The one tensor at a direction of a new stage. -/
theorem Added.single_slot {template : StageTemplate} {inputs outputs : List DataId} {old : Data}
    (h : Added g template inputs outputs z g') (hsite : g'.site z = .ok site) {kind : EdgeKind}
    (hd : slotsOf inputs outputs kind = [d]) (hold : g.data? d = some old) :
    ∃ x, site.slots kind = [x] ∧ x.look = old.look := by
  have hlen := h.length_of_site hsite kind
  rw [hd, List.length_singleton] at hlen
  obtain ⟨x, hx⟩ := List.length_eq_one_iff.1 hlen
  obtain ⟨x', old', hx', hold', hlook⟩ := @Added.slot_of_site g g' site d template inputs outputs z h hsite kind 0
    (by rw [hd]; rfl)
  rw [hx, List.getElem?_cons_zero, Option.some.injEq] at hx'
  rw [hold, Option.some.injEq] at hold'
  exact ⟨x, hx, by rw [hx', hlook, hold']⟩

/-! ## The split and the concatenation -/

theorem addBatchStage_axis {name : String} {kind : StageKind} {inputs outputs : List DataId}
    (h : g.addBatchStage name kind inputs outputs = .ok g') :
    ∃ z attrs, Attrs.empty.set .axis batchAxis = .ok attrs ∧
      Added g { name, kind, attrs } inputs outputs z g' := by
  obtain ⟨z, g₁, hadd, hattr⟩ := addBatchStage_added h
  obtain ⟨attrs, hset, hadded⟩ := hadd.setAttr hattr
  exact ⟨z, attrs, hset, hadded⟩

/-- A batch, with the tensors of its items. -/
structure Batch (g : Graph) (d : DataId) (items : List DataId) (item : Desc) : Prop where
  whole : ∃ node, g.data? d = some node ∧ node.desc.setDim .n 1 = .ok item ∧
    node.desc.dim? .n = some items.length ∧ node.desc.dtype = .f16
  parts : g.Uniform items ⟨item, .intermediate⟩
  nonempty : items ≠ []

theorem Batch.keeps {items : List DataId} {item : Desc} (h : g.Batch d items item) (looks : KeepsLooks g g') :
    g'.Batch d items item := by
  obtain ⟨node, hnode, hwhole⟩ := h.whole
  obtain ⟨node', hnode', hlook⟩ := looks d node hnode
  refine ⟨⟨node', hnode', ?_⟩, h.parts.keeps looks, h.nonempty⟩
  rw [show node'.desc = node.desc from congrArg Look.desc hlook]
  exact hwhole

/-- A stage along the batch: the batch at one direction, its items at the other. -/
theorem Batch.site_of_added {items : List DataId} {item : Desc} {inputs outputs : List DataId} {name : String}
    {kind : StageKind} {attrs : Attrs} (h : g.Batch d items item)
    (ha : Added g { name, kind, attrs } inputs outputs z g')
    (hattrs : Attrs.empty.set .axis batchAxis = .ok attrs) (hsite : g'.site z = .ok site) {one many : EdgeKind}
    (hne : one ≠ many) (hone : slotsOf inputs outputs one = [d]) (hmany : slotsOf inputs outputs many = items) :
    site.kind = kind ∧ site.Half ∧ site.axis = .ok .n ∧ site.slots many ≠ [] ∧
      ∃ whole, site.slots one = [whole] ∧ Slices whole.desc .n ((site.slots many).map Data.desc) := by
  obtain ⟨node, hnode, hitem, hbatch, hhalf⟩ := h.whole
  obtain ⟨hkind, hsattrs⟩ := ha.kind_of_site hsite
  obtain ⟨whole, hwhole, hlook⟩ := ha.single_slot hsite hone hnode
  have hdesc : whole.desc = node.desc := congrArg Look.desc hlook
  have hdescs := ha.uniform_descs hsite many (hmany ▸ h.parts)
  rw [hmany] at hdescs
  have haxis : site.attrs.get? .axis = some batchAxis := by
    rw [hsattrs, Attrs.get?_set hattrs, if_pos rfl]
  refine ⟨hkind, fun k x hx => ?_, Site.axis_of_batch haxis, fun hnil => ?_, whole, hwhole, ?_⟩
  · by_cases hk : k = one
    · rw [hk, hwhole, List.mem_singleton] at hx
      rw [hx, hdesc, hhalf]
    · have hk' : k = many := by
        cases k <;> cases one <;> cases many <;> simp_all
      have : x.desc ∈ (site.slots many).map Data.desc := List.mem_map_of_mem (hk' ▸ hx)
      rw [hdescs] at this
      rw [List.eq_of_mem_replicate this, (Desc.setDim_eq_ok hitem).1, hhalf]
  · have := ha.length_of_site hsite many
    rw [hnil, hmany, List.length_nil] at this
    exact h.nonempty (List.length_eq_zero_iff.1 this.symm)
  · rw [hdescs, hdesc]
    exact .items hitem hbatch

theorem Fits.addSplit {items : List DataId} {item : Desc} {name : String} (f : g.Fits Site.Early)
    (wf : g.WellFormed) (b : g.Batch d items item) (h : g.addBatchStage name .split [d] items = .ok g') :
    g'.Fits Site.Early := by
  obtain ⟨z, attrs, hattrs, hadd⟩ := addBatchStage_axis h
  refine f.added Site.stable_early wf hadd fun site hsite => ?_
  obtain ⟨hkind, hhalf, haxis, hne, whole, hwhole, hslices⟩ :=
    @Batch.site_of_added g g' d z site items item [d] items name .split attrs b hadd hattrs hsite .input .output
      nofun rfl rfl
  refine ⟨⟨hhalf, ?_⟩, by simp [hkind]⟩
  rw [hkind]
  exact ⟨whole, .n, hwhole, hne, haxis, hslices⟩

theorem Fits.addConcat {items : List DataId} {item : Desc} {name : String} (f : g.Fits Site.Early)
    (wf : g.WellFormed) (b : g.Batch d items item) (h : g.addBatchStage name .concat items [d] = .ok g') :
    g'.Fits Site.Early := by
  obtain ⟨z, attrs, hattrs, hadd⟩ := addBatchStage_axis h
  refine f.added Site.stable_early wf hadd fun site hsite => ?_
  obtain ⟨hkind, hhalf, haxis, hne, whole, hwhole, hslices⟩ :=
    @Batch.site_of_added g g' d z site items item items [d] name .concat attrs b hadd hattrs hsite .output .input
      nofun rfl rfl
  refine ⟨⟨hhalf, ?_⟩, by simp [hkind]⟩
  rw [hkind]
  exact ⟨whole, .n, hwhole, hne, haxis, hslices⟩

/-! ## The clones -/

/-- Clones of a stage, which stand in places akin to its own. -/
theorem Fits.addClones {old : Site} {template : StageTemplate} {extra : List DataId}
    {items : List (DataId × DataId)} (f : g.Fits Site.Early) (wf : g.WellFormed) (hold : old.Early)
    (hsized : old.kind.family.sized = false) (hkind : template.kind = old.kind)
    (hattrs : template.attrs = old.attrs) (hin : extra.length + 1 = old.inputs.length)
    (hout : 1 = old.outputs.length)
    (hslot : ∀ item ∈ items, ∀ (kind : EdgeKind) (k : Nat) (d : DataId) (x node : Data),
      (slotsOf (item.1 :: extra) [item.2] kind)[k]? = some d → (old.slots kind)[k]? = some x →
      g.data? d = some node → x.look.Akin k node.look)
    (h : g.addClones template extra items = .ok g') : g'.Fits Site.Early ∧ g'.WellFormed ∧ SameLooks g g' := by
  have := Outcome.foldlM_keeps
    (fun rest g' => (g'.Fits Site.Early ∧ g'.WellFormed ∧ SameLooks g g') ∧ ∀ x ∈ rest, x.1 ∈ items)
    (by
      rintro ⟨⟨itemInput, itemOutput⟩, index⟩ rest g₁ g₂ ⟨⟨f₁, wf₁, looks⟩, hmem⟩ h
      simp only [Outcome.bind_eq_ok, Outcome.pure_eq_ok] at h
      obtain ⟨⟨z, _⟩, hadd, rfl⟩ := h
      have hadded := addStage_added hadd
      refine ⟨⟨f₁.added Site.stable_early wf₁ hadded fun site hsite => ?_, wf₁.added hadded (by simp),
        looks.trans hadded.sameLooks⟩, fun x hx => hmem x (by simp [hx])⟩
      have like : old.Like Look.akin site := by
        refine hadded.site_like hsite hkind hattrs (fun kind => ?_) fun kind k d x node hd hx hnode => ?_
        · cases kind with
          | input => exact hin
          | output => exact hout
        · obtain ⟨node₀, hnode₀, hlook⟩ := looks.symm.data_of hnode
          exact hlook ▸ hslot _ (hmem ((itemInput, itemOutput), index) (by simp)) kind k d x node₀ hd hx hnode₀
      exact ⟨hold.fit.akin like hsized, like.kind ▸ hold.copy⟩)
    ⟨⟨f, wf, fun _ => rfl⟩, fun x hx => List.fst_mem_of_mem_zipIdx hx⟩ h
  exact this.1

/-! ## One stage -/

/-- What a stage that is split says, and the batches at its main slots. -/
theorem splitBatch?_marked {batch : Nat} (h : site.splitBatch? = .ok (some batch)) :
    site.Marked ∧ 1 < batch ∧ ∀ kind d, (site.slots kind)[0]? = some d → d.desc.dim? .n = some batch := by
  unfold Site.splitBatch? at h
  split at h
  next x _ y _ hin hout =>
    simp only [Outcome.bind_eq_ok] at h
    obtain ⟨report, hreport, h⟩ := h
    split at h
    next hsplit =>
      simp only [Outcome.check_bind_eq_ok, Outcome.require_eq_ok, Outcome.pure_eq_ok] at h
      obtain ⟨hsame, h⟩ := h
      split at h
      next hlt =>
        cases h
        have known {o : Option Nat} (ho : 1 < o.getD 1) : o = some (o.getD 1) := by
          cases o <;> simp_all
        refine ⟨⟨report, hreport, hsplit⟩, hlt, fun kind d hd => ?_⟩
        cases kind with
        | input =>
          rw [show site.slots .input = site.inputs from rfl, hin, List.getElem?_cons_zero, Option.some.injEq] at hd
          exact hd ▸ known hlt
        | output =>
          rw [show site.slots .output = site.outputs from rfl, hout, List.getElem?_cons_zero,
            Option.some.injEq] at hd
          rw [← hd, hsame]
          exact known (hsame ▸ hlt)
      · cases h
    · cases h
  · cases h

/-- What it takes to split a stage. -/
theorem splitBatch?_eq_some {batch : Nat} (f : site.Fit) (h : site.splitBatch? = .ok (some batch)) :
    site.Weighted ∧ site.kind.family.sized = false ∧ 1 < batch ∧
      ∀ kind d, (site.slots kind)[0]? = some d → d.desc.dim? .n = some batch := by
  obtain ⟨⟨_, hreport, hsplit, _⟩, hmany, hdim⟩ := splitBatch?_marked h
  obtain ⟨hweighted, hsized⟩ := f.weighted (Site.itemwise_of_split hreport hsplit)
  exact ⟨hweighted, hsized, hmany, hdim⟩

/-- The tensor at a slot, found by the slot. -/
theorem AtSlot.data?_eq (hsite : g.site id = .ok site) {kind : EdgeKind} {k : Nat} (h : g.AtSlot kind id k d) :
    g.data? d = (site.slots kind)[k]? := by
  obtain ⟨s, e, hs, he, ht⟩ := h
  rw [(site_eq_ok.1 hsite).1, Option.some.injEq] at hs
  rw [slot_of_site hsite (hs ▸ he), tensor?_of_target? ht]

/-- An item looks like the batch, but for its size. -/
theorem akin_item {x node : Data} {item : Desc} {n : Nat} (hlook : node.look = x.look)
    (hitem : node.desc.setDim .n n = .ok item) (hfake : x.usage ≠ .fake) :
    x.look.Akin 0 ⟨item, .intermediate⟩ := by
  rw [show node.desc = x.desc from congrArg Look.desc hlook] at hitem
  obtain ⟨hdtype, hrank, _⟩ := Desc.setDim_eq_ok hitem
  exact ⟨hdtype, hrank, ⟨nofun, fun h => absurd h hfake⟩, fun h => absurd rfl h⟩

/-- Tensors for the items at slot 0 of a stage. -/
theorem batch_of_slot {kind : EdgeKind} {x node : Data} {item : Desc} {batch : Nat} (half : site.Half)
    (hx : (site.slots kind)[0]? = some x) (hbatch : x.desc.dim? .n = some batch) (hmany : 1 < batch)
    (hnode : g.data? d = some node) (hlook : node.look = x.look) (hitem : node.desc.setDim .n 1 = .ok item) :
    (g.pushAll (itemNodes node.name item (List.range batch))).Batch d (g.freshIds batch) item := by
  have hdesc : node.desc = x.desc := congrArg Look.desc hlook
  refine ⟨⟨node, data?_pushAll_old hnode, hitem, ?_, ?_⟩, g.uniform_items node.name item batch, fun hnil => ?_⟩
  · rw [length_freshIds, hdesc, hbatch]
  · rw [hdesc]
    exact half kind x (List.mem_of_getElem? hx)
  · have := @length_freshIds g batch
    rw [hnil, List.length_nil] at this
    omega

theorem Fits.splitStage {batch : Nat} (f : g.Fits Site.Early) (wf : g.WellFormed) (hsite : g.site id = .ok site)
    (hbatch : site.splitBatch? = .ok (some batch)) (h : g.splitStage id batch = .ok g') : g'.Fits Site.Early := by
  have hearly := f.all id site hsite
  obtain ⟨hweighted, hsized, hmany, hdim⟩ := splitBatch?_eq_some hearly.fit hbatch
  obtain ⟨a, w, b, y, hins, houts, ha, _⟩ := hweighted.eq
  obtain ⟨s, input, output, reads, nodeIn, nodeOut, descIn, descOut, g₁, g₂, g₃, g₄, g₅, hs, hin, hout, hreads,
    hremoved, ⟨hnodeIn, hdescIn, hg₂⟩, ⟨hnodeOut, hdescOut, hg₃⟩, hsplit, hclones, hconcat⟩ := splitStage_eq_ok h
  have hstage := (site_eq_ok.1 hsite).1
  rw [hs, Option.some.injEq] at hstage
  subst hstage
  -- The main tensors of the stage are the batches that the item tensors are made for.
  have looks₂ : KeepsLooks g g₂ := hremoved.sameLooks.keeps.trans (hg₂ ▸ keepsLooks_pushAll _)
  have looks₃ : KeepsLooks g₂ g₃ := hg₃ ▸ keepsLooks_pushAll _
  have hinSlot : (site.slots .input)[0]? = some a := by simp [Site.slots, hins]
  have houtSlot : (site.slots .output)[0]? = some y := by simp [Site.slots, houts]
  have hinData : g.data? input = some a := ((inputData_eq_ok.1 hin).data?_eq hsite).trans hinSlot
  have houtData : g.data? output = some y := ((outputData_eq_ok.1 hout).data?_eq hsite).trans houtSlot
  have hlookIn : nodeIn.look = a.look := by
    obtain ⟨x, hx, hlook⟩ := hremoved.sameLooks.data_of hinData
    rw [hnodeIn, Option.some.injEq] at hx
    exact hx ▸ hlook
  have hlookOut : nodeOut.look = y.look := by
    obtain ⟨x, hx, hlook⟩ := looks₂ output y houtData
    rw [hnodeOut, Option.some.injEq] at hx
    exact hx ▸ hlook
  have batchIn : g₃.Batch input (g₁.freshIds batch) descIn := by
    refine Batch.keeps ?_ looks₃
    rw [hg₂]
    exact batch_of_slot hearly.fit.1 hinSlot (hdim _ _ hinSlot) hmany hnodeIn hlookIn hdescIn
  have batchOut : g₃.Batch output (g₂.freshIds batch) descOut := by
    rw [hg₃]
    exact batch_of_slot hearly.fit.1 houtSlot (hdim _ _ houtSlot) hmany hnodeOut hlookOut hdescOut
  have fresh {name : String} {desc : Desc} : ∀ node ∈ itemNodes name desc (List.range batch),
      (node.consumers = [] ∧ node.producer = none) ∧ node.Stocked := by
    intro node hnode
    obtain ⟨_, _, rfl⟩ := List.mem_map.1 hnode
    exact ⟨⟨rfl, rfl⟩, stocked_intermediate _ _⟩
  have wf₁ := wf.removed hremoved
  have wf₂ : g₂.WellFormed := hg₂ ▸ wf₁.pushAll fun node hnode => (fresh node hnode).1
  have wf₃ : g₃.WellFormed := hg₃ ▸ wf₂.pushAll fun node hnode => (fresh node hnode).1
  have f₁ := f.removed Site.stable_early wf hremoved
  have f₂ : g₂.Fits Site.Early := hg₂ ▸ f₁.pushAll Site.stable_early wf₁ fresh
  have f₃ : g₃.Fits Site.Early := hg₃ ▸ f₂.pushAll Site.stable_early wf₂ fresh
  have f₄ := f₃.addSplit wf₃ batchIn hsplit
  obtain ⟨z, attrs, _, hadded⟩ := addBatchStage_axis hsplit
  have htensors := inputs_of_site hsite hreads
  obtain ⟨f₅, wf₅, looks₅⟩ := f₄.addClones (wf₃.added hadded (nodup_freshIds _)) hearly hsized rfl rfl
    (by rw [List.length_drop, htensors.length_eq, hweighted.inputs]) hweighted.outputs.symm
    (by
      rintro ⟨itemIn, itemOut⟩ hitem kind k d x node hd hx hnode
      obtain ⟨node₃, hnode₃, hlook⟩ := hadded.sameLooks.symm.data_of hnode
      rw [← hlook]
      cases kind with
      | input =>
        cases k with
        | zero =>
          cases hd
          rw [hinSlot, Option.some.injEq] at hx
          rw [batchIn.parts.look (List.of_mem_zip hitem).1 hnode₃, ← hx]
          exact akin_item hlookIn hdescIn ha
        | succ k =>
          change (reads.drop 1)[k]? = some d at hd
          change site.inputs[k + 1]? = some x at hx
          rw [List.getElem?_drop, Nat.add_comm] at hd
          obtain ⟨x', hx', hnode'⟩ := forall₂_getElem? htensors hd
          rw [hx, Option.some.injEq] at hx'
          obtain ⟨node', hnode', hlook'⟩ := looks₂.trans looks₃ d x (hx' ▸ hnode')
          rw [hnode₃, Option.some.injEq] at hnode'
          rw [hnode', hlook']
          exact Look.Alike.refl.toAkin
      | output =>
        cases k with
        | zero =>
          cases hd
          rw [houtSlot, Option.some.injEq] at hx
          rw [batchOut.parts.look (List.of_mem_zip hitem).2 hnode₃, ← hx]
          obtain ⟨e, he⟩ := (outputData_eq_ok.1 hout).touches.joins
          refine akin_item hlookOut hdescOut ?_
          rcases wf.usage_of_written he houtData with hu | hu <;> simp [hu]
        | succ k => cases hd)
    hclones
  exact f₅.addConcat wf₅ (batchOut.keeps (hadded.sameLooks.trans looks₅).keeps) hconcat

/-- A visit keeps stages fit. -/
theorem Fits.adjustStage {changed : Bool} (f : g.Fits Site.Early) (o : g.Orderly)
    (h : g.adjustBatch id = .ok (g', changed)) : g'.Fits Site.Early ∧ g'.Orderly := by
  obtain ⟨site, hsite, ⟨_, rfl⟩ | ⟨batch, hbatch, h⟩⟩ := adjustBatch_eq_ok h
  · exact ⟨f, o⟩
  · exact ⟨f.splitStage o.wellFormed hsite hbatch h, o.splitStage h⟩

theorem Fits.adjustBatch {config : Config} {changed : Bool} (f : g.Fits Site.Early) (o : g.Orderly)
    (h : Pass.adjustBatch.run config g = .ok (g', changed)) : g'.Fits Site.Early := by
  simp only [Pass.adjustBatch, Outcome.bind_eq_ok] at h
  obtain ⟨order, _, h⟩ := h
  exact (Pass.sweep_keeps (fun _ g => g.Fits Site.Early ∧ g.Orderly)
    (fun _ _ _ _ _ hg h => hg.1.adjustStage hg.2 h) ⟨f, o⟩ h).1

end Graph

end NetLower
