/-
What splitting batches keeps, and what it is for.  The caller sees the same tensors, a
clone is the stage it was made from but for its name, and in the end no stage that runs
item by item has more than one item before it.
-/
import NetLower.Proofs.Graph.Rearranged
import NetLower.Proofs.Pass.BatchFit

namespace NetLower

namespace Site

variable {s s' : Site}

/-- A stage that runs item by item has one item. -/
def Single (s : Site) : Prop := s.Itemwise → ∀ x, s.inputs[0]? = some x → (x.desc.dim? .n).getD 1 ≤ 1

theorem Itemwise.congr (h : s'.Itemwise) (hkind : s'.kind = s.kind) (hattrs : s'.attrs = s.attrs) :
    s.Itemwise := by
  rcases h with hweights | ⟨hhard, op, hop, hweights⟩
  · exact .inl (hkind ▸ hweights)
  · exact .inr ⟨hkind ▸ hhard, op, hardwareOp_congr hattrs.symm hop, hweights⟩

theorem stable_single : Stable Single Look.sized where
  refl _ _ _ := rfl
  closed s s' like h := by
    intro hitems x' hx'
    obtain ⟨x, hx, hdims⟩ := like.slot_of (show (s'.slots .input)[0]? = some x' from hx')
    have hdim : x'.desc.dim? .n = x.desc.dim? .n := Desc.dim?_congr hdims .n
    rw [hdim]
    exact h (hitems.congr like.kind like.attrs) x hx

theorem single_of_kind (hweights : s.kind.isWeightable = false) (hhard : s.kind ≠ .hardware) : s.Single := by
  intro hitems
  rcases hitems with h | ⟨h, _⟩
  · rw [hweights] at h
    cases h
  · exact absurd h hhard

theorem weightableBatch_eq_ok {report : Report BatchSupport} (h : s.weightableBatch = .ok report) :
    report.input? 0 = some .split ∧ report.output? 0 = some .split := by
  simp only [weightableBatch, Outcome.bind_eq_ok, Outcome.pure_eq_ok, input_eq_ok, output_eq_ok] at h
  obtain ⟨_, _, x, hx, y, hy, rfl⟩ := h
  have hin := (List.getElem?_eq_some_iff.1 hx).1
  have hout := (List.getElem?_eq_some_iff.1 hy).1
  constructor
  · simp [Report.input?, Report.setInput, Report.setOutput, Report.blank, hin]
  · simp [Report.output?, Report.setInput, Report.setOutput, Report.blank, hout]

theorem Itemwise.batch_eq (h : s.Itemwise) : s.kind.family.batch s = s.weightableBatch := by
  rcases h with hweights | ⟨hhard, op, hop, hweights⟩
  · revert hweights
    cases hk : s.kind <;> simp only [StageKind.family, StageKind.isWeightable] <;> intro hweights
    case stubConv | stubFullyConnected | stubDeconv =>
      simp only [StageFamily.batch, stubSort, hk]
      rfl
    case convolution | fullyConnected | deconvolution => rfl
    all_goals cases hweights
  · simp only [hhard, StageKind.family, StageFamily.batch, hop]
    exact if_pos hweights

/-- What runs item by item says so. -/
theorem Itemwise.batch {report : Report BatchSupport} (h : s.Itemwise) (hb : s.kind.family.batch s = .ok report) :
    report.input? 0 = some .split ∧ report.output? 0 = some .split := weightableBatch_eq_ok (h.batch_eq ▸ hb)

/-- A stage that fits and is not split has at most one item. -/
theorem Fit.single (h : s.Fit) (hnone : s.splitBatch? = .ok none) : s.Single := by
  intro hitems x hx
  obtain ⟨a, w, b, y, hins, houts, _⟩ := (h.weighted hitems).1.eq
  rw [hins, List.getElem?_cons_zero, Option.some.injEq] at hx
  subst hx
  simp only [splitBatch?, hins, houts, Outcome.bind_eq_ok] at hnone
  obtain ⟨report, hreport, hnone⟩ := hnone
  rw [if_pos (hitems.batch hreport)] at hnone
  simp only [Outcome.check_bind_eq_ok, Outcome.pure_eq_ok] at hnone
  obtain ⟨_, hnone⟩ := hnone
  split at hnone
  · cases hnone
  · omega

end Site

namespace Graph

variable {g g' : Graph} {id z : StageId} {batch : Nat} {config : Config} {changed : Bool}

/-! ## What is known of stages -/

section staff

variable {T : StageTemplate → Prop}

theorem Staff.addBatchStage {name : String} {kind : StageKind} {inputs outputs : List DataId} (h : g.Staff T)
    (hT : ∀ t : StageTemplate, t.kind = kind → t.origin = none → T t)
    (ha : g.addBatchStage name kind inputs outputs = .ok g') : g'.Staff T := by
  obtain ⟨z, attrs, _, hadd⟩ := addBatchStage_axis ha
  exact h.added hadd (hT _ rfl rfl)

/-- What is known of a stage, whatever its name, is known of its clones. -/
theorem Staff.adjustBatch (h : g.Staff T) (hname : ∀ (t : StageTemplate) (name : String), T t → T { t with name })
    (hsplit : ∀ t : StageTemplate, t.kind = .split → t.origin = none → T t)
    (hconcat : ∀ t : StageTemplate, t.kind = .concat → t.origin = none → T t)
    (hpass : Pass.adjustBatch.run config g = .ok (g', changed)) : g'.Staff T := by
  simp only [Pass.adjustBatch, Outcome.bind_eq_ok] at hpass
  obtain ⟨order, _, hpass⟩ := hpass
  refine Pass.sweep_keeps (fun _ x => x.Staff T) (fun id _ x x' _ hx hvisit => ?_) h hpass
  obtain ⟨_, _, ⟨_, rfl⟩ | ⟨batch, _, hvisit⟩⟩ := adjustBatch_eq_ok hvisit
  · exact hx
  obtain ⟨s, _, _, _, _, _, _, _, x₁, x₂, x₃, x₄, x₅, hs, _, _, _, hremoved, ⟨_, _, hx₂⟩, ⟨_, _, hx₃⟩, hsplits,
    hclones, hconcats⟩ := splitStage_eq_ok hvisit
  have staff₁ := hx.removed hremoved
  have staff₃ : x₃.Staff T := by
    rw [hx₃, hx₂]
    exact staff₁
  have staff₅ : x₅.Staff T := by
    refine Outcome.foldlM_keeps (fun _ y => y.Staff T) (fun item _ y y' hy hadd => ?_)
      (staff₃.addBatchStage hsplit hsplits) hclones
    simp only [Outcome.bind_eq_ok, Outcome.pure_eq_ok] at hadd
    obtain ⟨⟨z, _⟩, hadd, rfl⟩ := hadd
    exact hy.added (addStage_added hadd) (hname _ _ (hx id s hs))
  exact staff₅.addBatchStage hconcat hconcats

end staff

/-! ## What is known of tensors -/

namespace SameOutside

theorem pushAll {nodes : List Data} (hnodes : ∀ node ∈ nodes, node.Loose) : SameOutside g (g.pushAll nodes) := by
  induction nodes generalizing g with
  | nil => simpa [Graph.pushAll] using SameOutside.refl
  | cons node nodes ih =>
    rw [pushAll_cons]
    exact (pushData (hnodes node (by simp))).trans (ih fun x hx => hnodes x (by simp [hx]))

theorem addBatchStage {name : String} {kind : StageKind} {inputs outputs : List DataId}
    (h : g.addBatchStage name kind inputs outputs = .ok g') : SameOutside g g' := by
  obtain ⟨z, attrs, _, hadd⟩ := addBatchStage_axis h
  exact .added hadd

theorem splitStage (h : g.splitStage id batch = .ok g') : SameOutside g g' := by
  obtain ⟨s, _, _, _, _, _, _, _, g₁, g₂, g₃, g₄, g₅, _, _, _, _, hremoved, ⟨_, _, hg₂⟩, ⟨_, _, hg₃⟩, hsplit,
    hclones, hconcat⟩ := splitStage_eq_ok h
  have loose {name : String} {desc : Desc} : ∀ node ∈ itemNodes name desc (List.range batch), node.Loose := by
    intro node hnode
    obtain ⟨_, _, rfl⟩ := List.mem_map.1 hnode
    exact ⟨rfl, rfl, rfl, rfl⟩
  have same₁ : SameOutside g g₁ := .of_map hremoved.data? fun _ _ => ⟨rfl, rfl⟩
  have same₃ : SameOutside g g₃ := by
    rw [hg₃, hg₂]
    exact (same₁.trans (.pushAll loose)).trans (.pushAll loose)
  have same₅ : SameOutside g g₅ := by
    refine Outcome.foldlM_keeps (fun _ x => SameOutside g x) (fun item _ x x' hx hadd => ?_)
      (same₃.trans (.addBatchStage hsplit)) hclones
    simp only [Outcome.bind_eq_ok, Outcome.pure_eq_ok] at hadd
    obtain ⟨⟨z, _⟩, hadd, rfl⟩ := hadd
    exact hx.trans (.added (addStage_added hadd))
  exact same₅.trans (.addBatchStage hconcat)

theorem adjustBatch (h : Pass.adjustBatch.run config g = .ok (g', changed)) : SameOutside g g' := by
  simp only [Pass.adjustBatch, Outcome.bind_eq_ok] at h
  obtain ⟨order, _, h⟩ := h
  refine Pass.sweep_keeps (fun _ x => SameOutside g x) (fun id _ x x' _ hx hvisit => ?_) .refl h
  obtain ⟨_, _, ⟨_, rfl⟩ | ⟨batch, _, hvisit⟩⟩ := adjustBatch_eq_ok hvisit
  · exact hx
  · exact hx.trans (.splitStage hvisit)

end SameOutside

/-! ## Single items -/

/-- Every stage is in such a place, apart from those still to come. -/
def AllBut (rest : List StageId) (P : Site → Prop) (g : Graph) : Prop :=
  ∀ id site, g.site id = .ok site → id ∈ rest ∨ P site

namespace AllBut

variable {rest : List StageId} {P : Site → Prop} {R : SlotRel}

/-- A stage whose edges stay. -/
theorem stay (h : g.AllBut rest P) (st : Site.Stable P R) (wf : g.WellFormed) {s : Stage} {site : Site}
    (hs : g.stage? id = some s) (hsite : g'.site id = .ok site) (hs' : g'.stage? id = some s)
    (hstay : ∀ kind, ∀ e ∈ s.slots kind, g.Stays g' e) : id ∈ rest ∨ P site := by
  obtain ⟨old, hold, like⟩ := @WellFormed.site_like g g' id s R s site wf hs hsite hs' rfl rfl rfl
    fun kind k e node he hnode => by
      obtain ⟨node', hnode', hlook⟩ := hstay kind e (List.mem_of_getElem? he) node hnode
      exact ⟨node', hnode', hlook ▸ st.refl kind k _⟩
  exact (h id old hold).imp_right (st.closed old site like)

theorem removed {s : Stage} (h : g.AllBut (z :: rest) P) (st : Site.Stable P R) (wf : g.WellFormed)
    (hr : Removed g z s g') : g'.AllBut rest P := by
  intro id site hsite
  have hs := (site_eq_ok.1 hsite).1
  have hs₀ := hs
  rw [hr.stage?] at hs₀
  split at hs₀
  · cases hs₀
  next hne =>
    have hid := h.stay st wf hs₀ hsite hs fun _ e _ => hr.sameLooks.stays fun d hd => (hr.target?_eq e).trans hd
    exact hid.imp_left fun hmem => (List.mem_cons.1 hmem).resolve_left hne

theorem pushAll {nodes : List Data} (h : g.AllBut rest P) (st : Site.Stable P R) (wf : g.WellFormed) :
    (g.pushAll nodes).AllBut rest P := by
  intro id site hsite
  have hs := (site_eq_ok.1 hsite).1
  refine h.stay st wf hs hsite hs fun _ e _ node hnode => ?_
  obtain ⟨d, hd, hnode⟩ := tensor?_eq_some.1 hnode
  exact ⟨node, tensor?_eq_some.2 ⟨d, hd, data?_pushAll_old hnode⟩, rfl⟩

theorem added {template : StageTemplate} {inputs outputs : List DataId} (h : g.AllBut rest P)
    (st : Site.Stable P R) (wf : g.WellFormed) (ha : Added g template inputs outputs z g')
    (hnew : ∀ site, g'.site z = .ok site → P site) : g'.AllBut rest P := by
  intro id site hsite
  by_cases hz : id = z
  · exact .inr (hnew site (hz ▸ hsite))
  · have hs := (site_eq_ok.1 hsite).1
    have hs₀ := hs
    rw [ha.stage?, if_neg hz] at hs₀
    exact h.stay st wf hs₀ hsite hs fun _ e _ => ha.stays e

end AllBut

variable {rest : List StageId}

/-- Clones that each read one item. -/
theorem AllBut.addClones {template : StageTemplate} {extra : List DataId} {items : List (DataId × DataId)}
    {v : Look} (h : g.AllBut rest Site.Single) (wf : g.WellFormed) (hitems : g.Uniform (items.map Prod.fst) v)
    (hone : v.desc.dim? .n = some 1) (ha : g.addClones template extra items = .ok g') :
    g'.AllBut rest Site.Single ∧ g'.WellFormed := by
  have := Outcome.foldlM_keeps
    (fun left x => (x.AllBut rest Site.Single ∧ x.WellFormed ∧ x.Uniform (items.map Prod.fst) v) ∧
      ∀ y ∈ left, y.1 ∈ items)
    (by
      rintro ⟨⟨itemInput, itemOutput⟩, index⟩ left x x' ⟨⟨hall, wf, hitems⟩, hmem⟩ hadd
      simp only [Outcome.bind_eq_ok, Outcome.pure_eq_ok] at hadd
      obtain ⟨⟨z, _⟩, hadd, rfl⟩ := hadd
      have hadded := addStage_added hadd
      refine ⟨⟨hall.added Site.stable_single wf hadded fun site hsite => ?_, wf.added hadded (by simp),
        hitems.keeps hadded.sameLooks.keeps⟩, fun y hy => hmem y (by simp [hy])⟩
      intro _ node hnode
      obtain ⟨node', old, hnode', hold, hlook⟩ :=
        @Added.slot_of_site x _ site itemInput _ _ _ z hadded hsite .input 0 rfl
      rw [show (site.slots .input)[0]? = some node from hnode, Option.some.injEq] at hnode'
      have hitem : old.look = v := by
        refine hitems.look (List.mem_map_of_mem (hmem ((itemInput, itemOutput), index) (by simp))) hold
      rw [hnode', show node'.desc = v.desc from congrArg Look.desc (hlook.trans hitem), hone]
      exact Nat.le_refl 1)
    ⟨⟨h, wf, hitems⟩, fun y hy => List.fst_mem_of_mem_zipIdx hy⟩ ha
  exact ⟨this.1.1, this.1.2.1⟩

theorem AllBut.addBatchStage {name : String} {kind : StageKind} {inputs outputs : List DataId}
    (h : g.AllBut rest Site.Single) (wf : g.WellFormed) (hkind : kind.isWeightable = false)
    (hhard : kind ≠ .hardware) (hn : outputs.Nodup) (ha : g.addBatchStage name kind inputs outputs = .ok g') :
    g'.AllBut rest Site.Single ∧ g'.WellFormed ∧ SameLooks g g' := by
  obtain ⟨z, attrs, _, hadd⟩ := addBatchStage_axis ha
  refine ⟨h.added Site.stable_single wf hadd fun site hsite => ?_, wf.added hadd hn, hadd.sameLooks⟩
  have hk := (hadd.kind_of_site hsite).1
  exact Site.single_of_kind (hk ▸ hkind) (hk ▸ hhard)

theorem AllBut.splitStage (h : g.AllBut (id :: rest) Site.Single) (wf : g.WellFormed)
    (hsplit : g.splitStage id batch = .ok g') : g'.AllBut rest Site.Single := by
  obtain ⟨s, input, output, reads, nodeIn, nodeOut, descIn, descOut, g₁, g₂, g₃, g₄, g₅, _, _, _, _, hremoved,
    ⟨_, hdescIn, hg₂⟩, ⟨_, _, hg₃⟩, hsplits, hclones, hconcat⟩ := splitStage_eq_ok hsplit
  have unlinked {name : String} {desc : Desc} : ∀ node ∈ itemNodes name desc (List.range batch),
      node.consumers = [] ∧ node.producer = none := by
    intro node hnode
    obtain ⟨_, _, rfl⟩ := List.mem_map.1 hnode
    exact ⟨rfl, rfl⟩
  have wf₁ := wf.removed hremoved
  have wf₂ : g₂.WellFormed := hg₂ ▸ wf₁.pushAll unlinked
  have wf₃ : g₃.WellFormed := hg₃ ▸ wf₂.pushAll unlinked
  have h₁ := h.removed Site.stable_single wf hremoved
  have h₂ : g₂.AllBut rest Site.Single := hg₂ ▸ h₁.pushAll Site.stable_single wf₁
  have h₃ : g₃.AllBut rest Site.Single := hg₃ ▸ h₂.pushAll Site.stable_single wf₂
  obtain ⟨h₄, wf₄, looks₄⟩ := h₃.addBatchStage wf₃ rfl (by decide) (nodup_freshIds _) hsplits
  have items₂ : g₂.Uniform (g₁.freshIds batch) ⟨descIn, .intermediate⟩ := hg₂ ▸ uniform_items _ _ _
  have items₄ : g₄.Uniform (g₁.freshIds batch) ⟨descIn, .intermediate⟩ :=
    items₂.keeps (KeepsLooks.trans (hg₃ ▸ keepsLooks_pushAll _) looks₄.keeps)
  have inputs₄ : g₄.Uniform (((g₁.freshIds batch).zip (g₂.freshIds batch)).map Prod.fst)
      ⟨descIn, .intermediate⟩ := by
    intro d hd
    obtain ⟨item, hitem, rfl⟩ := List.mem_map.1 hd
    exact items₄ item.1 (List.of_mem_zip hitem).1
  obtain ⟨h₅, wf₅⟩ := h₄.addClones wf₄ inputs₄ (Desc.setDim_eq_ok hdescIn).2.2 hclones
  exact (h₅.addBatchStage wf₅ rfl (by decide) (by simp) hconcat).1

/-- No stage is left with more than one item. -/
theorem Fits.adjustBatch_single (f : g.Fits Site.Early) (o : g.Orderly)
    (h : Pass.adjustBatch.run config g = .ok (g', changed)) : g'.All Site.Single := by
  simp only [Pass.adjustBatch, Outcome.bind_eq_ok] at h
  obtain ⟨order, horder, h⟩ := h
  have start : g.AllBut order Site.Single := fun id site hsite =>
    .inl ((runOrder_perm horder).mem_iff.2 (mem_liveIds.2 ⟨_, (site_eq_ok.1 hsite).1⟩))
  have done := Pass.sweep_keeps (fun rest x => x.Fits Site.Early ∧ x.Orderly ∧ x.AllBut rest Site.Single)
    (fun id rest x x' _ hx hvisit => by
      obtain ⟨f, o, hall⟩ := hx
      obtain ⟨site, hsite, ⟨hnone, rfl⟩ | ⟨batch, hbatch, hvisit⟩⟩ := adjustBatch_eq_ok hvisit
      · refine ⟨f, o, fun y ysite hysite => ?_⟩
        rcases hall y ysite hysite with hmem | hsingle
        · rcases List.mem_cons.1 hmem with rfl | hmem
          · rw [hsite, Except.ok.injEq] at hysite
            exact .inr (hysite ▸ (f.all y site hsite).fit.single hnone)
          · exact .inl hmem
        · exact .inr hsingle
      · exact ⟨f.splitStage o.wellFormed hsite hbatch hvisit, o.splitStage hvisit,
          hall.splitStage o.wellFormed hvisit⟩)
    ⟨f, o, start⟩ h
  exact fun id site hsite => (done.2.2 id site hsite).resolve_left (by simp)

end Graph

end NetLower
