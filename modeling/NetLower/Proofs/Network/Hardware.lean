/-
What runs on the hardware.  A layer decides whether its stage may try the hardware, and a
stub becomes a hardware stage only if it may; batches are split before that.  The orders
and the strides are what the stage asks for, and places are aligned, so the rows of its
tensors are.
-/
import NetLower.Proofs.Network.Scales
import NetLower.Proofs.Stations

namespace NetLower

open NetLower.Graph

/-! ## Layers that may use the hardware -/

namespace Network

variable {n : Network} {config : Config} {t t' : StageTemplate}

/-- The stage is the one of a layer that may run on the hardware, unless it is a deconvolution. -/
def Allows (n : Network) (config : Config) (t : StageTemplate) : Prop :=
  ∃ l ∈ n.layers, t.origin = some l.name ∧ config.allowsHardware l.name = true ∧
    (l.type = "Deconvolution" → t.kind = .stubDeconv)

/-- A stub that may try the hardware and a stage that runs on it are allowed to, with a window if
they have one. -/
structure Vets (n : Network) (config : Config) (t : StageTemplate) : Prop where
  stub : t.kind.isStub = true → t.attrs.get? .tryHw = some (.bool true) →
    n.Allows config t ∧ (t.kind ≠ .stubFullyConnected → t.attrs.Movable config)
  hardware : t.kind = .hardware →
    n.Allows config t ∧ (t.attrs.getInt .hwOpKind ≠ .ok HardwareOp.fullyConnected.code → t.attrs.Movable config)

/-- Nothing is to be said of software. -/
theorem vets_of_software (hstub : t.kind.isStub = false) (hhard : t.kind ≠ .hardware) : n.Vets config t :=
  ⟨fun h => absurd (hstub.symm.trans h) (by decide), fun h => absurd h hhard⟩

/-- What the stage of a layer may is for the options and the window to say. -/
theorem vets_of_makes {l : Layer} (hl : l ∈ n.layers) (makes : l.Makes t) (clears : l.Clears config t) :
    n.Vets config t := by
  obtain ⟨operation, hoperation, hbecomes⟩ := makes.kind
  constructor
  · intro _ hon
    obtain ⟨hallows, hmovable⟩ := clears hon
    refine ⟨⟨l, hl, makes.origin, hallows, fun htype => ?_⟩, hmovable⟩
    rw [htype, show Operation.ofName? "Deconvolution" = some (.convolve .deconvolution) from rfl,
      Option.some.injEq] at hoperation
    subst hoperation
    exact hbecomes
  · intro hhard
    rw [hhard] at hbecomes
    cases operation with
    | convolve kind => cases kind <;> cases hbecomes
    | dense => cases hbecomes
    | pool => rcases hbecomes with h | h <;> cases h
    | power => cases hbecomes

/-- A stub that is lowered to the hardware may run there. -/
theorem Vets.lowered (h : n.Vets config t) (hlowered : t.Lowered t') : n.Vets config t' := by
  cases hlowered with
  | software hlowering =>
    have real := StageKind.software_of_lowering hlowering
    exact vets_of_software real.1 real.2.1
  | @hardware op software attrs hlowering hon hattrs =>
    obtain ⟨hstub, hdeconv, hdense, _⟩ := StageKind.hardware_of_lowering hlowering
    obtain ⟨⟨l, hl, horigin, hallows, htype⟩, hmovable⟩ := h.stub hstub (Attrs.get?_of_isOn hon)
    refine ⟨nofun, fun _ => ⟨⟨l, hl, horigin, hallows, fun h => absurd (htype h) hdeconv⟩, fun hop => ?_⟩⟩
    have hcode : attrs.getInt .hwOpKind = .ok op.code :=
      Attrs.getInt_of_get? (by rw [Attrs.get?_set hattrs, if_pos rfl])
    obtain ⟨w, hw, hmoves⟩ := hmovable fun hkind => hop (hdense hkind ▸ hcode)
    exact ⟨w, (Attrs.window_set hattrs (by decide)).trans hw, hmoves⟩

end Network

/-! ## Single items -/

/-- Only a stub that runs item by item becomes a stage that does. -/
theorem Site.Single.lowered {s : Site} {x : Stage} (h : s.Single)
    (hlowered : s.stage.toStageTemplate.Lowered x.toStageTemplate) : Site.Single { s with stage := x } := by
  intro hitems
  refine h (.inl ?_)
  obtain ⟨template, ins, outs⟩ := x
  cases hlowered with
  | software hlowering =>
    obtain ⟨_, hhard, hsame⟩ := StageKind.software_of_lowering hlowering
    rcases hitems with hweights | ⟨h, _⟩
    · exact hsame.symm.trans hweights
    · exact absurd h hhard
  | @hardware op software attrs hlowering _ hattrs =>
    obtain ⟨_, _, _, hsame⟩ := StageKind.hardware_of_lowering hlowering
    rcases hitems with hweights | ⟨_, op', hop, hweights⟩
    · cases hweights
    · have hcode : attrs.getInt .hwOpKind = .ok op.code :=
        Attrs.getInt_of_get? (by rw [Attrs.get?_set hattrs, if_pos rfl])
      simp only [Site.hardwareOp, Site.attrs, hcode, Outcome.bind_eq_ok, Except.ok.injEq, exists_eq_left',
        HardwareOp.ofCode?_code, Outcome.pure_eq_ok] at hop
      exact hsame.symm.trans (hop ▸ hweights)

/-! ## Rows -/

/-- Every row of the tensor starts at a multiple of 16 bytes in its area. -/
def Data.RowsAligned (d : Data) : Prop :=
  ∃ l strides, d.location = some l ∧ d.strides = some strides ∧
    ∀ i : Dim → Nat, i .w = 0 → 16 ∣ l.offset + d.desc.order.place strides i

theorem Data.rowsAligned_of_meets {d : Data} {l : Location} (hmeets : d.Meets alignedRows)
    (hrank : d.desc.rank = 4) (horder : d.desc.order = .nchw) (hl : d.location = some l)
    (hoffset : dataAlignment ∣ l.offset) : d.RowsAligned := by
  obtain ⟨strides, hstrides, hdesc⟩ := hmeets
  refine ⟨l, strides, hl, hstrides, fun i hi => ?_⟩
  have haligned := hdesc.strides_aligned rfl fun p hp hlt => by
    rw [hrank] at hlt
    obtain rfl | rfl : p = 2 ∨ p = 3 := by omega
    · rfl
    · rfl
  rw [hrank] at haligned
  have hlen := hdesc.1
  rw [hrank] at hlen
  obtain ⟨a, b, c, e, rfl⟩ : ∃ a b c e, strides = [a, b, c, e] := by
    match strides, hlen with
    | [a, b, c, e], _ => exact ⟨a, b, c, e, rfl⟩
  have hplace : d.desc.order.place [a, b, c, e] i = i .h * b + (i .c * c + i .n * e) := by
    rw [horder, Order.place, show Order.nchw.memory.map i = [i .w, i .h, i .c, i .n] from rfl, hi]
    simp
  have hb : 16 ∣ b := haligned 1 (by decide) (by decide)
  have hc : 16 ∣ c := haligned 2 (by decide) (by decide)
  have he : 16 ∣ e := haligned 3 (by decide) (by decide)
  rw [hplace]
  refine Nat.dvd_add (Nat.dvd_trans (by decide) hoffset) (Nat.dvd_add (hb.mul_left _) ?_)
  exact Nat.dvd_add (hc.mul_left _) (he.mul_left _)

/-- A hardware stage that needs a window asks for aligned rows at both ends. -/
theorem Site.rows_of_stridesMet {s : Site} {op : HardwareOp} {x y : Data} (h : s.StridesMet)
    (hkind : s.kind = .hardware) (hop : s.hardwareOp = .ok op) (hdense : op ≠ .fullyConnected)
    (hx : s.inputs[0]? = some x) (hy : s.outputs[0]? = some y) (hxu : x.usage ≠ .fake) (hyu : y.usage ≠ .fake) :
    x.Meets alignedRows ∧ y.Meets alignedRows := by
  obtain ⟨report, hreport, hmet⟩ := h
  simp only [hkind, StageKind.family, StageFamily.strides, hop, Outcome.bind_eq_ok, Except.ok.injEq,
    exists_eq_left', if_neg hdense, Outcome.pure_eq_ok] at hreport
  obtain ⟨_, _, _, _, rfl⟩ := hreport
  have hin := (List.getElem?_eq_some_iff.1 hx).1
  have hout := (List.getElem?_eq_some_iff.1 hy).1
  refine ⟨hmet .input 0 alignedRows x ?_ hx hxu, hmet .output 0 alignedRows y ?_ hy hyu⟩
  · simp [Report.slots, Report.setInput, Report.setOutput, Report.uniform, hin]
  · simp [Report.slots, Report.setInput, Report.setOutput, Report.uniform, hout]

/-- The final check of a hardware stage with a window looks at the orders of its main tensors. -/
theorem Site.orders_of_finalCheck {s : Site} {op : HardwareOp} {x y : Data} (hkind : s.kind = .hardware)
    (h : s.kind.family.finalCheck s = .ok ()) (hop : s.hardwareOp = .ok op) (hdense : op ≠ .fullyConnected)
    (hx : s.inputs[0]? = some x) (hy : s.outputs[0]? = some y) : x.desc.order = .nchw ∧ y.desc.order = .nchw := by
  simp only [hkind, StageKind.family, StageFamily.finalCheck, hop, Outcome.bind_eq_ok, Except.ok.injEq,
    exists_eq_left', if_neg hdense, checkMainOrder, input_eq_ok, output_eq_ok, hx, hy, Option.some.injEq,
    Outcome.forEach_eq_ok, Outcome.require_eq_ok] at h
  obtain ⟨_, _, _, _, _, _, horders⟩ := h
  exact ⟨horders x (by simp), horders y (by simp)⟩

/-- A tensor that the hardware can go through row by row. -/
structure Data.Rowwise (d : Data) : Prop where
  rank : d.desc.rank = 4
  order : d.desc.order = .nchw
  aligned : d.RowsAligned

/-! ## Stages on the hardware -/

namespace Network

variable {n : Network} {config : Config} {g lowered : Graph} {id : StageId} {s : Stage}

theorem vets_of_stations (hg : n.graph config = .ok g) (st : Stations config g lowered) :
    lowered.Staff (n.Vets config) := by
  have wf := graph_wellFormed hg
  have relays (t : StageTemplate) (ht : t.kind.isRelay = true) : n.Vets config t := by
    refine vets_of_software ?_ ?_ <;> revert ht <;> cases t.kind <;> decide
  have fresh : g.Staff (n.Vets config) := by
    intro id s hs
    obtain ⟨l, hl, makes, clears⟩ := graph_makes hg hs
    exact vets_of_makes hl makes clears
  obtain ⟨_, hbatch⟩ := st.batch
  have batched := fresh.adjustBatch (fun _ _ h => ⟨h.stub, h.hardware⟩)
    (fun t ht _ => vets_of_software (by rw [ht]; rfl) (by rw [ht]; decide))
    (fun t ht _ => vets_of_software (by rw [ht]; rfl) (by rw [ht]; decide)) hbatch
  have scaled := (st.scaled_rearranged wf).staff relays batched
  exact (st.lowered_rearranged wf).staff relays (st.real_staff scaled fun _ _ hlowered h => h.lowered hlowered)

theorem single_of_stations (hg : n.graph config = .ok g) (st : Stations config g lowered) :
    lowered.All Site.Single := by
  have wf := graph_wellFormed hg
  have relays (s : Site) (hs : s.kind.isRelay = true) : s.Single := by
    refine Site.single_of_kind ?_ ?_ <;> revert hs <;> cases s.kind <;> decide
  obtain ⟨_, hbatch⟩ := st.batch
  have batched := (st.early (graph_fresh hg)).adjustBatch_single (st.orderly wf) hbatch
  have scaled := (st.scaled_rearranged wf).all Site.stable_single relays batched
  exact (st.lowered_rearranged wf).all Site.stable_single relays
    (st.real_all wf Site.stable_single scaled fun _ _ hlowered h => h.lowered hlowered)

/-- What a stage with a window asks of strides is met, and so is what the final check asks of
orders. -/
theorem rowwise_of_stations {site : Site} {op : HardwareOp} {x y : Data} (wf : g.WellFormed)
    (st : Stations config g lowered) (hsite : lowered.site id = .ok site) (hkind : site.kind = .hardware)
    (hop : site.hardwareOp = .ok op) (hsuit : op.Suits site) (hdense : op ≠ .fullyConnected)
    (hx : site.inputs[0]? = some x) (hy : site.outputs[0]? = some y) : x.Rowwise ∧ y.Rowwise := by
  have wf' := (st.lowered_orderly wf).wellFormed
  have hs := (site_eq_ok.1 hsite).1
  have hxu : x.usage ≠ .fake := hsuit.solid x hx
  have hyu : y.usage ≠ .fake := by
    obtain ⟨e, d, he, hedge, hd⟩ := wf'.edge_of_slot hsite (show (site.slots .output)[0]? = some y from hy)
    rcases wf'.usage_of_written ⟨id, site.stage, hs, List.mem_of_getElem? he, target?_of_edge? hedge⟩
      hd with hu | hu <;> simp [hu]
  obtain ⟨hmeetsx, hmeetsy⟩ : x.Meets alignedRows ∧ y.Meets alignedRows := by
    obtain ⟨reqs, hreqs, m⟩ := st.measuring wf
    obtain ⟨site', hsite', hmet⟩ := m.stridesMet (st.ordered_orderly wf).wellFormed wf' hreqs
      (fun _ _ => st.strided) hs
    rw [hsite, Except.ok.injEq] at hsite'
    subst hsite'
    exact Site.rows_of_stridesMet hmet hkind hop hdense hx hy hxu hyu
  obtain ⟨horderx, hordery⟩ : x.desc.order = .nchw ∧ y.desc.order = .nchw := by
    obtain ⟨_, hfinal⟩ := st.final
    obtain ⟨_, order, horder, hchecks⟩ := Pass.checkAll_eq_ok hfinal
    obtain ⟨site', hsite', hcheck⟩ := hchecks id ((runOrder_perm horder).mem_iff.2 (mem_liveIds.2 ⟨_, hs⟩))
    rw [hsite, Except.ok.injEq] at hsite'
    subst hsite'
    exact Site.orders_of_finalCheck hkind hcheck hop hdense hx hy
  obtain ⟨lx, hlx, halignx⟩ := st.placed wf hsite (show (site.slots .input)[0]? = some x from hx) hxu
  obtain ⟨ly, hly, haligny⟩ := st.placed wf hsite (show (site.slots .output)[0]? = some y from hy) hyu
  have hrank := (hsuit.window hdense).2
  have hrankx := hrank .input x hx
  have hranky := hrank .output y hy
  exact ⟨⟨hrankx, horderx, Data.rowsAligned_of_meets hmeetsx hrankx horderx hlx halignx⟩,
    ⟨hranky, hordery, Data.rowsAligned_of_meets hmeetsy hranky hordery hly haligny⟩⟩

/-- Hardware stages respect the hardware. Each is the stage of a layer that is no deconvolution and
may run on the hardware by the options. It has one item before it where it reads weights; and unless
it is a fully connected one, its window is one that the hardware can move and its tensors are ones
that the hardware can go through row by row. -/
theorem hardware_respected (hg : n.graph config = .ok g) (h : g.lower config = .ok lowered)
    (hs : lowered.stage? id = some s) (hkind : s.kind = .hardware) :
    (config.hwOptimization = true ∧ ∃ l ∈ n.layers, s.origin = some l.name ∧ l.type ≠ "Deconvolution" ∧
        l.name ∉ config.hwDisabledLayers) ∧
      ∃ site op x y, lowered.site id = .ok site ∧ site.stage = s ∧ site.hardwareOp = .ok op ∧
        site.inputs[0]? = some x ∧ site.outputs[0]? = some y ∧
        (op = .conv ∨ op = .fullyConnected → (x.desc.dim? .n).getD 1 ≤ 1) ∧
        (op ≠ .fullyConnected →
          (∃ w, s.attrs.window = .ok w ∧ w.Movable config) ∧ x.Rowwise ∧ y.Rowwise) := by
  obtain ⟨st⟩ := stations_of_lower h
  have wf := graph_wellFormed hg
  have wf' := (st.lowered_orderly wf).wellFormed
  obtain ⟨site, hsite, rfl⟩ := wf'.site_of_stage hs
  obtain ⟨⟨l, hl, horigin, hallows, htype⟩, hmovable⟩ := (vets_of_stations hg st id site.stage hs).hardware hkind
  obtain ⟨op, hop, hsuit⟩ : ∃ op, site.hardwareOp = .ok op ∧ op.Suits site := by
    have hfit := ((st.lowered_done wf (graph_fresh hg)).all id site hsite).fit.2
    rw [show site.kind = .hardware from hkind] at hfit
    exact hfit
  obtain ⟨x, y, hx, hy⟩ := Site.main_of_length hsuit.lengths.1 hsuit.lengths.2
  constructor
  · simp only [Config.allowsHardware, Config.isHwDisabled, Bool.and_eq_true, Bool.not_eq_true',
      List.contains_eq_mem, decide_eq_false_iff_not] at hallows
    refine ⟨hallows.1, l, hl, horigin, fun hdeconv => ?_, hallows.2⟩
    have := htype hdeconv
    rw [hkind] at this
    cases this
  refine ⟨site, op, x, y, hsite, rfl, hop, hx, hy, fun hweights => ?_, fun hdense => ⟨?_, ?_⟩⟩
  · refine single_of_stations hg st id site hsite (.inr ⟨hkind, op, hop, ?_⟩) x hx
    rcases hweights with rfl | rfl <;> rfl
  · refine hmovable fun hcode => hdense ?_
    simp only [Site.hardwareOp, Site.attrs, hcode, Outcome.bind_eq_ok, Except.ok.injEq, exists_eq_left',
      HardwareOp.ofCode?_code, Outcome.pure_eq_ok] at hop
    exact hop.symm
  · exact rowwise_of_stations wf st hsite hkind hop hsuit hdense hx hy

/-- The first of the two images is convolved on the hardware. -/
theorem twoImages_hardware_respected :
    ∃ g lowered s, twoImages.graph {} = .ok g ∧ g.lower {} = .ok lowered ∧ lowered.stage? ⟨3⟩ = some s ∧
      s.kind = .hardware ∧
      ((({} : Config).hwOptimization = true ∧ ∃ l ∈ twoImages.layers, s.origin = some l.name ∧
          l.type ≠ "Deconvolution" ∧ l.name ∉ ({} : Config).hwDisabledLayers) ∧
        ∃ site op x y, lowered.site ⟨3⟩ = .ok site ∧ site.stage = s ∧ site.hardwareOp = .ok op ∧
          site.inputs[0]? = some x ∧ site.outputs[0]? = some y ∧
          (op = .conv ∨ op = .fullyConnected → (x.desc.dim? .n).getD 1 ≤ 1) ∧
          (op ≠ .fullyConnected →
            (∃ w, s.attrs.window = .ok w ∧ w.Movable {}) ∧ x.Rowwise ∧ y.Rowwise)) := by
  have hall : (do
      let g ← twoImages.graph {}
      let lowered ← g.lower {}
      let s ← lowered.stage ⟨3⟩
      return s.kind) = Except.ok .hardware := by decide +kernel
  simp only [Outcome.bind_eq_ok, Outcome.pure_eq_ok, stage_eq_ok] at hall
  obtain ⟨g, hg, lowered, h, s, hs, hkind⟩ := hall
  exact ⟨g, lowered, s, hg, h, hs, hkind, hardware_respected hg h hs hkind⟩

end Network

end NetLower
