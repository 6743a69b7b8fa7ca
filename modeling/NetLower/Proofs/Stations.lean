/-
The stations of a graph on its way through the compiler.  What a pass needs is what the
passes before it leave behind, so every graph on the way is orderly and its stages fit;
what the caller sees is the same at both ends; and in the end every tensor that is used
has the strides that are asked for and a place.
-/
import NetLower.Proofs.Blob.Areas
import NetLower.Proofs.Pass.BatchKept
import NetLower.Proofs.Pass.Rearranged
import NetLower.Proofs.Pass.StridesMet

namespace NetLower.Graph

/-- The graphs between the passes of a run. -/
structure Stations (config : Config) (g lowered : Graph) where
  batched : Graph
  scaled : Graph
  real : Graph
  ordered : Graph
  spaced : Graph
  laid : Graph
  check : ∃ changed, Pass.initialCheck.run config g = .ok (g, changed)
  batch : ∃ changed, Pass.adjustBatch.run config g = .ok (batched, changed)
  scale : ∃ changed, Pass.scalePropagation.run config batched = .ok (scaled, changed)
  stubs : ∃ changed, Pass.replaceStubs.run config scaled = .ok (real, changed)
  orders : ∃ changed, Pass.dataOrder.run config real = .ok (ordered, changed)
  strides : ∃ changed, Pass.strides.run config ordered = .ok (spaced, changed)
  layout : ∃ changed, Pass.finalizeLayout.run config spaced = .ok (laid, changed)
  memory : ∃ changed, Pass.allocateMemory.run config laid = .ok (lowered, changed)
  final : ∃ changed, Pass.finalCheck.run config lowered = .ok (lowered, changed)

variable {config : Config} {g lowered : Graph}

/-- A graph that is lowered goes through all stations. -/
theorem stations_of_lower (h : g.lower config = .ok lowered) : Nonempty (Stations config g lowered) := by
  rw [lower, show Pass.schedule Pass.standard = Pass.front ++ Pass.back from rfl] at h
  simp only [Pass.front, Pass.back, List.cons_append, List.nil_append, Pass.runAll, Outcome.bind_eq_ok] at h
  obtain ⟨⟨g₁, _⟩, hcheck, ⟨g₂, _⟩, hbatch, ⟨g₃, _⟩, hscale, ⟨g₄, _⟩, hstubs, ⟨g₅, _⟩, horders, ⟨g₆, _⟩, hstrides,
    ⟨g₇, _⟩, hlayout, ⟨g₈, _⟩, hmemory, ⟨g₉, _⟩, hfinal, h⟩ := h
  cases h
  obtain ⟨rfl, _⟩ := Pass.checkAll_eq_ok hcheck
  obtain ⟨rfl, _⟩ := Pass.checkAll_eq_ok hfinal
  exact ⟨⟨g₂, g₃, g₄, g₅, g₆, g₇, ⟨_, hcheck⟩, ⟨_, hbatch⟩, ⟨_, hscale⟩, ⟨_, hstubs⟩, ⟨_, horders⟩, ⟨_, hstrides⟩,
    ⟨_, hlayout⟩, ⟨_, hmemory⟩, ⟨_, hfinal⟩⟩⟩

namespace Stations

variable (st : Stations config g lowered)

/-! ## Orders to run in -/

section orderly

variable (wf : g.WellFormed)

include st wf

theorem orderly : g.Orderly := by
  obtain ⟨_, hcheck⟩ := st.check
  obtain ⟨_, order, horder, _⟩ := Pass.checkAll_eq_ok hcheck
  exact wf.orderly horder

theorem batched_orderly : st.batched.Orderly := by
  obtain ⟨_, h⟩ := st.batch
  exact (st.orderly wf).adjustBatch h

theorem scaled_orderly : st.scaled.Orderly := by
  obtain ⟨_, h⟩ := st.scale
  exact (st.batched_orderly wf).scalePropagation h

theorem real_orderly : st.real.Orderly := by
  obtain ⟨_, h⟩ := st.stubs
  exact (st.scaled_orderly wf).replaceStubs h

theorem ordered_orderly : st.ordered.Orderly := by
  obtain ⟨_, h⟩ := st.orders
  exact (st.real_orderly wf).dataOrder h

theorem spaced_orderly : st.spaced.Orderly := by
  obtain ⟨_, h⟩ := st.strides
  exact (st.ordered_orderly wf).strides h

theorem laid_orderly : st.laid.Orderly := by
  obtain ⟨_, h⟩ := st.layout
  exact (st.spaced_orderly wf).finalizeLayoutPass h

theorem lowered_orderly : lowered.Orderly := by
  obtain ⟨_, h⟩ := st.memory
  exact (st.laid_orderly wf).allocateMemory h

end orderly

/-! ## Stages that fit -/

section fits

variable (wf : g.WellFormed) (f : g.Fits Site.Fresh)

include st f

theorem early : g.Fits Site.Early := by
  obtain ⟨_, h⟩ := st.check
  exact f.initialCheck h

include wf

theorem scaled_early : st.scaled.Fits Site.Early := by
  obtain ⟨_, hbatch⟩ := st.batch
  obtain ⟨_, hscale⟩ := st.scale
  exact ((st.early f).adjustBatch (st.orderly wf) hbatch).scalePropagation (st.batched_orderly wf) hscale

theorem lowered_done : lowered.Fits Site.Done := by
  obtain ⟨_, hstubs⟩ := st.stubs
  obtain ⟨_, horders⟩ := st.orders
  obtain ⟨_, hstrides⟩ := st.strides
  obtain ⟨_, hlayout⟩ := st.layout
  obtain ⟨_, hmemory⟩ := st.memory
  have f₁ := ((st.scaled_early wf f).replaceStubs (st.scaled_orderly wf).wellFormed config).2 hstubs
  have f₂ := (f₁.dataOrder (st.real_orderly wf) config).2 horders
  have f₃ := (f₂.strides (st.ordered_orderly wf) config).2 hstrides
  have f₄ := ((f₃.finalizeLayoutPass (st.spaced_orderly wf) config).2 hlayout).1
  exact f₄.allocateMemory (st.laid_orderly wf).wellFormed hmemory

end fits

/-! ## What the passes rearrange -/

section rearranged

variable (wf : g.WellFormed)

include wf

theorem scaled_rearranged : st.batched.Rearranged st.scaled := by
  obtain ⟨_, h⟩ := st.scale
  exact (st.batched_orderly wf).scalePropagation_rearranged h

/-- What comes behind the choice of orders. -/
theorem ordered_rearranged : st.ordered.Rearranged lowered := by
  obtain ⟨_, hstrides⟩ := st.strides
  obtain ⟨_, hlayout⟩ := st.layout
  obtain ⟨_, hmemory⟩ := st.memory
  have h₁ := (st.ordered_orderly wf).strides_rearranged hstrides
  have h₂ := (st.spaced_orderly wf).finalizeLayoutPass_rearranged hlayout
  have h₃ := (st.laid_orderly wf).wellFormed.allocateMemory_rearranged hmemory
  exact (h₁.trans h₂).trans h₃

theorem lowered_rearranged : st.real.Rearranged lowered := by
  obtain ⟨_, horders⟩ := st.orders
  exact ((st.real_orderly wf).dataOrder_rearranged horders).trans (st.ordered_rearranged wf)

end rearranged

/-! ## Lowering -/

/-- What is known of stages is known of them when they are lowered. -/
theorem real_staff {T : StageTemplate → Prop} (h : st.scaled.Staff T) (hT : ∀ t t', t.Lowered t' → T t → T t') :
    st.real.Staff T := by
  obtain ⟨_, hstubs⟩ := st.stubs
  refine Pass.sweep_keeps (fun _ x => x.Staff T) (fun id _ x x' _ hx hlower => ?_) h hstubs
  obtain ⟨s, f, hs, rfl, _, hlowered⟩ := lowerStage_eq_ok hlower
  refine hx.modifyStage fun s' hs' => ?_
  rw [hs, Option.some.injEq] at hs'
  exact hs' ▸ hT _ _ hlowered (hx id s hs)

/-- The same for stages in their places. -/
theorem real_all {P : Site → Prop} {R : SlotRel} (wf : g.WellFormed) (stable : Site.Stable P R)
    (h : st.scaled.All P) (hP : ∀ (s : Site) (x : Stage), s.stage.toStageTemplate.Lowered x.toStageTemplate → P s →
      P { s with stage := x }) :
    st.real.All P := by
  obtain ⟨_, hstubs⟩ := st.stubs
  refine (Pass.sweep_keeps (fun _ x => x.WellFormed ∧ x.All P) (fun id _ x x' _ hx hlower => ?_)
    ⟨(st.scaled_orderly wf).wellFormed, h⟩ hstubs).2
  refine ⟨(SameLinks.lowerStage hlower).wellFormed hx.1, ?_⟩
  obtain ⟨s, f, hs, rfl, hslots, hlowered⟩ := lowerStage_eq_ok hlower
  refine hx.2.modifyStage stable hx.1 fun site hsite => ?_
  obtain ⟨old, hold, rfl⟩ := site_modifyStage hslots hsite
  have hstage := (site_eq_ok.1 hold).1
  rw [hs, Option.some.injEq] at hstage
  subst hstage
  exact hP old (f old.stage) hlowered (hx.2 id old hold)

theorem real_sameOutside : SameOutside st.scaled st.real := by
  obtain ⟨_, hstubs⟩ := st.stubs
  refine Pass.sweep_keeps (fun _ x => SameOutside st.scaled x) (fun id _ x x' _ hx hlower => ?_) .refl hstubs
  obtain ⟨s, f, _, rfl, _, _⟩ := lowerStage_eq_ok hlower
  exact hx.trans ⟨.refl, fun h => h⟩

include st in
/-- The caller sees the same tensors before and afterwards. -/
theorem sameOutside (wf : g.WellFormed) : SameOutside g lowered := by
  obtain ⟨_, hbatch⟩ := st.batch
  have h₁ := (SameOutside.adjustBatch hbatch).trans (st.scaled_rearranged wf).sameOutside
  exact (h₁.trans st.real_sameOutside).trans (st.lowered_rearranged wf).sameOutside

/-! ## Strides and places -/

include st in
/-- Every tensor has strides. -/
theorem strided {d : DataId} {node : Data} (hnode : lowered.data? d = some node) : node.Strided := by
  obtain ⟨_, hlayout⟩ := st.layout
  obtain ⟨_, hmemory⟩ := st.memory
  obtain ⟨place, _, _, hplaced⟩ := allocateMemory_eq_ok hmemory
  rw [hplaced] at hnode
  obtain ⟨old, hold, rfl⟩ := Option.map_eq_some_iff.1 hnode
  exact (finalizeLayoutPass_strided hlayout).1 d old hold

/-- Every stage has the strides it asks for. -/
theorem measuring (wf : g.WellFormed) :
    ∃ reqs, st.ordered.edgeReqs = .ok reqs ∧ Measuring st.ordered reqs Served [] lowered := by
  obtain ⟨_, hstrides⟩ := st.strides
  obtain ⟨_, hlayout⟩ := st.layout
  obtain ⟨_, hmemory⟩ := st.memory
  obtain ⟨reqs, hreqs, _, m⟩ := Measuring.layout (st.ordered_orderly wf).wellFormed hstrides hlayout
  exact ⟨reqs, hreqs, m.allocateMemory hmemory⟩

include st in
/-- What the caller gives or gets back is dense. -/
theorem dense (wf : g.WellFormed) {d : DataId} {node : Data} (hnode : lowered.data? d = some node)
    (hu : node.usage = .input ∨ node.usage = .output) : node.req = .compact := by
  -- The tensor is there when requirements are settled, and from then on it keeps its own.
  obtain ⟨old, hold, hface⟩ := (st.ordered_rearranged wf).sameOutside.interface.symm.data_of hnode hu
  obtain ⟨_, _, m⟩ := st.measuring wf
  obtain ⟨node', hnode', _, hdense⟩ := m.dense hold
  rw [hnode, Option.some.injEq] at hnode'
  subst hnode'
  have hreq : usageReq old.usage = .compact := by
    rw [show old.usage = node.usage from congrArg Face.usage hface]
    rcases hu with hu | hu <;> rw [hu] <;> rfl
  exact (hdense hreq).resolve_left (by simp)

include st in
/-- Every tensor at a slot has an aligned place. -/
theorem placed (wf : g.WellFormed) {id : StageId} {site : Site} {kind : EdgeKind} {k : Nat} {node : Data}
    (hsite : lowered.site id = .ok site) (hnode : (site.slots kind)[k]? = some node) (hreal : node.usage ≠ .fake) :
    ∃ l, node.location = some l ∧ dataAlignment ∣ l.offset := by
  have wf' := (st.lowered_orderly wf).wellFormed
  obtain ⟨_, hmemory⟩ := st.memory
  obtain ⟨e, d, he, hedge, hd⟩ := wf'.edge_of_slot hsite hnode
  have htouches : lowered.Touches kind id d :=
    ⟨site.stage, (site_eq_ok.1 hsite).1, e, List.mem_of_getElem? he, target?_of_edge? hedge⟩
  obtain ⟨area, harea⟩ := Option.isSome_iff_exists.1 (area?_isSome.2 hreal)
  obtain ⟨l, hl, _, haligned⟩ := placed_of_needed hmemory hd
    (neededArea?_eq_some.2 ⟨harea, .inr (.inr (wf'.isLinked htouches hd))⟩)
  exact ⟨l, hl, haligned⟩

end Stations

end NetLower.Graph
