/-
Settling orders is done in one run.  Where every stage is at rest a visit finds nothing to
do, so a second run leaves the graph as the first one left it.
-/
import NetLower.Proofs.Pass.OrderRest
import NetLower.Proofs.Pass.Rearranged
import NetLower.Proofs.Progress

namespace NetLower

namespace Pass

/-- A sweep that finds nothing to do anywhere. -/
theorem sweep_idle {visit : Graph → α → Outcome (Graph × Bool)} {g : Graph} : ∀ {places : List α},
    (∀ x ∈ places, visit g x = .ok (g, false)) → sweep places visit g = .ok (g, false)
  | [], _ => rfl
  | x :: places, h => by
    have hx := h x (by simp)
    have ih := sweep_idle fun y hy => h y (List.mem_cons_of_mem x hy)
    unfold sweep at ih ⊢
    rw [List.foldlM_cons]
    simp only [hx]
    exact ih

theorem sweepWith_idle {visit : σ × Graph → α → Outcome ((σ × Graph) × Bool)} {state : σ × Graph} :
    ∀ {places : List α}, (∀ x ∈ places, visit state x = .ok (state, false)) →
      sweepWith places visit state = .ok (state, false)
  | [], _ => rfl
  | x :: places, h => by
    have hx := h x (by simp)
    have ih := sweepWith_idle fun y hy => h y (List.mem_cons_of_mem x hy)
    unfold sweepWith at ih ⊢
    rw [List.foldlM_cons]
    simp only [hx]
    exact ih

end Pass

namespace Graph

variable {g g' : Graph} {id : StageId} {site : Site} {config : Config} {changed : Bool}

/-- A visit to a stage at rest changes nothing. -/
theorem WellFormed.orderStage_idle {permuted : Permuted} (wf : g.WellFormed) (hsite : g.site id = .ok site)
    (h : site.AtRest) : Graph.orderStage (permuted, g) id = .ok ((permuted, g), false) := by
  obtain ⟨report, horders, hhas⟩ := h
  have hs := (site_eq_ok.1 hsite).1
  -- What stands at an edge that the report speaks of.
  have place (kind : EdgeKind) {p : EdgeId × Option Order}
      (hp : p ∈ (site.stage.slots kind).zip (report.slots kind)) :
      ∃ k d node, g.edge? p.1 = some ⟨kind, d, id, k⟩ ∧ g.data? d = some node ∧ p.1 ∈ site.stage.slots kind ∧
        g.Ordered p.1 p.2 := by
    obtain ⟨k, he, hw⟩ := mem_zip.1 hp
    obtain ⟨d, node, hedge, hnode⟩ := wf.slots id site.stage kind k p.1 hs he
    refine ⟨k, d, node, hedge, hnode, List.mem_of_getElem? he, fun order node' hwanted hnode' hfake => ?_⟩
    refine hhas kind k order node' (hwanted ▸ hw) ?_ hfake
    rw [slot_of_site hsite he, hnode']
  have reads : Pass.sweepWith (site.stage.inputs.zip report.inputs) (fun state x => Graph.orderInput state x.1 x.2)
      (permuted, g) = .ok ((permuted, g), false) := by
    refine Pass.sweepWith_idle fun p hp => ?_
    obtain ⟨k, d, node, hedge, hnode, _, hord⟩ := place .input hp
    exact orderInput_of_ordered hedge hnode hord
  have writes : Pass.sweep (site.stage.outputs.zip report.outputs) (fun g x => g.orderOutput x.1 x.2) g =
      .ok (g, false) := by
    refine Pass.sweep_idle fun p hp => ?_
    obtain ⟨k, d, node, hedge, hnode, hmem, hord⟩ := place .output hp
    exact orderOutput_of_ordered hedge hnode (wf.written_at hs hmem hedge hnode) hord
  simp only [Graph.orderStage, Outcome.bind_eq_ok, Outcome.pure_eq_ok]
  exact ⟨site, hsite, report, horders, _, reads, _, writes, rfl⟩

/-- Where every stage is at rest there is nothing to settle. -/
theorem Orderly.dataOrder_idle (o : g.Orderly) (h : ∀ id site, g.site id = .ok site → site.AtRest) :
    Pass.dataOrder.run config g = .ok (g, false) := by
  obtain ⟨order, horder⟩ := o.runOrder
  have visits : Pass.sweepWith order Graph.orderStage ([], g) = .ok (([], g), false) := by
    refine Pass.sweepWith_idle fun id hid => ?_
    obtain ⟨s, hs⟩ := mem_liveIds.1 ((runOrder_perm horder).mem_iff.1 hid)
    obtain ⟨site, hsite, _⟩ := o.wellFormed.site_of_stage hs
    exact o.wellFormed.orderStage_idle hsite (h id site hsite)
  simp only [Pass.dataOrder, Outcome.bind_eq_ok, Outcome.pure_eq_ok]
  exact ⟨order, horder, _, visits, rfl⟩

/-- Settling orders reaches a fixpoint in one run. Afterwards every stage has the orders it asks
for, at every slot where there is a tensor; what the caller gives and gets back has the order it
had; and a second run finds nothing to do. That a run succeeds takes a running order and stages that
are no stubs, so neither has to be assumed. -/
theorem WellFormed.orders_settled_in_one_run {g g' : Graph} {config : Config} {changed : Bool} (wf : g.WellFormed)
    (h : Pass.dataOrder.run config g = .ok (g', changed)) :
    (∀ id s, g'.stage? id = some s → ∃ site, g'.site id = .ok site ∧ site.AtRest) ∧
      (∀ d node, g.data? d = some node → node.usage = .input ∨ node.usage = .output →
        ∃ node', g'.data? d = some node' ∧ node'.usage = node.usage ∧ node'.desc.order = node.desc.order) ∧
      ∀ config', Pass.dataOrder.run config' g' = .ok (g', false) := by
  have o : g.Orderly := by
    obtain ⟨order, horder, _⟩ := Outcome.bind_eq_ok.1 h
    exact wf.orderly horder
  have o' := o.dataOrder h
  have atRest (id site) (hsite : g'.site id = .ok site) : site.AtRest := wf.dataOrder_atRest h hsite
  refine ⟨fun id s hs => ?_, fun d node hnode hu => ?_, fun config' => o'.dataOrder_idle atRest⟩
  · obtain ⟨site, hsite, _⟩ := o'.wellFormed.site_of_stage hs
    exact ⟨site, hsite, atRest id site hsite⟩
  · obtain ⟨node', hnode', hface⟩ := (o.dataOrder_rearranged h).sameOutside.interface.data_of hnode hu
    exact ⟨node', hnode', congrArg Face.usage hface, congrArg (·.desc.order) hface⟩

end Graph

/-- Nothing is given to the hardware. -/
def Config.software : Config := { hwOptimization := false }

/-- Once the stubs of the two images are lowered to software there are orders to settle, and one run
settles them. -/
theorem Network.twoImages_orders_settled :
    ∃ g g' : Graph, g.WellFormed ∧ Pass.dataOrder.run .software g = .ok (g', true) ∧
      (∀ id s, g'.stage? id = some s → ∃ site, g'.site id = .ok site ∧ site.AtRest) ∧
      (∀ d node, g.data? d = some node → node.usage = .input ∨ node.usage = .output →
        ∃ node', g'.data? d = some node' ∧ node'.usage = node.usage ∧ node'.desc.order = node.desc.order) ∧
      ∀ config', Pass.dataOrder.run config' g' = .ok (g', false) := by
  have hall : (do
      let g ← Pass.runAll .software Pass.front (← twoImages.graph .software)
      let real ← Pass.replaceStubs.run .software g
      return (← Pass.dataOrder.run .software real.1).2) = Except.ok true := by decide +kernel
  simp only [Outcome.bind_eq_ok, Outcome.pure_eq_ok] at hall
  obtain ⟨g₀, hg, g₁, hfront, ⟨g, _⟩, hstubs, ⟨g', changed⟩, horders, hchanged⟩ := hall
  have wf := ((Network.fits_behind_front hg hfront).2.replaceStubs hstubs).wellFormed
  exact ⟨g, g', wf, hchanged ▸ horders, wf.orders_settled_in_one_run horders⟩

end NetLower
