/-
The passes that may refuse a network have no faults: they never ask a stage what it cannot
answer, and the only sizes they multiply are those of constants, which were counted when
the constants were made.
-/
import NetLower.Proofs.Network.Fresh
import NetLower.Proofs.Pass.ScaleTaken
import NetLower.Proofs.Progress
import NetLower.Proofs.Stage.Faults

namespace NetLower

open Outcome

variable {P : Fault → Prop} {config : Config} {g : Graph} {id : StageId}

/-! ## The first check -/

theorem Site.Fresh.faultsOnly_initialCheck {s : Site} (h : s.Fresh) :
    FaultsOnly P (s.kind.family.initialCheck s) := by
  obtain ⟨x, y, _, _, sound⟩ := h.main
  have hkind : s.kind.isStub = true ∨ s.kind = .power := sound.kind
  refine Site.faultsOnly_initialCheck (fun hk => ?_) fun hk => ?_ <;>
  · rw [hk] at hkind
    exact absurd hkind (by decide)

theorem Graph.Fits.faultsOnly_initialCheck (f : g.Fits Site.Fresh) :
    FaultsOnly P (Pass.initialCheck.run config g) := by
  simp only [Pass.initialCheck, Pass.checkAll, failsOnly_bind, Graph.faultsOnly_runOrder, failsOnly_pure, true_and,
    implies_true, and_true]
  intro order _
  refine .forEach fun id _ => ?_
  simp only [failsOnly_bind, Graph.faultsOnly_site, true_and]
  exact fun site hsite => (f.all id site hsite).faultsOnly_initialCheck

/-! ## Batches -/

theorem Site.Fit.faultsOnly_splitBatch? {s : Site} (h : s.Fit) : FaultsOnly P s.splitBatch? := by
  unfold Site.splitBatch?
  split
  · simp [h.faultsOnly_batch]
  · simp

namespace Graph

@[simp] theorem faultsOnly_addItems (name : String) (desc : Desc) : ∀ (indices : List Nat) (g : Graph),
    FaultsOnly P (addItems name desc indices g)
  | [], _ => by simp [addItems]
  | index :: rest, g => by simp [addItems, faultsOnly_addItems name desc rest]

@[simp] theorem faultsOnly_batchItems (data : DataId) (batch : Nat) : FaultsOnly P (g.batchItems data batch) := by
  simp [batchItems]

@[simp] theorem faultsOnly_addBatchStage (name : String) (kind : StageKind) (inputs outputs : List DataId) :
    FaultsOnly P (g.addBatchStage name kind inputs outputs) := by simp [addBatchStage]

@[simp] theorem faultsOnly_splitStage (batch : Nat) : FaultsOnly P (g.splitStage id batch) := by simp [splitStage]

theorem Fits.faultsOnly_adjustStage (f : g.Fits Site.Early) : FaultsOnly P (g.adjustBatch id) := by
  simp only [Graph.adjustBatch, failsOnly_bind, faultsOnly_site, true_and]
  intro site hsite
  refine ⟨(f.all id site hsite).fit.faultsOnly_splitBatch?, fun batch _ => ?_⟩
  cases batch <;> simp

theorem Fits.faultsOnly_adjustBatch (f : g.Fits Site.Early) (o : g.Orderly) :
    FaultsOnly P (Pass.adjustBatch.run config g) := by
  simp only [Pass.adjustBatch, failsOnly_bind, faultsOnly_runOrder, true_and]
  intro order _
  exact Pass.failsOnly_sweep (fun _ g => g.Fits Site.Early ∧ g.Orderly)
    (fun _ _ _ _ _ hg h => hg.1.adjustStage hg.2 h) (fun _ _ _ hg => hg.1.faultsOnly_adjustStage) ⟨f, o⟩

/-! ## Scales -/

@[simp] theorem faultsOnly_addRescale (name : String) (factor : F32) (source target : DataId) :
    FaultsOnly P (g.addRescale name factor source target) := by simp [addRescale, rescaleAttrs]

@[simp] theorem faultsOnly_inputScales (scales : Scales) : FaultsOnly P (g.inputScales scales id) := by
  simp [inputScales]

@[simp] theorem faultsOnly_scaleHint : FaultsOnly P (g.scaleHint id) := by simp [scaleHint]

@[simp] theorem faultsOnly_meetScale (state : Scales × Graph) (edge : EdgeId) (wanted : Option F32) :
    FaultsOnly P (meetScale state edge wanted) := by
  simp only [meetScale, failsOnly_bind, faultsOnly_edge, faultsOnly_data, true_and]
  intro e _ d _
  split <;> simp [insertRescale]

theorem Fits.faultsOnly_askScale (f : g.Fits Site.Early) (scales : List F32) (step : ScaleStep) :
    FaultsOnly P (g.askScale id scales step) := by
  simp only [Graph.askScale, failsOnly_bind, faultsOnly_site, failsOnly_pure, implies_true, and_true, true_and]
  exact fun site hsite => (f.all id site hsite).fit.faultsOnly_scale scales step

/-- A constant that is scaled was counted before. -/
theorem Fits.faultsOnly_scaleConst {S : Site → Prop} (f : g.Fits S) (edge : EdgeId) (scale : Option F32) :
    FaultsOnly P (g.scaleConst edge scale) := by
  simp only [Graph.scaleConst, failsOnly_bind, faultsOnly_edge, faultsOnly_data, true_and]
  intro e _ d hd
  rw [data_eq_ok] at hd
  have hscaled (factor : F32) : FaultsOnly P (g.scaledConst e.data factor) := by
    refine g.faultsOnly_scaledConst factor hd fun content hrole => ?_
    obtain ⟨n, htotal, _⟩ := f.stocked _ d hd content hrole
    exact .of_eq_ok htotal
  split <;> simp [hscaled]

theorem Fits.faultsOnly_scaleStage {state : Scales × Graph} (f : state.2.Fits Site.Early) (o : state.2.Orderly) :
    FaultsOnly P (Graph.scaleStage state id) := by
  obtain ⟨scales, g⟩ := state
  simp only [Graph.scaleStage, failsOnly_bind, faultsOnly_stage, faultsOnly_inputScales, true_and]
  intro s hs given hgiven
  refine ⟨f.faultsOnly_askScale given .check, fun asked hask => ⟨?_, ?_⟩⟩
  · exact Pass.failsOnly_sweepWith (fun _ _ => True) (fun _ _ _ _ _ _ _ => trivial)
      (fun _ _ state _ => faultsOnly_meetScale state _ _) trivial
  rintro ⟨mid, rescaled⟩ hmeet
  obtain ⟨f₁, o₁, hext⟩ := meetScales_fits f o (bind_eq_ok.2 ⟨s, hs, bind_eq_ok.2 ⟨given, hgiven,
    bind_eq_ok.2 ⟨_, hask, hmeet⟩⟩⟩)
  simp only [faultsOnly_scaleHint, true_and]
  intro actual _ hint _
  refine ⟨f₁.faultsOnly_askScale _ _, fun told htold => ⟨?_, ?_⟩⟩
  · -- Constants are exchanged at the inputs of the stage, which it keeps.
    obtain ⟨o₂, hext₂⟩ := o₁.askScale htold
    refine Pass.failsOnly_sweep
      (fun rest x => (x.Fits Site.Early ∧ x.Orderly) ∧ g.Extends x ∧ ∀ p ∈ rest, p.1 ∈ s.slots .input) ?_
      (fun p _ _ hx => hx.1.1.faultsOnly_scaleConst p.1 p.2)
      ⟨⟨f₁.askScale o₁.wellFormed htold, o₂⟩, hext.trans hext₂, fun p hp => (List.of_mem_zip hp).1⟩
    rintro p rest x x' _ ⟨⟨f, o⟩, hext, hmem⟩ h
    obtain ⟨s₁, hs₁, he⟩ := hext.mem (stage_eq_ok.1 hs) (hmem p (by simp))
    obtain ⟨o', hext'⟩ := o.scaleConst hs₁ he h
    exact ⟨⟨f.scaleConst o.wellFormed h, o'⟩, hext.trans hext', fun q hq => hmem q (by simp [hq])⟩
  · simp

@[simp] theorem faultsOnly_descaleOutput (scales : Scales) (output : DataId) :
    FaultsOnly P (descaleOutput scales g output) := by
  simp only [descaleOutput, failsOnly_bind, faultsOnly_data, true_and]
  intro d _
  split <;> simp

theorem Fits.faultsOnly_scalePropagation (f : g.Fits Site.Early) (o : g.Orderly) :
    FaultsOnly P (Pass.scalePropagation.run config g) := by
  simp only [Pass.scalePropagation, failsOnly_ite, failsOnly_ok, implies_true, and_true, propagateScales,
    failsOnly_bind, faultsOnly_runOrder, true_and, failsOnly_pure]
  intro _ order _
  refine ⟨?_, fun passed _ => ?_⟩
  · exact Pass.failsOnly_sweepWith (fun _ state => state.2.Fits Site.Early ∧ state.2.Orderly)
      (fun _ _ _ _ _ hg h => ⟨hg.1.scaleStage hg.2 h, hg.2.scaleStage h⟩)
      (fun _ _ _ hg => hg.1.faultsOnly_scaleStage hg.2) ⟨f, o⟩
  · exact Pass.failsOnly_sweep (fun _ _ => True) (fun _ _ _ _ _ _ _ => trivial)
      (fun _ _ _ _ => faultsOnly_descaleOutput _ _) trivial

end Graph

/-! ## All three -/

/-- The passes that may refuse a network have no faults. -/
theorem Network.faultsOnly_front {n : Network} (hg : n.graph config = .ok g) :
    FaultsOnly P (Pass.runAll config Pass.front g) := by
  have f := Network.graph_fresh hg
  simp only [Pass.front, Pass.runAll, failsOnly_bind, failsOnly_ok, implies_true, and_true]
  refine ⟨f.faultsOnly_initialCheck, fun checked hcheck => ?_⟩
  have f₁ := f.initialCheck hcheck
  have o₁ : checked.1.Orderly := by
    obtain ⟨rfl, order, horder, _⟩ := Pass.checkAll_eq_ok hcheck
    exact (Network.graph_wellFormed hg).orderly horder
  refine ⟨f₁.faultsOnly_adjustBatch o₁, fun batched hbatch => ?_⟩
  exact (f₁.adjustBatch o₁ hbatch).faultsOnly_scalePropagation (o₁.adjustBatch hbatch)

end NetLower
