/-
Progress of the compiler.  A network whose scales could be propagated is lowered to the
end, unless a size is too large for its word.
-/
import NetLower.Proofs.Network.Fresh
import NetLower.Proofs.Pass.BatchFit
import NetLower.Proofs.Pass.DataOrderFit
import NetLower.Proofs.Pass.LayoutFit
import NetLower.Proofs.Pass.ScaleFit
import NetLower.Proofs.Pass.StridesFit
import NetLower.Proofs.Pipeline

namespace NetLower

open Outcome (Runs)

variable {config : Config} {g g' : Graph}

namespace Pass

/-- The passes that may refuse a network. -/
def front : List Pass := [initialCheck, adjustBatch, scalePropagation]

/-- The passes behind them. -/
def back : List Pass := [replaceStubs, dataOrder, strides, finalizeLayout, allocateMemory, finalCheck]

example : schedule standard = front ++ back := rfl

end Pass

/-- Behind the passes that may refuse it, a network is fit for the others. -/
theorem Network.fits_behind_front {n : Network} (hg : n.graph config = .ok g)
    (h : Pass.runAll config Pass.front g = .ok g') : g'.Fits Site.Early ∧ g'.Orderly := by
  simp only [Pass.front, Pass.runAll, Outcome.bind_eq_ok] at h
  obtain ⟨⟨g₁, _⟩, hcheck, ⟨g₂, _⟩, hbatch, ⟨g₃, _⟩, hscale, h⟩ := h
  cases h
  have f₁ := (Network.graph_fresh hg).initialCheck hcheck
  have o₁ : g₁.Orderly := by
    obtain ⟨rfl, order, horder, _⟩ := Pass.checkAll_eq_ok hcheck
    exact (Network.graph_wellFormed hg).orderly horder
  have o₂ := o₁.adjustBatch hbatch
  exact ⟨(f₁.adjustBatch o₁ hbatch).scalePropagation o₂ hscale, o₂.scalePropagation hscale⟩

/-- Only a size can stop the passes behind. -/
theorem Graph.Fits.back_runs (f : g.Fits Site.Early) (o : g.Orderly) : Runs (Pass.runAll config Pass.back g) := by
  obtain ⟨stubs_lowered, real⟩ := f.replaceStubs o.wellFormed config
  refine stubs_lowered.failsOnly.bind fun ⟨g₁, _⟩ h₁ => ?_
  have o₁ := o.replaceStubs h₁
  obtain ⟨orders_settled, done₂⟩ := (real h₁).dataOrder o₁ config
  refine orders_settled.failsOnly.bind fun ⟨g₂, _⟩ h₂ => ?_
  have o₂ := o₁.dataOrder h₂
  obtain ⟨strides_settled, done₃⟩ := (done₂ h₂).strides o₂ config
  refine strides_settled.failsOnly.bind fun ⟨g₃, _⟩ h₃ => ?_
  have o₃ := o₂.strides h₃
  obtain ⟨layout_runs, done₄⟩ := (done₃ h₃).finalizeLayoutPass o₃ config
  refine layout_runs.bind fun ⟨g₄, _⟩ h₄ => ?_
  have o₄ := o₃.finalizeLayoutPass h₄
  obtain ⟨fits₄, strided⟩ := done₄ h₄
  refine strided.allocateMemory_runs.bind fun ⟨g₅, _⟩ h₅ => ?_
  have o₅ := o₄.allocateMemory h₅
  exact ((fits₄.allocateMemory o₄.wellFormed h₅).finalCheck_runs o₅ fun _ _ _ _ _ _ _ => .inr rfl).bind
    fun _ _ => .of_eq_ok rfl

/-- A network that the first three passes accept is lowered to the end: all other passes succeed,
the final check among them, unless a product or a sum of sizes is too large. -/
theorem Network.lowered_unless_too_large {n : Network} {config : Config} {g g' : Graph}
    (hg : n.graph config = .ok g) (h : Pass.runAll config Pass.front g = .ok g') :
    (∃ lowered, Pass.runAll config Pass.back g' = .ok lowered) ∨
      Pass.runAll config Pass.back g' = .error (.fault .multiply) ∨
      Pass.runAll config Pass.back g' = .error (.fault .add) := by
  obtain ⟨f, o⟩ := Network.fits_behind_front hg h
  cases hback : Pass.runAll config Pass.back g' with
  | ok lowered => exact .inl ⟨lowered, rfl⟩
  | error e => rcases f.back_runs o e hback with rfl | rfl <;> simp

/-- The two images are accepted and lowered to the end. -/
theorem Network.twoImages_lowered :
    ∃ g g', twoImages.graph {} = .ok g ∧ Pass.runAll {} Pass.front g = .ok g' ∧
      ∃ lowered, Pass.runAll {} Pass.back g' = .ok lowered := by
  have hall :
      (twoImages.graph {} >>= fun g => Pass.runAll {} Pass.front g >>= Pass.runAll {} Pass.back).isOk = true := by
    decide +kernel
  cases hg : twoImages.graph {} with
  | error e => simp [hg, Bind.bind, Except.bind, Except.isOk, Except.toBool] at hall
  | ok g =>
    rw [hg] at hall
    cases hfront : Pass.runAll {} Pass.front g with
    | error e => simp [hfront, Bind.bind, Except.bind, Except.isOk, Except.toBool] at hall
    | ok g' =>
      refine ⟨g, g', rfl, hfront, ?_⟩
      rcases lowered_unless_too_large hg hfront with hlowered | hlarge | hlarge
      · exact hlowered
      · simp [hfront, hlarge, Bind.bind, Except.bind, Except.isOk, Except.toBool] at hall
      · simp [hfront, hlarge, Bind.bind, Except.bind, Except.isOk, Except.toBool] at hall

end NetLower
