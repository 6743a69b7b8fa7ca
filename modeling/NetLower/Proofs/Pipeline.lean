/-
The graph invariant over the whole compiler: from the graph of a network on, after every
pass that succeeds, the tables of the graph agree, and from the first pass on the stages
can be put in order.
-/
import NetLower.Compile
import NetLower.Proofs.Network.Layers
import NetLower.Proofs.Pass.Batch
import NetLower.Proofs.Pass.DataOrder
import NetLower.Proofs.Pass.Scale
import NetLower.Proofs.Pass.Strides

namespace NetLower

variable {config : Config} {g g' : Graph} {changed : Bool}

namespace Pass

/-- What every pass keeps holds of the result of every pass that was run. -/
theorem trace_keeps (I : Graph → Prop) : ∀ {passes : List Pass} {g : Graph},
    (∀ p ∈ passes, ∀ g g' changed, I g → p.run config g = .ok (g', changed) → I g') → I g →
    ∀ step ∈ trace config passes g, ∀ g' changed, step.result = .ok (g', changed) → I g'
  | [], _, _, _ => by simp [trace]
  | p :: passes, g, keep, hg => by
    intro step hstep g' changed hresult
    rw [trace, List.mem_cons] at hstep
    rcases hstep with rfl | hstep
    · exact keep p (by simp) g g' changed hg hresult
    · cases hrun : p.run config g with
      | error e => simp [hrun] at hstep
      | ok after =>
        obtain ⟨g₁, c⟩ := after
        simp only [hrun] at hstep
        exact trace_keeps I (fun p hp => keep p (by simp [hp])) (keep p (by simp) g g₁ c hg hrun) step hstep g'
          changed hresult

end Pass

/-- Every pass behind the first one keeps a graph orderly. -/
theorem Graph.Orderly.pass {p : Pass} (hp : p ∈ Pass.standard.tail) (o : g.Orderly)
    (h : p.run config g = .ok (g', changed)) : g'.Orderly := by
  simp only [Pass.standard, List.tail_cons, List.mem_cons, List.not_mem_nil, or_false] at hp
  rcases hp with rfl | rfl | rfl | rfl | rfl | rfl | rfl | rfl
  · exact o.adjustBatch h
  · exact o.scalePropagation h
  · exact o.replaceStubs h
  · exact o.dataOrder h
  · exact o.strides h
  · exact o.finalizeLayoutPass h
  · exact o.allocateMemory h
  · exact (Pass.checkAll_eq_ok h).1 ▸ o

/-- After every pass of the compiler that succeeds, the graph of a network is orderly: the first
pass refuses cycles, and none of the others makes one. -/
theorem Graph.WellFormed.trace_orderly (wf : g.WellFormed) :
    ∀ step ∈ Pass.trace config (Pass.schedule Pass.standard) g, ∀ g' changed,
      step.result = .ok (g', changed) → g'.Orderly := by
  have first {g'} {changed} (h : Pass.initialCheck.run config g = .ok (g', changed)) : g'.Orderly := by
    obtain ⟨rfl, order, horder, _⟩ := Pass.checkAll_eq_ok h
    exact wf.orderly horder
  show ∀ step ∈ Pass.trace config (Pass.initialCheck :: Pass.standard.tail) g, _
  intro step hstep g' changed hresult
  rw [Pass.trace, List.mem_cons] at hstep
  rcases hstep with rfl | hstep
  · exact first hresult
  · cases hrun : Pass.initialCheck.run config g with
    | error e => simp [hrun] at hstep
    | ok after =>
      obtain ⟨g₁, c⟩ := after
      simp only [hrun] at hstep
      exact Pass.trace_keeps Graph.Orderly (fun p hp _ _ _ o h => o.pass hp h) (first hrun) step hstep g' changed
        hresult

/-- The links of a graph agree in all its tables from the network to the end of the compiler: in the
graph of a network, and in the graph after every pass that succeeds. After the passes no stage feeds
itself, so that there always is a running order. -/
theorem Network.links_agree_after_every_pass {n : Network} {config : Config} {g : Graph}
    (h : n.graph config = .ok g) :
    g.WellFormed ∧
      ∀ step ∈ Pass.trace config (Pass.schedule Pass.standard) g, ∀ after changed,
        step.result = .ok (after, changed) →
          after.WellFormed ∧ after.Acyclic ∧ ∃ order, after.runOrder = .ok order := by
  have wf := Network.graph_wellFormed h
  refine ⟨wf, fun step hstep after changed hresult => ?_⟩
  have o := wf.trace_orderly step hstep after changed hresult
  exact ⟨o.wellFormed, o.acyclic, o.runOrder⟩

/-- Two images at once through a convolution and a pool. -/
def Network.twoImages : Network :=
  { name := "two images", version := 7
    tensors :=
      [{ name := "images", shape := [2, 1, 4, 4], kind := .input },
        { name := "features", shape := [2, 1, 4, 4], kind := .intermediate },
        { name := "maxima", shape := [2, 1, 2, 2], kind := .output }, .weight "kernel" [1, 1, 1, 1] [.one]]
    layers :=
      [{ name := "convolve", type := "Convolution", inputs := ["images"], outputs := ["features"]
         weights := some "kernel", attributes := [("kernel", .ints [1, 1])] },
        { name := "pool", type := "Pooling", inputs := ["features"], outputs := ["maxima"]
          attributes := [("kernel", .ints [2, 2]), ("strides", .ints [2, 2])] }]
    inputs := ["images"], outputs := ["maxima"] }

/-- The two images go through all nine passes, and their links agree after each. -/
theorem Network.twoImages_links_agree :
    ∃ g, twoImages.graph {} = .ok g ∧ (g.lower {}).isOk ∧ g.WellFormed ∧
      ∀ step ∈ Pass.trace {} (Pass.schedule Pass.standard) g, ∀ after changed,
        step.result = .ok (after, changed) →
          after.WellFormed ∧ after.Acyclic ∧ ∃ order, after.runOrder = .ok order := by
  have hall : (twoImages.graph {} >>= fun g => g.lower {}).isOk = true := by decide +kernel
  cases hg : twoImages.graph {} with
  | error e => simp [hg, Bind.bind, Except.bind, Except.isOk, Except.toBool] at hall
  | ok g =>
    rw [hg] at hall
    exact ⟨g, rfl, hall, links_agree_after_every_pass hg⟩

end NetLower
