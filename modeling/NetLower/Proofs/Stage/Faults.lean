/-
Faults of what stages are asked.  A stage breaks no promise as long as it is asked what its
kind can answer: stubs what stubs have, and stages with weights for constants that they
read.
-/
import NetLower.Proofs.Faults
import NetLower.Proofs.Pass.BatchFit

namespace NetLower

open Outcome

variable {P : Fault → Prop}

namespace Site

variable (s : Site)

@[simp] theorem faultsOnly_input (slot : Nat) : FaultsOnly P (s.input slot) := by
  unfold input
  split <;> simp

@[simp] theorem faultsOnly_output (slot : Nat) : FaultsOnly P (s.output slot) := by
  unfold output
  split <;> simp

@[simp] theorem faultsOnly_hardwareOp : FaultsOnly P s.hardwareOp := by
  simp only [hardwareOp, failsOnly_bind, Attrs.faultsOnly_getInt, true_and]
  intro code _
  split <;> simp

/-! ## Checks -/

@[simp] theorem faultsOnly_checkUnary : FaultsOnly P s.checkUnary := by simp [checkUnary, checkTypes]

@[simp] theorem faultsOnly_checkWeightable :
    FaultsOnly P s.checkWeightable := by simp [checkWeightable, checkTypes]

@[simp] theorem faultsOnly_checkHardware (op : HardwareOp) :
    FaultsOnly P (s.checkHardware op) := by simp [checkHardware]

@[simp] theorem faultsOnly_checkWindow : FaultsOnly P s.checkWindow := by simp [checkWindow]

@[simp] theorem faultsOnly_checkPermute : FaultsOnly P s.checkPermute := by
  unfold checkPermute
  split <;> simp

@[simp] theorem faultsOnly_checkCopy : FaultsOnly P s.checkCopy := by
  unfold checkCopy
  split <;> simp

variable {s}

theorem faultsOnly_stubSort (h : s.kind.family = .stub) : FaultsOnly P s.stubSort := by
  unfold stubSort
  cases hk : s.kind <;> simp [hk, StageKind.family] at h ⊢

/-- Whatever does not cut or gather can be checked when it is made. -/
theorem faultsOnly_initialCheck (hsplit : s.kind ≠ .split) (hconcat : s.kind ≠ .concat) :
    FaultsOnly P (s.kind.family.initialCheck s) := by
  cases hf : s.kind.family
  case stub =>
    simp only [StageFamily.initialCheck, failsOnly_bind, faultsOnly_stubSort hf, true_and]
    intro sort _
    cases sort <;> simp
  case split => cases hk : s.kind <;> simp_all [StageKind.family]
  case concat => cases hk : s.kind <;> simp_all [StageKind.family]
  all_goals simp [StageFamily.initialCheck]

/-! ## Batches and scales -/

theorem Weighted.biasesUsage_eq_ok (h : s.Weighted) : ∃ usage, s.biasesUsage = .ok usage := by
  obtain ⟨a, w, b, y, hin, _, _, hw, hb⟩ := h.eq
  have hinput₁ : s.input 1 = .ok w := by simp [input, hin]
  have hinput₂ : s.input 2 = .ok b := by simp [input, hin]
  simp only [biasesUsage, hinput₁, hinput₂, bind_eq_ok, Except.ok.injEq, exists_eq_left', hw]
  rcases hb with hb | hb
  · exact ⟨.const, (), rfl, by rw [hb]; rfl⟩
  · exact ⟨.fake, (), rfl, by rw [hb]; rfl⟩

theorem Weighted.faultsOnly_weightableBatch (h : s.Weighted) : FaultsOnly P s.weightableBatch := by
  obtain ⟨usage, husage⟩ := h.biasesUsage_eq_ok
  exact .after husage (by simp)

theorem Weighted.faultsOnly_weightableScale (h : s.Weighted) (scales : List F32) (step : ScaleStep) :
    FaultsOnly P (s.weightableScale scales step) := by
  obtain ⟨usage, husage⟩ := h.biasesUsage_eq_ok
  exact .after husage (by simp)

/-- A stage that fits can be asked about batches. -/
theorem Fit.faultsOnly_batch (h : s.Fit) : FaultsOnly P (s.kind.family.batch s) := by
  have weighted (hitems : s.Itemwise) : FaultsOnly P s.weightableBatch :=
    (h.weighted hitems).1.faultsOnly_weightableBatch
  cases hk : s.kind <;> simp only [StageKind.family, StageFamily.batch, stubSort, hk]
  case stubConv | stubFullyConnected | stubDeconv => exact .after rfl (weighted (.inl (by rw [hk]; rfl)))
  case stubMaxPool | stubAvgPool => exact .after rfl (.pure _)
  case convolution | fullyConnected | deconvolution => exact weighted (.inl (by rw [hk]; rfl))
  case hardware =>
    simp only [failsOnly_bind, faultsOnly_hardwareOp, failsOnly_ite, failsOnly_pure, true_and, implies_true,
      and_true]
    exact fun op hop hw => weighted (.inr ⟨hk, op, hop, hw⟩)
  all_goals exact failsOnly_ok _

theorem faultsOnly_powerScale (scales : List F32) (step : ScaleStep) :
    FaultsOnly P (s.powerScale scales step) := by
  simp [powerScale]

/-- A stage that fits can be asked about scales. -/
theorem Fit.faultsOnly_scale (h : s.Fit) (scales : List F32) (step : ScaleStep) :
    FaultsOnly P (s.kind.family.scale s scales step) := by
  have weighted (hitems : s.Itemwise) : FaultsOnly P (do return (← s.weightableScale scales step, s.attrs)) :=
    ((h.weighted hitems).1.faultsOnly_weightableScale scales step).bind fun _ _ => failsOnly_pure _
  cases hk : s.kind <;> simp only [StageKind.family, StageFamily.scale, stubSort, hk]
  case stubConv | stubFullyConnected | stubDeconv => exact .after rfl (weighted (.inl (by rw [hk]; rfl)))
  case stubMaxPool | stubAvgPool => exact .after rfl (by simp)
  case convolution | fullyConnected | deconvolution => exact weighted (.inl (by rw [hk]; rfl))
  case hardware =>
    simp only [failsOnly_bind, faultsOnly_hardwareOp, failsOnly_ite, true_and]
    exact fun op hop => ⟨fun hw => failsOnly_bind.1 (weighted (.inr ⟨hk, op, hop, hw⟩)), fun _ => failsOnly_pure _⟩
  case power => exact faultsOnly_powerScale scales step
  case concat => simp [concatScale]
  all_goals exact failsOnly_ok _

end Site

end NetLower
