/-
Faults of the compiler.  Whatever a text says, there is a network or a reason why not, and whatever
a network is, there is a blob or a reason why not, unless a size is too large for its word.  No
assertion about stubs, usages or kinds of stages ever fails.
-/
import NetLower.Proofs.Blob.Faults
import NetLower.Proofs.Network.Faults
import NetLower.Proofs.Pass.Frame
import NetLower.Proofs.Pass.FrontFaults
import NetLower.Proofs.Pass.Room
import NetLower.Proofs.Stations

namespace NetLower

open NetLower.Graph Outcome

variable {P : Fault → Prop} {config : Config} {g g' lowered : Graph} {changed : Bool}

theorem Pass.runAll_append : ∀ (ps qs : List Pass) (g : Graph),
    runAll config (ps ++ qs) g = runAll config ps g >>= runAll config qs
  | [], _, _ => rfl
  | p :: ps, qs, g => by
    simp only [List.cons_append, runAll, bind_assoc]
    exact bind_congr fun after => runAll_append ps qs after.1

namespace Graph

/-- There are too many elements, or too many stages, for every size and offset to fit its word. -/
def Oversized (g : Graph) : Prop := 2 ^ 57 ≤ g.volume ∨ 2 ^ 30 ≤ g.stageCount

theorem Oversized.of_volume {k : Nat} (hk : k ≤ 128) (h : Size.range ≤ k * g.volume) : g.Oversized := by
  refine .inl ?_
  have hle : k * g.volume ≤ 128 * g.volume := Nat.mul_le_mul_right _ hk
  simp only [Size.range, UInt64.size] at h
  omega

/-- The graph just before strides and places are computed. -/
def layOut (g : Graph) (config : Config) : Outcome Graph := do
  (← Pass.runAll config (Pass.front ++ [Pass.replaceStubs, Pass.dataOrder, Pass.strides]) g).finalizeStages

theorem layOut_of_front (h : Pass.runAll config Pass.front g = .ok g') :
    g.layOut config =
      Pass.runAll config [Pass.replaceStubs, Pass.dataOrder, Pass.strides] g' >>= Graph.finalizeStages := by
  rw [layOut, Pass.runAll_append, h]
  rfl

/-! ## Strides and places -/

theorem stages_computeStrides {ids : List DataId} (h : ids.foldlM computeStrides g = .ok g') :
    g'.stages = g.stages ∧ g'.volume = g.volume := by
  refine Outcome.foldlM_keeps (fun _ x => x.stages = g.stages ∧ x.volume = g.volume) (fun id _ x x' hx h => ?_)
    ⟨rfl, rfl⟩ h
  have hvolume := volume_computeStrides h
  obtain ⟨_, _, strides, _, rfl⟩ := computeStrides_eq_ok h
  exact ⟨hx.1, hvolume.trans hx.2⟩

/-- Strides make a graph no larger. -/
theorem finalizeLayout_size (h : Pass.finalizeLayout.run config g = .ok (g', changed)) :
    ∃ laid, g.finalizeStages = .ok laid ∧ (g'.Oversized ↔ laid.Oversized) := by
  simp only [Pass.finalizeLayout, bind_eq_ok, pure_eq_ok, Prod.mk.injEq] at h
  obtain ⟨laid, hlaid, strided, hstrides, rfl, _⟩ := h
  obtain ⟨hstages, hvolume⟩ := stages_computeStrides hstrides
  have hcount : strided.stageCount = laid.stageCount := by simp only [stageCount, liveStages, hstages]
  exact ⟨laid, hlaid, by rw [Oversized, hvolume, hcount]; rfl⟩

theorem allocateMemory_size (h : Pass.allocateMemory.run config g = .ok (g', changed)) :
    g'.Oversized ↔ g.Oversized := by
  have hvolume := volume_allocateMemory h
  simp only [Pass.allocateMemory, bind_eq_ok, pure_eq_ok, Prod.mk.injEq] at h
  obtain ⟨plan, _, rfl, _⟩ := h
  obtain ⟨datas, heq, _⟩ := setLocations_eq plan g
  rw [Oversized, hvolume, heq]
  rfl

theorem Fits.faultsOnly_finalizeLayout (f : g.Fits Site.Done) (o : g.Orderly)
    (h : ∀ laid, g.finalizeStages = .ok laid → laid.Oversized → P .multiply) :
    FaultsOnly P (Pass.finalizeLayout.run config g) := by
  simp only [Pass.finalizeLayout, failsOnly_bind, failsOnly_pure, implies_true, and_true]
  refine ⟨(f.finalizeStages o).1.failsOnly, fun laid hlaid => ?_⟩
  exact faultsOnly_computeStrides laid _ fun hlarge => h laid hlaid (.of_volume (by decide) hlarge)

/-! ## The passes behind the refusals -/

/-- The passes behind those that may refuse a network fault only if it is too large. -/
theorem Fits.faultsOnly_back (f : g'.Fits Site.Early) (o : g'.Orderly)
    (hfront : Pass.runAll config Pass.front g = .ok g')
    (h : ∀ laid, g.layOut config = .ok laid → laid.Oversized → P .multiply ∧ P .add) :
    FaultsOnly P (Pass.runAll config Pass.back g') := by
  obtain ⟨stubs_lowered, real⟩ := f.replaceStubs o.wellFormed config
  refine stubs_lowered.failsOnly.bind ?_
  rintro ⟨g₁, _⟩ h₁
  have o₁ := o.replaceStubs h₁
  obtain ⟨orders_settled, done₂⟩ := (real h₁).dataOrder o₁ config
  refine orders_settled.failsOnly.bind ?_
  rintro ⟨g₂, _⟩ h₂
  have o₂ := o₁.dataOrder h₂
  obtain ⟨strides_settled, done₃⟩ := (done₂ h₂).strides o₂ config
  refine strides_settled.failsOnly.bind ?_
  rintro ⟨g₃, _⟩ h₃
  have o₃ := o₂.strides h₃
  have hroom (laid : Graph) (hlaid : g₃.finalizeStages = .ok laid) : laid.Oversized → P .multiply ∧ P .add := by
    refine h laid ?_
    rw [layOut_of_front hfront]
    simp only [Pass.runAll, bind_eq_ok]
    exact ⟨g₃, ⟨_, h₁, _, h₂, _, h₃, rfl⟩, hlaid⟩
  have layout_faults : FaultsOnly P (Pass.finalizeLayout.run config g₃) :=
    (done₃ h₃).faultsOnly_finalizeLayout o₃ fun laid hlaid hlarge => (hroom laid hlaid hlarge).1
  refine layout_faults.bind ?_
  rintro ⟨g₄, _⟩ h₄
  have o₄ := o₃.finalizeLayoutPass h₄
  have fits₄ := (((done₃ h₃).finalizeLayoutPass o₃ config).2 h₄).1
  obtain ⟨laid, hlaid, hsize⟩ := finalizeLayout_size h₄
  have hroom₄ (hlarge : g₄.Oversized) : P .multiply ∧ P .add := hroom laid hlaid (hsize.1 hlarge)
  refine (faultsOnly_allocateMemory (finalizeLayoutPass_strided h₄).1 fun hlarge =>
    hroom₄ (.of_volume (by decide) hlarge)).bind ?_
  rintro ⟨g₅, _⟩ h₅
  have o₅ := o₄.allocateMemory h₅
  refine ((fits₄.allocateMemory o₄.wellFormed h₅).finalCheck_runs o₅
    fun d node x size hnode hdim hlarge => ?_).bind fun _ _ => .of_eq_ok rfl
  have hle := Nat.le_trans (Desc.dim?_le_volume hdim) (volume_le hnode)
  exact (hroom₄ ((allocateMemory_size h₅).1 (.of_volume (k := 1) (by decide) (by omega)))).2

namespace Stations

variable (st : Stations config g lowered)

/-- Nothing has a place before places are given out. -/
theorem laid_unplaced (wf : g.WellFormed) (u : g.Unplaced) : st.laid.Unplaced := by
  obtain ⟨_, hbatch⟩ := st.batch
  obtain ⟨_, hscale⟩ := st.scale
  obtain ⟨_, hstubs⟩ := st.stubs
  obtain ⟨_, horders⟩ := st.orders
  obtain ⟨_, hstrides⟩ := st.strides
  obtain ⟨_, hlayout⟩ := st.layout
  have u₁ := (Framed.scalePropagation hscale).unplaced ((Thinned.adjustBatch hbatch).unplaced u)
  have u₂ := (Framed.replaceStubs hstubs).unplaced u₁
  have ordered : st.real.Framed .layout st.ordered := .dataOrder (st.real_orderly wf).wellFormed horders
  have spaced : st.ordered.Framed .layout st.spaced := .strides hstrides
  exact (finalizeLayoutPass_strided hlayout).2 (spaced.unplaced (ordered.unplaced u₂))

include st in
/-- A graph that is lowered is written, unless it is too large. -/
theorem faultsOnly_blob (wf : g.WellFormed) (f : g.Fits Site.Fresh) (u : g.Unplaced)
    (h : ∀ laid, g.layOut config = .ok laid → laid.Oversized → P .multiply ∧ P .add ∧ P .capacity) :
    FaultsOnly P lowered.blob := by
  obtain ⟨_, hcheck⟩ := st.check
  obtain ⟨_, hbatch⟩ := st.batch
  obtain ⟨_, hscale⟩ := st.scale
  obtain ⟨_, hstubs⟩ := st.stubs
  obtain ⟨_, horders⟩ := st.orders
  obtain ⟨_, hstrides⟩ := st.strides
  obtain ⟨_, hlayout⟩ := st.layout
  obtain ⟨_, hmemory⟩ := st.memory
  obtain ⟨laid, hlaid, hsize⟩ := finalizeLayout_size hlayout
  have hlaidOut : g.layOut config = .ok laid := by
    simp only [layOut, Pass.front, List.cons_append, List.nil_append, Pass.runAll, bind_eq_ok]
    exact ⟨st.spaced, ⟨_, hcheck, _, hbatch, _, hscale, _, hstubs, _, horders, _, hstrides, rfl⟩, hlaid⟩
  have hroom (hlarge : lowered.Oversized) := h laid hlaidOut (hsize.1 ((allocateMemory_size hmemory).1 hlarge))
  have hends : lowered.Contained := fun id d l size hd hl hsize =>
    allocateMemory_end_le (finalizeLayoutPass_strided hlayout).1 (st.laid_unplaced wf u) hmemory hd hl hsize
  exact (st.lowered_done wf f).faultsOnly_blob (st.lowered_orderly wf).wellFormed (fun _ _ => st.strided) hends
    (fun hlarge => hroom (.of_volume (by decide) hlarge)) fun hmany => (hroom (.inr hmany)).1

end Stations

end Graph

namespace Network

/-- The sizes that a network leads to are too large for their words: those of the tensors of its
layers, or those of its graph when it is laid out. -/
def TooLarge (n : Network) (config : Config) : Prop :=
  n.Outgrown ∨ ∃ g laid, n.graph config = .ok g ∧ g.layOut config = .ok laid ∧ laid.Oversized

theorem faultsOnly_compile (n : Network) (config : Config) :
    FaultsOnly (fun cause => (cause = .multiply ∨ cause = .add ∨ cause = .capacity) ∧ n.TooLarge config)
      (n.compile config) := by
  simp only [compile, failsOnly_bind]
  refine ⟨(n.faultsOnly_graph config).mono fun e he => ?_, fun g hg => ?_⟩
  · cases e with
    | fault cause => exact ⟨.inl he.1, .inl he.2⟩
    | _ => trivial
  let P (cause : Fault) : Prop := (cause = .multiply ∨ cause = .add ∨ cause = .capacity) ∧ n.TooLarge config
  have hroom (laid : Graph) (hlaid : g.layOut config = .ok laid) (hlarge : laid.Oversized) :
      P .multiply ∧ P .add ∧ P .capacity := by
    have : n.TooLarge config := .inr ⟨g, laid, hg, hlaid, hlarge⟩
    simp [P, this]
  refine ⟨?_, fun lowered hlowered => ?_⟩
  · rw [lower, show Pass.schedule Pass.standard = Pass.front ++ Pass.back from rfl, Pass.runAll_append]
    refine (faultsOnly_front hg).bind fun g' hfront => ?_
    obtain ⟨f, o⟩ := fits_behind_front hg hfront
    exact f.faultsOnly_back (P := P) o hfront fun laid hlaid hlarge =>
      ⟨(hroom laid hlaid hlarge).1, (hroom laid hlaid hlarge).2.1⟩
  · obtain ⟨st⟩ := stations_of_lower hlowered
    exact st.faultsOnly_blob (P := P) (graph_wellFormed hg) (graph_fresh hg) (graph_unplaced hg) hroom

/-- A text gives a network or is refused, and a network gives a blob or a reason why not.  The one
fault in reading is a constant with more values than can be counted, and a fault in compiling is a
size that does not fit its word. -/
theorem faults_only_when_too_large (text : String) (n : Network) (config : Config) :
    FailsOnly (fun e => e.Refusal ∨ e = .fault .multiply) (parse text) ∧
      (parse text = .error (.fault .multiply) ↔ ∃ j m, Json.parse? text = some j ∧ ofJson? j = some m ∧
        m.Overstated) ∧
        FaultsOnly (fun cause => (cause = .multiply ∨ cause = .add ∨ cause = .capacity) ∧ n.TooLarge config)
          (n.compile config) := by
  refine ⟨failsOnly_parse text, ?_, n.faultsOnly_compile config⟩
  simp [parse_eq_fault]

/-- A network with one constant, which is said to have `2 ^ 64` values and has one. -/
def overstatedText : String :=
  "\x7b\"name\":\"net\",\"ir_version\":7,\"tensors\":[\x7b\"name\":\"w\",\"dtype\":\"f16\"," ++
    "\"shape\":[4294967296,4294967296],\"kind\":\"weight\",\"data\":[1]\x7d]," ++
      "\"layers\":[],\"inputs\":[],\"outputs\":[]\x7d"

set_option maxRecDepth 16000 in
theorem overstatedText_faults : parse overstatedText = .error (.fault .multiply) := by decide +kernel

end Network

end NetLower
