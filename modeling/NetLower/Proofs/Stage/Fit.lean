/-
What a stage needs to get through the passes behind scale propagation, read off its site.
A stage that fits keeps fitting while tensors are rearranged, copied and exchanged; with
the orders it asks for it passes the final check.
-/
import Mathlib.Algebra.GroupWithZero.Nat
import NetLower.Pass.Lower
import NetLower.Proofs.Stage.Slots

namespace NetLower

open Outcome (FailsOnly failsOnly_ite failsOnly_ok failsOnly_error)

/-! ## Slices -/

/-- Parts that make up a whole along an axis. -/
structure Slices (whole : Desc) (axis : Dim) (parts : List Desc) : Prop where
  dtype : ∀ p ∈ parts, p.dtype = whole.dtype
  dims : ∀ p ∈ parts, ∃ u, whole.setDim axis ((p.dim? axis).getD 0) = .ok u ∧ p.dims = u.dims
  cover : whole.dim? axis = some ((parts.map fun p => (p.dim? axis).getD 0).sum)

namespace Slices

variable {E : Error → Prop} {whole whole' : Desc} {axis : Dim} {parts parts' : List Desc}

theorem offsetsFrom (stage : String) : ∀ {parts : List Desc} (offset : Nat),
    (∀ p ∈ parts, p.dtype = whole.dtype) →
    (∀ p ∈ parts, ∃ u, whole.setDim axis ((p.dim? axis).getD 0) = .ok u ∧ p.dims = u.dims) →
    (Size.range ≤ offset + (parts.map fun p => (p.dim? axis).getD 0).sum → E (.fault .add)) →
    FailsOnly E (sliceOffsetsFrom stage whole axis offset parts) ∧
      ∀ offsets stop, sliceOffsetsFrom stage whole axis offset parts = .ok (offsets, stop) →
        stop = offset + (parts.map fun p => (p.dim? axis).getD 0).sum
  | [], offset, _, _, _ => by
    refine ⟨.of_eq_ok rfl, fun offsets stop h => ?_⟩
    cases h
    rfl
  | p :: parts, offset, hdtype, hdims, hE => by
    obtain ⟨u, hu, hpu⟩ := hdims p (by simp)
    rw [List.map_cons, List.sum_cons, ← Nat.add_assoc] at hE
    have behind {next : Nat} (h : Size.add offset ((p.dim? axis).getD 0) = .ok next) :=
      offsetsFrom stage next (fun q hq => hdtype q (List.mem_cons_of_mem p hq))
        (fun q hq => hdims q (List.mem_cons_of_mem p hq)) (Size.add_eq_ok h ▸ hE)
    constructor
    · refine .after hu ((FailsOnly.require ⟨hpu, hdtype p (by simp)⟩).bind fun _ _ => ?_)
      refine FailsOnly.bind ?_ fun next hnext => (behind hnext).1.bind fun _ _ => .of_eq_ok rfl
      simp only [Size.add, failsOnly_ite, failsOnly_ok, failsOnly_error, implies_true, true_and, Nat.not_lt]
      exact fun hlarge => hE (Nat.le_trans hlarge (Nat.le_add_right _ _))
    · intro offsets stop h
      simp only [sliceOffsetsFrom, Outcome.bind_eq_ok, Outcome.pure_eq_ok, Prod.mk.injEq] at h
      obtain ⟨_, _, _, _, next, hnext, ⟨_, stop⟩, hrest, _, rfl⟩ := h
      rw [(behind hnext).2 _ _ hrest, Size.add_eq_ok hnext, List.map_cons, List.sum_cons, Nat.add_assoc]

/-- The offsets of slices can be computed, unless the size of the whole is too large. -/
theorem offsets_run (h : Slices whole axis parts) (stage : String)
    (hE : ∀ size, whole.dim? axis = some size → Size.range ≤ size → E (.fault .add)) :
    FailsOnly E (sliceOffsets stage whole parts axis) := by
  obtain ⟨hruns, hstop⟩ := offsetsFrom stage 0 h.dtype h.dims (by simpa using hE _ h.cover)
  unfold sliceOffsets
  rw [h.cover]
  refine hruns.bind fun ⟨offsets, covered⟩ hfrom => ?_
  have hcovered := hstop offsets covered hfrom
  rw [Nat.zero_add] at hcovered
  exact (FailsOnly.require hcovered).bind fun _ _ => .pure _

/-- The ranks of slices are the rank of the whole. -/
theorem rank (h : Slices whole axis parts) {p : Desc} (hp : p ∈ parts) : p.rank = whole.rank := by
  obtain ⟨u, hu, hpu⟩ := h.dims p hp
  rw [Desc.rank, hpu]
  exact (Desc.setDim_eq_ok hu).2.1

theorem congr (h : Slices whole axis parts) (hdims : whole'.dims = whole.dims)
    (hdtype : whole'.dtype = whole.dtype)
    (hparts : List.Forall₂ (fun p p' : Desc => p'.dims = p.dims ∧ p'.dtype = p.dtype) parts parts') :
    Slices whole' axis parts' := by
  have found {p' : Desc} (hp' : p' ∈ parts') : ∃ p ∈ parts, p'.dims = p.dims ∧ p'.dtype = p.dtype := by
    obtain ⟨k, hk⟩ := List.mem_iff_getElem?.1 hp'
    obtain ⟨p, hp, hsame⟩ := Graph.forall₂_getElem? hparts.flip hk
    exact ⟨p, List.mem_of_getElem? hp, hsame⟩
  refine ⟨fun p' hp' => ?_, fun p' hp' => ?_, ?_⟩
  · obtain ⟨p, hp, _, hpt⟩ := found hp'
    rw [hpt, h.dtype p hp, hdtype]
  · obtain ⟨p, hp, hpd, _⟩ := found hp'
    obtain ⟨u, hu, hpu⟩ := h.dims p hp
    rw [Desc.dim?_congr hpd]
    obtain ⟨u', hu'⟩ := @Desc.setDim_of_dim? whole' axis ((p.dim? axis).getD 0) _
      ((Desc.dim?_congr hdims axis).trans h.cover)
    exact ⟨u', hu', by rw [hpd, hpu, Desc.dims_setDim_congr hdims hu hu']⟩
  · have hsizes : (parts'.map fun p => (p.dim? axis).getD 0) = parts.map fun p => (p.dim? axis).getD 0 := by
      clear h found
      induction hparts with
      | nil => rfl
      | cons hp _ ih => rw [List.map_cons, List.map_cons, ih, Desc.dim?_congr hp.1]
    rw [Desc.dim?_congr hdims, h.cover, hsizes]

end Slices

namespace Site

variable {s s' : Site}

theorem axis_congr {axis : Dim} (hattrs : s'.attrs = s.attrs) (h : s.axis = .ok axis) : s'.axis = .ok axis := by
  simp only [Site.axis, Outcome.bind_eq_ok, hattrs] at h ⊢
  obtain ⟨digit, hdigit, u, hpos, h⟩ := h
  refine ⟨digit, hdigit, (), Outcome.require_eq_ok.2 (Outcome.require_eq_ok.1 hpos), ?_⟩
  split at h
  · exact h
  · cases h

/-- One tensor is cut into the outputs. -/
def Cuts (s : Site) : Prop :=
  ∃ whole axis, s.inputs = [whole] ∧ s.outputs ≠ [] ∧ s.axis = .ok axis ∧
    Slices whole.desc axis (s.outputs.map Data.desc)

/-- The inputs are put together to one tensor. -/
def Gathers (s : Site) : Prop :=
  ∃ whole axis, s.outputs = [whole] ∧ s.inputs ≠ [] ∧ s.axis = .ok axis ∧
    Slices whole.desc axis (s.inputs.map Data.desc)

/-- The sizes at the slots of one direction. -/
theorem Like.forall₂ (like : s.Like Look.alike s') (kind : EdgeKind) :
    List.Forall₂ (fun p p' : Desc => p'.dims = p.dims ∧ p'.dtype = p.dtype) ((s.slots kind).map Data.desc)
      ((s'.slots kind).map Data.desc) := by
  rw [List.forall₂_map_left_iff, List.forall₂_map_right_iff, List.forall₂_iff_get]
  refine ⟨(like.length kind).symm, fun k hk hk' => ?_⟩
  have halike := like.slot kind k _ _ (List.getElem?_eq_getElem hk) (List.getElem?_eq_getElem hk')
  exact ⟨halike.dims, halike.dtype⟩

/-- A list of one stays one. -/
theorem Like.single (like : s.Like Look.alike s') {kind : EdgeKind} {d : Data} (h : s.slots kind = [d]) :
    ∃ d', s'.slots kind = [d'] ∧ d'.desc.dims = d.desc.dims ∧ d'.desc.dtype = d.desc.dtype := by
  have hlen := like.length kind
  rw [h, List.length_singleton] at hlen
  obtain ⟨d', hd'⟩ := List.length_eq_one_iff.1 hlen
  have halike := like.slot kind 0 d d' (by simp [h]) (by simp [hd'])
  exact ⟨d', hd', halike.dims, halike.dtype⟩

theorem Like.ne_nil {R : SlotRel} (like : s.Like R s') {kind : EdgeKind} (h : s.slots kind ≠ []) :
    s'.slots kind ≠ [] := by
  intro hnil
  have hlen := like.length kind
  rw [hnil, List.length_nil] at hlen
  exact h (List.length_eq_zero_iff.1 hlen.symm)

theorem Cuts.alike (like : s.Like Look.alike s') (h : s.Cuts) : s'.Cuts := by
  obtain ⟨whole, axis, hin, hout, haxis, hslices⟩ := h
  obtain ⟨whole', hin', hdims, hdtype⟩ := like.single (show s.slots .input = [whole] from hin)
  refine ⟨whole', axis, hin', like.ne_nil (show s.slots .output ≠ [] from hout), axis_congr like.attrs haxis, ?_⟩
  exact hslices.congr hdims hdtype (like.forall₂ .output)

theorem Gathers.alike (like : s.Like Look.alike s') (h : s.Gathers) : s'.Gathers := by
  obtain ⟨whole, axis, hout, hin, haxis, hslices⟩ := h
  obtain ⟨whole', hout', hdims, hdtype⟩ := like.single (show s.slots .output = [whole] from hout)
  refine ⟨whole', axis, hout', like.ne_nil (show s.slots .input ≠ [] from hin), axis_congr like.attrs haxis, ?_⟩
  exact hslices.congr hdims hdtype (like.forall₂ .input)

/-- One tensor in and one out, of the same sizes. -/
def Keeps (s : Site) : Prop :=
  s.Unary ∧ ∀ x y, s.inputs[0]? = some x → s.outputs[0]? = some y → y.desc.dims = x.desc.dims

theorem Keeps.alike (like : s.Like Look.alike s') (h : s.Keeps) : s'.Keeps := by
  refine ⟨h.1.akin like.akin, fun x' y' hx' hy' => ?_⟩
  obtain ⟨x, hx, hxx⟩ := like.slot_of (show (s'.slots .input)[0]? = some x' from hx')
  obtain ⟨y, hy, hyy⟩ := like.slot_of (show (s'.slots .output)[0]? = some y' from hy')
  exact (hyy.dims.trans (h.2 x y hx hy)).trans hxx.dims.symm

end Site

/-! ## What each kind needs -/

/-- The hardware can run the window kept in the attributes. -/
def Attrs.Fast (a : Attrs) : Prop :=
  ∃ w, a.window = .ok w ∧ w.kernel.x ≤ maxHwKernel ∧ w.kernel.y ≤ maxHwKernel ∧ w.stride.x ≤ maxHwStride

/-- The stage can be one of the family. -/
def StageFamily.Suits (f : StageFamily) (s : Site) : Prop :=
  match f with
  | .convolution => s.Weighted ∧ ∃ rank, s.MainRank rank
  | .fullyConnected => s.Weighted ∧ ∀ d, s.outputs[0]? = some d → d.desc.rank = 2
  | .pooling => s.Unary ∧ s.Solid ∧ ∃ rank, s.MainRank rank
  | .power => s.Unary
  | .permute | .copy => s.Keeps
  | .split => s.Cuts
  | .concat => s.Gathers
  | .stub | .hardware => False

/-- The hardware can run the stage with this operation. -/
structure HardwareOp.Suits (op : HardwareOp) (s : Site) : Prop where
  slots : if op.isWeightable then s.Weighted else s.Unary ∧ s.Solid
  window : op ≠ .fullyConnected → s.attrs.Fast ∧ s.MainRank 4

/-- The stub can be lowered: to software, and to the hardware if it may try that. -/
structure Site.Lowerable (s : Site) (op : Option HardwareOp) (software : StageKind) : Prop where
  lowering : s.kind.lowering = .ok (op, software)
  software : software.family.Suits s
  unset : s.attrs.has .hwOpKind = false
  hardware : s.attrs.isOn .tryHw = .ok true → ∀ o, op = some o → o.Suits s

/-- The stage has what its kind needs. -/
def Site.Fit (s : Site) : Prop :=
  s.Half ∧ match s.kind.family with
    | .stub => ∃ op software, s.Lowerable op software
    | .hardware => ∃ op, s.hardwareOp = .ok op ∧ op.Suits s
    | f => f.Suits s

/-- Whether the sizes at the slots matter, and not only their number. -/
def StageFamily.sized : StageFamily → Bool
  | .permute | .copy | .split | .concat => true
  | _ => false

section akin

variable {s s' : Site}

theorem StageFamily.Suits.akin {f : StageFamily} (h : f.Suits s) (like : s.Like Look.akin s')
    (hf : f.sized = false) : f.Suits s' := by
  cases f with
  | stub => exact h
  | hardware => exact h
  | convolution =>
    obtain ⟨hweighted, rank, hrank⟩ := h
    exact ⟨hweighted.akin like, rank, hrank.akin like⟩
  | fullyConnected =>
    refine ⟨h.1.akin like, fun d' hd' => ?_⟩
    obtain ⟨d, hd, hakin⟩ := like.slot_of (show (s'.slots .output)[0]? = some d' from hd')
    exact hakin.rank.trans (h.2 d hd)
  | pooling =>
    obtain ⟨hunary, hsolid, rank, hrank⟩ := h
    exact ⟨hunary.akin like, hsolid.akin like, rank, hrank.akin like⟩
  | power => exact Site.Unary.akin like h
  | permute => cases hf
  | copy => cases hf
  | split => cases hf
  | concat => cases hf

theorem StageFamily.Suits.alike {f : StageFamily} (h : f.Suits s) (like : s.Like Look.alike s') : f.Suits s' := by
  cases hf : f.sized with
  | false => exact h.akin like.akin hf
  | true =>
    cases f with
    | permute => exact Site.Keeps.alike like h
    | copy => exact Site.Keeps.alike like h
    | split => exact Site.Cuts.alike like h
    | concat => exact Site.Gathers.alike like h
    | _ => cases hf

theorem HardwareOp.Suits.akin {op : HardwareOp} (h : op.Suits s) (like : s.Like Look.akin s') : op.Suits s' := by
  refine ⟨?_, fun hop => ⟨like.attrs ▸ (h.window hop).1, (h.window hop).2.akin like⟩⟩
  have hslots := h.slots
  split at hslots
  next hw =>
    rw [if_pos hw]
    exact hslots.akin like
  next hw =>
    rw [if_neg hw]
    exact ⟨hslots.1.akin like, hslots.2.akin like⟩

theorem Site.hardwareOp_congr {op : HardwareOp} (hattrs : s'.attrs = s.attrs) (h : s.hardwareOp = .ok op) :
    s'.hardwareOp = .ok op := by
  simp only [Site.hardwareOp, Outcome.bind_eq_ok, hattrs] at h ⊢
  obtain ⟨code, hcode, h⟩ := h
  refine ⟨code, hcode, ?_⟩
  split at h
  · exact h
  · cases h

/-- A stage fits in a place like its own, as far as its kind minds. -/
theorem Site.Fit.carry (h : s.Fit) (like : s.Like Look.akin s')
    (hsuits : ∀ f : StageFamily, f = s.kind.family ∨ f.sized = false → f.Suits s → f.Suits s') : s'.Fit := by
  refine ⟨h.1.akin like, ?_⟩
  have hkind := h.2
  rw [like.kind]
  revert hkind
  cases hf : s.kind.family with
  | stub =>
    rintro ⟨op, software, hlow⟩
    have hsized : software.family.sized = false := by
      have hlowering := hlow.lowering
      revert hlowering
      cases s.kind <;> intro hlowering <;> cases hlowering <;> rfl
    exact ⟨op, software, like.kind ▸ hlow.lowering, hsuits _ (.inr hsized) hlow.software, like.attrs ▸ hlow.unset,
      fun hon o ho => (hlow.hardware (like.attrs ▸ hon) o ho).akin like⟩
  | hardware =>
    rintro ⟨op, hop, hsuit⟩
    exact ⟨op, hardwareOp_congr like.attrs hop, hsuit.akin like⟩
  | _ => exact fun hkind => hsuits _ (.inl hf.symm) hkind

theorem Site.Fit.akin (h : s.Fit) (like : s.Like Look.akin s') (hf : s.kind.family.sized = false) : s'.Fit :=
  h.carry like fun f hf' hsuit => hsuit.akin like (by rcases hf' with rfl | hf' <;> assumption)

theorem Site.Fit.alike (h : s.Fit) (like : s.Like Look.alike s') : s'.Fit :=
  h.carry like.akin fun _ _ hsuit => hsuit.alike like

end akin

end NetLower
