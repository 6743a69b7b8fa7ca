/-
The layout of a stage that fits: which orders and strides it asks for, that it can have
them, and that with the orders it asks for it passes the final check.
-/
import NetLower.Proofs.Graph.Fits
import NetLower.Proofs.Stage.Fit
import NetLower.Stage.Layout

namespace NetLower

open Outcome (FailsOnly)

/-- What is said about the slots of one direction. -/
def Report.slots (r : Report α) : EdgeKind → List (Option α)
  | .input => r.inputs
  | .output => r.outputs

/-- The descriptor at slot 0 stays. -/
def Look.steady : SlotRel := fun _ k v v' => k = 0 → v'.desc = v.desc

/-- Alike tensors, and at slot 0 the very same descriptor. -/
def Look.fixed : SlotRel := fun kind k v v' => Look.alike kind k v v' ∧ Look.steady kind k v v'

theorem StageKind.family_ne_stub {k : StageKind} (h : k.isStub = false) : k.family ≠ .stub := by
  revert h
  cases k <;> decide

theorem HardwareOp.Suits.lengths {op : HardwareOp} {s : Site} (h : op.Suits s) :
    s.inputs.length ≠ 0 ∧ s.outputs.length ≠ 0 := by
  have hslots := h.slots
  split at hslots
  · rw [hslots.inputs, hslots.outputs]
    decide
  · rw [hslots.1.inputs, hslots.1.outputs]
    decide

theorem HardwareOp.Suits.solid {op : HardwareOp} {s : Site} (h : op.Suits s) : s.Solid := by
  have hslots := h.slots
  split at hslots
  · exact hslots.solid
  · exact hslots.2

namespace Site

variable {E : Error → Prop} {s s' : Site}

theorem input_eq_ok {k : Nat} {d : Data} : s.input k = .ok d ↔ s.inputs[k]? = some d := by
  unfold input
  split <;> simp_all

theorem output_eq_ok {k : Nat} {d : Data} : s.output k = .ok d ↔ s.outputs[k]? = some d := by
  unfold output
  split <;> simp_all

/-- The main tensors are in the orders that the final check asks for. -/
def Settled (s : Site) : Prop :=
  match s.kind.family with
  | .convolution | .pooling => ∀ kind d, (s.slots kind)[0]? = some d →
                                 Order.interleaved d.desc.rank = .ok d.desc.order
  | .fullyConnected => ∀ d, s.inputs[0]? = some d → Order.canonical d.desc.rank = .ok d.desc.order
  | .hardware => ∀ kind d, (s.slots kind)[0]? = some d → Order.canonical d.desc.rank = .ok d.desc.order
  | .copy => ∀ x y, s.inputs[0]? = some x → s.outputs[0]? = some y → y.desc = x.desc
  | _ => True

theorem Settled.steady (h : s.Settled) (like : s.Like Look.steady s') : s'.Settled := by
  have main {kind} {d' : Data} (hd' : (s'.slots kind)[0]? = some d') : ∃ d, (s.slots kind)[0]? = some d ∧
      d'.desc = d.desc := by
    obtain ⟨d, hd, hsteady⟩ := like.slot_of hd'
    exact ⟨d, hd, hsteady rfl⟩
  unfold Settled at h ⊢
  rw [like.kind]
  split at h
  · intro kind d' hd'
    obtain ⟨d, hd, heq⟩ := main hd'
    exact heq ▸ h kind d hd
  · intro kind d' hd'
    obtain ⟨d, hd, heq⟩ := main hd'
    exact heq ▸ h kind d hd
  · intro d' hd'
    obtain ⟨d, hd, heq⟩ := main (show (s'.slots .input)[0]? = some d' from hd')
    exact heq ▸ h d hd
  · intro kind d' hd'
    obtain ⟨d, hd, heq⟩ := main hd'
    exact heq ▸ h kind d hd
  · intro x' y' hx' hy'
    obtain ⟨x, hx, hxx⟩ := main (show (s'.slots .input)[0]? = some x' from hx')
    obtain ⟨y, hy, hyy⟩ := main (show (s'.slots .output)[0]? = some y' from hy')
    rw [hxx, hyy, h x y hx hy]
  · trivial

/-! ## The final check -/

theorem checkMainOrder_eq_ok {order : Order} {x y : Data} (hx : s.inputs[0]? = some x)
    (hy : s.outputs[0]? = some y) (hxo : x.desc.order = order) (hyo : y.desc.order = order) :
    s.checkMainOrder order = .ok () := by
  simp only [checkMainOrder, input_eq_ok.2 hx, output_eq_ok.2 hy, Outcome.bind_eq_ok, Except.ok.injEq,
    exists_eq_left', Outcome.forEach_eq_ok, Outcome.require_eq_ok, List.forall_mem_cons]
  exact ⟨hxo, hyo, by simp⟩

/-- The main tensors are where the final check looks for them. -/
theorem main_of_length (hin : s.inputs.length ≠ 0) (hout : s.outputs.length ≠ 0) :
    ∃ x y, s.inputs[0]? = some x ∧ s.outputs[0]? = some y :=
  ⟨_, _, List.getElem?_eq_getElem (Nat.pos_of_ne_zero hin), List.getElem?_eq_getElem (Nat.pos_of_ne_zero hout)⟩

theorem checkInterleaved_eq_ok {rank : Nat} (hin : s.inputs.length ≠ 0) (hout : s.outputs.length ≠ 0)
    (hrank : s.MainRank rank)
    (h : ∀ kind d, (s.slots kind)[0]? = some d → Order.interleaved d.desc.rank = .ok d.desc.order) :
    s.checkInterleaved = .ok () := by
  obtain ⟨x, y, hx, hy⟩ := main_of_length hin hout
  have hox := h .input x hx
  have hoy := h .output y hy
  rw [hrank .output y hy, ← hrank .input x hx, hox, Except.ok.injEq] at hoy
  simp only [checkInterleaved, input_eq_ok.2 hx, Outcome.bind_eq_ok, Except.ok.injEq, exists_eq_left']
  exact ⟨_, hox, checkMainOrder_eq_ok hx hy rfl hoy.symm⟩

theorem checkHardware_eq_ok {op : HardwareOp} (half : s.Half) (h : op.Suits s) : s.checkHardware op = .ok () := by
  have hslots := h.slots
  unfold checkHardware
  split
  next hw =>
    rw [if_pos hw] at hslots
    exact checkWeightable_eq_ok.2 ⟨hslots, half⟩
  next hw =>
    rw [if_neg hw] at hslots
    exact checkUnary_eq_ok.2 ⟨hslots.1, half⟩

/-- A hardware stage that fits has the operation it fits for. -/
theorem hardware_runs {op : HardwareOp} (half : s.Half) (h : op.Suits s) (hop : s.hardwareOp = .ok op)
    (hsettled : ∀ kind d, (s.slots kind)[0]? = some d → Order.canonical d.desc.rank = .ok d.desc.order) :
    FailsOnly E (StageFamily.finalCheck .hardware s) := by
  rw [StageFamily.finalCheck, hop]
  refine FailsOnly.bind (.of_eq_ok rfl) fun _ he => ?_
  cases he
  refine (FailsOnly.of_eq_ok (checkHardware_eq_ok half h)).bind fun _ _ => ?_
  split
  · exact .pure _
  next hne =>
    obtain ⟨⟨w, hw, hkx, hky, hsx⟩, hrank⟩ := h.window hne
    obtain ⟨x, y, hx, hy⟩ := main_of_length h.lengths.1 h.lengths.2
    have order {kind} {d : Data} (hd : (s.slots kind)[0]? = some d) : d.desc.order = .nchw := by
      have := hsettled kind d hd
      rw [hrank kind d hd] at this
      exact (Except.ok.inj this).symm
    rw [hw]
    refine FailsOnly.bind (.of_eq_ok rfl) fun _ he => ?_
    cases he
    refine (FailsOnly.require ⟨hkx, hky, hsx⟩).bind fun _ _ => ?_
    exact .of_eq_ok (checkMainOrder_eq_ok hx hy (order (show (s.slots .input)[0]? = some x from hx))
      (order (show (s.slots .output)[0]? = some y from hy)))

theorem keeps_runs (half : s.Half) (h : s.Keeps) : s.checkPermute = .ok () := by
  obtain ⟨x, y, hin, hout⟩ := h.1.eq
  simp only [checkPermute, hin, hout, Outcome.require_eq_ok]
  refine ⟨(h.2 x y (by simp [hin]) (by simp [hout])).symm, ?_⟩
  rw [half .input x (by simp [slots, hin]), half .output y (by simp [slots, hout])]

/-- What a split cuts off adds up to what it cuts. -/
theorem Cuts.splitOffsets_run (h : s.Cuts)
    (hE : ∀ kind, ∀ d ∈ s.slots kind, ∀ x size, d.desc.dim? x = some size → Size.range ≤ size → E (.fault .add)) :
    FailsOnly E s.splitOffsets := by
  obtain ⟨whole, axis, hin, hout, haxis, hslices⟩ := h
  obtain ⟨p, parts, hparts⟩ := List.exists_cons_of_ne_nil hout
  simp only [splitOffsets, hin, hparts, haxis]
  exact hparts ▸ hslices.offsets_run _ (hE .input whole (by simp [slots, hin]) axis)

theorem Gathers.concatOffsets_run (h : s.Gathers)
    (hE : ∀ kind, ∀ d ∈ s.slots kind, ∀ x size, d.desc.dim? x = some size → Size.range ≤ size → E (.fault .add)) :
    FailsOnly E s.concatOffsets := by
  obtain ⟨whole, axis, hout, hin, haxis, hslices⟩ := h
  obtain ⟨p, parts, hparts⟩ := List.exists_cons_of_ne_nil hin
  simp only [concatOffsets, hout, hparts, haxis]
  exact hparts ▸ hslices.offsets_run _ (hE .output whole (by simp [slots, hout]) axis)

/-- A real stage that fits and has its orders passes the final check, unless a size is too large. -/
theorem Fit.finalCheck_runs (h : s.Fit) (hsettled : s.Settled) (hstub : s.kind.isStub = false)
    (hE : ∀ kind, ∀ d ∈ s.slots kind, ∀ x size, d.desc.dim? x = some size → Size.range ≤ size → E (.fault .add)) :
    FailsOnly E (s.kind.family.finalCheck s) := by
  obtain ⟨half, hfit⟩ := h
  unfold Settled at hsettled
  cases hf : s.kind.family <;> rw [hf] at hfit hsettled <;> simp only at hfit hsettled
  case stub => exact absurd hf (StageKind.family_ne_stub hstub)
  case hardware =>
    obtain ⟨op, hop, hsuit⟩ := hfit
    exact hardware_runs half hsuit hop hsettled
  case convolution =>
    obtain ⟨hw, rank, hrank⟩ := hfit
    refine (FailsOnly.of_eq_ok (checkWeightable_eq_ok.2 ⟨hw, half⟩)).bind fun _ _ => ?_
    exact .of_eq_ok (checkInterleaved_eq_ok (by rw [hw.inputs]; decide) (by rw [hw.outputs]; decide) hrank
      hsettled)
  case pooling =>
    obtain ⟨hu, _, rank, hrank⟩ := hfit
    refine (FailsOnly.of_eq_ok (checkUnary_eq_ok.2 ⟨hu, half⟩)).bind fun _ _ => ?_
    exact .of_eq_ok (checkInterleaved_eq_ok (by rw [hu.inputs]; decide) (by rw [hu.outputs]; decide) hrank
      hsettled)
  case fullyConnected =>
    obtain ⟨hw, _⟩ := hfit
    obtain ⟨x, y, hx, _⟩ := main_of_length (s := s) (by rw [hw.inputs]; decide) (by rw [hw.outputs]; decide)
    refine (FailsOnly.of_eq_ok (checkWeightable_eq_ok.2 ⟨hw, half⟩)).bind fun _ _ => ?_
    rw [input_eq_ok.2 hx]
    refine FailsOnly.bind (.of_eq_ok rfl) fun _ he => ?_
    cases he
    rw [hsettled x hx]
    refine FailsOnly.bind (.of_eq_ok rfl) fun _ he => ?_
    cases he
    exact .require rfl
  case power => exact .of_eq_ok (checkUnary_eq_ok.2 ⟨hfit, half⟩)
  case permute => exact .of_eq_ok (keeps_runs half hfit)
  case copy =>
    obtain ⟨x, y, hin, hout⟩ := hfit.1.eq
    have hdesc := hsettled x y (by simp [hin]) (by simp [hout])
    simp only [StageFamily.finalCheck, checkCopy, hin, hout]
    exact .require hdesc.symm
  case split => exact .check (Cuts.splitOffsets_run hfit hE)
  case concat => exact .check (Gathers.concatOffsets_run hfit hE)

/-! ## Orders -/

/-- The tensors at the slots can be put into the orders of a report. -/
def CanHave (s : Site) (report : Report Order) : Prop :=
  ∀ (kind : EdgeKind) (k : Nat) (order : Order) (d : Data), (report.slots kind)[k]? = some (some order) →
    (s.slots kind)[k]? = some d → d.desc.Allows order

theorem slot_of_blank {nodes : List Data} {b : α} {k : Nat} : (nodes.map fun _ => none)[k]? ≠ some (some b) := by
  rw [List.getElem?_map, ne_eq, Option.map_eq_some_iff]
  rintro ⟨_, _, h⟩
  cases h

theorem blank_congr (h : ∀ kind, (s'.slots kind).length = (s.slots kind).length) :
    (Report.blank s' : Report α) = Report.blank s := by
  have hin : s'.inputs.length = s.inputs.length := h .input
  have hout : s'.outputs.length = s.outputs.length := h .output
  simp only [Report.blank, List.map_const', hin, hout]

/-- A report that speaks of slot 0 only. -/
theorem slot_of_set {nodes : List Data} {a b : α} {k : Nat}
    (h : ((nodes.map fun _ => none).set 0 (some a))[k]? = some (some b)) : k = 0 ∧ b = a := by
  rw [List.getElem?_set] at h
  split at h
  next hk =>
    split at h
    · simp only [Option.some.injEq] at h
      exact ⟨hk.symm, h.symm⟩
    · cases h
  · exact absurd h slot_of_blank

theorem orders_main {f : StageFamily} {x y : Data} {input output : Order} (hx : s.inputs[0]? = some x)
    (hy : s.outputs[0]? = some y) (hxo : x.desc.Allows input) (hyo : y.desc.Allows output)
    (h : f.orders s = .ok (((Report.blank s).setInput 0 input).setOutput 0 output)) :
    ∃ report, f.orders s = .ok report ∧ s.CanHave report := by
  refine ⟨_, h, fun kind k order d hk hd => ?_⟩
  cases kind with
  | input =>
    obtain ⟨rfl, rfl⟩ := slot_of_set (show ((s.inputs.map fun _ => none).set 0 (some input))[k]? = _ from hk)
    rw [show (s.slots .input)[0]? = s.inputs[0]? from rfl, hx, Option.some.injEq] at hd
    exact hd ▸ hxo
  | output =>
    obtain ⟨rfl, rfl⟩ := slot_of_set (show ((s.outputs.map fun _ => none).set 0 (some output))[k]? = _ from hk)
    rw [show (s.slots .output)[0]? = s.outputs[0]? from rfl, hy, Option.some.injEq] at hd
    exact hd ▸ hyo

theorem followOrder_allows {x : Data} (hx : s.inputs[0]? = some x) :
    ∃ report, s.followOrder = .ok report ∧ s.CanHave report := by
  refine ⟨_, by rw [followOrder, input_eq_ok.2 hx]; rfl, fun kind k order d hk hd => ?_⟩
  cases kind with
  | input => exact absurd hk slot_of_blank
  | output =>
    change (s.outputs.map fun d =>
      if d.desc.order.sameDims x.desc.order then some x.desc.order else none)[k]? = _ at hk
    change s.outputs[k]? = some d at hd
    rw [List.getElem?_map, hd, Option.map_some, Option.some.injEq] at hk
    split at hk
    next hsame =>
      cases hk
      exact d.desc.allows_order.trans hsame
    · cases hk

/-- A real stage that fits can have every order it asks for. -/
theorem Fit.orders (h : s.Fit) (hstub : s.kind.isStub = false) :
    ∃ report, s.kind.family.orders s = .ok report ∧ s.CanHave report := by
  obtain ⟨half, hfit⟩ := h
  -- Convolutions and pools ask for one order of the common rank.
  have interleaved {f : StageFamily} {rank : Nat} (hin : s.inputs.length ≠ 0) (hout : s.outputs.length ≠ 0)
      (hrank : s.MainRank rank)
      (hf : f.orders s = (do s.mainOrder (← Order.interleaved (← s.input 0).desc.rank))) :
      ∃ report, f.orders s = .ok report ∧ s.CanHave report := by
    obtain ⟨x, y, hx, hy⟩ := main_of_length hin hout
    obtain ⟨order, horder, hallows⟩ := x.desc.interleaved_eq_ok
    have hsame : y.desc.rank = x.desc.rank := (hrank .output y hy).trans (hrank .input x hx).symm
    refine orders_main hx hy hallows (hallows.congr hsame) ?_
    rw [hf, input_eq_ok.2 hx]
    simp only [Outcome.bind_eq_ok, Except.ok.injEq, exists_eq_left', horder, mainOrder, input_eq_ok.2 hx,
      output_eq_ok.2 hy, Outcome.pure_eq_ok]
  cases hf : s.kind.family <;> rw [hf] at hfit <;> simp only at hfit
  case stub => exact absurd hf (StageKind.family_ne_stub hstub)
  case hardware =>
    obtain ⟨op, _, hsuit⟩ := hfit
    obtain ⟨x, y, hx, hy⟩ := main_of_length hsuit.lengths.1 hsuit.lengths.2
    refine orders_main hx hy x.desc.allows_canonical y.desc.allows_canonical ?_
    simp only [StageFamily.orders, input_eq_ok.2 hx, output_eq_ok.2 hy, Outcome.bind_eq_ok, Except.ok.injEq,
      exists_eq_left', Desc.canonical_eq_ok, Outcome.pure_eq_ok]
  case convolution =>
    obtain ⟨hw, rank, hrank⟩ := hfit
    exact interleaved (by rw [hw.inputs]; decide) (by rw [hw.outputs]; decide) hrank rfl
  case pooling =>
    obtain ⟨hu, _, rank, hrank⟩ := hfit
    exact interleaved (by rw [hu.inputs]; decide) (by rw [hu.outputs]; decide) hrank rfl
  case fullyConnected =>
    obtain ⟨hw, hflat⟩ := hfit
    obtain ⟨x, y, hx, hy⟩ := main_of_length (s := s) (by rw [hw.inputs]; decide) (by rw [hw.outputs]; decide)
    have hnc : y.desc.canonical = .nc := by
      have := y.desc.canonical_eq_ok
      rw [hflat y hy] at this
      exact (Except.ok.inj this).symm
    refine orders_main hx hy x.desc.allows_canonical (hnc ▸ y.desc.allows_canonical) ?_
    simp only [StageFamily.orders, input_eq_ok.2 hx, output_eq_ok.2 hy, Outcome.bind_eq_ok, Except.ok.injEq,
      exists_eq_left', Desc.canonical_eq_ok, Outcome.pure_eq_ok]
  case power =>
    obtain ⟨x, y, hin, _⟩ := hfit.eq
    exact followOrder_allows (show s.inputs[0]? = some x by simp [hin])
  case copy =>
    obtain ⟨x, y, hin, _⟩ := hfit.1.eq
    exact followOrder_allows (show s.inputs[0]? = some x by simp [hin])
  case split =>
    obtain ⟨x, _, hin, _⟩ := hfit
    exact followOrder_allows (show s.inputs[0]? = some x by simp [hin])
  case permute =>
    refine ⟨_, rfl, fun kind k order d hk _ => ?_⟩
    cases kind <;> exact absurd hk slot_of_blank
  case concat =>
    obtain ⟨whole, axis, hout, hin, _, hslices⟩ := hfit
    obtain ⟨x, rest, hlist⟩ := List.exists_cons_of_ne_nil hin
    have hx : s.inputs[0]? = some x := by simp [hlist]
    have hy : s.outputs[0]? = some whole := by simp [hout]
    have ranks {d : Data} (hd : d ∈ s.inputs) : d.desc.rank = whole.desc.rank :=
      hslices.rank (List.mem_map_of_mem hd)
    have hwhole : whole.desc.Allows x.desc.order := x.desc.allows_order.congr (ranks (by simp [hlist])).symm
    refine ⟨_, by simp only [StageFamily.orders, input_eq_ok.2 hx, output_eq_ok.2 hy]; rfl,
      fun kind k order d hk hd => ?_⟩
    cases kind with
    | input =>
      change (s.inputs.map fun _ => some x.desc.order)[k]? = _ at hk
      change s.inputs[k]? = some d at hd
      rw [List.getElem?_map, hd, Option.map_some, Option.some.injEq, Option.some.injEq] at hk
      exact hk ▸ hwhole.congr (ranks (List.mem_of_getElem? hd))
    | output =>
      obtain ⟨rfl, rfl⟩ :=
        slot_of_set (show ((s.outputs.map fun _ => none).set 0 (some x.desc.order))[k]? = _ from hk)
      rw [show (s.slots .output)[0]? = s.outputs[0]? from rfl, hy, Option.some.injEq] at hd
      exact hd ▸ hwhole

theorem set_of_slot {nodes : List Data} {a : α} {d : Data} (h : nodes[0]? = some d) :
    ((nodes.map fun _ => none).set 0 (some a))[0]? = some (some a) := by
  obtain ⟨hlt, _⟩ := List.getElem?_eq_some_iff.1 h
  rw [List.getElem?_set_self (by simpa using hlt)]

/-- The main tensors of a place like this one have the orders of a report. -/
def Met (s' : Site) (report : Report Order) : Prop :=
  ∀ (kind : EdgeKind) (order : Order) (d : Data), (report.slots kind)[0]? = some (some order) →
    (s'.slots kind)[0]? = some d → (kind = .input → d.usage ≠ .fake) → d.desc.order = order

theorem Met.input {input output : Order} {d' : Data} (like : s.Like Look.alike s') (solid : s'.Solid)
    (h : s'.Met (((Report.blank s).setInput 0 input).setOutput 0 output)) (hd' : s'.inputs[0]? = some d') :
    ∃ d, s.inputs[0]? = some d ∧ d'.desc.rank = d.desc.rank ∧ d'.desc.order = input := by
  obtain ⟨d, hd, halike⟩ := like.slot_of (show (s'.slots .input)[0]? = some d' from hd')
  refine ⟨d, hd, halike.rank, h .input input d' (set_of_slot hd) hd' fun _ => solid d' hd'⟩

theorem Met.output {input output : Order} {d' : Data} (like : s.Like Look.alike s')
    (h : s'.Met (((Report.blank s).setInput 0 input).setOutput 0 output)) (hd' : s'.outputs[0]? = some d') :
    ∃ d, s.outputs[0]? = some d ∧ d'.desc.rank = d.desc.rank ∧ d'.desc.order = output := by
  obtain ⟨d, hd, halike⟩ := like.slot_of (show (s'.slots .output)[0]? = some d' from hd')
  refine ⟨d, hd, halike.rank, h .output output d' (set_of_slot hd) hd' nofun⟩

/-- A stage with the orders it asks for is settled. -/
theorem Fit.settle {report : Report Order} (h : s.Fit) (hcopy : s.kind ≠ .copy)
    (ho : s.kind.family.orders s = .ok report) (like : s.Like Look.alike s') (hmet : s'.Met report) :
    s'.Settled := by
  obtain ⟨half, hfit⟩ := h
  have interleaved {rank : Nat} (solid : s.Solid) (hrank : s.MainRank rank)
      (ho : (do s.mainOrder (← Order.interleaved (← s.input 0).desc.rank)) = .ok report) :
      ∀ kind d, (s'.slots kind)[0]? = some d → Order.interleaved d.desc.rank = .ok d.desc.order := by
    simp only [mainOrder, Outcome.bind_eq_ok, Outcome.pure_eq_ok, input_eq_ok, output_eq_ok] at ho
    obtain ⟨x, hx, order, horder, _, _, _, _, rfl⟩ := ho
    rw [hrank .input x hx] at horder
    intro kind d' hd'
    cases kind with
    | input =>
      obtain ⟨d, hd, hsame, heq⟩ := Met.input like (solid.akin like.akin) hmet hd'
      rw [hsame, hrank .input d hd, heq, horder]
    | output =>
      obtain ⟨d, hd, hsame, heq⟩ := Met.output like hmet hd'
      rw [hsame, hrank .output d hd, heq, horder]
  unfold Settled
  rw [like.kind]
  cases hf : s.kind.family <;> rw [hf] at hfit ho <;> simp only at hfit ⊢
  case convolution =>
    obtain ⟨hw, rank, hrank⟩ := hfit
    exact interleaved hw.solid hrank ho
  case pooling =>
    obtain ⟨_, hsolid, rank, hrank⟩ := hfit
    exact interleaved hsolid hrank ho
  case fullyConnected =>
    simp only [StageFamily.orders, Outcome.bind_eq_ok, Outcome.pure_eq_ok, input_eq_ok, output_eq_ok] at ho
    obtain ⟨x, hx, order, horder, _, _, rfl⟩ := ho
    intro d' hd'
    obtain ⟨d, hd, hsame, heq⟩ := Met.input like (hfit.1.solid.akin like.akin) hmet hd'
    rw [hx, Option.some.injEq] at hd
    rw [hsame, heq, ← hd, horder]
  case hardware =>
    obtain ⟨op, _, hsuit⟩ := hfit
    simp only [StageFamily.orders, Outcome.bind_eq_ok, Outcome.pure_eq_ok, input_eq_ok, output_eq_ok] at ho
    obtain ⟨x, hx, input, hinput, y, hy, output, houtput, rfl⟩ := ho
    intro kind d' hd'
    cases kind with
    | input =>
      obtain ⟨d, hd, hsame, heq⟩ := Met.input like (hsuit.solid.akin like.akin) hmet hd'
      rw [hx, Option.some.injEq] at hd
      rw [hsame, heq, ← hd, hinput]
    | output =>
      obtain ⟨d, hd, hsame, heq⟩ := Met.output like hmet hd'
      rw [hy, Option.some.injEq] at hd
      rw [hsame, heq, ← hd, houtput]
  case copy =>
    refine absurd ?_ hcopy
    revert hf
    cases s.kind <;> decide

/-! ## Strides -/

/-- Stages ask for nothing, for dense tensors, or besides for aligned rows at slot 0. -/
theorem strides_eq_ok {f : StageFamily} {report : Report StrideReq} (h : f.strides s = .ok report) :
    report = Report.blank s ∨ report = Report.uniform s .compact ∨
      report = ((Report.uniform s .compact).setInput 0 alignedRows).setOutput 0 alignedRows := by
  cases f with
  | stub => cases h
  | copy =>
    cases h
    exact .inl rfl
  | hardware =>
    simp only [StageFamily.strides, Outcome.bind_eq_ok] at h
    obtain ⟨op, _, h⟩ := h
    split at h
    · cases h
      exact .inr (.inl rfl)
    · simp only [Outcome.bind_eq_ok, Outcome.pure_eq_ok] at h
      obtain ⟨_, _, _, _, rfl⟩ := h
      exact .inr (.inr rfl)
  | _ =>
    cases h
    exact .inr (.inl rfl)

/-- Stages ask for dense tensors; only at slot 0 rows may have to be aligned. -/
theorem strides_modest {f : StageFamily} {report : Report StrideReq} {kind : EdgeKind} {k : Nat} {req : StrideReq}
    (h : f.strides s = .ok report) (hk : (report.slots kind)[k]? = some (some req)) :
    req = .compact ∨ k = 0 ∧ req = alignedRows := by
  have dense {nodes : List Data} (hk : (nodes.map fun _ => some StrideReq.compact)[k]? = some (some req)) :
      req = .compact := by
    rw [List.getElem?_map, Option.map_eq_some_iff] at hk
    obtain ⟨_, _, hk⟩ := hk
    exact (Option.some.inj hk).symm
  have rows {nodes : List Data}
      (hk : ((nodes.map fun _ => some StrideReq.compact).set 0 (some alignedRows))[k]? = some (some req)) :
      req = .compact ∨ k = 0 ∧ req = alignedRows := by
    rw [List.getElem?_set] at hk
    split at hk
    next hzero =>
      split at hk
      · cases hk
        exact .inr ⟨hzero.symm, rfl⟩
      · cases hk
    · exact .inl (dense hk)
  obtain rfl | rfl | rfl := strides_eq_ok h
  · cases kind <;> exact absurd hk slot_of_blank
  · cases kind <;> exact .inl (dense hk)
  · cases kind <;> exact rows hk

/-- A stage that fits can say what it asks for. -/
theorem Fit.strides (h : s.Fit) (hstub : s.kind.isStub = false) :
    ∃ report, s.kind.family.strides s = .ok report := by
  obtain ⟨half, hfit⟩ := h
  cases hf : s.kind.family <;> rw [hf] at hfit <;> simp only at hfit
  case stub => exact absurd hf (StageKind.family_ne_stub hstub)
  case hardware =>
    obtain ⟨op, hop, hsuit⟩ := hfit
    obtain ⟨x, y, hx, hy⟩ := main_of_length hsuit.lengths.1 hsuit.lengths.2
    by_cases hfc : op = .fullyConnected
    · exact ⟨_, Outcome.bind_eq_ok.2 ⟨op, hop, if_pos hfc⟩⟩
    · refine ⟨((Report.uniform s .compact).setInput 0 alignedRows).setOutput 0 alignedRows, ?_⟩
      refine Outcome.bind_eq_ok.2 ⟨op, hop, (if_neg hfc).trans ?_⟩
      rw [input_eq_ok.2 hx, output_eq_ok.2 hy]
      rfl
  all_goals exact ⟨_, rfl⟩

/-- What a stage asks of strides is a matter of its attributes and the number of its slots. -/
theorem strides_congr {f : StageFamily} {report : Report StrideReq} {R : SlotRel} (h : f.strides s = .ok report)
    (like : s.Like R s') : f.strides s' = .ok report := by
  have hin : s'.inputs.length = s.inputs.length := like.length .input
  have hout : s'.outputs.length = s.outputs.length := like.length .output
  have uniform : Report.uniform s' StrideReq.compact = Report.uniform s .compact := by
    simp only [Report.uniform, List.map_const', hin, hout]
  cases f with
  | stub => cases h
  | copy =>
    cases h
    exact congrArg Except.ok (blank_congr like.length)
  | hardware =>
    simp only [StageFamily.strides, Outcome.bind_eq_ok] at h ⊢
    obtain ⟨op, hop, h⟩ := h
    refine ⟨op, hardwareOp_congr like.attrs hop, ?_⟩
    split at h
    next hfc =>
      cases h
      rw [if_pos hfc, uniform]
      rfl
    next hfc =>
      simp only [Outcome.bind_eq_ok, Outcome.pure_eq_ok, input_eq_ok, output_eq_ok] at h
      obtain ⟨x, hx, y, hy, rfl⟩ := h
      have hlen : s'.inputs.length ≠ 0 ∧ s'.outputs.length ≠ 0 := by
        have hx := (List.getElem?_eq_some_iff.1 hx).1
        have hy := (List.getElem?_eq_some_iff.1 hy).1
        omega
      obtain ⟨x', y', hx', hy'⟩ := main_of_length hlen.1 hlen.2
      simp only [if_neg hfc, Outcome.bind_eq_ok, Outcome.pure_eq_ok, input_eq_ok, output_eq_ok, uniform]
      exact ⟨x', hx', y', hy', trivial⟩
  | _ =>
    cases h
    exact congrArg Except.ok uniform

/-! ## Stages between passes -/

/-- A stage before the strides are settled: there are no copies yet. -/
structure Early (s : Site) : Prop where
  fit : s.Fit
  copy : s.kind ≠ .copy

/-- A stage once stubs are lowered. -/
structure Real (s : Site) : Prop extends Early s where
  stub : s.kind.isStub = false

/-- A stage once orders are settled. -/
structure Done (s : Site) : Prop where
  fit : s.Fit
  stub : s.kind.isStub = false
  settled : s.Settled

/-! ## Relays -/

section relays

variable {template : StageTemplate} {v w : Look}

theorem Relays.unary (h : s.Relays template v w) : s.Unary := by
  obtain ⟨x, y, hin, hout, _⟩ := h.slots
  exact ⟨by rw [hin]; rfl, by rw [hout]; rfl⟩

theorem Relays.half (h : s.Relays template v w) (hv : v.desc.dtype = .f16) (hw : w.desc.dtype = .f16) :
    s.Half := by
  obtain ⟨x, y, hin, hout, hx, hy⟩ := h.slots
  intro kind d hd
  cases kind with
  | input =>
    rw [show s.slots .input = [x] from hin, List.mem_singleton] at hd
    rw [hd, show x.desc = v.desc from congrArg Look.desc hx, hv]
  | output =>
    rw [show s.slots .output = [y] from hout, List.mem_singleton] at hd
    rw [hd, show y.desc = w.desc from congrArg Look.desc hy, hw]

/-- What stands at the two slots of a relay. -/
theorem Relays.looks (h : s.Relays template v w) {x y : Data} (hx : s.inputs[0]? = some x)
    (hy : s.outputs[0]? = some y) : x.look = v ∧ y.look = w := by
  obtain ⟨x', y', hin, hout, hxlook, hylook⟩ := h.slots
  rw [hin, List.getElem?_cons_zero, Option.some.injEq] at hx
  rw [hout, List.getElem?_cons_zero, Option.some.injEq] at hy
  exact ⟨hx ▸ hxlook, hy ▸ hylook⟩

theorem Relays.keeps (h : s.Relays template v w) (hdims : w.desc.dims = v.desc.dims) : s.Keeps := by
  refine ⟨h.unary, fun x y hx hy => ?_⟩
  obtain ⟨hxlook, hylook⟩ := h.looks hx hy
  rw [show x.desc = v.desc from congrArg Look.desc hxlook, show y.desc = w.desc
    from congrArg Look.desc hylook, hdims]

/-- A permutation of a tensor of halves. -/
theorem Relays.real_permute (h : s.Relays template v w) (hkind : template.kind = .permute)
    (hv : v.desc.dtype = .f16) (hw : w.desc.dtype = .f16) (hdims : w.desc.dims = v.desc.dims) : s.Real := by
  have hk := h.kind.trans hkind
  refine ⟨⟨⟨h.half hv hw, ?_⟩, by simp [hk]⟩, by rw [hk]; rfl⟩
  rw [hk]
  exact h.keeps hdims

/-- A copy of a tensor of halves. -/
theorem Relays.done_copy (h : s.Relays template v w) (hkind : template.kind = .copy) (hv : v.desc.dtype = .f16)
    (hdesc : w.desc = v.desc) : s.Done := by
  have hk := h.kind.trans hkind
  refine ⟨⟨h.half hv (hdesc ▸ hv), ?_⟩, by rw [hk]; rfl, ?_⟩
  · rw [hk]
    exact h.keeps (congrArg Desc.dims hdesc)
  · rw [Settled, hk]
    intro x y hx hy
    obtain ⟨hxlook, hylook⟩ := h.looks hx hy
    exact (congrArg Look.desc hylook).trans (hdesc.trans (congrArg Look.desc hxlook).symm)

end relays

theorem stable_early : Stable Early Look.alike :=
  ⟨fun _ _ _ => .refl, fun _ _ like h => ⟨h.fit.alike like, like.kind ▸ h.copy⟩⟩

theorem stable_real : Stable Real Look.alike :=
  ⟨fun _ _ _ => .refl, fun _ _ like h => ⟨⟨h.fit.alike like, like.kind ▸ h.copy⟩, like.kind ▸ h.stub⟩⟩

theorem stable_done : Stable Done Look.fixed :=
  ⟨fun _ _ _ => ⟨.refl, fun _ => rfl⟩, fun _ _ like h =>
    ⟨h.fit.alike (like.mono fun _ _ _ _ h => h.1), like.kind ▸ h.stub,
      h.settled.steady (like.mono fun _ _ _ _ h => h.2)⟩⟩

end Site

/-- Tensors at slots are of halves. -/
theorem Graph.Fits.half {P : Site → Prop} {g : Graph} {kind : EdgeKind} {e : EdgeId} {d : DataId} {node : Data}
    (f : g.Fits P) (hP : ∀ s, P s → s.Fit) (wf : g.WellFormed) (h : g.Joins kind e d)
    (hnode : g.data? d = some node) : node.desc.dtype = .f16 := by
  obtain ⟨id, k, site, _, hsite, hslot⟩ := wf.slot_of_joins h hnode
  exact (hP site (f.all id site hsite)).1 kind node (List.mem_of_getElem? hslot)

end NetLower
