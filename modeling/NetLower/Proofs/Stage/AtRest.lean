/-
Stages at rest.  What orders a stage asks for depends on the orders at its slots, so giving
it what it asks for might make it ask for something else.  It does not: the orders that a
report is read off are never among those that the report changes.
-/
import NetLower.Proofs.Stage.Settled

namespace NetLower

/-- What shows at the slots stays. -/
def Look.same : SlotRel := fun _ _ v v' => v' = v

/-- A slot keeps what shows there, or it did not have the order that a report asks for and has it
now. -/
def Look.led (report : Report Order) : SlotRel := fun kind k v v' =>
  v'.desc.rank = v.desc.rank ∧
    (v' = v ∨ ∃ order, (report.slots kind)[k]? = some (some order) ∧ v.desc.order ≠ order ∧ v'.desc.order = order)

theorem Look.led_refl {report : Report Order} {kind : EdgeKind} {k : Nat} {v : Look} :
    Look.led report kind k v v :=
  ⟨rfl, .inl rfl⟩

/-- Once a slot has its order it keeps it. -/
theorem Look.led_trans {report : Report Order} {kind : EdgeKind} {k : Nat} {v v' v'' : Look}
    (h : Look.led report kind k v v') (h' : Look.led report kind k v' v'') : Look.led report kind k v v'' := by
  obtain ⟨hrank, hled⟩ := h
  obtain ⟨hrank', hled'⟩ := h'
  refine ⟨hrank'.trans hrank, ?_⟩
  rcases hled' with rfl | ⟨order', hreport', hne, horder'⟩
  · exact hled
  · rcases hled with rfl | ⟨order, hreport, _, horder⟩
    · exact .inr ⟨order', hreport', hne, horder'⟩
    · rw [hreport, Option.some.injEq, Option.some.injEq] at hreport'
      exact absurd (horder.trans hreport') hne

namespace Site

variable {s s' : Site} {report : Report Order}

/-- Every slot has the order that a report asks for there, unless there is nothing at the slot. -/
def HasOrders (s : Site) (report : Report Order) : Prop :=
  ∀ (kind : EdgeKind) (k : Nat) (order : Order) (d : Data), (report.slots kind)[k]? = some (some order) →
    (s.slots kind)[k]? = some d → d.usage ≠ .fake → d.desc.order = order

/-- The stage has every order that it asks for. -/
def AtRest (s : Site) : Prop := ∃ report, s.kind.family.orders s = .ok report ∧ s.HasOrders report

theorem Like.led (h : s.Like Look.same s') (report : Report Order) : s.Like (Look.led report) s' :=
  h.mono fun _ _ v v' (hsame : v' = v) => hsame ▸ Look.led_refl

/-! ## Reports that stay -/

/-- The tensor that stands at a slot afterwards. -/
theorem Like.slot_to {R : SlotRel} {kind : EdgeKind} {k : Nat} {d : Data} (like : s.Like R s')
    (hd : (s.slots kind)[k]? = some d) : ∃ d', (s'.slots kind)[k]? = some d' ∧ R kind k d.look d'.look := by
  obtain ⟨hlt, _⟩ := List.getElem?_eq_some_iff.1 hd
  rw [← like.length] at hlt
  have hd' := List.getElem?_eq_getElem hlt
  exact ⟨_, hd', like.slot kind k d _ hd hd'⟩

/-- An order for outputs that have its dimensions is asked for again. -/
theorem followOrder_congr (h : s.followOrder = .ok report) (like : s.Like (Look.led report) s') :
    s'.followOrder = .ok report := by
  simp only [followOrder, Outcome.bind_eq_ok, Outcome.pure_eq_ok, input_eq_ok] at h
  obtain ⟨x, hx, rfl⟩ := h
  obtain ⟨x', hx', _, hled⟩ := like.slot_to (show (s.slots .input)[0]? = some x from hx)
  -- Nothing is asked for at the inputs, so the order to follow is the same.
  have hdesc : x'.desc = x.desc := by
    rcases hled with hled | ⟨_, hreport, _⟩
    · exact congrArg Look.desc hled
    · exact absurd hreport slot_of_blank
  simp only [followOrder, Outcome.bind_eq_ok, Outcome.pure_eq_ok, input_eq_ok]
  refine ⟨x', hx', ?_⟩
  rw [hdesc, blank_congr like.length, Report.mk.injEq]
  refine ⟨rfl, List.ext_getElem? fun k => ?_⟩
  rw [List.getElem?_map, List.getElem?_map]
  cases hy' : s'.outputs[k]? with
  | none =>
    have hlen : s'.outputs.length = s.outputs.length := like.length .output
    rw [List.getElem?_eq_none_iff, hlen, ← List.getElem?_eq_none_iff] at hy'
    rw [hy']
  | some y' =>
    obtain ⟨y, hy, _, hled⟩ := like.slot_of (show (s'.slots .output)[k]? = some y' from hy')
    change s.outputs[k]? = some y at hy
    rw [hy]
    rcases hled with hled | ⟨order, hreport, _, horder⟩
    · rw [Option.map_some, Option.map_some, show y'.desc = y.desc from congrArg Look.desc hled]
    · change (s.outputs.map fun d => if d.desc.order.sameDims x.desc.order then some x.desc.order else none)[k]? =
        some (some order) at hreport
      change y'.desc.order = order at horder
      rw [List.getElem?_map, hy, Option.map_some, Option.some.injEq] at hreport
      rw [Option.map_some, Option.map_some, hreport]
      split at hreport
      · cases hreport
        rw [horder, if_pos (Order.sameDims_self _)]
      · cases hreport

/-- A stage whose slots were led to the orders it asks for asks for the same orders again. -/
theorem orders_congr (h : s.kind.family.orders s = .ok report) (like : s.Like (Look.led report) s') :
    s'.kind.family.orders s' = .ok report := by
  have blank : (Report.blank s' : Report Order) = Report.blank s := blank_congr like.length
  rw [like.kind]
  cases hf : s.kind.family <;> rw [hf] at h
  case stub => cases h
  case convolution | pooling =>
    simp only [StageFamily.orders, mainOrder, Outcome.bind_eq_ok, Outcome.pure_eq_ok, input_eq_ok,
      output_eq_ok] at h ⊢
    obtain ⟨x, hx, order, horder, _, _, y, hy, rfl⟩ := h
    obtain ⟨x', hx', hrank, _⟩ := like.slot_to (show (s.slots .input)[0]? = some x from hx)
    obtain ⟨y', hy', _⟩ := like.slot_to (show (s.slots .output)[0]? = some y from hy)
    exact ⟨x', hx', order, hrank ▸ horder, x', hx', y', hy', by rw [blank]⟩
  case fullyConnected =>
    simp only [StageFamily.orders, Outcome.bind_eq_ok, Outcome.pure_eq_ok, input_eq_ok, output_eq_ok] at h ⊢
    obtain ⟨x, hx, order, horder, y, hy, rfl⟩ := h
    obtain ⟨x', hx', hrank, _⟩ := like.slot_to (show (s.slots .input)[0]? = some x from hx)
    obtain ⟨y', hy', _⟩ := like.slot_to (show (s.slots .output)[0]? = some y from hy)
    exact ⟨x', hx', order, hrank ▸ horder, y', hy', by rw [blank]⟩
  case hardware =>
    simp only [StageFamily.orders, Outcome.bind_eq_ok, Outcome.pure_eq_ok, input_eq_ok, output_eq_ok] at h ⊢
    obtain ⟨x, hx, input, hinput, y, hy, output, houtput, rfl⟩ := h
    obtain ⟨x', hx', hrank, _⟩ := like.slot_to (show (s.slots .input)[0]? = some x from hx)
    obtain ⟨y', hy', hrank', _⟩ := like.slot_to (show (s.slots .output)[0]? = some y from hy)
    exact ⟨x', hx', input, hrank ▸ hinput, y', hy', output, hrank' ▸ houtput, by rw [blank]⟩
  case power | copy | split => exact followOrder_congr h like
  case permute =>
    cases h
    exact congrArg Except.ok blank
  case concat =>
    simp only [StageFamily.orders, Outcome.bind_eq_ok, Outcome.pure_eq_ok, input_eq_ok, output_eq_ok] at h ⊢
    obtain ⟨x, hx, y, hy, rfl⟩ := h
    obtain ⟨x', hx', _, hled⟩ := like.slot_to (show (s.slots .input)[0]? = some x from hx)
    obtain ⟨y', hy', _⟩ := like.slot_to (show (s.slots .output)[0]? = some y from hy)
    -- Input 0 has the order that is asked for, which is its own.
    have hdesc : x'.desc = x.desc := by
      rcases hled with hled | ⟨order, hreport, hne, _⟩
      · exact congrArg Look.desc hled
      · change (s.inputs.map fun _ => some x.desc.order)[0]? = some (some order) at hreport
        rw [List.getElem?_map, hx, Option.map_some, Option.some.injEq, Option.some.injEq] at hreport
        exact absurd hreport hne
    have hlen : s'.inputs.length = s.inputs.length := like.length .input
    exact ⟨x', hx', y', hy', by rw [blank, hdesc, List.map_const', List.map_const', hlen]⟩

theorem AtRest.same (h : s.AtRest) (like : s.Like Look.same s') : s'.AtRest := by
  obtain ⟨report, horders, hhas⟩ := h
  refine ⟨report, orders_congr horders (like.led report), fun kind k order d' hreport hd' hfake => ?_⟩
  obtain ⟨d, hd, hlook⟩ := like.slot_of hd'
  have husage : d'.usage = d.usage := congrArg Look.usage hlook
  have hdesc : d'.desc = d.desc := congrArg Look.desc hlook
  rw [hdesc]
  exact hhas kind k order d hreport hd (husage ▸ hfake)

/-- A permutation asks for nothing. -/
theorem atRest_permute (h : s.kind = .permute) : s.AtRest := by
  refine ⟨Report.blank s, by rw [h]; rfl, fun kind k order d hreport _ _ => ?_⟩
  cases kind <;> exact absurd hreport slot_of_blank

/-- A real stage at rest passes the final check. -/
theorem AtRest.settled (h : s.AtRest) (fit : s.Fit) (hcopy : s.kind ≠ .copy)
    (hwritten : ∀ d ∈ s.outputs, d.usage ≠ .fake) : s.Settled := by
  obtain ⟨report, horders, hhas⟩ := h
  have like : s.Like Look.alike s := by
    refine ⟨rfl, rfl, fun _ => rfl, fun kind k d d' hd hd' => ?_⟩
    rw [hd, Option.some.injEq] at hd'
    exact hd' ▸ .refl
  refine fit.settle hcopy horders like fun kind order d hreport hd hfake => hhas kind 0 order d hreport hd ?_
  cases kind with
  | input => exact hfake rfl
  | output => exact hwritten d (List.mem_of_getElem? hd)

end Site

end NetLower
