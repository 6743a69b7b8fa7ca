/-
Lowering, the final layout and the allocation keep a graph orderly.  None of them adds a
stage; the layout may give a reader of a constant a constant of its own.
-/
import NetLower.Pass.Layout
import NetLower.Pass.Lower
import NetLower.Pass.Memory
import NetLower.Proofs.Graph.Splice

namespace NetLower

/-- The software stage for a stub reads weights if the stub does. -/
theorem StageKind.software_of_lowering {k software : StageKind} {op : Option HardwareOp}
    (h : k.lowering = .ok (op, software)) :
    software.isStub = false ∧ software ≠ .hardware ∧ software.isWeightable = k.isWeightable := by
  cases k <;> cases h <;> decide

/-- The hardware has an operation for every stub but deconvolution. -/
theorem StageKind.hardware_of_lowering {k software : StageKind} {op : HardwareOp}
    (h : k.lowering = .ok (some op, software)) :
    k.isStub = true ∧ k ≠ .stubDeconv ∧ (k = .stubFullyConnected → op = .fullyConnected) ∧
      op.isWeightable = k.isWeightable := by
  cases k <;> cases h <;> decide

/-- What a stub becomes. -/
inductive StageTemplate.Lowered (t : StageTemplate) : StageTemplate → Prop
  | software {op : Option HardwareOp} {software : StageKind} : t.kind.lowering = .ok (op, software) →
      Lowered t { t with kind := software }
  | hardware {op : HardwareOp} {software : StageKind} {attrs : Attrs} : t.kind.lowering = .ok (some op, software) →
      t.attrs.isOn .tryHw = .ok true → t.attrs.set .hwOpKind (.int op.code) = .ok attrs →
      Lowered t { t with kind := .hardware, attrs }

namespace Graph

variable {g g' : Graph}

/-! ## Stubs -/

theorem SameLinks.setAttrs (id : StageId) (attrs : Attrs) : SameLinks g (g.setAttrs id attrs) :=
  .modifyStage fun _ => rfl

theorem SameLinks.setAttr {id : StageId} {key : AttrKey} {value : AttrValue}
    (h : g.setAttr id key value = .ok g') : SameLinks g g' := by
  simp only [Graph.setAttr, Outcome.bind_eq_ok, Outcome.pure_eq_ok] at h
  obtain ⟨_, _, _, _, rfl⟩ := h
  exact .setAttrs _ _

theorem modifyStage_modifyStage {id : StageId} (f f' : Stage → Stage) :
    (g.modifyStage id f).modifyStage id f' = g.modifyStage id fun s => f' (f s) := by
  simp only [modifyStage, Graph.mk.injEq, true_and, and_true]
  refine Array.ext_getElem? fun i => ?_
  simp only [Array.getElem?_modify]
  split
  · cases g.stages[i]? <;> simp [Function.comp_def]
  · rfl

/-- A stub becomes the software stage for it, or a hardware stage if it may try that. -/
theorem lowerStage_eq_ok {id : StageId} {changed : Bool} (h : g.lowerStage id = .ok (g', changed)) :
    ∃ s f, g.stage? id = some s ∧ g' = g.modifyStage id f ∧ (∀ x, (f x).slots = x.slots) ∧
      s.toStageTemplate.Lowered (f s).toStageTemplate := by
  simp only [Graph.lowerStage, replaceStage, setAttr, Outcome.bind_eq_ok, stage_eq_ok] at h
  obtain ⟨s, hs, tryHw, hon, ⟨op, software⟩, hlowering, h⟩ := h
  cases op with
  | none =>
    simp only [Outcome.bind_eq_ok, Outcome.pure_eq_ok, Prod.mk.injEq] at h
    obtain ⟨_, ⟨_, _, rfl⟩, rfl, _⟩ := h
    exact ⟨s, _, hs, rfl, fun _ => rfl, .software hlowering⟩
  | some op =>
    simp only at h
    split at h
    next htry =>
      simp only [Outcome.bind_eq_ok, Outcome.pure_eq_ok, Prod.mk.injEq] at h
      obtain ⟨_, ⟨_, _, rfl⟩, _, ⟨s', hs', attrs, hattrs, rfl⟩, rfl, _⟩ := h
      rw [stage_eq_ok, stage?_modifyStage, if_pos rfl, hs, Option.map_some, Option.some.injEq] at hs'
      subst hs'
      refine ⟨s, _, hs, modifyStage_modifyStage _ _, fun _ => rfl, ?_⟩
      exact .hardware hlowering (htry ▸ hon) hattrs
    · simp only [Outcome.bind_eq_ok, Outcome.pure_eq_ok, Prod.mk.injEq] at h
      obtain ⟨_, ⟨_, _, rfl⟩, rfl, _⟩ := h
      exact ⟨s, _, hs, rfl, fun _ => rfl, .software hlowering⟩

theorem SameLinks.lowerStage {id : StageId} {changed : Bool} (h : g.lowerStage id = .ok (g', changed)) :
    SameLinks g g' := by
  obtain ⟨_, f, _, rfl, hslots, _⟩ := lowerStage_eq_ok h
  exact .modifyStage hslots

theorem Orderly.replaceStubs {config : Config} {changed : Bool} (o : g.Orderly)
    (h : Pass.replaceStubs.run config g = .ok (g', changed)) : g'.Orderly := by
  refine Pass.sweep_keeps (fun _ g => g.Orderly) ?_ o h
  exact fun _ _ _ _ _ o h => o.sameLinks (.lowerStage h)

/-! ## The final layout -/

/-- What bringing the constant at an edge into an order does to a graph. -/
inductive ConstReordered (g : Graph) (e : EdgeId) (order : Order) : Graph → Prop
  | met {r : Edge} {node : Data} : g.edge? e = some r → g.data? r.data = some node →
      (node.usage = .const → node.desc.order = order) → ConstReordered g e order g
  /-- Nothing else reads the constant. -/
  | inPlace {r : Edge} {node : Data} {desc : Desc} : g.edge? e = some r → g.data? r.data = some node →
      node.usage = .const → node.desc.setOrder order = .ok desc → node.consumers.length = 1 →
      ConstReordered g e order (g.modifyData r.data fun node => { node with desc })
  /-- The reader is given a constant of its own. -/
  | duplicated {r r' : Edge} {node : Data} {desc : Desc} {name : String} {content : Array F32} {needed : Nat}
      {g' : Graph} : g.edge? e = some r → g.data? r.data = some node → node.role = .const content →
      node.desc.setOrder order = .ok desc → desc.total = .ok needed → needed ≤ content.size →
      InputLed (g.pushData { name, desc, role := .const content }).2 e r'
        (g.pushData { name, desc, role := .const content }).1 g' →
      ConstReordered g e order g'

theorem reorderConst_reordered {id : StageId} {slot : Nat} {order : Order}
    (h : g.reorderConst id slot order = .ok g') :
    ∃ s e, g.stage? id = some s ∧ s.inputs[slot]? = some e ∧ ConstReordered g e order g' := by
  simp only [Graph.reorderConst, inputData, Outcome.bind_eq_ok, data_eq_ok, stage_eq_ok] at h
  obtain ⟨d, ⟨s, hs, hd⟩, node, hnode, h⟩ := h
  split at hd
  next e he =>
    simp only [Outcome.bind_eq_ok, Outcome.pure_eq_ok, edge_eq_ok] at hd
    obtain ⟨r, hr, rfl⟩ := hd
    refine ⟨s, e, hs, he, ?_⟩
    split at h
    next hmet =>
      cases h
      exact .met hr hnode fun hconst => hmet.resolve_left (not_not.2 hconst)
    next hcond =>
    rw [not_or, not_not] at hcond
    split at h
    next hone =>
      obtain ⟨node', desc, hnode', hdesc, rfl⟩ := setDataOrder_eq_ok.1 h
      rw [hnode, Option.some.injEq] at hnode'
      subst hnode'
      exact .inPlace hr hnode hcond.1 hdesc hone
    · simp only [Outcome.bind_eq_ok, stage_eq_ok] at h
      obtain ⟨desc, hdesc, s', hs', h⟩ := h
      rw [hs, Option.some.injEq] at hs'
      subst hs'
      simp only [he, Outcome.bind_eq_ok] at h
      obtain ⟨⟨copy, g₁⟩, hcopy, h⟩ := h
      obtain ⟨node', content, needed, hnode', hcontent, hneeded, hle, rfl, rfl⟩ := duplicate_eq_ok.1 hcopy
      rw [hnode, Option.some.injEq] at hnode'
      subst hnode'
      obtain ⟨r', hled⟩ := replaceInput_led h
      exact .duplicated hr hnode (Data.content?_eq_some.1 hcontent) hdesc hneeded hle hled
  · cases hd

/-- A constant may be reordered where it is, if nothing else reads it, or for one reader only. -/
theorem reorderConst_eq_ok {id : StageId} {slot : Nat} {order : Order}
    (h : g.reorderConst id slot order = .ok g') :
    g' = g ∨ ∃ s e r node desc, g.stage? id = some s ∧ s.inputs[slot]? = some e ∧ g.edge? e = some r ∧
      g.data? r.data = some node ∧ node.usage = .const ∧ node.desc.setOrder order = .ok desc ∧
      (node.consumers.length = 1 ∧ g' = g.modifyData r.data (fun node => { node with desc }) ∨
        ∃ content needed name r', desc.total = .ok needed ∧ needed ≤ content.size ∧
          InputLed (g.pushData { name, desc, role := .const content }).2 e r'
            (g.pushData { name, desc, role := .const content }).1 g') := by
  obtain ⟨s, e, hs, he, hreordered⟩ := reorderConst_reordered h
  cases hreordered with
  | met => exact .inl rfl
  | inPlace hr hnode hconst hdesc hone =>
    exact .inr ⟨s, e, _, _, _, hs, he, hr, hnode, hconst, hdesc, .inl ⟨hone, rfl⟩⟩
  | duplicated hr hnode hrole hdesc hneeded hle hled =>
    exact .inr ⟨s, e, _, _, _, hs, he, hr, hnode, congrArg Role.usage hrole, hdesc,
      .inr ⟨_, _, _, _, hneeded, hle, hled⟩⟩

theorem Orderly.reorderConst {id : StageId} {slot : Nat} {order : Order} (o : g.Orderly)
    (h : g.reorderConst id slot order = .ok g') : g'.Orderly := by
  rcases reorderConst_eq_ok h with rfl | ⟨s, e, r, node, desc, hs, he, _, _, _, _,
    ⟨_, rfl⟩ | ⟨content, _, name, r', _, _, hled⟩⟩
  · exact o
  · exact o.sameLinks (.setDesc _ _)
  · refine (o.pushConst name desc content).moveToSource hled hs (List.mem_of_getElem? he) fun x hx => ?_
    rw [data?_pushData_self, Option.some.injEq] at hx
    rw [← hx]

/-- Weights are all that a stage reorders. -/
theorem finalizeLayout_eq_ok {id : StageId} {f : StageFamily} (h : g.finalizeLayout id f = .ok g') :
    g' = g ∨ ∃ order, g.reorderConst id 1 order = .ok g' := by
  cases f with
  | stub =>
    simp only [Graph.finalizeLayout, Outcome.bind_eq_ok] at h
    obtain ⟨_, _, h⟩ := h
    cases h
  | convolution =>
    simp only [Graph.finalizeLayout, Outcome.bind_eq_ok] at h
    obtain ⟨_, _, order, _, h⟩ := h
    exact .inr ⟨order, h⟩
  | hardware =>
    simp only [Graph.finalizeLayout, Outcome.bind_eq_ok] at h
    obtain ⟨_, _, _, _, h⟩ := h
    split at h
    · simp only [Outcome.bind_eq_ok] at h
      obtain ⟨_, _, order, _, h⟩ := h
      exact .inr ⟨order, h⟩
    · cases h
      exact .inl rfl
  | _ =>
    cases h
    exact .inl rfl

theorem Orderly.finalizeLayout {id : StageId} {f : StageFamily} (o : g.Orderly)
    (h : g.finalizeLayout id f = .ok g') : g'.Orderly := by
  rcases finalizeLayout_eq_ok h with rfl | ⟨order, h⟩
  · exact o
  · exact o.reorderConst h

theorem finalizeLayout_stage? {id : StageId} {f : StageFamily} (h : g.finalizeLayout id f = .ok g') (x : StageId) :
    g'.stage? x = g.stage? x := by
  rcases finalizeLayout_eq_ok h with rfl | ⟨order, h⟩
  · rfl
  rcases reorderConst_eq_ok h with rfl | ⟨_, _, _, _, _, _, _, _, _, _, _, ⟨_, rfl⟩ | ⟨_, _, _, _, _, _, hled⟩⟩
  · rfl
  · rfl
  · exact hled.stage? x

/-- A tensor is given the strides that it requires, and nothing else is touched. -/
theorem computeStrides_eq_ok {id : DataId} (h : g.computeStrides id = .ok g') :
    ∃ node, g.data? id = some node ∧ ∃ strides, node.desc.strides node.req = .ok strides ∧
      g' = g.modifyData id fun node => { node with strides := some strides } := by
  simp only [Graph.computeStrides, Outcome.bind_eq_ok, Outcome.pure_eq_ok, data_eq_ok] at h
  obtain ⟨node, hnode, strides, hstrides, rfl⟩ := h
  exact ⟨node, hnode, strides, hstrides, rfl⟩

theorem SameLinks.computeStrides {id : DataId} (h : g.computeStrides id = .ok g') : SameLinks g g' := by
  obtain ⟨_, _, _, _, rfl⟩ := computeStrides_eq_ok h
  exact .modifyData fun _ => ⟨rfl, rfl, rfl⟩

theorem Orderly.finalizeLayoutPass {config : Config} {changed : Bool} (o : g.Orderly)
    (h : Pass.finalizeLayout.run config g = .ok (g', changed)) : g'.Orderly := by
  simp only [Pass.finalizeLayout, finalizeStages, Outcome.bind_eq_ok, Outcome.pure_eq_ok, Prod.mk.injEq] at h
  obtain ⟨g₁, ⟨order, _, hstages⟩, g₂, hstrides, rfl, _⟩ := h
  have o₁ : g₁.Orderly := by
    refine Outcome.foldlM_keeps (fun _ g => g.Orderly) (fun id _ g g' o h => ?_) o hstages
    simp only [Outcome.bind_eq_ok] at h
    obtain ⟨_, _, h⟩ := h
    exact o.finalizeLayout h
  exact Outcome.foldlM_keeps (fun _ g => g.Orderly) (fun _ _ _ _ o h => o.sameLinks (.computeStrides h))
    o₁ hstrides

/-! ## Allocation -/

theorem SameLinks.setLocations : ∀ (plan : List (DataId × Location)) (g : Graph),
    SameLinks g (plan.foldl (fun g x => g.setLocation x.1 x.2) g)
  | [], _ => .refl
  | x :: plan, g => by
    have hfirst : SameLinks g (g.setLocation x.1 x.2) := .modifyData fun _ => ⟨rfl, rfl, rfl⟩
    exact hfirst.trans (SameLinks.setLocations plan _)

theorem Orderly.allocateMemory {config : Config} {changed : Bool} (o : g.Orderly)
    (h : Pass.allocateMemory.run config g = .ok (g', changed)) : g'.Orderly := by
  simp only [Pass.allocateMemory, Outcome.bind_eq_ok, Outcome.pure_eq_ok, Prod.mk.injEq] at h
  obtain ⟨plan, _, rfl, _⟩ := h
  exact o.sameLinks (.setLocations plan g)

end Graph

end NetLower
