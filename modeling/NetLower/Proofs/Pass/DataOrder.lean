/-
Settling memory orders keeps a graph orderly.  A permuted copy that was made for one
reader may serve another one much later, when the graph around it has changed.  It can,
because the stage that makes the copy is new and none of the stages visited, so it still
reads the tensor and writes the copy and does nothing else.
-/
import NetLower.Pass.DataOrder
import NetLower.Proofs.Graph.Sites

namespace NetLower.Graph

variable {g₀ g g' : Graph} {b z : StageId} {s : Stage} {edge : EdgeId} {d t : DataId}

theorem addPermute_added {source target : DataId} (h : g.addPermute source target = .ok g') :
    ∃ name z, Added g { name, kind := .permute } [source] [target] z g' := by
  simp only [addPermute, Outcome.bind_eq_ok, Outcome.pure_eq_ok] at h
  obtain ⟨node, _, ⟨z, _⟩, h, rfl⟩ := h
  exact ⟨_, z, addStage_added h⟩

theorem addInOrder_eq_ok {order : Order} : g.addInOrder d order = .ok (t, g') ↔
    ∃ node desc, g.data? d = some node ∧ node.desc.setOrder order = .ok desc ∧
      t = (g.pushData (intermediate (node.name ++ orderSuffix order) desc)).1 ∧
      g' = (g.pushData (intermediate (node.name ++ orderSuffix order) desc)).2 := by
  simp only [addInOrder, Outcome.bind_eq_ok, Outcome.pure_eq_ok, Prod.mk.injEq]
  constructor
  · rintro ⟨⟨_, _⟩, hlike, _, horder, rfl, rfl⟩
    obtain ⟨node, hnode, rfl, rfl⟩ := addLike_eq_ok.1 hlike
    obtain ⟨new, desc, hnew, hdesc, rfl⟩ := setDataOrder_eq_ok.1 horder
    rw [data?_pushData_self, Option.some.injEq] at hnew
    subst hnew
    exact ⟨node, desc, hnode, hdesc, rfl, modifyData_pushData _ _⟩
  · rintro ⟨node, desc, hnode, hdesc, rfl, rfl⟩
    refine ⟨(_, _), addLike_eq_ok.2 ⟨node, hnode, rfl, rfl⟩, _, ?_, rfl, rfl⟩
    exact setDataOrder_eq_ok.2 ⟨_, desc, data?_pushData_self _, hdesc, modifyData_pushData _ _⟩

/-! ## What one edge can bring about -/

/-- The permuted copy of a tensor, found or new. -/
theorem permutedCopy_eq_ok {permuted permuted' : Permuted} {order : Order}
    (h : Graph.permutedCopy permuted g d order = .ok (t, permuted', g')) :
    (((d, order), t) ∈ permuted ∧ permuted' = permuted ∧ g' = g) ∨
      ∃ node desc name name' z, g.data? d = some node ∧ node.desc.setOrder order = .ok desc ∧
        permuted' = ((d, order), t) :: permuted ∧ t = (g.pushData (intermediate name desc)).1 ∧
        Added (g.pushData (intermediate name desc)).2 { name := name', kind := .permute } [d]
          [(g.pushData (intermediate name desc)).1] z g' := by
  simp only [Graph.permutedCopy] at h
  split at h
  next hfound =>
    cases h
    obtain ⟨front, back, heq, _⟩ := List.lookup_eq_some_iff.1 hfound
    exact .inl ⟨by simp [heq], rfl, rfl⟩
  next =>
    simp only [Outcome.bind_eq_ok, Outcome.pure_eq_ok, Prod.mk.injEq] at h
    obtain ⟨⟨_, _⟩, hnew, g₂, hadd, rfl, rfl, rfl⟩ := h
    obtain ⟨node, desc, hnode, hdesc, rfl, rfl⟩ := addInOrder_eq_ok.1 hnew
    obtain ⟨name, z, hadd⟩ := addPermute_added hadd
    exact .inr ⟨node, desc, _, name, z, hnode, hdesc, rfl, rfl, hadd⟩

/-- What becomes of the graph when an input edge is given the order its stage needs. -/
inductive InputOrdered (g : Graph) (edge : EdgeId) (permuted : Permuted) : Option Order → Permuted → Graph → Prop
  | unwanted : InputOrdered g edge permuted none permuted g
  | met {order : Order} {r : Edge} {node : Data} : g.edge? edge = some r → g.data? r.data = some node →
      node.desc.order = order ∨ node.usage = .fake → InputOrdered g edge permuted (some order) permuted g
  | inPlace {order : Order} {r : Edge} {node : Data} {desc : Desc} : g.edge? edge = some r →
      g.data? r.data = some node → node.usage = .const → node.consumers.length = 1 →
      node.desc.setOrder order = .ok desc →
      InputOrdered g edge permuted (some order) permuted (g.modifyData r.data fun node => { node with desc })
  | duplicated {order : Order} {r r' : Edge} {node : Data} {desc : Desc} {name : String} {content : Array F32}
      {needed : Nat} {g' : Graph} : g.edge? edge = some r → g.data? r.data = some node → node.usage = .const →
      node.desc.setOrder order = .ok desc → desc.total = .ok needed → needed ≤ content.size →
      InputLed (g.pushData { name, desc, role := .const content }).2 edge r'
        (g.pushData { name, desc, role := .const content }).1 g' →
      InputOrdered g edge permuted (some order) permuted g'
  | copied {order : Order} {r r' : Edge} {node : Data} {copy : DataId} {permuted' : Permuted} {g₁ g' : Graph} :
      g.edge? edge = some r → g.data? r.data = some node → node.usage ≠ .const → node.usage ≠ .fake →
      Graph.permutedCopy permuted g r.data order = .ok (copy, permuted', g₁) → InputLed g₁ edge r' copy g' →
      InputOrdered g edge permuted (some order) permuted' g'

theorem orderInput_eq_ok {permuted permuted' : Permuted} {wanted : Option Order} {changed : Bool}
    (h : Graph.orderInput (permuted, g) edge wanted = .ok ((permuted', g'), changed)) :
    InputOrdered g edge permuted wanted permuted' g' := by
  simp only [Graph.orderInput] at h
  split at h
  · cases h
    exact .unwanted
  next order =>
  simp only [Outcome.bind_eq_ok, data_eq_ok, edge_eq_ok] at h
  obtain ⟨r, hr, node, hnode, h⟩ := h
  split at h
  next hmet =>
    cases h
    exact .met hr hnode (.inl hmet)
  split at h
  next hfake =>
    cases h
    exact .met hr hnode (.inr hfake)
  next hconst =>
    split at h
    next hone =>
      simp only [Outcome.bind_eq_ok, Outcome.pure_eq_ok, Prod.mk.injEq] at h
      obtain ⟨_, h, ⟨rfl, rfl⟩, _⟩ := h
      obtain ⟨node', desc, hnode', hdesc, rfl⟩ := setDataOrder_eq_ok.1 h
      rw [hnode, Option.some.injEq] at hnode'
      exact .inPlace hr hnode hconst hone (hnode' ▸ hdesc)
    · simp only [Outcome.bind_eq_ok, Outcome.pure_eq_ok, Prod.mk.injEq] at h
      obtain ⟨desc, hdesc, ⟨copy, g₁⟩, hcopy, g₂, hled, ⟨rfl, rfl⟩, _⟩ := h
      obtain ⟨_, content, needed, _, _, hneeded, hle, rfl, rfl⟩ := duplicate_eq_ok.1 hcopy
      obtain ⟨r', hled⟩ := replaceInput_led hled
      exact .duplicated hr hnode hconst hdesc hneeded hle hled
  next hfake hconst =>
    simp only [Outcome.bind_eq_ok, Outcome.pure_eq_ok, Prod.mk.injEq] at h
    obtain ⟨⟨copy, _, g₁⟩, hcopy, _, hled, ⟨rfl, rfl⟩, _⟩ := h
    obtain ⟨r', hled⟩ := replaceInput_led hled
    exact .copied hr hnode hconst hfake hcopy hled

/-- What becomes of the graph when an output edge is given the order its stage needs. -/
inductive OutputOrdered (g : Graph) (edge : EdgeId) : Option Order → Graph → Prop
  | unwanted : OutputOrdered g edge none g
  | met {order : Order} {r : Edge} {node : Data} : g.edge? edge = some r → g.data? r.data = some node →
      node.desc.order = order → OutputOrdered g edge (some order) g
  | staged {order : Order} {r : Edge} {node : Data} {desc : Desc} {name name' : String} {z : StageId}
      {g₁ g' : Graph} : g.edge? edge = some r → g.data? r.data = some node → node.desc.setOrder order = .ok desc →
      OutputLed (g.pushData (intermediate name desc)).2 edge r (g.pushData (intermediate name desc)).1 g₁ →
      Added g₁ { name := name', kind := .permute } [(g.pushData (intermediate name desc)).1] [r.data] z g' →
      OutputOrdered g edge (some order) g'
  | inPlace {order : Order} {r : Edge} {node : Data} {desc : Desc} : g.edge? edge = some r →
      g.data? r.data = some node → node.usage ≠ .output → node.desc.setOrder order = .ok desc →
      OutputOrdered g edge (some order) (g.modifyData r.data fun node => { node with desc })

theorem orderOutput_eq_ok {wanted : Option Order} {changed : Bool}
    (h : g.orderOutput edge wanted = .ok (g', changed)) : OutputOrdered g edge wanted g' := by
  simp only [Graph.orderOutput] at h
  split at h
  · cases h
    exact .unwanted
  next order =>
  simp only [Outcome.bind_eq_ok, data_eq_ok, edge_eq_ok] at h
  obtain ⟨r, hr, node, hnode, h⟩ := h
  split at h
  next hmet =>
    cases h
    exact .met hr hnode hmet
  split at h
  · simp only [Outcome.bind_eq_ok, Outcome.pure_eq_ok, Prod.mk.injEq] at h
    obtain ⟨⟨_, _⟩, hnew, g₂, hled, g₃, hadd, rfl, _⟩ := h
    obtain ⟨source, desc, hsource, hdesc, rfl, rfl⟩ := addInOrder_eq_ok.1 hnew
    rw [hnode, Option.some.injEq] at hsource
    obtain ⟨r', hled⟩ := replaceOutput_led hled
    obtain ⟨name, z, hadd⟩ := addPermute_added hadd
    have hr' := hled.edge
    rw [edge?_pushData, hr, Option.some.injEq] at hr'
    subst hr'
    exact .staged hr hnode (hsource ▸ hdesc) hled hadd
  next husage =>
    simp only [Outcome.bind_eq_ok, Outcome.pure_eq_ok, Prod.mk.injEq] at h
    obtain ⟨_, h, rfl, _⟩ := h
    obtain ⟨node', desc, hnode', hdesc, rfl⟩ := setDataOrder_eq_ok.1 h
    rw [hnode, Option.some.injEq] at hnode'
    exact .inPlace hr hnode husage (hnode' ▸ hdesc)

/-! ## Relays that stay -/

theorem Relay.congr (R : Relay g z d t) (h : ∀ {kind x}, g'.Touches kind z x ↔ g.Touches kind z x) :
    Relay g' z d t :=
  ⟨h.2 R.reads, h.2 R.writes, fun x hx => R.reads_only x (h.1 hx), fun x hx => R.writes_only x (h.1 hx)⟩

theorem Relay.sameLinks (R : Relay g z d t) (h : SameLinks g g') : Relay g' z d t :=
  R.congr ⟨h.touches, h.symm.touches⟩

theorem Relay.added {template : StageTemplate} {inputs outputs : List DataId} {id : StageId}
    (R : Relay g z d t) (wf : g.WellFormed) (h : Added g template inputs outputs id g') : Relay g' z d t := by
  obtain ⟨s, hs, _⟩ := R.reads
  have hne := (h.stage?_of_old hs).1
  exact R.congr ((h.touches wf).trans (by simp [hne]))

/-- An edge of another stage leads elsewhere. -/
theorem Relay.led {kind : EdgeKind} {x : DataId} (R : Relay g z d t) (wf : g.WellFormed)
    (hs : g.stage? b = some s) (he : edge ∈ s.slots kind) (hne : z ≠ b)
    (hstage : ∀ id, g'.stage? id = g.stage? id)
    (htarget : ∀ y, g'.target? y = if y = edge then some x else g.target? y) : Relay g' z d t := by
  refine R.congr fun {kind' y} => ⟨fun h => ?_, fun h => ?_⟩
  · exact (wf.touches_led hs he hstage htarget h).resolve_right fun h => hne h.1
  · obtain ⟨s', hs', e, he', hd⟩ := h
    refine ⟨s', (hstage z).trans hs', e, he', ?_⟩
    rw [htarget, if_neg, hd]
    rintro rfl
    exact hne (wf.owner_unique hs' he' hs he).1

/-- Every copy made so far has a relay of its own, which is none of the stages of `g₀`. -/
def Copies (g₀ : Graph) (permuted : Permuted) (g : Graph) : Prop :=
  ∀ entry ∈ permuted, ∃ z, g₀.stage? z = none ∧ Relay g z entry.1.1 entry.2

namespace Copies

variable {permuted : Permuted} {r : Edge}

theorem imp (c : Copies g₀ permuted g)
    (h : ∀ {z d t}, g₀.stage? z = none → Relay g z d t → Relay g' z d t) : Copies g₀ permuted g' := by
  intro entry hentry
  obtain ⟨z, hz, R⟩ := c entry hentry
  exact ⟨z, hz, h hz R⟩

theorem sameLinks (c : Copies g₀ permuted g) (h : SameLinks g g') : Copies g₀ permuted g' :=
  c.imp fun _ R => R.sameLinks h

theorem pushData (c : Copies g₀ permuted g) (node : Data) : Copies g₀ permuted (g.pushData node).2 :=
  c.imp fun _ R => R.congr Iff.rfl

theorem added {template : StageTemplate} {inputs outputs : List DataId} {id : StageId}
    (c : Copies g₀ permuted g) (wf : g.WellFormed) (h : Added g template inputs outputs id g') :
    Copies g₀ permuted g' := c.imp fun _ R => R.added wf h

theorem inputLed (c : Copies g₀ permuted g) (wf : g.WellFormed) (h : InputLed g edge r t g')
    (hs : g.stage? b = some s) (he : edge ∈ s.inputs) (hb : ∃ s, g₀.stage? b = some s) :
    Copies g₀ permuted g' := by
  refine c.imp fun hz R => R.led wf hs (show edge ∈ s.slots .input from he) ?_ h.stage? h.target?
  rintro rfl
  simp [hz] at hb

theorem outputLed (c : Copies g₀ permuted g) (wf : g.WellFormed) (h : OutputLed g edge r t g')
    (hs : g.stage? b = some s) (he : edge ∈ s.outputs) (hb : ∃ s, g₀.stage? b = some s) :
    Copies g₀ permuted g' := by
  refine c.imp fun hz R => R.led wf hs (show edge ∈ s.slots .output from he) ?_ h.stage? h.target?
  rintro rfl
  simp [hz] at hb

end Copies

/-! ## One stage -/

/-- What a visit keeps: the graph is orderly, the copies have their relays, and the stages of `g₀`
are still there. -/
structure Ordering (g₀ : Graph) (permuted : Permuted) (g : Graph) : Prop where
  orderly : g.Orderly
  copies : Copies g₀ permuted g
  kept : g₀.Extends g

theorem Ordering.sameLinks {permuted : Permuted} (o : Ordering g₀ permuted g) (h : SameLinks g g') :
    Ordering g₀ permuted g' := ⟨o.orderly.sameLinks h, o.copies.sameLinks h, o.kept.trans h.extends⟩

/-- A new stage is none of those that were there. -/
theorem Added.not_old {template : StageTemplate} {inputs outputs : List DataId}
    (h : Added g template inputs outputs z g') (hext : g₀.Extends g) : g₀.stage? z = none := by
  cases hz : g₀.stage? z with
  | none => rfl
  | some s =>
    obtain ⟨s', hs', _⟩ := hext z s hz
    exact absurd rfl (h.stage?_of_old hs').1

theorem Ordering.permutedCopy {permuted permuted' : Permuted} {order : Order} (o : Ordering g₀ permuted g)
    (hd : ∃ node, g.data? d = some node)
    (h : Graph.permutedCopy permuted g d order = .ok (t, permuted', g')) :
    Ordering g₀ permuted' g' ∧ g.Extends g' ∧ (∀ e r, g.edge? e = some r → g'.edge? e = some r) ∧
      ∃ z, g₀.stage? z = none ∧ Relay g' z d t := by
  rcases permutedCopy_eq_ok h with ⟨hmem, rfl, rfl⟩ | ⟨node, desc, name, name', z, _, _, rfl, rfl, hadd⟩
  · exact ⟨o, .refl, fun _ _ => id, o.copies _ hmem⟩
  · obtain ⟨o₂, R⟩ := o.orderly.relayNew rfl rfl hadd hd
    have hz := hadd.not_old (show g₀.Extends (g.pushData _).2 from o.kept)
    have wf₁ := o.orderly.wellFormed.pushIntermediate name desc
    have hext : g.Extends g' := hadd.extends
    refine ⟨⟨o₂, fun entry hentry => ?_, o.kept.trans hext⟩, hext, fun e r he => hadd.edge? e r he, z, hz, R⟩
    rcases List.mem_cons.1 hentry with rfl | hentry
    · exact ⟨z, hz, R⟩
    · exact ((o.copies.pushData _).added wf₁ hadd) entry hentry

theorem Ordering.orderInput {permuted permuted' : Permuted} {wanted : Option Order}
    (o : Ordering g₀ permuted g) (hb : ∃ s, g₀.stage? b = some s) (hs : g.stage? b = some s)
    (he : edge ∈ s.inputs) (h : InputOrdered g edge permuted wanted permuted' g') :
    Ordering g₀ permuted' g' ∧ g.Extends g' := by
  cases h with
  | unwanted => exact ⟨o, .refl⟩
  | met => exact ⟨o, .refl⟩
  | inPlace =>
    exact ⟨o.sameLinks (.setDesc _ _), (SameLinks.setDesc _ _).extends⟩
  | @duplicated order r r' node desc name content needed g' hr hnode _ _ _ _ hled =>
    have o₁ := o.orderly.pushConst name desc content
    have hext : g.Extends g' := hled.extends
    refine ⟨⟨o₁.moveToSource hled hs he fun x hx => ?_, ?_, o.kept.trans hext⟩, hext⟩
    · rw [data?_pushData_self, Option.some.injEq] at hx
      rw [← hx]
    · exact (o.copies.pushData _).inputLed o₁.wellFormed hled hs he hb
  | @copied order r r' node copy permuted' g₁ g' hr hnode _ _ hcopy hled =>
    obtain ⟨o₁, hext, hedge, z, hz, R⟩ := o.permutedCopy ⟨node, hnode⟩ hcopy
    obtain ⟨s₁, hs₁, he₁⟩ := hext.mem hs (show edge ∈ s.slots .input from he)
    have hr' := hled.edge
    rw [hedge edge r hr, Option.some.injEq] at hr'
    subst hr'
    have hne : b ≠ z := by
      rintro rfl
      simp [hz] at hb
    refine ⟨⟨o₁.orderly.relayed R hled hs₁ he₁ rfl hne, ?_, o₁.kept.trans hled.extends⟩, hext.trans hled.extends⟩
    exact o₁.copies.inputLed o₁.orderly.wellFormed hled hs₁ he₁ hb

theorem Ordering.orderOutput {permuted : Permuted} {wanted : Option Order}
    (o : Ordering g₀ permuted g) (hb : ∃ s, g₀.stage? b = some s) (hs : g.stage? b = some s)
    (he : edge ∈ s.outputs) (h : OutputOrdered g edge wanted g') : Ordering g₀ permuted g' ∧ g.Extends g' := by
  cases h with
  | unwanted => exact ⟨o, .refl⟩
  | met => exact ⟨o, .refl⟩
  | @staged order r node desc name name' z g₁ g' hr hnode _ hled hadd =>
    have wf₁ := o.orderly.wellFormed.pushIntermediate name desc
    obtain ⟨wf₂, _, _⟩ := o.orderly.divert rfl rfl (.inr rfl) hled hs he
    have hext : g.Extends g' := (hled.extends (g := (g.pushData _).2)).trans hadd.extends
    refine ⟨⟨(o.orderly.buffer rfl rfl (.inr rfl) hled hs he hadd).1, ?_, o.kept.trans hext⟩, hext⟩
    exact ((o.copies.pushData _).outputLed wf₁ hled hs he hb).added wf₂ hadd
  | inPlace =>
    exact ⟨o.sameLinks (.setDesc _ _), (SameLinks.setDesc _ _).extends⟩

/-- A visit keeps whatever its edits keep: first the inputs of the stage are given their orders,
then its outputs. The edges of the stage are the same ones throughout. -/
theorem orderStage_keeps {I : Permuted → Graph → Prop} {state state' : Permuted × Graph} {id : StageId}
    {changed : Bool}
    (read : ∀ {permuted permuted' g g' s edge wanted}, I permuted g → g.stage? id = some s →
      edge ∈ s.inputs → InputOrdered g edge permuted wanted permuted' g' → I permuted' g' ∧ g.Extends g')
    (write : ∀ {permuted g g' s edge wanted}, I permuted g → g.stage? id = some s → edge ∈ s.outputs →
      OutputOrdered g edge wanted g' → I permuted g' ∧ g.Extends g')
    (hI : I state.1 state.2) (h : Graph.orderStage state id = .ok (state', changed)) : I state'.1 state'.2 := by
  simp only [Graph.orderStage, Outcome.bind_eq_ok, Outcome.pure_eq_ok, Prod.mk.injEq] at h
  obtain ⟨site, hsite, report, _, ⟨⟨permuted, g₁⟩, _⟩, hread, ⟨g₂, _⟩, hwrite, rfl, _⟩ := h
  have hs := (site_eq_ok.1 hsite).1
  have hread' := Pass.sweepWith_keeps
    (fun rest st => I st.1 st.2 ∧ state.2.Extends st.2 ∧ ∀ x ∈ rest, x.1 ∈ site.stage.slots .input)
    (by
      rintro ⟨edge, wanted⟩ rest ⟨p, g₁⟩ ⟨p', g₂⟩ here ⟨hI₁, hext, hmem⟩ h
      obtain ⟨s₁, hs₁, he⟩ := hext.mem hs (hmem (edge, wanted) (by simp))
      obtain ⟨hI₂, hext₂⟩ := read hI₁ hs₁ he (orderInput_eq_ok h)
      exact ⟨hI₂, hext.trans hext₂, fun x hx => hmem x (by simp [hx])⟩)
    (⟨hI, .refl, fun x hx => (List.of_mem_zip hx).1⟩) hread
  have hwrite' := Pass.sweep_keeps
    (fun rest g => I permuted g ∧ state.2.Extends g ∧ ∀ x ∈ rest, x.1 ∈ site.stage.slots .output)
    (by
      rintro ⟨edge, wanted⟩ rest g₁ g₂ here ⟨hI₁, hext, hmem⟩ h
      obtain ⟨s₁, hs₁, he⟩ := hext.mem hs (hmem (edge, wanted) (by simp))
      obtain ⟨hI₂, hext₂⟩ := write hI₁ hs₁ he (orderOutput_eq_ok h)
      exact ⟨hI₂, hext.trans hext₂, fun x hx => hmem x (by simp [hx])⟩)
    (⟨hread'.1, hread'.2.1, fun x hx => (List.of_mem_zip hx).1⟩) hwrite
  exact hwrite'.1

/-- Settling orders keeps whatever its edits keep; they are made to edges of stages that the graph
had at the start. -/
theorem dataOrder_keeps {I : Permuted → Graph → Prop} {config : Config} {changed : Bool}
    (read : ∀ {id permuted permuted' x x' s edge wanted}, (∃ s, g.stage? id = some s) → I permuted x →
      x.stage? id = some s → edge ∈ s.inputs → InputOrdered x edge permuted wanted permuted' x' →
        I permuted' x' ∧ x.Extends x')
    (write : ∀ {id permuted x x' s edge wanted}, (∃ s, g.stage? id = some s) → I permuted x →
      x.stage? id = some s → edge ∈ s.outputs → OutputOrdered x edge wanted x' → I permuted x' ∧ x.Extends x')
    (start : ∀ order, g.runOrder = .ok order → I [] g) (h : Pass.dataOrder.run config g = .ok (g', changed)) :
    ∃ permuted, I permuted g' := by
  simp only [Pass.dataOrder, Outcome.bind_eq_ok, Outcome.pure_eq_ok, Prod.mk.injEq] at h
  obtain ⟨order, horder, ⟨⟨permuted, g₁⟩, _⟩, h, rfl, _⟩ := h
  have hlive (id) (hid : id ∈ order) : ∃ s, g.stage? id = some s :=
    mem_liveIds.1 ((runOrder_perm horder).mem_iff.1 hid)
  have done := Pass.sweepWith_keeps
    (fun rest state => I state.1 state.2 ∧ ∀ id ∈ rest, ∃ s, g.stage? id = some s)
    (by
      rintro id rest state state' here ⟨hI, hlive⟩ h
      have hid := hlive id (by simp)
      exact ⟨orderStage_keeps (read hid) (write hid) hI h, fun x hx => hlive x (by simp [hx])⟩)
    ⟨start order horder, hlive⟩ h
  exact ⟨permuted, done.1⟩

/-- Before the first visit there are no copies. -/
theorem Orderly.ordering (o : g.Orderly) : Ordering g [] g := ⟨o, by simp [Copies], .refl⟩

theorem Orderly.dataOrder {config : Config} {changed : Bool} (o : g.Orderly)
    (h : Pass.dataOrder.run config g = .ok (g', changed)) : g'.Orderly := by
  obtain ⟨_, o'⟩ := dataOrder_keeps (fun hid o hs he h => o.orderInput hid hs he h)
    (fun hid o hs he h => o.orderOutput hid hs he h) (fun _ _ => o.ordering) h
  exact o'.orderly

end NetLower.Graph
