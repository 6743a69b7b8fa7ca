/-
Settling orders brings every stage to rest.  A visit gives a stage the orders it asks for,
and no later visit takes them away: constants that are reordered in place have one reader,
tensors that are reordered in place are read by stages still to come, and every other
reader moves to a tensor of its own.
-/
import NetLower.Proofs.Pass.DataOrder
import NetLower.Proofs.Stage.AtRest

namespace NetLower.Graph

variable {g₀ g g' g'' : Graph} {rest : List StageId} {edge : EdgeId} {slot : Nat} {a b id z : StageId} {s : Stage}
  {r : Edge} {d t : DataId} {order : Order}

/-! ## What a step leaves alone -/

/-- The graph has a stage of this identifier. -/
def Has (g : Graph) (id : StageId) : Prop := ∃ s, g.stage? id = some s

theorem Stays.trans (h : g.Stays g' edge) (h' : g'.Stays g'' edge) : g.Stays g'' edge := by
  intro node hnode
  obtain ⟨node', hnode', hlook⟩ := h node hnode
  obtain ⟨node'', hnode'', hlook'⟩ := h' node' hnode'
  exact ⟨node'', hnode'', hlook'.trans hlook⟩

/-- A step at an edge: it may add permutations and exchange what the edge leads to. The slots of
stages of `g₀` that are done, that is, not among `rest`, stay otherwise as they are, and no stage of
`g₀` comes to feed another. -/
structure Calm (g₀ : Graph) (rest : List StageId) (edge : EdgeId) (slot : Nat) (g g' : Graph) : Prop where
  stages : ∀ {id s}, g.stage? id = some s → g'.stage? id = some s
  relays : ∀ {id s}, g'.stage? id = some s → g.stage? id = some s ∨ s.kind = .permute
  alike : ∀ {node}, g.tensor? edge = some node → ∃ node', g'.tensor? edge = some node' ∧
    node.look.Alike slot node'.look
  stays : ∀ {id s kind x}, g.stage? id = some s → g₀.Has id → id ∉ rest → x ∈ s.slots kind → x ≠ edge →
    g.Stays g' x
  feeds : ∀ {a b}, g₀.Has a → g₀.Has b → g'.Feeds a b → g.Feeds a b

namespace Calm

theorem refl : Calm g₀ rest edge slot g g :=
  ⟨fun h => h, .inl, fun h => ⟨_, h, .refl⟩, fun _ _ _ _ _ node hnode => ⟨node, hnode, rfl⟩, fun _ _ h => h⟩

theorem trans (h : Calm g₀ rest edge slot g g') (h' : Calm g₀ rest edge slot g' g'') :
    Calm g₀ rest edge slot g g'' where
  stages hs := h'.stages (h.stages hs)
  relays hs := (h'.relays hs).elim h.relays .inr
  alike hnode := by
    obtain ⟨node', hnode', halike⟩ := h.alike hnode
    obtain ⟨node'', hnode'', halike'⟩ := h'.alike hnode'
    exact ⟨node'', hnode'', halike.trans halike'⟩
  stays hs hold hdone hx hne := (h.stays hs hold hdone hx hne).trans (h'.stays (h.stages hs) hold hdone hx hne)
  feeds ha hb hf := h.feeds ha hb (h'.feeds ha hb hf)

/-- A step that changes nothing that shows. -/
theorem of_stays (stages : ∀ {id s}, g.stage? id = some s → g'.stage? id = some s)
    (relays : ∀ {id s}, g'.stage? id = some s → g.stage? id = some s ∨ s.kind = .permute)
    (stays : ∀ x, g.Stays g' x) (feeds : ∀ {a b}, g₀.Has a → g₀.Has b → g'.Feeds a b → g.Feeds a b) :
    Calm g₀ rest edge slot g g' := by
  refine ⟨stages, relays, fun hnode => ?_, fun _ _ _ _ _ => stays _, feeds⟩
  obtain ⟨node', hnode', hlook⟩ := stays edge _ hnode
  exact ⟨node', hnode', hlook ▸ .refl⟩

theorem pushData (new : Data) : Calm g₀ rest edge slot g (g.pushData new).2 :=
  .of_stays (fun h => h) .inl (stays_pushData new) fun _ _ h => h

theorem added {template : StageTemplate} {inputs outputs : List DataId} (wf : g.WellFormed)
    (h : Added g template inputs outputs z g') (hkind : template.kind = .permute) (hz : g₀.stage? z = none) :
    Calm g₀ rest edge slot g g' := by
  refine .of_stays (fun hs => (h.stage?_of_old hs).2) (fun hs => ?_) h.stays fun ha hb ⟨d, hw, hr⟩ => ?_
  · rw [h.stage?] at hs
    split at hs
    · cases hs
      exact .inr hkind
    · exact .inl hs
  · have old {kind id} (hid : g₀.Has id) (ht : g'.Touches kind id d) : g.Touches kind id d := by
      refine ((h.touches wf).1 ht).resolve_right fun ⟨hidz, _⟩ => ?_
      obtain ⟨s, hs⟩ := hid
      simp [hidz, hz] at hs
    exact ⟨d, old ha hw, old hb hr⟩

/-- The edge leads to another tensor, whose only links to stages of `g₀` are of the edge's own
direction. -/
theorem led {kind : EdgeKind} (wf : g.WellFormed) (hedge : g.edge? edge = some r) (hs : g.stage? b = some s)
    (he : edge ∈ s.slots kind) (looks : SameLooks g g') (hstage : ∀ id, g'.stage? id = g.stage? id)
    (htarget : ∀ x, g'.target? x = if x = edge then some t else g.target? x)
    (hlinks : ∀ other id, g₀.Has id → g.Touches other id t → other = kind)
    (ht : ∃ new, g.data? t = some new ∧ ∀ node, g.data? r.data = some node → node.look.Alike slot new.look) :
    Calm g₀ rest edge slot g g' where
  stages {id s} hs := (hstage id).trans hs
  relays {id s} hs := .inl ((hstage id).symm.trans hs)
  alike {node} hnode := by
    obtain ⟨new, hnew, halike⟩ := ht
    obtain ⟨new', hnew', hlook⟩ := looks.data_of hnew
    rw [tensor?_of_target? (target?_of_edge? hedge)] at hnode
    exact ⟨new', by rw [tensor?_of_target? (by rw [htarget, if_pos rfl]), hnew'], hlook ▸ halike node hnode⟩
  stays _ _ _ _ hne := looks.stays fun y hy => by rw [htarget, if_neg hne, hy]
  feeds {a c} ha hc := by
    rintro ⟨x, hw, hr⟩
    have hw' := wf.touches_led hs he hstage htarget hw
    have hr' := wf.touches_led hs he hstage htarget hr
    rcases hw' with hw' | ⟨_, hkind, hx⟩ <;> rcases hr' with hr' | ⟨_, hkind', hx'⟩
    · exact ⟨x, hw', hr'⟩
    · cases hkind'.trans (hlinks .output a ha (hx' ▸ hw')).symm
    · cases hkind.trans (hlinks .input c hc (hx ▸ hr')).symm
    · cases hkind.trans hkind'.symm

/-- The tensor at the edge is reordered, and no other slot of a stage that is done has it. -/
theorem setDesc {node : Data} {desc : Desc} (hedge : g.edge? edge = some r) (hnode : g.data? r.data = some node)
    (hdims : desc.dims = node.desc.dims) (hdtype : desc.dtype = node.desc.dtype)
    (halone : ∀ {id s kind x}, g.stage? id = some s → g₀.Has id → id ∉ rest → x ∈ s.slots kind →
      g.target? x = some r.data → x = edge) :
    Calm g₀ rest edge slot g (g.modifyData r.data fun node => { node with desc }) where
  stages hs := hs
  relays hs := .inl hs
  alike {old} hold := by
    have ht := target?_of_edge? hedge
    rw [tensor?_of_target? ht, hnode, Option.some.injEq] at hold
    subst hold
    refine ⟨{ node with desc }, ?_, .of_dims hdims hdtype .rfl fun _ => .rfl⟩
    rw [tensor?_of_target? (show (g.modifyData _ _).target? edge = some r.data from ht), data?_modifyData,
      if_pos rfl, hnode, Option.map_some]
  stays {id s kind x} hs hold hdone hx hne old htensor := by
    obtain ⟨y, hy, hold'⟩ := tensor?_eq_some.1 htensor
    refine ⟨old, tensor?_eq_some.2 ⟨y, hy, ?_⟩, rfl⟩
    rw [data?_modifyData, if_neg, hold']
    rintro rfl
    exact hne (halone hs hold hdone hx hy)
  feeds _ _ h := h

end Calm

/-! ## Visits -/

/-- A tensor is the copy of another one in an order. -/
def CopyOf (g : Graph) (d : DataId) (order : Order) (t : DataId) : Prop :=
  ∃ node copy, g.data? d = some node ∧ g.data? t = some copy ∧ copy.usage = .intermediate ∧
    copy.desc.order = order ∧ copy.desc.dims = node.desc.dims ∧ copy.desc.dtype = node.desc.dtype

theorem CopyOf.keeps (h : g.CopyOf d order t) (looks : KeepsLooks g g') : g'.CopyOf d order t := by
  obtain ⟨node, copy, hnode, hcopy, husage, horder, hdims, hdtype⟩ := h
  obtain ⟨node', hnode', hlook⟩ := looks d node hnode
  obtain ⟨copy', hcopy', hlook'⟩ := looks t copy hcopy
  have hdesc : node'.desc = node.desc := congrArg Look.desc hlook
  have hdesc' : copy'.desc = copy.desc := congrArg Look.desc hlook'
  exact ⟨node', copy', hnode', hcopy', (congrArg Look.usage hlook').trans husage, hdesc' ▸ horder,
    by rw [hdesc, hdesc', hdims], by rw [hdesc, hdesc', hdtype]⟩

/-- The tensor that was copied may be reordered. -/
theorem CopyOf.setDesc {x : DataId} {old : Data} {desc : Desc} (h : g.CopyOf d order t)
    (hold : g.data? x = some old) (hdims : desc.dims = old.desc.dims) (hdtype : desc.dtype = old.desc.dtype)
    (hne : t ≠ x) : (g.modifyData x fun node => { node with desc }).CopyOf d order t := by
  obtain ⟨node, copy, hnode, hcopy, husage, horder, hdims', hdtype'⟩ := h
  have hcopy' : (g.modifyData x fun node => { node with desc }).data? t = some copy := by
    rw [data?_modifyData, if_neg hne, hcopy]
  by_cases hx : d = x
  · subst hx
    rw [hnode, Option.some.injEq] at hold
    subst hold
    refine ⟨{ node with desc }, copy, ?_, hcopy', husage, horder, hdims'.trans hdims.symm,
      hdtype'.trans hdtype.symm⟩
    rw [data?_modifyData, if_pos rfl, hnode, Option.map_some]
  · exact ⟨node, copy, by rw [data?_modifyData, if_neg hx, hnode], hcopy', husage, horder, hdims', hdtype'⟩

/-- A reader of a tensor that is computed or given may read the copy. -/
theorem CopyOf.alike {node : Data} (h : g.CopyOf d order t) (hnode : g.data? d = some node)
    (hconst : node.usage ≠ .const) (hfake : node.usage ≠ .fake) :
    ∃ copy, g.data? t = some copy ∧ copy.desc.order = order ∧ ∀ slot, node.look.Alike slot copy.look := by
  obtain ⟨node', copy, hnode', hcopy, husage, horder, hdims, hdtype⟩ := h
  rw [hnode, Option.some.injEq] at hnode'
  subst hnode'
  refine ⟨copy, hcopy, horder, fun slot => ?_⟩
  rw [show copy.look = ⟨copy.desc, .intermediate⟩ from congrArg (Look.mk copy.desc) husage]
  exact .intermediate hdims hdtype hfake fun _ => hconst

/-- What holds between visits: the copies are what they should be, and the stages that are not
pending are at rest. -/
structure Resting (g₀ : Graph) (pending : List StageId) (permuted : Permuted) (g : Graph) : Prop
    extends Ordering g₀ permuted g where
  made : ∀ entry ∈ permuted, g.CopyOf entry.1.1 entry.1.2 entry.2
  feeds : ∀ {a b}, g₀.Has a → g₀.Has b → g.Feeds a b → g₀.Feeds a b
  relays : ∀ {id s}, g.stage? id = some s → g₀.Has id ∨ s.kind = .permute
  rests : ∀ {id site}, g.site id = .ok site → id ∉ pending → site.AtRest

/-- The edge leads to a tensor of the order that is wanted, unless there is none there. -/
def Ordered (g : Graph) (edge : EdgeId) (wanted : Option Order) : Prop :=
  ∀ order node, wanted = some order → g.tensor? edge = some node → node.usage ≠ .fake → node.desc.order = order

theorem ordered_of_tensor {node : Data} (h : g.tensor? edge = some node) (ho : node.desc.order = order) :
    g.Ordered edge (some order) := by
  intro order' node' hwanted hnode' _
  rw [h, Option.some.injEq] at hnode'
  cases hwanted
  exact hnode' ▸ ho

theorem SameLooks.tensor_led {new : Data} (looks : SameLooks g g') (htarget : g'.target? edge = some t)
    (hnew : g.data? t = some new) : ∃ node, g'.tensor? edge = some node ∧ node.look = new.look := by
  rw [tensor?_of_target? htarget]
  exact looks.data_of hnew

namespace Resting

variable {permuted permuted' : Permuted} {kind : EdgeKind} {wanted : Option Order} {node : Data} {desc : Desc}

/-- A step at an edge of the stage that is visited. -/
theorem after (st : Resting g₀ (b :: rest) permuted g) (c : Calm g₀ rest edge slot g g') (hs : g.stage? b = some s)
    (he : edge ∈ s.slots kind) (o : Ordering g₀ permuted' g')
    (made : ∀ entry ∈ permuted', g'.CopyOf entry.1.1 entry.1.2 entry.2) : Resting g₀ (b :: rest) permuted' g' where
  toOrdering := o
  made := made
  feeds ha hb h := st.feeds ha hb (c.feeds ha hb h)
  relays hs := (c.relays hs).elim st.relays .inr
  rests {id site} hsite hid := by
    have hs' := (site_eq_ok.1 hsite).1
    rcases c.relays hs' with hs₀ | hpermute
    · rcases st.relays hs₀ with hold | hpermute
      · have wf := st.orderly.wellFormed
        obtain ⟨site₀, hsite₀, like⟩ := @WellFormed.site_like g g' id site.stage Look.same site.stage site wf hs₀
          hsite hs' rfl rfl rfl fun kind' k x node hx hnode => by
            have hx := List.mem_of_getElem? hx
            have hne : x ≠ edge := by
              rintro rfl
              exact hid (by simp [(wf.owner_unique hs₀ hx hs he).1])
            exact c.stays hs₀ hold (fun h => hid (List.mem_cons_of_mem b h)) hx hne node hnode
        exact (st.rests hsite₀ hid).same like
      · exact Site.atRest_permute hpermute
    · exact Site.atRest_permute hpermute

/-- The tensor at an edge of the visited stage is reordered in place. -/
theorem setDesc (st : Resting g₀ (b :: rest) permuted g) (hs : g.stage? b = some s) (he : edge ∈ s.slots kind)
    (hedge : g.edge? edge = some r) (hnode : g.data? r.data = some node)
    (hdesc : node.desc.setOrder order = .ok desc)
    (halone : ∀ {id s kind x}, g.stage? id = some s → g₀.Has id → id ∉ rest → x ∈ s.slots kind →
      g.target? x = some r.data → x = edge)
    (hcopies : ∀ entry ∈ permuted, entry.2 ≠ r.data) :
    Resting g₀ (b :: rest) permuted (g.modifyData r.data fun node => { node with desc }) ∧
      Calm g₀ rest edge slot g (g.modifyData r.data fun node => { node with desc }) ∧
      (g.modifyData r.data fun node => { node with desc }).Ordered edge (some order) := by
  obtain ⟨hdtype, hdims, horder⟩ := Desc.setOrder_eq_ok hdesc
  have calm (slot : Nat) : Calm g₀ rest edge slot g (g.modifyData r.data fun node => { node with desc }) :=
    .setDesc hedge hnode hdims hdtype halone
  refine ⟨st.after (calm slot) hs he (st.sameLinks (.setDesc _ _)) ?_, calm slot, ?_⟩
  · exact fun entry hentry => (st.made entry hentry).setDesc hnode hdims hdtype (hcopies entry hentry)
  · suffices h : (g.modifyData r.data fun node => { node with desc }).tensor? edge = some { node with desc } from
      ordered_of_tensor h horder
    rw [tensor?_of_target? (show (g.modifyData _ _).target? edge = some r.data from target?_of_edge? hedge),
      data?_modifyData, if_pos rfl, hnode, Option.map_some]

/-- A permuted copy, found or new. -/
theorem permutedCopy (st : Resting g₀ (b :: rest) permuted g) (hs : g.stage? b = some s) (he : edge ∈ s.slots kind)
    (hnode : g.data? d = some node) (h : Graph.permutedCopy permuted g d order = .ok (t, permuted', g')) :
    Resting g₀ (b :: rest) permuted' g' ∧ Calm g₀ rest edge slot g g' ∧ g'.CopyOf d order t ∧ KeepsLooks g g' := by
  obtain ⟨o, -⟩ := st.toOrdering.permutedCopy ⟨node, hnode⟩ h
  rcases permutedCopy_eq_ok h with ⟨hmem, rfl, rfl⟩ | ⟨x, desc, name, name', z, hx, hdesc, rfl, rfl, hadd⟩
  · exact ⟨st, .refl, st.made _ hmem, fun _ node hnode => ⟨node, hnode, rfl⟩⟩
  rw [hnode, Option.some.injEq] at hx
  subst hx
  obtain ⟨hdtype, hdims, horder⟩ := Desc.setOrder_eq_ok hdesc
  have wf₁ := st.orderly.wellFormed.pushIntermediate name desc
  have hz := hadd.not_old (show g₀.Extends (g.pushData _).2 from st.kept)
  have calm (slot : Nat) : Calm g₀ rest edge slot g g' := (Calm.pushData _).trans (.added wf₁ hadd rfl hz)
  have looks : KeepsLooks g g' := (keepsLooks_pushData _).trans hadd.sameLooks.keeps
  have copy : g'.CopyOf d order (g.pushData (intermediate name desc)).1 := by
    obtain ⟨node', hnode', hlook⟩ := looks d node hnode
    obtain ⟨new', hnew', hlook'⟩ := hadd.sameLooks.data_of (@data?_pushData_self g (intermediate name desc))
    have hnode'' : node'.desc = node.desc := congrArg Look.desc hlook
    have hnew'' : new'.desc = desc := congrArg Look.desc hlook'
    exact ⟨node', new', hnode', hnew', congrArg Look.usage hlook', hnew'' ▸ horder, by rw [hnew'', hnode'', hdims],
      by rw [hnew'', hnode'', hdtype]⟩
  refine ⟨st.after (calm slot) hs he o fun entry hentry => ?_, calm slot, copy, looks⟩
  rcases List.mem_cons.1 hentry with rfl | hentry
  · exact copy
  · exact (st.made entry hentry).keeps looks

/-- The visited stage is given the order it needs at an input. -/
theorem orderInput (st : Resting g₀ (b :: rest) permuted g) (hb : g₀.Has b) (hs : g.stage? b = some s)
    (he : s.inputs[slot]? = some edge) (h : InputOrdered g edge permuted wanted permuted' g') :
    Resting g₀ (b :: rest) permuted' g' ∧ Calm g₀ rest edge slot g g' ∧ g'.Ordered edge wanted := by
  have wf := st.orderly.wellFormed
  have hmem : edge ∈ s.slots .input := List.mem_of_getElem? he
  have o := (st.toOrdering.orderInput hb hs hmem h).1
  cases h with
  | unwanted => exact ⟨st, .refl, nofun⟩
  | @met order r node hr hnode hmet =>
    refine ⟨st, .refl, fun order' node' hwanted hnode' hfake => ?_⟩
    rw [tensor?_of_target? (target?_of_edge? hr), hnode, Option.some.injEq] at hnode'
    cases hwanted
    exact hnode' ▸ hmet.resolve_right (hnode' ▸ hfake)
  | @inPlace order r node desc hr hnode hconst hone hdesc =>
    refine st.setDesc hs hmem hr hnode hdesc (fun {id s' kind x} hs' _ _ hx ht => ?_) fun entry hentry heq => ?_
    · exact (wf.only_edge hnode hconst hone ⟨b, s, hs, hmem, target?_of_edge? hr⟩ ⟨id, s', hs', hx, ht⟩).2
    · obtain ⟨_, copy, _, hcopy, husage, _⟩ := st.made entry hentry
      rw [heq, hnode, Option.some.injEq] at hcopy
      simp [← hcopy, hconst] at husage
  | @duplicated order r r' node desc name content needed g' hr hnode hconst hdesc _ _ hled =>
    obtain ⟨hdtype, hdims, horder⟩ := Desc.setOrder_eq_ok hdesc
    have hr' := hled.edge
    rw [edge?_pushData, hr, Option.some.injEq] at hr'
    subst hr'
    have calm : Calm g₀ rest edge slot g g' := by
      refine (Calm.pushData _).trans
        (.led (wf.pushData rfl rfl) hled.edge hs hmem hled.sameLooks hled.stage? hled.target?
        (fun other id _ ht => absurd ht (wf.untouched_pushData _ other id))
        ⟨_, data?_pushData_self _, fun old hold => ?_⟩)
      rw [data?_pushData_old hnode, Option.some.injEq] at hold
      exact hold ▸ .constant hdims hdtype hconst
    refine ⟨st.after calm hs hmem o fun entry hentry => ?_, calm, ?_⟩
    · exact (st.made entry hentry).keeps ((keepsLooks_pushData _).trans hled.sameLooks.keeps)
    · obtain ⟨new, hnew, hlook⟩ := hled.sameLooks.tensor_led (by rw [hled.target?, if_pos rfl])
        (data?_pushData_self _)
      exact ordered_of_tensor hnew ((congrArg (·.desc.order) hlook).trans horder)
  | @copied order r r' node copy _ g₁ g' hr hnode hconst hfake hcopy hled =>
    obtain ⟨st₁, calm₁, hcopyOf, looks⟩ :=
      @permutedCopy g₀ g g₁ rest edge slot b s r.data copy order permuted permuted'
      .input node st hs hmem hnode hcopy
    obtain ⟨_, _, hedge, z, hz, relay⟩ := st.toOrdering.permutedCopy ⟨node, hnode⟩ hcopy
    have wf₁ := st₁.orderly.wellFormed
    have hr' := hled.edge
    rw [hedge edge r hr, Option.some.injEq] at hr'
    subst hr'
    obtain ⟨x, hx, hlook⟩ := looks r.data node hnode
    have hu : x.usage = node.usage := congrArg Look.usage hlook
    obtain ⟨new, hnew, horder, halike⟩ := hcopyOf.alike hx (hu ▸ hconst) (hu ▸ hfake)
    have calm₂ : Calm g₀ rest edge slot g₁ g' := by
      refine .led wf₁ hled.edge (calm₁.stages hs) hmem hled.sameLooks hled.stage? hled.target?
        (fun other id hid ht => ?_) ⟨new, hnew, fun old hold => ?_⟩
      · cases other with
        | input => rfl
        | output =>
          obtain ⟨_, hid⟩ := hid
          rw [wf₁.writer_stage_unique ht relay.writes, hz] at hid
          cases hid
      · rw [hx, Option.some.injEq] at hold
        exact hold ▸ halike slot
    refine ⟨st₁.after calm₂ (calm₁.stages hs) hmem o fun entry hentry => ?_, calm₁.trans calm₂, ?_⟩
    · exact (st₁.made entry hentry).keeps hled.sameLooks.keeps
    · obtain ⟨new', hnew', hlook'⟩ := hled.sameLooks.tensor_led (by rw [hled.target?, if_pos rfl]) hnew
      exact ordered_of_tensor hnew' ((congrArg (·.desc.order) hlook').trans horder)

/-- The visited stage is given the order it needs at an output. The stages it feeds are still to
come. -/
theorem orderOutput (st : Resting g₀ (b :: rest) permuted g) (hb : g₀.Has b)
    (hahead : ∀ c, g₀.Feeds b c → c ∈ rest) (hs : g.stage? b = some s) (he : s.outputs[slot]? = some edge)
    (h : OutputOrdered g edge wanted g') :
    Resting g₀ (b :: rest) permuted g' ∧ Calm g₀ rest edge slot g g' ∧ g'.Ordered edge wanted := by
  have wf := st.orderly.wellFormed
  have hmem : edge ∈ s.slots .output := List.mem_of_getElem? he
  have o := (st.toOrdering.orderOutput hb hs hmem h).1
  cases h with
  | unwanted => exact ⟨st, .refl, nofun⟩
  | @met order r node hr hnode hmet =>
    refine ⟨st, .refl, ordered_of_tensor ?_ hmet⟩
    rw [tensor?_of_target? (target?_of_edge? hr), hnode]
  | @staged order r node desc name name' z g₁ g' hr hnode hdesc hled hadd =>
    obtain ⟨hdtype, hdims, horder⟩ := Desc.setOrder_eq_ok hdesc
    have husage := wf.usage_of_written ⟨b, s, hs, hmem, target?_of_edge? hr⟩ hnode
    obtain ⟨wf₂, _, _⟩ := st.orderly.divert rfl rfl (.inr rfl) hled hs hmem
    have hz := hadd.not_old ((show g₀.Extends (g.pushData _).2 from st.kept).trans hled.extends)
    have calm : Calm g₀ rest edge slot g g' := by
      refine ((Calm.pushData _).trans (.led (wf.pushIntermediate _ _) hled.edge hs hmem hled.sameLooks hled.stage?
        hled.target? (fun other id _ ht => absurd ht (wf.untouched_pushData _ other id))
        ⟨_, data?_pushData_self _, fun old hold => ?_⟩)).trans (.added wf₂ hadd rfl hz)
      rw [data?_pushData_old hnode, Option.some.injEq] at hold
      exact hold ▸ .written hdims hdtype husage
    refine ⟨st.after calm hs hmem o fun entry hentry => ?_, calm, ?_⟩
    · exact (st.made entry hentry).keeps
        (((keepsLooks_pushData _).trans hled.sameLooks.keeps).trans hadd.sameLooks.keeps)
    · obtain ⟨new, hnew, hlook⟩ := hled.sameLooks.tensor_led (by rw [hled.target?, if_pos rfl])
        (data?_pushData_self _)
      obtain ⟨new', hnew', hlook'⟩ := hadd.stays edge new hnew
      exact ordered_of_tensor hnew' ((congrArg (·.desc.order) (hlook'.trans hlook)).trans horder)
  | @inPlace order r node desc hr hnode _ hdesc =>
    have ht := target?_of_edge? hr
    have hwrites : g.Touches .output b r.data := ⟨s, hs, edge, hmem, ht⟩
    refine st.setDesc hs hmem hr hnode hdesc (fun {id s' kind x} hs' hid hdone hx ht' => ?_)
      fun entry hentry heq => ?_
    · cases kind with
      | output => exact wf.writer_unique ⟨id, s', hs', hx, ht'⟩ ⟨b, s, hs, hmem, ht⟩
      | input => exact absurd (hahead id (st.feeds hb hid ⟨r.data, hwrites, s', hs', x, hx, ht'⟩)) hdone
    · obtain ⟨z, hz, relay⟩ := st.copies entry hentry
      obtain ⟨_, hb⟩ := hb
      rw [← wf.writer_stage_unique (heq ▸ relay.writes) hwrites, hz] at hb
      cases hb

end Resting

/-! ## Nothing to do -/

/-- An input edge that leads to the order it needs is left alone. -/
theorem orderInput_of_ordered {permuted : Permuted} {wanted : Option Order} {node : Data}
    (hr : g.edge? edge = some r) (hnode : g.data? r.data = some node) (h : g.Ordered edge wanted) :
    Graph.orderInput (permuted, g) edge wanted = .ok ((permuted, g), false) := by
  cases wanted with
  | none => rfl
  | some order =>
    refine Outcome.bind_eq_ok.2 ⟨r, edge_eq_ok.2 hr, Outcome.bind_eq_ok.2 ⟨node, data_eq_ok.2 hnode, ?_⟩⟩
    by_cases hmet : node.desc.order = order
    · rw [if_pos hmet]
      rfl
    · have hfake : node.usage = .fake := by
        refine Decidable.byContradiction fun hfake => hmet (h order node rfl ?_ hfake)
        rw [tensor?_of_target? (target?_of_edge? hr), hnode]
      rw [if_neg hmet]
      simp only [hfake]
      rfl

/-- An output edge that leads to the order it needs is left alone. -/
theorem orderOutput_of_ordered {wanted : Option Order} {node : Data} (hr : g.edge? edge = some r)
    (hnode : g.data? r.data = some node) (hfake : node.usage ≠ .fake) (h : g.Ordered edge wanted) :
    g.orderOutput edge wanted = .ok (g, false) := by
  cases wanted with
  | none => rfl
  | some order =>
    refine Outcome.bind_eq_ok.2 ⟨r, edge_eq_ok.2 hr, Outcome.bind_eq_ok.2 ⟨node, data_eq_ok.2 hnode, ?_⟩⟩
    have hmet : node.desc.order = order := by
      refine h order node rfl ?_ hfake
      rw [tensor?_of_target? (target?_of_edge? hr), hnode]
    rw [if_pos hmet]
    rfl

/-- What a stage writes is there. -/
theorem WellFormed.written_at {kind : EdgeKind} {node : Data} (wf : g.WellFormed) (hs : g.stage? b = some s)
    (he : edge ∈ s.slots .output) (hr : g.edge? edge = some ⟨kind, d, b, slot⟩) (hnode : g.data? d = some node) :
    node.usage ≠ .fake := by
  rcases wf.usage_of_written ⟨b, s, hs, he, target?_of_edge? hr⟩ hnode with hu | hu <;> simp [hu]

/-! ## One stage -/

/-- In the middle of a visit: apart from the edges that are left, slots have the orders that the
report asks for, and only slots that did not have them are changed. -/
structure Visit (g₀ : Graph) (b : StageId) (rest : List StageId) (site : Site) (report : Report Order)
    (left : List (EdgeId × Option Order)) (permuted : Permuted) (g : Graph) : Prop
    extends Resting g₀ (b :: rest) permuted g where
  stage : g.stage? b = some site.stage
  like : ∀ {site'}, g.site b = .ok site' → site.Like (Look.led report) site'
  met : ∀ {kind} {k : Nat} {edge wanted}, (site.stage.slots kind)[k]? = some edge →
    (report.slots kind)[k]? = some wanted → (edge, wanted) ∈ left ∨ g.Ordered edge wanted

namespace Visit

variable {permuted permuted' : Permuted} {site : Site} {report : Report Order}
  {left : List (EdgeId × Option Order)} {wanted : Option Order} {kind : EdgeKind}

theorem start (st : Resting g₀ (b :: rest) permuted g) (hsite : g.site b = .ok site) :
    Visit g₀ b rest site report (site.stage.inputs.zip report.inputs ++ site.stage.outputs.zip report.outputs)
      permuted g := by
  refine ⟨st, (site_eq_ok.1 hsite).1, fun {site'} hsite' => ?_, fun {kind k edge wanted} he hw => .inl ?_⟩
  · rw [hsite, Except.ok.injEq] at hsite'
    subst hsite'
    refine ⟨rfl, rfl, fun _ => rfl, fun _ _ d d' hd hd' => ?_⟩
    rw [hd, Option.some.injEq] at hd'
    exact hd' ▸ Look.led_refl
  · have hzip : (edge, wanted) ∈ (site.stage.slots kind).zip (report.slots kind) :=
      List.mem_of_getElem? (List.getElem?_zip_eq_some.2 ⟨he, hw⟩)
    cases kind with
    | input => exact List.mem_append_left _ hzip
    | output => exact List.mem_append_right _ hzip

/-- One of the edges that are left is given its order. -/
theorem step (kind : EdgeKind) (v : Visit g₀ b rest site report ((edge, wanted) :: left) permuted g)
    (hb : g₀.Has b) (hnot : b ∉ rest) (he : (site.stage.slots kind)[slot]? = some edge)
    (hw : (report.slots kind)[slot]? = some wanted)
    (st : Resting g₀ (b :: rest) permuted' g') (c : Calm g₀ rest edge slot g g') (ho : g'.Ordered edge wanted)
    (hidle : g.Ordered edge wanted → g' = g) : Visit g₀ b rest site report left permuted' g' := by
  have wf := v.orderly.wellFormed
  have hs := c.stages v.stage
  refine ⟨st, hs, fun {site'} hsite' => ?_, fun {kind' k edge' wanted'} he' hw' => ?_⟩
  · obtain ⟨mid, hmid, like⟩ := @WellFormed.site_like g g' b site.stage (Look.led report) site.stage site' wf
      v.stage hsite' hs rfl rfl rfl fun kind' k x node hx hnode => by
        by_cases hxe : x = edge
        · subst hxe
          obtain ⟨rfl, rfl⟩ := wf.slot_unique v.stage he hx
          by_cases hord : g.Ordered x wanted
          · exact ⟨node, hidle hord ▸ hnode, Look.led_refl⟩
          · obtain ⟨node', hnode', halike⟩ := c.alike hnode
            refine ⟨node', hnode', halike.rank, .inr ?_⟩
            simp only [Graph.Ordered, not_forall] at hord
            obtain ⟨order, node₀, rfl, hnode₀, hfake, hne⟩ := hord
            rw [hnode, Option.some.injEq] at hnode₀
            subst hnode₀
            exact ⟨order, hw, hne, ho order node' rfl hnode' fun hfake' => hfake (halike.fake.1 hfake')⟩
        · obtain ⟨node', hnode', hlook⟩ := c.stays v.stage hb hnot (List.mem_of_getElem? hx) hxe node hnode
          exact ⟨node', hnode', hlook ▸ Look.led_refl⟩
    exact (v.like hmid).trans (fun _ _ _ _ _ h h' => Look.led_trans h h') like
  · by_cases hxe : edge' = edge
    · subst hxe
      obtain ⟨rfl, rfl⟩ := wf.slot_unique v.stage he he'
      rw [hw, Option.some.injEq] at hw'
      exact .inr (hw' ▸ ho)
    · rcases v.met he' hw' with hmem | hmet
      · refine .inl ((List.mem_cons.1 hmem).resolve_left fun heq => hxe ?_)
        cases heq
        rfl
      · refine .inr fun order node' hwanted hnode' hfake => ?_
        obtain ⟨node, hnode⟩ := wf.tensor v.stage (List.mem_of_getElem? he')
        obtain ⟨x, hx, hlook⟩ := c.stays v.stage hb hnot (List.mem_of_getElem? he') hxe node hnode
        rw [hnode', Option.some.injEq] at hx
        subst hx
        have husage : node'.usage = node.usage := congrArg Look.usage hlook
        exact (congrArg (·.desc.order) hlook).trans (hmet order node hwanted hnode (husage ▸ hfake))

/-- An input edge is given its order. -/
theorem read {state : Permuted × Graph} {here : Bool}
    (v : Visit g₀ b rest site report ((edge, wanted) :: left) permuted g)
    (hb : g₀.Has b) (hnot : b ∉ rest) (he : site.stage.inputs[slot]? = some edge)
    (hw : report.inputs[slot]? = some wanted)
    (h : Graph.orderInput (permuted, g) edge wanted = .ok (state, here)) :
    Visit g₀ b rest site report left state.1 state.2 := by
  obtain ⟨st, calm, ho⟩ := v.toResting.orderInput hb v.stage he (orderInput_eq_ok h)
  refine v.step .input hb hnot he hw st calm ho fun hord => ?_
  obtain ⟨d, node, hedge, hnode⟩ := v.orderly.wellFormed.slots b site.stage .input slot edge v.stage he
  rw [orderInput_of_ordered hedge hnode hord] at h
  cases h
  rfl

/-- An output edge is given its order. -/
theorem write {here : Bool} (v : Visit g₀ b rest site report ((edge, wanted) :: left) permuted g)
    (hb : g₀.Has b) (hnot : b ∉ rest) (hahead : ∀ c, g₀.Feeds b c → c ∈ rest)
    (he : site.stage.outputs[slot]? = some edge) (hw : report.outputs[slot]? = some wanted)
    (h : g.orderOutput edge wanted = .ok (g', here)) : Visit g₀ b rest site report left permuted g' := by
  have wf := v.orderly.wellFormed
  obtain ⟨st, calm, ho⟩ := v.toResting.orderOutput hb hahead v.stage he (orderOutput_eq_ok h)
  refine v.step .output hb hnot he hw st calm ho fun hord => ?_
  obtain ⟨d, node, hedge, hnode⟩ := wf.slots b site.stage .output slot edge v.stage he
  have hfake := wf.written_at v.stage (List.mem_of_getElem? he) hedge hnode
  rw [orderOutput_of_ordered hedge hnode hfake hord] at h
  cases h
  rfl

/-- A visited stage is at rest. -/
theorem done (v : Visit g₀ b rest site report [] permuted g)
    (horders : site.kind.family.orders site = .ok report) : Resting g₀ rest permuted g := by
  refine ⟨v.toOrdering, v.made, v.feeds, v.relays, fun {id site'} hsite' hid => ?_⟩
  by_cases hidb : id = b
  · subst hidb
    refine ⟨report, Site.orders_congr horders (v.like hsite'), fun kind k order d hw hd hfake => ?_⟩
    obtain ⟨edge, x, he, hedge, hnode⟩ := v.orderly.wellFormed.edge_of_slot hsite' hd
    rw [← Option.some.inj (v.stage.symm.trans (site_eq_ok.1 hsite').1)] at he
    have hmet := (v.met he hw).resolve_left List.not_mem_nil
    exact hmet order d rfl (by rw [tensor?_of_target? (target?_of_edge? hedge), hnode]) hfake
  · exact v.rests hsite' (by simp [hidb, hid])

end Visit

/-- The first half of a visit, with some inputs and all outputs left. -/
structure VisitReads (g₀ : Graph) (b : StageId) (rest : List StageId) (site : Site) (report : Report Order)
    (left : List (EdgeId × Option Order)) (state : Permuted × Graph) : Prop where
  visit : Visit g₀ b rest site report (left ++ site.stage.outputs.zip report.outputs) state.1 state.2
  mem : ∀ p ∈ left, p ∈ site.stage.inputs.zip report.inputs

/-- The second half of a visit, with some outputs left. -/
structure VisitWrites (g₀ : Graph) (b : StageId) (rest : List StageId) (site : Site) (report : Report Order)
    (permuted : Permuted) (left : List (EdgeId × Option Order)) (g : Graph) : Prop where
  visit : Visit g₀ b rest site report left permuted g
  mem : ∀ p ∈ left, p ∈ site.stage.outputs.zip report.outputs

section halves

variable {permuted : Permuted} {site : Site} {report : Report Order} {left : List (EdgeId × Option Order)}
  {wanted : Option Order} {here : Bool}

theorem VisitReads.step {state state' : Permuted × Graph}
    (v : VisitReads g₀ b rest site report ((edge, wanted) :: left) state)
    (hb : g₀.Has b) (hnot : b ∉ rest) (h : Graph.orderInput state edge wanted = .ok (state', here)) :
    VisitReads g₀ b rest site report left state' := by
  obtain ⟨k, he, hw⟩ := mem_zip.1 (v.mem (edge, wanted) (by simp))
  exact ⟨v.visit.read hb hnot he hw h, fun p hp => v.mem p (by simp [hp])⟩

theorem VisitWrites.step (v : VisitWrites g₀ b rest site report permuted ((edge, wanted) :: left) g)
    (hb : g₀.Has b) (hnot : b ∉ rest) (hahead : ∀ c, g₀.Feeds b c → c ∈ rest)
    (h : g.orderOutput edge wanted = .ok (g', here)) : VisitWrites g₀ b rest site report permuted left g' := by
  obtain ⟨k, he, hw⟩ := mem_zip.1 (v.mem (edge, wanted) (by simp))
  exact ⟨v.visit.write hb hnot hahead he hw h, fun p hp => v.mem p (by simp [hp])⟩

theorem Resting.reads (st : Resting g₀ (b :: rest) permuted g) (hsite : g.site b = .ok site) :
    VisitReads g₀ b rest site report (site.stage.inputs.zip report.inputs) (permuted, g) :=
  ⟨.start st hsite, fun _ h => h⟩

theorem VisitReads.writes (v : VisitReads g₀ b rest site report [] (permuted, g)) :
    VisitWrites g₀ b rest site report permuted (site.stage.outputs.zip report.outputs) g := ⟨v.visit, fun _ h => h⟩

end halves

/-- A visit brings its stage to rest. -/
theorem Resting.orderStage {permuted : Permuted} {state : Permuted × Graph} {here : Bool}
    (st : Resting g₀ (b :: rest) permuted g) (hb : g₀.Has b) (hnot : b ∉ rest)
    (hahead : ∀ c, g₀.Feeds b c → c ∈ rest) (h : Graph.orderStage (permuted, g) b = .ok (state, here)) :
    Resting g₀ rest state.1 state.2 := by
  simp only [Graph.orderStage, Outcome.bind_eq_ok, Outcome.pure_eq_ok, Prod.mk.injEq] at h
  obtain ⟨site, hsite, report, horders, ⟨⟨permuted₁, g₁⟩, _⟩, hread, ⟨g₂, _⟩, hwrite, rfl, _⟩ := h
  have reads := Pass.sweepWith_keeps (VisitReads g₀ b rest site report) (fun _ _ _ _ _ v h => v.step hb hnot h)
    (st.reads hsite) hread
  have writes := Pass.sweep_keeps (VisitWrites g₀ b rest site report permuted₁)
    (fun _ _ _ _ _ v h => v.step hb hnot hahead h) reads.writes hwrite
  exact writes.visit.done horders

/-! ## The pass -/

/-- When a stage's turn comes in a running order, all it feeds are still to come. -/
theorem WellFormed.ahead {order done : List StageId} (wf : g.WellFormed) (horder : g.runOrder = .ok order)
    (hsplit : order = done ++ b :: rest) : g.Has b ∧ b ∉ rest ∧ ∀ c, g.Feeds b c → c ∈ rest := by
  have hperm := runOrder_perm horder
  have live {id} : id ∈ order ↔ g.Has id := hperm.mem_iff.trans mem_liveIds
  have hnodup : order.Nodup := hperm.nodup_iff.2 nodup_liveIds
  have hdone := List.nodup_append.1 (hsplit ▸ hnodup)
  refine ⟨live.1 (by rw [hsplit]; simp), (List.nodup_cons.1 hdone.2.1).1, fun c hfeeds => ?_⟩
  have hlt := wf.runOrder_lt horder hfeeds
  obtain ⟨d, _, s, hs, _⟩ := hfeeds
  have hc : c ∈ order := live.2 ⟨s, hs⟩
  rw [hsplit] at hc hlt
  rcases List.mem_append.1 hc with hc | hc
  · have hb : b ∉ done := fun hb => hdone.2.2 b hb b (by simp) rfl
    rw [List.idxOf_append_of_mem hc, List.idxOf_append_of_notMem hb] at hlt
    have := List.idxOf_lt_length_of_mem hc
    omega
  · refine (List.mem_cons.1 hc).resolve_left ?_
    rintro rfl
    exact Nat.lt_irrefl _ hlt

/-- Before the first visit everything is pending. -/
theorem Orderly.resting {order : List StageId} (o : g.Orderly) (horder : g.runOrder = .ok order) :
    Resting g order [] g := by
  refine ⟨o.ordering, by simp, fun _ _ h => h, fun hs => .inl ⟨_, hs⟩, fun hsite hid => ?_⟩
  exact absurd ((runOrder_perm horder).mem_iff.2 (mem_liveIds.2 ⟨_, (site_eq_ok.1 hsite).1⟩)) hid

/-- Settling orders brings every stage to rest. -/
theorem WellFormed.dataOrder_atRest {config : Config} {changed : Bool} {site : Site} (wf : g.WellFormed)
    (h : Pass.dataOrder.run config g = .ok (g', changed)) (hsite : g'.site id = .ok site) : site.AtRest := by
  simp only [Pass.dataOrder, Outcome.bind_eq_ok, Outcome.pure_eq_ok, Prod.mk.injEq] at h
  obtain ⟨order, horder, ⟨⟨permuted, g₁⟩, _⟩, h, rfl, _⟩ := h
  obtain ⟨st, _⟩ := Pass.sweepWith_keeps
    (fun pending state => Resting g pending state.1 state.2 ∧ ∃ done, order = done ++ pending)
    (fun b rest _ _ _ hstate hvisit => by
      obtain ⟨st, done, hsplit⟩ := hstate
      obtain ⟨hb, hnot, hahead⟩ := wf.ahead horder hsplit
      exact ⟨st.orderStage hb hnot hahead hvisit, done ++ [b], by simp [hsplit]⟩)
    ⟨(wf.orderly horder).resting horder, [], rfl⟩ h
  exact st.rests hsite List.not_mem_nil

end NetLower.Graph
