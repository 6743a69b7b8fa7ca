/-
Gaps.  A tensor that the network computes has a gap where a stage reads it and no stage
writes it.  Edits put tensors between readers and writers, but every new tensor comes with
its writer, so they neither close a gap nor open one.
-/
import NetLower.Proofs.Graph.Sites

namespace NetLower

/-- Something computed, so that a reader needs a writer: not a constant, a placeholder or what the
caller gives. -/
def Data.Flows (d : Data) : Prop := d.usage = .intermediate ∨ d.usage = .output

namespace Graph

variable {g g' g₁ g₂ : Graph} {kind : EdgeKind} {d x : DataId}

/-- Some stage has the tensor at one of its slots. -/
def Attached (g : Graph) (kind : EdgeKind) (d : DataId) : Prop := ∃ e, g.Joins kind e d

theorem attached_iff_touches : g.Attached kind d ↔ ∃ id, g.Touches kind id d := by
  constructor
  · intro h
    obtain ⟨e, he⟩ := h
    exact he.touches
  · intro h
    obtain ⟨id, ht⟩ := h
    exact ht.joins

/-- Only what flows is written. -/
theorem WellFormed.flows_of_attached (wf : g.WellFormed) {node : Data} (h : g.Attached .output d)
    (hnode : g.data? d = some node) : node.Flows := by
  obtain ⟨e, he⟩ := h
  exact (wf.usage_of_written he hnode).symm

/-! ## What is attached after an edit -/

theorem SameLinks.attached (h : SameLinks g g') : g'.Attached kind d ↔ g.Attached kind d :=
  exists_congr fun _ => h.joins_iff

theorem attached_pushData (node : Data) : (g.pushData node).2.Attached kind d ↔ g.Attached kind d := Iff.rfl

theorem Added.attached {template : StageTemplate} {inputs outputs : List DataId} {z : StageId}
    (h : Added g template inputs outputs z g') (wf : g.WellFormed) :
    g'.Attached kind d ↔ g.Attached kind d ∨ d ∈ slotsOf inputs outputs kind := by
  simp only [attached_iff_touches, h.touches wf, exists_or, exists_eq_left]

/-- Taking a stage out frees what it alone was attached to. -/
theorem Removed.attached {z : StageId} {s : Stage} (h : Removed g z s g') (wf : g.WellFormed) :
    g.Attached kind d ↔ g'.Attached kind d ∨ ∃ e ∈ s.slots kind, g.target? e = some d := by
  constructor
  · intro hd
    obtain ⟨e, he⟩ := hd
    by_cases hmem : e ∈ s.slots kind
    · exact .inr ⟨e, hmem, he.target⟩
    · exact .inl ⟨e, (h.joins wf).2 ⟨he, hmem⟩⟩
  · rintro (⟨e, he⟩ | ⟨e, he, ht⟩)
    · exact ⟨e, ((h.joins wf).1 he).1⟩
    · exact ⟨e, z, s, h.stage, he, ht⟩

section led

variable {e : EdgeId} {r : Edge} {t : DataId}

/-- An edge that leads elsewhere matters to no tensor but the two it leads to. -/
theorem joins_led_of_ne (hedge : g.edge? e = some r) (hstage : ∀ id, g'.stage? id = g.stage? id)
    (htarget : ∀ y, g'.target? y = if y = e then some t else g.target? y) (ht : d ≠ t) (hr : d ≠ r.data) :
    g'.Joins kind y d ↔ g.Joins kind y d := by
  have hy : g'.target? y = some d ↔ g.target? y = some d := by
    rw [htarget]
    split
    next heq =>
      rw [heq, target?_of_edge? hedge]
      simp [ht.symm, hr.symm]
    · rfl
  simp only [Joins, hstage, hy]

/-- Nothing changes in the other direction. -/
theorem WellFormed.joins_led_other (wf : g.WellFormed) (hedge : g.edge? e = some r) (hkind : r.kind ≠ kind)
    (hstage : ∀ id, g'.stage? id = g.stage? id)
    (htarget : ∀ y, g'.target? y = if y = e then some t else g.target? y) :
    g'.Joins kind y d ↔ g.Joins kind y d := by
  refine exists_congr fun id => exists_congr fun s => ?_
  rw [hstage]
  refine and_congr_right fun hs => and_congr_right fun hy => ?_
  obtain ⟨k, d', node, _, hr, _⟩ := wf.edge_of_mem hs hy
  rw [htarget, if_neg]
  rintro rfl
  rw [hedge, Option.some.injEq] at hr
  exact hkind (by rw [hr])

theorem InputLed.attached_output (h : InputLed g e r t g') (wf : g.WellFormed) :
    g'.Attached .output d ↔ g.Attached .output d :=
  exists_congr fun _ => wf.joins_led_other h.edge (by simp [h.kind]) h.stage? h.target?

theorem InputLed.attached_of_ne (h : InputLed g e r t g') (ht : d ≠ t) (hr : d ≠ r.data) :
    g'.Attached kind d ↔ g.Attached kind d :=
  exists_congr fun _ => joins_led_of_ne h.edge h.stage? h.target? ht hr

theorem OutputLed.attached_input (h : OutputLed g e r t g') (wf : g.WellFormed) :
    g'.Attached .input d ↔ g.Attached .input d :=
  exists_congr fun _ => wf.joins_led_other h.edge (by simp [h.kind]) h.stage? h.target?

/-- The writer of one tensor becomes that of another. -/
theorem OutputLed.attached_output (h : OutputLed g e r t g') (wf : g.WellFormed) (he : g.Joins .output e r.data) :
    g'.Attached .output d ↔ d = t ∨ d ≠ r.data ∧ g.Attached .output d := by
  have joins {y : EdgeId} := @WellFormed.joins_led g g' e t wf .output r.data he h.stage? h.target? .output y d
  constructor
  · intro hd
    obtain ⟨y, hy⟩ := hd
    rcases joins.1 hy with ⟨_, _, rfl⟩ | ⟨hne, hy⟩
    · exact .inl rfl
    · refine .inr ⟨fun heq => ?_, y, hy⟩
      subst heq
      exact hne (wf.writer_unique hy he)
  · rintro (rfl | ⟨hne, y, hy⟩)
    · exact ⟨e, joins.2 (.inl ⟨rfl, rfl, rfl⟩)⟩
    · refine ⟨y, joins.2 (.inr ⟨fun heq => ?_, hy⟩)⟩
      subst heq
      exact hne (hy.unique he)

end led

/-! ## Uses that stay -/

/-- The same tensors with the same uses. -/
def SameUses (g g' : Graph) : Prop := ∀ d, (g'.data? d).map Data.usage = (g.data? d).map Data.usage

theorem SameUses.trans (h : SameUses g g₁) (h' : SameUses g₁ g₂) : SameUses g g₂ :=
  fun d => (h' d).trans (h d)

theorem SameLooks.sameUses (h : SameLooks g g') : SameUses g g' := by
  intro d
  have := congrArg (Option.map Look.usage) (h d)
  rwa [Option.map_map, Option.map_map] at this

theorem SameLinks.sameUses (h : SameLinks g g') : SameUses g g' := by
  intro d
  have := congrArg (Option.map Prod.fst) (h.data? d)
  rwa [Option.map_map, Option.map_map] at this

theorem SameUses.data_of (h : SameUses g g') {node : Data} (hd : g.data? d = some node) :
    ∃ node', g'.data? d = some node' ∧ node'.usage = node.usage := by
  have := h d
  rwa [hd, Option.map_some, Option.map_eq_some_iff] at this

theorem SameUses.symm (h : SameUses g g') : SameUses g' g := fun d => (h d).symm

/-! ## Gaps that stay -/

/-- The same gaps: tensors that were there are written if they were, and those that are not are read
if they were; a new tensor that flows is written. -/
structure SameGaps (g g' : Graph) : Prop where
  kept : ∀ d node, g.data? d = some node → ∃ node', g'.data? d = some node' ∧ node'.usage = node.usage
  written : ∀ d node, g.data? d = some node → (g'.Attached .output d ↔ g.Attached .output d)
  read : ∀ d node, g.data? d = some node → node.Flows → ¬ g.Attached .output d →
    (g'.Attached .input d ↔ g.Attached .input d)
  new : ∀ d node, g.data? d = none → g'.data? d = some node → node.Flows → g'.Attached .output d

namespace SameGaps

theorem refl : SameGaps g g := by
  refine ⟨fun _ node hnode => ⟨node, hnode, rfl⟩, fun _ _ _ => Iff.rfl, fun _ _ _ _ _ => Iff.rfl, ?_⟩
  intro d node hnone hnode
  rw [hnone] at hnode
  cases hnode

theorem trans (h : SameGaps g g₁) (h' : SameGaps g₁ g₂) : SameGaps g g₂ := by
  refine ⟨fun d node hnode => ?_, fun d node hnode => ?_, fun d node hnode hflows hgap => ?_,
    fun d node hnone hnode hflows => ?_⟩
  · obtain ⟨node₁, hnode₁, husage₁⟩ := h.kept d node hnode
    obtain ⟨node₂, hnode₂, husage₂⟩ := h'.kept d node₁ hnode₁
    exact ⟨node₂, hnode₂, husage₂.trans husage₁⟩
  · obtain ⟨node₁, hnode₁, _⟩ := h.kept d node hnode
    exact (h'.written d node₁ hnode₁).trans (h.written d node hnode)
  · obtain ⟨node₁, hnode₁, husage₁⟩ := h.kept d node hnode
    have hflows₁ : node₁.Flows := by rwa [Data.Flows, husage₁]
    have hgap₁ : ¬ g₁.Attached .output d := fun hw => hgap ((h.written d node hnode).1 hw)
    exact (h'.read d node₁ hnode₁ hflows₁ hgap₁).trans (h.read d node hnode hflows hgap)
  · cases hd : g₁.data? d with
    | none => exact h'.new d node hd hnode hflows
    | some node₁ =>
      obtain ⟨node₂, hnode₂, husage₂⟩ := h'.kept d node₁ hd
      rw [hnode, Option.some.injEq] at hnode₂
      subst hnode₂
      refine (h'.written d node₁ hd).2 (h.new d node₁ hnone hd ?_)
      rwa [Data.Flows, ← husage₂]

/-- No tensor is new. -/
theorem of_sameUses (uses : SameUses g g') (hwritten : ∀ d, g'.Attached .output d ↔ g.Attached .output d)
    (hread : ∀ d node, g.data? d = some node → node.Flows → ¬ g.Attached .output d →
      (g'.Attached .input d ↔ g.Attached .input d)) : SameGaps g g' := by
  refine ⟨fun _ _ hnode => uses.data_of hnode, fun d _ _ => hwritten d, hread, fun d node hnone hnode => ?_⟩
  obtain ⟨_, hold, _⟩ := uses.symm.data_of hnode
  rw [hnone] at hold
  cases hold

theorem of_sameLinks (h : SameLinks g g') : SameGaps g g' :=
  of_sameUses h.sameUses (fun _ => h.attached) fun _ _ _ _ _ => h.attached

/-- One tensor is new, and written if it flows. -/
theorem of_pushData {new : Data} (uses : SameUses (g.pushData new).2 g')
    (hwritten : ∀ d node, g.data? d = some node → (g'.Attached .output d ↔ g.Attached .output d))
    (hread : ∀ d node, g.data? d = some node → node.Flows → ¬ g.Attached .output d →
      (g'.Attached .input d ↔ g.Attached .input d))
    (hnew : new.Flows → g'.Attached .output (g.pushData new).1) : SameGaps g g' := by
  refine ⟨fun d node hnode => uses.data_of (data?_pushData_old hnode), hwritten, hread,
    fun d node hnone hnode => ?_⟩
  obtain ⟨old, hold, husage⟩ := uses.symm.data_of hnode
  rw [data?_pushData, hnone, Option.ite_none_right_eq_some] at hold
  obtain ⟨rfl, hold⟩ := hold
  rw [Option.some.injEq] at hold
  subst hold
  rw [Data.Flows, ← husage]
  exact hnew

theorem pushData {new : Data} (hnew : ¬ new.Flows) : SameGaps g (g.pushData new).2 :=
  of_pushData (fun _ => rfl) (fun _ _ _ => Iff.rfl) (fun _ _ _ _ _ => Iff.rfl) fun hflows => absurd hflows hnew

end SameGaps

/-! ## Edits that add and lead -/

section splice

variable {template : StageTemplate} {z b : StageId} {e : EdgeId} {r : Edge} {t : DataId} {new : Data}

/-- A reader moves to a tensor that is written if it flows, and leaves one that does not flow or has
another reader. -/
theorem SameGaps.inputLed (h : InputLed g e r t g') (wf : g.WellFormed) (he : g.Joins .input e r.data)
    (hold : (∀ node, g.data? r.data = some node → ¬ node.Flows) ∨ ∃ y, y ≠ e ∧ g.Joins .input y r.data)
    (ht : ∀ node, g.data? t = some node → node.Flows → g.Attached .output t) : SameGaps g g' := by
  refine of_sameUses h.sameLooks.sameUses (fun _ => h.attached_output wf) fun d node hnode hflows hgap => ?_
  have hdt : d ≠ t := by
    intro heq
    subst heq
    exact hgap (ht node hnode hflows)
  by_cases hd : d = r.data
  · subst hd
    rcases hold with hold | ⟨y, hne, hy⟩
    · exact absurd hflows (hold node hnode)
    · exact iff_of_true ⟨y, hy.inputLed wf h he hne⟩ ⟨y, hy⟩
  · exact h.attached_of_ne hdt hd

/-- A reader moves to the copy that a relay makes. -/
theorem SameGaps.relayed {s : Stage} (wf : g.WellFormed) (R : Relay g z d t) (h : InputLed g e r t g')
    (hs : g.stage? b = some s) (he : e ∈ s.inputs) (hd : r.data = d) (hb : b ≠ z) : SameGaps g g' := by
  have hj : g.Joins .input e r.data := ⟨b, s, hs, he, target?_of_edge? h.edge⟩
  refine .inputLed h wf hj (.inr ?_) fun _ _ _ => R.writes.joins
  obtain ⟨s', hs', y, hy, hty⟩ := R.reads
  refine ⟨y, fun heq => ?_, z, s', hs', hy, hd ▸ hty⟩
  subst heq
  exact hb (wf.owner_unique hs (show y ∈ s.slots .input from he) hs' hy).1

/-- A copy is made of a tensor that has a reader. -/
theorem SameGaps.addRelay (wf : g.WellFormed) (hc : new.consumers = []) (hp : new.producer = none)
    (h : Added (g.pushData new).2 template [d] [(g.pushData new).1] z g') (hd : g.Attached .input d) :
    SameGaps g g' := by
  have wf₁ := wf.pushData hc hp
  refine of_pushData h.sameLooks.sameUses (fun x node hnode => ?_) (fun x node hnode _ _ => ?_) fun _ => ?_
  · rw [h.attached wf₁, attached_pushData, slotsOf, List.mem_singleton]
    exact or_iff_left (ne_pushData hnode)
  · rw [h.attached wf₁, attached_pushData, slotsOf, List.mem_singleton]
    refine or_iff_left_of_imp fun heq => ?_
    subst heq
    exact hd
  · rw [h.attached wf₁, slotsOf, List.mem_singleton]
    exact .inr rfl

/-- A relay is put before a reader. -/
theorem SameGaps.tap {s : Stage} (o : g.Orderly) (hc : new.consumers = []) (hp : new.producer = none)
    (h : Added (g.pushData new).2 template [d] [(g.pushData new).1] z g₁)
    (h' : InputLed g₁ e r (g.pushData new).1 g') (hs : g.stage? b = some s) (he : e ∈ s.inputs)
    (hd : g.target? e = some d) : SameGaps g g' := by
  obtain ⟨node, hnode⟩ := o.wellFormed.data_of_joins ⟨b, s, hs, show e ∈ s.slots .input from he, hd⟩
  obtain ⟨o₁, R⟩ := o.relayNew hc hp h ⟨node, hnode⟩
  have hedge : g.edge? e = some r := by
    obtain ⟨r₀, hr₀, _⟩ := Option.map_eq_some_iff.1 hd
    have hr := h'.edge
    rw [h.edge? e r₀ hr₀, Option.some.injEq] at hr
    exact hr ▸ hr₀
  have hdata : r.data = d := by
    rw [target?_of_edge? hedge, Option.some.injEq] at hd
    exact hd
  obtain ⟨hne, hs₁⟩ := h.stage?_of_old (show (g.pushData new).2.stage? b = some s from hs)
  refine (SameGaps.addRelay o.wellFormed hc hp h ⟨e, b, s, hs, he, hd⟩).trans ?_
  exact .relayed o₁.wellFormed R h' hs₁ he hdata hne

/-- A relay is put behind a writer. In between, readers of the tensor may move to the new one. -/
theorem SameGaps.buffer (wf : g.WellFormed) (hc : new.consumers = []) (hp : new.producer = none)
    (h : OutputLed (g.pushData new).2 e r (g.pushData new).1 g₁) (he : g.Joins .output e r.data)
    (wf₂ : g₂.WellFormed) (uses : SameUses g₁ g₂)
    (hwritten : ∀ x, g₂.Attached .output x ↔ g₁.Attached .output x)
    (hread : ∀ x, x ≠ (g.pushData new).1 → x ≠ r.data → (g₂.Attached .input x ↔ g₁.Attached .input x))
    (ha : Added g₂ template [(g.pushData new).1] [r.data] z g') : SameGaps g g' := by
  have wf₁ := wf.pushData hc hp
  have diverted (x : DataId) : g₂.Attached .output x ↔
      x = (g.pushData new).1 ∨ x ≠ r.data ∧ g.Attached .output x := by
    rw [hwritten, h.attached_output wf₁ he, attached_pushData]
  refine of_pushData ((h.sameLooks.sameUses.trans uses).trans ha.sameLooks.sameUses) (fun x node hnode => ?_)
    (fun x node hnode _ hgap => ?_) fun _ => ?_
  · rw [ha.attached wf₂, diverted, slotsOf, List.mem_singleton, or_iff_right (ne_pushData hnode)]
    by_cases hx : x = r.data
    · subst hx
      exact iff_of_true (.inr rfl) ⟨e, he⟩
    · simp [hx]
  · have hx : x ≠ r.data := by
      intro heq
      subst heq
      exact hgap ⟨e, he⟩
    have hnew : x ≠ (g.pushData new).1 := ne_pushData hnode
    rw [ha.attached wf₂, slotsOf, List.mem_singleton, or_iff_left hnew, hread x hnew hx, h.attached_input wf₁,
      attached_pushData]
  · rw [ha.attached wf₂, diverted]
    exact .inl (.inl rfl)

end splice

end Graph

end NetLower
