/-
The scales that propagation leaves.  An output of the network that ended up scaled is
scaled back by an affine power, and all that wrote or read it moves to a tensor in its
stead.  Read through those stand-ins, every edge still leads to what it led to, so the
scales that the visits brought to the inputs of a stage are the ones found there at the end.
-/
import NetLower.Proofs.Network.Scales
import NetLower.Proofs.Pass.ScaleVisits

namespace NetLower.Graph

variable {g₀ mid g g' : Graph} {scales : Scales} {o t d : DataId} {z : StageId} {e : EdgeId} {kind : EdgeKind}
  {factor : F32} {changed : Bool}

/-! ## Scaling back an output -/

theorem mem_datasUsed {usage : Usage} :
    d ∈ g.datasUsed usage ↔ ∃ node, g.data? d = some node ∧ node.usage = usage := by
  simp only [datasUsed, List.mem_filterMap, Prod.exists, List.mem_zipIdx_iff_getElem?, Array.getElem?_toList]
  constructor
  · intro h
    obtain ⟨node, index, hnode, h⟩ := h
    split at h
    next husage =>
      cases h
      exact ⟨node, hnode, husage⟩
    · cases h
  · intro h
    obtain ⟨node, hnode, husage⟩ := h
    exact ⟨node, d.index, hnode, by rw [if_pos husage]⟩

theorem nodup_datasUsed (g : Graph) (usage : Usage) : (g.datasUsed usage).Nodup := by
  have hindex : (g.datas.toList.zipIdx.map Prod.snd).Nodup := by
    rw [List.zipIdx_map_snd]
    exact List.nodup_range'
  rw [datasUsed, List.Nodup, List.pairwise_filterMap]
  refine (List.pairwise_map.1 hindex).imp fun {a a'} hne b hb b' hb' heq => hne ?_
  have hd : b = ⟨a.2⟩ := by grind
  have hd' : b' = ⟨a'.2⟩ := by grind
  exact DataId.mk.inj (hd.symm.trans (heq.trans hd'))

/-- Moving edges to one tensor changes where those edges lead and nothing else. -/
theorem moveAll_links {readers : List EdgeId}
    (h : readers.foldlM (fun g edge => g.replaceInput edge t) g = .ok g') :
    (∀ id, g'.stage? id = g.stage? id) ∧ (∀ x, g'.target? x = if x ∈ readers then some t else g.target? x) ∧
      ∀ d, (g'.data? d).isSome = (g.data? d).isSome := by
  induction readers generalizing g with
  | nil =>
    cases h
    exact ⟨fun _ => rfl, fun _ => rfl, fun _ => rfl⟩
  | cons edge readers ih =>
    rw [List.foldlM_cons, Outcome.bind_eq_ok] at h
    obtain ⟨g₁, hmove, h⟩ := h
    obtain ⟨r, hled⟩ := replaceInput_led hmove
    obtain ⟨hstage, htarget, hdata⟩ := ih h
    refine ⟨fun id => (hstage id).trans (hled.stage? id), fun x => ?_, fun d => ?_⟩
    · rw [htarget, hled.target?]
      by_cases hx : x = edge <;> simp [hx]
    · rw [hdata, hled.data?, Option.isSome_map]

/-- An output is written by a new stage from a new tensor, and whatever led to the output leads to
that tensor. -/
structure Descaled (g : Graph) (o t : DataId) (z : StageId) (factor : F32) (g' : Graph) : Prop where
  fresh : g.data? t = none
  data_old : ∀ d node, g'.data? d = some node → d = t ∨ ∃ node₀, g.data? d = some node₀
  new : g.stage? z = none
  stage? : ∀ id, id ≠ z → g'.stage? id = g.stage? id
  targets : ∀ kind e d, g.Joins kind e d → g'.target? e = some (if d = o then t else d)
  rescales : g'.Rescales z t o factor

theorem WellFormed.descaleOutput (wf : g.WellFormed) (h : Graph.descaleOutput scales g o = .ok (g', changed)) :
    g' = g ∧ ((∀ e, ¬ g.Joins .output e o) ∨ (scales.get o).numEq F32.one = true) ∨
      ∃ t z, Descaled g o t z (F32.one / scales.get o) g' := by
  obtain ⟨node, hnode, ⟨rfl, hreason⟩ | ⟨new, edge, r, node₁, name, attrs, z, g₁, g₂, hproducer, rfl, hled, hnode₁,
    hmove, hattrs, hadd⟩⟩ := descaleOutput_cases h
  · refine .inl ⟨rfl, hreason.imp_left fun hnone e hj => ?_⟩
    simp [(wf.producer o node e hnode).2 hj] at hnone
  obtain ⟨hstage, htarget, hdata⟩ := moveAll_links hmove
  set t := (g.pushData (intermediate (node.name ++ "@scaled") node.desc)).1
  refine .inr ⟨t, z, data?_fresh _ _, ?_, ?_, ?_, ?_, hadd.rescales hattrs⟩
  · intro d node' hd
    have hd' : ((g.pushData (intermediate (node.name ++ "@scaled") node.desc)).2.data? d).isSome = true := by
      rw [← Option.isSome_map, ← hled.data?, ← hdata, ← Option.isSome_map, ← hadd.data?, hd]
      rfl
    rw [data?_pushData] at hd'
    split at hd'
    next heq => exact .inl heq
    · exact .inr (Option.isSome_iff_exists.1 hd')
  · cases hz : g.stage? z with
    | none => rfl
    | some s => exact absurd rfl (hadd.stage?_of_old ((hstage z).trans ((hled.stage? z).trans hz))).1
  · intro id hid
    rw [hadd.stage?, if_neg hid, hstage, hled.stage?]
    rfl
  · intro kind e d hj
    -- The readers of the output are still those of `g` once its writer has moved.
    have hreaders : node₁.consumers = node.consumers := by
      rw [hled.data?, data?_pushData_old hnode, Option.map_some, Option.some.injEq] at hnode₁
      rw [← hnode₁]
    have hwriter : g.Joins .output edge o := (wf.producer o node edge hnode).1 hproducer
    have hmoved : g₂.target? e = some (if d = o then t else d) := by
      rw [htarget, hreaders, hled.target?]
      split
      next hread => rw [if_pos (hj.unique ((wf.consumers o node e hnode).1 hread))]
      next hread =>
        split
        next heq => rw [if_pos (hj.unique (heq ▸ hwriter))]
        next hne =>
          rw [if_neg]
          · exact hj.target
          · rintro rfl
            cases kind with
            | input => exact hread ((wf.consumers d node e hnode).2 hj)
            | output => exact hne (wf.writer_unique hj hwriter)
    obtain ⟨re, hre, hlead⟩ := Option.map_eq_some_iff.1 hmoved
    rw [target?_of_edge? (hadd.edge? e re hre), hlead]

namespace Descaled

theorem stage_old {id : StageId} {s : Stage} (h : Descaled g o t z factor g') (hs : g.stage? id = some s) :
    g'.stage? id = some s := by
  rw [h.stage? id, hs]
  rintro rfl
  simp [h.new] at hs

theorem joins_old (h : Descaled g o t z factor g') (hj : g.Joins kind e d) :
    g'.Joins kind e (if d = o then t else d) := by
  have ht := h.targets kind e d hj
  obtain ⟨id, s, hs, he, _⟩ := hj
  exact ⟨id, s, h.stage_old hs, he, ht⟩

/-- Nothing but the new stage leads to the output any more. -/
theorem joins_cases (h : Descaled g o t z factor g') (wf : g.WellFormed) (hj : g'.Joins kind e d) :
    (∃ d₀, g.Joins kind e d₀ ∧ d = if d₀ = o then t else d₀) ∨ kind = .input ∧ d = t ∨ kind = .output ∧ d = o := by
  obtain ⟨id, s, hs, he, ht⟩ := hj
  by_cases hz : id = z
  · obtain ⟨s', e₁, e₂, hs', _, hin, hout, ht₁, ht₂, _⟩ := h.rescales
    rw [← hz, hs, Option.some.injEq] at hs'
    subst hs'
    cases kind with
    | input =>
      obtain rfl : e = e₁ := by simpa [Stage.slots, hin] using he
      exact .inr (.inl ⟨rfl, Option.some.inj (ht.symm.trans ht₁)⟩)
    | output =>
      obtain rfl : e = e₂ := by simpa [Stage.slots, hout] using he
      exact .inr (.inr ⟨rfl, Option.some.inj (ht.symm.trans ht₂)⟩)
  · rw [h.stage? id hz] at hs
    obtain ⟨k, d₀, _, _, hedge, _⟩ := wf.edge_of_mem hs he
    have hj₀ : g.Joins kind e d₀ := ⟨id, s, hs, he, target?_of_edge? hedge⟩
    exact .inl ⟨d₀, hj₀, Option.some.inj (ht.symm.trans (h.targets kind e d₀ hj₀))⟩

/-- A stage that rescales tensors other than the output still does. -/
theorem rescales_old {z' : StageId} {source target : DataId} {factor' : F32} (h : Descaled g o t z factor g')
    (hr : g.Rescales z' source target factor') (hsource : source ≠ o) (htarget : target ≠ o) :
    g'.Rescales z' source target factor' := by
  have hstage : g'.stage? z' = g.stage? z' := by
    obtain ⟨s, _, _, hs, _⟩ := hr
    rw [hs, h.stage_old hs]
  refine hr.congr hstage (fun s e hs he ht => ?_) fun s e hs he ht => ?_
  · rw [h.targets .input e source ⟨z', s, hs, he, ht⟩, if_neg hsource]
  · rw [h.targets .output e target ⟨z', s, hs, he, ht⟩, if_neg htarget]

end Descaled

/-! ## Scaling back all outputs -/

/-- An output is written by an affine power that divides by its scale; what wrote it and all that
read it moved to the tensor that the power reads. -/
def WrittenBack (scales : Scales) (mid : Graph) (stands : DataId → DataId) (g : Graph) (o : DataId) : Prop :=
  ∃ z t e, stands t = o ∧ g.Rescales z t o (F32.one / scales.get o) ∧ mid.Joins .output e o ∧ g.Joins .output e t ∧
    (∀ x, mid.Joins .input x o → g.Joins .input x t) ∧ ∀ x, ¬ g.Joins .input x o

/-- A tensor that was put in for an output behind us, which a stage writes from it. -/
structure StandsIn (scales : Scales) (mid : Graph) (stands : DataId → DataId) (rest : List DataId) (g : Graph)
    (t : DataId) (z : StageId) : Prop where
  new : mid.data? t = none
  done : stands t ∉ rest
  output : ∃ node, mid.data? (stands t) = some node ∧ node.usage = .output
  rescales : g.Rescales z t (stands t) (F32.one / scales.get (stands t))

/-- Between two outputs: an edge leads to what it led to, or to a tensor that stands for it. -/
structure Restored (scales : Scales) (mid : Graph) (stands : DataId → DataId) (rest : List DataId) (g : Graph) :
    Prop where
  orderly : g.Orderly
  tensors : ∀ d node, mid.data? d = some node → stands d = d ∧ ∃ node', g.data? d = some node'
  stages : ∀ z s, mid.stage? z = some s → g.stage? z = some s
  leads : ∀ kind e d, mid.Joins kind e d → ∃ d', g.target? e = some d' ∧ stands d' = d ∧ (d ∈ rest → d' = d)
  added : ∀ z s, g.stage? z = some s → mid.stage? z = some s ∨ ∃ t, StandsIn scales mid stands rest g t z
  put : ∀ d node, g.data? d = some node → (∃ node₀, mid.data? d = some node₀) ∨
    ∃ z, StandsIn scales mid stands rest g d z
  outputs : ∀ o node, mid.data? o = some node → node.usage = .output → o ∉ rest →
    (scales.get o).numEq F32.one = false → WrittenBack scales mid stands g o

variable {stands : DataId → DataId} {rest : List DataId} {node : Data}

/-- A tensor goes on standing for an output when another one is scaled back. -/
theorem StandsIn.step {t' : DataId} {z' : StageId} {stands' : DataId → DataId}
    (h : StandsIn scales mid stands (o :: rest) g t' z') (ho : mid.data? o = some node) (wf : g.WellFormed)
    (hd : Descaled g o t z factor g') (hstands : ∀ d node, g.data? d = some node → stands' d = stands d) :
    StandsIn scales mid stands' rest g' t' z' := by
  obtain ⟨hnew, hdone, houtput, hr⟩ := h
  rw [List.mem_cons, not_or] at hdone
  have hne : t' ≠ o := by
    rintro rfl
    simp [hnew] at ho
  have hsame : stands' t' = stands t' := by
    obtain ⟨s, e, _, hs, _, hin, _, ht, _⟩ := hr
    obtain ⟨node', hnode'⟩ := wf.data_of_joins
      ⟨z', s, hs, (show e ∈ s.slots .input by simp [Stage.slots, hin]), ht⟩
    exact hstands t' node' hnode'
  refine ⟨hnew, ?_, ?_, ?_⟩
  · exact hsame ▸ hdone.2
  · exact hsame ▸ houtput
  · rw [hsame]
    exact hd.rescales_old hr hne hdone.1

theorem StandsIn.mono (h : StandsIn scales mid stands (o :: rest) g t z) : StandsIn scales mid stands rest g t z :=
  ⟨h.new, fun ht => h.done (by simp [ht]), h.output, h.rescales⟩

namespace Restored

theorem joins (p : Restored scales mid stands (o :: rest) g) (hj : mid.Joins kind e o) : g.Joins kind e o := by
  obtain ⟨d', ht, _, heq⟩ := p.leads kind e o hj
  obtain ⟨id, s, hs, he, _⟩ := hj
  exact ⟨id, s, p.stages id s hs, he, heq (by simp) ▸ ht⟩

/-- An output that stays is one that nothing writes or that is not scaled. -/
theorem skip (p : Restored scales mid stands (o :: rest) g)
    (hscaled : (scales.get o).numEq F32.one = false → ∃ e, mid.Joins .output e o)
    (hreason : (∀ e, ¬ g.Joins .output e o) ∨ (scales.get o).numEq F32.one = true) :
    Restored scales mid stands rest g := by
  refine ⟨p.orderly, p.tensors, p.stages, fun kind e d hj => ?_, fun z s hs => ?_, fun d node hd => ?_,
    fun o' node ho husage hrest hscale => ?_⟩
  · obtain ⟨d', ht, hstands, heq⟩ := p.leads kind e d hj
    exact ⟨d', ht, hstands, fun hd => heq (by simp [hd])⟩
  · exact (p.added z s hs).imp_right fun ⟨t, h⟩ => ⟨t, h.mono⟩
  · exact (p.put d node hd).imp_right fun ⟨z, h⟩ => ⟨z, h.mono⟩
  · by_cases heq : o' = o
    · subst heq
      obtain ⟨e, hj⟩ := hscaled hscale
      rcases hreason with hnone | hone
      · exact absurd (p.joins hj) (hnone e)
      · simp [hone] at hscale
    · exact p.outputs o' node ho husage (by simp [heq, hrest]) hscale

/-- An output that is already written back is not affected by another one. -/
theorem writtenBack {o' : DataId} {stands' : DataId → DataId} (h : Descaled g o t z factor g') (wf : g.WellFormed)
    (hstands : ∀ d node, g.data? d = some node → stands' d = stands d) (ho : stands o = o)
    (ho' : ∃ node, g.data? o' = some node) (hne : o' ≠ o) (hback : WrittenBack scales mid stands g o') :
    WrittenBack scales mid stands' g' o' := by
  obtain ⟨z', t', e', ht', hr, hwrote, hwriter, hreaders, hnone⟩ := hback
  have htne : t' ≠ o := by
    rintro rfl
    exact hne (ht'.symm.trans ho)
  obtain ⟨node', hnode'⟩ := wf.data_of_joins hwriter
  refine ⟨z', t', e', (hstands t' node' hnode').trans ht', h.rescales_old hr htne hne, hwrote, ?_, fun x hx => ?_,
    fun x hx => ?_⟩
  · have := h.joins_old hwriter
    rwa [if_neg htne] at this
  · have := h.joins_old (hreaders x hx)
    rwa [if_neg htne] at this
  · obtain ⟨node, hnode⟩ := ho'
    have hfresh : o' ≠ t := by
      rintro rfl
      simp [h.fresh] at hnode
    rcases h.joins_cases wf hx with ⟨d₀, hj, heq⟩ | ⟨_, heq⟩ | ⟨hkind, _⟩
    · split at heq
      · exact hfresh heq
      · exact hnone x (heq ▸ hj)
    · exact hfresh heq
    · cases hkind

/-- The new tensor stands for the output. -/
theorem step (p : Restored scales mid stands (o :: rest) g) (ho : mid.data? o = some node)
    (husage : node.usage = .output) (hrest : o ∉ rest)
    (hscaled : (scales.get o).numEq F32.one = false → ∃ e, mid.Joins .output e o) (o' : g'.Orderly)
    (hkept : g.KeepsTensors g') (h : Descaled g o t z (F32.one / scales.get o) g') :
    Restored scales mid (fun d => if d = t then o else stands d) rest g' := by
  have wf := p.orderly.wellFormed
  have hfresh {d node} (hd : g.data? d = some node) : d ≠ t := by
    rintro rfl
    simp [h.fresh] at hd
  have hmid {d node} (hd : mid.data? d = some node) : d ≠ t := by
    obtain ⟨_, _, hd'⟩ := p.tensors d node hd
    exact hfresh hd'
  have hsame (d node) (hd : g.data? d = some node) : (if d = t then o else stands d) = stands d :=
    if_neg (hfresh hd)
  have hself : stands o = o := (p.tensors o node ho).1
  have standIn : StandsIn scales mid (fun d => if d = t then o else stands d) rest g' t z := by
    refine ⟨?_, by simpa using hrest, ⟨node, by simpa using ho, husage⟩, by simpa using h.rescales⟩
    cases ht : mid.data? t with
    | none => rfl
    | some _ => exact absurd rfl (hmid ht)
  refine ⟨o', fun d node hd => ?_, fun z' s hs => h.stage_old (p.stages z' s hs), fun kind e d hj => ?_,
    fun z' s hs => ?_, fun d node' hd => ?_, fun o₁ node₁ ho₁ husage₁ hnot hscale => ?_⟩
  · obtain ⟨hstands, node', hd'⟩ := p.tensors d node hd
    obtain ⟨node'', hd'', _⟩ := hkept d node' hd'
    exact ⟨(hsame d node' hd').trans hstands, node'', hd''⟩
  · obtain ⟨d', ht, hstands, heq⟩ := p.leads kind e d hj
    obtain ⟨id, s, hs, he, _⟩ := hj
    have hj' : g.Joins kind e d' := ⟨id, s, p.stages id s hs, he, ht⟩
    obtain ⟨node', hnode'⟩ := wf.data_of_joins hj'
    refine ⟨_, h.targets kind e d' hj', ?_⟩
    by_cases hd' : d' = o
    · -- The edge led to the output itself.
      obtain rfl : d = o := by rw [← hstands, hd', hself]
      exact ⟨by simp [hd'], fun hd => absurd hd hrest⟩
    · rw [if_neg hd']
      exact ⟨(hsame d' node' hnode').trans hstands, fun hd => heq (by simp [hd])⟩
  · by_cases hz : z' = z
    · exact .inr ⟨t, hz ▸ standIn⟩
    · rw [h.stage? z' hz] at hs
      exact (p.added z' s hs).imp_right fun ⟨t', h'⟩ => ⟨t', h'.step ho wf h hsame⟩
  · rcases h.data_old d node' hd with rfl | ⟨node₀, hd₀⟩
    · exact .inr ⟨z, standIn⟩
    · exact (p.put d node₀ hd₀).imp_right fun ⟨z', h'⟩ => ⟨z', h'.step ho wf h hsame⟩
  · by_cases heq : o₁ = o
    · subst heq
      obtain ⟨e, hj⟩ := hscaled hscale
      have moved {kind x} (hx : mid.Joins kind x o₁) : g'.Joins kind x t := by
        have := h.joins_old (p.joins hx)
        rwa [if_pos rfl] at this
      refine ⟨z, t, e, by simp, h.rescales, hj, moved hj, fun x hx => moved hx, fun x hx => ?_⟩
      rcases h.joins_cases wf hx with ⟨d₀, _, hd⟩ | ⟨_, hd⟩ | ⟨hkind, _⟩
      · split at hd
        · exact hmid ho hd
        next hne => exact hne hd.symm
      · exact hmid ho hd
      · cases hkind
    · refine writtenBack h wf hsame hself (p.tensors o₁ node₁ ho₁).2 heq ?_
      exact p.outputs o₁ node₁ ho₁ husage₁ (by simp [heq, hnot]) hscale

/-- Scaling back all outputs, one after the other. -/
theorem sweep (o : mid.Orderly) (hscaled : ∀ d, (scales.get d).numEq F32.one = false → ∃ e, mid.Joins .output e d)
    (h : Pass.sweep mid.outputs (Graph.descaleOutput scales) mid = .ok (g, changed)) :
    ∃ stands, Restored scales mid stands [] g := by
  have initial : Restored scales mid (fun d => d) mid.outputs mid := by
    refine ⟨o, fun _ node hd => ⟨rfl, node, hd⟩, fun _ _ hs => hs, fun _ _ d hj =>
      ⟨d, hj.target, rfl, fun _ => rfl⟩, fun _ _ hs => .inl hs, fun _ node hd => .inl ⟨node, hd⟩,
      fun d node hd husage hnot => ?_⟩
    exact absurd (mem_datasUsed.2 ⟨node, hd, husage⟩) hnot
  refine (Pass.sweep_keeps (fun rest g => (∃ stands, Restored scales mid stands rest g) ∧ rest.Nodup ∧
    ∀ d ∈ rest, ∃ node, mid.data? d = some node ∧ node.usage = .output) ?_
    ⟨⟨_, initial⟩, nodup_datasUsed mid .output, fun d hd => mem_datasUsed.1 hd⟩ h).1
  rintro d rest g g' here ⟨⟨stands, p⟩, hnodup, hknown⟩ h
  rw [List.nodup_cons] at hnodup
  refine ⟨?_, hnodup.2, fun x hx => hknown x (by simp [hx])⟩
  rcases p.orderly.wellFormed.descaleOutput h with ⟨rfl, hreason⟩ | ⟨t, z, hd⟩
  · exact ⟨stands, p.skip (hscaled d) hreason⟩
  · obtain ⟨node, hnode, husage⟩ := hknown d (by simp)
    have framed : g.Framed .scale g' := .descaleOutput h
    exact ⟨_, p.step hnode husage hnodup.1 (hscaled d) (p.orderly.descaleOutput h) framed.tensors hd⟩

end Restored

/-! ## The whole pass -/

/-- The books balance: `g` went in, `mid` and `scales` were there when every stage had been visited,
and `g'` came out. A tensor counts with the scale of what it stands for. -/
structure Balanced (g mid g' : Graph) (scales : Scales) (stands : DataId → DataId) : Prop where
  /-- Tensors stand for themselves, but for those put in for outputs. -/
  old : ∀ d node, mid.data? d = some node → stands d = d
  put : ∀ d node, g'.data? d = some node → mid.data? d = none →
    (∃ node', mid.data? (stands d) = some node' ∧ node'.usage = .output) ∧
      ∃ z, g'.Rescales z d (stands d) (F32.one / scales.get (stands d))
  asked : ∀ d, g.Asked (scales.get d)
  /-- A power that is not affine reads unscaled values. -/
  curved : ∀ id s p d, g.stage? id = some s → s.kind = .power → s.attrs.getFloat .power = .ok p →
    p.numEq F32.one = false → g'.Touches .input id d → scales.get (stands d) = F32.one
  /-- All inputs of a concatenation have one scale. -/
  joined : ∀ id s, g'.stage? id = some s → s.kind = .concat →
    ∃ c, ∀ d, g'.Touches .input id d → scales.get (stands d) = c
  /-- What visits put in turns one scale into another. -/
  inserted : ∀ z s, mid.stage? z = some s → g.stage? z = none →
    ∃ source target, g'.Rescales z source target (scales.get (stands target) / scales.get (stands source))
  /-- A scaled output is scaled back; its writer and its readers moved to the tensor in its stead. -/
  outputs : ∀ o node, g.data? o = some node → node.usage = .output → (scales.get o).numEq F32.one = false →
    ∃ z t e, stands t = o ∧ g'.Rescales z t o (F32.one / scales.get o) ∧ g.Joins .output e o ∧
      g'.Joins .output e t ∧ (∀ x, mid.Joins .input x o → g'.Joins .input x t) ∧ ∀ x, ¬ g'.Joins .input x o

section whole

variable {stands : DataId → DataId} {id : StageId} {s : Stage} {node : Data}

theorem kind_of_rescales {source target : DataId} (h : g.Rescales z source target factor)
    (hs : g.stage? z = some s) : s.kind = .power := by
  obtain ⟨s', _, _, hs', hkind, _⟩ := h
  rw [hs, Option.some.injEq] at hs'
  exact hs' ▸ hkind

/-- What was put in writes no output of the network. -/
theorem ScalesPassed.joins_output (p : ScalesPassed g₀ [] (scales, mid)) (hnode : mid.data? o = some node)
    (husage : node.usage = .output) (hj : mid.Joins .output e o) : g₀.Joins .output e o := by
  obtain ⟨z, s, hs, he, ht⟩ := hj
  rcases p.new z s hs with ⟨s₀, hs₀⟩ | ⟨source, target, node', hr, _, _, hnode', husage'⟩
  · obtain ⟨s', hs', kept⟩ := p.noted.framed.stages z s₀ hs₀
    rw [hs, Option.some.injEq] at hs'
    subst hs'
    have he₀ : e ∈ s₀.slots .output := congrFun kept.slots .output ▸ he
    exact ⟨z, s₀, hs₀, he₀, p.noted.outputs z s₀ e hs₀ he₀ ▸ ht⟩
  · obtain ⟨s', _, e', hs', _, _, hout, _, htarget, _⟩ := hr
    rw [hs, Option.some.injEq] at hs'
    subst hs'
    obtain rfl : e = e' := by simpa [Stage.slots, hout] using he
    rw [ht, Option.some.injEq] at htarget
    subst htarget
    rw [hnode, Option.some.injEq] at hnode'
    simp [← hnode', husage] at husage'

/-- The scale that a stage of the original graph reads through an edge is the one it was brought to. -/
theorem Restored.read (r : Restored scales mid stands [] g') (p : ScalesPassed g₀ [] (scales, mid))
    (hs : g₀.stage? id = some s) (hd : g'.Touches .input id d) :
    ∃ e ∈ s.inputs, scaleAt (scales, mid) e = some (scales.get (stands d)) := by
  obtain ⟨s₁, hs₁, kept⟩ := p.noted.framed.stages id s hs
  obtain ⟨s₂, hs₂, e, he, ht⟩ := hd
  rw [r.stages id s₁ hs₁, Option.some.injEq] at hs₂
  subst hs₂
  obtain ⟨_, d₀, _, _, hedge, _⟩ := p.noted.orderly.wellFormed.edge_of_mem hs₁ he
  have ht₀ : mid.target? e = some d₀ := target?_of_edge? hedge
  obtain ⟨d', ht', hstands, _⟩ := r.leads .input e d₀ ⟨id, s₁, hs₁, he, ht₀⟩
  rw [ht, Option.some.injEq] at ht'
  refine ⟨e, (show s₁.inputs = s.inputs from congrFun kept.slots .input) ▸ he, ?_⟩
  rw [scaleAt, ht₀, ht', hstands]
  rfl

/-- Powers that pass the first check read one tensor. -/
theorem inputs_of_initialCheck {config : Config} {checked : Bool}
    (h : Pass.initialCheck.run config g = .ok (g', checked)) (hs : g.stage? id = some s)
    (hkind : s.kind = .power) : ∃ e, s.inputs = [e] := by
  obtain ⟨_, order, horder, hall⟩ := Pass.checkAll_eq_ok h
  obtain ⟨site, hsite, hcheck⟩ := hall id ((runOrder_perm horder).mem_iff.2 (mem_liveIds.2 ⟨s, hs⟩))
  obtain rfl : site.stage = s := Option.some.inj ((site_eq_ok.1 hsite).1.symm.trans hs)
  rw [show site.kind = .power from hkind] at hcheck
  simp only [StageKind.family, StageFamily.initialCheck, Outcome.check_bind_eq_ok] at hcheck
  obtain ⟨hunary, _⟩ := Site.checkUnary_eq_ok.1 hcheck.1
  exact List.length_eq_one_iff.1 ((length_of_site hsite .input).symm.trans hunary.inputs)

/-- Scale propagation keeps its books: whatever a stage was brought to is what it reads in the end. -/
theorem WellFormed.scales_balanced {config : Config} {checked : Bool} (wf : g.WellFormed)
    (hcheck : Pass.initialCheck.run config g = .ok (g, checked))
    (hpos : ∀ id s x, g.stage? id = some s → s.attrs.getFloat .scaleFactor = .ok x → x.isPositive = true)
    (hconfig : config.hwOptimization = true) (h : Pass.scalePropagation.run config g = .ok (g', changed)) :
    ∃ order scales mid passed stands, g.runOrder = .ok order ∧
      Pass.sweepWith order scaleStage ([], g) = .ok ((scales, mid), passed) ∧ Balanced g mid g' scales stands := by
  simp only [Pass.scalePropagation, hconfig, if_true, propagateScales, Outcome.bind_eq_ok, Outcome.pure_eq_ok,
    Prod.mk.injEq] at h
  obtain ⟨order, horder, ⟨⟨scales, mid⟩, passed⟩, hvisits, ⟨_, _⟩, houtputs, rfl, _⟩ := h
  have hasked (x) (hx : g.Asked x) : x.isPositive = true := by
    rcases hx with rfl | ⟨id, s, hs, hx⟩
    · decide
    · exact hpos id s x hs hx
  have p := ScalesPassed.sweep (wf.orderly horder) hasked horder hvisits
  have hwritten (d) (hd : (scales.get d).numEq F32.one = false) : ∃ e, mid.Joins .output e d := by
    refine (p.noted.written d).resolve_left fun hone => ?_
    rw [show scales.get d = F32.one from hone] at hd
    exact absurd hd (by decide)
  obtain ⟨stands, r⟩ := Restored.sweep p.noted.orderly hwritten houtputs
  refine ⟨order, scales, mid, passed, stands, horder, hvisits, fun d node hd => (r.tensors d node hd).1,
    fun d node hd hnew => ?_, p.noted.asked, fun id s power d hs hkind hpower hcurved hd => ?_,
    fun id s hs hkind => ?_, fun z s hs hnew => ?_, fun o node ho husage hscale => ?_⟩
  · rcases r.put d node hd with ⟨_, hold⟩ | ⟨z, hz⟩
    · simp [hnew] at hold
    · exact ⟨hz.output, z, hz.rescales⟩
  · obtain ⟨e, he, hread⟩ := r.read p hs hd
    obtain ⟨e', hinputs⟩ := inputs_of_initialCheck hcheck hs hkind
    obtain ⟨suit, _⟩ := p.served id s hs (by simp)
    obtain rfl : e = e' := by simpa [hinputs] using he
    have := suit.curved hkind power hpower hcurved e (by simp [hinputs])
    rw [hread, Option.some.injEq] at this
    exact this
  · -- A concatenation is none of the stages put in, which are powers.
    have hmid : mid.stage? id = some s := (r.added id s hs).resolve_right fun hput => by
      obtain ⟨t, ht⟩ := hput
      simp [kind_of_rescales ht.rescales hs] at hkind
    obtain ⟨s₀, hs₀⟩ : g.Has id := (p.new id s hmid).resolve_right fun hput => by
      obtain ⟨_, _, _, hr, _⟩ := hput
      simp [kind_of_rescales hr hmid] at hkind
    obtain ⟨s', hs', kept⟩ := p.noted.framed.stages id s₀ hs₀
    rw [show mid.stage? id = some s from hmid, Option.some.injEq] at hs'
    subst hs'
    obtain ⟨suit, _⟩ := p.served id s₀ hs₀ (by simp)
    obtain ⟨c, hc⟩ := suit.joined ((kept.kind.resolve_right (by simp)).symm.trans hkind)
    refine ⟨c, fun d hd => ?_⟩
    obtain ⟨e, he, hread⟩ := r.read p hs₀ hd
    exact Option.some.inj (hread.symm.trans (hc e he))
  · rcases p.new z s hs with ⟨_, hold⟩ | ⟨source, target, _, hr, _⟩
    · simp [hnew] at hold
    obtain ⟨s', e, e', hs', hkind, hin, hout, hsource, htarget, hattrs⟩ := hr
    obtain ⟨source', hsource', rfl, _⟩ := r.leads .input e source ⟨z, s', hs', by simp [Stage.slots, hin], hsource⟩
    obtain ⟨target', htarget', rfl, _⟩ :=
      r.leads .output e' target ⟨z, s', hs', by simp [Stage.slots, hout], htarget⟩
    exact ⟨source', target', s', e, e', r.stages z s' hs', hkind, hin, hout, hsource', htarget', hattrs⟩
  · obtain ⟨node', hnode', kept⟩ := p.noted.framed.tensors o node ho
    have husage' : node'.usage = .output := (congrArg Role.usage kept.role).trans husage
    obtain ⟨z, t, e, ht, hr, hwrote, hwriter, hreaders, hnone⟩ := r.outputs o node' hnode' husage' (by simp) hscale
    exact ⟨z, t, e, ht, hr, p.joins_output hnode' husage' hwrote, hwriter, hreaders, hnone⟩

end whole

end NetLower.Graph

namespace NetLower.Network

open NetLower.Graph

/-- A convolution that asks for a scale of 4, and the square of what it gives; both are asked for. -/
def squared : Network :=
  { name := "squared", version := 7
    tensors :=
      [{ name := "given", shape := [1, 1, 1, 1], kind := .input }, .weight "kernel" [1, 1, 1, 1] [.one],
        { name := "middle", shape := [1, 1, 1, 1], kind := .output },
        { name := "result", shape := [1, 1, 1, 1], kind := .output }]
    layers :=
      [{ name := "convolve", type := "Convolution", inputs := ["given"], outputs := ["middle"]
         attributes := [("kernel", .ints [1, 1]), ("scale_factor", .float four)], weights := some "kernel" },
        { name := "square", type := "Power", inputs := ["middle"], outputs := ["result"]
          attributes := [("power", .float ⟨0x40000000⟩)] }]
    inputs := ["given"], outputs := ["middle", "result"] }

/-- The convolution takes the scale in, the square reads what is scaled back, and so does the
caller. -/
theorem squared_scales_balanced :
    ∃ g g' order scales mid passed stands, squared.graph {} = .ok g ∧
      Pass.scalePropagation.run {} g = .ok (g', true) ∧
      g.runOrder = .ok order ∧ Pass.sweepWith order scaleStage ([], g) = .ok ((scales, mid), passed) ∧
      Balanced g mid g' scales stands := by
  have hfront : (do
      let g ← squared.graph {}
      let checked ← Pass.initialCheck.run {} g
      return (checked.2, ← g.runOrder)) = Except.ok (false, [⟨0⟩, ⟨1⟩]) := by decide +kernel
  have hrun : (do
      let g ← squared.graph {}
      let visited ← Pass.sweepWith [⟨0⟩, ⟨1⟩] scaleStage ([], g)
      let restored ← Pass.sweep visited.1.2.outputs (descaleOutput visited.1.1) visited.1.2
      return (visited.2 || restored.2, g.stages.all fun s => s.all fun s =>
        (s.attrs.getFloat .scaleFactor).toOption.all F32.isPositive)) = Except.ok (true, true) := by decide +kernel
  simp only [Outcome.bind_eq_ok, Outcome.pure_eq_ok, Prod.mk.injEq] at hfront hrun
  obtain ⟨g, hg, ⟨g₁, _⟩, hcheck, order, horder, rfl, rfl⟩ := hfront
  obtain ⟨g₂, hg₂, ⟨⟨scales, mid⟩, passed⟩, hvisits, ⟨g', descaled⟩, hback, hchanged, hpos⟩ := hrun
  obtain rfl : g₂ = g := Except.ok.inj (hg₂.symm.trans hg)
  obtain rfl : g₁ = g₂ := (Pass.checkAll_eq_ok hcheck).1
  have hrun : Pass.scalePropagation.run {} g₁ = .ok (g', true) := by
    refine Outcome.bind_eq_ok.2 ⟨_, horder, Outcome.bind_eq_ok.2 ⟨_, hvisits, Outcome.bind_eq_ok.2 ⟨_, hback, ?_⟩⟩⟩
    exact congrArg (fun changed => Except.ok (g', changed)) hchanged
  have hpositive (id s x) (hs : g₁.stage? id = some s) (hx : s.attrs.getFloat .scaleFactor = .ok x) :
      x.isPositive = true := by
    have hs' : g₁.stages[id.index]? = some (some s) := Option.join_eq_some_iff.1 hs
    obtain ⟨hlt, hget⟩ := Array.getElem?_eq_some_iff.1 hs'
    have := Array.all_eq_true.1 hpos id.index hlt
    simpa [hget, hx, Except.toOption] using this
  obtain ⟨order, scales, mid, passed, stands, h⟩ :=
    (Network.graph_wellFormed hg).scales_balanced hcheck hpositive rfl hrun
  exact ⟨g₁, g', order, scales, mid, passed, stands, hg, hrun, h⟩

end NetLower.Network
