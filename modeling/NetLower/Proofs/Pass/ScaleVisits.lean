/-
Propagation visits every stage once.  A stage is asked which scales it needs before any is
met, and that one round is enough: its inputs are brought to those scales one by one, none
of them twice, and later visits leave them alone.
-/
import NetLower.Proofs.Pass.ScaleMap

namespace NetLower.Graph

variable {g₀ g g' : Graph} {pending : List StageId} {start st st' : Scales × Graph} {id : StageId} {s : Stage}
  {edges : List EdgeId} {edge : EdgeId} {changed : Bool}

/-! ## The steps of a visit -/

/-- Between two steps of the visit of a stage with given input edges: all that the stage reads is
settled. -/
structure ScaleVisit (g₀ : Graph) (pending : List StageId) (id : StageId) (edges : List EdgeId)
    (start st : Scales × Graph) : Prop where
  noted : ScalesNoted g₀ st
  drift : Drift g₀ pending id start st
  live : ∃ s, start.2.stage? id = some s ∧ s.inputs = edges
  reads : ∀ e ∈ edges, ∀ d, st.2.target? e = some d → Settled g₀ pending st.2 d

namespace ScaleVisit

theorem stage (v : ScaleVisit g₀ pending id edges start st) : ∃ s, st.2.stage? id = some s ∧ s.inputs = edges := by
  obtain ⟨s, hs, rfl⟩ := v.live
  obtain ⟨s', hs', kept⟩ := v.drift.framed.stages id s hs
  exact ⟨s', hs', congrFun kept.slots .input⟩

theorem step (v : ScaleVisit g₀ pending id edges start st) (h : Drift g₀ pending id st st') (o : st'.2.Orderly)
    (hnotes : ∀ d, st'.1.get d = st.1.get d ∨ g₀.Asked (st'.1.get d) ∧ ∃ e, st'.2.Joins .output e d)
    (hreads : ∀ e ∈ edges, ∀ d, st'.2.target? e = some d → st.2.target? e = some d ∨ Settled g₀ pending st'.2 d) :
    ScaleVisit g₀ pending id edges start st' := by
  obtain ⟨s, hs, _⟩ := v.live
  refine ⟨v.noted.drift h o hnotes, v.drift.trans ⟨s, hs⟩ h, v.live, fun e he d ht => ?_⟩
  rcases hreads e he d ht with hold | hnew
  · exact (v.reads e he d hold).kept h.framed.tensors
  · exact hnew

/-- Where edges still lead to the same tensors, they read the same scales. -/
theorem scaleAt_eq (v : ScaleVisit g₀ pending id edges start st) (h : Drift g₀ pending id st st')
    (he : edge ∈ edges) (ht : st'.2.target? edge = st.2.target? edge) : scaleAt st' edge = scaleAt st edge := by
  unfold scaleAt
  rw [ht]
  cases hd : st.2.target? edge with
  | none => rfl
  | some d => exact congrArg some (h.scales d (v.reads edge he d hd))

/-- One input of the stage is led to a settled tensor, and stages are only added. -/
theorem led {t : DataId} (st' : Scales × Graph) (v : ScaleVisit g₀ pending id edges start st) (he : edge ∈ edges)
    (o : st'.2.Orderly) (framed : st.2.Framed .scale st'.2)
    (hstages : ∀ z s, st.2.stage? z = some s → st'.2.stage? z = some s)
    (htargets : ∀ x r, st.2.edge? x = some r → st'.2.target? x = if x = edge then some t else st.2.target? x)
    (ht : Settled g₀ pending st'.2 t) (hscales : ∀ d, Settled g₀ pending st.2 d → st'.1.get d = st.1.get d)
    (hnew : ∀ z s, st'.2.stage? z = some s → (∃ s₀, st.2.stage? z = some s₀) ∨ Converts g₀ pending st' z)
    (hnotes : ∀ d, st'.1.get d = st.1.get d ∨ g₀.Asked (st'.1.get d) ∧ ∃ e, st'.2.Joins .output e d) :
    ScaleVisit g₀ pending id edges start st' ∧ ∀ x ∈ edges, x ≠ edge → scaleAt st' x = scaleAt st x := by
  obtain ⟨s, hs, rfl⟩ := v.stage
  have wf := v.noted.orderly.wellFormed
  have targets {z s' kind x} (hs' : st.2.stage? z = some s') (hx : x ∈ s'.slots kind) (hne : x ≠ edge) :
      st'.2.target? x = st.2.target? x := by
    obtain ⟨_, _, _, _, hedge, _⟩ := wf.edge_of_mem hs' hx
    rw [htargets x _ hedge, if_neg hne]
  have drift : Drift g₀ pending id st st' := by
    refine ⟨framed, fun z s _ hs => hstages z s hs, fun z s' kind x hs' hx hwho => targets hs' hx ?_,
      hscales, hnew⟩
    rintro rfl
    obtain ⟨rfl, rfl⟩ := wf.owner_unique hs (show x ∈ s.slots .input from he) hs' hx
    simp at hwho
  refine ⟨v.step drift o hnotes fun x hx d hd => ?_, fun x hx hne =>
    v.scaleAt_eq drift hx (targets hs (show x ∈ s.slots .input from hx) hne)⟩
  by_cases hxe : x = edge
  · subst hxe
    obtain ⟨_, _, _, _, hedge, _⟩ := wf.edge_of_mem hs (show x ∈ s.slots .input from hx)
    rw [htargets x _ hedge, if_pos rfl, Option.some.injEq] at hd
    exact .inr (hd ▸ ht)
  · exact .inl (targets hs (show x ∈ s.slots .input from hx) hxe ▸ hd)

/-- An input is brought to the scale that is wanted; constants and placeholders, which have none,
stay. -/
theorem meet {wanted : Option F32} (v : ScaleVisit g₀ pending id edges start st) (wf₀ : g₀.WellFormed)
    (hpos : ∀ x, g₀.Asked x → x.isPositive = true) (he : edge ∈ edges)
    (hwanted : ∀ x, wanted = some x → g₀.Asked x) (h : Graph.meetScale st edge wanted = .ok (st', changed)) :
    ScaleVisit g₀ pending id edges start st' ∧ (∀ x ∈ edges, x ≠ edge → scaleAt st' x = scaleAt st x) ∧
      ∀ x, wanted = some x → scaleAt st' edge = some x ∨
        scaleAt st edge = some F32.one ∧ scaleAt st' edge = some F32.one := by
  obtain ⟨scales, g⟩ := st
  obtain ⟨scales', g'⟩ := st'
  obtain ⟨r, node, hr, hnode, ⟨rfl, rfl, hreason⟩ | ⟨x, suffix, name, attrs, z, g₁, r', rfl, _, hattrs, hadd, hled,
    rfl⟩⟩ := meetScale_cases h
  · have hat : scaleAt (scales', g') edge = some (scales'.get r.data) := by
      rw [scaleAt, target?_of_edge? hr]
      rfl
    refine ⟨v, fun _ _ _ => rfl, fun x hx => ?_⟩
    rcases hreason x hx with hsource | heq
    · rw [hat, v.noted.unscaled hnode hsource]
      exact .inr ⟨rfl, rfl⟩
    · rw [hat, F32.eq_of_numEq heq (F32.isZero_of_isPositive (hpos x (hwanted x hx)))]
      exact .inl rfl
  -- The edge is led to a new tensor, behind an affine power that reads the old one.
  obtain ⟨s, hs, rfl⟩ := v.stage
  have o := v.noted.orderly
  have o' : g'.Orderly := (o.meetScale hs he h).1
  have framed : g.Framed .scale g' := .meetScale h
  set t := (g.pushData (intermediate (node.name ++ suffix) node.desc)).1 with ht
  have hfresh : g.data? t = none := data?_fresh _ _
  obtain ⟨node', hnode', husage⟩ : ∃ node', g'.data? t = some node' ∧ node'.usage = .intermediate := by
    rw [hled.data?, hadd.data?, ht, data?_pushData_self]
    exact ⟨_, rfl, rfl⟩
  have hne : r.data ≠ t := ne_pushData hnode
  have hsettled : Settled g₀ pending g' t := v.noted.settled_new wf₀ hfresh hnode'
  have hstages (z' s') (hs' : g.stage? z' = some s') : g'.stage? z' = some s' :=
    (hled.stage? z').trans (hadd.stage?_of_old hs').2
  have htargets (y ry) (hy : g.edge? y = some ry) : g'.target? y = if y = edge then some t else g.target? y := by
    rw [hled.target?, target?_of_edge? (hadd.edge? y ry hy), target?_of_edge? hy]
  have hrescales : g'.Rescales z r.data t (x / scales.get r.data) := by
    have wf₁ : g₁.WellFormed := (o.wellFormed.pushData rfl rfl).added hadd (List.nodup_singleton _)
    obtain ⟨hz, hs₁⟩ := hadd.stage?_of_old (show (g.pushData _).2.stage? id = some s from hs)
    have other {s' y kind} (hs' : g₁.stage? z = some s') (hy : y ∈ s'.slots kind) :
        g'.target? y = g₁.target? y := by
      rw [hled.target?, if_neg]
      rintro rfl
      exact hz (wf₁.owner_unique hs₁ (show y ∈ s.slots .input from he) hs' hy).1
    exact (hadd.rescales hattrs).congr (hled.stage? z) (fun s' y hs' hy hd => (other hs' hy).trans hd)
      (fun s' y hs' hy hd => (other hs' hy).trans hd)
  have hnew : (scales.set t x).get t = x := by simp [Scales.get_set]
  have hold {d} (hd : d ≠ t) : (scales.set t x).get d = scales.get d := by simp [Scales.get_set, hd]
  obtain ⟨v', others⟩ := v.led (scales.set t x, g') he o' framed hstages htargets hsettled
    (fun d hd => hold (by
      rintro rfl
      obtain ⟨⟨_, hd⟩, _⟩ := hd
      rw [hfresh] at hd
      cases hd))
    (fun z' s' hs' => by
      rw [hled.stage?, hadd.stage?] at hs'
      split at hs'
      next heq =>
        refine .inr ⟨r.data, t, node', ?_, ?_, hsettled, hnode', husage⟩
        · rw [hnew, hold hne, heq]
          exact hrescales
        · exact (v.reads edge he _ (target?_of_edge? hr)).kept framed.tensors
      · exact .inl ⟨s', hs'⟩)
    (fun d => by
      by_cases hd : d = t
      · refine .inr ⟨?_, ?_⟩
        · rw [hd, hnew]
          exact hwanted x rfl
        · obtain ⟨s', _, e', hs', _, _, hout, _, htarget, _⟩ := hrescales
          exact ⟨e', z, s', hs', by simp [Stage.slots, hout], hd ▸ htarget⟩
      · exact .inl (hold hd))
  refine ⟨v', others, fun y hy => .inl ?_⟩
  rw [scaleAt, htargets edge r hr, if_pos rfl, Option.map_some, hnew]
  exact hy

/-- Asking the stage leaves all edges and notes alone. -/
theorem ask {given : List F32} {step : ScaleStep} {report : Report F32}
    (v : ScaleVisit g₀ pending id edges start st) (h : st.2.askScale id given step = .ok (report, g')) :
    ScaleVisit g₀ pending id edges start (st.1, g') ∧ ∀ x ∈ edges, scaleAt (st.1, g') x = scaleAt st x := by
  have o' : g'.Orderly := (v.noted.orderly.askScale h).1
  have framed : st.2.Framed .scale g' := .askScale h
  obtain ⟨site, attrs, hsite, _, rfl⟩ := askScale_eq_ok h
  have same (x : EdgeId) : (st.2.setAttrs id attrs).target? x = st.2.target? x :=
    (SameLinks.setAttrs id attrs).target?_eq x
  have drift : Drift g₀ pending id st (st.1, st.2.setAttrs id attrs) := by
    refine ⟨framed, fun z s hz hs => ?_, fun _ _ _ x _ _ _ => same x, fun _ _ => rfl, fun z s hs => ?_⟩
    · exact (stage?_modifyStage ..).trans ((if_neg hz).trans hs)
    · obtain ⟨s₀, hs₀, _⟩ := (SameLinks.setAttrs id attrs).stage_eq hs
      exact .inl ⟨s₀, hs₀⟩
  exact ⟨v.step drift o' (fun _ => .inl rfl) fun e _ d hd => .inl (same e ▸ hd),
    fun x hx => v.scaleAt_eq drift hx (same x)⟩

/-- A constant and a multiple of it are both noted as unscaled. -/
theorem fold {scale : Option F32} (v : ScaleVisit g₀ pending id edges start st) (wf₀ : g₀.WellFormed)
    (he : edge ∈ edges) (h : st.2.scaleConst edge scale = .ok (g', changed)) :
    ScaleVisit g₀ pending id edges start (st.1, g') ∧ ∀ x ∈ edges, scaleAt (st.1, g') x = scaleAt st x := by
  obtain ⟨s, hs, rfl⟩ := v.stage
  have o' : g'.Orderly := (v.noted.orderly.scaleConst hs he h).1
  have framed : st.2.Framed .scale g' := .scaleConst h
  rcases scaleConst_eq_ok h with rfl | ⟨r, node, scaled, t, r', g₁, hr, hnode, husage, ht, husage', _,
    hgraph, hled⟩
  · exact ⟨v, fun _ _ => rfl⟩
  have hedges (x : EdgeId) : g₁.edge? x = st.2.edge? x := by
    rcases hgraph with rfl | ⟨_, _, _, _, rfl⟩ <;> rfl
  have htargets (x : EdgeId) : g'.target? x = if x = edge then some t else st.2.target? x := by
    rw [hled.target?, Graph.target?, Graph.target?, hedges]
  obtain ⟨scaled', hscaled', hu⟩ : ∃ scaled', g'.data? t = some scaled' ∧ scaled'.usage = .const := by
    rw [hled.data?, ht]
    exact ⟨_, rfl, husage'⟩
  have hnotes (d) : (st.1, g').1.get d = st.1.get d ∨ g₀.Asked ((st.1, g').1.get d) ∧ ∃ e, g'.Joins .output e d :=
    .inl rfl
  -- The multiple is none of the tensors of `g₀` that stages write, as those are no constants.
  have hsettled : Settled g₀ pending g' t := by
    refine ⟨⟨scaled', hscaled'⟩, fun w _ htouches => ?_⟩
    obtain ⟨x, hj⟩ := htouches.joins
    obtain ⟨node₀, hnode₀⟩ := wf₀.data_of_joins hj
    obtain ⟨node', hnode', kept⟩ := (v.noted.framed.trans framed).tensors t node₀ hnode₀
    rw [hscaled', Option.some.injEq] at hnode'
    subst hnode'
    have hsame : scaled'.usage = node₀.usage := congrArg Role.usage kept.role
    rcases wf₀.usage_of_written hj hnode₀ with h' | h' <;> simp [hsame, h'] at hu
  obtain ⟨v', others⟩ := v.led (st.1, g') he o' framed
    (fun z s hs => (scaleConst_stage? h).trans hs) (fun x _ _ => htargets x) hsettled (fun _ _ => rfl)
    (fun z s hs => .inl ⟨s, (scaleConst_stage? h).symm.trans hs⟩) hnotes
  refine ⟨v', fun x hx => ?_⟩
  by_cases hxe : x = edge
  · have hone : st.1.get t = F32.one := v'.noted.unscaled hscaled' (.inl hu)
    have hone' : st.1.get r.data = F32.one := v.noted.unscaled hnode (.inl husage)
    rw [hxe, scaleAt, scaleAt, htargets, if_pos rfl, target?_of_edge? hr, Option.map_some, Option.map_some,
      hone, hone']
  · exact others x hx hxe

/-- The scales of what the stage writes are noted at the end, when all that it reads is settled. -/
theorem note {outputs : List DataId} {report : Report F32} (v : ScaleVisit g₀ pending id edges start st)
    (hid : id ∈ pending) (h₀ : g₀.Has id) (hs : st.2.stage? id = some s)
    (houtputs : st.2.outputIds s = .ok outputs) (hreport : ∀ x, some x ∈ report.outputs → g₀.Asked x)
    (hst : st' = ((outputs.zip report.outputs).foldl (fun scales x => scales.set x.1 (x.2.getD F32.one)) st.1,
      st.2)) :
    ScaleVisit g₀ pending id edges start st' ∧ ∀ x ∈ edges, scaleAt st' x = scaleAt st x := by
  obtain ⟨s₀, hs₀⟩ := h₀
  obtain ⟨s', hs', kept⟩ := v.noted.framed.stages id s₀ hs₀
  rw [hs, Option.some.injEq] at hs'
  subst hs'
  -- The tensors noted are those that the stage writes, in `g₀` already.
  have written {note} (h : note ∈ outputs.zip report.outputs) :
      g₀.Touches .output id note.1 ∧ ∃ e, st.2.Joins .output e note.1 := by
    obtain ⟨e, he, ht⟩ := (mem_mapM_target houtputs).1 (List.of_mem_zip h).1
    have he₀ : e ∈ s₀.outputs := (show s.outputs = s₀.outputs from congrFun kept.slots .output) ▸ he
    exact ⟨⟨s₀, hs₀, e, he₀, v.noted.outputs id s₀ e hs₀ he₀ ▸ ht⟩, e, id, s, hs, he, ht⟩
  subst hst
  have drift : Drift g₀ pending id st
      ((outputs.zip report.outputs).foldl (fun scales x => scales.set x.1 (x.2.getD F32.one)) st.1, st.2) := by
    refine ⟨.refl, fun _ _ _ hs => hs, fun _ _ _ _ _ _ _ => rfl, fun d hd => ?_, fun z s hs => .inl ⟨s, hs⟩⟩
    refine Scales.get_foldl_set fun note hnote heq => ?_
    exact hd.2 id hid (heq ▸ (written hnote).1)
  refine ⟨v.step drift v.noted.orderly (fun d => ?_) fun _ _ _ hd => .inl hd,
    fun x hx => v.scaleAt_eq drift hx rfl⟩
  rcases Scales.get_foldl_set_cases (outputs.zip report.outputs) st.1 d with hsame | ⟨note, hnote, rfl, heq⟩
  · exact .inl hsame
  · refine .inr ⟨?_, (written hnote).2⟩
    rw [heq]
    cases hx : note.2 with
    | none => exact .inl rfl
    | some x => exact hreport x (hx ▸ (List.of_mem_zip hnote).2)

/-- Every input is brought to what is wanted there, each once, unless it is one that has no scale. -/
theorem meetAll {pairs : List (EdgeId × Option F32)} (v : ScaleVisit g₀ pending id edges start st)
    (wf₀ : g₀.WellFormed) (hpos : ∀ x, g₀.Asked x → x.isPositive = true) (hmem : ∀ p ∈ pairs, p.1 ∈ edges)
    (hnodup : (pairs.map Prod.fst).Nodup) (hwanted : ∀ e x, (e, some x) ∈ pairs → g₀.Asked x)
    (h : Pass.sweepWith pairs (fun state p => Graph.meetScale state p.1 p.2) st = .ok (st', changed)) :
    ScaleVisit g₀ pending id edges start st' ∧ ∀ e x, (e, some x) ∈ pairs →
      scaleAt st' e = some x ∨ scaleAt st e = some F32.one ∧ scaleAt st' e = some F32.one := by
  -- Inputs still to come read what they read at first; those behind us are met, and are not touched again.
  obtain ⟨v', _, _, hmet⟩ := Pass.sweepWith_keeps
    (fun rest st' => ScaleVisit g₀ pending id edges start st' ∧
      (∀ p ∈ rest, p ∈ pairs ∧ scaleAt st' p.1 = scaleAt st p.1) ∧
      (rest.map Prod.fst).Nodup ∧ ∀ e x, (e, some x) ∈ pairs → e ∈ rest.map Prod.fst ∨
        (scaleAt st' e = some x ∨ scaleAt st e = some F32.one ∧ scaleAt st' e = some F32.one))
    (by
      rintro ⟨edge, wanted⟩ rest st₁ st₂ here ⟨v₁, hrest, hn, hdone⟩ h
      obtain ⟨hin, hsame⟩ := hrest (edge, wanted) (by simp)
      obtain ⟨v₂, others, met⟩ := v₁.meet wf₀ hpos (hmem _ hin) (fun x hx => hwanted edge x (hx ▸ hin)) h
      rw [List.map_cons, List.nodup_cons] at hn
      refine ⟨v₂, fun p hp => ?_, hn.2, fun e x he => ?_⟩
      · obtain ⟨hp', hsame'⟩ := hrest p (by simp [hp])
        have hne : p.1 ≠ edge := fun heq => hn.1 (List.mem_map.2 ⟨p, hp, heq⟩)
        exact ⟨hp', (others p.1 (hmem p hp') hne).trans hsame'⟩
      · by_cases heq : e = edge
        · have hpair := List.inj_on_of_nodup_map hnodup he hin heq
          rw [Prod.mk.injEq] at hpair
          refine .inr ?_
          rw [heq, ← hsame]
          exact met x hpair.2.symm
        · rcases hdone e x he with hleft | hmet
          · rw [List.map_cons, List.mem_cons] at hleft
            exact .inl (hleft.resolve_left heq)
          · rw [others e (hmem _ he) heq]
            exact .inr hmet)
    ⟨v, fun p hp => ⟨hp, rfl⟩, hnodup, fun e x he => .inl (List.mem_map_of_mem he)⟩ h
  exact ⟨v', fun e x he => (hmet e x he).resolve_left (by simp)⟩

theorem foldAll {pairs : List (EdgeId × Option F32)} {scales : Scales}
    (v : ScaleVisit g₀ pending id edges start (scales, g))
    (wf₀ : g₀.WellFormed) (hmem : ∀ p ∈ pairs, p.1 ∈ edges)
    (h : Pass.sweep pairs (fun g p => g.scaleConst p.1 p.2) g = .ok (g', changed)) :
    ScaleVisit g₀ pending id edges start (scales, g') ∧
      ∀ x ∈ edges, scaleAt (scales, g') x = scaleAt (scales, g) x := by
  obtain ⟨v', hsame, _⟩ := Pass.sweep_keeps
    (fun rest g' => ScaleVisit g₀ pending id edges start (scales, g') ∧
      (∀ x ∈ edges, scaleAt (scales, g') x = scaleAt (scales, g) x) ∧ ∀ p ∈ rest, p.1 ∈ edges)
    (by
      rintro p rest g₁ g₂ here ⟨v₁, hsame, hrest⟩ h
      obtain ⟨v₂, hsame₂⟩ := v₁.fold wf₀ (hrest p (by simp)) h
      exact ⟨v₂, fun x hx => (hsame₂ x hx).trans (hsame x hx), fun q hq => hrest q (by simp [hq])⟩)
    ⟨v, fun _ _ => rfl, hmem⟩ h
  exact ⟨v', hsame⟩

end ScaleVisit

/-! ## The visit of a stage -/

/-- The scales that a stage reads suit it: a power that is not affine reads unscaled values, and the
inputs of a concatenation share one scale. -/
structure ScalesSuit (s : Stage) (read : EdgeId → Option F32) : Prop where
  curved : s.kind = .power → ∀ p, s.attrs.getFloat .power = .ok p → p.numEq F32.one = false →
    ∀ e, s.inputs[0]? = some e → read e = some F32.one
  joined : s.kind = .concat → ∃ c, ∀ e ∈ s.inputs, read e = some c

theorem ScalesSuit.congr {read read' : EdgeId → Option F32} (h : ScalesSuit s read)
    (hread : ∀ e ∈ s.inputs, read' e = read e) : ScalesSuit s read' := by
  refine ⟨fun hkind p hp hcurved e he => ?_, fun hkind => ?_⟩
  · exact (hread e (List.mem_of_getElem? he)).trans (h.curved hkind p hp hcurved e he)
  · obtain ⟨c, hc⟩ := h.joined hkind
    exact ⟨c, fun e he => (hread e he).trans (hc e he)⟩

/-- Propagation leaves what decides which scales suit a stage. -/
theorem ScalesSuit.kept {s' : Stage} {read : EdgeId → Option F32} (h : ScalesSuit s' read)
    (kept : s.Kept .scale s') : ScalesSuit s read := by
  have hkind : s'.kind = s.kind := kept.kind.resolve_right (by simp)
  have hinputs : s'.inputs = s.inputs := congrFun kept.slots .input
  refine ⟨fun hpower p hp => ?_, fun hconcat => hinputs ▸ h.joined (hkind.trans hconcat)⟩
  have hsame : s'.attrs.get? .power = some (.float p) := by
    have hattr := kept.attrs .power
    rw [Attrs.get?_of_getFloat hp] at hattr
    generalize s'.attrs.get? .power = after at hattr
    cases hattr with
    | same => rfl
    | rescaled _ _ hkey => simp at hkey
  exact hinputs ▸ h.curved (hkind.trans hpower) p (Attrs.getFloat_of_get? hsame)

theorem inputScales_eq_ok {actual : List F32} (hs : st.2.stage? id = some s)
    (h : st.2.inputScales st.1 id = .ok actual) :
    List.Forall₂ (fun e x => scaleAt st e = some x) s.inputs actual := by
  simp only [inputScales, Outcome.bind_eq_ok, Outcome.pure_eq_ok, stage_eq_ok, hs, Option.some.injEq,
    exists_eq_left'] at h
  obtain ⟨ids, hids, rfl⟩ := h
  refine List.forall₂_map_right_iff.2 ((Outcome.mapM_eq_ok.1 hids).imp fun e d ht => ?_)
  rw [scaleAt, edgeData_eq_ok.1 ht]
  rfl

/-- A stage that says what it needs, and gets it where an input has a scale at all, is served: of a
concatenation with an unscaled input, the other inputs are to be unscaled too. -/
theorem scalesSuit_of_met {site : Site} {given : List F32} {step : ScaleStep} {required : Report F32}
    {attrs : Attrs} (hsite : g.site id = .ok site)
    (hscale : site.kind.family.scale site given step = .ok (required, attrs))
    (hgiven : List.Forall₂ (fun e x => scaleAt st e = some x) site.stage.inputs given)
    (hmet : ∀ e x, (e, some x) ∈ site.stage.inputs.zip required.inputs →
      scaleAt st' e = some x ∨ scaleAt st e = some F32.one ∧ scaleAt st' e = some F32.one) :
    ScalesSuit site.stage (scaleAt st') := by
  have hlength : site.inputs.length = site.stage.inputs.length := length_of_site hsite .input
  refine ⟨fun hkind p hp hcurved e he => ?_, fun hkind => ⟨Site.commonScale given, fun e he => ?_⟩⟩
  · obtain ⟨power, hpower, ⟨_, rfl, _⟩ | ⟨haffine, _⟩⟩ :=
      Site.powerScale_eq_ok (by rwa [show site.kind = .power from hkind] at hscale)
    · have hslot : (((Report.blank site : Report F32).setInput 0 F32.one).setOutput 0 F32.one).inputs[0]? =
          some (some F32.one) := by
        have hlt : 0 < site.inputs.length := hlength ▸ (List.getElem?_eq_some_iff.1 he).1
        simp [Report.blank, Report.setInput, Report.setOutput, hlt]
      rcases hmet e F32.one (mem_zip.2 ⟨0, he, hslot⟩) with h | ⟨_, h⟩ <;> exact h
    · rw [show site.attrs.getFloat .power = .ok p from hp, Except.ok.injEq] at hpower
      simp [hpower ▸ haffine] at hcurved
  · rw [show site.kind = .concat from hkind] at hscale
    simp only [StageKind.family, StageFamily.scale, Outcome.bind_eq_ok, Outcome.pure_eq_ok,
      Prod.mk.injEq] at hscale
    obtain ⟨report, hscale, heq, _⟩ := hscale
    subst heq
    have hinputs : report.inputs = site.inputs.map fun _ => some (Site.commonScale given) :=
      congrArg Report.inputs (Site.concatScale_eq_ok hscale)
    obtain ⟨k, hk⟩ := List.mem_iff_getElem?.1 he
    have hslot : report.inputs[k]? = some (some (Site.commonScale given)) := by
      have hlt : k < site.inputs.length := hlength ▸ (List.getElem?_eq_some_iff.1 hk).1
      simp [hinputs, hlt]
    rcases hmet e _ (mem_zip.2 ⟨k, hk, hslot⟩) with h | ⟨hone, h⟩
    · exact h
    · obtain ⟨x, hx, hat⟩ := forall₂_getElem? hgiven hk
      rw [hone, Option.some.injEq] at hat
      rw [Site.commonScale_eq_one (hat ▸ List.mem_of_getElem? hx)]
      exact h

/-- The scale that a stage asks for is one of `g₀`, as propagation changes no such wish. -/
theorem ScalesNoted.hint_asked {hint : F32} (n : ScalesNoted g₀ st) (h₀ : g₀.Has id)
    (h : st.2.scaleHint id = .ok hint) : g₀.Asked hint := by
  obtain ⟨s₀, hs₀⟩ := h₀
  obtain ⟨s, hs, kept⟩ := n.framed.stages id s₀ hs₀
  simp only [scaleHint, Outcome.bind_eq_ok, stage_eq_ok, hs, Option.some.injEq, exists_eq_left'] at h
  split at h
  · refine .inr ⟨id, s₀, hs₀, Attrs.getFloat_of_get? ?_⟩
    have hattr := kept.attrs .scaleFactor
    rw [Attrs.get?_of_getFloat h] at hattr
    generalize s₀.attrs.get? .scaleFactor = before at hattr
    cases hattr with
    | same => rfl
    | rescaled _ _ hkey => simp at hkey
  · exact .inl (Outcome.pure_eq_ok.1 h).symm

/-- A visit serves its stage. -/
theorem ScaleVisit.visited (v : ScaleVisit g₀ pending id s.inputs st st) (wf₀ : g₀.WellFormed)
    (hpos : ∀ x, g₀.Asked x → x.isPositive = true) (hid : id ∈ pending) (h₀ : g₀.Has id)
    (hs : st.2.stage? id = some s) (h : Graph.scaleStage st id = .ok (st', changed)) :
    ScaleVisit g₀ pending id s.inputs st st' ∧ ScalesSuit s (scaleAt st') := by
  have asked {st : Scales × Graph} {actual : List F32} (n : ScalesNoted g₀ st)
      (h : st.2.inputScales st.1 id = .ok actual) : ∀ x ∈ actual, g₀.Asked x := by
    simp only [inputScales, Outcome.bind_eq_ok, Outcome.pure_eq_ok] at h
    obtain ⟨_, _, _, _, rfl⟩ := h
    intro x hx
    obtain ⟨d, _, rfl⟩ := List.mem_map.1 hx
    exact n.asked d
  obtain ⟨s₁, s', mid, _, actual, hint, report, g₃, _, outputs, hs₁, hmeet, hactual, hhint, hask, hfold, hs',
    houtputs, hscales⟩ := scaleStage_eq_ok h
  obtain ⟨scales, g⟩ := st
  simp only [meetScales, Outcome.bind_eq_ok, stage_eq_ok] at hmeet
  obtain ⟨s₂, hs₂, given, hgiven, ⟨required, g₁⟩, hcheck, hmeet⟩ := hmeet
  rw [hs, Option.some.injEq] at hs₁ hs₂
  subst hs₁ hs₂
  obtain ⟨site, attrs, hsite, hscale, _⟩ := askScale_eq_ok hcheck
  have hstage : site.stage = s := Option.some.inj ((site_eq_ok.1 hsite).1.symm.trans hs)
  -- The stage is asked once, and what it wants is met.
  have hwanted : required.All g₀.Asked := Site.scale_all (.inl rfl) (asked v.noted hgiven) hscale
  obtain ⟨v₁, hsame₁⟩ := v.ask hcheck
  obtain ⟨v₂, hmet⟩ := v₁.meetAll wf₀ hpos (fun p hp => (List.of_mem_zip hp).1)
    ((fst_zip_sublist _ _).nodup (v.noted.orderly.wellFormed.nodup_slots hs .input))
    (fun e x he => hwanted x (.inl (List.of_mem_zip he).2)) hmeet
  have served : ScalesSuit s (scaleAt mid) := by
    subst hstage
    refine scalesSuit_of_met hsite hscale (inputScales_eq_ok hs hgiven) fun e x he => ?_
    rw [← hsame₁ e (List.of_mem_zip he).1]
    exact hmet e x he
  -- From here on the scales that the stage reads stay.
  obtain ⟨v₃, hsame₃⟩ := v₂.ask hask
  obtain ⟨v₄, hsame₄⟩ := v₃.foldAll wf₀ (fun p hp => (List.of_mem_zip hp).1) hfold
  have hreport : report.All g₀.Asked := by
    obtain ⟨_, _, _, hscale', _⟩ := askScale_eq_ok hask
    refine Site.scale_all (.inl rfl) (fun x hx => ?_) hscale'
    split at hx
    · obtain ⟨_, _, rfl⟩ := List.mem_map.1 hx
      exact v₂.noted.hint_asked h₀ hhint
    · exact asked v₂.noted hactual x hx
  obtain ⟨v₅, hsame₅⟩ := v₄.note hid h₀ hs' houtputs (fun x hx => hreport x (.inr hx)) (Prod.ext hscales rfl)
  refine ⟨v₅, served.congr fun e he => ?_⟩
  rw [hsame₅ e he, hsame₄ e he, hsame₃ e he]

/-! ## The run -/

/-- No stage that is still to come feeds the stage in front. -/
theorem WellFormed.not_fed {order done rest : List StageId} {b c : StageId} (wf : g.WellFormed)
    (horder : g.runOrder = .ok order) (hsplit : order = done ++ b :: rest) (hc : c ∈ b :: rest) :
    ¬ g.Feeds c b := by
  intro hfeeds
  have hlt := wf.runOrder_lt horder hfeeds
  have hnodup : order.Nodup := (runOrder_perm horder).nodup_iff.2 nodup_liveIds
  rw [hsplit] at hnodup hlt
  have behind {x} (hx : x ∈ b :: rest) : x ∉ done := fun hd => (List.nodup_append.1 hnodup).2.2 x hd x hx rfl
  rw [List.idxOf_append_of_notMem (behind hc), List.idxOf_append_of_notMem (behind (by simp)),
    List.idxOf_cons_self] at hlt
  omega

/-- Between two visits: stages still to come read what they read in `g₀`, those behind us are served
and read settled tensors, and what was put in converts scales. -/
structure ScalesPassed (g₀ : Graph) (rest : List StageId) (st : Scales × Graph) : Prop where
  noted : ScalesNoted g₀ st
  waiting : ∀ id ∈ rest, ∀ s e, g₀.stage? id = some s → e ∈ s.inputs → st.2.target? e = g₀.target? e
  served : ∀ id s, g₀.stage? id = some s → id ∉ rest → ScalesSuit s (scaleAt st) ∧
    ∀ e ∈ s.inputs, ∀ d, st.2.target? e = some d → Settled g₀ rest st.2 d
  new : ∀ z s, st.2.stage? z = some s → g₀.Has z ∨ Converts g₀ rest st z

theorem Converts.mono {pending' : List StageId} {z : StageId} (h : Converts g₀ pending st z)
    (hsub : ∀ id ∈ pending', id ∈ pending) : Converts g₀ pending' st z := by
  obtain ⟨source, target, node, hr, hsource, htarget, hnode⟩ := h
  exact ⟨source, target, node, hr, hsource.mono hsub, htarget.mono hsub, hnode⟩

namespace ScalesPassed

variable {order done rest : List StageId}

/-- What a stage reads when its turn comes is written by none of those to come. -/
theorem visit (p : ScalesPassed g₀ (id :: rest) st) (wf₀ : g₀.WellFormed) (horder : g₀.runOrder = .ok order)
    (hsplit : order = done ++ id :: rest) (hs : st.2.stage? id = some s) :
    ScaleVisit g₀ (id :: rest) id s.inputs st st := by
  refine ⟨p.noted, .refl, ⟨s, hs, rfl⟩, fun e he d ht => ?_⟩
  obtain ⟨s₀, hs₀⟩ := (wf₀.ahead horder hsplit).1
  obtain ⟨s', hs', kept⟩ := p.noted.framed.stages id s₀ hs₀
  rw [hs, Option.some.injEq] at hs'
  subst hs'
  have he₀ : e ∈ s₀.inputs := (show s.inputs = s₀.inputs from congrFun kept.slots .input) ▸ he
  have ht₀ : g₀.target? e = some d := (p.waiting id (by simp) s₀ e hs₀ he₀).symm.trans ht
  have hj : st.2.Joins .input e d := ⟨id, s, hs, he, ht⟩
  refine ⟨p.noted.orderly.wellFormed.data_of_joins hj, fun w hw hwrites => ?_⟩
  exact wf₀.not_fed horder hsplit hw ⟨d, hwrites, s₀, hs₀, e, he₀, ht₀⟩

theorem scaleStage (p : ScalesPassed g₀ (id :: rest) st) (wf₀ : g₀.WellFormed)
    (hpos : ∀ x, g₀.Asked x → x.isPositive = true) (horder : g₀.runOrder = .ok order)
    (hsplit : order = done ++ id :: rest) (h : Graph.scaleStage st id = .ok (st', changed)) :
    ScalesPassed g₀ rest st' := by
  obtain ⟨h₀, hrest, _⟩ := wf₀.ahead horder hsplit
  obtain ⟨s₀, hs₀⟩ := h₀
  obtain ⟨s, hs, kept⟩ := p.noted.framed.stages id s₀ hs₀
  obtain ⟨v, served⟩ := (p.visit wf₀ horder hsplit hs).visited wf₀ hpos (by simp) ⟨s₀, hs₀⟩ hs h
  have sub : ∀ w ∈ rest, w ∈ id :: rest := fun w hw => by simp [hw]
  have hinputs : s.inputs = s₀.inputs := congrFun kept.slots .input
  -- Another stage of `g₀` keeps its edges, and they lead where they led.
  have others {z s₁ e} (hz : z ≠ id) (hs₁ : g₀.stage? z = some s₁) (he : e ∈ s₁.inputs) :
      ∃ s₂, st.2.stage? z = some s₂ ∧ e ∈ s₂.inputs ∧ st'.2.target? e = st.2.target? e := by
    obtain ⟨s₂, hs₂, kept₂⟩ := p.noted.framed.stages z s₁ hs₁
    have he₂ : e ∈ s₂.slots .input := congrFun kept₂.slots .input ▸ he
    exact ⟨s₂, hs₂, he₂, v.drift.targets z s₂ .input e hs₂ he₂ (.inl hz)⟩
  refine ⟨v.noted, fun z hz s₁ e hs₁ he => ?_, fun z s₁ hs₁ hz => ?_, fun z s₁ hs₁ => ?_⟩
  · obtain ⟨_, _, _, ht⟩ := others (fun heq => hrest (heq ▸ hz)) hs₁ he
    exact ht.trans (p.waiting z (by simp [hz]) s₁ e hs₁ he)
  · by_cases hzid : z = id
    · subst hzid
      rw [hs₀, Option.some.injEq] at hs₁
      subst hs₁
      exact ⟨served.kept kept, fun e he d ht => (v.reads e (hinputs ▸ he) d ht).mono sub⟩
    · obtain ⟨served₁, settled⟩ := p.served z s₁ hs₁ (by simp [hzid, hz])
      refine ⟨served₁.congr fun e he => ?_, fun e he d ht => ?_⟩
      · obtain ⟨s₂, hs₂, he₂, _⟩ := others hzid hs₁ he
        exact v.drift.scaleAt_eq hzid hs₂ he₂ (settled e he)
      · obtain ⟨_, _, _, hsame⟩ := others hzid hs₁ he
        exact ((settled e he d (hsame ▸ ht)).kept v.drift.framed.tensors).mono sub
  · rcases v.drift.converts z s₁ hs₁ with ⟨s₂, hs₂⟩ | hnew
    · rcases p.new z s₂ hs₂ with hold | hc
      · exact .inl hold
      · by_cases hzid : z = id
        · exact .inl (hzid ▸ ⟨s₀, hs₀⟩)
        · exact .inr ((v.drift.converted hzid hc).mono sub)
    · exact .inr (hnew.mono sub)

theorem initial (o : g₀.Orderly) (horder : g₀.runOrder = .ok order) : ScalesPassed g₀ order ([], g₀) := by
  refine ⟨⟨o, .refl, fun _ => .inl rfl, fun _ => .inl rfl, fun _ _ _ _ _ => rfl⟩, fun _ _ _ _ _ _ => rfl,
    fun id s hs hid => ?_, fun z s hs => .inl ⟨s, hs⟩⟩
  exact absurd ((runOrder_perm horder).mem_iff.2 (mem_liveIds.2 ⟨s, hs⟩)) hid

/-- Propagation through all stages in running order serves them all. -/
theorem sweep (o : g₀.Orderly) (hpos : ∀ x, g₀.Asked x → x.isPositive = true) (horder : g₀.runOrder = .ok order)
    (h : Pass.sweepWith order Graph.scaleStage ([], g₀) = .ok (st, changed)) : ScalesPassed g₀ [] st := by
  refine (Pass.sweepWith_keeps (fun rest st => ScalesPassed g₀ rest st ∧ ∃ done, order = done ++ rest) ?_
    ⟨initial o horder, [], rfl⟩ h).1
  rintro id rest st₁ st₂ here ⟨p, done, hsplit⟩ h
  exact ⟨p.scaleStage o.wellFormed hpos horder hsplit h, done ++ [id], by simp [hsplit]⟩

end ScalesPassed

end NetLower.Graph
