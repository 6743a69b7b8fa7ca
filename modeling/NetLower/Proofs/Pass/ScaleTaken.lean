/-
Stages that take a scale in.  A stage with weights exchanges them and its biases for
multiples, which are looked for by name before they are made; a linear power multiplies its
own numbers.  A pool has nothing to multiply, and yet its output is noted as scaled.
-/
import NetLower.Proofs.Network.Constants
import NetLower.Proofs.Pass.ScaleFit

namespace NetLower

open NetLower.Graph

/-! ## Multiples of constants -/

section multiples

variable {consts : List (String × Array F32)} {factor : F32} {c : String × Array F32}

/-- The values under the name of the multiple of a constant; those of the multiple, if nothing has
the name. -/
def multiple (consts : List (String × Array F32)) (factor : F32) (c : String × Array F32) : Array F32 :=
  (consts.lookup (scaledName c.1 factor)).getD (c.2.map (· * factor))

/-- Under the name of the multiple of a constant there are other values. -/
def Shadowed (consts : List (String × Array F32)) (factor : F32) (c : String × Array F32) : Prop :=
  ∃ values, consts.lookup (scaledName c.1 factor) = some values ∧ values ≠ c.2.map (· * factor)

/-- Constants with the multiple of one of them, which is made only if nothing has its name. -/
def withMultiple (consts : List (String × Array F32)) (factor : F32) (c : String × Array F32) :
    List (String × Array F32) :=
  if (consts.lookup (scaledName c.1 factor)).isSome then consts
  else (scaledName c.1 factor, c.2.map (· * factor)) :: consts

theorem multiple_eq_iff : multiple consts factor c = c.2.map (· * factor) ↔ ¬ Shadowed consts factor c := by
  unfold multiple Shadowed
  cases h : consts.lookup (scaledName c.1 factor) with
  | none => simp
  | some values => simp

instance : Decidable (Shadowed consts factor c) :=
  decidable_of_iff (multiple consts factor c ≠ c.2.map (· * factor)) (by rw [Ne, multiple_eq_iff, not_not])

end multiples

namespace Graph

variable {g g' : Graph} {id : StageId} {edge : EdgeId} {d t : DataId} {node : Data} {factor : F32}
  {c : String × Array F32} {changed : Bool}

theorem scaledConst_const (h : g.scaledConst d factor = .ok (t, g')) (hnode : g.data? d = some node)
    (hconst : node.const? = some c) :
    (∃ new, g'.data? t = some new ∧ new.const? = some (scaledName c.1 factor, multiple g.consts factor c)) ∧
      g'.consts = withMultiple g.consts factor c := by
  obtain ⟨values, hvalues, rfl⟩ := Option.map_eq_some_iff.1 hconst
  simp only [scaledConst, Outcome.bind_eq_ok, data_eq_ok] at h
  obtain ⟨node', hnode', h⟩ := h
  rw [hnode, Option.some.injEq] at hnode'
  subst hnode'
  rw [hvalues] at h
  cases hfound : g.dataNamed? (scaledName node.name factor) with
  | some existing =>
    simp only [hfound, Outcome.bind_eq_ok, data_eq_ok] at h
    obtain ⟨new, hnew, h⟩ := h
    split at h
    next hsame =>
      cases h
      obtain ⟨found, hcontent⟩ : ∃ found, new.content? = some found := by
        have husage := hsame.1
        cases hrole : new.role <;> simp_all [Data.content?, Role.content?, Data.usage, Role.usage]
      obtain ⟨hname, hlookup⟩ := lookup_consts hfound hnew hcontent
      refine ⟨⟨new, hnew, ?_⟩, ?_⟩
      · simp [Data.const?, hcontent, hname, multiple, hlookup]
      · simp [withMultiple, hlookup]
    · cases h
  | none =>
    simp only [hfound] at h
    obtain ⟨_, _, _, rfl, rfl⟩ := addConst_eq_ok.1 h
    have hlookup := lookup_consts_of_none hfound
    refine ⟨⟨_, data?_pushData_self _, ?_⟩, ?_⟩
    · simp [Data.const?, Data.content?, Role.content?, multiple, hlookup]
    · rw [consts_pushData]
      simp [Data.const?, Data.content?, Role.content?, withMultiple, hlookup]

/-- The constant that an edge leads to. -/
def constAt? (g : Graph) (e : EdgeId) : Option (String × Array F32) := (g.tensor? e).bind Data.const?

theorem constAt?_eq_some : g.constAt? edge = some c ↔
    ∃ d node, g.target? edge = some d ∧ g.data? d = some node ∧ node.const? = some c := by
  simp only [constAt?, Option.bind_eq_some_iff, tensor?_eq_some]
  constructor
  · intro h
    obtain ⟨node, ⟨d, ht, hnode⟩, hconst⟩ := h
    exact ⟨d, node, ht, hnode, hconst⟩
  · intro h
    obtain ⟨d, node, ht, hnode, hconst⟩ := h
    exact ⟨node, ⟨d, ht, hnode⟩, hconst⟩

theorem scaleConst_none (h : g.scaleConst edge none = .ok (g', changed)) : g' = g := by
  simp only [Graph.scaleConst, Outcome.bind_eq_ok] at h
  obtain ⟨_, _, _, _, h⟩ := h
  split at h
  next heq => cases heq
  · cases h
    rfl

/-- An edge to a constant is led to the multiple, and no other edge is led elsewhere. -/
theorem scaleConst_const (h : g.scaleConst edge (some factor) = .ok (g', changed))
    (hfactor : factor.numEq F32.one = false) (hc : g.constAt? edge = some c) :
    g'.constAt? edge = some (scaledName c.1 factor, multiple g.consts factor c) ∧
      g'.consts = withMultiple g.consts factor c ∧
      ∀ x c', x ≠ edge → g.constAt? x = some c' → g'.constAt? x = some c' := by
  obtain ⟨d, node, ht, hnode, hconst⟩ := constAt?_eq_some.1 hc
  have husage : node.usage = .const := by
    obtain ⟨values, hvalues, _⟩ := Option.map_eq_some_iff.1 hconst
    cases hrole : node.role <;> simp_all [Data.content?, Role.content?, Data.usage, Role.usage]
  obtain ⟨r, hr, rfl⟩ := Option.map_eq_some_iff.1 ht
  simp only [Graph.scaleConst, edge_eq_ok.2 hr, Outcome.bind_eq_ok, data_eq_ok, Except.ok.injEq, exists_eq_left',
    hnode, Option.some.injEq, husage, hfactor, Bool.false_eq_true, if_false, Outcome.pure_eq_ok,
    Prod.mk.injEq] at h
  obtain ⟨⟨t, g₁⟩, hscaled, g₂, hled, rfl, _⟩ := h
  obtain ⟨⟨new, hnew, hnewconst⟩, hconsts⟩ := scaledConst_const hscaled hnode hconst
  obtain ⟨r', hled⟩ := replaceInput_led hled
  -- Tensors keep their constants.
  have kept {x : DataId} {y : Data} (hy : g₁.data? x = some y) : ∃ y', g₂.data? x = some y' ∧
      y'.const? = y.const? := by
    rw [hled.data?, hy]
    exact ⟨_, rfl, rfl⟩
  refine ⟨?_, hled.consts_eq.trans hconsts, fun x c' hx hc' => ?_⟩
  · obtain ⟨new', hnew', hshown⟩ := kept hnew
    exact constAt?_eq_some.2 ⟨t, new', by rw [hled.target?, if_pos rfl], hnew', hshown.trans hnewconst⟩
  · obtain ⟨d', y, ht', hy, hyconst⟩ := constAt?_eq_some.1 hc'
    obtain ⟨hy₁, ht₁⟩ : g₁.data? d' = some y ∧ g₁.target? x = some d' := by
      obtain ⟨_, scaled, _, _, _, _, _, rfl | ⟨_, _, _, _, rfl⟩⟩ := scaledConst_eq_ok hscaled
      · exact ⟨hy, ht'⟩
      · exact ⟨data?_pushData_old hy, ht'⟩
    obtain ⟨y', hy', hshown⟩ := kept hy₁
    exact constAt?_eq_some.2 ⟨d', y', by rw [hled.target?, if_neg hx, ht₁], hy', hshown.trans hyconst⟩

end Graph

/-! ## What a stage says -/

namespace Site

variable {s s' : Site} {scales : List F32} {report : Report F32} {attrs : Attrs} {factor : F32}

/-- The name and the values of the constant at an input. -/
def const? (s : Site) (slot : Nat) : Option (String × Array F32) := s.inputs[slot]?.bind Data.const?

/-- What the stage computes became a multiple of what it was: its weights were multiplied, and its
biases if it has any, or the numbers of a power were. -/
def Took (s s' : Site) (factor : F32) : Prop :=
  (∃ weights, s.const? 1 = some weights ∧ (s'.const? 1).map Prod.snd = some (weights.2.map (· * factor)) ∧
    ∀ biases, s.const? 2 = some biases → (s'.const? 2).map Prod.snd = some (biases.2.map (· * factor))) ∨
  s.kind = .power ∧ ∀ key ∈ [AttrKey.scale, .bias], ∃ x, s.attrs.getFloat key = .ok x ∧
    s'.attrs.getFloat key = .ok (x * factor)

/-- No multiple of the weights, nor then of the biases, has to share its name with other values. -/
def Unshadowed (s : Site) (consts : List (String × Array F32)) (factor : F32) : Prop :=
  ∀ weights, s.const? 1 = some weights → ¬ Shadowed consts factor weights ∧
    ∀ biases, s.const? 2 = some biases → ¬ Shadowed (withMultiple consts factor weights) factor biases

instance (consts : List (String × Array F32)) : Decidable (s.Unshadowed consts factor) :=
  match h : s.const? 1, h' : s.const? 2 with
  | none, _ => isTrue (by simp [Unshadowed, h])
  | some weights, none => decidable_of_iff (¬ Shadowed consts factor weights) (by simp [Unshadowed, h, h'])
  | some weights, some biases =>
    decidable_of_iff (¬ Shadowed consts factor weights ∧
      ¬ Shadowed (withMultiple consts factor weights) factor biases)
      (by simp [Unshadowed, h, h'])

theorem Unary.const?_eq_none (h : s.Unary) : s.const? 1 = none := by
  obtain ⟨x, _, hin, _⟩ := h.eq
  simp [const?, hin]

theorem Unary.unshadowed (h : s.Unary) (consts : List (String × Array F32)) : s.Unshadowed consts factor := by
  intro weights hweights
  rw [h.const?_eq_none] at hweights
  cases hweights

/-- A stage with weights asks for multiples of them and of its biases. -/
theorem weightableScale_starts (h : s.weightableScale scales .scaleInput = .ok report) (hw : s.Weighted) :
    report.outputs = [some (mainScale scales)] ∧ report.inputs = [none, some (mainScale scales),
      if (s.const? 2).isSome then some (mainScale scales) else none] := by
  obtain ⟨a, w, b, y, hin, hout, _, hconst, hbias⟩ := hw.eq
  have husage : s.biasesUsage = .ok b.usage := by
    simp only [biasesUsage, Outcome.bind_eq_ok]
    refine ⟨w, by simp [Site.input, hin], b, by simp [Site.input, hin], (), Outcome.require_eq_ok.2 hconst, ?_⟩
    rcases hbias with hbias | hbias <;> rw [hbias] <;> rfl
  have houtput : s.output 0 = .ok y := by simp [Site.output, hout]
  have hhas : (s.const? 2).isSome = decide (b.usage = .const) := by
    cases hrole : b.role <;>
      simp [const?, hin, Data.const?, Data.content?, Role.content?, Data.usage, Role.usage, hrole]
  simp only [weightableScale, husage, houtput, Outcome.bind_eq_ok, Outcome.pure_eq_ok, Except.ok.injEq,
    exists_eq_left', reduceCtorEq, if_false] at h
  subst h
  rw [hhas]
  rcases hbias with hbias | hbias <;>
    simp [hbias, hin, hout, Report.blank, Report.setInput, Report.setOutput]

/-- The answers of a stage of a layer that is asked to take a scale in: what it says, and its
attributes behind. -/
inductive Starts (s : Site) (scale : F32) : Report F32 → Attrs → Prop
  | weighted : s.kind.isWeightable = true → s.Weighted →
    Starts s scale ⟨[none, some scale, if (s.const? 2).isSome then some scale else none], [some scale]⟩ s.attrs
  | pooled : s.kind.isWeightable = false → s.kind ≠ .power → s.Unary →
    Starts s scale ⟨[none], [some scale]⟩ s.attrs
  | linear {attrs attrs' : Attrs} : s.kind = .power → s.Unary → s.attrs.mulFloat .scale scale = .ok attrs →
    attrs.mulFloat .bias scale = .ok attrs' → Starts s scale ⟨[none], [some scale]⟩ attrs'
  | curved : s.kind = .power → Starts s scale ⟨[some F32.one], [some F32.one]⟩ s.attrs

theorem family_of_stub (h : s.kind.isStub = true) : s.kind.family = .stub := by
  revert h
  cases s.kind <;> first | exact fun _ => rfl | exact nofun

theorem Early.slots_of_stub (h : s.Early) (hfamily : s.kind.family = .stub) :
    if s.kind.isWeightable then s.Weighted else s.Unary := by
  have hfit := h.fit.2
  rw [hfamily] at hfit
  obtain ⟨op, software, hlow⟩ := hfit
  have hlowering := hlow.lowering
  have hsuits := hlow.software
  cases hk : s.kind <;> rw [hk] at hlowering <;> cases hlowering
  case stubConv | stubFullyConnected | stubDeconv => exact hsuits.1
  case stubMaxPool | stubAvgPool => exact hsuits.1

theorem Early.inputs_ne_nil (h : s.Early) (hkind : s.kind.isStub = true ∨ s.kind = .power) : s.inputs ≠ [] := by
  intro hnil
  rcases hkind with hstub | hpower
  · have hslots := h.slots_of_stub (family_of_stub hstub)
    split at hslots
    · simpa [hnil] using hslots.inputs
    · simpa [hnil] using hslots.inputs
  · have hfit := h.fit.2
    rw [hpower] at hfit
    simpa [hnil] using Unary.inputs hfit

theorem stubSort_weightable (h : s.stubSort = .ok .weightable) : s.kind.isWeightable = true := by
  unfold stubSort at h
  split at h <;> simp_all [StageKind.isWeightable]

theorem stubSort_pooling (h : s.stubSort = .ok .pooling) : s.kind.isWeightable = false ∧ s.kind ≠ .power := by
  unfold stubSort at h
  split at h <;> simp_all [StageKind.isWeightable]

theorem powerScale_starts (h : s.powerScale scales .scaleInput = .ok (report, attrs)) (hkind : s.kind = .power)
    (hu : s.Unary) : s.Starts (mainScale scales) report attrs := by
  obtain ⟨x, y, hin, hout⟩ := hu.eq
  simp only [powerScale, Report.blank, Report.setInput, Report.setOutput, hin, hout, Outcome.bind_eq_ok] at h
  obtain ⟨_, _, _, _, exponent, _, h⟩ := h
  split at h
  · cases h
    exact .curved hkind
  · simp only [if_true, Outcome.bind_eq_ok, Outcome.pure_eq_ok, Prod.mk.injEq, ne_eq, reduceCtorEq,
      not_false_eq_true] at h
    obtain ⟨_, hscale, _, hbias, rfl, rfl⟩ := h
    exact .linear hkind hu hscale hbias

theorem scale_starts (early : s.Early) (hkind : s.kind.isStub = true ∨ s.kind = .power)
    (h : s.kind.family.scale s scales .scaleInput = .ok (report, attrs)) :
    s.Starts (mainScale scales) report attrs := by
  rcases hkind with hstub | hpower
  · have hfamily := family_of_stub hstub
    have hslots := early.slots_of_stub hfamily
    rw [hfamily] at h
    simp only [StageFamily.scale, Outcome.bind_eq_ok] at h
    obtain ⟨sort, hsort, h⟩ := h
    cases sort with
    | weightable =>
      have hweightable := stubSort_weightable hsort
      rw [if_pos hweightable] at hslots
      simp only [Outcome.bind_eq_ok, Outcome.pure_eq_ok, Prod.mk.injEq] at h
      obtain ⟨⟨inputs, outputs⟩, h, rfl, rfl⟩ := h
      obtain ⟨houtputs, hinputs⟩ := weightableScale_starts h hslots
      rw [show inputs = _ from hinputs, show outputs = _ from houtputs]
      exact .weighted hweightable hslots
    | pooling =>
      obtain ⟨hunweighted, hpower⟩ := stubSort_pooling hsort
      rw [if_neg (by simp [hunweighted])] at hslots
      obtain ⟨x, y, hin, hout⟩ := hslots.eq
      simp only [Outcome.bind_eq_ok, Outcome.pure_eq_ok, Prod.mk.injEq, Report.blank, Report.setOutput, hin,
        hout] at h
      obtain ⟨_, _, rfl, rfl⟩ := h
      exact .pooled hunweighted hpower hslots
  · have hfit := early.fit.2
    rw [hpower] at h hfit
    exact powerScale_starts h hpower hfit

end Site

/-! ## What becomes of it -/

namespace Graph

variable {g g' : Graph} {id : StageId} {site site' : Site} {factor : F32} {changed : Bool}

theorem setAttrs_self (hs : g.stage? id = some s) : g.setAttrs id s.attrs = g := by
  have hstages : g.stages.modify id.index (fun x => x.map fun x => { x with attrs := s.attrs }) = g.stages := by
    refine Array.ext_getElem? fun k => ?_
    rw [Array.getElem?_modify]
    split
    next hk =>
      subst hk
      rw [stage?] at hs
      cases hx : g.stages[id.index]? with
      | none => rfl
      | some x =>
        rw [hx, Option.join_some] at hs
        subst hs
        rfl
    · rfl
  rw [setAttrs, modifyStage, hstages]

theorem const?_of_site (h : g.site id = .ok site) {slot : Nat} {e : EdgeId}
    (he : site.stage.inputs[slot]? = some e) : site.const? slot = g.constAt? e := by
  rw [Site.const?, show site.inputs[slot]? = g.tensor? e
    from slot_of_site h (show (site.stage.slots .input)[slot]? = _ from he)]
  rfl

/-- The edges of a stage with weights. -/
theorem WellFormed.weighted_edges (wf : g.WellFormed) (hsite : g.site id = .ok site) (hw : site.Weighted) :
    ∃ e₀ e₁ e₂, site.stage.inputs = [e₀, e₁, e₂] ∧ e₁ ≠ e₂ := by
  have hlen : site.stage.inputs.length = 3 := by
    rw [← hw.inputs]
    exact (length_of_site hsite .input).symm
  obtain ⟨e₀, e₁, e₂, hedges⟩ := List.length_eq_three.1 hlen
  refine ⟨e₀, e₁, e₂, hedges, fun heq => ?_⟩
  have hs := (site_eq_ok.1 hsite).1
  obtain ⟨_, _, he₁, _⟩ := wf.slots id _ .input 1 e₁ hs (by simp [Stage.slots, hedges])
  obtain ⟨_, _, he₂, _⟩ := wf.slots id _ .input 2 e₂ hs (by simp [Stage.slots, hedges])
  rw [heq, he₂] at he₁
  cases he₁

/-- The constants of a stage with weights behind its visit: what is found under the names of their
multiples. -/
theorem WellFormed.consts_of_sweep {weights : String × Array F32} (wf : g.WellFormed)
    (hsite : g.site id = .ok site) (hw : site.Weighted) (hfactor : factor.numEq F32.one = false)
    (hweights : site.const? 1 = some weights)
    (h : Pass.sweep
      (site.stage.inputs.zip [none, some factor, if (site.const? 2).isSome then some factor else none])
      (fun g x => g.scaleConst x.1 x.2) g = .ok (g', changed)) (hsite' : g'.site id = .ok site') :
    (site'.const? 1).map Prod.snd = some (multiple g.consts factor weights) ∧
      ∀ biases, site.const? 2 = some biases →
        (site'.const? 2).map Prod.snd = some (multiple (withMultiple g.consts factor weights) factor biases) := by
  obtain ⟨e₀, e₁, e₂, hedges, hne⟩ := wf.weighted_edges hsite hw
  simp only [hedges, Pass.sweep, List.zip_cons_cons, List.zip_nil_right, List.foldlM_cons, List.foldlM_nil,
    Outcome.bind_eq_ok, Outcome.pure_eq_ok] at h
  obtain ⟨_, ⟨⟨g₀, _⟩, hinput, rfl⟩, _, ⟨⟨g₁, _⟩, hscale, rfl⟩, _, ⟨⟨g₂, _⟩, hbias, rfl⟩, rfl, _⟩ := h
  obtain rfl := scaleConst_none hinput
  -- The edges are the same behind the visit.
  have hstage : site'.stage = site.stage := by
    have hs' := (site_eq_ok.1 hsite').1
    rw [scaleConst_stage? hbias, scaleConst_stage? hscale, (site_eq_ok.1 hsite).1, Option.some.injEq] at hs'
    exact hs'.symm
  have before {slot e} (he : [e₀, e₁, e₂][slot]? = some e) : site.const? slot = g₀.constAt? e :=
    const?_of_site hsite (hedges ▸ he)
  have after {slot e} (he : [e₀, e₁, e₂][slot]? = some e) : site'.const? slot = g₂.constAt? e :=
    const?_of_site hsite' (by rw [hstage, hedges, he])
  rw [@after 1 e₁ rfl, @after 2 e₂ rfl]
  rw [@before 1 e₁ rfl] at hweights
  obtain ⟨hfirst, hconsts, hkept⟩ := scaleConst_const hscale hfactor hweights
  cases hb : site.const? 2 with
  | none =>
    rw [hb] at hbias
    obtain rfl := scaleConst_none hbias
    exact ⟨by rw [hfirst]; rfl, nofun⟩
  | some biases =>
    rw [hb] at hbias
    rw [@before 2 e₂ rfl] at hb
    obtain ⟨hsecond, _, hkept'⟩ := scaleConst_const hbias hfactor (hkept e₂ biases hne.symm hb)
    refine ⟨by rw [hkept' e₁ _ hne hfirst]; rfl, fun biases' hb' => ?_⟩
    cases hb'
    rw [hsecond, hconsts]
    rfl

/-- A stage with weights takes a scale in unless it is given other constants under the names of
multiples. -/
theorem WellFormed.took_iff_of_weighted (wf : g.WellFormed) (hsite : g.site id = .ok site)
    (hkind : site.kind.isWeightable = true) (hw : site.Weighted) (hfactor : factor.numEq F32.one = false)
    (h : Pass.sweep
      (site.stage.inputs.zip [none, some factor, if (site.const? 2).isSome then some factor else none])
      (fun g x => g.scaleConst x.1 x.2) g = .ok (g', changed)) (hsite' : g'.site id = .ok site') :
    site.Took site' factor ↔ site.Unshadowed g.consts factor := by
  obtain ⟨a, w, b, y, hin, _, _, hconst, _⟩ := hw.eq
  obtain ⟨weights, hweights⟩ : ∃ weights, site.const? 1 = some weights := by
    cases hrole : w.role <;>
      simp_all [Site.const?, Data.const?, Data.content?, Role.content?, Data.usage, Role.usage]
  have hpower : site.kind ≠ .power := by
    intro hpower
    rw [hpower] at hkind
    cases hkind
  obtain ⟨hfirst, hsecond⟩ := wf.consts_of_sweep hsite hw hfactor hweights h hsite'
  have htook : site.Took site' factor ↔ multiple g.consts factor weights = weights.2.map (· * factor) ∧
      ∀ biases, site.const? 2 = some biases →
        multiple (withMultiple g.consts factor weights) factor biases = biases.2.map (· * factor) := by
    simp only [Site.Took, hpower, false_and, or_false, hweights, Option.some.injEq, exists_eq_left', hfirst]
    refine and_congr_right fun _ => forall_congr' fun biases => imp_congr_right fun hb => ?_
    rw [hsecond biases hb, Option.some.injEq]
  rw [htook, multiple_eq_iff]
  simp only [Site.Unshadowed, hweights, Option.some.injEq, forall_eq', multiple_eq_iff]

/-- Where a stage with one input says nothing about it, its visit ends. -/
theorem sweep_unary_none (hsite : g.site id = .ok site) (hu : site.Unary)
    (h : Pass.sweep (site.stage.inputs.zip [none]) (fun g x => g.scaleConst x.1 x.2) g' = .ok (g₁, changed)) :
    g₁ = g' := by
  have hlen : site.stage.inputs.length = 1 := by
    rw [← hu.inputs]
    exact (length_of_site hsite .input).symm
  obtain ⟨e, hedges⟩ := List.length_eq_one_iff.1 hlen
  simp only [hedges, Pass.sweep, List.zip_cons_cons, List.zip_nil_right, List.foldlM_cons, List.foldlM_nil,
    Outcome.bind_eq_ok, Outcome.pure_eq_ok] at h
  obtain ⟨_, ⟨⟨g₀, _⟩, hinput, rfl⟩, h⟩ := h
  cases h
  exact scaleConst_none hinput

/-- Whatever a stage of a layer says when it is asked to take a scale in: it took the scale, unless
it is a pool or is given other constants under the names of multiples; or it needs unscaled values. -/
theorem WellFormed.took_iff (wf : g.WellFormed) (hsite : g.site id = .ok site) {report : Report F32}
    {attrs : Attrs} (hstarts : site.Starts factor report attrs) (hfactor : factor.numEq F32.one = false)
    (h : Pass.sweep (site.stage.inputs.zip report.inputs) (fun g x => g.scaleConst x.1 x.2) (g.setAttrs id attrs) =
      .ok (g', changed)) (hsite' : g'.site id = .ok site') :
    report.outputs = [some F32.one] ∨ report.outputs = [some factor] ∧ (site.Took site' factor ↔
      (site.kind.isWeightable = true ∨ site.kind = .power) ∧ site.Unshadowed g.consts factor) := by
  have hs := (site_eq_ok.1 hsite).1
  cases hstarts with
  | weighted hkind hw =>
    rw [show site.attrs = site.stage.attrs from rfl, setAttrs_self hs] at h
    refine .inr ⟨rfl, ?_⟩
    rw [wf.took_iff_of_weighted hsite hkind hw hfactor h hsite']
    simp [hkind]
  | pooled hkind hpower hu =>
    refine .inr ⟨rfl, ?_⟩
    simp [Site.Took, hu.const?_eq_none, hkind, hpower]
  | linear hkind hu hscale hbias =>
    refine .inr ⟨rfl, iff_of_true (.inr ⟨hkind, ?_⟩) ⟨.inr hkind, hu.unshadowed _⟩⟩
    obtain rfl := sweep_unary_none hsite hu h
    obtain ⟨old, hold, rfl⟩ := @site_modifyStage g id site' (fun s => { s with attrs }) (fun _ => rfl) hsite'
    rw [hsite, Except.ok.injEq] at hold
    subst hold
    obtain ⟨⟨x, hx, hx'⟩, hothers⟩ := Attrs.get?_mulFloat hscale
    obtain ⟨⟨y, hy, hy'⟩, hothers'⟩ := Attrs.get?_mulFloat hbias
    have hscale' : attrs.getFloat .scale = .ok (x * factor) := by
      refine Attrs.getFloat_of_get? ?_
      rw [hothers' .scale (by decide)]
      exact Attrs.get?_of_getFloat hx'
    have hbias₀ : site.attrs.getFloat .bias = .ok y := by
      refine Attrs.getFloat_of_get? ?_
      rw [← hothers .bias (by decide)]
      exact Attrs.get?_of_getFloat hy
    simp only [List.forall_mem_cons, List.not_mem_nil, false_implies, implies_true, and_true]
    exact ⟨⟨x, hx, hscale'⟩, y, hbias₀, hy'⟩
  | curved => exact .inl rfl

/-! ## One visit -/

variable {state mid state' : Scales × Graph} {actual : List F32} {hint : F32} {d : DataId} {rescaled : Bool}

theorem mainScale_const (h : actual ≠ []) : mainScale (actual.map fun _ => hint) = hint := by
  cases actual with
  | nil => exact absurd rfl h
  | cons a rest => rfl

theorem inputScales_ne_nil {scales : Scales} (hsite : g.site id = .ok site)
    (h : g.inputScales scales id = .ok actual) (hinputs : site.inputs ≠ []) : actual ≠ [] := by
  simp only [inputScales, Outcome.bind_eq_ok, Outcome.pure_eq_ok, stage_eq_ok, (site_eq_ok.1 hsite).1,
    Option.some.injEq, exists_eq_left'] at h
  obtain ⟨ids, hids, rfl⟩ := h
  have hlen := (inputs_of_site hsite hids).length_eq
  intro hnil
  rw [List.map_eq_nil_iff.1 hnil, List.length_nil] at hlen
  exact hinputs (List.length_eq_zero_iff.1 hlen.symm)

/-- What is noted for the first output. -/
theorem noted_output {scales : Scales} {s : Stage} {outputs : List DataId} {x : F32} (hs : g.stage? id = some s)
    (houtputs : g.outputIds s = .ok outputs) (hd : g.outputData id 0 = .ok d) :
    ((outputs.zip [some x]).foldl (fun scales x => scales.set x.1 (x.2.getD F32.one)) scales).get d = x := by
  obtain ⟨s', e, hs', he, ht⟩ := outputData_eq_ok.1 hd
  rw [hs, Option.some.injEq] at hs'
  subst hs'
  rw [outputIds, Outcome.mapM_eq_ok] at houtputs
  obtain ⟨d', hd', htarget⟩ := forall₂_getElem? houtputs he
  rw [edgeData_eq_ok, ht, Option.some.injEq] at htarget
  subst htarget
  cases outputs with
  | nil => cases hd'
  | cons first rest =>
    rw [List.getElem?_cons_zero, Option.some.injEq] at hd'
    subst hd'
    simp [Scales.set, Scales.get]

theorem meetScales_fits (f : state.2.Fits Site.Early) (o : state.2.Orderly)
    (h : meetScales state id = .ok (mid, rescaled)) :
    mid.2.Fits Site.Early ∧ mid.2.Orderly ∧ state.2.Extends mid.2 := by
  have hmid := @meetScales_keeps rescaled (fun g => g.Fits Site.Early ∧ g.Orderly) state mid id ?_ ?_ ⟨f, o⟩ h
  · exact ⟨hmid.1.1, hmid.1.2, hmid.2⟩
  · intro g g' scales step report hg h
    obtain ⟨o', hext⟩ := hg.2.askScale h
    exact ⟨⟨hg.1.askScale hg.2.wellFormed h, o'⟩, hext⟩
  · intro g g' s edge scales scales' wanted changed hg hs he h
    obtain ⟨o', hext⟩ := hg.2.meetScale hs he h
    exact ⟨⟨hg.1.meetScale hg.2.wellFormed hs he h, o'⟩, hext⟩

/-- A stage of a layer that takes a scale in notes it for its output. It has taken it if it is no
pool and is not given other constants under the names of multiples. -/
theorem scaleStage_took_iff (f : state.2.Fits Site.Early) (o : state.2.Orderly)
    (h : Graph.scaleStage state id = .ok (state', changed)) (hmeet : meetScales state id = .ok (mid, rescaled))
    (hsite : mid.2.site id = .ok site) (hkind : site.kind.isStub = true ∨ site.kind = .power)
    (hactual : mid.2.inputScales mid.1 id = .ok actual) (hhint : mid.2.scaleHint id = .ok hint)
    (hstarts : startsScale hint actual = true) (hd : state'.2.outputData id 0 = .ok d)
    (hnoted : (state'.1.get d).numEq F32.one = false) :
    state'.1.get d = hint ∧ ∃ site', state'.2.site id = .ok site' ∧ (site.Took site' hint ↔
      (site.kind.isWeightable = true ∨ site.kind = .power) ∧ site.Unshadowed mid.2.consts hint) := by
  obtain ⟨s, s', mid', _, actual', hint', report, asked, folded, outputs, hs, hmeet', hactual', hhint', hask,
    hfold, hs', houtputs, hscales⟩ := scaleStage_eq_ok h
  obtain ⟨rfl, _⟩ := Prod.mk.inj (Except.ok.inj (hmeet.symm.trans hmeet'))
  obtain rfl := Except.ok.inj (hactual.symm.trans hactual')
  obtain rfl := Except.ok.inj (hhint.symm.trans hhint')
  rw [if_pos hstarts, if_pos hstarts] at hask
  obtain ⟨site₀, attrs, hsite₀, hsaid, rfl⟩ := askScale_eq_ok hask
  obtain rfl := Except.ok.inj (hsite.symm.trans hsite₀)
  obtain ⟨fmid, omid, hext⟩ := meetScales_fits f o hmeet
  have early := fmid.all id site hsite
  -- What the stage says is about the scale it asks for.
  have hsaid := Site.scale_starts early hkind hsaid
  rw [mainScale_const (inputScales_ne_nil hsite hactual (early.inputs_ne_nil hkind))] at hsaid
  have hfactor : hint.numEq F32.one = false := by
    unfold startsScale at hstarts
    simpa using (Bool.and_eq_true_iff.1 hstarts).1
  have hslots : s.inputs = site.stage.inputs := by
    obtain ⟨s₁, hs₁, heq⟩ := hext id s hs
    rw [(site_eq_ok.1 hsite).1, Option.some.injEq] at hs₁
    subst hs₁
    exact (congrFun heq .input).symm
  rw [hslots] at hfold
  obtain ⟨site', hsite', _⟩ := (o.scaleStage h).wellFormed.site_of_stage hs'
  rcases omid.wellFormed.took_iff hsite hsaid hfactor hfold hsite' with hone | ⟨hout, hiff⟩
  · rw [hscales, hone, noted_output hs' houtputs hd] at hnoted
    cases hnoted
  · refine ⟨?_, site', hsite', hiff⟩
    rw [hscales, hout, noted_output hs' houtputs hd]

end Graph

end NetLower
