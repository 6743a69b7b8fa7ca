/-
The scales that propagation notes while it visits the stages.  Stages come in running order,
so once a stage is visited nothing that it reads is written any more, and what is noted for
those tensors stays.  A visit notes scales for what its stage writes and for the tensors it
puts in, leads no edge elsewhere but inputs of its stage, and puts in affine powers that
convert one noted scale into another.
-/
import NetLower.Proofs.Pass.Frame
import NetLower.Proofs.Pass.OrderRest

namespace NetLower

theorem F32.isZero_of_isPositive {x : F32} (h : x.isPositive = true) : x.isZero = false := by
  revert h
  unfold isPositive isZero
  cases x.value <;> simp

/-- Numbers that compare as equal are the same one, unless they are zeros. -/
theorem F32.eq_of_numEq {x y : F32} (h : x.numEq y = true) (hx : x.isZero = false) : x = y := by
  simp only [numEq, hx, Bool.false_and, Bool.or_false, Bool.and_eq_true, beq_iff_eq] at h
  cases x
  cases y
  simp_all

/-! ## What stages say about scales -/

namespace Report

variable {α : Type} {s : Site} {r : Report α} {a x : α} {slot : Nat}

theorem mem_setInput (h : some x ∈ (r.setInput slot a).inputs) : x = a ∨ some x ∈ r.inputs := by
  rcases List.mem_or_eq_of_mem_set h with h | h
  · exact .inr h
  · exact .inl (Option.some.inj h)

theorem mem_setOutput (h : some x ∈ (r.setOutput slot a).outputs) : x = a ∨ some x ∈ r.outputs := by
  rcases List.mem_or_eq_of_mem_set h with h | h
  · exact .inr h
  · exact .inl (Option.some.inj h)

/-- Every value of the report has the property. -/
def All (r : Report α) (P : α → Prop) : Prop := ∀ x, some x ∈ r.inputs ∨ some x ∈ r.outputs → P x

variable {P : α → Prop}

theorem All.blank : (blank s).All P := by
  intro x hx
  simp [Report.blank] at hx

theorem All.setInput (h : r.All P) (ha : P a) : (r.setInput slot a).All P := by
  rintro x (hx | hx)
  · rcases mem_setInput hx with rfl | hx
    · exact ha
    · exact h x (.inl hx)
  · exact h x (.inr hx)

theorem All.setOutput (h : r.All P) (ha : P a) : (r.setOutput slot a).All P := by
  rintro x (hx | hx)
  · exact h x (.inl hx)
  · rcases mem_setOutput hx with rfl | hx
    · exact ha
    · exact h x (.inr hx)

end Report

namespace Site

variable {s : Site} {scales : List F32} {step : ScaleStep} {report : Report F32} {attrs : Attrs}

/-- The scale that the inputs of a concatenation are brought to. -/
def commonScale (scales : List F32) : F32 :=
  if scales.all (·.numEq (mainScale scales)) then mainScale scales else F32.one

/-- If some input has no scale, then none of them is to have one. -/
theorem commonScale_eq_one (h : F32.one ∈ scales) : commonScale scales = F32.one := by
  unfold commonScale
  split
  next hall => exact (F32.eq_of_numEq (List.all_eq_true.1 hall _ h) (by decide)).symm
  · rfl

theorem concatScale_eq_ok (h : s.concatScale scales = .ok report) :
    report =
      { Report.blank s with inputs := s.inputs.map fun _ => some (commonScale scales) : Report F32 }.setOutput 0
        (commonScale scales) := by
  simp only [concatScale, Outcome.bind_eq_ok, Outcome.pure_eq_ok] at h
  obtain ⟨_, _, rfl⟩ := h
  rfl

section property

variable {P : F32 → Prop}

theorem mainScale_of_all (hone : P F32.one) (hall : ∀ x ∈ scales, P x) : P (mainScale scales) := by
  cases scales with
  | nil => exact hone
  | cons x rest => exact hall x (by simp)

theorem passScale_all (hone : P F32.one) (hall : ∀ x ∈ scales, P x) : (s.passScale scales).All P := by
  rintro x (hx | hx)
  · simp [passScale, Report.blank] at hx
  · obtain ⟨_, _, hx⟩ := List.mem_map.1 hx
    exact Option.some.inj hx ▸ mainScale_of_all hone hall

theorem weightableScale_all (hone : P F32.one) (hall : ∀ x ∈ scales, P x)
    (h : s.weightableScale scales step = .ok report) : report.All P := by
  have hmain := mainScale_of_all hone hall
  simp only [weightableScale, Outcome.bind_eq_ok, Outcome.pure_eq_ok] at h
  obtain ⟨biases, _, _, _, rfl⟩ := h
  have first : P (if step = .propagate then F32.one else mainScale scales) := by
    split
    · exact hone
    · exact hmain
  split
  · exact ((Report.All.blank.setInput first).setInput hmain).setOutput hmain
  · exact (Report.All.blank.setInput first).setOutput hmain

theorem concatScale_all (hone : P F32.one) (hall : ∀ x ∈ scales, P x) (h : s.concatScale scales = .ok report) :
    report.All P := by
  have hcommon : P (commonScale scales) := by
    unfold commonScale
    split
    · exact mainScale_of_all hone hall
    · exact hone
  rw [concatScale_eq_ok h]
  refine Report.All.setOutput ?_ hcommon
  rintro x (hx | hx)
  · obtain ⟨_, _, hx⟩ := List.mem_map.1 hx
    exact Option.some.inj hx ▸ hcommon
  · simp [Report.blank] at hx

theorem powerScale_all (hone : P F32.one) (hall : ∀ x ∈ scales, P x)
    (h : s.powerScale scales step = .ok (report, attrs)) : report.All P := by
  obtain ⟨_, _, ⟨_, rfl, _⟩ | ⟨_, rfl, _⟩⟩ := powerScale_eq_ok h
  · exact (Report.All.blank.setInput hone).setOutput hone
  · exact Report.All.blank.setOutput (mainScale_of_all hone hall)

/-- A stage speaks of no scales but 1 and those it is asked about. -/
theorem scale_all (hone : P F32.one) (hall : ∀ x ∈ scales, P x)
    (h : s.kind.family.scale s scales step = .ok (report, attrs)) : report.All P := by
  have keep {r : Outcome (Report F32)} (hr : ∀ {x}, r = .ok x → x.All P)
      (h : (do return (← r, s.attrs)) = Except.ok (report, attrs)) : report.All P := by
    simp only [Outcome.bind_eq_ok, Outcome.pure_eq_ok, Prod.mk.injEq] at h
    obtain ⟨_, hx, rfl, _⟩ := h
    exact hr hx
  have weightable {x} (hx : s.weightableScale scales step = .ok x) := weightableScale_all hone hall hx
  cases hf : s.kind.family <;> rw [hf] at h
  case power => exact powerScale_all hone hall h
  case convolution | fullyConnected => exact keep weightable h
  case concat => exact keep (concatScale_all hone hall) h
  case pooling | permute | copy | split =>
    cases h
    exact passScale_all hone hall
  case stub =>
    simp only [StageFamily.scale, Outcome.bind_eq_ok] at h
    obtain ⟨sort, _, h⟩ := h
    cases sort with
    | weightable => exact keep weightable h
    | pooling =>
      obtain ⟨_, _, h⟩ := Outcome.bind_eq_ok.1 h
      cases h
      exact Report.All.blank.setOutput (mainScale_of_all hone hall)
  case hardware =>
    simp only [StageFamily.scale, Outcome.bind_eq_ok] at h
    obtain ⟨op, _, h⟩ := h
    split at h
    · exact keep weightable h
    · cases h
      exact passScale_all hone hall

end property

end Site

namespace Scales

theorem get_set (scales : Scales) (t d : DataId) (x : F32) :
    (scales.set t x).get d = if d = t then x else scales.get d := by
  unfold get set
  rw [List.lookup_cons]
  by_cases h : d = t
  · simp [h]
  · rw [show (d == t) = false by simpa using h, if_neg h]

/-- Notes are about the tensors they name. -/
theorem get_foldl_set {notes : List (DataId × Option F32)} {scales : Scales} {d : DataId}
    (h : ∀ note ∈ notes, note.1 ≠ d) :
    (notes.foldl (fun scales x => scales.set x.1 (x.2.getD F32.one)) scales).get d = scales.get d := by
  induction notes generalizing scales with
  | nil => rfl
  | cons note notes ih =>
    rw [List.foldl_cons, ih fun x hx => h x (by simp [hx]), get_set, if_neg (h note (by simp)).symm]

/-- What is noted for a tensor is one of the notes or was noted before. -/
theorem get_foldl_set_cases (notes : List (DataId × Option F32)) (scales : Scales) (d : DataId) :
    (notes.foldl (fun scales x => scales.set x.1 (x.2.getD F32.one)) scales).get d = scales.get d ∨
      ∃ note ∈ notes, note.1 = d ∧
        (notes.foldl (fun scales x => scales.set x.1 (x.2.getD F32.one)) scales).get d = note.2.getD F32.one := by
  induction notes generalizing scales with
  | nil => exact .inl rfl
  | cons note notes ih =>
    rw [List.foldl_cons]
    rcases ih (scales.set note.1 (note.2.getD F32.one)) with h | ⟨x, hx, hd, h⟩
    · rw [h, get_set]
      split
      next heq => exact .inr ⟨note, by simp, heq.symm, rfl⟩
      · exact .inl rfl
    · exact .inr ⟨x, by simp [hx], hd, h⟩

end Scales

namespace Graph

variable {g₀ g g' : Graph} {pending : List StageId} {st st' st'' : Scales × Graph} {id : StageId} {s : Stage}
  {edge : EdgeId} {changed : Bool}

/-! ## Scales and edges -/

/-- The scale of 1, or one that some stage asks for. -/
def Asked (g : Graph) (x : F32) : Prop :=
  x = F32.one ∨ ∃ id s, g.stage? id = some s ∧ s.attrs.getFloat .scaleFactor = .ok x

/-- The scale noted for the tensor that an edge leads to. -/
def scaleAt (st : Scales × Graph) (e : EdgeId) : Option F32 := (st.2.target? e).map st.1.get

/-- A stage does nothing but multiply one tensor into another. -/
def Rescales (g : Graph) (z : StageId) (source target : DataId) (factor : F32) : Prop :=
  ∃ s e e', g.stage? z = some s ∧ s.kind = .power ∧ s.inputs = [e] ∧ s.outputs = [e'] ∧
    g.target? e = some source ∧ g.target? e' = some target ∧
    s.attrs.getFloat .scale = .ok factor ∧ s.attrs.getFloat .power = .ok F32.one ∧
    s.attrs.getFloat .bias = .ok F32.zero

theorem rescaleAttrs_eq_ok {factor : F32} {attrs : Attrs} (h : rescaleAttrs factor = .ok attrs) :
    attrs.getFloat .scale = .ok factor ∧ attrs.getFloat .power = .ok F32.one ∧
      attrs.getFloat .bias = .ok F32.zero := by
  refine ⟨?_, ?_, ?_⟩ <;> exact Attrs.getFloat_of_get? (Attrs.get?_setAll h)

theorem Added.rescales {name : String} {factor : F32} {attrs : Attrs} {source target : DataId} {z : StageId}
    (h : Added g { name, kind := .power, attrs } [source] [target] z g')
    (hattrs : rescaleAttrs factor = .ok attrs) : g'.Rescales z source target factor := by
  refine ⟨_, _, _, by rw [h.stage?, if_pos rfl], rfl, rfl, rfl, ?_, ?_, rescaleAttrs_eq_ok hattrs⟩
  · exact target?_of_edge? (h.input 0 source rfl)
  · exact target?_of_edge? (h.output 0 target rfl)

/-- A rescaling stage whose edges still lead where they led. -/
theorem Rescales.congr {z : StageId} {source target source' target' : DataId} {factor : F32}
    (h : g.Rescales z source target factor) (hstage : g'.stage? z = g.stage? z)
    (hin : ∀ s e, g.stage? z = some s → e ∈ s.slots .input → g.target? e = some source →
      g'.target? e = some source')
    (hout : ∀ s e, g.stage? z = some s → e ∈ s.slots .output → g.target? e = some target →
      g'.target? e = some target') : g'.Rescales z source' target' factor := by
  obtain ⟨s, e, e', hs, hkind, he, he', hsource, htarget, hattrs⟩ := h
  refine ⟨s, e, e', hstage.trans hs, hkind, he, he', hin s e hs ?_ hsource, hout s e' hs ?_ htarget, hattrs⟩
  · simp [Stage.slots, he]
  · simp [Stage.slots, he']

/-- No stage that is still to come writes the tensor, so what is noted for it stays. -/
def Settled (g₀ : Graph) (pending : List StageId) (g : Graph) (d : DataId) : Prop :=
  (∃ node, g.data? d = some node) ∧ ∀ id ∈ pending, ¬ g₀.Touches .output id d

theorem Settled.kept {d : DataId} (h : Settled g₀ pending g d) (hkept : g.KeepsTensors g') :
    Settled g₀ pending g' d := by
  obtain ⟨⟨node, hnode⟩, hnone⟩ := h
  obtain ⟨node', hnode', _⟩ := hkept d node hnode
  exact ⟨⟨node', hnode'⟩, hnone⟩

theorem Settled.mono {pending' : List StageId} {d : DataId} (h : Settled g₀ pending g d)
    (hsub : ∀ id ∈ pending', id ∈ pending) : Settled g₀ pending' g d :=
  ⟨h.1, fun id hid => h.2 id (hsub id hid)⟩

/-- A stage that was put in converts the scale noted for one settled tensor into that of another. -/
def Converts (g₀ : Graph) (pending : List StageId) (st : Scales × Graph) (z : StageId) : Prop :=
  ∃ source target node, st.2.Rescales z source target (st.1.get target / st.1.get source) ∧
    Settled g₀ pending st.2 source ∧ Settled g₀ pending st.2 target ∧
    st.2.data? target = some node ∧ node.usage = .intermediate

/-! ## What is left alone -/

/-- What part of a visit leaves alone: stages that are not visited, the tensors that edges lead to
but for inputs of the stage, and what is noted for settled tensors. New stages convert scales. -/
structure Drift (g₀ : Graph) (pending : List StageId) (id : StageId) (st st' : Scales × Graph) : Prop where
  framed : st.2.Framed .scale st'.2
  others : ∀ z s, z ≠ id → st.2.stage? z = some s → st'.2.stage? z = some s
  targets : ∀ z s kind e, st.2.stage? z = some s → e ∈ s.slots kind → z ≠ id ∨ kind = .output →
    st'.2.target? e = st.2.target? e
  scales : ∀ d, Settled g₀ pending st.2 d → st'.1.get d = st.1.get d
  converts : ∀ z s, st'.2.stage? z = some s → (∃ s₀, st.2.stage? z = some s₀) ∨ Converts g₀ pending st' z

namespace Drift

theorem refl : Drift g₀ pending id st st :=
  ⟨.refl, fun _ _ _ hs => hs, fun _ _ _ _ _ _ _ => rfl, fun _ _ => rfl, fun _ s hs => .inl ⟨s, hs⟩⟩

theorem rescales {z : StageId} {source target : DataId} {factor : F32} (h : Drift g₀ pending id st st')
    (hz : z ≠ id) (hr : st.2.Rescales z source target factor) : st'.2.Rescales z source target factor := by
  have hstage : st'.2.stage? z = st.2.stage? z := by
    obtain ⟨s, _, _, hs, _⟩ := hr
    rw [h.others z s hz hs, hs]
  exact hr.congr hstage (fun s e hs he ht => (h.targets z s .input e hs he (.inl hz)).trans ht)
    (fun s e hs he ht => (h.targets z s .output e hs he (.inl hz)).trans ht)

theorem converted {z : StageId} (h : Drift g₀ pending id st st') (hz : z ≠ id) (hc : Converts g₀ pending st z) :
    Converts g₀ pending st' z := by
  obtain ⟨source, target, node, hr, hsource, htarget, hnode, husage⟩ := hc
  obtain ⟨node', hnode', kept⟩ := h.framed.tensors target node hnode
  refine ⟨source, target, node', ?_, hsource.kept h.framed.tensors, htarget.kept h.framed.tensors, hnode', ?_⟩
  · rw [h.scales target htarget, h.scales source hsource]
    exact h.rescales hz hr
  · exact (congrArg Role.usage kept.role).trans husage

theorem trans (hid : ∃ s, st.2.stage? id = some s) (h : Drift g₀ pending id st st')
    (h' : Drift g₀ pending id st' st'') : Drift g₀ pending id st st'' := by
  refine ⟨h.framed.trans h'.framed, fun z s hz hs => h'.others z s hz (h.others z s hz hs),
    fun z s kind e hs he hwho => ?_, fun d hd => (h'.scales d (hd.kept h.framed.tensors)).trans (h.scales d hd),
    fun z s hs => ?_⟩
  · obtain ⟨s', hs', kept⟩ := h.framed.stages z s hs
    exact (h'.targets z s' kind e hs' (kept.slots ▸ he) hwho).trans (h.targets z s kind e hs he hwho)
  · rcases h'.converts z s hs with ⟨s', hs'⟩ | hc
    · rcases h.converts z s' hs' with hold | hc
      · exact .inl hold
      · by_cases hz : z = id
        · exact .inl (hz ▸ hid)
        · exact .inr (h'.converted hz hc)
    · exact .inr hc

/-- A stage that is not visited reads the scales it read. -/
theorem scaleAt_eq {z : StageId} {e : EdgeId} (h : Drift g₀ pending id st st') (hz : z ≠ id)
    (hs : st.2.stage? z = some s) (he : e ∈ s.inputs)
    (hsettled : ∀ d, st.2.target? e = some d → Settled g₀ pending st.2 d) : scaleAt st' e = scaleAt st e := by
  unfold scaleAt
  rw [h.targets z s .input e hs he (.inl hz)]
  cases ht : st.2.target? e with
  | none => rfl
  | some d => exact congrArg some (h.scales d (hsettled d ht))

theorem joins_output {e : EdgeId} {d : DataId} (h : Drift g₀ pending id st st') (hj : st.2.Joins .output e d) :
    st'.2.Joins .output e d := by
  obtain ⟨z, s, hs, he, ht⟩ := hj
  obtain ⟨s', hs', kept⟩ := h.framed.stages z s hs
  exact ⟨z, s', hs', kept.slots ▸ he, (h.targets z s .output e hs he (.inr rfl)).trans ht⟩

end Drift

/-! ## What is known of the notes -/

/-- What holds throughout: notes are of scales that are asked for, about tensors that stages write,
and no stage of `g₀` writes another tensor than it did. -/
structure ScalesNoted (g₀ : Graph) (st : Scales × Graph) : Prop where
  orderly : st.2.Orderly
  framed : g₀.Framed .scale st.2
  asked : ∀ d, g₀.Asked (st.1.get d)
  written : ∀ d, st.1.get d = F32.one ∨ ∃ e, st.2.Joins .output e d
  outputs : ∀ z s e, g₀.stage? z = some s → e ∈ s.outputs → st.2.target? e = g₀.target? e

namespace ScalesNoted

variable {d : DataId} {node : Data}

/-- Nothing is noted for what no stage writes. -/
theorem unscaled (n : ScalesNoted g₀ st) (hnode : st.2.data? d = some node)
    (hsource : node.usage = .const ∨ node.usage = .fake) : st.1.get d = F32.one := by
  refine (n.written d).resolve_right fun ⟨e, hj⟩ => ?_
  rcases n.orderly.wellFormed.usage_of_written hj hnode with hu | hu <;> simp [hu] at hsource

/-- A tensor that was put in is none of those that the stages of `g₀` write. -/
theorem settled_new (n : ScalesNoted g₀ st) (wf₀ : g₀.WellFormed) (hnew : st.2.data? d = none)
    (hnode : g'.data? d = some node) : Settled g₀ pending g' d := by
  refine ⟨⟨node, hnode⟩, fun id _ htouches => ?_⟩
  obtain ⟨node₀, hnode₀⟩ := wf₀.data_of_touches htouches
  obtain ⟨node', hnode', _⟩ := n.framed.tensors d node₀ hnode₀
  rw [hnew] at hnode'
  cases hnode'

theorem drift (n : ScalesNoted g₀ st) (h : Drift g₀ pending id st st') (o : st'.2.Orderly)
    (hnotes : ∀ d, st'.1.get d = st.1.get d ∨ g₀.Asked (st'.1.get d) ∧ ∃ e, st'.2.Joins .output e d) :
    ScalesNoted g₀ st' := by
  refine ⟨o, n.framed.trans h.framed, fun d => ?_, fun d => ?_, fun z s e hs he => ?_⟩
  · rcases hnotes d with heq | ⟨hasked, _⟩
    · exact heq ▸ n.asked d
    · exact hasked
  · rcases hnotes d with heq | ⟨_, hjoins⟩
    · rcases n.written d with hone | ⟨e, hj⟩
      · exact .inl (heq.trans hone)
      · exact .inr ⟨e, h.joins_output hj⟩
    · exact .inr hjoins
  · obtain ⟨s', hs', kept⟩ := n.framed.stages z s hs
    rw [← n.outputs z s e hs he]
    exact h.targets z s' .output e hs' (kept.slots ▸ he) (.inr rfl)

end ScalesNoted

end Graph

end NetLower
