/-
What the checks of slots find out.  A check passes exactly if the tensors at the slots are
what the stage expects; what the expectations say about sizes survives every change that
keeps type, rank and use.
-/
import NetLower.Pass.Check
import NetLower.Proofs.Attr
import NetLower.Proofs.Graph.Sites
import NetLower.Proofs.Tensor

namespace NetLower

namespace Look

/-- Tensors of one type, rank and use. At input 0 any tensor that is there will do. -/
structure Akin (slot : Nat) (v v' : Look) : Prop where
  dtype : v'.desc.dtype = v.desc.dtype
  rank : v'.desc.rank = v.desc.rank
  fake : v'.usage = .fake ↔ v.usage = .fake
  const : slot ≠ 0 → (v'.usage = .const ↔ v.usage = .const)

/-- Akin tensors of the same sizes. -/
structure Alike (slot : Nat) (v v' : Look) : Prop extends Akin slot v v' where
  dims : v'.desc.dims = v.desc.dims

/-- Akin tensors at every slot. -/
def akin : SlotRel := fun _ => Akin

/-- Alike tensors at every slot. -/
def alike : SlotRel := fun _ => Alike

theorem Alike.of_dims {slot : Nat} {v v' : Look} (hdims : v'.desc.dims = v.desc.dims)
    (hdtype : v'.desc.dtype = v.desc.dtype) (hfake : v'.usage = .fake ↔ v.usage = .fake)
    (hconst : slot ≠ 0 → (v'.usage = .const ↔ v.usage = .const)) : v.Alike slot v' :=
  ⟨⟨hdtype, congrArg List.length hdims, hfake, hconst⟩, hdims⟩

theorem Alike.refl {slot : Nat} {v : Look} : v.Alike slot v := .of_dims rfl rfl .rfl fun _ => .rfl

theorem Alike.trans {slot : Nat} {v v' v'' : Look} (h : v.Alike slot v') (h' : v'.Alike slot v'') :
    v.Alike slot v'' :=
  .of_dims (h'.dims.trans h.dims) (h'.dtype.trans h.dtype) (h'.fake.trans h.fake)
    fun hslot => (h'.const hslot).trans (h.const hslot)

/-- A tensor that is computed or given may be exchanged for an intermediate. -/
theorem Alike.intermediate {slot : Nat} {node : Data} {desc : Desc} (hdims : desc.dims = node.desc.dims)
    (hdtype : desc.dtype = node.desc.dtype) (hfake : node.usage ≠ .fake)
    (hconst : slot ≠ 0 → node.usage ≠ .const) : node.look.Alike slot ⟨desc, .intermediate⟩ :=
  .of_dims hdims hdtype ⟨nofun, fun h => absurd h hfake⟩ fun hslot => ⟨nofun, fun h => absurd h (hconst hslot)⟩

/-- A constant may be exchanged for another one. -/
theorem Alike.constant {slot : Nat} {node : Data} {desc : Desc} (hdims : desc.dims = node.desc.dims)
    (hdtype : desc.dtype = node.desc.dtype) (hconst : node.usage = .const) : node.look.Alike slot ⟨desc, .const⟩ :=
  .of_dims hdims hdtype (by simp [Data.look, hconst]) fun _ => by simp [Data.look, hconst]

/-- A tensor that some stage writes may be exchanged for an intermediate. -/
theorem Alike.written {slot : Nat} {node : Data} {desc : Desc} (hdims : desc.dims = node.desc.dims)
    (hdtype : desc.dtype = node.desc.dtype) (hu : node.usage = .output ∨ node.usage = .intermediate) :
    node.look.Alike slot ⟨desc, .intermediate⟩ :=
  .intermediate hdims hdtype (by rcases hu with hu | hu <;> simp [hu])
    fun _ => by rcases hu with hu | hu <;> simp [hu]

end Look

namespace Site

variable {s s' : Site}

theorem Like.mono {R R' : SlotRel} (h : s.Like R s') (hR : ∀ kind k v v', R kind k v v' → R' kind k v v') :
    s.Like R' s' := ⟨h.kind, h.attrs, h.length, fun kind k d d' hd hd' => hR _ _ _ _ (h.slot kind k d d' hd hd')⟩

theorem Like.trans {R : SlotRel} {s'' : Site} (h : s.Like R s')
    (hR : ∀ kind k v v' v'', R kind k v v' → R kind k v' v'' → R kind k v v'') (h' : s'.Like R s'') :
    s.Like R s'' := by
  refine ⟨h'.kind.trans h.kind, h'.attrs.trans h.attrs, fun kind => (h'.length kind).trans (h.length kind), ?_⟩
  intro kind k d d'' hd hd''
  obtain ⟨d', hd', hR'⟩ := h'.slot_of hd''
  exact hR kind k _ _ _ (h.slot kind k d d' hd hd') hR'

theorem Like.akin (h : s.Like Look.alike s') : s.Like Look.akin s' := h.mono fun _ _ _ _ h => h.toAkin

/-! ## Expectations -/

/-- All tensors at the slots are of halves. -/
def Half (s : Site) : Prop := ∀ kind, ∀ d ∈ s.slots kind, d.desc.dtype = .f16

/-- There is a tensor at input 0. -/
def Solid (s : Site) : Prop := ∀ d, s.inputs[0]? = some d → d.usage ≠ .fake

/-- One tensor in and one out. -/
structure Unary (s : Site) : Prop where
  inputs : s.inputs.length = 1
  outputs : s.outputs.length = 1

/-- Activations, constant weights and biases in, where biases may be absent, and one tensor out. -/
structure Weighted (s : Site) : Prop where
  inputs : s.inputs.length = 3
  outputs : s.outputs.length = 1
  solid : s.Solid
  weights : ∀ d, s.inputs[1]? = some d → d.usage = .const
  biases : ∀ d, s.inputs[2]? = some d → d.usage = .const ∨ d.usage = .fake

/-- The tensors at input 0 and output 0 have a rank. -/
def MainRank (s : Site) (rank : Nat) : Prop := ∀ kind d, (s.slots kind)[0]? = some d → d.desc.rank = rank

section akin

variable (like : s.Like Look.akin s')

include like

theorem Half.akin (h : s.Half) : s'.Half := by
  intro kind d' hd'
  obtain ⟨k, hk⟩ := List.mem_iff_getElem?.1 hd'
  obtain ⟨d, hd, hakin⟩ := like.slot_of hk
  exact hakin.dtype.trans (h kind d (List.mem_of_getElem? hd))

theorem Solid.akin (h : s.Solid) : s'.Solid := by
  intro d' hd' hfake
  obtain ⟨d, hd, hakin⟩ := like.slot_of (show (s'.slots .input)[0]? = some d' from hd')
  exact h d hd (hakin.fake.1 hfake)

theorem Unary.akin (h : s.Unary) : s'.Unary :=
  ⟨(like.length .input).trans h.inputs, (like.length .output).trans h.outputs⟩

theorem Weighted.akin (h : s.Weighted) : s'.Weighted := by
  refine ⟨(like.length .input).trans h.inputs, (like.length .output).trans h.outputs, h.solid.akin like,
    fun d' hd' => ?_, fun d' hd' => ?_⟩
  · obtain ⟨d, hd, hakin⟩ := like.slot_of (show (s'.slots .input)[1]? = some d' from hd')
    exact (hakin.const (by decide)).2 (h.weights d hd)
  · obtain ⟨d, hd, hakin⟩ := like.slot_of (show (s'.slots .input)[2]? = some d' from hd')
    rcases h.biases d hd with hu | hu
    · exact .inl ((hakin.const (by decide)).2 hu)
    · exact .inr (hakin.fake.2 hu)

theorem MainRank.akin {rank : Nat} (h : s.MainRank rank) : s'.MainRank rank := by
  intro kind d' hd'
  obtain ⟨d, hd, hakin⟩ := like.slot_of hd'
  exact hakin.rank.trans (h kind d hd)

end akin

theorem Unary.eq (h : s.Unary) : ∃ x y, s.inputs = [x] ∧ s.outputs = [y] := by
  obtain ⟨x, hx⟩ := List.length_eq_one_iff.1 h.inputs
  obtain ⟨y, hy⟩ := List.length_eq_one_iff.1 h.outputs
  exact ⟨x, y, hx, hy⟩

theorem Weighted.eq (h : s.Weighted) : ∃ a w b y, s.inputs = [a, w, b] ∧ s.outputs = [y] ∧ a.usage ≠ .fake ∧
    w.usage = .const ∧ (b.usage = .const ∨ b.usage = .fake) := by
  obtain ⟨a, w, b, hin⟩ := List.length_eq_three.1 h.inputs
  obtain ⟨y, hy⟩ := List.length_eq_one_iff.1 h.outputs
  exact ⟨a, w, b, y, hin, hy, h.solid a (by simp [hin]), h.weights w (by simp [hin]), h.biases b (by simp [hin])⟩

/-! ## Checks -/

theorem zip_replicate {nodes : List Data} {t : ElementType} {count : Nat} (h : nodes.length = count) :
    nodes.zip (List.replicate count t) = nodes.map fun d => (d, t) := by
  subst h
  induction nodes with
  | nil => rfl
  | cons d nodes ih => simp [List.replicate_succ, ih]

theorem forall_mem_zipIdx {items : List α} {p : α → Prop} : (∀ x ∈ items.zipIdx, p x.1) ↔ ∀ a ∈ items, p a := by
  constructor
  · intro h a ha
    obtain ⟨k, hk⟩ := List.mem_iff_getElem?.1 ha
    exact h (a, k) (List.mem_zipIdx_iff_getElem?.2 hk)
  · intro h x hx
    exact h x.1 (List.fst_mem_of_mem_zipIdx hx)

/-- Every tensor of a direction has the type that is expected of all. -/
theorem forall_zip_replicate {nodes : List Data} {t : ElementType} {count : Nat} (h : nodes.length = count) :
    (∀ x ∈ (nodes.zip (List.replicate count t)).zipIdx, x.1.1.desc.dtype = x.1.2) ↔
      ∀ d ∈ nodes, d.desc.dtype = t := by
  refine (forall_mem_zipIdx (p := fun x : Data × ElementType => x.1.desc.dtype = x.2)).trans ?_
  rw [zip_replicate h]
  simp

theorem checkTypes_eq_ok {inputs outputs : Nat} :
    s.checkTypes (List.replicate inputs .f16) (List.replicate outputs .f16) = .ok () ↔
      s.inputs.length = inputs ∧ s.outputs.length = outputs ∧ s.Half := by
  have half : s.Half ↔ (∀ d ∈ s.inputs, d.desc.dtype = .f16) ∧ ∀ d ∈ s.outputs, d.desc.dtype = .f16 :=
    ⟨fun h => ⟨h .input, h .output⟩, fun h kind => by cases kind <;> [exact h.1; exact h.2]⟩
  simp only [checkTypes, Outcome.check_bind_eq_ok, Outcome.require_eq_ok, Outcome.forEach_eq_ok,
    List.length_replicate, and_assoc, half]
  refine and_congr_right fun hin => and_congr_right fun hout => ?_
  rw [forall_zip_replicate hin, forall_zip_replicate hout]

theorem checkUnary_eq_ok : s.checkUnary = .ok () ↔ s.Unary ∧ s.Half := by
  rw [checkUnary, show [ElementType.f16] = List.replicate 1 .f16 from rfl, checkTypes_eq_ok, ← and_assoc]
  exact and_congr_left fun _ => ⟨fun h => ⟨h.1, h.2⟩, fun h => ⟨h.1, h.2⟩⟩

theorem checkWeightable_eq_ok : s.checkWeightable = .ok () ↔ s.Weighted ∧ s.Half := by
  rw [checkWeightable, show [ElementType.f16, .f16, .f16] = List.replicate 3 .f16 from rfl,
    show [ElementType.f16] = List.replicate 1 .f16 from rfl]
  simp only [Outcome.check_bind_eq_ok, checkTypes_eq_ok, Outcome.forEach_eq_ok, Outcome.require_eq_ok]
  refine (and_congr_right fun _ => forall_mem_zipIdx (p := fun x : Data × List Usage => x.1.usage ∈ x.2)).trans ?_
  constructor
  · rintro ⟨⟨hin, hout, half⟩, husage⟩
    obtain ⟨a, w, b, hlist⟩ := List.length_eq_three.1 hin
    rw [hlist, weightableUsages] at husage
    simp only [List.zip_cons_cons, List.zip_nil_right, List.forall_mem_cons] at husage
    obtain ⟨ha, hw, hb, _⟩ := husage
    refine ⟨⟨hin, hout, fun d hd => ?_, fun d hd => ?_, fun d hd => ?_⟩, half⟩ <;>
      simp only [hlist, List.getElem?_cons_zero, List.getElem?_cons_succ, Option.some.injEq] at hd <;> subst hd
    · intro hfake
      simp [hfake] at ha
    · simpa using hw
    · simpa using hb
  · rintro ⟨h, half⟩
    refine ⟨⟨h.inputs, h.outputs, half⟩, ?_⟩
    obtain ⟨a, w, b, y, hin, _, ha, hw, hb⟩ := h.eq
    rw [hin, weightableUsages]
    simp only [List.zip_cons_cons, List.zip_nil_right, List.forall_mem_cons]
    refine ⟨?_, by simpa using hw, by simpa using hb, by simp⟩
    cases hu : a.usage <;> simp_all

end Site

/-- A check hands the graph on and has found a running order. -/
theorem Pass.checkAll_eq_ok {check : StageFamily → Site → Outcome Unit} {g g' : Graph} {changed : Bool}
    (h : checkAll check g = .ok (g', changed)) :
    g' = g ∧ ∃ order, g.runOrder = .ok order ∧
      ∀ id ∈ order, ∃ site, g.site id = .ok site ∧ check site.kind.family site = .ok () := by
  simp only [checkAll, Outcome.bind_eq_ok, Outcome.pure_eq_ok, Prod.mk.injEq] at h
  obtain ⟨order, horder, ⟨⟩, hall, rfl, _⟩ := h
  rw [Outcome.forEach_eq_ok] at hall
  refine ⟨rfl, order, horder, fun id hid => ?_⟩
  have hcheck := hall id hid
  rw [Outcome.bind_eq_ok] at hcheck
  exact hcheck

end NetLower
