/-
Places in memory.  Tensors are planned one after the other, each behind all that its area
holds so far; so a plan gives every tensor that needs one a place of its own, and putting
the tensors there changes nothing else about them.
-/
import Mathlib.Data.List.Nodup
import NetLower.Proofs.Pass.LayoutFit
import NetLower.Proofs.Tensor.Places

namespace NetLower

theorem AreaSizes.get_set (a : AreaSizes) (x y : MemoryArea) (size : Nat) :
    (a.set x size).get y = if y = x then size else a.get y := by
  cases x <;> cases y <;> rfl

namespace Data

/-- The tensor has strides, and takes up this many bytes with them. -/
def Takes (d : Data) (size : Nat) : Prop :=
  ∃ strides, d.strides = some strides ∧ d.desc.byteSize strides = .ok size

theorem Takes.unique {d : Data} {size size' : Nat} (h : d.Takes size) (h' : d.Takes size') : size = size' := by
  obtain ⟨strides, hstrides, hsize⟩ := h
  obtain ⟨strides', hstrides', hsize'⟩ := h'
  rw [hstrides, Option.some.injEq] at hstrides'
  subst hstrides'
  exact Except.ok.inj (hsize.symm.trans hsize')

/-- The tensor has the strides that its descriptor and its requirement give. -/
def Strided (d : Data) : Prop := ∃ strides, d.desc.strides d.req = .ok strides ∧ d.strides = some strides

/-- From an offset on, the tensors that need a place in an area lie there one behind the other, each
in the room that alignment gives it. -/
inductive Stacked (area : MemoryArea) : Nat → List Data → Prop
  | nil {used : Nat} : Stacked area used []
  | elsewhere {used : Nat} {d : Data} {ds : List Data} : d.neededArea? ≠ some area → Stacked area used ds →
      Stacked area used (d :: ds)
  | here {used size room : Nat} {d : Data} {ds : List Data} : d.neededArea? = some area → d.Takes size →
      Size.alignUp size dataAlignment = .ok room → d.location = some ⟨area, used⟩ → Stacked area (used + room) ds →
      Stacked area used (d :: ds)

/-- Only the tensors of the area count. -/
theorem Stacked.filter {area : MemoryArea} {used : Nat} {ds : List Data} {p : Data → Bool}
    (hp : ∀ d, p d = true ↔ d.neededArea? = some area) (h : Stacked area used ds) :
    Stacked area used (ds.filter p) := by
  induction h with
  | nil => exact .nil
  | elsewhere harea _ ih =>
    rw [List.filter_cons_of_neg fun hd => harea ((hp _).1 hd)]
    exact ih
  | here harea htakes hroom hlocation _ ih =>
    rw [List.filter_cons_of_pos ((hp _).2 harea)]
    exact .here harea htakes hroom hlocation ih

end Data

namespace Graph

variable {g g' : Graph}

/-! ## Before allocation -/

/-- No tensor has a place. -/
def Unplaced (g : Graph) : Prop := ∀ d node, g.data? d = some node → node.location = none

namespace Unplaced

/-- Edits that keep the places of tensors. -/
theorem of_map (u : g.Unplaced) {f : DataId → Data → Data} (h : ∀ d, g'.data? d = (g.data? d).map (f d))
    (hf : ∀ d node, (f d node).location = node.location) : g'.Unplaced := by
  intro d node hd
  rw [h] at hd
  obtain ⟨old, hold, rfl⟩ := Option.map_eq_some_iff.1 hd
  rw [hf]
  exact u d old hold

theorem pushData (u : g.Unplaced) {node : Data} (hnode : node.location = none) : (g.pushData node).2.Unplaced := by
  intro d x hd
  rw [data?_pushData] at hd
  split at hd
  · exact Option.some.inj hd ▸ hnode
  · exact u d x hd

theorem inputLed {e : EdgeId} {r : Edge} {t : DataId} (u : g.Unplaced) (h : InputLed g e r t g') : g'.Unplaced :=
  u.of_map h.data? fun _ _ => rfl

theorem modifyData {t : DataId} {f : Data → Data} (u : g.Unplaced)
    (hf : ∀ node, (f node).location = node.location) : (g.modifyData t f).Unplaced := by
  refine u.of_map (f := fun d node => if d = t then f node else node) (fun d => ?_) fun d node => ?_
  · rw [data?_modifyData]
    split <;> simp_all
  · split
    · exact hf node
    · rfl

end Unplaced

/-- The final layout gives every tensor its strides, and no place. -/
theorem finalizeLayoutPass_strided {config : Config} {changed : Bool}
    (h : Pass.finalizeLayout.run config g = .ok (g', changed)) :
    (∀ d node, g'.data? d = some node → node.Strided) ∧ (g.Unplaced → g'.Unplaced) := by
  simp only [Pass.finalizeLayout, finalizeStages, Outcome.bind_eq_ok, Outcome.pure_eq_ok, Prod.mk.injEq] at h
  obtain ⟨g₁, ⟨order, _, hstages⟩, g₂, hstrides, rfl, _⟩ := h
  constructor
  · let I (rest : List DataId) (x : Graph) : Prop := ∀ d node, x.data? d = some node → d ∈ rest ∨ node.Strided
    have step : ∀ d rest x x', I (d :: rest) x → x.computeStrides d = Except.ok x' → I rest x' := by
      intro d rest x x' hI h y node hy
      obtain ⟨old, hold, strides, hstrides, rfl⟩ := computeStrides_eq_ok h
      rw [data?_modifyData] at hy
      split at hy
      next hyd =>
        subst hyd
        rw [hold, Option.map_some, Option.some.injEq] at hy
        subst hy
        exact .inr ⟨strides, hstrides, rfl⟩
      next hne => exact (hI y node hy).imp_left fun hmem => (List.mem_cons.1 hmem).resolve_left hne
    have hall := Outcome.foldlM_keeps I step (fun d node hd => .inl (mem_dataIds.2 ⟨node, hd⟩)) hstrides
    exact fun d node hd => (hall d node hd).resolve_left (by simp)
  · intro u
    have u₁ : g₁.Unplaced := by
      refine Outcome.foldlM_keeps (fun _ x => x.Unplaced) (fun id _ x x' u h => ?_) u hstages
      simp only [Outcome.bind_eq_ok] at h
      obtain ⟨_, _, h⟩ := h
      rcases finalizeLayout_eq_ok h with rfl | ⟨order, h⟩
      · exact u
      rcases reorderConst_eq_ok h with rfl | ⟨_, _, _, _, _, _, _, _, _, _, _, ⟨_, rfl⟩ | ⟨_, _, _, _, _, _, hled⟩⟩
      · exact u
      · exact u.modifyData fun _ => rfl
      · exact (u.pushData rfl).inputLed hled
    refine Outcome.foldlM_keeps (fun _ x => x.Unplaced) (fun d _ x x' u h => ?_) u₁ hstrides
    obtain ⟨_, _, _, _, rfl⟩ := computeStrides_eq_ok h
    exact u.modifyData fun _ => rfl

/-! ## Planning -/

theorem neededArea?_eq_some {d : Data} {area : MemoryArea} : d.neededArea? = some area ↔
    d.usage.area? = some area ∧ (d.usage = .input ∨ d.usage = .output ∨ d.isLinked = true) := by
  unfold Data.neededArea? Data.isExternal
  split
  next h => simpa [or_assoc, and_comm] using fun _ => h
  next h =>
    simp only [Bool.or_eq_true, beq_iff_eq, not_or] at h
    simp [h]

theorem planData_eq_ok {used used' : AreaSizes} {plan plan' : List (DataId × Location)} {id : DataId}
    (h : g.planData (used, plan) id = .ok (used', plan')) :
    ∃ d, g.data? id = some d ∧
      (d.neededArea? = none ∧ used' = used ∧ plan' = plan ∨
        ∃ area size room, d.neededArea? = some area ∧ d.Takes size ∧ Size.alignUp size dataAlignment = .ok room ∧
          used' = used.set area (used.get area + room) ∧ plan' = plan ++ [(id, ⟨area, used.get area⟩)]) := by
  simp only [planData, Outcome.bind_eq_ok, data_eq_ok] at h
  obtain ⟨d, hd, h⟩ := h
  refine ⟨d, hd, ?_⟩
  split at h
  next hnone =>
    cases h
    exact .inl ⟨hnone, rfl, rfl⟩
  next area harea =>
    split at h
    · cases h
    next strides hstrides =>
      simp only [Outcome.bind_eq_ok, Outcome.pure_eq_ok, Prod.mk.injEq] at h
      obtain ⟨size, hsize, room, hroom, next, hnext, rfl, rfl⟩ := h
      rw [Size.add_eq_ok hnext]
      exact .inr ⟨area, size, room, harea, ⟨strides, hstrides, hsize⟩, hroom, rfl, rfl⟩

/-- The places planned for the tensors seen so far, and how much of each area they use. -/
structure Planned (g : Graph) (seen : List DataId) (used : AreaSizes)
    (plan : List (DataId × Location)) : Prop where
  /-- Whoever has a place needs it. -/
  needed : ∀ id l, (id, l) ∈ plan → id ∈ seen ∧
    ∃ d size, g.data? id = some d ∧ d.neededArea? = some l.area ∧ d.Takes size
  /-- Whoever needs a place has it. -/
  found : ∀ id d area, id ∈ seen → g.data? id = some d → d.neededArea? = some area → ∃ l, (id, l) ∈ plan
  nodup : (plan.map Prod.fst).Nodup
  level : ∀ area, dataAlignment ∣ used.get area
  aligned : ∀ id l, (id, l) ∈ plan → dataAlignment ∣ l.offset
  below : ∀ id l d size, (id, l) ∈ plan → g.data? id = some d → d.Takes size → l.offset + size ≤ used.get l.area
  /-- Earlier places end before later ones begin. -/
  apart : plan.Pairwise fun p q => p.2.area = q.2.area →
    ∀ d size, g.data? p.1 = some d → d.Takes size → p.2.offset + size ≤ q.2.offset

theorem planned_nil (g : Graph) : g.Planned [] {} [] where
  needed := by simp
  found := by simp
  nodup := .nil
  level area := by cases area <;> exact Nat.dvd_zero _
  aligned := by simp
  below := by simp
  apart := .nil

theorem Planned.step {seen : List DataId} {used used' : AreaSizes} {plan plan' : List (DataId × Location)}
    {id : DataId} (p : g.Planned seen used plan) (hnew : id ∉ seen)
    (h : g.planData (used, plan) id = .ok (used', plan')) : g.Planned (id :: seen) used' plan' := by
  obtain ⟨d, hd, ⟨hnone, rfl, rfl⟩ | ⟨area, size, room, harea, htakes, hroom, rfl, rfl⟩⟩ := planData_eq_ok h
  · refine { p with needed := fun x l hx => ?_, found := fun x e area hx he harea => ?_ }
    · obtain ⟨hseen, hneeded⟩ := p.needed x l hx
      exact ⟨List.mem_cons_of_mem _ hseen, hneeded⟩
    · rcases List.mem_cons.1 hx with rfl | hx
      · rw [hd, Option.some.injEq] at he
        subst he
        rw [hnone] at harea
        cases harea
      · exact p.found x e area hx he harea
  · obtain ⟨hdvd, hle⟩ := Size.alignUp_eq_ok (by decide) hroom
    have hlast {x : DataId} {l : Location} : (x, l) ∈ plan ++ [(id, ⟨area, used.get area⟩)] ↔
        (x, l) ∈ plan ∨ x = id ∧ l = ⟨area, used.get area⟩ := by simp
    have hused (x : MemoryArea) : used.get x ≤ (used.set area (used.get area + room)).get x := by
      rw [AreaSizes.get_set]
      split
      next hx => exact hx ▸ Nat.le_add_right _ _
      · exact Nat.le_refl _
    refine ⟨fun x l hx => ?_, fun x e area' hx he harea' => ?_, ?_, fun x => ?_, fun x l hx => ?_,
      fun x l e size' hx he hsize' => ?_, ?_⟩
    · rcases hlast.1 hx with hx | ⟨rfl, rfl⟩
      · obtain ⟨hseen, hneeded⟩ := p.needed x l hx
        exact ⟨List.mem_cons_of_mem _ hseen, hneeded⟩
      · exact ⟨List.mem_cons_self, d, size, hd, harea, htakes⟩
    · rcases List.mem_cons.1 hx with rfl | hx
      · exact ⟨_, hlast.2 (.inr ⟨rfl, rfl⟩)⟩
      · obtain ⟨l, hl⟩ := p.found x e area' hx he harea'
        exact ⟨l, hlast.2 (.inl hl)⟩
    · rw [List.map_append, List.nodup_append]
      refine ⟨p.nodup, List.nodup_singleton _, fun x hx y hy heq => ?_⟩
      obtain ⟨⟨x', l⟩, hmem, rfl⟩ := List.mem_map.1 hx
      rw [List.map_singleton, List.mem_singleton] at hy
      subst hy
      exact hnew (heq ▸ (p.needed x' l hmem).1)
    · rw [AreaSizes.get_set]
      split
      · exact Nat.dvd_add (p.level area) hdvd
      · exact p.level x
    · rcases hlast.1 hx with hx | ⟨rfl, rfl⟩
      · exact p.aligned x l hx
      · exact p.level area
    · rcases hlast.1 hx with hx | ⟨rfl, rfl⟩
      · exact Nat.le_trans (p.below x l e size' hx he hsize') (hused l.area)
      · rw [hd, Option.some.injEq] at he
        subst he
        rw [AreaSizes.get_set, if_pos rfl, hsize'.unique htakes]
        exact Nat.add_le_add_left hle _
    · rw [List.pairwise_append]
      refine ⟨p.apart, List.pairwise_singleton _ _, fun q hq r hr hsame e size' he hsize' => ?_⟩
      rw [List.mem_singleton] at hr
      subst hr
      have := p.below q.1 q.2 e size' hq he hsize'
      rwa [show q.2.area = area from hsame] at this

theorem nodup_dataIds (g : Graph) : g.dataIds.Nodup :=
  List.Nodup.map (fun _ _ h => DataId.mk.inj h) List.nodup_range

/-- A whole plan is one for all tensors. -/
theorem plan_planned {plan : List (DataId × Location)} (h : g.plan = .ok plan) :
    ∃ used, g.Planned g.dataIds used plan := by
  simp only [Graph.plan, Outcome.bind_eq_ok, Outcome.pure_eq_ok] at h
  obtain ⟨⟨used, plan⟩, h, rfl⟩ := h
  let I (rest : List DataId) (state : AreaSizes × List (DataId × Location)) : Prop :=
    ∃ seen, seen.reverse ++ rest = g.dataIds ∧ g.Planned seen state.1 state.2
  have step : ∀ id rest state state', I (id :: rest) state → g.planData state id = Except.ok state' →
      I rest state' := by
    intro id rest state state' hI h
    obtain ⟨seen, hall, p⟩ := hI
    have hnew : id ∉ seen := by
      intro hmem
      have hnodup := g.nodup_dataIds
      rw [← hall, List.nodup_append] at hnodup
      exact hnodup.2.2 id (List.mem_reverse.2 hmem) id List.mem_cons_self rfl
    exact ⟨id :: seen, by simp [← hall], p.step hnew h⟩
  obtain ⟨seen, hall, p⟩ := Outcome.foldlM_keeps I step ⟨[], rfl, g.planned_nil⟩ h
  have hmem (id : DataId) : id ∈ seen ↔ id ∈ g.dataIds := by simp [← hall]
  exact ⟨used, { p with
    needed := fun id l hl => ⟨(hmem id).1 (p.needed id l hl).1, (p.needed id l hl).2⟩
    found := fun id d area hid => p.found id d area ((hmem id).2 hid) }⟩

/-! ## Putting tensors in their places -/

theorem data?_setLocations : ∀ {plan : List (DataId × Location)} {g : Graph} (id : DataId),
    (plan.map Prod.fst).Nodup → (plan.foldl (fun g x => g.setLocation x.1 x.2) g).data? id =
      (g.data? id).map fun d => { d with location := (plan.lookup id).or d.location }
  | [], g, id, _ => by simp
  | (x, l) :: plan, g, id, hnodup => by
    rw [List.map_cons, List.nodup_cons] at hnodup
    rw [List.foldl_cons, data?_setLocations id hnodup.2, setLocation, data?_modifyData, List.lookup_cons]
    by_cases hx : id = x
    · subst hx
      have hnone : plan.lookup id = none := by
        refine List.lookup_eq_none_iff.2 fun p hp => ?_
        exact bne_iff_ne.2 fun heq => hnodup.1 (List.mem_map.2 ⟨p, hp, heq.symm⟩)
      simp [hnone, Function.comp_def]
    · have hx' : (id == x) = false := beq_eq_false_iff_ne.2 hx
      simp [hx, hx']

/-- Only tensors change, and there are as many as before. -/
theorem setLocations_eq (plan : List (DataId × Location)) (g : Graph) :
    ∃ datas : Array Data, plan.foldl (fun g x => g.setLocation x.1 x.2) g = { g with datas } ∧
      datas.size = g.datas.size := by
  induction plan generalizing g with
  | nil => exact ⟨g.datas, rfl, rfl⟩
  | cons x plan ih =>
    obtain ⟨datas, heq, hsize⟩ := ih (g.setLocation x.1 x.2)
    exact ⟨datas, heq, hsize.trans (Array.size_modify ..)⟩

/-- Places for the tensors of a graph: those that need one have one, and no two meet. -/
structure Allocation (g : Graph) (place : DataId → Option Location) : Prop where
  area : ∀ id d, g.data? id = some d → (place id).map Location.area = d.neededArea?
  aligned : ∀ id l, place id = some l → dataAlignment ∣ l.offset
  takes : ∀ id l d, place id = some l → g.data? id = some d → ∃ size, d.Takes size
  apart : ∀ {id id' l l' d d' size size'}, id ≠ id' → place id = some l → place id' = some l' → l.area = l'.area →
    g.data? id = some d → g.data? id' = some d' → d.Takes size → d'.Takes size' →
      l.offset + size ≤ l'.offset ∨ l'.offset + size' ≤ l.offset

theorem Planned.allocation {used : AreaSizes} {plan : List (DataId × Location)}
    (p : g.Planned g.dataIds used plan) : g.Allocation fun id => plan.lookup id := by
  refine ⟨fun id d hd => ?_, fun id l hl => p.aligned id l (mem_of_lookup hl), fun id l d hl hd => ?_, ?_⟩
  · cases hl : plan.lookup id with
    | some l =>
      obtain ⟨_, d', _, hd', harea, _⟩ := p.needed id l (mem_of_lookup hl)
      rw [hd, Option.some.injEq] at hd'
      subst hd'
      exact harea.symm
    | none =>
      cases harea : d.neededArea? with
      | none => rfl
      | some area =>
        obtain ⟨l, hplanned⟩ := p.found id d area (mem_dataIds.2 ⟨d, hd⟩) hd harea
        rw [lookup_of_mem p.nodup hplanned] at hl
        cases hl
  · obtain ⟨_, d', size, hd', _, htakes⟩ := p.needed id l (mem_of_lookup hl)
    rw [hd, Option.some.injEq] at hd'
    exact ⟨size, hd' ▸ htakes⟩
  · intro id id' l l' d d' size size' hne hl hl' harea hd hd' hsize hsize'
    -- One of the two was planned before the other.
    obtain ⟨k, hk, hget⟩ := List.mem_iff_getElem.1 (mem_of_lookup hl)
    obtain ⟨k', hk', hget'⟩ := List.mem_iff_getElem.1 (mem_of_lookup hl')
    have hbefore := List.pairwise_iff_getElem.1 p.apart
    rcases Nat.lt_trichotomy k k' with hlt | rfl | hlt
    · have := hbefore k k' hk hk' hlt
      rw [hget, hget'] at this
      exact .inl (this harea d size hd hsize)
    · rw [hget, Prod.mk.injEq] at hget'
      exact absurd hget'.1 hne
    · have := hbefore k' k hk' hk hlt
      rw [hget, hget'] at this
      exact .inr (this harea.symm d' size' hd' hsize')

/-- Allocation gives every tensor that needs one a place, and leaves all else as it is. -/
theorem allocateMemory_eq_ok {config : Config} {changed : Bool}
    (h : Pass.allocateMemory.run config g = .ok (g', changed)) : ∃ place, g.Allocation place ∧ SameLinks g g' ∧
      ∀ id, g'.data? id = (g.data? id).map fun d => { d with location := (place id).or d.location } := by
  simp only [Pass.allocateMemory, Outcome.bind_eq_ok, Outcome.pure_eq_ok, Prod.mk.injEq] at h
  obtain ⟨plan, hplan, rfl, _⟩ := h
  obtain ⟨used, p⟩ := plan_planned hplan
  exact ⟨fun id => plan.lookup id, p.allocation, .setLocations plan g, fun id => data?_setLocations id p.nodup⟩

/-- Whoever needs a place has one in its area, at an aligned address. -/
theorem placed_of_needed {config : Config} {changed : Bool} {id : DataId} {d : Data} {area : MemoryArea}
    (h : Pass.allocateMemory.run config g = .ok (g', changed)) (hd : g'.data? id = some d)
    (harea : d.neededArea? = some area) :
    ∃ l, d.location = some l ∧ l.area = area ∧ dataAlignment ∣ l.offset := by
  obtain ⟨place, a, _, hplaced⟩ := allocateMemory_eq_ok h
  rw [hplaced] at hd
  obtain ⟨old, hold, rfl⟩ := Option.map_eq_some_iff.1 hd
  have hmap := a.area id old hold
  rw [show old.neededArea? = some area from harea, Option.map_eq_some_iff] at hmap
  obtain ⟨l, hl, hla⟩ := hmap
  exact ⟨l, by rw [hl]; rfl, hla, a.aligned id l hl⟩

/-- Where back references are right, a tensor that a stage touches knows so. -/
theorem WellFormed.isLinked (wf : g.WellFormed) {kind : EdgeKind} {id : StageId} {d : DataId} {node : Data}
    (h : g.Touches kind id d) (hd : g.data? d = some node) : node.isLinked = true := by
  obtain ⟨e, hj⟩ := h.joins
  unfold Data.isLinked
  cases kind with
  | input =>
    have := List.ne_nil_of_mem ((wf.consumers d node e hd).2 hj)
    simp [this]
  | output => simp [(wf.producer d node e hd).2 hj]

/-! ## Stacks -/

theorem filterMap_dataIds (g : Graph) : g.dataIds.filterMap g.data? = g.datas.toList := by
  have hget : g.data? ∘ DataId.mk = fun k => g.datas.toList[k]? := funext fun k => Array.getElem?_toList.symm
  rw [dataIds, List.filterMap_map, ← Array.length_toList, hget]
  generalize g.datas.toList = ds
  induction ds with
  | nil => rfl
  | cons d ds ih =>
    rw [List.length_cons, List.range_succ_eq_map, List.filterMap_cons_some List.getElem?_cons_zero,
      List.filterMap_map]
    exact congrArg (d :: ·) ih

/-- Planning stacks tensors: those still to come lie behind what their areas hold so far. -/
theorem stacked_of_planned {place : DataId → Option Location}
    (hplaced : ∀ id, g'.data? id = (g.data? id).map fun d => { d with location := (place id).or d.location })
    {used' : AreaSizes} {plan' : List (DataId × Location)} (hplace : ∀ p ∈ plan', place p.1 = some p.2) :
    ∀ {ids : List DataId} {used : AreaSizes} {plan : List (DataId × Location)},
      ids.foldlM g.planData (used, plan) = .ok (used', plan') →
        plan ⊆ plan' ∧ ∀ area, Data.Stacked area (used.get area) (ids.filterMap g'.data?)
  | [], used, plan, h => by
    cases h
    exact ⟨List.Subset.refl _, fun _ => .nil⟩
  | id :: ids, used, plan, h => by
    rw [List.foldlM_cons, Outcome.bind_eq_ok] at h
    obtain ⟨⟨used₁, plan₁⟩, hstep, h⟩ := h
    obtain ⟨hkept, hrest⟩ := stacked_of_planned hplaced hplace h
    obtain ⟨d, hd, ⟨hnone, rfl, rfl⟩ | ⟨area, size, room, harea, htakes, hroom, rfl, rfl⟩⟩ := planData_eq_ok hstep
    · refine ⟨hkept, fun area => ?_⟩
      rw [List.filterMap_cons_some (by rw [hplaced, hd]; rfl)]
      refine .elsewhere ?_ (hrest area)
      show d.neededArea? ≠ some area
      rw [hnone]
      exact nofun
    · obtain ⟨hkept, hlast⟩ := List.append_subset.1 hkept
      have hat := hplace (id, ⟨area, used.get area⟩) (hlast List.mem_cons_self)
      refine ⟨hkept, fun other => ?_⟩
      rw [List.filterMap_cons_some (by rw [hplaced, hd]; rfl)]
      have hother := hrest other
      rw [AreaSizes.get_set] at hother
      by_cases hsame : other = area
      · subst hsame
        rw [if_pos rfl] at hother
        exact .here harea htakes hroom (by rw [hat]; rfl) hother
      · rw [if_neg hsame] at hother
        refine .elsewhere ?_ hother
        show d.neededArea? ≠ some other
        rw [harea, ne_eq, Option.some.injEq]
        exact Ne.symm hsame

/-- Allocation stacks the tensors of every area. -/
theorem allocateMemory_stacked {config : Config} {changed : Bool} (area : MemoryArea)
    (h : Pass.allocateMemory.run config g = .ok (g', changed)) : Data.Stacked area 0 g'.datas.toList := by
  simp only [Pass.allocateMemory, Outcome.bind_eq_ok, Outcome.pure_eq_ok, Prod.mk.injEq] at h
  obtain ⟨plan, hplan, rfl, _⟩ := h
  obtain ⟨_, p⟩ := plan_planned hplan
  simp only [Graph.plan, Outcome.bind_eq_ok, Outcome.pure_eq_ok] at hplan
  obtain ⟨⟨used, plan⟩, hplan, rfl⟩ := hplan
  have hstacked := (stacked_of_planned (fun id => data?_setLocations id p.nodup)
    (fun _ hmem => lookup_of_mem p.nodup hmem) hplan).2 area
  obtain ⟨datas, heq, hsize⟩ := setLocations_eq plan g
  have hids :
      g.dataIds = (plan.foldl (fun g x => g.setLocation x.1 x.2) g).dataIds := by rw [heq, dataIds, dataIds, hsize]
  rw [hids, filterMap_dataIds] at hstacked
  cases area <;> exact hstacked

end Graph

end NetLower
