/-
The room that the tensors of a graph take up.  Alignment gives a tensor at most 64 bytes for
each of its elements, so neither the strides nor the places of all tensors go beyond 64 times
the number of elements of the graph.
-/
import Mathlib.Algebra.Order.BigOperators.Group.List
import Mathlib.Algebra.Order.Ring.Nat
import NetLower.Proofs.Pass.Memory
import NetLower.Proofs.Tensor.Room

namespace NetLower

open Outcome

variable {P : Fault → Prop}

namespace Data

/-- The number of elements of some tensors. -/
def volumes (ds : List Data) : Nat := (ds.map fun d => d.desc.volume).sum

@[simp] theorem volumes_cons (d : Data) (ds : List Data) : volumes (d :: ds) = d.desc.volume + volumes ds := rfl

variable {d : Data} {size room : Nat}

theorem Strided.size_le (hd : d.Strided) (h : d.Takes size) : size ≤ 16 * d.desc.volume := by
  obtain ⟨strides, hcomputed, hstrides⟩ := hd
  obtain ⟨_, hstrides', hsize⟩ := h
  rw [hstrides, Option.some.injEq] at hstrides'
  subst hstrides'
  exact Desc.byteSize_le hcomputed hsize

/-- With strides, the room of a tensor is at most 64 bytes for each element. -/
theorem Strided.aligned_le (hd : d.Strided) (h : d.Takes size) :
    Size.ceilDiv size dataAlignment * dataAlignment ≤ 64 * d.desc.volume := by
  have hsize := hd.size_le h
  exact Size.ceilDiv_mul_le (by decide) (Nat.dvd_mul_right 64 _) (by omega)

/-- A stack ends within the room of all its tensors. -/
theorem Stacked.end_le {area : MemoryArea} {used : Nat} {ds : List Data} {l : Location} (h : Stacked area used ds)
    (hstrided : ∀ d ∈ ds, d.Strided) (hd : d ∈ ds) (harea : d.neededArea? = some area) (hl : d.location = some l)
    (hsize : d.Takes size) : l.offset + size ≤ used + 64 * volumes ds := by
  induction h with
  | nil => cases hd
  | @elsewhere used d' ds hother _ ih =>
    rcases List.mem_cons.1 hd with rfl | hd
    · exact absurd harea hother
    · have := ih (fun d hd => hstrided d (by simp [hd])) hd
      rw [volumes_cons]
      omega
  | @here used size' room d' ds _ htakes hroom hlocation _ ih =>
    have hfirst := (hstrided d' (by simp)).aligned_le htakes
    rw [← Size.mul_eq_ok hroom] at hfirst
    rw [volumes_cons]
    rcases List.mem_cons.1 hd with rfl | hd
    · rw [hl, Option.some.injEq] at hlocation
      subst hlocation
      have hle := (Size.alignUp_eq_ok (by decide) hroom).2
      rw [hsize.unique htakes]
      show used + size' ≤ _
      omega
    · have := ih (fun d hd => hstrided d (by simp [hd])) hd
      omega

end Data

namespace Graph

variable {g g' : Graph} {config : Config} {changed : Bool}

/-- The number of elements of all tensors. -/
def volume (g : Graph) : Nat := Data.volumes g.datas.toList

theorem volume_le {id : DataId} {d : Data} (hd : g.data? id = some d) : d.desc.volume ≤ g.volume := by
  have hmem : d ∈ g.datas.toList := Array.mem_toList_iff.2 (Array.mem_of_getElem? hd)
  exact List.le_sum_of_mem (List.mem_map_of_mem hmem)

/-- The number of elements is a matter of descriptors. -/
theorem volume_congr (h : ∀ id, (g'.data? id).map Data.desc = (g.data? id).map Data.desc) :
    g'.volume = g.volume := by
  have hdescs : g'.datas.toList.map Data.desc = g.datas.toList.map Data.desc := by
    refine List.ext_getElem? fun k => ?_
    rw [List.getElem?_map, List.getElem?_map, Array.getElem?_toList, Array.getElem?_toList]
    exact h ⟨k⟩
  have hvolumes (ds : List Data) : Data.volumes ds = ((ds.map Data.desc).map Desc.volume).sum := by
    rw [List.map_map]
    rfl
  rw [volume, volume, hvolumes, hvolumes, hdescs]

/-! ## Strides -/

theorem volume_computeStrides {id : DataId} (h : g.computeStrides id = .ok g') : g'.volume = g.volume := by
  obtain ⟨_, _, strides, _, rfl⟩ := computeStrides_eq_ok h
  refine volume_congr fun x => ?_
  rw [data?_modifyData]
  split
  · rw [Option.map_map]
    rfl
  · rfl

/-- Strides are computed where the tensors have room. -/
theorem faultsOnly_computeStrides (g : Graph) (ids : List DataId) (h : Size.range ≤ 16 * g.volume → P .multiply) :
    FaultsOnly P (ids.foldlM computeStrides g) := by
  refine FailsOnly.foldlM (fun _ x => x.volume = g.volume)
    (fun _ _ _ _ hvolume hx => (volume_computeStrides hx).trans hvolume) (fun id _ x hvolume => ?_) rfl
  simp only [computeStrides, failsOnly_bind, faultsOnly_data, failsOnly_pure, implies_true, and_true, true_and,
    data_eq_ok]
  intro d hd
  refine Desc.faultsOnly_strides fun hlarge => h ?_
  have := volume_le hd
  omega

/-! ## Places -/

/-- The areas have room for what is still to come. -/
def Roomy (g : Graph) (rest : List DataId) (used : AreaSizes) : Prop :=
  ∀ area, used.get area + 64 * Data.volumes (rest.filterMap g.data?) ≤ 64 * g.volume

theorem roomy_start (g : Graph) : g.Roomy g.dataIds {} := by
  intro area
  rw [filterMap_dataIds, volume]
  cases area <;> exact Nat.le_of_eq (Nat.zero_add _)

theorem Roomy.step {id : DataId} {rest : List DataId} {used used' : AreaSizes}
    {plan plan' : List (DataId × Location)} (r : g.Roomy (id :: rest) used)
    (hstrided : ∀ id d, g.data? id = some d → d.Strided)
    (h : g.planData (used, plan) id = .ok (used', plan')) : g.Roomy rest used' := by
  intro area
  have hroom := r area
  obtain ⟨d, hd, ⟨_, rfl, rfl⟩ | ⟨area', size, room, _, htakes, hsize, rfl, rfl⟩⟩ := planData_eq_ok h
  · rw [List.filterMap_cons_some hd, Data.volumes_cons] at hroom
    omega
  · rw [List.filterMap_cons_some hd, Data.volumes_cons] at hroom
    have hle := (hstrided id d hd).aligned_le htakes
    rw [← Size.mul_eq_ok hsize] at hle
    rw [AreaSizes.get_set]
    split
    next harea =>
      subst harea
      omega
    · omega

/-- One more tensor has its place, unless the areas would be too large. -/
theorem Roomy.faultsOnly_planData {id : DataId} {rest : List DataId} {state : AreaSizes × List (DataId × Location)}
    (r : g.Roomy (id :: rest) state.1) (hstrided : ∀ id d, g.data? id = some d → d.Strided)
    (h : Size.range ≤ 64 * g.volume → P .multiply ∧ P .add) : FaultsOnly P (g.planData state id) := by
  obtain ⟨used, plan⟩ := state
  simp only [planData, failsOnly_bind, faultsOnly_data, true_and, data_eq_ok]
  intro d hd
  have hvolume := volume_le hd
  split
  · simp
  next area _ =>
    obtain ⟨strides, hcomputed, hstrides⟩ := hstrided id d hd
    rw [hstrides]
    simp only [failsOnly_bind, Size.faultsOnly_alignUp, Size.faultsOnly_add, failsOnly_pure, implies_true,
      and_true]
    refine ⟨(Desc.byteSize_succeeds hcomputed).failsOnly, fun size hsize => ?_⟩
    have hle := (hstrided id d hd).aligned_le ⟨strides, hstrides, hsize⟩
    refine ⟨fun hlarge => (h (by omega)).1, fun room hroom hlarge => (h ?_).2⟩
    have hspace := r area
    rw [List.filterMap_cons_some hd, Data.volumes_cons] at hspace
    rw [Size.mul_eq_ok hroom] at hlarge
    simp only at hspace
    omega

theorem faultsOnly_allocateMemory (hstrided : ∀ id d, g.data? id = some d → d.Strided)
    (h : Size.range ≤ 64 * g.volume → P .multiply ∧ P .add) : FaultsOnly P (Pass.allocateMemory.run config g) := by
  simp only [Pass.allocateMemory, plan, failsOnly_bind, failsOnly_pure, implies_true, and_true]
  exact FailsOnly.foldlM (fun rest state => g.Roomy rest state.1) (fun _ _ _ _ r hstep => r.step hstrided hstep)
    (fun _ _ _ r => r.faultsOnly_planData hstrided h) g.roomy_start

theorem volume_allocateMemory (h : Pass.allocateMemory.run config g = .ok (g', changed)) :
    g'.volume = g.volume := by
  obtain ⟨place, _, _, hplaced⟩ := allocateMemory_eq_ok h
  refine volume_congr fun id => ?_
  rw [hplaced, Option.map_map]
  rfl

/-- Where tensors end after allocation. -/
theorem allocateMemory_end_le {id : DataId} {d : Data} {l : Location} {size : Nat}
    (hstrided : ∀ id d, g.data? id = some d → d.Strided) (hfree : g.Unplaced)
    (h : Pass.allocateMemory.run config g = .ok (g', changed)) (hd : g'.data? id = some d)
    (hl : d.location = some l) (hsize : d.Takes size) : l.offset + size ≤ 64 * g'.volume := by
  obtain ⟨place, a, _, hplaced⟩ := allocateMemory_eq_ok h
  have hstrided' : ∀ d ∈ g'.datas.toList, d.Strided := by
    intro d hd
    obtain ⟨k, hk⟩ := List.mem_iff_getElem?.1 hd
    have hk : g'.data? ⟨k⟩ = some d := Array.getElem?_toList.symm.trans hk
    rw [hplaced] at hk
    obtain ⟨old, hold, rfl⟩ := Option.map_eq_some_iff.1 hk
    exact hstrided ⟨k⟩ old hold
  have harea : d.neededArea? = some l.area := by
    rw [hplaced] at hd
    obtain ⟨old, hold, rfl⟩ := Option.map_eq_some_iff.1 hd
    have hplace : place id = some l := by simpa [hfree id old hold] using hl
    have hmap := a.area id old hold
    rw [hplace] at hmap
    exact hmap.symm
  have hend := (allocateMemory_stacked l.area h).end_le hstrided'
    (Array.mem_toList_iff.2 (Array.mem_of_getElem? hd)) harea hl hsize
  rwa [Nat.zero_add] at hend

end Graph

end NetLower
