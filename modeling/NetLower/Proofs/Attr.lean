/-
Reading attributes back.  An attribute that was written has its value, and writing one
leaves the others alone; a value is of the kind its key admits, so that reading it as one
cannot fail.
-/
import NetLower.Attr.Store
import NetLower.Proofs.Outcome

namespace NetLower.Attrs

variable {a a' : Attrs} {key : AttrKey} {value : AttrValue}

theorem find?_insertEntry (entry : Attr) (key : AttrKey) : ∀ {entries : List Attr},
    entries.find? (fun e => e.key == entry.key) = none →
    (insertEntry entry entries).find? (fun e => e.key == key) =
      if entry.key = key then some entry else entries.find? fun e => e.key == key
  | [], _ => by
    by_cases h : entry.key = key <;> simp [insertEntry, h]
  | e :: rest, hnew => by
    rw [List.find?_cons] at hnew
    split at hnew
    · cases hnew
    next hne =>
    rw [insertEntry]
    split
    · by_cases h : entry.key = key <;> simp [h]
    · rw [List.find?_cons, List.find?_cons, find?_insertEntry entry key hnew]
      by_cases h : entry.key = key
      · simp [← h, hne]
      · simp [h]

/-- A write shows at its own key only. -/
theorem get?_set (h : a.set key value = .ok a') (other : AttrKey) :
    a'.get? other = if other = key then some value else a.get? other := by
  unfold set at h
  split at h
  · split at h
    · cases h
    next hnew =>
      cases h
      have hnone : a.entries.find? (fun e => e.key == key) = none := by
        simpa [has, get?] using hnew
      rw [get?, find?_insertEntry _ _ hnone, get?]
      by_cases ho : other = key
      · simp [ho]
      · have ho' : ¬ key = other := fun h => ho h.symm
        simp [ho, ho']
  · cases h

/-- A key that was never written can be, with a value of its kind. -/
theorem set_of_not_has (hkind : value.kind = key.kind) (hnew : a.has key = false) :
    ∃ a', a.set key value = .ok a' := by
  unfold set
  rw [dif_pos hkind, hnew]
  exact ⟨_, rfl⟩

theorem has_of_set (h : a.set key value = .ok a') : a.has key = false := by
  unfold set at h
  split at h
  · split at h
    · cases h
    next hnew => simpa using hnew
  · cases h

/-- What is there stays. -/
theorem get?_setAll_of_some {v : AttrValue} : ∀ {entries : List (AttrKey × AttrValue)} {a : Attrs},
    a.setAll entries = .ok a' → a.get? key = some v → a'.get? key = some v
  | [], a, h, hv => by
    cases h
    exact hv
  | (k, value) :: rest, a, h, hv => by
    simp only [setAll, List.foldlM_cons, Outcome.bind_eq_ok] at h
    obtain ⟨a₁, hset, h⟩ := h
    refine get?_setAll_of_some h ?_
    have hne : key ≠ k := by
      rintro rfl
      have := has_of_set hset
      simp [has, hv] at this
    rw [get?_set hset, if_neg hne, hv]

/-- Many writes show what was written, and else what was there. -/
theorem get?_setAll : ∀ {entries : List (AttrKey × AttrValue)} {a : Attrs},
    a.setAll entries = .ok a' → a'.get? key = (entries.lookup key).or (a.get? key)
  | [], a, h => by
    cases h
    rfl
  | (k, value) :: rest, a, h => by
    simp only [setAll, List.foldlM_cons, Outcome.bind_eq_ok] at h
    obtain ⟨a₁, hset, h⟩ := h
    have hfirst := get?_set hset key
    rw [List.lookup_cons]
    by_cases hk : key = k
    · rw [if_pos hk] at hfirst
      rw [get?_setAll_of_some h hfirst, show (key == k) = true by simpa using hk]
      rfl
    · rw [if_neg hk] at hfirst
      rw [get?_setAll h, hfirst, show (key == k) = false by simpa using hk]

/-- Keys that were never written can be, each once. -/
theorem setAll_of_not_has : ∀ {entries : List (AttrKey × AttrValue)} {a : Attrs}, (entries.map Prod.fst).Nodup →
    (∀ e ∈ entries, e.2.kind = e.1.kind ∧ a.has e.1 = false) → ∃ a', a.setAll entries = .ok a'
  | [], a, _, _ => ⟨a, rfl⟩
  | (k, value) :: rest, a, hnodup, hnew => by
    rw [List.map_cons, List.nodup_cons] at hnodup
    obtain ⟨hkind, hfree⟩ := hnew (k, value) List.mem_cons_self
    obtain ⟨a₁, hset⟩ := set_of_not_has hkind hfree
    have hnew₁ : ∀ e ∈ rest, e.2.kind = e.1.kind ∧ a₁.has e.1 = false := by
      intro e he
      have hne : e.1 ≠ k := fun h => hnodup.1 (List.mem_map.2 ⟨e, he, h⟩)
      rw [has, get?_set hset, if_neg hne]
      exact hnew e (List.mem_cons_of_mem _ he)
    obtain ⟨a', hrest⟩ := setAll_of_not_has hnodup.2 hnew₁
    exact ⟨a', Outcome.bind_eq_ok.2 ⟨a₁, hset, hrest⟩⟩

/-! ## Reading -/

theorem kind_of_get? (h : a.get? key = some value) : value.kind = key.kind := by
  obtain ⟨e, he, rfl⟩ := Option.map_eq_some_iff.1 h
  have := List.find?_some he
  rw [← beq_iff_eq.1 this]
  exact e.typed

theorem getIntOr_eq_ok (hkind : key.kind = .int) (default : Int32) : ∃ v, a.getIntOr key default = .ok v := by
  unfold getIntOr getInt
  cases h : a.get? key with
  | none => exact ⟨default, by simp [has, h]⟩
  | some value =>
    have := kind_of_get? h
    rw [hkind] at this
    cases value with
    | int v => exact ⟨v, by simp [has, h]⟩
    | float v => cases this
    | bool v => cases this

theorem isOn_eq_ok (hkind : key.kind = .bool) : ∃ on, a.isOn key = .ok on := by
  unfold isOn getBool
  cases h : a.get? key with
  | none => exact ⟨false, by simp [has, h]⟩
  | some value =>
    have := kind_of_get? h
    rw [hkind] at this
    cases value with
    | int v => cases this
    | float v => cases this
    | bool v => exact ⟨v, by simp [has, h]⟩

theorem get?_of_isOn (h : a.isOn key = .ok true) : a.get? key = some (.bool true) := by
  unfold isOn getBool has at h
  cases hv : a.get? key with
  | none => simp [hv] at h
  | some value => cases value <;> simp_all

theorem getInt_of_get? {v : Int32} (h : a.get? key = some (.int v)) : a.getInt key = .ok v := by
  simp [getInt, h]

theorem getFloat_of_get? {v : F32} (h : a.get? key = some (.float v)) : a.getFloat key = .ok v := by
  simp [getFloat, h]

theorem get?_of_getFloat {v : F32} (h : a.getFloat key = .ok v) : a.get? key = some (.float v) := by
  unfold getFloat at h
  split at h
  next x hx =>
    rw [hx, Except.ok.inj h]
  · cases h
  · cases h

theorem getIntOr_of_get? {v : Int32} (h : a.get? key = some (.int v)) (default : Int32) :
    a.getIntOr key default = .ok v := by
  simp [getIntOr, has, getInt, h]

theorem getIntOr_of_none (h : a.get? key = none) (default : Int32) : a.getIntOr key default = .ok default := by
  simp [getIntOr, has, h]

/-- A window can be read once its sides and steps are there. -/
theorem window_of_get? {kx ky sx sy : Int32} (hkx : a.get? .kernelSizeX = some (.int kx))
    (hky : a.get? .kernelSizeY = some (.int ky)) (hsx : a.get? .kernelStrideX = some (.int sx))
    (hsy : a.get? .kernelStrideY = some (.int sy)) :
    ∃ w, a.window = .ok w ∧ (w.kernel.x = kx ∧ w.kernel.y = ky ∧ a.getIntOr .kernelSizeZ 1 = .ok w.kernel.z) ∧
      (w.stride.x = sx ∧ w.stride.y = sy) ∧
      a.getIntOr .dilationX 1 = .ok w.dilation.x ∧ a.getIntOr .dilationY 1 = .ok w.dilation.y := by
  have reads {key : AttrKey} (default : Int32) (hkind : key.kind = .int) := @getIntOr_eq_ok a key hkind default
  obtain ⟨kz, hkz⟩ := @reads .kernelSizeZ 1 rfl
  obtain ⟨sz, hsz⟩ := @reads .kernelStrideZ 1 rfl
  obtain ⟨left, hleft⟩ := @reads .padLeft 0 rfl
  obtain ⟨right, hright⟩ := @reads .padRight 0 rfl
  obtain ⟨top, htop⟩ := @reads .padTop 0 rfl
  obtain ⟨bottom, hbottom⟩ := @reads .padBottom 0 rfl
  obtain ⟨front, hfront⟩ := @reads .padFront 0 rfl
  obtain ⟨back, hback⟩ := @reads .padBack 0 rfl
  obtain ⟨dx, hdx⟩ := @reads .dilationX 1 rfl
  obtain ⟨dy, hdy⟩ := @reads .dilationY 1 rfl
  obtain ⟨dz, hdz⟩ := @reads .dilationZ 1 rfl
  simp only [window, getInt_of_get? hkx, getInt_of_get? hky, getInt_of_get? hsx, getInt_of_get? hsy, hkz, hsz,
    hleft, hright, htop, hbottom, hfront, hback, hdx, hdy, hdz, bind, Except.bind]
  exact ⟨_, rfl, ⟨rfl, rfl, rfl⟩, ⟨rfl, rfl⟩, rfl, rfl⟩

/-- The keys of a window come before all others. -/
theorem window_congr (h : ∀ key : AttrKey, key.rank < AttrKey.groupSize.rank → a'.get? key = a.get? key) :
    a'.window = a.window := by
  have int {key : AttrKey} (hk : key.rank < AttrKey.groupSize.rank) : a'.getInt key = a.getInt key := by
    rw [getInt, h key hk, getInt]
  have intOr {key : AttrKey} (hk : key.rank < AttrKey.groupSize.rank) (default : Int32) :
      a'.getIntOr key default = a.getIntOr key default := by
    rw [getIntOr, has, h key hk, int hk, getIntOr, has]
  simp only [window, @int .kernelSizeX (by decide), @int .kernelSizeY (by decide), @intOr .kernelSizeZ (by decide),
    @int .kernelStrideX (by decide), @int .kernelStrideY (by decide), @intOr .kernelStrideZ (by decide),
    @intOr .padLeft (by decide), @intOr .padRight (by decide), @intOr .padTop (by decide),
    @intOr .padBottom (by decide), @intOr .padFront (by decide), @intOr .padBack (by decide),
    @intOr .dilationX (by decide), @intOr .dilationY (by decide), @intOr .dilationZ (by decide)]

/-- Other keys have nothing to do with the window. -/
theorem window_set (h : a.set key value = .ok a') (hkey : AttrKey.groupSize.rank ≤ key.rank) :
    a'.window = a.window := by
  refine window_congr fun other hother => ?_
  rw [get?_set h, if_neg]
  rintro rfl
  exact absurd hother (Nat.not_lt.2 hkey)

/-! ## Multiplying -/

@[simp] theorem key_scaleEntry (factor : F32) (e : Attr) : (scaleEntry factor e).key = e.key := by
  obtain ⟨k, value, typed⟩ := e
  cases value <;> rfl

theorem value_scaleEntry {factor x : F32} {e : Attr} (h : e.value = .float x) :
    (scaleEntry factor e).value = .float (x * factor) := by
  obtain ⟨k, value, typed⟩ := e
  subst h
  rfl

/-- A product shows at its own key only. -/
theorem get?_mulFloat {factor : F32} (h : a.mulFloat key factor = .ok a') :
    (∃ x, a.getFloat key = .ok x ∧ a'.getFloat key = .ok (x * factor)) ∧
      ∀ other, other ≠ key → a'.get? other = a.get? other := by
  simp only [mulFloat, Outcome.bind_eq_ok, Outcome.pure_eq_ok] at h
  obtain ⟨x, hx, rfl⟩ := h
  have find (other : AttrKey) :
      (a.entries.map fun e => if e.key = key then scaleEntry factor e else e).find? (fun e => e.key == other) =
        (a.entries.find? fun e => e.key == other).map fun e => if e.key = key then scaleEntry factor e else e := by
    rw [List.find?_map]
    congr 2
    funext e
    show ((if e.key = key then scaleEntry factor e else e).key == other) = (e.key == other)
    split
    · rw [key_scaleEntry]
    · rfl
  constructor
  · obtain ⟨e, he, hvalue⟩ := Option.map_eq_some_iff.1 (get?_of_getFloat hx)
    have hkey : e.key = key := by simpa using List.find?_some he
    refine ⟨x, hx, getFloat_of_get? ?_⟩
    rw [get?, find, he, Option.map_some, Option.map_some, if_pos hkey, value_scaleEntry hvalue]
  · intro other hother
    rw [get?, find, get?, Option.map_map]
    refine Option.map_congr fun e he => ?_
    have hkey : e.key = other := by simpa using List.find?_some he
    simp [hkey, hother]

end NetLower.Attrs
