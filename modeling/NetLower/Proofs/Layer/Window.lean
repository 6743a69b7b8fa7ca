/-
A window on its way from a layer to the blob.  A layer lists the numbers of a window
outermost axis first; a stage keeps them in attributes, without depth if there is none; the
blob has fifteen words for them, innermost axis first.  Nothing is lost on the way.
-/
import Mathlib.Data.List.GetD
import NetLower.Proofs.Blob.Descriptors
import NetLower.Proofs.Network.Layers

namespace NetLower

/-! ## Attributes -/

/-- A window without depth: there the numbers are the defaults. -/
structure Window.Flat (w : Window) : Prop where
  kernel : w.kernel.z = 1
  stride : w.stride.z = 1
  padsBegin : w.padsBegin.z = 0
  padsEnd : w.padsEnd.z = 0
  dilation : w.dilation.z = 1

namespace Attrs

variable {a a' : Attrs} {w : Window} {volume : Bool}

theorem nodup_ofWindow (w : Window) (volume : Bool) : ((ofWindow w volume).map Prod.fst).Nodup := by
  cases volume <;> simp [ofWindow]

theorem kind_ofWindow : ∀ e ∈ ofWindow w true, e.2.kind = e.1.kind := by
  simp [ofWindow, AttrValue.kind, AttrKey.kind]

theorem ofWindow_subset : ofWindow w volume ⊆ ofWindow w true := by
  cases volume with
  | false => exact List.subset_append_left _ _
  | true => exact List.Subset.refl _

/-- A window can be kept where none is. -/
theorem exists_setAll_ofWindow (hnew : ∀ e ∈ ofWindow w true, a.has e.1 = false) :
    ∃ a', a.setAll (ofWindow w volume) = .ok a' := by
  refine setAll_of_not_has (nodup_ofWindow w volume) fun e he => ?_
  exact ⟨kind_ofWindow e (ofWindow_subset he), hnew e (ofWindow_subset he)⟩

/-- A kept window is read as it was; only a flat one may be kept without depth. -/
theorem window_setAll (hnew : ∀ e ∈ ofWindow w true, a.has e.1 = false)
    (hflat : volume = false → w.Flat) (h : a.setAll (ofWindow w volume) = .ok a') : a'.window = .ok w := by
  have plane {key : AttrKey} {v : Int32} (hfalse : (ofWindow w false).lookup key = some (.int v))
      (htrue : (ofWindow w true).lookup key = some (.int v)) : a'.get? key = some (.int v) := by
    have hlookup : (ofWindow w volume).lookup key = some (.int v) := by
      cases volume with
      | false => exact hfalse
      | true => exact htrue
    rw [get?_setAll h, hlookup, Option.some_or]
  have depth {key : AttrKey} {v default : Int32} (hfalse : (ofWindow w false).lookup key = none)
      (htrue : (ofWindow w true).lookup key = some (.int v)) (hdefault : volume = false → v = default) :
      a'.getIntOr key default = .ok v := by
    cases volume with
    | false =>
      have hnone : a.get? key = none := by simpa [has] using hnew _ (mem_of_lookup htrue)
      rw [hdefault rfl]
      exact getIntOr_of_none (by rw [get?_setAll h, hfalse, hnone, Option.none_or]) default
    | true => exact getIntOr_of_get? (by rw [get?_setAll h, htrue, Option.some_or]) default
  simp only [window, getInt_of_get? (@plane .kernelSizeX _ rfl rfl),
    getInt_of_get? (@plane .kernelSizeY _ rfl rfl), @depth .kernelSizeZ _ 1 rfl rfl fun hv => (hflat hv).kernel,
    getInt_of_get? (@plane .kernelStrideX _ rfl rfl), getInt_of_get? (@plane .kernelStrideY _ rfl rfl),
    @depth .kernelStrideZ _ 1 rfl rfl fun hv => (hflat hv).stride,
    getIntOr_of_get? (@plane .padLeft _ rfl rfl), getIntOr_of_get? (@plane .padRight _ rfl rfl),
    getIntOr_of_get? (@plane .padTop _ rfl rfl), getIntOr_of_get? (@plane .padBottom _ rfl rfl),
    @depth .padFront _ 0 rfl rfl fun hv => (hflat hv).padsBegin, @depth .padBack _ 0 rfl rfl fun hv =>
    (hflat hv).padsEnd, getIntOr_of_get? (@plane .dilationX _ rfl rfl),
    getIntOr_of_get? (@plane .dilationY _ rfl rfl),
    @depth .dilationZ _ 1 rfl rfl fun hv => (hflat hv).dilation, bind, Except.bind]
  rfl

end Attrs

/-! ## Lists -/

namespace Layer

variable {l : Layer} {name : String} {axes axis : Nat} {values : List Int} {words : List Int32} {default : Int32}

/-- What a layer lists for an axis, counted from the innermost; a single number is for every axis. -/
def listed (l : Layer) (name : String) (axes : Nat) (otherwise : Int) (axis : Nat) : Int :=
  if axes ≤ axis then otherwise
  else match l.attr? name with
    | some (.int value) => value
    | some (.ints [value]) => value
    | some (.ints values) => values.getD (axes - 1 - axis) otherwise
    | _ => otherwise

theorem word_eq_ok {value : Int} {v : Int32} (h : l.word name value = .ok v) : v.toInt = value := by
  unfold word at h
  split at h
  next hrange =>
    cases h
    exact Int32.toInt_ofInt_of_le hrange.1 (Int.lt_of_le_of_lt hrange.2 (by decide))
  · cases h

/-- Numbers that were reversed are found from the end. -/
theorem getD_words (h : values.reverse.mapM (l.word name) = .ok words) (hlength : values.length = axes) :
    (words.getD axis default).toInt =
      if axes ≤ axis then default.toInt else values.getD (axes - 1 - axis) default.toInt := by
  have hwords : words.map Int32.toInt = values.reverse := by
    have hsame := (Outcome.mapM_eq_ok.1 h).imp fun value v hv => (word_eq_ok hv).symm
    rw [← List.forall₂_map_right_iff, List.forall₂_eq_eq_eq] at hsame
    exact hsame.symm
  have hgetD : (words.getD axis default).toInt = values.reverse.getD axis default.toInt := by
    rw [← hwords, List.getD_map]
  split
  next hout => rw [List.getD_eq_default _ _ (by rw [← List.length_map, hwords, List.length_reverse]; omega)]
  next hin => rw [hgetD, List.getD_reverse _ (by omega), hlength]

theorem listed_of_le {otherwise : Int} (h : axes ≤ axis) : l.listed name axes otherwise axis = otherwise :=
  if_pos h

theorem listed_single {otherwise value : Int} (h : axis < axes)
    (hattr : l.attr? name = some (.int value) ∨ l.attr? name = some (.ints [value])) :
    l.listed name axes otherwise axis = (List.replicate axes value).getD (axes - 1 - axis) otherwise := by
  rw [listed, if_neg (Nat.not_le.2 h), List.getD_replicate _ (by omega)]
  rcases hattr with hattr | hattr <;> rw [hattr]

theorem listed_list {otherwise : Int} (h : axis < axes) (hattr : l.attr? name = some (.ints values))
    (hmany : values.length ≠ 1) :
    l.listed name axes otherwise axis = values.getD (axes - 1 - axis) otherwise := by
  rw [listed, if_neg (Nat.not_le.2 h), hattr]
  match values, hmany with
  | [], _ => rfl
  | _ :: _ :: _, _ => rfl

/-- A list is read axis by axis from the innermost. -/
theorem spatial_eq_ok {v : Axes Int32} (h : l.spatial name axes default = .ok v) :
    v.toList.map Int32.toInt = [0, 1, 2].map (l.listed name axes default.toInt) := by
  have behind {values : List Int} (h : (if values.length ≠ axes then l.fail (.listLength name values.length axes)
      else do
        let words ← values.reverse.mapM (l.word name)
        return ⟨words.getD 0 default, words.getD 1 default, words.getD 2 default⟩) = Except.ok v)
      (hlisted : ∀ axis < axes, l.listed name axes default.toInt axis =
        values.getD (axes - 1 - axis) default.toInt) :
      v.toList.map Int32.toInt = [0, 1, 2].map (l.listed name axes default.toInt) := by
    split at h
    · cases h
    next hlength =>
      obtain ⟨words, hwords, h⟩ := Outcome.bind_eq_ok.1 h
      cases h
      have each (axis : Nat) : (words.getD axis default).toInt = l.listed name axes default.toInt axis := by
        rw [getD_words hwords (not_not.1 hlength)]
        split
        next hout => rw [listed_of_le hout]
        next hin => rw [hlisted axis (Nat.lt_of_not_le hin)]
      simp only [Axes.toList, List.map_cons, List.map_nil, each]
  unfold spatial hasAttr attr at h
  cases hattr : l.attr? name with
  | none =>
    rw [hattr] at h
    cases h
    simp [Axes.all, Axes.toList, listed, hattr]
  | some value =>
    rw [hattr] at h
    cases value with
    | int x => exact behind h fun axis hlt => listed_single hlt (.inl hattr)
    | ints xs =>
      rcases xs with _ | ⟨x, _ | ⟨y, xs⟩⟩
      · exact @behind [] h fun axis hlt => listed_list hlt hattr (by decide)
      · exact behind h fun axis hlt => listed_single hlt (.inr hattr)
      · exact behind h fun axis hlt => listed_list hlt hattr (by simp)
    | float => cases h
    | string => cases h
    | floats => cases h

/-- The padding at the end of an axis; where none is listed it is that at the beginning. -/
def endPad (l : Layer) (axes axis : Nat) : Int :=
  if l.hasAttr "pads_end" then l.listed "pads_end" axes 0 axis else l.listed "pads_begin" axes 0 axis

/-- The spread along an axis. -/
def spread (l : Layer) (axes : Nat) (dilated : Bool) (axis : Nat) : Int :=
  if dilated then l.listed "dilations" axes 1 axis else 1

variable {dilated : Bool} {w : Window}

/-- A window has the numbers that the layer lists. -/
structure Lists (l : Layer) (axes : Nat) (dilated : Bool) (w : Window) : Prop where
  kernel : w.kernel.toList.map Int32.toInt = [0, 1, 2].map (l.listed "kernel" axes 1)
  stride : w.stride.toList.map Int32.toInt = [0, 1, 2].map (l.listed "strides" axes 1)
  padsBegin : w.padsBegin.toList.map Int32.toInt = [0, 1, 2].map (l.listed "pads_begin" axes 0)
  padsEnd : w.padsEnd.toList.map Int32.toInt = [0, 1, 2].map (l.endPad axes)
  dilation : w.dilation.toList.map Int32.toInt = [0, 1, 2].map (l.spread axes dilated)

theorem window_lists (h : l.window axes dilated = .ok w) : l.Lists axes dilated w := by
  obtain ⟨hkernel, hstride, hbegin, hend, hdilation, -⟩ := window_eq_ok h
  refine ⟨spatial_eq_ok hkernel, spatial_eq_ok hstride, spatial_eq_ok hbegin, ?_, ?_⟩
  · unfold endPad
    split at hend
    next hgiven => simpa [hgiven] using spatial_eq_ok hend
    next hnone =>
      rw [← Except.ok.inj hend]
      simpa [hnone] using spatial_eq_ok hbegin
  · unfold spread
    split at hdilation
    next hdilated => simpa [hdilated] using spatial_eq_ok hdilation
    next hnone =>
      rw [← Except.ok.inj hdilation]
      simp [hnone, Axes.all, Axes.toList]

theorem Lists.flat (h : l.Lists axes dilated w) (haxes : axes ≤ 2) : w.Flat := by
  have depth {v : Axes Int32} {numbers : Nat → Int} {default : Int32}
      (h : v.toList.map Int32.toInt = [0, 1, 2].map numbers)
      (hdefault : numbers 2 = default.toInt) : v.z = default := by
    simp only [Axes.toList, List.map_cons, List.cons.injEq] at h
    exact Int32.toInt_inj.1 (h.2.2.1.trans hdefault)
  refine ⟨depth h.kernel (listed_of_le haxes), depth h.stride (listed_of_le haxes),
    depth h.padsBegin (listed_of_le haxes), depth h.padsEnd ?_, depth h.dilation ?_⟩
  · unfold endPad
    split <;> exact listed_of_le haxes
  · unfold spread
    split
    · exact listed_of_le haxes
    · rfl

/-- The numbers of a window in the blob: sizes and steps by axis, paddings by axis and end, spreads
by axis. -/
theorem Lists.fields_eq (h : l.Lists axes dilated w) : w.fields.map Int32.toInt =
    [0, 1, 2].map (l.listed "kernel" axes 1) ++ [0, 1, 2].map (l.listed "strides" axes 1) ++
      [0, 1, 2].flatMap (fun axis => [l.listed "pads_begin" axes 0 axis, l.endPad axes axis]) ++
      [0, 1, 2].map (l.spread axes dilated) := by
  have hpads : w.pads.map Int32.toInt =
      [0, 1, 2].flatMap fun axis => [l.listed "pads_begin" axes 0 axis, l.endPad axes axis] := by
    have hbegin := h.padsBegin
    have hend := h.padsEnd
    simp only [Axes.toList, List.map_cons, List.map_nil, List.cons.injEq] at hbegin hend
    simp [Window.pads, hbegin, hend]
  rw [Window.fields, List.map_append, List.map_append, List.map_append, h.kernel, h.stride, hpads, h.dilation]

end Layer

namespace Window

variable {w : Window}

/-- A window that makes sense has positive sizes, steps and spreads, and no negative padding. -/
theorem valid_iff : w.valid = true ↔
    (∀ v ∈ (w.kernel.toList ++ w.stride.toList ++ w.dilation.toList).map Int32.toInt, 1 ≤ v) ∧
      ∀ v ∈ (w.padsBegin.toList ++ w.padsEnd.toList).map Int32.toInt, 0 ≤ v := by
  simp only [valid, moves, Bool.and_eq_true, List.all_eq_true, decide_eq_true_eq, Int32.le_iff_toInt_le,
    List.forall_mem_map, List.forall_mem_append]
  rfl

/-- Fifteen words are read for a window. -/
theorem read_bytes (w : Window) : ∃ words c, Cursor.readWords 15 { bytes := w.bytes } = .ok (words, c) ∧
    c.remaining = 0 ∧ words.map UInt32.toInt32 = w.fields := by
  have hbytes : w.bytes.toList = (w.fields.map Int32.toUInt32).flatMap fun v => (Bytes.ofUInt32 v).toList := by
    rw [bytes, Bytes.toList_foldl_append, List.flatMap_map]
    rfl
  obtain ⟨c, hread, hend⟩ := Cursor.readWords_all hbytes
  exact ⟨_, c, hread, hend, (List.map_map ..).trans (List.map_id _)⟩

end Window

/-- The window of a layer with two or three axes survives in attributes and in the blob. It can be
kept where no window is, without depth for two axes, and is read again as it was. Its fifteen words
in the blob are the numbers that the layer lists, innermost axis first, with the defaults for what
it does not list; they are positive, and paddings not negative. -/
theorem Layer.window_survives {l : Layer} {axes : Nat} {dilated : Bool} {w : Window} {a : Attrs}
    (haxes : axes = 2 ∨ axes = 3) (h : l.window axes dilated = .ok w)
    (hnew : ∀ e ∈ Attrs.ofWindow w true, a.has e.1 = false) :
    ∃ a' words c, a.setAll (Attrs.ofWindow w (axes == 3)) = .ok a' ∧ a'.window = .ok w ∧
      Cursor.readWords 15 { bytes := w.bytes } = .ok (words, c) ∧ c.remaining = 0 ∧
      (words.map fun word => word.toInt32.toInt) =
        [0, 1, 2].map (l.listed "kernel" axes 1) ++ [0, 1, 2].map (l.listed "strides" axes 1) ++
          [0, 1, 2].flatMap (fun axis => [l.listed "pads_begin" axes 0 axis, l.endPad axes axis]) ++
          [0, 1, 2].map (l.spread axes dilated) ∧
      ∀ axis ∈ [0, 1, 2], 1 ≤ l.listed "kernel" axes 1 axis ∧ 1 ≤ l.listed "strides" axes 1 axis ∧
        1 ≤ l.spread axes dilated axis ∧ 0 ≤ l.listed "pads_begin" axes 0 axis ∧ 0 ≤ l.endPad axes axis := by
  have lists := window_lists h
  obtain ⟨a', ha'⟩ := @Attrs.exists_setAll_ofWindow a w (axes == 3) hnew
  obtain ⟨words, c, hread, hend, hwords⟩ := w.read_bytes
  refine ⟨a', words, c, ha', Attrs.window_setAll hnew (fun hflat => ?_) ha', hread, hend, ?_, ?_⟩
  · rcases haxes with rfl | rfl
    · exact lists.flat (Nat.le_refl 2)
    · cases hflat
  · rw [← lists.fields_eq, ← hwords, List.map_map]
    rfl
  · obtain ⟨-, -, -, -, -, hvalid⟩ := window_eq_ok h
    rw [Window.valid_iff, List.map_append, List.map_append, List.map_append, lists.kernel, lists.stride,
      lists.dilation, lists.padsBegin, lists.padsEnd] at hvalid
    simp only [List.forall_mem_append, List.forall_mem_map] at hvalid
    obtain ⟨⟨⟨hkernel, hstride⟩, hspread⟩, hbegin, hend⟩ := hvalid
    exact fun axis haxis => ⟨hkernel axis haxis, hstride axis haxis, hspread axis haxis, hbegin axis haxis,
      hend axis haxis⟩

/-- A layer whose window is five rows high and three columns wide. -/
def fiveByThree : Layer where
  name := "conv"
  type := "Convolution"
  attributes := [("kernel", .ints [5, 3]), ("pads_begin", .ints [2, 1]), ("strides", .int 2)]

/-- Columns come first in the blob, and the paddings at the end are those at the beginning. -/
theorem fiveByThree_survives :
    ∃ w a' words c, fiveByThree.window 2 true = .ok w ∧
      (∀ e ∈ Attrs.ofWindow w true, Attrs.has ⟨[⟨.groupSize, .int 2, rfl⟩]⟩ e.1 = false) ∧
      Attrs.setAll ⟨[⟨.groupSize, .int 2, rfl⟩]⟩ (Attrs.ofWindow w false) = .ok a' ∧ a'.window = .ok w ∧
      Cursor.readWords 15 { bytes := w.bytes } = .ok (words, c) ∧ c.remaining = 0 ∧
      (words.map fun word => word.toInt32.toInt) = [3, 5, 1, 2, 2, 1, 1, 1, 2, 2, 0, 0, 1, 1, 1] := by
  have hwindow : fiveByThree.window 2 true = .ok
      { kernel := ⟨3, 5, 1⟩, stride := ⟨2, 2, 1⟩, padsBegin := ⟨1, 2, 0⟩, padsEnd := ⟨1, 2, 0⟩,
        dilation := ⟨1, 1, 1⟩ } := by
    decide +kernel
  obtain ⟨a', words, c, hset, hkept, hread, hend, hwords, -⟩ :=
    @Layer.window_survives fiveByThree 2 true _ ⟨[⟨.groupSize, .int 2, rfl⟩]⟩ (.inl rfl) hwindow (by decide)
  exact ⟨_, a', words, c, hwindow, by decide, hset, hkept, hread, hend, hwords.trans (by decide +kernel)⟩

end NetLower
