/-
What the parameters of a permutation stage tell.  For every position of the output memory
they name the position of the input memory that has the same dimension; an element keeps its
logical index, so it moves in memory as the numbers of its index do.
-/
import Mathlib.Data.List.Range
import NetLower.Proofs.Blob.Descriptors
import NetLower.Proofs.Tensor.Image
import NetLower.Stage.Check

namespace NetLower

open Outcome (Succeeds)

/-! ## Gathering by positions -/

/-- At every place the target has what the source has at the position that `p` names for that place. -/
def Gathers (p source target : List Nat) : Prop :=
  source.length = p.length ∧ List.Forall₂ (fun pos n => source[pos]? = some n) p target

/-- Where every position is named, the target tells all of the source. -/
theorem Gathers.source_unique {p source source' target : List Nat} (hp : p.Perm (List.range p.length))
    (h : Gathers p source target) (h' : Gathers p source' target) : source' = source := by
  have named : ∀ {q target : List Nat}, List.Forall₂ (fun pos n => source[pos]? = some n) q target →
      List.Forall₂ (fun pos n => source'[pos]? = some n) q target → ∀ pos ∈ q, source'[pos]? = source[pos]? := by
    intro q target hq hq'
    induction hq with
    | nil => simp
    | cons hn _ ih =>
      obtain _ | ⟨hn', hq'⟩ := hq'
      exact List.forall_mem_cons.2 ⟨hn'.trans hn.symm, ih hq'⟩
  refine List.ext_getElem? fun pos => ?_
  by_cases hpos : pos < p.length
  · exact named h.2 h'.2 pos (hp.mem_iff.2 (List.mem_range.2 hpos))
  · rw [List.getElem?_eq_none (by rw [h'.1]; omega), List.getElem?_eq_none (by rw [h.1]; omega)]

namespace Order

variable {o o' : Order}

/-- For every position of the second order, the position of its dimension in the first. -/
def positions (o o' : Order) : List Nat := o'.memory.map fun x => o.memory.idxOf x

theorem positions_self (o : Order) : o.positions o = List.range o.memory.length := by
  refine List.ext_getElem (by simp [positions]) fun k hk _ => ?_
  rw [List.getElem_range]
  simp only [positions, List.getElem_map]
  exact o.nodup.idxOf_getElem k _

theorem positions_perm (h : o'.memory.Perm o.memory) : (o.positions o').Perm (List.range o.memory.length) :=
  o.positions_self ▸ h.map _

/-- What belongs to the dimensions moves along with them. -/
theorem gathers_positions (h : o'.memory.Perm o.memory) (f : Dim → Nat) :
    Gathers (o.positions o') (o.memory.map f) (o'.memory.map f) := by
  refine ⟨by simp [positions, h.length_eq], ?_⟩
  rw [positions, List.forall₂_map_left_iff, List.forall₂_map_right_iff, List.forall₂_same]
  intro x hx
  have hlt := List.idxOf_lt_length_of_mem (h.mem_iff.1 hx)
  rw [List.getElem?_map, List.getElem?_eq_getElem hlt, List.getElem_idxOf, Option.map_some]

theorem position?_eq_some {x : Dim} (hx : x ∈ o.memory) : o.position? x = some (o.memory.idxOf x) := by
  cases hpos : o.memory.idxOf? x with
  | none => exact absurd hx (List.idxOf?_eq_none_iff.1 hpos)
  | some pos => rw [position?, hpos, List.idxOf_eq_getD_idxOf?, hpos, Option.getD_some]

end Order

/-! ## Parameters -/

namespace Bytes

theorem ofSizes_succeeds {sizes : List Nat} (h : ∀ n ∈ sizes, n < UInt32.size) : Succeeds (ofSizes sizes) := by
  refine Outcome.FailsOnly.foldlM (fun rest _ => ∀ n ∈ rest, n < UInt32.size) ?_ ?_ h
  · exact fun n rest _ _ hrest _ m hm => hrest m (List.mem_cons_of_mem n hm)
  · exact fun n rest _ hrest => .after (if_pos (hrest n List.mem_cons_self)) (.pure _)

/-- Sizes that fit are written as words, and are read back from them. -/
theorem ofSizes_read {sizes : List Nat} (h : ∀ n ∈ sizes, n < UInt32.size) :
    ∃ bytes words c, ofSizes sizes = .ok bytes ∧ Cursor.readWords sizes.length { bytes } = .ok (words, c) ∧
      words.map UInt32.toNat = sizes ∧ c.remaining = 0 := by
  obtain ⟨bytes, hbytes⟩ := (ofSizes_succeeds h).eq_ok
  obtain ⟨words, hwords, hlist⟩ := ofSizes_eq_ok hbytes
  obtain ⟨c, hread, hend⟩ := Cursor.readWords_all hlist
  refine ⟨bytes, words, c, hbytes, ?_, hwords, hend⟩
  rw [← hwords, List.length_map, hread]

end Bytes

namespace Site

variable {s : Site} {input output : Data}

/-- An accepted permutation has one input and one output, alike but for the order. -/
theorem checkPermute_eq_ok (h : s.checkPermute = .ok ()) : ∃ input output, s.inputs = [input] ∧
    s.outputs = [output] ∧ output.desc.dims = input.desc.dims ∧ output.desc.dtype = input.desc.dtype := by
  unfold checkPermute at h
  split at h
  next input output hin hout =>
    obtain ⟨hdims, hdtype⟩ := Outcome.require_eq_ok.1 h
    exact ⟨input, output, hin, hout, hdims.symm, hdtype.symm⟩
  · cases h

theorem permutation_eq (hin : s.inputs = [input]) (hout : s.outputs = [output])
    (h : output.desc.order.memory.Perm input.desc.order.memory) :
    s.permutation = .ok (input.desc.order.positions output.desc.order) := by
  have hinput : s.input 0 = .ok input := by simp [Site.input, hin]
  have houtput : s.output 0 = .ok output := by simp [Site.output, hout]
  refine Outcome.bind_eq_ok.2 ⟨_, hinput, Outcome.bind_eq_ok.2 ⟨_, houtput, Outcome.mapM_eq_ok.2 ?_⟩⟩
  rw [Order.positions, List.forall₂_map_right_iff, List.forall₂_same]
  intro x hx
  simp only [Order.position?_eq_some (h.mem_iff.1 hx)]

end Site

/-! ## Images of one tensor in two orders -/

namespace Desc

variable {t t' : Desc} {values : Array F32} {strides strides' : List Nat} {bytes bytes' : Bytes} {index : List Nat}

/-- Orders of tensors of one shape run through the same dimensions. -/
theorem memory_perm_of_dims (h : t'.dims = t.dims) : t'.order.memory.Perm t.order.memory := by
  have hperm := t'.memory_perm.symm
  rw [canonical_congr (show t'.rank = t.rank from congrArg List.length h)] at hperm
  exact hperm.trans t.memory_perm

/-- Numbers listed in memory order are those of an index. -/
theorem exists_index (h : List.Forall₂ (· < ·) index t.memorySizes) :
    ∃ i, t.Inside i ∧ t.order.memory.map i = index := by
  have hmap : t.order.memory.map (t.strideOf index) = index :=
    map_strideOf (h.length_eq.trans t.memorySizes_eq.length_eq.symm)
  exact ⟨t.strideOf index, .of_memory (hmap.symm ▸ h), hmap⟩

/-- In two orders an element is found where the positions of its dimensions lead. -/
theorem Encoded.moved {i : Dim → Nat} (he : t.Encoded values strides bytes)
    (he' : t'.Encoded values strides' bytes') (hdims : t'.dims = t.dims) (hdtype : t'.dtype = t.dtype)
    (hi : t.Inside i) : ∃ x ∈ values, bytes.extract (t.order.place strides i)
    (t.order.place strides i + t.dtype.size) = t.dtype.encode x ∧
      bytes'.extract (t'.order.place strides' i)
      (t'.order.place strides' i + t.dtype.size) = t.dtype.encode x := by
  obtain ⟨x, hx, hbytes⟩ := he.element i hi
  obtain ⟨x', hx', hbytes'⟩ := he'.element i (hi.of_dims hdims)
  rw [linear_of_dims hdims, hx, Option.some.injEq] at hx'
  subst hx'
  exact ⟨x, Array.mem_of_getElem? hx, hbytes, hdtype ▸ hbytes'⟩

end Desc

open Desc in
/-- The parameters of an accepted permutation tell how elements move. They are read as the positions
`p`, each of which stands there once; the sizes of the output are those of the input at these
positions; and in the dense images of the same values, an element of the output is the element of
the input whose index has the same numbers at these positions. -/
theorem permutation_moves_elements {s : Site} (h : StageFamily.permute.finalCheck s = .ok ()) :
    ∃ input output p, s.inputs = [input] ∧ s.outputs = [output] ∧ p.Perm (List.range input.desc.rank) ∧
      (∃ bytes words c, StageFamily.permute.params s = .ok bytes ∧
        Cursor.readWords input.desc.rank { bytes } = .ok (words, c) ∧ words.map UInt32.toNat = p ∧
        c.remaining = 0) ∧
      Gathers p input.desc.memorySizes output.desc.memorySizes ∧
      ∀ values : Array F32, 0 ∉ input.desc.dims → input.desc.dims.prod ≤ values.size →
        input.desc.dtype.size * input.desc.dims.prod ≤ Size.maxBuffer →
        ∃ strides bytes strides' bytes', input.desc.strides .compact = .ok strides ∧
          input.desc.encode values strides = .ok bytes ∧ output.desc.strides .compact = .ok strides' ∧
          output.desc.encode values strides' = .ok bytes' ∧
          ∀ j, List.Forall₂ (· < ·) j output.desc.memorySizes → ∃ i, Gathers p i j ∧
            (∀ i', Gathers p i' j → i' = i) ∧ List.Forall₂ (· < ·) i input.desc.memorySizes ∧
            ∃ x ∈ values, bytes.extract (reach i strides) (reach i strides + input.desc.dtype.size) =
                input.desc.dtype.encode x ∧
              bytes'.extract (reach j strides') (reach j strides' + input.desc.dtype.size) =
                input.desc.dtype.encode x := by
  obtain ⟨input, output, hin, hout, hdims, hdtype⟩ := Site.checkPermute_eq_ok h
  have hmemory := memory_perm_of_dims hdims
  have hp := Order.positions_perm hmemory
  have hlength : (input.desc.order.positions output.desc.order).length = input.desc.rank := by
    rw [hp.length_eq, List.length_range, length_memory]
  refine ⟨input, output, input.desc.order.positions output.desc.order, hin, hout, ?_, ?_, ?_, ?_⟩
  · rw [← input.desc.length_memory]
    exact hp
  · have hfit : ∀ pos ∈ input.desc.order.positions output.desc.order, pos < UInt32.size := by
      intro pos hpos
      have hlt := List.mem_range.1 (hp.mem_iff.1 hpos)
      have hle := input.desc.order.length_le
      exact Nat.lt_of_lt_of_le hlt (Nat.le_trans hle (by decide))
    obtain ⟨bytes, words, c, hbytes, hread, hwords, hend⟩ := Bytes.ofSizes_read hfit
    rw [hlength] at hread
    exact ⟨bytes, words, c, Outcome.bind_eq_ok.2 ⟨_, Site.permutation_eq hin hout hmemory, hbytes⟩, hread,
      hwords, hend⟩
  · have hsizes : output.desc.memorySizes = output.desc.order.memory.map fun x => (input.desc.dim? x).getD 0 := by
      rw [memorySizes_eq_map, funext (dim?_congr hdims)]
    rw [hsizes, memorySizes_eq_map input.desc]
    exact Order.gathers_positions hmemory _
  · intro values hpos henough hroom
    obtain ⟨strides, bytes, hs, hbytes⟩ := exists_dense_image hpos hroom henough
    obtain ⟨strides', bytes', hs', hbytes'⟩ := @exists_dense_image output.desc values (hdims ▸ hpos)
      (hdims ▸ hdtype ▸ hroom) (hdims ▸ henough)
    refine ⟨strides, bytes, strides', bytes', hs, hbytes, hs', hbytes', fun j hj => ?_⟩
    obtain ⟨i, hi, rfl⟩ := exists_index hj
    have hinside : input.desc.Inside i := hi.of_dims hdims.symm
    have hgathers := Order.gathers_positions hmemory i
    refine ⟨input.desc.order.memory.map i, hgathers, fun i' hi' => ?_, hinside.memory, ?_⟩
    · exact hgathers.source_unique (by rw [hlength, ← length_memory]; exact hp) hi'
    · exact (encode_encoded hs hbytes).moved (encode_encoded hs' hbytes') hdims hdtype hinside

/-- A stage that moves the channels of the pixels from outside to inside. -/
def interleaving : Site where
  stage := { name := "interleave", kind := .permute, inputs := [⟨0⟩], outputs := [⟨1⟩] }
  inputs :=
    [{ name := "planes", desc := { Desc.pixels with order := .nchw, fits := ⟨.nchw, rfl, rfl⟩ }, role := .input }]
  outputs := [{ name := "pixels", desc := Desc.pixels, role := .output }]

/-- The element of channel one, column two, row zero is at byte ten of the output and at byte
sixteen of the input. -/
theorem interleaving_moves_elements :
    StageFamily.permute.finalCheck interleaving = .ok () ∧
      ∃ input output bytes bytes', interleaving.inputs = [input] ∧ interleaving.outputs = [output] ∧
        Gathers [2, 0, 1, 3] input.desc.memorySizes output.desc.memorySizes ∧
        input.desc.encode Desc.thirteen [2, 6, 12, 24] = .ok bytes ∧
        output.desc.encode Desc.thirteen [2, 4, 12, 24] = .ok bytes' ∧
        ∃ x ∈ Desc.thirteen, bytes.extract 16 18 = ElementType.f16.encode x ∧
          bytes'.extract 10 12 = ElementType.f16.encode x := by
  have haccepted : StageFamily.permute.finalCheck interleaving = .ok () := rfl
  have hparams : StageFamily.permute.params interleaving =
      .ok #[2, 0, 0, 0, 0, 0, 0, 0, 1, 0, 0, 0, 3, 0, 0, 0] := by
    decide +kernel
  obtain ⟨input, output, p, hin, hout, -, ⟨params, words, c, hparams', hread, rfl, -⟩, hsizes, himages⟩ :=
    permutation_moves_elements haccepted
  cases hin
  cases hout
  cases hparams.symm.trans hparams'
  cases hread
  obtain ⟨strides, bytes, strides', bytes', hs, hbytes, hs', hbytes', hmoved⟩ :=
    himages Desc.thirteen (by decide) (by decide) (by decide)
  cases hs
  cases hs'
  obtain ⟨i, -, hunique, -, x, hx, hfrom, hto⟩ := hmoved [1, 2, 0, 0] (by decide)
  obtain rfl := hunique [2, 0, 1, 0] ⟨rfl, by decide⟩
  exact ⟨haccepted, _, _, bytes, bytes', rfl, rfl, hsizes, hbytes, hbytes', x, hx, hfrom, hto⟩

end NetLower
