/-
Orders in words.  A word of 32 bits has eight places of four bits, and the word of a list of
dimensions holds the digit of the last in the lowest place.  An order is read from exactly the
words of lists of different dimensions, and from exactly these lists; and what it says of its
dimensions is found in the list by counting, and in the word by shifting.
-/
import Mathlib.Algebra.GroupWithZero.Nat
import Mathlib.Data.List.Nodup
import NetLower.Proofs.Tensor.OrderCode

namespace NetLower.Order

/-! ## Words and their nibbles -/

/-- The digit of a dimension is shifted to a place and joined to what is in the word. -/
def put (w : UInt32) (x : Dim) (place : Nat) : UInt32 := w ||| UInt32.ofNat x.digit <<< UInt32.ofNat (4 * place)

/-- The word of dimensions listed outermost first. -/
def word (dims : List Dim) : UInt32 := dims.reverse.zipIdx.foldl (fun w p => put w p.1 p.2) 0

/-- What is in the places of a word, lowest first, up to the highest that is not zero. -/
def nibbles (w : UInt32) : List Nat :=
  if w = 0 then [] else (w &&& 0xF).toNat :: nibbles (w >>> 4)
termination_by w.toNat
decreasing_by
  have hpos : w.toNat ≠ 0 := fun h => ‹¬w = 0› (UInt32.toNat_inj.1 h)
  rw [UInt32.toNat_shiftRight, Nat.shiftRight_eq_div_pow]
  exact Nat.div_lt_self (Nat.pos_of_ne_zero hpos) (by decide)

/-- Above all that is in the word, a digit counts for its place. -/
theorem toNat_put {w : UInt32} {x : Dim} {i : Nat} (hw : w.toNat < 16 ^ i) (hi : i < maxDigits) :
    (put w x i).toNat = w.toNat + 16 ^ i * x.digit := by
  have hroom : 4 * i + 4 ≤ 32 := by
    rw [maxDigits] at hi
    omega
  have hpow : 16 ^ i = 2 ^ (4 * i) := by rw [Nat.pow_mul]
  have hshift : (UInt32.ofNat (4 * i)).toNat % 32 = 4 * i := by
    rw [UInt32.toNat_ofNat']
    omega
  have hdigit : (UInt32.ofNat x.digit).toNat = x.digit := by cases x <;> rfl
  have hfits : 2 ^ (4 * i) * x.digit < 2 ^ 32 :=
    calc 2 ^ (4 * i) * x.digit < 2 ^ (4 * i) * 2 ^ 4 := Nat.mul_lt_mul_of_pos_left (digit_lt x) (Nat.two_pow_pos _)
      _ = 2 ^ (4 * i + 4) := (Nat.pow_add ..).symm
      _ ≤ 2 ^ 32 := Nat.pow_le_pow_right (by decide) hroom
  -- The shifted digit and the word have no bit in common, so that joining them adds them.
  rw [hpow] at hw ⊢
  rw [put, UInt32.toNat_or, UInt32.toNat_shiftLeft, hshift, hdigit, Nat.shiftLeft_eq, Nat.mul_comm x.digit,
    Nat.mod_eq_of_lt hfits, Nat.or_comm, ← Nat.two_pow_add_eq_or_of_lt hw, Nat.add_comm]

/-- Filling a word from a place on adds the code of the dimensions, moved up to this place. -/
theorem toNat_foldl_put {dims : List Dim} {i : Nat} {w : UInt32} (hw : w.toNat < 16 ^ i)
    (hlen : i + dims.length ≤ maxDigits) :
    ((dims.zipIdx i).foldl (fun w p => put w p.1 p.2) w).toNat = w.toNat + 16 ^ i * pack dims := by
  -- What has been filled stays below the place that comes next.
  induction dims generalizing i w with
  | nil => simp [pack]
  | cons x dims ih =>
    rw [List.length_cons] at hlen
    have hput : (put w x i).toNat = w.toNat + 16 ^ i * x.digit := toNat_put hw (by omega)
    have hbelow : (put w x i).toNat < 16 ^ (i + 1) :=
      calc (put w x i).toNat = w.toNat + 16 ^ i * x.digit := hput
        _ < 16 ^ i * (x.digit + 1) := by rw [Nat.mul_succ]; omega
        _ ≤ 16 ^ (i + 1) := by rw [Nat.pow_succ]; exact Nat.mul_le_mul_left _ (digit_lt x)
    rw [List.zipIdx_cons, List.foldl_cons, ih hbelow (by omega), hput, pack, Nat.pow_succ, Nat.mul_add,
      Nat.mul_assoc, Nat.add_assoc]

/-- Shifted together or added up, the digits of a list give the same number. -/
theorem toNat_word {dims : List Dim} (hlen : dims.length ≤ maxDigits) : (word dims).toNat = pack dims.reverse := by
  have hfill := @toNat_foldl_put dims.reverse 0 0 (by decide) (by rwa [List.length_reverse, Nat.zero_add])
  rwa [UInt32.toNat_zero, Nat.zero_add, Nat.pow_zero, Nat.one_mul] at hfill

/-- The nibbles of a word are the digits of its number. -/
theorem nibbles_eq_digits (w : UInt32) : nibbles w = digits w.toNat := by
  fun_induction nibbles w with
  | case1 => rw [UInt32.toNat_zero, digits, if_pos rfl]
  | case2 w hw ih =>
    have hpos : w.toNat ≠ 0 := fun h => hw (UInt32.toNat_inj.1 h)
    have hlow : (w &&& 0xF).toNat = w.toNat % 16 := by
      rw [UInt32.toNat_and]
      exact Nat.and_two_pow_sub_one_eq_mod _ 4
    have hrest : (w >>> 4).toNat = w.toNat / 16 := by
      rw [UInt32.toNat_shiftRight]
      exact Nat.shiftRight_eq_div_pow _ 4
    rw [ih, hlow, hrest, digits.eq_1 w.toNat, if_neg hpos]

/-! ## Orders, codes and lists -/

theorem digit_injective : Function.Injective Dim.digit := by
  intro x y h
  have hsame := congrArg Dim.ofDigit? h
  rwa [Dim.ofDigit?_digit, Dim.ofDigit?_digit, Option.some.injEq] at hsame

theorem pack_injective : Function.Injective pack := by
  intro xs ys h
  have hdigits := congrArg digits h
  rw [digits_pack, digits_pack] at hdigits
  exact List.map_injective_iff.2 digit_injective hdigits

theorem ofCode_eq_ok {code : Nat} {o : Order} : ofCode code = .ok o ↔ o.code = code :=
  ⟨code_of_ofCode, fun h => h ▸ ofCode_code o⟩

/-- An order is read from the list of its dimensions and from no other. -/
theorem ofDims_eq_ok {dims : List Dim} {o : Order} (hlen : dims.length ≤ maxDigits) :
    ofDims dims = .ok o ↔ o.dims = dims := by
  rw [ofDims, if_neg (Nat.not_lt.2 hlen), ofCode_eq_ok, code, pack_injective.eq_iff, Order.dims,
    List.reverse_eq_iff]

theorem length_dims_le (o : Order) : o.dims.length ≤ maxDigits := by
  rw [dims, List.length_reverse]
  exact Nat.le_trans o.length_le (by decide)

/-- Different dimensions, at least one, are those of an order. -/
theorem exists_dims_eq_iff {dims : List Dim} : (∃ o : Order, o.dims = dims) ↔ dims ≠ [] ∧ dims.Nodup := by
  constructor
  · rintro ⟨o, rfl⟩
    exact ⟨fun h => o.nonempty (List.reverse_eq_nil_iff.1 h), List.nodup_reverse.2 o.nodup⟩
  · rintro ⟨hne, hnodup⟩
    refine ⟨{ memory := dims.reverse, nodup := List.nodup_reverse.2 hnodup, nonempty := ?_ }, dims.reverse_reverse⟩
    exact fun h => hne (List.reverse_eq_nil_iff.1 h)

/-- An order is in a word exactly if the word is that of its dimensions. -/
theorem code_eq_toNat_iff {o : Order} {w : UInt32} : o.code = w.toNat ↔ word o.dims = w := by
  rw [← UInt32.toNat_inj, toNat_word o.length_dims_le, dims, List.reverse_reverse, code]

/-! ## What an order says of its dimensions -/

/-- Dimensions do not repeat, so the first place that holds one is the only place. -/
theorem position?_eq_some_iff {o : Order} {x : Dim} {k : Nat} :
    o.position? x = some k ↔ o.memory[k]? = some x := by
  rw [position?, List.idxOf?_eq_some_iff, List.getElem?_eq_some_iff]
  constructor
  · rintro ⟨hk, hx, _⟩
    exact ⟨hk, hx⟩
  · rintro ⟨hk, rfl⟩
    refine ⟨hk, rfl, fun j hj hsame => ?_⟩
    exact Nat.ne_of_lt hj (o.nodup.getElem_inj_iff.1 hsame)

/-- What lies within a dimension comes after it where dimensions are listed outermost first. -/
theorem getElem?_memory_iff {o : Order} {x : Dim} {k : Nat} :
    o.memory[k]? = some x ↔ ∃ outer inner, o.dims = outer ++ x :: inner ∧ inner.length = k := by
  constructor
  · intro h
    obtain ⟨hk, rfl⟩ := List.getElem?_eq_some_iff.1 h
    refine ⟨(o.memory.drop (k + 1)).reverse, (o.memory.take k).reverse, ?_, ?_⟩
    · calc o.dims = (o.memory.take k ++ o.memory[k] :: o.memory.drop (k + 1)).reverse := by
            rw [List.getElem_cons_drop, List.take_append_drop, dims]
        _ = _ := by rw [List.reverse_append, List.reverse_cons, List.append_assoc, List.singleton_append]
    · rw [List.length_reverse, List.length_take_of_le (Nat.le_of_lt hk)]
  · rintro ⟨outer, inner, hdims, rfl⟩
    have hmemory : o.memory = inner.reverse ++ x :: outer.reverse := by
      rw [dims, List.reverse_eq_iff] at hdims
      simpa using hdims
    rw [hmemory, List.getElem?_append_right (Nat.le_of_eq inner.length_reverse), List.length_reverse, Nat.sub_self]
    rfl

/-- The order lists these dimensions, outermost first.  The position of each is its distance from
the end. -/
structure Lists (o : Order) (dims : List Dim) : Prop where
  dims_eq : o.dims = dims
  rank_eq : o.rank = dims.length
  position_iff (x : Dim) (k : Nat) : o.position? x = some k ↔ ∃ outer inner, dims = outer ++ x :: inner ∧
    inner.length = k

theorem lists_dims (o : Order) : o.Lists o.dims where
  dims_eq := rfl
  rank_eq := by rw [rank, dims, List.length_reverse]
  position_iff _ _ := position?_eq_some_iff.trans getElem?_memory_iff

/-- The word alone shows the order: how many dimensions it has, which they are, innermost first, and
where each is. -/
structure ShownBy (o : Order) (w : UInt32) : Prop where
  rank_eq : o.rank = (nibbles w).length
  memory_eq : o.memory = (nibbles w).filterMap Dim.ofDigit?
  position_iff (x : Dim) (k : Nat) : o.position? x = some k ↔ (nibbles w)[k]? = some x.digit

theorem shownBy_of_code_eq {o : Order} {w : UInt32} (h : o.code = w.toNat) : o.ShownBy w := by
  have hnibbles : nibbles w = o.memory.map Dim.digit := by rw [nibbles_eq_digits, ← h, code, digits_pack]
  refine ⟨?_, ?_, fun x k => ?_⟩
  · rw [hnibbles, List.length_map, rank]
  · have hread : Dim.ofDigit? ∘ Dim.digit = some := funext Dim.ofDigit?_digit
    rw [hnibbles, List.filterMap_map, hread, List.filterMap_some]
  · rw [hnibbles, position?_eq_some_iff, List.getElem?_map, ← Option.map_some,
      (Option.map_injective digit_injective).eq_iff]

/-- Order codes are faithful.  Of the lists with room in a word, exactly those of different
dimensions, at least one, are read as an order: the one that lists them, with their word as its
code.  Of all words, exactly those of such lists are read as an order: the one with this code, which
is shown by the word and read again from its own dimensions. -/
theorem codes_faithful :
    (∀ dims : List Dim, dims.length ≤ 8 →
      ((∃ o, ofDims dims = .ok o) ↔ dims ≠ [] ∧ dims.Nodup) ∧
        ∀ o, ofDims dims = .ok o → o.Lists dims ∧ o.code = (word dims).toNat) ∧
    ∀ w : UInt32,
      ((∃ o, ofCode w.toNat = .ok o) ↔
          ∃ dims : List Dim, dims.length ≤ 8 ∧ dims ≠ [] ∧ dims.Nodup ∧ word dims = w) ∧
        ∀ o, ofCode w.toNat = .ok o → o.code = w.toNat ∧ ofDims o.dims = .ok o ∧ o.ShownBy w := by
  refine ⟨fun dims hlen => ⟨?_, fun o h => ?_⟩, fun w => ⟨⟨?_, ?_⟩, fun o h => ?_⟩⟩
  · simp only [ofDims_eq_ok hlen, exists_dims_eq_iff]
  · obtain rfl := (ofDims_eq_ok hlen).1 h
    exact ⟨o.lists_dims, code_eq_toNat_iff.2 rfl⟩
  · rintro ⟨o, h⟩
    obtain ⟨hne, hnodup⟩ := exists_dims_eq_iff.1 ⟨o, rfl⟩
    exact ⟨o.dims, o.length_dims_le, hne, hnodup, code_eq_toNat_iff.1 (ofCode_eq_ok.1 h)⟩
  · rintro ⟨dims, _, hne, hnodup, hword⟩
    obtain ⟨o, rfl⟩ := exists_dims_eq_iff.2 ⟨hne, hnodup⟩
    exact ⟨o, ofCode_eq_ok.2 (code_eq_toNat_iff.2 hword)⟩
  · have hcode := ofCode_eq_ok.1 h
    exact ⟨hcode, (ofDims_eq_ok o.length_dims_le).2 rfl, shownBy_of_code_eq hcode⟩

/-- `NHWC` is read from its list and from its word.  A repeated dimension and a gap between the
digits are refused. -/
theorem nhwc_read_back :
    [Dim.n, .h, .w, .c].length ≤ 8 ∧ ofDims [.n, .h, .w, .c] = .ok nhwc ∧ ofCode 0x4213 = .ok nhwc ∧
      nhwc.position? .h = some 2 ∧ (¬∃ o, ofDims [.w, .h, .c, .n, .d, .w] = .ok o) ∧
        ¬∃ o, ofCode 0x4013 = .ok o := by
  have hcode : ofCode 0x4213 = .ok nhwc := ofCode_eq_ok.2 (by decide)
  have hdims : ofDims [.n, .h, .w, .c] = .ok nhwc := ((codes_faithful.2 0x4213).2 nhwc hcode).2.1
  have hlists := ((codes_faithful.1 [.n, .h, .w, .c] (by decide)).2 nhwc hdims).1
  refine ⟨by decide, hdims, hcode, (hlists.position_iff .h 2).2 ⟨[.n], [.w, .c], rfl, rfl⟩, fun hrepeat => ?_, ?_⟩
  · have hnodup := ((codes_faithful.1 [.w, .h, .c, .n, .d, .w] (by decide)).1.1 hrepeat).2
    revert hnodup
    decide
  · rintro ⟨o, hgap⟩
    have hshown := ((codes_faithful.2 0x4013).2 o hgap).2.2
    have hrank := hshown.rank_eq
    rw [rank, hshown.memory_eq] at hrank
    revert hrank
    decide +kernel

end NetLower.Order
