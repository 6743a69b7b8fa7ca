/-
Numbers in documents.  A whole number that fits 64 bits is read as itself.  A 32-bit number is
written with a point or an exponent, so it is never read as a whole number.
-/
import Mathlib.Data.List.TakeDrop
import Mathlib.Data.List.TakeWhile
import NetLower.Network.Text
import NetLower.Proofs.Json.Spells

namespace NetLower

namespace JsonNumber

variable {n : Nat} {cs : List Char} {numeral : Numeral}

theorem digit_facts {c : Char} (h : c.isDigit = true) :
    isExponentMark c = false ∧ c ≠ '.' ∧ c ≠ '-' ∧ JsonToken.isWordChar c = true := by
  refine ⟨?_, ?_, ?_, ?_⟩
  · by_contra hno
    simp only [isExponentMark, Bool.not_eq_false, Bool.or_eq_true, beq_iff_eq] at hno
    rcases hno with rfl | rfl <;> cases h
  · rintro rfl
    cases h
  · rintro rfl
    cases h
  · simp [JsonToken.isWordChar, Char.isAlphanum, h]

/-- A number does not start with a zero, unless it is zero. -/
theorem isWhole_toDigits (n : Nat) : isWhole (Nat.toDigits 10 n) = true := by
  have hdigits : (Nat.toDigits 10 n).all Char.isDigit = true :=
    List.all_eq_true.2 fun c hc => Nat.isDigit_of_mem_toDigits (by decide) (by decide) hc
  have leading : ∀ n, 0 < n → ∃ c cs, Nat.toDigits 10 n = c :: cs ∧ c ≠ '0' := by
    intro n
    induction n using Nat.strong_induction_on with
    | _ n ih =>
      intro hpos
      by_cases hlt : n < 10
      · refine ⟨n.digitChar, [], Nat.toDigits_of_lt_base hlt, fun hzero => ?_⟩
        rw [Nat.digitChar_eq_zero] at hzero
        omega
      · obtain ⟨c, cs, hcs, hc⟩ := ih (n / 10) (by omega) (by omega)
        exact ⟨c, cs ++ [(n % 10).digitChar], by rw [Nat.toDigits_of_base_le (by decide) (by omega), hcs]; rfl, hc⟩
  by_cases hzero : n = 0
  · subst hzero
    rfl
  · obtain ⟨c, cs, hcs, hc⟩ := leading n (by omega)
    rw [hcs] at hdigits ⊢
    have hlead : (c != '0' && (c :: cs).all Char.isDigit) = true := by simpa [hc] using hdigits
    rw [isWhole]
    · exact hlead
    · intro heq
      exact absurd heq hc

/-- What stands behind the mantissa. -/
def Numeral.exponentPart? : List Char → Option (Option Int)
  | [] => some none
  | _ :: digits => (exponentOf? digits).map some

/-- What stands behind the whole part. -/
def Numeral.fractionPart? : List Char → Option (Option (List Char))
  | [] => some none
  | _ :: digits => if isDigits digits then some (some digits) else none

/-- A numeral behind its sign. -/
def Numeral.unsigned? (negative : Bool) (cs : List Char) : Option Numeral :=
  let mantissa := cs.takeWhile fun c => !isExponentMark c
  (Numeral.exponentPart? (cs.dropWhile fun c => !isExponentMark c)).bind fun exponent =>
    (Numeral.fractionPart? (mantissa.dropWhile (· != '.'))).bind fun fraction =>
      let whole := mantissa.takeWhile (· != '.')
      if isWhole whole then some { negative, whole, fraction, exponent } else none

/-- The sign of a numeral, and what stands behind it. -/
def Numeral.signed : List Char → Bool × List Char
  | '-' :: rest => (true, rest)
  | cs => (false, cs)

theorem Numeral.ofText?_eq :
    Numeral.ofText? cs = Numeral.unsigned? (Numeral.signed cs).1 (Numeral.signed cs).2 := by
  unfold Numeral.ofText?
  split
  rename_i negative rest hsigned
  rw [show Numeral.signed cs = (negative, rest) from hsigned]
  simp only [Numeral.unsigned?, List.span_eq_takeWhile_dropWhile]
  generalize List.dropWhile (fun c => !isExponentMark c) rest = mark
  generalize List.takeWhile (fun c => !isExponentMark c) rest = mantissa
  generalize List.dropWhile (· != '.') mantissa = point
  cases mark with
  | nil =>
    cases point with
    | nil => rfl
    | cons _ digits =>
      by_cases h : isDigits digits = true <;> simp [Numeral.exponentPart?, Numeral.fractionPart?, h]
  | cons _ digits =>
    cases hexponent : exponentOf? digits with
    | none => simp [Numeral.exponentPart?, hexponent]
    | some exponent =>
      cases point with
      | nil => simp [Numeral.exponentPart?, Numeral.fractionPart?, hexponent]
      | cons _ digits =>
        by_cases h : isDigits digits = true <;> simp [Numeral.exponentPart?, Numeral.fractionPart?, h, hexponent]

/-- Digits are a numeral without fraction and exponent. -/
theorem unsigned?_digits (negative : Bool) (hcs : ∀ c ∈ cs, c.isDigit = true) (hwhole : isWhole cs = true) :
    Numeral.unsigned? negative cs = some ⟨negative, cs, none, none⟩ := by
  have hmark : ∀ c ∈ cs, (!isExponentMark c) = true := fun c hc => by simp [(digit_facts (hcs c hc)).1]
  have hpoint : ∀ c ∈ cs, (c != '.') = true := fun c hc => by simp [(digit_facts (hcs c hc)).2.1]
  simp [Numeral.unsigned?, Numeral.exponentPart?, Numeral.fractionPart?, List.takeWhile_eq_self_iff.2 hmark,
    List.dropWhile_eq_nil_iff.2 hmark, List.takeWhile_eq_self_iff.2 hpoint,
    List.dropWhile_eq_nil_iff.2 hpoint, hwhole]

theorem toInt?_digits {negative : Bool} (hsigned : negative = true → 0 < n ∧ n ≤ UInt64.size / 2)
    (hn : n < UInt64.size) : (⟨negative, Nat.toDigits 10 n, none, none⟩ : Numeral).toInt? =
      some (if negative then -(n : Int) else n) := by
  have hvalue : valueOf (Nat.toDigits 10 n) = n := Nat.ofDigitChars_toDigits (by decide) (by decide)
  cases negative with
  | false => simp [Numeral.toInt?, hvalue, hn]
  | true => simp [Numeral.toInt?, hvalue, hsigned rfl]

/-- A numeral with a point or an exponent is no whole number. -/
theorem toInt?_of_point {negative : Bool} (h : Numeral.unsigned? negative cs = some numeral)
    (hcs : '.' ∈ cs ∨ 'e' ∈ cs) : numeral.toInt? = none := by
  simp only [Numeral.unsigned?, Option.bind_eq_some_iff] at h
  obtain ⟨exponent, hexponent, fraction, hfraction, h⟩ := h
  split at h
  · cases h
    by_cases hmark : ∀ c ∈ cs, (!isExponentMark c) = true
    · -- Without an exponent the point is in the mantissa, and a fraction is behind it.
      have hpoint : '.' ∈ cs := hcs.resolve_right fun he => by simpa [isExponentMark] using hmark 'e' he
      rw [List.takeWhile_eq_self_iff.2 hmark] at hfraction
      have hne : cs.dropWhile (· != '.') ≠ [] := fun hnil => by
        simpa using List.dropWhile_eq_nil_iff.1 hnil '.' hpoint
      unfold Numeral.fractionPart? at hfraction
      split at hfraction
      next hnil => exact absurd hnil hne
      · split at hfraction
        · cases hfraction
          simp [Numeral.toInt?]
        · cases hfraction
    · have hne : cs.dropWhile (fun c => !isExponentMark c) ≠ [] :=
        fun hnil => hmark (List.dropWhile_eq_nil_iff.1 hnil)
      unfold Numeral.exponentPart? at hexponent
      split at hexponent
      next hnil => exact absurd hnil hne
      · obtain ⟨_, _, rfl⟩ := Option.map_eq_some_iff.1 hexponent
        simp [Numeral.toInt?]
  · cases h

theorem mem_signed {c : Char} (hc : c ∈ cs) (hne : c ≠ '-') : c ∈ (Numeral.signed cs).2 := by
  unfold Numeral.signed
  split
  · exact (List.mem_cons.1 hc).resolve_left hne
  · exact hc

/-- The token of a numeral. -/
theorem ofWord?_numeral (h : Numeral.ofText? cs = some numeral) :
    JsonToken.ofWord? cs = some (.number numeral.value?) := by
  have other {word : List Char} (hword : (Numeral.ofText? word).isSome = false) : cs ≠ word := by
    rintro rfl
    rw [h] at hword
    cases hword
  rw [JsonToken.ofWord?, if_neg (other (by decide)), if_neg (other (by decide)), if_neg (other (by decide)), h]
  rfl

end JsonNumber

namespace Document

open JsonNumber

/-- A whole number of 64 bits, given by its sign and its digits. -/
theorem spells_digits {text : String} {n : Nat} {negative : Bool}
    (htext : text.toList = (if negative then ['-'] else []) ++ Nat.toDigits 10 n)
    (hsigned : negative = true → 0 < n ∧ n ≤ UInt64.size / 2) (hn : n < UInt64.size) :
    (Document.atom text).Spells (.number (some (.int (if negative then -(n : Int) else n)))) := by
  have hdigits : ∀ c ∈ Nat.toDigits 10 n, c.isDigit = true := fun c hc =>
    Nat.isDigit_of_mem_toDigits (by decide) (by decide) hc
  have hsign : Numeral.signed text.toList = (negative, Nat.toDigits 10 n) := by
    rw [htext]
    cases negative with
    | true => rfl
    | false =>
      rw [if_neg nofun, List.nil_append, Numeral.signed]
      intro rest heq
      exact (digit_facts (hdigits '-' (by simp [heq]))).2.2.1 rfl
  have hnumeral : Numeral.ofText? text.toList = some ⟨negative, Nat.toDigits 10 n, none, none⟩ := by
    rw [Numeral.ofText?_eq, hsign]
    exact unsigned?_digits negative hdigits (isWhole_toDigits n)
  have hvalue : (⟨negative, Nat.toDigits 10 n, none, none⟩ : Numeral).value? =
      some (.int (if negative then -(n : Int) else n)) := by rw [Numeral.value?, toInt?_digits hsigned hn]
  refine spells_word ?_ ?_ (ofWord?_numeral hnumeral) fun _ => by rw [hvalue]; rfl
  · rw [htext]
    simp [Nat.toDigits_ne_nil]
  · intro c hc
    rw [htext, List.mem_append] at hc
    rcases hc with hc | hc
    · cases negative with
      | true => rw [List.mem_singleton.1 hc]; rfl
      | false => cases hc
    · exact (digit_facts (hdigits c hc)).2.2.2

theorem spells_ofNat {n : Nat} (hn : n < UInt64.size) : (Document.ofNat n).Spells (.number (some (.int n))) := by
  refine @spells_digits (toString n) n false ?_ nofun hn
  rw [Nat.toString_eq_ofList_toDigits, String.toList_ofList]
  rfl

theorem spells_ofInt {v : Int} (hlow : Int64.minValue.toInt ≤ v) (hhigh : v ≤ Int64.maxValue.toInt) :
    (Document.ofInt v).Spells (.number (some (.int v))) := by
  have hmin : Int64.minValue.toInt = -(2 ^ 63) := rfl
  have hmax : Int64.maxValue.toInt = 2 ^ 63 - 1 := rfl
  have hsize : UInt64.size = 2 ^ 64 := rfl
  by_cases hv : 0 ≤ v
  · have := @spells_digits (toString v) v.toNat false (by
      rw [Int.toString_eq_repr, Int.repr_eq_if, if_pos hv, Nat.repr_eq_ofList_toDigits, String.toList_ofList]
      rfl) nofun (by omega)
    rw [if_neg nofun, Int.toNat_of_nonneg hv] at this
    exact this
  · have := @spells_digits (toString v) (-v).toNat true (by
      simp only [Int.toString_eq_repr, Int.repr_eq_if, if_neg hv, Nat.repr_eq_ofList_toDigits,
        String.toList_append, String.toList_ofList]
      rfl) (fun _ => by omega) (by omega)
    rw [if_pos rfl, Int.toNat_of_nonneg (by omega), Int.neg_neg] at this
    exact this

end Document

/-! ## 32-bit numbers -/

/-- Nothing but characters of words and numerals. -/
def Wordy (text : String) : Prop := ∀ c ∈ text.toList, JsonToken.isWordChar c = true

instance (text : String) : Decidable (Wordy text) := List.decidableBAll _ _

/-- Characters of numerals, with a point or an exponent among them. -/
def Pointed (text : String) : Prop := Wordy text ∧ ('.' ∈ text.toList ∨ 'e' ∈ text.toList)

theorem Wordy.append {s t : String} (hs : Wordy s) (ht : Wordy t) : Wordy (s ++ t) := by
  intro c hc
  rw [String.toList_append, List.mem_append] at hc
  exact hc.elim (hs c) (ht c)

theorem Pointed.after {s t : String} (ht : Pointed t) (hs : Wordy s) : Pointed (s ++ t) := by
  refine ⟨hs.append ht.1, ?_⟩
  rw [String.toList_append, List.mem_append, List.mem_append]
  exact ht.2.imp .inr .inr

theorem Pointed.before {s t : String} (hs : Pointed s) (ht : Wordy t) : Pointed (s ++ t) := by
  refine ⟨hs.1.append ht, ?_⟩
  rw [String.toList_append, List.mem_append, List.mem_append]
  exact hs.2.imp .inl .inl

namespace Notation

theorem wordy_ofList {cs : List Char} (h : ∀ c ∈ cs, c.isDigit = true) : Wordy (String.ofList cs) := by
  intro c hc
  rw [String.toList_ofList] at hc
  exact (JsonNumber.digit_facts (h c hc)).2.2.2

theorem isDigit_digitsOf {n : Nat} {c : Char} (hc : c ∈ digitsOf n) : c.isDigit = true :=
  Nat.isDigit_of_mem_toDigits (by decide) (by decide) hc

theorem isDigit_zeros {n : Nat} {c : Char} (hc : c ∈ List.replicate n '0') : c.isDigit = true := by
  rw [List.eq_of_mem_replicate hc]
  rfl

theorem pointed_plainText (p : Decimal.Point) : Pointed (plainText true p) := by
  simp only [plainText, if_true]
  by_cases hpower : 0 ≤ p.power
  · rw [if_pos hpower]
    have tail : Pointed ".0" := ⟨by decide, by decide⟩
    exact tail.after (wordy_ofList fun c hc => (List.mem_append.1 hc).elim isDigit_digitsOf isDigit_zeros)
  · rw [if_neg hpower]
    have point : Pointed "." := ⟨by decide, by decide⟩
    have padded {c : Char} {count : Nat} (hc : c ∈ List.replicate count '0' ++ digitsOf p.digits) :
        c.isDigit = true :=
      (List.mem_append.1 hc).elim isDigit_zeros isDigit_digitsOf
    exact (point.after (wordy_ofList fun c hc => padded (List.mem_of_mem_take hc))).before
      (wordy_ofList fun c hc => padded (List.mem_of_mem_drop hc))

theorem pointed_exponentText (p : Decimal.Point) (exponent : Int) : Pointed (exponentText "+" p exponent) := by
  have mark : Pointed "e" := ⟨by decide, by decide⟩
  have sign : Wordy (if 0 ≤ exponent then "+" else "-") := by
    by_cases h : 0 ≤ exponent
    · rw [if_pos h]
      decide
    · rw [if_neg h]
      decide
  have behind {mantissa : String} (h : Wordy mantissa) :
      Pointed (mantissa ++ "e" ++ (if 0 ≤ exponent then "+" else "-") ++
        String.ofList (digitsOf exponent.natAbs)) :=
    ((mark.after h).before sign).before (wordy_ofList fun c hc => isDigit_digitsOf hc)
  have hdigits : ∀ c ∈ digitsOf p.digits, c.isDigit = true := fun c hc => isDigit_digitsOf hc
  refine behind ?_
  generalize digitsOf p.digits = digits at hdigits
  split
  · decide
  · exact wordy_ofList hdigits
  next d rest =>
    intro c hc
    rw [String.toList_ofList, List.mem_cons, List.mem_cons] at hc
    rcases hc with rfl | rfl | hc
    · exact (JsonNumber.digit_facts (hdigits c (by simp))).2.2.2
    · rfl
    · exact (JsonNumber.digit_facts (hdigits c (by simp [hc]))).2.2.2

/-- A number is written with a point or an exponent, and nothing but the characters of numerals. -/
theorem pointed_network {x : F32} (h : x.isFinite = true) : Pointed (network.text x) := by
  unfold text
  cases hx : x.value with
  | nan | infinite => simp [F32.isFinite, hx] at h
  | finite negative m e =>
    have magnitude : Pointed (if m = 0 then (if network.keepPoint then "0.0" else "0")
        else network.positiveText (Decimal.shortest network.tie m e)) := by
      split
      · exact ⟨by decide, by decide⟩
      · unfold positiveText network
        simp only
        split
        · exact pointed_plainText _
        · exact pointed_exponentText _ _
    cases negative with
    | false => exact magnitude
    | true => exact magnitude.after (by decide)

end Notation

/-- Written alone, the number is read as itself. -/
def F32.ReadsBack (x : F32) : Prop := (Json.parse? (Notation.network.text x)).bind Json.float? = some x

/-- Where a number is read at all it was one word, and not a whole number if it has a point. -/
theorem JsonToken.ofWord?_pointed {text : String} {x : F32} (htext : Pointed text)
    (h : (Json.parse? text).bind Json.float? = some x) :
    ∃ f : F64, ofWord? text.toList = some (.number (some (.float f))) ∧ f.toSingle = x := by
  obtain ⟨hwordy, hmark⟩ := htext
  have hne : text.toList ≠ [] := by
    intro hnil
    rw [hnil] at hmark
    simp at hmark
  rw [Json.parse?, ofText?_word hne hwordy, Option.bind_eq_some_iff] at h
  obtain ⟨j, hj, hfloat⟩ := h
  obtain ⟨tokens, htokens, hj⟩ := Option.bind_eq_some_iff.1 hj
  obtain ⟨token, htoken, rfl⟩ := Option.map_eq_some_iff.1 htokens
  have hnumber : ∃ value : JsonNumber, token = .number (some value) ∧ value.toF32 = x := by
    cases token with
    | number value =>
      cases hj
      obtain ⟨value, rfl, hvalue⟩ := Option.map_eq_some_iff.1 hfloat
      exact ⟨value, rfl, hvalue⟩
    | null | bool | text =>
      cases hj
      cases hfloat
    | _ => cases hj
  obtain ⟨value, rfl, hvalue⟩ := hnumber
  cases hnumeral : JsonNumber.Numeral.ofText? text.toList with
  | none =>
    simp only [ofWord?, hnumeral] at htoken
    split at htoken
    · cases htoken
    · split at htoken
      · cases htoken
      · split at htoken <;> cases htoken
  | some numeral =>
    have hsigned : '.' ∈ (JsonNumber.Numeral.signed text.toList).2 ∨
        'e' ∈ (JsonNumber.Numeral.signed text.toList).2 :=
      hmark.imp (fun h => JsonNumber.mem_signed h (by decide)) fun h => JsonNumber.mem_signed h (by decide)
    have hint := JsonNumber.toInt?_of_point (JsonNumber.Numeral.ofText?_eq ▸ hnumeral) hsigned
    have hvalue' := JsonNumber.ofWord?_numeral hnumeral
    rw [htoken, Option.some.injEq, JsonToken.number.injEq, JsonNumber.Numeral.value?, hint] at hvalue'
    obtain ⟨f, _, rfl⟩ := Option.map_eq_some_iff.1 hvalue'.symm
    exact ⟨f, htoken, hvalue⟩

/-- What a number spells: itself as a number with a point, or nothing if it is not finite. -/
theorem Document.spells_ofF32 {x : F32} (hback : x.isFinite = true → x.ReadsBack) :
    ∃ j, (Document.ofF32 x).Spells j ∧
      if x.isFinite then ∃ f : F64, j = .number (some (.float f)) ∧ f.toSingle = x else j = .null := by
  by_cases hfinite : x.isFinite = true
  · have hpointed := Notation.pointed_network hfinite
    obtain ⟨f, htoken, hf⟩ := JsonToken.ofWord?_pointed hpointed (hback hfinite)
    refine ⟨.number (some (.float f)), ?_, by rw [if_pos hfinite]; exact ⟨f, rfl, hf⟩⟩
    rw [ofF32, if_pos hfinite]
    refine spells_word (fun hnil => ?_) hpointed.1 htoken fun _ => rfl
    simpa [hnil] using hpointed.2
  · refine ⟨.null, ?_, by rw [if_neg hfinite]⟩
    rw [ofF32, if_neg hfinite]
    exact spells_null

end NetLower
