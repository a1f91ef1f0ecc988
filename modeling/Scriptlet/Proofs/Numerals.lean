import Scriptlet.Proofs.LongestMatch
import Scriptlet.Proofs.Rounding

/-!
# Numbers read back from their displays

A finite number that is not negative is read back from the text that displays it
(`Decimal.readsBack_of_isMagnitude`). If one of the decimals that are tried reads back as the number
there is nothing to show. If none did, all the digits of the exact value would be written, and a
decimal of that value is rounded to the number. No two such numbers have one display, then, and a
number of a source that is not infinite is such a number (`Decimal.isMagnitude_toFloat`).
-/

namespace Scriptlet

namespace Quotient

open Binary

variable {m : Nat} {e : Int}

/-- The bits of what is stored tell its mantissa and its exponent. -/
theorem ofFloat_float (h : Stored m e) :
    ∃ shift : Nat, e = shift - 1075
      ∧ ofFloat h.float = ⟨m * 2 ^ (shift - 1075), 2 ^ (1075 - shift)⟩ := by
  have hbits := h.toNat_toBits_float
  have hlt := biased_lt h
  have hm := h.lt
  have hnormal := h.normal
  have hge := h.ge
  have hexp : h.float.toBits.toNat / Nat.pow 2 52 % Nat.pow 2 11 = biased m e := by
    rw [Nat.pow_eq, Nat.pow_eq]
    omega
  have hfraction : h.float.toBits.toNat % Nat.pow 2 52 = m % 2 ^ 52 := by
    rw [Nat.pow_eq]
    omega
  have hmantissa : (if biased m e = 0 then m % 2 ^ 52 else Nat.pow 2 52 + m % 2 ^ 52) = m := by
    rw [Nat.pow_eq, biased]
    by_cases hwhole : 2 ^ 52 ≤ m
    · rw [if_pos hwhole, if_neg (by omega)]
      omega
    · rw [if_neg hwhole, if_pos rfl]
      omega
  have hshift : e = (max (biased m e) 1 : Nat) - 1075 := by
    rw [biased]
    split
    all_goals omega
  refine ⟨max (biased m e) 1, hshift, ?_⟩
  simp only [ofFloat, hexp, hfraction, hmantissa]
  rfl

/-- The exact value of what is stored, over a power of two. -/
theorem value_ofFloat_float (h : Stored m e) :
    ∃ k, (ofFloat h.float).den = 2 ^ k
      ∧ ((ofFloat h.float).num : ℚ) / (ofFloat h.float).den = m * 2 ^ e := by
  obtain ⟨shift, hshift, hq⟩ := ofFloat_float h
  have hsplit : (2 : ℚ) ^ e = 2 ^ (shift - 1075) / 2 ^ (1075 - shift) := by
    have hdiff : ((shift - 1075 : Nat) : Int) - (1075 - shift : Nat) = e := by omega
    rw [← zpow_natCast, ← zpow_natCast, ← zpow_sub₀ two_ne_zero, hdiff]
  rw [hq]
  refine ⟨1075 - shift, rfl, ?_⟩
  rw [hsplit, mul_div_assoc', Nat.cast_mul, Nat.cast_pow, Nat.cast_pow, Nat.cast_ofNat]

end Quotient

namespace Decimal

open Binary Lexicon

/-- The number is finite, and its sign bit is clear. -/
def IsMagnitude (x : Float) : Prop :=
  x.isFinite = true ∧ x.toBits.toNat < Nat.pow 2 63

/-- The text that displays the number is `digits` or `digits.digits` and stands for it. -/
def ReadsBack (x : Float) : Prop :=
  (parse? (display .plain x).toList).map toFloat = some x

instance : DecidablePred IsMagnitude :=
  fun _ => inferInstanceAs (Decidable (_ ∧ _))

instance : DecidablePred ReadsBack :=
  fun _ => inferInstanceAs (Decidable (_ = _))

/-! ### The exact decimal of a number -/

theorem value_trim (fuel : Nat) (d : Decimal) : (trim fuel d).value = d.value := by
  induction fuel generalizing d with
  | zero => rfl
  | succ fuel ih =>
    rw [trim]
    split
    · rename_i h
      have hten : ((d.coefficient / 10 : Nat) : ℚ) * 10 = d.coefficient := by
        exact_mod_cast Nat.div_mul_cancel (Nat.dvd_of_mod_eq_zero h.2)
      rw [ih, value, value, zpow_add_one₀ (by norm_num), ← hten]
      ring
    · rfl

theorem value_exact {q : Quotient} {k : Nat} (h : q.den = 2 ^ k) :
    (exact q).value = q.num / q.den := by
  have hten : (10 : ℚ) ^ k = 5 ^ k * 2 ^ k := by
    rw [← mul_pow]
    norm_num
  rw [exact, h, Nat.log2_two_pow, value_trim, value, Nat.pow_eq, zpow_neg, zpow_natCast, hten]
  push_cast
  field_simp

/-- The shortest decimal of what is stored is rounded to it. -/
theorem toFloat_shortest {m : Nat} {e : Int} (h : Stored m e) :
    (shortest h.float).toFloat = h.float := by
  obtain ⟨k, hden, hvalue⟩ := Quotient.value_ofFloat_float h
  rw [shortest]
  -- A decimal that is found was tried on the number; if none is found, the exact one is taken.
  cases hfound : (List.range 17).findSome? fun n =>
      (hits h.float (.ofFloat h.float)
        ((Quotient.ofFloat h.float).magnitude - (n + 1 : Nat))).head? with
  | none =>
    rw [Option.getD_none]
    exact toFloat_exact h ((value_exact hden).trans hvalue)
  | some d =>
    obtain ⟨n, -, hn⟩ := List.exists_of_findSome?_eq_some hfound
    exact toFloat_of_mem_hits (List.mem_of_mem_head? hn)

/-! ### Digits -/

theorem natOfDigits_eq (text : List Char) : natOfDigits text = Nat.ofDigitChars 10 text 0 := by
  rw [natOfDigits, Nat.ofDigitChars_eq_foldl]

theorem digits_ne_nil (n : Nat) : digits n ≠ [] :=
  Nat.toDigits_ne_nil

theorem digit_of_mem_digits {n : Nat} : ∀ c ∈ digits n, Digit c :=
  fun _ h => isDigit_iff.1 (Nat.isDigit_of_mem_toDigits (by decide) (by decide) h)

theorem digit_of_mem_padded {width n : Nat} : ∀ c ∈ padded width n, Digit c := by
  intro c h
  rcases List.mem_append.1 h with h | h
  · obtain rfl := List.eq_of_mem_replicate h
    decide
  · exact digit_of_mem_digits c h

theorem natOfDigits_digits (n : Nat) : natOfDigits (digits n) = n := by
  rw [natOfDigits_eq, digits, Nat.ofDigitChars_ten_toDigits]

section Padded

variable {width n : Nat}

theorem length_digits_le (hw : 0 < width) (h : n < 10 ^ width) : (digits n).length ≤ width :=
  (Nat.length_toDigits_le_iff (by decide) hw).2 h

theorem length_padded (hw : 0 < width) (h : n < 10 ^ width) : (padded width n).length = width := by
  have hle := length_digits_le hw h
  rw [padded, List.length_append, List.length_replicate]
  omega

theorem natOfDigits_append_padded (hw : 0 < width) (h : n < 10 ^ width) (k : Nat) :
    natOfDigits (digits k ++ padded width n) = k * 10 ^ width + n := by
  have hle := length_digits_le hw h
  have hpow : 10 ^ (digits n).length * (10 ^ (width - (digits n).length) * k) = k * 10 ^ width := by
    rw [← Nat.mul_assoc, ← Nat.pow_add, Nat.add_sub_cancel' hle, Nat.mul_comm]
  rw [natOfDigits_eq, Nat.ofDigitChars_append, ← natOfDigits_eq, natOfDigits_digits, padded,
    Nat.ofDigitChars_append, Nat.ofDigitChars_replicate_zero,
    Nat.ofDigitChars_eq_ofDigitChars_zero, hpow, ← natOfDigits_eq, natOfDigits_digits]

end Padded

/-- A decimal is read from its digits. -/
theorem parse?_positional (d : Decimal) :
    parse? (d.positional "").toList = some ⟨d.scaled, -(d.places : Int)⟩ := by
  rw [positional]
  split
  · rename_i h
    rw [String.append_empty, String.toList_ofList, h,
      parse?_whole (digits_ne_nil _) digit_of_mem_digits, natOfDigits_digits]
    rfl
  · rename_i h
    have hpos : 0 < d.places := Nat.pos_of_ne_zero h
    have hlt : d.scaled % 10 ^ d.places < 10 ^ d.places := Nat.mod_lt _ (Nat.pow_pos (by decide))
    have hlength := length_padded hpos hlt
    have hne : padded d.places (d.scaled % 10 ^ d.places) ≠ [] := by
      rw [← List.length_pos_iff, hlength]
      exact hpos
    rw [String.toList_ofList, Nat.pow_eq,
      parse?_fraction (digits_ne_nil _) digit_of_mem_digits hne digit_of_mem_padded,
      natOfDigits_append_padded hpos hlt, hlength, Nat.div_add_mod']

theorem toFloat_parse?_positional (d : Decimal) :
    (parse? (d.positional "").toList).map toFloat = some d.toFloat := by
  have hscaled : scaled ⟨d.scaled, -(d.places : Int)⟩ = d.scaled := by
    have hzero : (-(d.places : Int)).toNat = 0 := by omega
    show d.scaled * 10 ^ (-(d.places : Int)).toNat = d.scaled
    rw [hzero, pow_zero, mul_one]
  have hplaces : places ⟨d.scaled, -(d.places : Int)⟩ = d.places := by
    simp only [places, neg_neg, Int.toNat_natCast]
  rw [parse?_positional, Option.map_some, toFloat, hscaled, hplaces, ← toFloat]

/-! ### Displays -/

/-- What is stored is displayed with its shortest decimal. -/
theorem display_float {m : Nat} {e : Int} (h : Stored m e) :
    display .plain h.float = (shortest h.float).positional "" := by
  have hunpack := h.unpack_float
  have hnan : h.float.isNaN = false := by
    show h.float.toModel.unpack.isNaN = false
    rw [hunpack]
    rfl
  have hinf : h.float.isInf = false := by
    show h.float.toModel.unpack.isInf = false
    rw [hunpack]
    rfl
  have habs : h.float.abs = h.float := by
    show Float.ofModel (.pack h.float.toModel.unpack.abs) = h.float
    rw [hunpack]
    rfl
  have hzero : (h.float == 0) = false := by
    have hzero : (0 : Float).toModel.unpack = .zero .positive := rfl
    show h.float.toModel.unpack.beq (0 : Float).toModel.unpack = false
    rw [hunpack, hzero]
    rfl
  have hsign : h.float.toBits.toNat < Nat.pow 2 63 := by
    have := biased_lt h
    rw [h.toNat_toBits_float, Nat.pow_eq]
    omega
  have hwrite : write .plain (shortest h.float) = (shortest h.float).positional "" := rfl
  rw [display, hnan, hinf, habs, if_pos hsign, writeMagnitude, hzero, hwrite]
  exact String.empty_append

/-- Every finite number that is not negative is read back from its display. -/
theorem readsBack_of_isMagnitude {x : Float} (h : IsMagnitude x) : ReadsBack x := by
  rcases eq_zero_or_stored h.1 h.2 with hzero | ⟨m, e, hs, rfl⟩
  · obtain rfl : x = 0 := eq_of_toBits_eq (hzero.trans (by decide +kernel))
    decide +kernel
  · rw [ReadsBack, display_float hs, toFloat_parse?_positional, toFloat_shortest hs]

/-- A decimal that is not rounded to infinity is rounded to a finite number without a sign. -/
theorem isMagnitude_toFloat {d : Decimal} (h : d.toFloat.isInf = false) :
    IsMagnitude d.toFloat := by
  obtain ⟨hsign, hunsigned⟩ := d.unsigned_toFloat
  refine ⟨?_, hsign⟩
  show d.toFloat.toModel.unpack.isFinite = true
  have hinf : d.toFloat.toModel.unpack.isInf = false := h
  cases hunpack : d.toFloat.toModel.unpack <;> rw [hunpack] at hunsigned hinf
  case infinity => cases hinf
  case notANumber => cases hunsigned
  all_goals rfl

end Decimal

end Scriptlet
