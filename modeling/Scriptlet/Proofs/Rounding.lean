import Mathlib
import Scriptlet.Proofs.Stored

/-!
# Exact rounding

A decimal is rounded by a division, of two binary numbers or of all its digits by a power of ten. A
quotient that can be stored is not rounded (`Binary.div_exact`): it is computed with an exponent
that is no larger than the one that it is stored with, so that no bits but zeros are dropped. Hence
a decimal whose value can be stored stands for that value (`Decimal.toFloat_exact`).
-/

namespace Scriptlet

namespace Binary

open Float.Model (Format UnpackedFloat totalExponent)
open Float.Model.UnpackedFloat

variable {m : Nat} {e : Int}

/-! ### Rounding -/

theorem log2_mul_pow {n : Nat} (h : 0 < n) (k : Nat) : (n * 2 ^ k).log2 = n.log2 + k := by
  have hne : n * 2 ^ k ≠ 0 := (Nat.mul_pos h (Nat.two_pow_pos k)).ne'
  rw [Nat.log2_eq_iff hne, Nat.pow_add, Nat.add_right_comm, Nat.pow_add]
  exact ⟨Nat.mul_le_mul_right _ (Nat.log2_self_le h.ne'),
    Nat.mul_lt_mul_of_pos_right Nat.lt_log2_self (Nat.two_pow_pos k)⟩

theorem targetExponent_eq (t : Int) : Format.binary64.targetExponent t = max (t - 53) (-1074) := rfl

theorem Stored.log2_le (h : Stored m e) : m.log2 ≤ 52 :=
  Nat.le_of_lt_succ ((Nat.log2_lt h.pos.ne').2 h.lt)

/-- What is stored is rounded to the exponent that it has. -/
theorem Stored.target (h : Stored m e) :
    Format.binary64.targetExponent (totalExponent m e) = e := by
  have hle := h.log2_le
  have hge := h.ge
  rw [targetExponent_eq, totalExponent]
  rcases h.normal with hm | he
  · have hlog : m.log2 = 52 := (Nat.log2_eq_iff h.pos.ne').2 ⟨hm, h.lt⟩
    omega
  · omega

theorem shift_mul_pow (m k : Nat) :
    (⟨m * 2 ^ k, false, false⟩ : ExtendedMantissa) >>> k = ⟨m, false, false⟩ := by
  induction k generalizing m with
  | zero =>
    rw [Nat.pow_zero, Nat.mul_one]
    rfl
  | succ k ih =>
    have hstep : (⟨m * 2 ^ (k + 1), false, false⟩ : ExtendedMantissa) >>> (k + 1)
        = ((⟨m * 2 * 2 ^ k, false, false⟩ : ExtendedMantissa) >>> k).shiftRightOne := by
      rw [Nat.pow_succ', Nat.mul_assoc]
      rfl
    rw [hstep, ih]
    simp [ExtendedMantissa.shiftRightOne]

theorem shiftToTargetExponent_exact (h : Stored m e) (k : Nat) :
    shiftToTargetExponent Format.binary64 (m * 2 ^ k) (e - k) .exact
      = (⟨m, false, false⟩, e) := by
  have htarget : Format.binary64.targetExponent (totalExponent (m * 2 ^ k) (e - k)) = e := by
    have ht := h.target
    rw [targetExponent_eq, totalExponent] at ht ⊢
    rw [log2_mul_pow h.pos]
    omega
  have hk : (e - (e - k)).toNat = k := by omega
  rw [shiftToTargetExponent, htarget, shiftToExponent, hk]
  exact Prod.ext (shift_mul_pow m k) (by simp)

/-- What is stored needs no rounding, whatever zeros are written after its mantissa. -/
theorem round_exact (h : Stored m e) (s : Sign) (k : Nat) :
    roundWithAccuracy Format.binary64 s (m * 2 ^ k) (e - k) .exact = .finite s m e h.pos := by
  have hagain : shiftToTargetExponent Format.binary64 m e .exact = (⟨m, false, false⟩, e) := by
    simpa using shiftToTargetExponent_exact h 0
  have hrounded : (⟨m, false, false⟩ : ExtendedMantissa).roundedMantissa = m := rfl
  simp only [roundWithAccuracy, shiftToTargetExponent_exact h k, hrounded, hagain]
  exact dif_neg h.pos.ne'

/-- The value of a mantissa and an exponent is at least a power of two and less than the next. -/
theorem value_bounds {n : Nat} (hn : 0 < n) (t : Int) :
    (2 : ℚ) ^ (n.log2 + t) ≤ n * 2 ^ t ∧ (n : ℚ) * 2 ^ t < 2 ^ (n.log2 + t + 1) := by
  have hlow : ((2 ^ n.log2 : Nat) : ℚ) ≤ n := Nat.cast_le.2 (Nat.log2_self_le hn.ne')
  have hhigh : (n : ℚ) < ((2 ^ (n.log2 + 1) : Nat) : ℚ) := Nat.cast_lt.2 Nat.lt_log2_self
  push_cast at hlow hhigh
  have hpos : (0 : ℚ) < 2 ^ t := zpow_pos two_pos t
  rw [add_right_comm, zpow_add₀ two_ne_zero, zpow_add₀ two_ne_zero, zpow_add_one₀ two_ne_zero,
    zpow_natCast, ← pow_succ]
  exact ⟨mul_le_mul_of_nonneg_right hlow hpos.le, mul_lt_mul_of_pos_right hhigh hpos⟩

/-- A mantissa with a smaller exponent has zeros after it. -/
theorem eq_mul_pow {n : Nat} {t : Int} (hv : (n : ℚ) * 2 ^ t = m * 2 ^ e) (ht : t ≤ e) :
    n = m * 2 ^ (e - t).toNat := by
  have hnt : ((e - t).toNat : Int) = e - t := Int.toNat_of_nonneg (by omega)
  have hcast : (n : ℚ) = ((m * 2 ^ (e - t).toNat : Nat) : ℚ) := by
    push_cast
    rw [← zpow_natCast, hnt, zpow_sub₀ two_ne_zero, ← mul_div_assoc, ← hv,
      mul_div_cancel_right₀ _ (zpow_ne_zero t two_ne_zero)]
  exact_mod_cast hcast

section Quotient

variable {a b : Nat} {ea eb : Int}

/-- A quotient is computed to no more than the exponent that it is stored with. -/
theorem targetExponent_le (h : Stored m e) (ha : 0 < a) (hb : 0 < b)
    (hv : (a : ℚ) * 2 ^ ea = m * 2 ^ e * (b * 2 ^ eb)) :
    Format.binary64.targetExponent (totalExponent a ea - totalExponent b eb) ≤ e := by
  have hlt : (2 : ℚ) ^ (a.log2 + ea) < 2 ^ (m.log2 + e + 1 + (b.log2 + eb + 1)) := by
    rw [zpow_add₀ two_ne_zero (m.log2 + e + 1 : Int)]
    calc (2 : ℚ) ^ (a.log2 + ea) ≤ a * 2 ^ ea := (value_bounds ha ea).1
      _ = m * 2 ^ e * (b * 2 ^ eb) := hv
      _ < 2 ^ (m.log2 + e + 1) * 2 ^ (b.log2 + eb + 1) :=
        mul_lt_mul'' (value_bounds h.pos e).2 (value_bounds hb eb).2 (by positivity)
          (by positivity)
  have hlog := (zpow_lt_zpow_iff_right₀ one_lt_two).1 hlt
  have htarget := h.target
  simp only [targetExponent_eq, totalExponent] at htarget ⊢
  omega

/-- With so small an exponent the division of the mantissas leaves no rest. -/
theorem shiftLeft_eq_mul {t : Int} (hv : (a : ℚ) * 2 ^ ea = m * 2 ^ e * (b * 2 ^ eb))
    (hta : t ≤ ea - eb) (hte : t ≤ e) :
    a <<< (ea - eb - t).toNat = m * 2 ^ (e - t).toNat * b := by
  have hshift : ((ea - eb - t).toNat : Int) = ea - eb - t := Int.toNat_of_nonneg (by omega)
  have hzeros : ((e - t).toNat : Int) = e - t := Int.toNat_of_nonneg (by omega)
  have hcast : ((a * 2 ^ (ea - eb - t).toNat : Nat) : ℚ)
      = ((m * 2 ^ (e - t).toNat * b : Nat) : ℚ) := by
    push_cast
    rw [← zpow_natCast, ← zpow_natCast, hshift, hzeros, sub_sub, zpow_sub₀ two_ne_zero,
      zpow_sub₀ two_ne_zero, zpow_add₀ two_ne_zero, ← mul_div_assoc, hv]
    field_simp
  rw [Nat.shiftLeft_eq]
  exact_mod_cast hcast

/-- A quotient that can be stored is what division gives. -/
theorem div_exact (h : Stored m e) (ha : 0 < a) (hb : 0 < b)
    (hv : (a : ℚ) * 2 ^ ea = m * 2 ^ e * (b * 2 ^ eb)) :
    div Format.binary64 (.finite .positive a ea ha) (.finite .positive b eb hb)
      = .finite .positive m e h.pos := by
  have htarget := targetExponent_le h ha hb hv
  obtain ⟨t, ht⟩ : ∃ t, t = min (ea - eb)
      (Format.binary64.targetExponent (totalExponent a ea - totalExponent b eb)) := ⟨_, rfl⟩
  have hte : t ≤ e := by omega
  -- The mantissas are divided to the exponent `t`, which leaves only zeros after the quotient.
  have hcore : divCore Format.binary64 a ea b eb
      = (m * 2 ^ (e - t).toNat, e - (e - t).toNat, .exact) := by
    have hexp : t = e - (e - t).toNat := by omega
    rw [divCore, ← ht]
    simp only [shiftLeft_eq_mul hv (by omega : t ≤ ea - eb) hte, Nat.mul_div_cancel _ hb,
      Nat.mul_mod_left, ← hexp]
    rfl
  show roundWithAccuracy Format.binary64 .positive (divCore Format.binary64 a ea b eb).1
    (divCore Format.binary64 a ea b eb).2.1 (divCore Format.binary64 a ea b eb).2.2 = _
  rw [hcore]
  exact round_exact h .positive _

end Quotient

/-- A product that can be stored is what multiplication gives. -/
theorem mul_exact (h : Stored m e) {a b : Nat} {ea eb : Int} (ha : 0 < a) (hb : 0 < b)
    (hv : ((a * b : Nat) : ℚ) * 2 ^ (ea + eb) = m * 2 ^ e) (hle : ea + eb ≤ e) :
    mul Format.binary64 (.finite .positive a ea ha) (.finite .positive b eb hb)
      = .finite .positive m e h.pos := by
  show roundWithAccuracy Format.binary64 .positive (a * b) (ea + eb) .exact = _
  obtain ⟨k, hk⟩ : ∃ k : Nat, ea + eb = e - k := ⟨(e - (ea + eb)).toNat, by omega⟩
  have hzeros : (e - (e - k)).toNat = k := by omega
  rw [eq_mul_pow hv hle, hk, hzeros]
  exact round_exact h .positive k

/-! ### Numbers of few bits -/

/-- A natural number of at most 53 bits is stored as it is. -/
theorem ofNat_exact {n : Nat} (hn : 0 < n) (hlt : n < 2 ^ 53) :
    ∃ (m : Nat) (e : Int) (h : Stored m e), (m : ℚ) * 2 ^ e = n
      ∧ ofNat Format.binary64 n = .finite .positive m e h.pos := by
  have hlog : n.log2 ≤ 52 := Nat.le_of_lt_succ ((Nat.log2_lt hn.ne').2 hlt)
  have hbits : (n * 2 ^ (52 - n.log2)).log2 = 52 := by
    rw [log2_mul_pow hn]
    omega
  have hpos : 0 < n * 2 ^ (52 - n.log2) := Nat.mul_pos hn (Nat.two_pow_pos _)
  obtain ⟨hlow, hhigh⟩ := (Nat.log2_eq_iff hpos.ne').1 hbits
  have h : Stored (n * 2 ^ (52 - n.log2)) (-(52 - n.log2 : Nat)) :=
    ⟨hpos, hhigh, .inl hlow, by omega, by omega⟩
  refine ⟨_, _, h, ?_, ?_⟩
  · push_cast
    rw [zpow_neg, zpow_natCast, mul_inv_cancel_right₀ (pow_ne_zero _ two_ne_zero)]
  · have hcompare : compare (n : Int) 0 = .gt := Int.compare_eq_gt.2 (by omega)
    have htarget : Format.binary64.targetExponent (totalExponent n 0) = -(52 - n.log2 : Nat) := by
      rw [targetExponent_eq, totalExponent]
      omega
    have hround : ofNat Format.binary64 n = UnpackedFloat.round Format.binary64 .positive n 0 := by
      simp only [ofNat, ofInt, UnpackedFloat.normalize, hcompare, Int.toNat_natCast]
    rw [hround, UnpackedFloat.round]
    simp only [htarget, decreaseExponent, Nat.shiftLeft_eq, zero_sub]
    simpa using round_exact h .positive 0

/-- Whether the number is this positive natural number. -/
def isNat (u : UnpackedFloat) (n : Nat) : Bool :=
  match u with
  | .finite .positive p t _ => p * 2 ^ t.toNat = n * 2 ^ (-t).toNat
  | _ => false

theorem finite_of_isNat {u : UnpackedFloat} {n : Nat} (h : isNat u n = true) :
    ∃ (p : Nat) (t : Int) (hp : 0 < p), (p : ℚ) * 2 ^ t = n ∧ u = .finite .positive p t hp := by
  match u, h with
  | .finite .positive p t hp, h =>
    have hnat : p * 2 ^ t.toNat = n * 2 ^ (-t).toNat := by simpa [isNat] using h
    refine ⟨p, t, hp, ?_, rfl⟩
    have hcast : (p : ℚ) * 2 ^ t.toNat = n * 2 ^ (-t).toNat := by exact_mod_cast hnat
    have hsplit : (2 : ℚ) ^ t = 2 ^ t.toNat / 2 ^ (-t).toNat := by
      rw [← zpow_natCast, ← zpow_natCast, ← zpow_sub₀ two_ne_zero, Int.toNat_sub_toNat_neg]
    rw [hsplit, ← mul_div_assoc, hcast, mul_div_cancel_right₀ _ (pow_ne_zero _ two_ne_zero)]

theorem isNat_power : ∀ i : Fin Float.exactlyRepresentablePowersOfTen.size,
    isNat Float.exactlyRepresentablePowersOfTen[i].toModel.unpack (10 ^ i.val) = true := by
  decide +kernel

/-- The powers of ten that division by them is quick for are stored as they are. -/
theorem power_exact {k : Nat} (hk : k < Float.exactlyRepresentablePowersOfTen.size) :
    ∃ (p : Nat) (t : Int) (hp : 0 < p), (p : ℚ) * 2 ^ t = (10 ^ k : Nat)
      ∧ Float.exactlyRepresentablePowersOfTen[k].toModel.unpack = .finite .positive p t hp :=
  finite_of_isNat (isNat_power ⟨k, hk⟩)

/-! ### Decimals -/

variable {s p : Nat}

theorem pos_of_eq (h : Stored m e) (hv : (s : ℚ) = m * 2 ^ e * (10 ^ p : Nat)) : 0 < s := by
  have hpos : (0 : ℚ) < s := by
    have := h.pos
    rw [hv]
    positivity
  exact_mod_cast hpos

theorem places_le (h : Stored m e) (hv : (s : ℚ) = m * 2 ^ e * (10 ^ p : Nat)) :
    p ≤ 2048 + s.log2 := by
  have hten : (2 : ℚ) ^ (3 * p : Int) ≤ (10 ^ p : Nat) := by
    rw [zpow_mul, zpow_natCast]
    push_cast
    exact pow_le_pow_left₀ (by norm_num) (by norm_num) _
  have hlow := (value_bounds h.pos e).1
  have hhigh := (value_bounds (pos_of_eq h hv) 0).2
  rw [zpow_zero, mul_one, add_zero] at hhigh
  have hlt : (2 : ℚ) ^ ((m.log2 : Int) + e + 3 * p) < 2 ^ ((s.log2 : Int) + 1) := by
    calc (2 : ℚ) ^ ((m.log2 : Int) + e + 3 * p)
        = 2 ^ ((m.log2 : Int) + e) * 2 ^ (3 * p : Int) := zpow_add₀ two_ne_zero _ _
      _ ≤ m * 2 ^ e * (10 ^ p : Nat) := mul_le_mul hlow hten (by positivity) (by positivity)
      _ = s := hv.symm
      _ < 2 ^ ((s.log2 : Int) + 1) := hhigh
  have := (zpow_lt_zpow_iff_right₀ one_lt_two).1 hlt
  have := h.ge
  omega

/-- What is at least one is stored with no smaller exponent. -/
theorem exponent_ge (h : Stored m e) (hv : (1 : ℚ) ≤ m * 2 ^ e) : -53 ≤ e := by
  have hlt : (1 : ℚ) < 2 ^ (m.log2 + e + 1) := hv.trans_lt (value_bounds h.pos e).2
  have := h.log2_le
  have := (one_lt_zpow_iff_right₀ (one_lt_two : (1 : ℚ) < 2)).1 hlt
  omega

/-- A decimal that can be stored is not rounded. -/
theorem ofScientific_exact (h : Stored m e) (hv : (s : ℚ) = m * 2 ^ e * (10 ^ p : Nat)) :
    ofScientific Format.binary64 s (Int.negOfNat p) = .finite .positive m e h.pos := by
  have hpos := pos_of_eq h hv
  have hexp : Int.negOfNat p = -(p : Int) := Int.negOfNat_eq
  have hplaces := places_le h hv
  have hbits : (2 : Int) ^ Format.binary64.exponentBits = 2048 := rfl
  rw [ofScientific, dif_neg hpos.ne', if_neg (by omega), if_neg (by omega)]
  split
  · -- Nothing is divided by: the digits are multiplied, with 53 zeros after them.
    obtain rfl : p = 0 := by omega
    rw [pow_zero, Nat.cast_one, mul_one] at hv
    have hge : -53 ≤ e := exponent_ge h (by rw [← hv]; exact_mod_cast hpos)
    have hvalue : ((s <<< 53 * 10 ^ (Int.negOfNat 0).toNat : Nat) : ℚ) * 2 ^ (-53 + 0 : Int)
        = m * 2 ^ e := by
      rw [← hv, Nat.shiftLeft_eq]
      show ((s * 2 ^ 53 * 1 : Nat) : ℚ) * 2 ^ (-53 : Int) = s
      push_cast
      rw [mul_one, zpow_neg]
      exact mul_inv_cancel_right₀ (by norm_num) _
    have hwide : 0 < s <<< 53 := by
      rw [Nat.shiftLeft_eq]
      exact Nat.mul_pos hpos (Nat.two_pow_pos 53)
    exact mul_exact h hwide (Nat.pow_pos (by decide)) hvalue hge
  · have hvalue : (s : ℚ) * 2 ^ (0 : Int)
        = m * 2 ^ e * ((10 ^ (-Int.negOfNat p).toNat : Nat) * 2 ^ (0 : Int)) := by
      rw [hexp, neg_neg, Int.toNat_natCast, zpow_zero, mul_one, mul_one, hv]
    exact div_exact h hpos (Nat.pow_pos (by decide)) hvalue

theorem quotient_exact (h : Stored m e) (hv : (s : ℚ) = m * 2 ^ e * (10 ^ p : Nat))
    (hs : s < 2 ^ 53) (hp : p < Float.exactlyRepresentablePowersOfTen.size) :
    s.toUInt64.toFloat / Float.exactlyRepresentablePowersOfTen[p] = h.float := by
  obtain ⟨n, t, hn, hnv, hnum⟩ := ofNat_exact (pos_of_eq h hv) hs
  obtain ⟨q, u, hq, hqv, hpower⟩ := power_exact hp
  have hsmall : s.toUInt64.toNat = s := by
    rw [UInt64.toNat_ofNat']
    omega
  have hunpack : s.toUInt64.toFloat.toModel.unpack = .finite .positive n t hn.pos := by
    show (Float.Model.pack (ofNat Format.binary64 s.toUInt64.toNat)).unpack = _
    rw [hsmall, hnum]
    exact unpack_pack hn
  show Float.ofModel (.pack (div Format.binary64 s.toUInt64.toFloat.toModel.unpack _)) = _
  rw [hunpack, hpower, div_exact h hn.pos hq (by rw [hnv, hqv, hv])]
  rfl

/-! ### Signs -/

theorem unsigned_roundWithAccuracy (m : Nat) (e : Int) (a : Accuracy) :
    Unsigned (roundWithAccuracy Format.binary64 .positive m e a) := by
  rw [roundWithAccuracy]
  dsimp only
  split
  · exact .zero
  · exact .finite _

theorem unsigned_ofNat (n : Nat) : Unsigned (ofNat Format.binary64 n) := by
  rw [ofNat, ofInt, UnpackedFloat.normalize]
  split
  · rename_i h
    have := Int.compare_eq_lt.1 h
    omega
  · exact .zero
  · exact unsigned_roundWithAccuracy _ _ _

theorem Unsigned.div_finite {u : UnpackedFloat} (h : Unsigned u) {m : Nat} {e : Int} (hm : 0 < m) :
    Unsigned (div Format.binary64 u (.finite .positive m e hm)) := by
  cases h with
  | infinity => exact .infinity
  | zero => exact .zero
  | finite => exact unsigned_roundWithAccuracy _ _ _

theorem unsigned_ofScientific (n : Nat) (e : Int) :
    Unsigned (ofScientific Format.binary64 n e) := by
  rw [ofScientific]
  split
  · exact .zero
  split
  · exact .infinity
  split
  · exact .zero
  split
  · exact unsigned_roundWithAccuracy _ _ _
  · exact unsigned_roundWithAccuracy _ _ _

end Binary

namespace Decimal

open Binary
open Float.Model (Format UnpackedFloat)

def value (d : Decimal) : ℚ :=
  d.coefficient * 10 ^ d.exponent

theorem scaled_eq (d : Decimal) : (d.scaled : ℚ) = d.value * (10 ^ d.places : Nat) := by
  have hsplit : (10 : ℚ) ^ d.exponent = 10 ^ d.exponent.toNat / 10 ^ d.places := by
    rw [places, ← zpow_natCast, ← zpow_natCast, ← zpow_sub₀ (by norm_num),
      Int.toNat_sub_toNat_neg]
  have hscaled : d.scaled = d.coefficient * 10 ^ d.exponent.toNat := rfl
  rw [hscaled, value, hsplit]
  push_cast
  rw [mul_assoc, div_mul_cancel₀ _ (by positivity)]

/-- A decimal that can be stored is not rounded. -/
theorem toFloat_exact {d : Decimal} {m : Nat} {e : Int} (h : Stored m e)
    (hv : d.value = m * 2 ^ e) : d.toFloat = h.float := by
  have hscaled := d.scaled_eq
  rw [hv] at hscaled
  rw [toFloat, Float.ofScientific]
  split
  · rename_i hquick
    exact quotient_exact h hscaled hquick.1 (Nat.lt_succ_of_le hquick.2)
  · exact congrArg (fun u => Float.ofModel (.pack u)) (ofScientific_exact h hscaled)

/-- Whatever a decimal is rounded to, perhaps infinity, is a number without a sign. -/
theorem unsigned_toFloat (d : Decimal) :
    d.toFloat.toBits.toNat < 2 ^ 63 ∧ Unsigned d.toFloat.toModel.unpack := by
  rw [toFloat, Float.ofScientific]
  split
  · rename_i hquick
    have hplaces : d.places < Float.exactlyRepresentablePowersOfTen.size :=
      Nat.lt_succ_of_le hquick.2
    obtain ⟨p, t, hp, -, hpower⟩ := power_exact hplaces
    have hnum := (unsigned_ofNat d.scaled.toUInt64.toNat).packed.2
    have hquotient : Unsigned (UnpackedFloat.div Format.binary64
        d.scaled.toUInt64.toFloat.toModel.unpack
        Float.exactlyRepresentablePowersOfTen[d.places].toModel.unpack) := by
      rw [hpower]
      exact hnum.div_finite hp
    exact hquotient.packed
  · exact (unsigned_ofScientific _ _).packed

end Decimal

end Scriptlet
