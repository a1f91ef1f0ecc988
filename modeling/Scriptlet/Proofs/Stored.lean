import Mathlib
import Scriptlet.Decimal.Shortest

/-!
# Numbers as they are stored

A positive finite number is a mantissa times a power of two, and there is one such pair that it is
stored with (`Binary.Stored`). Packed into bits and unpacked again the pair is the same
(`Binary.unpack_pack`), and but for zero each finite number without a sign is stored so
(`Binary.eq_zero_or_stored`). The number of a decimal has no sign either, as what is packed without
one is unpacked without one (`Binary.Unsigned.packed`).
-/

namespace Scriptlet

namespace Binary

open Float.Model (Format UnpackedFloat)
open Float.Model.UnpackedFloat

/-- The number `mantissa * 2 ^ exponent` is positive and finite, and it is so written where it is
stored: with all the bits of the mantissa, or with the least exponent there is. -/
structure Stored (mantissa : Nat) (exponent : Int) : Prop where
  pos : 0 < mantissa
  lt : mantissa < 2 ^ 53
  normal : 2 ^ 52 ≤ mantissa ∨ exponent = -1074
  ge : -1074 ≤ exponent
  le : exponent ≤ 971

variable {m : Nat} {e : Int}

/-! ### Bits -/

theorem toNat_packComponents (exponent : BitVec 11) (fraction : BitVec 52) :
    (packComponents Format.binary64 .positive exponent fraction).toNat
      = exponent.toNat * 2 ^ 52 + fraction.toNat := by
  show (0#1 ++ exponent ++ fraction).toNat = _
  simp only [BitVec.toNat_append, BitVec.toNat_ofNat, Nat.shiftLeft_eq, Nat.zero_mod, Nat.zero_mul,
    Nat.zero_or]
  rw [Nat.mul_comm, ← Nat.two_pow_add_eq_or_of_lt fraction.isLt]

theorem toNat_packComponents_lt (exponent : BitVec 11) (fraction : BitVec 52) :
    (packComponents Format.binary64 .positive exponent fraction).toNat < 2 ^ 63 := by
  have := exponent.isLt
  have := fraction.isLt
  rw [toNat_packComponents]
  omega

theorem toNat_unpackExponent {b : BitVec Format.binary64.numBits} :
    (unpackExponent b).toNat = b.toNat / 2 ^ 52 % 2 ^ 11 := by
  simp [unpackExponent, Nat.shiftRight_eq_div_pow]

theorem ofBitVec_unpackSign (exponent : BitVec 11) (fraction : BitVec 52) :
    Sign.ofBitVec (unpackSign (packComponents Format.binary64 .positive exponent fraction))
      = .positive := by
  have hlt := toNat_packComponents_lt exponent fraction
  have hsign : unpackSign (packComponents Format.binary64 .positive exponent fraction) = 0#1 := by
    apply BitVec.eq_of_toNat_eq
    simp only [unpackSign, BitVec.toNat_cast, BitVec.extractLsb_toNat, Nat.shiftRight_eq_div_pow,
      BitVec.toNat_ofNat]
    omega
  rw [hsign]
  rfl

/-- The exponent bits of what is stored; they are zero if bits of the mantissa are missing. -/
def biased (mantissa : Nat) (exponent : Int) : Nat :=
  if 2 ^ 52 ≤ mantissa then (exponent + 1075).toNat else 0

theorem pack_finite (h : Stored m e) :
    pack Format.binary64 (.finite .positive m e h.pos)
      = packComponents Format.binary64 .positive (BitVec.ofNat 11 (biased m e))
        (BitVec.ofNat 52 m) := by
  have hle := h.le
  have hge := h.ge
  have hfits : ¬ 2 ^ Format.binary64.exponentBits
      ≤ (e + Format.binary64.exponentBias
        + Format.binary64.mantissaBitsWithoutImplicit).toNat + 1 := by
    show ¬ 2 ^ 11 ≤ (e + 1023 + 52).toNat + 1
    omega
  have hlog : m.log2 = 52 ↔ 2 ^ 52 ≤ m := by
    rw [Nat.log2_eq_iff h.pos.ne']
    exact ⟨And.left, fun hm => ⟨hm, h.lt⟩⟩
  have hbits : m.log2 + 1 = Format.binary64.mantissaBits ↔ 2 ^ 52 ≤ m :=
    Nat.succ_inj.trans hlog
  simp only [pack, if_neg hfits, hbits, biased]
  split
  · rw [add_assoc]
    rfl
  · rfl

theorem biased_lt (h : Stored m e) : biased m e < 2 ^ 11 - 1 := by
  have hle := h.le
  rw [biased]
  split
  all_goals omega

theorem toNat_pack (h : Stored m e) :
    (pack Format.binary64 (.finite .positive m e h.pos)).toNat
      = biased m e * 2 ^ 52 + m % 2 ^ 52 := by
  have hlt := biased_lt h
  rw [pack_finite h, toNat_packComponents, BitVec.toNat_ofNat, BitVec.toNat_ofNat,
    Nat.mod_eq_of_lt (by omega)]

theorem finite_congr {s : Sign} {m m' : Nat} {e e' : Int} (hm : m = m') (he : e = e')
    (h : 0 < m) (h' : 0 < m') : UnpackedFloat.finite s m e h = .finite s m' e' h' := by
  subst hm he
  rfl

theorem unpack_pack (h : Stored m e) :
    unpack Format.binary64 (pack Format.binary64 (.finite .positive m e h.pos))
      = .finite .positive m e h.pos := by
  have hge := h.ge
  have hlt := h.lt
  have hpos := h.pos
  have hbiased := biased_lt h
  have hexponent : (BitVec.ofNat 11 (biased m e)).toNat = biased m e := by
    rw [BitVec.toNat_ofNat, Nat.mod_eq_of_lt (by omega)]
  have hmax : BitVec.ofNat 11 (biased m e) ≠ -1#11 := by
    intro heq
    rw [heq] at hexponent
    have : 2047 = biased m e := hexponent
    omega
  have hzero : BitVec.ofNat 11 (biased m e) = 0#11 ↔ biased m e = 0 := by
    rw [← BitVec.toNat_inj, hexponent]
    rfl
  rw [pack_finite h, unpack]
  simp only [unpackMantissa_packComponents, unpackExponent_packComponents, ofBitVec_unpackSign,
    hexponent]
  rw [if_neg hmax]
  by_cases hm : 2 ^ 52 ≤ m
  · -- The leading bit of the mantissa is not stored.
    have hmantissa : (1#1 ++ BitVec.ofNat 52 m).toNat = m := by
      show (1 <<< 52 ||| m % 2 ^ 52 : Nat) = m
      rw [Nat.shiftLeft_eq, Nat.or_comm, Nat.one_mul,
        Nat.or_two_pow_eq_add_of_lt (Nat.mod_lt m (Nat.two_pow_pos 52))]
      omega
    have hone : biased m e = (e + 1075).toNat := if_pos hm
    rw [if_neg (mt hzero.1 (by omega))]
    refine finite_congr hmantissa ?_ _ _
    rw [hone, Int.toNat_of_nonneg (by omega)]
    show e + 1075 - (1023 + 52) = e
    omega
  · have hnone : biased m e = 0 := if_neg hm
    have hfraction : (BitVec.ofNat 52 m).toNat = m := by
      rw [BitVec.toNat_ofNat, Nat.mod_eq_of_lt (by omega)]
    have hne : BitVec.ofNat 52 m ≠ 0#52 := by
      intro heq
      rw [heq] at hfraction
      exact hpos.ne hfraction
    rw [if_pos (hzero.2 hnone), dif_neg hne]
    refine finite_congr hfraction ?_ _ _
    rw [hnone, h.normal.resolve_left hm]
    rfl

/-! ### Finite numbers -/

/-- The number whose mantissa and exponent are given. -/
def Stored.float (h : Stored m e) : Float :=
  .ofModel (.pack (.finite .positive m e h.pos))

theorem Stored.unpack_float (h : Stored m e) :
    h.float.toModel.unpack = .finite .positive m e h.pos :=
  unpack_pack h

theorem Stored.toNat_toBits_float (h : Stored m e) :
    h.float.toBits.toNat = biased m e * 2 ^ 52 + m % 2 ^ 52 :=
  toNat_pack h

theorem eq_of_toBits_eq {x y : Float} (h : x.toBits.toNat = y.toBits.toNat) : x = y := by
  obtain ⟨⟨x, hx⟩⟩ := x
  obtain ⟨⟨y, hy⟩⟩ := y
  obtain rfl : x = y := UInt64.toNat_inj.1 h
  rfl

/-- The exponent bits of a finite number are not all set. -/
theorem exponent_ne_of_isFinite {x : Float} (h : x.isFinite = true) :
    x.toBits.toNat / 2 ^ 52 % 2 ^ 11 ≠ 2047 := by
  intro hmax
  have hall : @unpackExponent Format.binary64 x.toBits.toBitVec = -1#11 := by
    apply BitVec.eq_of_toNat_eq
    rw [toNat_unpackExponent]
    exact hmax
  have hunpack : (unpack Format.binary64 x.toBits.toBitVec).isFinite = true := h
  rw [unpack] at hunpack
  simp only [hall, if_true] at hunpack
  split at hunpack
  all_goals cases hunpack

/-- A finite number whose sign bit is clear is zero, or it is stored. -/
theorem eq_zero_or_stored {x : Float} (hfinite : x.isFinite = true)
    (hsign : x.toBits.toNat < 2 ^ 63) :
    x.toBits.toNat = 0 ∨ ∃ (m : Nat) (e : Int) (h : Stored m e), x = h.float := by
  have hmax := exponent_ne_of_isFinite hfinite
  refine or_iff_not_imp_left.2 fun hne => ?_
  by_cases hexp : x.toBits.toNat / 2 ^ 52 = 0
  · -- Without exponent bits the mantissa has no leading bit either.
    have hm : x.toBits.toNat < 2 ^ 52 := by omega
    have h : Stored x.toBits.toNat (-1074) := ⟨by omega, by omega, .inr rfl, by omega, by omega⟩
    refine ⟨_, _, h, eq_of_toBits_eq ?_⟩
    rw [h.toNat_toBits_float, biased, if_neg (by omega)]
    omega
  · have h : Stored (2 ^ 52 + x.toBits.toNat % 2 ^ 52) ((x.toBits.toNat / 2 ^ 52 : Nat) - 1075) :=
      ⟨by omega, by omega, .inl (by omega), by omega, by omega⟩
    refine ⟨_, _, h, eq_of_toBits_eq ?_⟩
    rw [h.toNat_toBits_float, biased, if_pos (by omega)]
    omega

/-! ### Signs -/

/-- The number is a number, and its sign bit is clear. -/
inductive Unsigned : UnpackedFloat → Prop
  | infinity : Unsigned (.infinity .positive)
  | zero : Unsigned (.zero .positive)
  | finite {m : Nat} {e : Int} (h : 0 < m) : Unsigned (.finite .positive m e h)

theorem Unsigned.exists_components {u : UnpackedFloat} (h : Unsigned u) :
    ∃ (exponent : BitVec 11) (fraction : BitVec 52),
      pack Format.binary64 u = packComponents Format.binary64 .positive exponent fraction
        ∧ (exponent = -1#11 → fraction = 0#52) := by
  cases h with
  | infinity => exact ⟨-1#11, 0#52, rfl, fun _ => rfl⟩
  | zero => exact ⟨0#11, 0#52, rfl, fun _ => rfl⟩
  | @finite m e hm =>
    rw [pack]
    dsimp only
    split
    · exact ⟨-1#11, 0#52, rfl, fun _ => rfl⟩
    split
    · rename_i hfits _
      refine ⟨_, _, rfl, fun hmax => absurd (congrArg BitVec.toNat hmax) ?_⟩
      rw [BitVec.toNat_ofNat, Nat.mod_eq_of_lt (by omega)]
      show _ ≠ 2047
      have : 2 ^ Format.binary64.exponentBits = 2048 := rfl
      omega
    · exact ⟨0#11, _, rfl, fun hmax => absurd hmax (by decide)⟩

/-- A number is packed without a sign, and it is a number again when it is unpacked. -/
theorem Unsigned.packed {u : UnpackedFloat} (h : Unsigned u) :
    (pack Format.binary64 u).toNat < 2 ^ 63
      ∧ Unsigned (unpack Format.binary64 (pack Format.binary64 u)) := by
  obtain ⟨exponent, fraction, hpack, hmax⟩ := h.exists_components
  rw [hpack]
  refine ⟨toNat_packComponents_lt exponent fraction, ?_⟩
  rw [unpack]
  simp only [unpackMantissa_packComponents, unpackExponent_packComponents, ofBitVec_unpackSign]
  split
  · rename_i hexponent
    rw [if_pos (hmax hexponent)]
    exact .infinity
  split
  · split
    · exact .zero
    · exact .finite _
  · exact .finite _

end Binary

end Scriptlet
