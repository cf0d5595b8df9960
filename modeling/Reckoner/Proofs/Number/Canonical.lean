import Mathlib
import Reckoner.Number.Basic

/-!
# Words and the numbers they stand for

A floating-point number is a word of 64 bits, and its operations take the word apart into a
sign, a mantissa and an exponent and pack the parts of the result again. Every finite number
comes apart into a mantissa of 53 bits, or of fewer bits at the least exponent. On such
parts packing and unpacking undo each other, so that a number can be identified by its
parts; negation, which acts on the sign alone, is then its own inverse.
-/

set_option autoImplicit false

namespace Reckoner.Number

open Float.Model (Format UnpackedFloat totalExponent)
open Float.Model.UnpackedFloat

/-! ## The three fields of a word -/

/-- The mantissa is in the last 52 bits. -/
theorem toNat_unpackMantissa (b : BitVec Format.binary64.numBits) :
    (unpackMantissa b).toNat = b.toNat % 2 ^ 52 := by
  simp [unpackMantissa]

/-- The exponent is in the 11 bits in front of the mantissa. -/
theorem toNat_unpackExponent (b : BitVec Format.binary64.numBits) :
    (unpackExponent b).toNat = b.toNat / 2 ^ 52 % 2 ^ 11 := by
  simp [unpackExponent, Nat.shiftRight_eq_div_pow]

/-- The sign is the first bit. -/
theorem toNat_unpackSign (b : BitVec Format.binary64.numBits) :
    (unpackSign b).toNat = b.toNat / 2 ^ 63 := by
  have hlt : b.toNat < 2 ^ 64 := b.isLt
  simp [unpackSign, Nat.shiftRight_eq_div_pow]
  omega

/-- Sign, exponent and mantissa are written one behind the other. -/
theorem toNat_packComponents (sign : Sign) (exponent : BitVec 11) (mantissa : BitVec 52) :
    (packComponents .binary64 sign exponent mantissa).toNat =
      sign.toBitVec.toNat * 2 ^ 63 + exponent.toNat * 2 ^ 52 + mantissa.toNat := by
  have hm := mantissa.isLt
  have he := exponent.isLt
  simp only [packComponents]
  rw [BitVec.toNat_append, BitVec.toNat_append, ← Nat.shiftLeft_add_eq_or_of_lt hm,
    ← Nat.shiftLeft_add_eq_or_of_lt he, Nat.shiftLeft_eq, Nat.shiftLeft_eq]
  omega

/-- The sign can be read off its bit. -/
theorem ofBitVec_toBitVec (sign : Sign) : Sign.ofBitVec sign.toBitVec = sign := by
  cases sign <;> rfl

/-- A bit can be read off the sign that it stands for. -/
theorem toBitVec_ofBitVec (b : BitVec 1) : (Sign.ofBitVec b).toBitVec = b := by
  unfold Sign.ofBitVec
  split
  case isTrue h => rw [h]; rfl
  case isFalse h =>
    have hne : b.toNat ≠ 0 := by
      intro hzero
      exact h (BitVec.eq_of_toNat_eq hzero)
    have hlt := b.isLt
    apply BitVec.eq_of_toNat_eq
    show 1 = b.toNat
    omega

/-- The sign of packed parts is their sign. -/
theorem unpackSign_packComponents (sign : Sign) (exponent : BitVec 11) (mantissa : BitVec 52) :
    unpackSign (packComponents .binary64 sign exponent mantissa) = sign.toBitVec := by
  have hm := mantissa.isLt
  have he := exponent.isLt
  have hs := sign.toBitVec.isLt
  apply BitVec.eq_of_toNat_eq
  rw [toNat_unpackSign, toNat_packComponents]
  omega

/-- The parts of a word are put together to it again. -/
theorem packComponents_unpack (b : BitVec Format.binary64.numBits) :
    packComponents .binary64 (Sign.ofBitVec (unpackSign b)) (unpackExponent b)
      (unpackMantissa b) = b := by
  have hlt : b.toNat < 2 ^ 64 := b.isLt
  apply BitVec.eq_of_toNat_eq
  rw [toNat_packComponents, toBitVec_ofBitVec, toNat_unpackSign, toNat_unpackExponent,
    toNat_unpackMantissa]
  omega

/-! ## Canonical parts -/

/-- A mantissa of 53 bits, or of fewer at the least exponent. -/
structure Canonical (m : Nat) (e : Int) : Prop where
  pos : 0 < m
  lt : m < 2 ^ 53
  min_le : -1074 ≤ e
  le_max : e ≤ 971
  full_or_min : 2 ^ 52 ≤ m ∨ e = -1074

/-- A mantissa with the implicit bit in front is greater by that bit. -/
theorem toNat_implicit_append (mantissa : BitVec 52) :
    (1#1 ++ mantissa).toNat = 2 ^ 52 + mantissa.toNat := by
  rw [BitVec.toNat_append, ← Nat.shiftLeft_add_eq_or_of_lt mantissa.isLt]
  rfl

/-- An exponent with all bits set is 2047. -/
theorem toNat_negOne : (-1#11).toNat = 2047 := rfl

/-- An exponent is that of a finite number if one of its bits is not set. -/
theorem ne_negOne_iff (exponent : BitVec 11) : exponent ≠ -1#11 ↔ exponent.toNat < 2047 := by
  have hlt := exponent.isLt
  rw [ne_eq, ← BitVec.toNat_inj, toNat_negOne]
  omega

/-- The finite numbers that words stand for are canonical. -/
theorem canonical_of_unpack {b : BitVec Format.binary64.numBits} {sign : Sign} {m : Nat} {e : Int}
    {hm : 0 < m} (h : UnpackedFloat.unpack .binary64 b = .finite sign m e hm) : Canonical m e := by
  have hmantissa : (unpackMantissa b).toNat < 2 ^ 52 := (unpackMantissa b).isLt
  unfold UnpackedFloat.unpack at h
  dsimp only at h
  split at h
  case isTrue => split at h <;> contradiction
  case isFalse hfinite =>
    have hlt := (ne_negOne_iff _).mp hfinite
    split at h
    case isTrue hzero =>
      split at h
      case isTrue => contradiction
      case isFalse =>
        injection h with _ hmEq heEq
        rw [hzero] at heEq
        have he : e = -1074 := heEq.symm
        refine ⟨hm, ?_, ?_, ?_, .inr he⟩ <;> omega
    case isFalse hnonzero =>
      injection h with _ hmEq heEq
      rw [toNat_implicit_append] at hmEq
      have hpos : (unpackExponent b).toNat ≠ 0 := by
        intro hzero
        exact hnonzero (BitVec.eq_of_toNat_eq hzero)
      have he : e = (unpackExponent b).toNat - 1075 := heEq.symm
      refine ⟨hm, ?_, ?_, ?_, .inl ?_⟩ <;> omega

/-- A canonical mantissa has at most 53 bits. -/
theorem Canonical.log2_lt {m : Nat} {e : Int} (h : Canonical m e) : m.log2 < 53 :=
  (Nat.log2_lt (Nat.ne_of_gt h.pos)).mpr h.lt

/-- A canonical mantissa has 53 bits if it has the implicit one. -/
theorem Canonical.log2_eq_iff {m : Nat} {e : Int} (h : Canonical m e) :
    m.log2 = 52 ↔ 2 ^ 52 ≤ m := by
  have hlt := h.log2_lt
  rw [← Nat.le_log2 (Nat.ne_of_gt h.pos)]
  omega

/-- Canonical parts are packed as they are: with the implicit bit left out, or with the least
exponent if there is none. -/
theorem pack_finite {sign : Sign} {m : Nat} {e : Int} (h : Canonical m e) :
    UnpackedFloat.pack .binary64 (.finite sign m e h.pos) =
      packComponents .binary64 sign
        (if 2 ^ 52 ≤ m then BitVec.ofNat 11 (e + 1075).toNat else 0#11) (BitVec.ofNat 52 m) := by
  have hmin := h.min_le
  have hmax := h.le_max
  have hbias : e + Format.binary64.exponentBias + Format.binary64.mantissaBitsWithoutImplicit =
      e + 1075 := by
    show e + 1023 + 52 = e + 1075
    omega
  have hroom : ¬ 2 ^ Format.binary64.exponentBits ≤ (e + 1075).toNat + 1 := by
    show ¬ 2 ^ 11 ≤ (e + 1075).toNat + 1
    omega
  have hfull : (m.log2 + 1 = Format.binary64.mantissaBits) = (2 ^ 52 ≤ m) := by
    rw [← h.log2_eq_iff]
    show (m.log2 + 1 = 53) = (m.log2 = 52)
    simp
  simp only [UnpackedFloat.pack, hbias, hroom, hfull, if_false]
  split <;> rfl

/-- A bit in front of the others is cut off. -/
theorem ofNat_toNat_add {w : Nat} (x : BitVec w) : BitVec.ofNat w (2 ^ w + x.toNat) = x := by
  apply BitVec.eq_of_toNat_eq
  rw [BitVec.toNat_ofNat, Nat.add_mod_left, Nat.mod_eq_of_lt x.isLt]

/-- Taking a word apart loses nothing. -/
theorem pack_unpack {b : BitVec Format.binary64.numBits} (hvalid : Format.binary64.Valid b) :
    UnpackedFloat.pack .binary64 (UnpackedFloat.unpack .binary64 b) = b := by
  have hmantissa : (unpackMantissa b).toNat < 2 ^ 52 := (unpackMantissa b).isLt
  have hparts := packComponents_unpack b
  have hcanonical := @canonical_of_unpack b
  unfold UnpackedFloat.unpack at hcanonical ⊢
  dsimp only at hcanonical ⊢
  split
  case isTrue hmax =>
    split
    case isTrue hzero =>
      rw [hmax, hzero] at hparts
      exact hparts
    case isFalse hnonzero =>
      exact (hvalid.eq_packedNaN hmax hnonzero).symm
  case isFalse hfinite =>
    rw [if_neg hfinite] at hcanonical
    have hlt := (ne_negOne_iff _).mp hfinite
    -- the least exponent is that of zeros and of mantissas without the implicit bit
    split
    case isTrue hmin =>
      rw [if_pos hmin] at hcanonical
      split
      case isTrue hzero =>
        rw [hmin, hzero] at hparts
        exact hparts
      case isFalse hnonzero =>
        rw [dif_neg hnonzero] at hcanonical
        rw [pack_finite (hcanonical rfl), if_neg (Nat.not_le.mpr hmantissa), BitVec.ofNat_toNat,
          BitVec.setWidth_eq, ← hmin]
        exact hparts
    case isFalse hmin =>
      rw [if_neg hmin] at hcanonical
      rw [pack_finite (hcanonical rfl), toNat_implicit_append, if_pos (Nat.le_add_right _ _)]
      have he : ((unpackExponent b).toNat - (Format.binary64.exponentBias +
          Format.binary64.mantissaBitsWithoutImplicit) + 1075 : Int).toNat =
          (unpackExponent b).toNat := by
        show ((unpackExponent b).toNat - (1023 + 52) + 1075 : Int).toNat = (unpackExponent b).toNat
        omega
      rw [he, ofNat_toNat_add, BitVec.ofNat_toNat, BitVec.setWidth_eq]
      exact hparts

/-- A mantissa with the implicit bit is unpacked as it was packed: the exponent is none of those
that stand for something else. -/
theorem unpack_pack_full {sign : Sign} {m : Nat} {e : Int} (h : Canonical m e)
    (hfull : 2 ^ 52 ≤ m) :
    UnpackedFloat.unpack .binary64 (UnpackedFloat.pack .binary64 (.finite sign m e h.pos)) =
      .finite sign m e h.pos := by
  have hlt := h.lt
  have hmin := h.min_le
  have hmax := h.le_max
  have hexponent : (BitVec.ofNat 11 (e + 1075).toNat).toNat = (e + 1075).toNat := by
    rw [BitVec.toNat_ofNat]
    omega
  have hne : BitVec.ofNat 11 (e + 1075).toNat ≠ -1#11 := by
    rw [ne_negOne_iff, hexponent]
    omega
  have hne' : BitVec.ofNat 11 (e + 1075).toNat ≠ 0#11 := by
    intro h0
    rw [h0] at hexponent
    have : (0 : Nat) = (e + 1075).toNat := hexponent
    omega
  have hm : (1#1 ++ BitVec.ofNat 52 m).toNat = m := by
    rw [toNat_implicit_append, BitVec.toNat_ofNat]
    omega
  have he : ((e + 1075).toNat : Int) - (Format.binary64.exponentBias +
      Format.binary64.mantissaBitsWithoutImplicit) = e := by
    show ((e + 1075).toNat : Int) - (1023 + 52) = e
    omega
  rw [pack_finite h]
  unfold UnpackedFloat.unpack
  simp only [unpackMantissa_packComponents, unpackExponent_packComponents,
    unpackSign_packComponents, ofBitVec_toBitVec, if_pos hfull, if_neg hne, if_neg hne', hm,
    hexponent, he]

/-- A mantissa without the implicit bit is unpacked with the least exponent, which it had. -/
theorem unpack_pack_least {sign : Sign} {m : Nat} {e : Int} (h : Canonical m e)
    (hfull : ¬ 2 ^ 52 ≤ m) :
    UnpackedFloat.unpack .binary64 (UnpackedFloat.pack .binary64 (.finite sign m e h.pos)) =
      .finite sign m e h.pos := by
  have hpos := h.pos
  have he : e = -1074 := h.full_or_min.resolve_left hfull
  have hm : (BitVec.ofNat 52 m).toNat = m := by
    rw [BitVec.toNat_ofNat]
    omega
  have hne : BitVec.ofNat 52 m ≠ 0#52 := by
    intro h0
    rw [h0] at hm
    have : 0 = m := hm
    omega
  have hzero : ¬ 0#11 = -1#11 := by decide
  rw [pack_finite h]
  unfold UnpackedFloat.unpack
  simp only [unpackMantissa_packComponents, unpackExponent_packComponents,
    unpackSign_packComponents, ofBitVec_toBitVec, if_neg hfull, if_neg hzero, if_true, dif_neg hne,
    hm]
  subst he
  rfl

/-- Packing a canonical number loses nothing. -/
theorem unpack_pack_finite {sign : Sign} {m : Nat} {e : Int} (h : Canonical m e) :
    UnpackedFloat.unpack .binary64 (UnpackedFloat.pack .binary64 (.finite sign m e h.pos)) =
      .finite sign m e h.pos := by
  by_cases hfull : 2 ^ 52 ≤ m
  · exact unpack_pack_full h hfull
  · exact unpack_pack_least h hfull

/-- The parts are canonical, if they are those of a number. -/
def IsCanonical : UnpackedFloat → Prop
  | .finite _ m e _ => Canonical m e
  | _ => True

/-- The parts of a number are canonical. -/
theorem isCanonical_unpack (x : Float.Model) : IsCanonical x.unpack := by
  cases h : x.unpack with
  | finite sign m e hm => exact canonical_of_unpack h
  | _ => exact trivial

/-- A change of sign keeps parts canonical. -/
theorem IsCanonical.neg {u : UnpackedFloat} (h : IsCanonical u) : IsCanonical u.neg := by
  cases u <;> exact h

/-- Canonical parts that are packed can be unpacked again. -/
theorem unpack_pack {u : UnpackedFloat} (h : IsCanonical u) : (Float.Model.pack u).unpack = u := by
  cases u with
  | finite sign m e hm => exact unpack_pack_finite h
  | notANumber => rfl
  | zero sign => cases sign <;> rfl
  | infinity sign => cases sign <;> rfl

/-! ## Numbers and their parts -/

/-- A number can be put together from its parts. -/
theorem ofModel_pack_unpack (x : Float) : Float.ofModel (.pack x.toModel.unpack) = x := by
  obtain ⟨⟨bits, hvalid⟩⟩ := x
  have hpack := pack_unpack hvalid
  unfold Float.Model.pack Float.Model.unpack
  congr 2
  exact congrArg UInt64.ofBitVec hpack

/-- A number is what its parts are packed to. -/
theorem eq_of_unpack_eq {x : Float} {u : UnpackedFloat} (h : x.toModel.unpack = u) :
    x = .ofModel (.pack u) := by
  rw [← h, ofModel_pack_unpack]

/-- A minus sign changes the sign of the parts. -/
theorem unpack_neg (x : Float) : (-x).toModel.unpack = x.toModel.unpack.neg :=
  unpack_pack (isCanonical_unpack x.toModel).neg

/-- Two changes of sign cancel. -/
theorem neg_neg_unpacked (u : UnpackedFloat) : u.neg.neg = u := by
  cases u with
  | notANumber => rfl
  | _ sign => cases sign <;> rfl

/-- Two minus signs cancel, also in front of zeros, infinities and NaN. -/
theorem neg_neg (x : Float) : -(-x) = x := by
  rw [eq_of_unpack_eq (unpack_neg (-x)), unpack_neg, neg_neg_unpacked, ofModel_pack_unpack]

end Reckoner.Number
