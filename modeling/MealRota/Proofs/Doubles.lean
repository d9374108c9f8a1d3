import MealRota.Number.Layout
import Mathlib

/-!
# MealRota.Proofs.Doubles

A double and its parts.

* `ofParts` — what a double of given sign, exponent bits and mantissa bits is;
* `Canonical` — the mantissas and exponents of finite doubles other than zero;
* `unpack_pack`, `pack_unpack_model` — packing and unpacking undo each other;
* `sign_abs` — a finite double is its absolute value under its sign.
-/

namespace MealRota

open Float.Model Float.Model.UnpackedFloat

/-! ## the parts of a double -/

theorem toNat_implicit (m : BitVec 52) : (1#1 ++ m).toNat = 2 ^ 52 + m.toNat := by
  rw [BitVec.toNat_append, ← Nat.shiftLeft_add_eq_or_of_lt m.isLt]
  rfl

theorem eq_allOnes_iff (e : BitVec 11) : e = -1#_ ↔ e.toNat = 2047 := by
  rw [← BitVec.toNat_inj]
  rfl

theorem eq_zero_iff {n : Nat} (e : BitVec n) : e = 0#_ ↔ e.toNat = 0 := by
  rw [← BitVec.toNat_inj, BitVec.toNat_zero]

/-- What a double of sign bit `s`, exponent bits `e` and mantissa bits `m` is. -/
def ofParts (s : Sign) (e m : Nat) : UnpackedFloat :=
  if e = 2047 then if m = 0 then .infinity s else .notANumber
  else if e = 0 then
    if h : m = 0 then .zero s else .finite s m (-1074) (Nat.pos_of_ne_zero h)
  else .finite s (2 ^ 52 + m) (e - 1075) (Nat.add_pos_left (Nat.two_pow_pos 52) m)

theorem unpack_eq_ofParts (b : BitVec Format.binary64.numBits) :
    UnpackedFloat.unpack .binary64 b =
      ofParts (.ofBitVec (unpackSign b)) (unpackExponent b).toNat (unpackMantissa b).toNat := by
  have hbias : ∀ n : Nat, (n : Int) - (Format.binary64.exponentBias + (52 : Nat)) = n - 1075 :=
    fun n => rfl
  unfold UnpackedFloat.unpack ofParts
  simp only [eq_allOnes_iff, eq_zero_iff, toNat_implicit, hbias]
  split
  · rfl
  · split
    · next hzero =>
        simp only [hzero]
        rfl
    · rfl

/-! ## finite doubles -/

/-- The mantissas and exponents of finite doubles other than zero. -/
structure Canonical (m : Nat) (e : Int) : Prop where
  pos : 0 < m
  short : m < 2 ^ 53
  least : -1074 ≤ e
  most : e ≤ 971
  full : 2 ^ 52 ≤ m ∨ e = -1074

theorem Canonical.of_unpack {x : Float.Model} {s : Sign} {m : Nat} {e : Int} {h : 0 < m}
    (hx : x.unpack = .finite s m e h) : Canonical m e := by
  have hmantissa : (@unpackMantissa .binary64 x.toBits.toBitVec).toNat < 2 ^ 52 :=
    BitVec.isLt _
  have hexponent : (@unpackExponent .binary64 x.toBits.toBitVec).toNat < 2 ^ 11 :=
    BitVec.isLt _
  rw [Float.Model.unpack, unpack_eq_ofParts] at hx
  unfold ofParts at hx
  split at hx
  · split at hx <;> contradiction
  · split at hx
    · split at hx
      · contradiction
      · cases hx
        constructor <;> omega
    · cases hx
      constructor <;> omega

/-- Unpacking gives the parts back. -/
theorem unpack_packComponents (s : Sign) (e : BitVec 11) (m : BitVec 52) :
    UnpackedFloat.unpack .binary64 (packComponents .binary64 s e m) =
      ofParts s e.toNat m.toNat := by
  rw [unpack_eq_ofParts, unpackSign_packComponents, unpackExponent_packComponents,
    unpackMantissa_packComponents, Sign.ofBitVec_toBitVec]

theorem log2_eq_of_full {m : Nat} (hfull : 2 ^ 52 ≤ m) (hshort : m < 2 ^ 53) : m.log2 = 52 :=
  (Nat.log2_eq_iff (by omega)).mpr ⟨hfull, hshort⟩

/-- A mantissa of 53 bits is packed without its first bit. -/
theorem pack_full {s : Sign} {m : Nat} {e : Int} (hfull : 2 ^ 52 ≤ m) (hshort : m < 2 ^ 53)
    (hleast : -1074 ≤ e) (hmost : e ≤ 971) (h : 0 < m) :
    UnpackedFloat.pack .binary64 (.finite s m e h) =
      packComponents .binary64 s (BitVec.ofNat 11 (e + 1075).toNat) (BitVec.ofNat 52 m) := by
  have hbiased : (e + Format.binary64.exponentBias + (52 : Nat)).toNat = (e + 1075).toNat := by
    rw [show Format.binary64.exponentBias = 1023 from rfl]
    omega
  have hlog : m.log2 + 1 = Format.binary64.mantissaBits := by
    rw [log2_eq_of_full hfull hshort]
    rfl
  unfold UnpackedFloat.pack
  simp only [hbiased, hlog, if_true]
  exact if_neg (by omega)

/-- A shorter mantissa is packed as it is. -/
theorem pack_short {s : Sign} {m : Nat} (hshort : m < 2 ^ 52) (h : 0 < m) :
    UnpackedFloat.pack .binary64 (.finite s m (-1074) h) =
      packComponents .binary64 s 0#11 (BitVec.ofNat 52 m) := by
  have hlog : m.log2 + 1 ≠ Format.binary64.mantissaBits := by
    have := (Nat.log2_lt (Nat.ne_of_gt h)).mpr hshort
    show m.log2 + 1 ≠ 53
    omega
  unfold UnpackedFloat.pack
  simp only [hlog, if_false]
  exact if_neg (by decide)

/-- What a finite double is made of is got back from it. -/
theorem unpack_pack {s : Sign} {m : Nat} {e : Int} (h : Canonical m e) :
    (Float.Model.pack (.finite s m e h.pos)).unpack = .finite s m e h.pos := by
  obtain ⟨hpos, hshort, hleast, hmost, hplace⟩ := h
  change UnpackedFloat.unpack .binary64 (UnpackedFloat.pack .binary64 _) = _
  by_cases hfull : 2 ^ 52 ≤ m
  · rw [pack_full hfull hshort hleast hmost, unpack_packComponents, BitVec.toNat_ofNat,
      BitVec.toNat_ofNat, Nat.mod_eq_of_lt (by omega)]
    unfold ofParts
    rw [if_neg (by omega), if_neg (by omega)]
    congr 1
    · omega
    · omega
  · obtain rfl := hplace.resolve_left hfull
    have hmod : m % 2 ^ 52 = m := Nat.mod_eq_of_lt (by omega)
    rw [pack_short (by omega), unpack_packComponents, BitVec.toNat_ofNat, BitVec.toNat_ofNat, hmod]
    unfold ofParts
    rw [if_neg (by decide), if_pos (by decide), dif_neg (Nat.ne_of_gt hpos)]

/-- Packing what a double is made of gives the double back. -/
theorem pack_unpack_model (x : Float.Model) : Float.Model.pack x.unpack = x := by
  obtain ⟨bits, hvalid⟩ := x
  have hbits : UnpackedFloat.pack .binary64 (UnpackedFloat.unpack .binary64 bits.toBitVec) =
      bits.toBitVec := pack_unpack_of_valid hvalid
  unfold Float.Model.pack Float.Model.unpack
  simp only [hbits]

/-- The absolute value of a finite double is made of the absolute value of its parts. -/
theorem unpack_abs {x : Float} (h : x.isFinite = true) :
    x.abs.toModel.unpack = x.toModel.unpack.abs := by
  have hfinite : x.toModel.unpack.isFinite = true := h
  show (Float.Model.pack x.toModel.unpack.abs).unpack = _
  cases hx : x.toModel.unpack with
  | notANumber => rw [hx] at hfinite; contradiction
  | infinity s => rw [hx] at hfinite; contradiction
  | zero s => exact unpack_packedZero
  | finite s m e hm => exact unpack_pack (Canonical.of_unpack hx)

/-! ## signs -/

theorem toNat_unpackSign (b : BitVec Format.binary64.numBits) :
    (unpackSign b).toNat = b.toNat / 2 ^ 63 := by
  unfold unpackSign
  rw [BitVec.toNat_cast, BitVec.extractLsb_toNat, Nat.shiftRight_eq_div_pow]
  exact Nat.mod_eq_of_lt (Nat.div_lt_of_lt_mul b.isLt)

/-- The sign of a double is its first bit. -/
theorem sign_eq_positive_iff (x : Float) :
    Sign.ofBitVec (@unpackSign .binary64 x.toModel.toBits.toBitVec) = .positive ↔
      x.toBits < Layout.signBit := by
  have hsign : ∀ b : BitVec 1, Sign.ofBitVec b = .positive ↔ b.toNat = 0 := by
    intro b
    rw [← eq_zero_iff]
    unfold Sign.ofBitVec
    split
    · next hzero => exact iff_of_true rfl hzero
    · next hone => exact iff_of_false nofun hone
  rw [hsign, toNat_unpackSign, UInt64.lt_iff_toNat_lt,
    show Layout.signBit.toNat = 2 ^ 63 from rfl]
  exact Nat.div_eq_zero_iff_lt (Nat.two_pow_pos 63)

theorem abs_ofParts (s : Sign) (e m : Nat) : (ofParts s e m).abs = ofParts .positive e m := by
  unfold ofParts
  repeat' split
  all_goals rfl

theorem neg_ofParts (s : Sign) (e m : Nat) : (ofParts s e m).neg = ofParts (-s) e m := by
  unfold ofParts
  repeat' split
  all_goals rfl

/-- A double without a minus sign is its own absolute value. -/
theorem abs_of_lt_signBit {x : Float} (h : x.toBits < Layout.signBit) : x.abs = x := by
  have hunpack : x.toModel.unpack.abs = x.toModel.unpack := by
    rw [Float.Model.unpack, unpack_eq_ofParts, abs_ofParts, (sign_eq_positive_iff x).mpr h]
  show Float.ofModel (.pack x.toModel.unpack.abs) = x
  rw [hunpack, pack_unpack_model]

/-- A finite double with a minus sign is its absolute value with the sign turned round. -/
theorem neg_abs_of_signBit_le {x : Float} (hfinite : x.isFinite = true)
    (h : ¬ x.toBits < Layout.signBit) : -x.abs = x := by
  have hnegative : Sign.ofBitVec (@unpackSign .binary64 x.toModel.toBits.toBitVec) =
      .negative := by
    have hsign := (sign_eq_positive_iff x).not.mpr h
    revert hsign
    cases Sign.ofBitVec _ <;> simp
  have hunpack : x.toModel.unpack.abs.neg = x.toModel.unpack := by
    rw [Float.Model.unpack, unpack_eq_ofParts, abs_ofParts, neg_ofParts, hnegative]
    rfl
  show Float.ofModel (.pack x.abs.toModel.unpack.neg) = x
  rw [unpack_abs hfinite, hunpack, pack_unpack_model]

/-- The sign of a finite double and its absolute value. -/
theorem sign_abs {x : Float} (h : x.isFinite = true) :
    (if decide (¬ x.toBits < Layout.signBit) then -x.abs else x.abs) = x := by
  split
  · next hsign => exact neg_abs_of_signBit_le h (of_decide_eq_true hsign)
  · next hsign => exact abs_of_lt_signBit (by simpa using hsign)

theorem abs_cases {x : Float} (h : x.isFinite = true) :
    x.abs = 0 ∨ ∃ m e hm, x.abs.toModel.unpack = .finite .positive m e hm := by
  have hfinite : x.toModel.unpack.isFinite = true := h
  rw [unpack_abs h]
  cases hx : x.toModel.unpack with
  | notANumber => rw [hx] at hfinite; contradiction
  | infinity s => rw [hx] at hfinite; contradiction
  | zero s =>
      refine Or.inl ?_
      show Float.ofModel (.pack x.toModel.unpack.abs) = 0
      rw [hx]
      rfl
  | finite s m e hm => exact Or.inr ⟨m, e, hm, rfl⟩

/-- A finite double equals itself. -/
theorem beq_self_of_isFinite {x : Float} (h : x.isFinite = true) : (x == x) = true := by
  refine Float.beq_self_iff.mpr ?_
  rintro rfl
  contradiction

end MealRota
