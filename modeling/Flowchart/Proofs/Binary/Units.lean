import Mathlib.Algebra.Order.Ring.Nat

/-!
# Binary Floats as Multiples of a Unit

Singles and doubles differ in how many digits they have and in how far their
exponents reach, and in nothing else. What can be said of both is said here of
any format. A float is read as a whole number: how many times it is the
smallest positive float of its format. An infinity is read as the power of two
that follows the largest finite float, and what is not a number as zero.

Comparing the parts of two floats is comparing their readings, provided that
neither can be written with a smaller exponent. Every float that was unpacked
from bits is of this kind, and it is what comes out again when it is packed.

Nothing finite is made of something that is not. Whoever computes with floats
may therefore ask for a finite result, and has finite operands.

## Main definitions

* `Binary.scale`, `Binary.unitsOf`: How many times the unit a float is.
* `Binary.Rounded`: A mantissa has all its digits, or the exponent is least.
* `Binary.bounded`, `Binary.clamp`: What is too large becomes an infinity.
* `Binary.Canonical`: A float that the format can hold.

## Theorems

* `unpack_pack`: What is packed is what comes out, unless it is too large.
* `canonical_unpack`: What comes out of bits is canonical.
* `compare_eq`, `le_iff`, `lt_iff`, `beq_iff`: Comparing floats is comparing
  readings.
* `strict_add`, `strict_sub`, `strict_mul`: A finite result has finite operands.
* `unitsOf_unpack_pack`: What comes out finite has kept its reading.
-/

namespace Flowchart

namespace Binary

open Float.Model (Format UnpackedFloat totalExponent)
open Float.Model.UnpackedFloat

variable (f : Format)

/-! ## Formats -/

/-- The digits of a mantissa after the first. -/
abbrev tail : Nat := f.mantissaBitsWithoutImplicit

/-- Half of the exponents. -/
def half : Nat := 2 ^ (f.exponentBits - 1)

theorem half_pos : 0 < half f := Nat.two_pow_pos _

theorem two_pow_exponentBits : 2 ^ f.exponentBits = 2 * half f := by
  have he := f.he
  rw [half, Nat.mul_comm, ← Nat.pow_succ]
  congr 1
  omega

theorem exponentBias_eq : f.exponentBias = half f - 1 := rfl

theorem minExponent_eq : f.minExponent = 2 - half f - tail f := by
  have hhalf : ((half f : Nat) : Int) = 2 ^ (f.exponentBits - 1) := by
    rw [half, Int.natCast_pow]
    rfl
  unfold Format.minExponent Format.mantissaBits tail
  omega

theorem mantissaBits_eq : f.mantissaBits = tail f + 1 := Nat.add_comm _ _

/-- The least exponent that is too large. -/
def limit : Int := half f - tail f

/-! ## Readings -/

/-- How many times the unit a number is whose exponent is not below it. -/
def scale (m : Nat) (e : Int) : Nat := m * 2 ^ (e - f.minExponent).toNat

/-- The reading of infinity. -/
def top : Nat := 2 ^ tail f * 2 ^ (2 * half f - 2)

/-- How many times the unit a float is. -/
def unitsOf : UnpackedFloat → Int
  | .notANumber => 0
  | .zero _ => 0
  | .infinity s => s.apply (top f)
  | .finite s m e _ => s.apply (scale f m e)

/-- The mantissa has all its digits, or fewer if the exponent is that of the
    unit. -/
def Rounded : UnpackedFloat → Prop
  | .finite _ m e _ =>
      m < 2 * 2 ^ tail f ∧ f.minExponent ≤ e ∧ (2 ^ tail f ≤ m ∨ e = f.minExponent)
  | _ => True

/-- What is too large becomes an infinity. -/
def bounded : UnpackedFloat → UnpackedFloat
  | .finite s m e h => if limit f ≤ e then .infinity s else .finite s m e h
  | u => u

/-- A reading that is too large becomes that of an infinity. -/
def clamp (n : Int) : Int := max (-top f) (min (top f) n)

/-- A float that the format can hold. -/
structure Canonical (u : UnpackedFloat) : Prop where
  rounded : Rounded f u
  bounded : bounded f u = u

variable {f}

theorem unitsOf_infinity (s : Sign) : unitsOf f (.infinity s) = s.apply (top f) := rfl

theorem unitsOf_finite (s : Sign) (m : Nat) (e : Int) (h : 0 < m) :
    unitsOf f (.finite s m e h) = s.apply (scale f m e) :=
  rfl

theorem bounded_finite (s : Sign) (m : Nat) (e : Int) (h : 0 < m) :
    bounded f (.finite s m e h) = if limit f ≤ e then .infinity s else .finite s m e h :=
  rfl

theorem scale_pos {m : Nat} (hm : 0 < m) (e : Int) : 0 < scale f m e :=
  Nat.mul_pos hm (Nat.two_pow_pos _)

theorem zero_lt_top : 0 < top f := Nat.mul_pos (Nat.two_pow_pos _) (Nat.two_pow_pos _)

theorem scale_lt_top {m : Nat} {e : Int} (hm : m < 2 * 2 ^ tail f) (hmin : f.minExponent ≤ e)
    (he : e < limit f) : scale f m e < top f := by
  have hhalf := half_pos f
  rw [minExponent_eq] at hmin
  rw [limit] at he
  unfold scale top
  rw [minExponent_eq]
  -- One more exponent makes up for the digit that the mantissa has at most.
  calc m * 2 ^ (e - (2 - half f - tail f)).toNat
      < 2 * 2 ^ tail f * 2 ^ (e - (2 - half f - tail f)).toNat :=
        Nat.mul_lt_mul_of_pos_right hm (Nat.two_pow_pos _)
    _ = 2 ^ tail f * 2 ^ ((e - (2 - half f - tail f)).toNat + 1) := by
        rw [Nat.pow_succ 2 (e - (2 - half f - tail f)).toNat, Nat.mul_comm 2, Nat.mul_assoc,
          Nat.mul_comm 2]
    _ ≤ 2 ^ tail f * 2 ^ (2 * half f - 2) :=
        Nat.mul_le_mul_left _ (Nat.pow_le_pow_right (by decide) (by omega))

theorem top_le_scale {m : Nat} {e : Int} (hm : 2 ^ tail f ≤ m) (he : limit f ≤ e) :
    top f ≤ scale f m e := by
  rw [limit] at he
  unfold scale top
  rw [minExponent_eq]
  calc 2 ^ tail f * 2 ^ (2 * half f - 2)
      ≤ m * 2 ^ (2 * half f - 2) := Nat.mul_le_mul_right _ hm
    _ ≤ m * 2 ^ (e - (2 - half f - tail f)).toNat :=
        Nat.mul_le_mul_left _ (Nat.pow_le_pow_right (by decide) (by omega))

theorem unitsOf_bounded (hwide : 1 < half f) {u : UnpackedFloat} (h : Rounded f u) :
    unitsOf f (bounded f u) = clamp f (unitsOf f u) := by
  have htop := zero_lt_top (f := f)
  unfold clamp
  cases u with
  | notANumber =>
      -- Zero is cut off by neither side.
      change (0 : Int) = max (-(top f : Int)) (min (top f) 0)
      omega
  | zero s =>
      change (0 : Int) = max (-(top f : Int)) (min (top f) 0)
      omega
  | infinity s =>
      change unitsOf f (.infinity s) = _
      rw [unitsOf_infinity]
      cases s <;> dsimp only [Sign.apply] <;> omega
  | finite s m e hm =>
      rcases h with ⟨hlt, hmin, hfull⟩
      rw [bounded_finite, unitsOf_finite]
      by_cases hbig : limit f ≤ e
      · -- Only the least exponent goes with missing digits, and it is not above the limit.
        have hmore : e ≠ f.minExponent := by
          rw [minExponent_eq]
          unfold limit at hbig
          omega
        have hle : top f ≤ scale f m e := top_le_scale (hfull.resolve_right hmore) hbig
        rw [if_pos hbig, unitsOf_infinity]
        cases s <;> dsimp only [Sign.apply] <;> omega
      · -- Below the limit nothing is cut off.
        have hle : scale f m e < top f := scale_lt_top hlt hmin (by omega)
        rw [if_neg hbig, unitsOf_finite]
        cases s <;> dsimp only [Sign.apply] <;> omega

/-! ## Packing -/

/-- A sign, a mantissa and an exponent. -/
def ofParts (s : Sign) (m : Nat) (e : Int) : UnpackedFloat :=
  if h : m = 0 then .zero s else .finite s m e (Nat.pos_of_ne_zero h)

theorem ofParts_of_pos {s : Sign} {m : Nat} {e : Int} (h : 0 < m) :
    ofParts s m e = .finite s m e h :=
  dif_neg (Nat.ne_of_gt h)

theorem finite_congr {s : Sign} {m n : Nat} {e e' : Int} {hm : 0 < m} {hn : 0 < n} (hmn : m = n)
    (hee : e = e') : UnpackedFloat.finite s m e hm = .finite s n e' hn := by
  subst hmn
  subst hee
  rfl

theorem unpackSign_packComponents (s : Sign) (e : BitVec f.exponentBits) (m : BitVec (tail f)) :
    unpackSign (packComponents f s e m) = s.toBitVec := by
  ext i hi
  rw [Nat.lt_one_iff] at hi
  subst hi
  change (BitVec.cast _ ((s.toBitVec ++ e ++ m).extractLsb (tail f + f.exponentBits) _))[0] = _
  -- Below the sign are the mantissa and the exponent.
  rw [BitVec.getElem_cast, BitVec.getElem_extract, Nat.add_zero, BitVec.getLsbD_append,
    if_neg (Nat.not_lt.mpr (Nat.le_add_right _ _)), Nat.add_sub_cancel_left, BitVec.getLsbD_append,
    if_neg (Nat.lt_irrefl _), Nat.sub_self, BitVec.getLsbD_eq_getElem]

/-- What the three fields of a float say. -/
def ofFields (s : Sign) (e : BitVec f.exponentBits) (m : BitVec (tail f)) : UnpackedFloat :=
  if e = -1#_ then if m = 0#_ then .infinity s else .notANumber
  else if e = 0#_ then ofParts s m.toNat f.minExponent
  else ofParts s (2 ^ tail f + m.toNat) (e.toNat - (f.exponentBias + tail f))

theorem unpack_eq (b : BitVec f.numBits) :
    UnpackedFloat.unpack f b =
      ofFields (.ofBitVec (unpackSign b)) (unpackExponent b) (unpackMantissa b) := by
  have hone : ∀ m : BitVec (tail f), (1#1 ++ m).toNat = 2 ^ tail f + m.toNat := by
    intro m
    rw [BitVec.toNat_append, ← Nat.shiftLeft_add_eq_or_of_lt m.isLt, BitVec.toNat_ofNat,
      Nat.one_mod, Nat.one_shiftLeft]
  unfold UnpackedFloat.unpack ofFields
  -- Exponents of ones and of zeros are the two special ones.
  by_cases hinf : unpackExponent b = -1#_
  · rw [if_pos hinf, if_pos hinf]
  · rw [if_neg hinf, if_neg hinf]
    by_cases hzero : unpackExponent b = 0#_
    · rw [if_pos hzero, if_pos hzero]
      by_cases hm : unpackMantissa b = 0#_
      · rw [dif_pos hm, hm]
        rfl
      · -- A subnormal has the exponent of the smallest normal number.
        have hpos : 0 < (unpackMantissa b).toNat :=
          Nat.pos_of_ne_zero fun h => hm (BitVec.eq_of_toNat_eq h)
        rw [dif_neg hm, ofParts_of_pos hpos]
        refine finite_congr rfl ?_
        have hhalf := half_pos f
        rw [hzero, minExponent_eq, exponentBias_eq]
        simp only [BitVec.toNat_ofNat, Nat.zero_mod, tail]
        omega
    · have htwo := Nat.two_pow_pos (tail f)
      rw [if_neg hzero, if_neg hzero, ofParts_of_pos (by omega)]
      exact finite_congr (hone _) rfl

theorem unpack_packComponents (s : Sign) (e : BitVec f.exponentBits) (m : BitVec (tail f)) :
    UnpackedFloat.unpack f (packComponents f s e m) = ofFields s e m := by
  have hsign : Sign.ofBitVec s.toBitVec = s := by cases s <;> rfl
  rw [unpack_eq, unpackMantissa_packComponents, unpackExponent_packComponents,
    unpackSign_packComponents, hsign]

/-- An exponent field of zeros is not one of ones. -/
theorem zero_ne_ones : (0#f.exponentBits) ≠ -1#f.exponentBits := by
  intro h
  have hbits := congrArg BitVec.toNat h
  have hhalf := half_pos f
  rw [BitVec.neg_one_eq_allOnes, BitVec.toNat_allOnes, two_pow_exponentBits, BitVec.toNat_ofNat,
    Nat.zero_mod] at hbits
  omega

theorem ofFields_zero (s : Sign) (m : BitVec (tail f)) :
    ofFields (f := f) s 0#_ m = ofParts s m.toNat f.minExponent := by
  rw [ofFields, if_neg zero_ne_ones, if_pos rfl]

theorem ofFields_normal {s : Sign} {k : Nat} (m : BitVec (tail f)) (hpos : 0 < k)
    (hlt : k + 1 < 2 ^ f.exponentBits) :
    ofFields (f := f) s (BitVec.ofNat _ k) m =
      ofParts s (2 ^ tail f + m.toNat) (k - (f.exponentBias + tail f)) := by
  have hk : (BitVec.ofNat f.exponentBits k).toNat = k := by
    rw [BitVec.toNat_ofNat, Nat.mod_eq_of_lt (by omega)]
  have hne : ∀ j : BitVec f.exponentBits, j.toNat ≠ k → BitVec.ofNat _ k ≠ j := by
    rintro j hj rfl
    exact hj hk
  rw [ofFields, if_neg (hne _ ?_), if_neg (hne _ ?_), hk]
  · rw [BitVec.toNat_ofNat, Nat.zero_mod]
    omega
  · rw [BitVec.neg_one_eq_allOnes, BitVec.toNat_allOnes]
    omega

theorem pack_finite (s : Sign) (m : Nat) (e : Int) (h : 0 < m) :
    UnpackedFloat.pack f (.finite s m e h) =
      if 2 ^ f.exponentBits ≤ (e + f.exponentBias + tail f).toNat + 1 then packedInfinity f s
      else if m.log2 + 1 = f.mantissaBits then
        packComponents f s (BitVec.ofNat _ (e + f.exponentBias + tail f).toNat) (BitVec.ofNat _ m)
      else packComponents f s 0#_ (BitVec.ofNat _ m) :=
  rfl

theorem one_shiftLeft_ne_zero : (1#(tail f) <<< (tail f - 1)) ≠ 0#(tail f) := by
  have hpos := f.hm
  intro h
  have hbit := congrArg (fun b : BitVec (tail f) => b.getLsbD (tail f - 1)) h
  simp [tail] at hbit
  omega

/-- What is packed is what comes out of it, unless it is too large. -/
theorem unpack_pack (hwide : 1 < half f) {u : UnpackedFloat} (h : Rounded f u) :
    UnpackedFloat.unpack f (UnpackedFloat.pack f u) = bounded f u := by
  cases u with
  | notANumber =>
      change UnpackedFloat.unpack f (packComponents f _ _ _) = _
      rw [unpack_packComponents, ofFields, if_pos rfl, if_neg one_shiftLeft_ne_zero]
      rfl
  | infinity s =>
      change UnpackedFloat.unpack f (packComponents f _ _ _) = _
      rw [unpack_packComponents, ofFields, if_pos rfl]
      exact if_pos rfl
  | zero s =>
      change UnpackedFloat.unpack f (packComponents f _ _ _) = _
      rw [unpack_packComponents]
      exact ofFields_zero s 0#_
  | finite s m e hm =>
      rcases h with ⟨hlt, hmin, hfull⟩
      have hpow : 2 ^ (tail f + 1) = 2 * 2 ^ tail f := by omega
      have hlog : m.log2 < tail f + 1 := by
        rw [Nat.log2_lt (Nat.ne_of_gt hm), hpow]
        exact hlt
      -- Whether the first digit is there decides between the two encodings.
      have hcount : m.log2 + 1 = f.mantissaBits ↔ 2 ^ tail f ≤ m := by
        rw [← Nat.le_log2 (Nat.ne_of_gt hm), mantissaBits_eq]
        omega
      have htwo := two_pow_exponentBits f
      have hbias := exponentBias_eq f
      have hleast := minExponent_eq f
      rw [bounded_finite, pack_finite]
      unfold limit
      by_cases hbig : half f - tail f ≤ e
      · -- No exponent field holds this exponent.
        rw [if_pos hbig, if_pos (by omega)]
        change UnpackedFloat.unpack f (packComponents f _ _ _) = _
        rw [unpack_packComponents, ofFields, if_pos rfl]
        exact if_pos rfl
      · rw [if_neg hbig, if_neg (by omega)]
        by_cases hnormal : 2 ^ tail f ≤ m
        · -- The first digit is left out when it is packed and put back when it is unpacked.
          rw [if_pos (hcount.mpr hnormal), unpack_packComponents,
            ofFields_normal _ (by omega) (by omega), BitVec.toNat_ofNat]
          have hmod : m % 2 ^ tail f = m - 2 ^ tail f := by
            rw [Nat.mod_eq_sub_mod hnormal, Nat.mod_eq_of_lt (by omega)]
          rw [hmod, Nat.add_sub_cancel' hnormal, ofParts_of_pos hm]
          exact finite_congr rfl (by omega)
        · -- A mantissa without its first digit has the least exponent.
          rw [if_neg (mt hcount.mp hnormal), unpack_packComponents, ofFields_zero,
            BitVec.toNat_ofNat, Nat.mod_eq_of_lt (by omega), ofParts_of_pos hm]
          exact finite_congr rfl (by omega)

theorem canonical_ofParts {s : Sign} {m : Nat} {e : Int} (hm : m < 2 * 2 ^ tail f)
    (hmin : f.minExponent ≤ e) (hmax : e < limit f) (hfull : 2 ^ tail f ≤ m ∨ e = f.minExponent) :
    Canonical f (ofParts s m e) := by
  rcases Nat.eq_zero_or_pos m with rfl | hpos
  · exact ⟨trivial, rfl⟩
  · rw [ofParts_of_pos hpos]
    exact ⟨⟨hm, hmin, hfull⟩, if_neg (by omega)⟩

theorem canonical_unpack (hwide : 1 < half f) (b : BitVec f.numBits) :
    Canonical f (UnpackedFloat.unpack f b) := by
  rw [unpack_eq]
  generalize unpackExponent b = e
  generalize unpackMantissa b = m
  have he : e.toNat < 2 ^ f.exponentBits := e.isLt
  have hm : m.toNat < 2 ^ tail f := m.isLt
  have htwo := two_pow_exponentBits f
  have hbias := exponentBias_eq f
  have hleast := minExponent_eq f
  have hlimit : limit f = half f - tail f := rfl
  unfold ofFields
  split
  · split
    · exact ⟨trivial, rfl⟩
    · exact ⟨trivial, rfl⟩
  · rename_i hinf
    split
    · -- No digit is missing but where the exponent is least.
      exact canonical_ofParts (by omega) (by omega) (by omega) (Or.inr rfl)
    · rename_i hzero
      -- What is left are exponents strictly between the two special ones.
      have hlow : e.toNat ≠ 0 := fun h => hzero (BitVec.eq_of_toNat_eq (by
        rw [h, BitVec.toNat_ofNat, Nat.zero_mod]))
      have hhigh : e.toNat ≠ 2 ^ f.exponentBits - 1 := fun h => hinf (BitVec.eq_of_toNat_eq (by
        rw [h, BitVec.neg_one_eq_allOnes, BitVec.toNat_allOnes]))
      exact canonical_ofParts (by omega) (by omega) (by omega) (Or.inl (by omega))

/-! ## The order -/

theorem scale_lt_scale {m n : Nat} {e e' : Int} (hm : m < 2 * 2 ^ tail f)
    (he : f.minExponent ≤ e) (hee : e < e') (hn : 2 ^ tail f ≤ n) :
    scale f m e < scale f n e' := by
  unfold scale
  calc m * 2 ^ (e - f.minExponent).toNat
      < 2 * 2 ^ tail f * 2 ^ (e - f.minExponent).toNat :=
        Nat.mul_lt_mul_of_pos_right hm (Nat.two_pow_pos _)
    _ = 2 ^ tail f * 2 ^ ((e - f.minExponent).toNat + 1) := by
        rw [Nat.pow_succ 2 (e - f.minExponent).toNat, Nat.mul_comm 2, Nat.mul_assoc,
          Nat.mul_comm 2]
    _ ≤ 2 ^ tail f * 2 ^ (e' - f.minExponent).toNat :=
        Nat.mul_le_mul_left _ (Nat.pow_le_pow_right (by decide) (by omega))
    _ ≤ n * 2 ^ (e' - f.minExponent).toNat := Nat.mul_le_mul_right _ hn

/-- The larger exponent wins, and of equal ones the larger mantissa. -/
theorem compare_scale {m n : Nat} {e e' : Int} (hm : m < 2 * 2 ^ tail f)
    (he : f.minExponent ≤ e) (hefull : 2 ^ tail f ≤ m ∨ e = f.minExponent)
    (hn : n < 2 * 2 ^ tail f) (he' : f.minExponent ≤ e')
    (hfull' : 2 ^ tail f ≤ n ∨ e' = f.minExponent) :
    (compare e e').then (compare m n) = compare (scale f m e : Int) (scale f n e') := by
  rcases Int.lt_trichotomy e e' with hlt | rfl | hgt
  · -- A larger exponent is not the least, so its mantissa has all digits.
    have hfirst : 2 ^ tail f ≤ n := hfull'.resolve_right (by omega)
    have hscale := scale_lt_scale hm he hlt hfirst
    rw [Int.compare_eq_lt.mpr hlt, Int.compare_eq_lt.mpr (by omega)]
    rfl
  · -- With one exponent the mantissas are scaled alike.
    rw [Int.compare_eq_eq.mpr rfl, Ordering.eq_then]
    have hpos := Nat.two_pow_pos (e - f.minExponent).toNat
    rcases Nat.lt_trichotomy m n with hlt | rfl | hgt
    · have hscale : scale f m e < scale f n e := Nat.mul_lt_mul_of_pos_right hlt hpos
      rw [Nat.compare_eq_lt.mpr hlt, Int.compare_eq_lt.mpr (by omega)]
    · rw [Nat.compare_eq_eq.mpr rfl, Int.compare_eq_eq.mpr rfl]
    · have hscale : scale f n e < scale f m e := Nat.mul_lt_mul_of_pos_right hgt hpos
      rw [Nat.compare_eq_gt.mpr hgt, Int.compare_eq_gt.mpr (by omega)]
  · have hfirst : 2 ^ tail f ≤ m := hefull.resolve_right (by omega)
    have hscale := scale_lt_scale hn he' hgt hfirst
    rw [Int.compare_eq_gt.mpr hgt, Int.compare_eq_gt.mpr (by omega)]
    rfl

theorem some_eq_compare {o : Ordering} {a b : Int}
    (h : match o with
      | .lt => a < b
      | .eq => a = b
      | .gt => b < a) : some o = some (compare a b) := by
  cases o with
  | lt => rw [Int.compare_eq_lt.mpr h]
  | eq => rw [Int.compare_eq_eq.mpr h]
  | gt => rw [Int.compare_eq_gt.mpr h]

theorem swap_compare (a b : Int) : (compare a b).swap = compare (-a) (-b) := by
  rw [Int.compare_swap]
  rcases Int.lt_trichotomy a b with hlt | rfl | hgt
  · rw [Int.compare_eq_gt.mpr hlt, Int.compare_eq_gt.mpr (Int.neg_lt_neg hlt)]
  · rw [Int.compare_eq_eq.mpr rfl, Int.compare_eq_eq.mpr rfl]
  · rw [Int.compare_eq_lt.mpr hgt, Int.compare_eq_lt.mpr (Int.neg_lt_neg hgt)]

/-- A finite float that the format can hold reads less than infinity. -/
theorem Canonical.scale_lt_top {s : Sign} {m : Nat} {e : Int} {h : 0 < m}
    (hc : Canonical f (.finite s m e h)) : scale f m e < top f := by
  rcases hc with ⟨⟨hlt, hmin, _⟩, hbound⟩
  by_cases hbig : limit f ≤ e
  · rw [bounded_finite, if_pos hbig] at hbound
    exact UnpackedFloat.noConfusion hbound
  · exact Binary.scale_lt_top hlt hmin (by omega)

/-- Comparing floats that the format can hold is comparing their readings. -/
theorem compare_eq {u v : UnpackedFloat} (hu : Canonical f u) (hv : Canonical f v)
    (hunan : u.isNaN = false) (hvnan : v.isNaN = false) :
    u.compare v = some (compare (unitsOf f u) (unitsOf f v)) := by
  have htop := zero_lt_top (f := f)
  cases u with
  | notANumber => exact absurd hunan (by decide)
  | infinity s =>
      cases v with
      | notANumber => exact absurd hvnan (by decide)
      | infinity t =>
          cases s <;> cases t
          · exact some_eq_compare (o := .eq) rfl
          · exact some_eq_compare (o := .lt) (by dsimp only [unitsOf, Sign.apply]; omega)
          · exact some_eq_compare (o := .gt) (by dsimp only [unitsOf, Sign.apply]; omega)
          · exact some_eq_compare (o := .eq) rfl
      | zero t =>
          cases s <;>
            exact some_eq_compare (by dsimp only [unitsOf, Sign.apply]; omega)
      | finite t n e' hn =>
          -- Infinity is beyond every finite float of its sign.
          have hlt := hv.scale_lt_top
          cases s <;> cases t <;>
            exact some_eq_compare (by dsimp only [unitsOf, Sign.apply]; omega)
  | zero s =>
      cases v with
      | notANumber => exact absurd hvnan (by decide)
      | infinity t =>
          cases t <;>
            exact some_eq_compare (by dsimp only [unitsOf, Sign.apply]; omega)
      | zero t => rfl
      | finite t n e' hn =>
          have hpos := scale_pos (f := f) hn e'
          cases t <;>
            exact some_eq_compare (by dsimp only [unitsOf, Sign.apply]; omega)
  | finite s m e hm =>
      have hpos := scale_pos (f := f) hm e
      have hlt := hu.scale_lt_top
      cases v with
      | notANumber => exact absurd hvnan (by decide)
      | infinity t =>
          cases s <;> cases t <;>
            exact some_eq_compare (by dsimp only [unitsOf, Sign.apply]; omega)
      | zero t =>
          cases s <;>
            exact some_eq_compare (by dsimp only [unitsOf, Sign.apply]; omega)
      | finite t n e' hn =>
          have hpos' := scale_pos (f := f) hn e'
          rcases hu.rounded with ⟨hm24, he, hefull⟩
          rcases hv.rounded with ⟨hn24, he', hfull'⟩
          have hscale := compare_scale hm24 he hefull hn24 he' hfull'
          -- Of two negative floats the one with the larger parts is less.
          cases s <;> cases t <;> dsimp only [UnpackedFloat.compare, unitsOf, Sign.apply]
          · rw [hscale, swap_compare]
          · exact some_eq_compare (by dsimp only; omega)
          · exact some_eq_compare (by dsimp only; omega)
          · rw [hscale]

theorem compare_eq_none {u v : UnpackedFloat} (h : ¬(u.isNaN = false ∧ v.isNaN = false)) :
    u.compare v = none := by
  cases u with
  | notANumber => rfl
  | _ =>
      cases v with
      | notANumber => rfl
      | _ => exact absurd ⟨rfl, rfl⟩ h

section order

variable {u v : UnpackedFloat} (hu : Canonical f u) (hv : Canonical f v)

include hu hv

/-- What a comparison decides of floats it decides of readings, if both are
    numbers. -/
theorem any_compare_iff (p : Ordering → Bool) :
    (u.compare v).any p = true ↔
      u.isNaN = false ∧ v.isNaN = false ∧ p (compare (unitsOf f u) (unitsOf f v)) = true := by
  by_cases hnan : u.isNaN = false ∧ v.isNaN = false
  · rw [compare_eq hu hv hnan.1 hnan.2]
    exact ⟨fun h => ⟨hnan.1, hnan.2, h⟩, fun h => h.2.2⟩
  · rw [compare_eq_none hnan]
    exact iff_of_false Bool.false_ne_true fun h => hnan ⟨h.1, h.2.1⟩

theorem le_iff :
    u.le v = true ↔ u.isNaN = false ∧ v.isNaN = false ∧ unitsOf f u ≤ unitsOf f v := by
  rw [UnpackedFloat.le, any_compare_iff hu hv]
  simp only [Int.isLE_compare]

theorem lt_iff :
    u.lt v = true ↔ u.isNaN = false ∧ v.isNaN = false ∧ unitsOf f u < unitsOf f v := by
  have hany : u.lt v = (u.compare v).any (· == .lt) := by
    unfold UnpackedFloat.lt
    cases u.compare v <;> rfl
  rw [hany, any_compare_iff hu hv]
  simp only [beq_iff_eq, Int.compare_eq_lt]

theorem beq_iff :
    u.beq v = true ↔ u.isNaN = false ∧ v.isNaN = false ∧ unitsOf f u = unitsOf f v := by
  have hany : u.beq v = (u.compare v).any (· == .eq) := by
    unfold UnpackedFloat.beq
    cases u.compare v <;> rfl
  rw [hany, any_compare_iff hu hv]
  simp only [beq_iff_eq, Int.compare_eq_eq]

end order

/-! ## Finite results -/

/-- What is finite when it comes out was finite when it was packed. -/
theorem isFinite_of_unpack_pack (hwide : 1 < half f) {u : UnpackedFloat}
    (h : (UnpackedFloat.unpack f (UnpackedFloat.pack f u)).isFinite = true) :
    u.isFinite = true := by
  cases u with
  | notANumber =>
      rw [unpack_pack hwide (u := .notANumber) trivial] at h
      exact h
  | infinity s =>
      rw [unpack_pack hwide (u := .infinity s) trivial] at h
      exact h
  | zero s => rfl
  | finite s m e hm => rfl

/-- An operation whose result is only finite if both operands are. -/
def Strict (op : UnpackedFloat → UnpackedFloat → UnpackedFloat) : Prop :=
  ∀ u v, (op u v).isFinite = true → u.isFinite = true ∧ v.isFinite = true

theorem strict_add : Strict (UnpackedFloat.add f) := by
  intro u v h
  -- Two infinities need their signs before it shows that nothing finite comes of
  -- them.
  cases u <;> cases v <;> first
    | exact ⟨rfl, rfl⟩
    | exact absurd h Bool.false_ne_true
    | rename_i s t
      cases s <;> cases t <;> exact absurd h Bool.false_ne_true

theorem strict_sub : Strict (UnpackedFloat.sub f) := by
  intro u v h
  cases u <;> cases v <;> first
    | exact ⟨rfl, rfl⟩
    | exact absurd h Bool.false_ne_true
    | rename_i s t
      cases s <;> cases t <;> exact absurd h Bool.false_ne_true

theorem strict_mul : Strict (UnpackedFloat.mul f) := by
  intro u v h
  cases u <;> cases v <;> first
    | exact ⟨rfl, rfl⟩
    | exact absurd h Bool.false_ne_true

/-- Only what is finite has a difference from itself. -/
theorem isFinite_of_isNaN_sub_self {u : UnpackedFloat}
    (h : (UnpackedFloat.sub f u u).isNaN = false) : u.isFinite = true := by
  cases u with
  | notANumber => exact absurd h.symm Bool.false_ne_true
  | infinity s => cases s <;> exact absurd h.symm Bool.false_ne_true
  | zero s => rfl
  | finite s m e hm => rfl

/-- What is divided is finite if the quotient is. -/
theorem isFinite_of_div {u v : UnpackedFloat} (h : (UnpackedFloat.div f u v).isFinite = true) :
    u.isFinite = true := by
  cases u <;> cases v <;> first
    | rfl
    | exact absurd h Bool.false_ne_true

theorem isNaN_of_isFinite {u : UnpackedFloat} (h : u.isFinite = true) : u.isNaN = false := by
  cases u with
  | notANumber => exact absurd h Bool.false_ne_true
  | _ => rfl

/-- What is neither missing nor finite is an infinity. -/
theorem exists_eq_infinity {u : UnpackedFloat} (hnan : u.isNaN = false)
    (hinf : ¬u.isFinite = true) : ∃ s, u = .infinity s := by
  cases u with
  | notANumber => exact absurd hnan.symm Bool.false_ne_true
  | infinity s => exact ⟨s, rfl⟩
  | zero s => exact absurd rfl hinf
  | finite s m e h => exact absurd rfl hinf

/-- An infinity stays what it is when something finite is added. -/
theorem infinity_add {v : UnpackedFloat} (hv : v.isFinite = true) (s : Sign) :
    UnpackedFloat.add f (.infinity s) v = .infinity s := by
  cases v with
  | notANumber => exact absurd hv Bool.false_ne_true
  | infinity t => exact absurd hv Bool.false_ne_true
  | zero t => rfl
  | finite t m e h => rfl

/-- What reads less than infinity, and is a number, is finite. -/
theorem isFinite_of_natAbs_lt {u : UnpackedFloat} (hnan : u.isNaN = false)
    (h : (unitsOf f u).natAbs < top f) : u.isFinite = true := by
  cases u with
  | notANumber => exact absurd hnan.symm Bool.false_ne_true
  | infinity s =>
      rw [unitsOf_infinity] at h
      cases s <;> dsimp only [Sign.apply] at h <;> omega
  | zero s => rfl
  | finite s m e hm => rfl

theorem natAbs_unitsOf_lt {u : UnpackedFloat} (hc : Canonical f u) (hf : u.isFinite = true) :
    (unitsOf f u).natAbs < top f := by
  have htop := zero_lt_top (f := f)
  cases u with
  | notANumber => exact absurd hf Bool.false_ne_true
  | infinity s => exact absurd hf Bool.false_ne_true
  | zero s => exact htop
  | finite s m e hm =>
      have hlt := hc.scale_lt_top
      rw [unitsOf_finite]
      cases s <;> dsimp only [Sign.apply] <;> omega

section packed

variable (hwide : 1 < half f) {u : UnpackedFloat} (hr : Rounded f u)

include hwide hr

theorem isNaN_unpack_pack :
    (UnpackedFloat.unpack f (UnpackedFloat.pack f u)).isNaN = u.isNaN := by
  rw [unpack_pack hwide hr]
  cases u with
  | finite s m e h =>
      rw [bounded_finite]
      by_cases hbig : limit f ≤ e
      · rw [if_pos hbig]
        rfl
      · rw [if_neg hbig]
  | _ => rfl

/-- A reading only ever shrinks to that of infinity. -/
theorem natAbs_unitsOf_unpack_pack_le :
    (unitsOf f (UnpackedFloat.unpack f (UnpackedFloat.pack f u))).natAbs ≤
      (unitsOf f u).natAbs := by
  rw [unpack_pack hwide hr, unitsOf_bounded hwide hr]
  unfold clamp
  omega

/-- What comes out finite has kept its reading. -/
theorem unitsOf_unpack_pack
    (hf : (UnpackedFloat.unpack f (UnpackedFloat.pack f u)).isFinite = true) :
    unitsOf f (UnpackedFloat.unpack f (UnpackedFloat.pack f u)) = unitsOf f u := by
  have hlt := natAbs_unitsOf_lt (canonical_unpack hwide _) hf
  rw [unpack_pack hwide hr, unitsOf_bounded hwide hr] at hlt ⊢
  unfold clamp at hlt ⊢
  omega

end packed

/-! ## Amounts -/

theorem canonical_abs {u : UnpackedFloat} (hc : Canonical f u) : Canonical f u.abs := by
  cases u with
  | finite s m e h =>
      rcases hc with ⟨hrounded, hbounded⟩
      refine ⟨hrounded, ?_⟩
      by_cases hbig : limit f ≤ e
      · rw [bounded_finite, if_pos hbig] at hbounded
        exact UnpackedFloat.noConfusion hbounded
      · exact if_neg hbig
  | _ => exact ⟨trivial, rfl⟩

theorem natAbs_apply (s : Sign) (n : Nat) : (s.apply n).natAbs = n := by
  cases s with
  | positive => exact Int.natAbs_natCast n
  | negative => rw [Sign.apply, Int.natAbs_neg, Int.natAbs_natCast]

theorem unitsOf_abs (u : UnpackedFloat) : unitsOf f u.abs = (unitsOf f u).natAbs := by
  cases u with
  | notANumber => rfl
  | zero s => rfl
  | infinity s =>
      rw [unitsOf_infinity, natAbs_apply]
      rfl
  | finite s m e h =>
      rw [unitsOf_finite, natAbs_apply]
      rfl

end Binary

end Flowchart
