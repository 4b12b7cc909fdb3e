import Mathlib.Algebra.Group.Nat.Defs
import Mathlib.Algebra.Ring.Defs
import Mathlib.Data.Int.Basic
import Mathlib.Data.Nat.Basic

/-!
# Bit patterns of floating-point numbers

Comparisons, negation and widening of IEEE 754 numbers, on the bit patterns of
the `binary32` and `binary64` formats.  The bits below the sign bit are the
*magnitude*; numbers that are not NaN are ordered like the signed magnitudes.

## Main definitions

* `mag`, `key` — the magnitude, and the signed magnitude.
* `IsNaN`, `lt`, `le` — the comparisons of C.
* `neg`, `widen` — the negation, and the conversion from `float` to `double`.
* `Valuation` — the numbers that bit patterns stand for.

## Main results

* `lt_widen` — the conversion to `double` preserves the order.
-/

namespace Ieee

variable {w : ℕ}

/-- The bits below the sign bit, as a number. -/
def mag (x : BitVec w) : ℕ := x.toNat % 2 ^ (w - 1)

/-- The signed magnitude; both zeros have key zero. -/
def key (x : BitVec w) : ℤ := if x.msb then -(mag x : ℤ) else mag x

/-- The number of bits of the fraction. -/
def fracBits (w : ℕ) : ℕ := if w = 32 then 23 else 52

/-- The magnitude of the infinities. -/
def infMag (w : ℕ) : ℕ := 2 ^ (w - 1) - 2 ^ fracBits w

/-- Patterns above infinity are not numbers. -/
def IsNaN (x : BitVec w) : Prop := infMag w < mag x

instance (x : BitVec w) : Decidable (IsNaN x) := inferInstanceAs (Decidable (_ < _))

/-- The comparison `x < y`, which fails if one of them is NaN. -/
def lt (x y : BitVec w) : Bool := !decide (IsNaN x) && !decide (IsNaN y) && key x < key y

/-- The comparison `x <= y`, which fails if one of them is NaN. -/
def le (x y : BitVec w) : Bool := !decide (IsNaN x) && !decide (IsNaN y) && key x ≤ key y

/-- The negation flips the sign bit. -/
def neg (x : BitVec w) : BitVec w := x ^^^ BitVec.ofNat w (2 ^ (w - 1))

/-- The magnitude of a `float` after conversion to `double`.  Subnormal numbers
become normal, and NaNs become quiet. -/
def widenMag (m : ℕ) : ℕ :=
  if m = 0 then 0
  else if m < 2 ^ 23 then (Nat.log2 m + 874) * 2 ^ 52 + (m - 2 ^ Nat.log2 m) * 2 ^ (52 - Nat.log2 m)
  else if m < infMag 32 then m * 2 ^ 29 + 896 * 2 ^ 52
  else if m = infMag 32 then infMag 64
  else (m * 2 ^ 29 + 1792 * 2 ^ 52) ||| 2 ^ 51

/-- The conversion from `float` to `double`. -/
def widen (x : BitVec 32) : BitVec 64 :=
  BitVec.ofNat 64 ((if x.msb then 2 ^ 63 else 0) + widenMag (mag x))

/-- A map that gives the numbers that bit patterns stand for. -/
structure Valuation (K : Type*) [Ring K] where
  val : ∀ {w : ℕ}, BitVec w → K
  zero : val 0#64 = 0
  one : val 0x3FF0000000000000#64 = 1

/-! ### The order is preserved -/

theorem log2_le_of_lt {m : ℕ} (h : m < 2 ^ 23) : Nat.log2 m ≤ 22 := by
  rcases Nat.eq_zero_or_pos m with rfl | hm
  · decide
  · have hlt : Nat.log2 m < 23 := (Nat.log2_lt (by omega)).mpr h
    omega

/-- The significant bits of a subnormal number, after the leading one. -/
theorem subnormal_fraction_lt {m : ℕ} (h : m < 2 ^ 23) :
    (m - 2 ^ Nat.log2 m) * 2 ^ (52 - Nat.log2 m) < 2 ^ 52 := by
  have hlog : Nat.log2 m ≤ 22 := log2_le_of_lt h
  have hupper : m < 2 ^ Nat.log2 m * 2 := by
    rw [← Nat.pow_succ]
    exact Nat.lt_log2_self
  calc (m - 2 ^ Nat.log2 m) * 2 ^ (52 - Nat.log2 m)
      < 2 ^ Nat.log2 m * 2 ^ (52 - Nat.log2 m) :=
        Nat.mul_lt_mul_of_pos_right (by omega) (Nat.pow_pos (by decide))
    _ = 2 ^ 52 := by rw [← Nat.pow_add, Nat.add_sub_cancel' (by omega)]

/-- The conversion of subnormal numbers. -/
theorem widenMag_subnormal {m : ℕ} (hm : m ≠ 0) (h : m < 2 ^ 23) :
    widenMag m =
      (Nat.log2 m + 874) * 2 ^ 52 + (m - 2 ^ Nat.log2 m) * 2 ^ (52 - Nat.log2 m) := by
  rw [widenMag, if_neg hm, if_pos h]

/-- The conversion of normal numbers. -/
theorem widenMag_normal {m : ℕ} (h : 2 ^ 23 ≤ m) (hinf : m < infMag 32) :
    widenMag m = m * 2 ^ 29 + 896 * 2 ^ 52 := by
  rw [widenMag, if_neg (by omega), if_neg (by omega), if_pos hinf]

theorem widenMag_infMag : widenMag (infMag 32) = infMag 64 := by decide

theorem widenMag_subnormal_lt {m m' : ℕ} (hm : m ≠ 0) (hlt : m < m') (h : m' < 2 ^ 23) :
    widenMag m < widenMag m' := by
  have hm' : m' ≠ 0 := by omega
  rw [widenMag_subnormal hm (by omega), widenMag_subnormal hm' h]
  have hlog : Nat.log2 m ≤ Nat.log2 m' := by
    rw [Nat.le_log2 hm']
    exact le_trans (Nat.log2_self_le hm) (le_of_lt hlt)
  rcases Nat.eq_or_lt_of_le hlog with heq | hless
  · -- the leading ones are in the same position
    rw [← heq]
    have hpow : 2 ^ Nat.log2 m ≤ m := Nat.log2_self_le hm
    have hfrac : (m - 2 ^ Nat.log2 m) * 2 ^ (52 - Nat.log2 m)
        < (m' - 2 ^ Nat.log2 m) * 2 ^ (52 - Nat.log2 m) :=
      Nat.mul_lt_mul_of_pos_right (by omega) (Nat.pow_pos (by decide))
    omega
  · have hfrac := subnormal_fraction_lt (by omega : m < 2 ^ 23)
    have hexp : (Nat.log2 m + 875) * 2 ^ 52 ≤ (Nat.log2 m' + 874) * 2 ^ 52 :=
      Nat.mul_le_mul_right _ (by omega)
    omega

/-- The conversion to `double` preserves the order of magnitudes, up to infinity. -/
theorem widenMag_lt {m m' : ℕ} (hlt : m < m') (h : m' ≤ infMag 32) : widenMag m < widenMag m' := by
  have hinf32 : infMag 32 = 255 * 2 ^ 23 := by decide
  have hinf64 : infMag 64 = 2047 * 2 ^ 52 := by decide
  have hsub : ∀ k, k ≠ 0 → k < 2 ^ 23 → 0 < widenMag k ∧ widenMag k < 897 * 2 ^ 52 := by
    intro k hk hk'
    have hlog := log2_le_of_lt hk'
    have hfrac := subnormal_fraction_lt hk'
    have hexp : (Nat.log2 k + 874) * 2 ^ 52 ≤ 896 * 2 ^ 52 := Nat.mul_le_mul_right _ (by omega)
    rw [widenMag_subnormal hk hk']
    omega
  have hnormal : ∀ k, 2 ^ 23 ≤ k → k < infMag 32 →
      897 * 2 ^ 52 ≤ widenMag k ∧ widenMag k < infMag 64 := by
    intro k hk hk'
    rw [widenMag_normal hk hk']
    omega
  have hzero : widenMag 0 = 0 := rfl
  -- split at the boundaries between zero, subnormal and normal numbers, and infinity
  rcases Nat.eq_or_lt_of_le h with rfl | hfin'
  · rw [widenMag_infMag]
    rcases Nat.eq_zero_or_pos m with rfl | hm
    · rw [hzero, hinf64]
      decide
    · rcases Nat.lt_or_ge m (2 ^ 23) with hm' | hm'
      · have := hsub m (by omega) hm'
        omega
      · exact (hnormal m hm' hlt).2
  · rcases Nat.lt_or_ge m' (2 ^ 23) with hm' | hm'
    · rcases Nat.eq_zero_or_pos m with rfl | hm
      · exact (hsub m' (by omega) hm').1
      · exact widenMag_subnormal_lt (by omega) hlt hm'
    · have hbound' := hnormal m' hm' hfin'
      rcases Nat.lt_or_ge m (2 ^ 23) with hm'' | hm''
      · rcases Nat.eq_zero_or_pos m with rfl | hm
        · omega
        · have := hsub m (by omega) hm''
          omega
      · rw [widenMag_normal hm'' (by omega), widenMag_normal hm' hfin']
        omega

theorem widenMag_le_infMag {m : ℕ} (h : m ≤ infMag 32) : widenMag m ≤ infMag 64 := by
  rcases Nat.eq_or_lt_of_le h with rfl | hlt
  · exact le_of_eq widenMag_infMag
  · rw [← widenMag_infMag]
    exact le_of_lt (widenMag_lt hlt (le_refl _))

section Widen

variable {x y : BitVec 32}

theorem mag_widen (hx : ¬IsNaN x) : mag (widen x) = widenMag (mag x) := by
  have hle : widenMag (mag x) ≤ infMag 64 := widenMag_le_infMag (Nat.le_of_not_lt hx)
  have hinf : infMag 64 < 2 ^ 63 := by decide
  rw [mag, widen, BitVec.toNat_ofNat]
  split <;> omega

theorem msb_widen (hx : ¬IsNaN x) : (widen x).msb = x.msb := by
  have hle : widenMag (mag x) ≤ infMag 64 := widenMag_le_infMag (Nat.le_of_not_lt hx)
  have hinf : infMag 64 < 2 ^ 63 := by decide
  rw [BitVec.msb_eq_decide, widen, BitVec.toNat_ofNat]
  cases x.msb <;> simp <;> omega

theorem isNaN_widen (hx : ¬IsNaN x) : ¬IsNaN (widen x) := by
  rw [IsNaN, mag_widen hx]
  exact Nat.not_lt_of_le (widenMag_le_infMag (Nat.le_of_not_lt hx))

/-- The signed magnitude after conversion to `double`. -/
def widenKey (k : ℤ) : ℤ := if k < 0 then -(widenMag k.natAbs : ℤ) else widenMag k.natAbs

theorem key_widen (hx : ¬IsNaN x) : key (widen x) = widenKey (key x) := by
  have hzero : widenMag 0 = 0 := rfl
  rw [key, mag_widen hx, msb_widen hx, widenKey, key]
  cases x.msb with
  | false =>
    simp only [Bool.false_eq_true, if_false, Int.natAbs_natCast]
    rw [if_neg (by omega)]
  | true =>
    simp only [if_true, Int.natAbs_neg, Int.natAbs_natCast]
    rcases Nat.eq_zero_or_pos (mag x) with hx0 | hx0
    · rw [hx0, hzero]
      rfl
    · rw [if_pos (by omega)]

theorem widenKey_lt {k k' : ℤ} (hlt : k < k') (h : k.natAbs ≤ infMag 32)
    (h' : k'.natAbs ≤ infMag 32) : widenKey k < widenKey k' := by
  have hpos : ∀ m ≤ infMag 32, m ≠ 0 → 0 < widenMag m := fun m hm hm0 =>
    widenMag_lt (Nat.pos_of_ne_zero hm0) hm
  rw [widenKey, widenKey]
  -- numbers of the same sign are ordered like their magnitudes, or the other way round
  by_cases hk : k < 0
  · rw [if_pos hk]
    by_cases hk' : k' < 0
    · rw [if_pos hk']
      have := widenMag_lt (show k'.natAbs < k.natAbs by omega) h
      omega
    · rw [if_neg hk']
      have := hpos k.natAbs h (by omega)
      omega
  · rw [if_neg hk, if_neg (by omega)]
    have := widenMag_lt (show k.natAbs < k'.natAbs by omega) h'
    omega

theorem natAbs_key_le (hx : ¬IsNaN x) : (key x).natAbs ≤ infMag 32 := by
  have hm : mag x ≤ infMag 32 := Nat.le_of_not_lt hx
  rw [key]
  split <;> omega

/-- The conversion to `double` preserves the order. -/
theorem lt_widen (hx : ¬IsNaN x) (hy : ¬IsNaN y) : lt (widen x) (widen y) = lt x y := by
  have hiff : key (widen x) < key (widen y) ↔ key x < key y := by
    rw [key_widen hx, key_widen hy]
    rcases Int.lt_trichotomy (key x) (key y) with h | h | h
    · exact iff_of_true (widenKey_lt h (natAbs_key_le hx) (natAbs_key_le hy)) h
    · rw [h]
      exact iff_of_false (Int.lt_irrefl _) (Int.lt_irrefl _)
    · have hlt := widenKey_lt h (natAbs_key_le hy) (natAbs_key_le hx)
      exact iff_of_false (by omega) (by omega)
  rw [lt, lt, decide_eq_false hx, decide_eq_false hy, decide_eq_false (isNaN_widen hx),
    decide_eq_false (isNaN_widen hy), decide_eq_decide.mpr hiff]

end Widen

end Ieee
