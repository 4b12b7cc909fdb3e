import Mathlib.Data.Nat.Notation
import Mathlib.Logic.Basic

/-!
# Arrays of bits in arrays of bytes

The bits of an array of bytes are numbered from the lowest bit of the first byte.

## Main definitions

* `BitArray.bit`, `BitArray.set` — read and write a bit.
* `BitArray.copyDown` — copy bits from one array to another, from the highest one down.

## Main results

* `BitArray.bit_set` — what is read after a write.
* `BitArray.bit_copyDown` — what is read after copying.
* `BitArray.ext_bits` — arrays with the same bits.
-/

namespace BitArray

variable {size size' : ℕ}

/-- The byte with the bit. -/
def byte (arr : Vector (BitVec 8) size) (n : ℕ) : BitVec 8 := arr[n / 8]?.getD 0

/-- A bit of an array of bytes. -/
def bit (arr : Vector (BitVec 8) size) (n : ℕ) : Bool := (byte arr n).getLsbD (n % 8)

/-- Write a bit of an array of bytes: it is cleared, and set again. -/
def set (arr : Vector (BitVec 8) size) (n : ℕ) (b : Bool) : Vector (BitVec 8) size :=
  arr.setIfInBounds (n / 8)
    (byte arr n &&& ~~~(1#8 <<< (n % 8)) ||| (if b then 1#8 else 0#8) <<< (n % 8))

/-- A byte after one of its bits has been written. -/
theorem getLsbD_set (x : BitVec 8) {n m : ℕ} (hm : m < 8) (b : Bool) :
    (x &&& ~~~(1#8 <<< n) ||| (if b then 1#8 else 0#8) <<< n).getLsbD m
      = if m = n then b else x.getLsbD m := by
  have hone : ∀ k, (1#8).getLsbD k = decide (k = 0) := by
    intro k
    rw [BitVec.getLsbD_one]
    simp
  simp only [BitVec.getLsbD_or, BitVec.getLsbD_and, BitVec.getLsbD_not, BitVec.getLsbD_shiftLeft,
    hone, apply_ite (fun y : BitVec 8 => y.getLsbD (m - n)), BitVec.getLsbD_zero]
  by_cases hmn : m = n
  · subst hmn
    cases b <;> simp [hm]
  · by_cases hlt : m < n
    · simp [hm, hlt, hmn]
    · have hsub : m - n ≠ 0 := by omega
      cases b <;> simp [hm, hsub, hmn]

/-- **What is read after a write.** -/
theorem bit_set (arr : Vector (BitVec 8) size) {n : ℕ} (hn : n < 8 * size) (m : ℕ) (b : Bool) :
    bit (set arr n b) m = if m = n then b else bit arr m := by
  unfold bit set byte
  by_cases hbyte : m / 8 = n / 8
  · rw [hbyte, Vector.getElem?_setIfInBounds_self_of_lt (by omega), Option.getD_some,
      getLsbD_set _ (Nat.mod_lt _ (by decide))]
    have hiff : m % 8 = n % 8 ↔ m = n := by omega
    simp only [hiff]
  · have hne : m ≠ n := fun h => hbyte (by rw [h])
    rw [Vector.getElem?_setIfInBounds_ne (Ne.symm hbyte), if_neg hne]

/-- Arrays with the same bits. -/
theorem ext_bits {arr arr' : Vector (BitVec 8) size}
    (h : ∀ m < 8 * size, bit arr m = bit arr' m) : arr = arr' := by
  refine Vector.ext fun i hi => BitVec.eq_of_getLsbD_eq fun j hj => ?_
  have hbit := h (8 * i + j) (by omega)
  unfold bit byte at hbit
  rw [show (8 * i + j) / 8 = i by omega, show (8 * i + j) % 8 = j by omega,
    Vector.getElem?_eq_getElem hi, Vector.getElem?_eq_getElem hi] at hbit
  exact hbit

/-- Copy bits from one array to another, from the bits `i` and `j` downwards. -/
def copyDown (src : Vector (BitVec 8) size) :
    ℕ → ℕ → ℕ → Vector (BitVec 8) size' → Vector (BitVec 8) size'
  | 0, _, _, dst => dst
  | count + 1, i, j, dst => copyDown src count (i - 1) (j - 1) (set dst j (bit src i))

/-- **What is read after copying.** -/
theorem bit_copyDown (src : Vector (BitVec 8) size) (dst : Vector (BitVec 8) size')
    {count i j : ℕ} (hi : count ≤ i + 1) (hcount : count ≤ j + 1) (hj : j < 8 * size') (m : ℕ) :
    bit (copyDown src count i j dst) m
      = if j + 1 - count ≤ m ∧ m ≤ j then bit src (i + m - j) else bit dst m := by
  induction count generalizing i j dst with
  | zero => rw [copyDown, if_neg (by omega)]
  | succ count ih =>
    rw [copyDown]
    rcases Nat.eq_zero_or_pos count with rfl | hpos
    · -- a single bit
      rw [copyDown, bit_set dst hj]
      by_cases hm : m = j
      · rw [if_pos hm, if_pos (by omega), hm, Nat.add_sub_cancel]
      · rw [if_neg hm, if_neg (by omega)]
    · rw [ih _ (by omega) (by omega) (by omega), bit_set dst hj]
      by_cases hm : m = j
      · rw [if_pos hm, if_neg (by omega), if_pos (by omega), hm, Nat.add_sub_cancel]
      · rw [if_neg hm]
        by_cases hin : j - 1 + 1 - count ≤ m ∧ m ≤ j - 1
        · rw [if_pos hin, if_pos (by omega), show i - 1 + m - (j - 1) = i + m - j by omega]
        · rw [if_neg hin, if_neg (by omega)]

end BitArray
