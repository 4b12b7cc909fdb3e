import Mathlib.Data.List.Range
import Mathlib.Tactic.Ring

/-!
# Maps from machine addresses

Address arithmetic is modulo the word size, so a range of addresses may run over the
end of the address space.  An address `x` is in the range of `n` elements from `a` if
`x - a` is below `n`.

## Main definitions

* `ByteMap.overlay` — overwrite a range of addresses.
* `ByteMap.read` — the elements in a range of addresses.

## Main results

* `overlay_append`, `read_append` — a range is processed piece by piece.
* `sub_toNat_lt_iff` — a range that ends in the address space is an interval.
-/

namespace ByteMap

variable {w : ℕ} {α : Type*}

/-- Overwrite the `n` elements from address `a` on. -/
def overlay (M : BitVec w → α) (a : BitVec w) (n : ℕ) (p : ℕ → α) : BitVec w → α := fun x =>
  if (x - a).toNat < n then p (x - a).toNat else M x

/-- The `n` elements from address `a` on. -/
def read (M : BitVec w → α) (a : BitVec w) (n : ℕ) : List α :=
  (List.range n).map fun j => M (a + BitVec.ofNat w j)

@[simp] theorem overlay_zero (M : BitVec w → α) (a : BitVec w) (p : ℕ → α) :
    overlay M a 0 p = M := by
  funext x
  simp [overlay]

@[simp] theorem length_read (M : BitVec w → α) (a : BitVec w) (n : ℕ) : (read M a n).length = n := by
  simp [read]

/-- The offset of an address behind the first `n` elements. -/
theorem toNat_sub_add_ofNat (x a : BitVec w) {n : ℕ} (hn : n < 2 ^ w) :
    (x - (a + BitVec.ofNat w n)).toNat
      = if n ≤ (x - a).toNat then (x - a).toNat - n else (x - a).toNat + 2 ^ w - n := by
  have hlt : (x - a).toNat < 2 ^ w := (x - a).isLt
  have hsub : x - (a + BitVec.ofNat w n) = (x - a) - BitVec.ofNat w n := by
    rw [BitVec.sub_sub]
  rw [hsub, BitVec.toNat_sub, BitVec.toNat_ofNat, Nat.mod_eq_of_lt hn]
  split
  · next h =>
    rw [show 2 ^ w - n + (x - a).toNat = (x - a).toNat - n + 2 ^ w by omega, Nat.add_mod_right,
      Nat.mod_eq_of_lt (by omega)]
  · next h => rw [Nat.mod_eq_of_lt (by omega)]; omega

/-- **A range is overwritten piece by piece.** -/
theorem overlay_append (M : BitVec w → α) (a : BitVec w) {n m : ℕ} (p : ℕ → α)
    (h : n + m ≤ 2 ^ w) (hm : 0 < m) :
    overlay (overlay M a n p) (a + BitVec.ofNat w n) m (fun j => p (n + j))
      = overlay M a (n + m) p := by
  funext x
  have hlt : (x - a).toNat < 2 ^ w := (x - a).isLt
  have hoff := toNat_sub_add_ofNat x a (show n < 2 ^ w by omega)
  unfold overlay
  by_cases hn : n ≤ (x - a).toNat
  · rw [if_pos hn] at hoff
    rw [hoff]
    by_cases hx : (x - a).toNat < n + m
    · rw [if_pos (by omega), if_pos hx]
      exact congrArg p (by omega)
    · rw [if_neg (by omega), if_neg (by omega), if_neg hx]
  · -- before the second piece; the offset from there wraps around
    rw [if_neg hn] at hoff
    rw [hoff, if_neg (by omega), if_pos (by omega), if_pos (by omega)]

/-- **A range is read piece by piece.** -/
theorem read_append (M : BitVec w → α) (a : BitVec w) (n m : ℕ) :
    read M a (n + m) = read M a n ++ read M (a + BitVec.ofNat w n) m := by
  unfold read
  rw [List.range_add, List.map_append, List.map_map]
  congr 1
  refine List.map_congr_left fun j _ => ?_
  rw [Function.comp_apply, BitVec.ofNat_add, BitVec.add_assoc]

/-- What is read from the beginning of an overwritten range. -/
theorem read_overlay (M : BitVec w → α) (a : BitVec w) {n k : ℕ} (p : ℕ → α) (hk : k ≤ n)
    (h : n ≤ 2 ^ w) : read (overlay M a n p) a k = (List.range k).map p := by
  refine List.map_congr_left fun j hj => ?_
  have hj' : j < k := List.mem_range.mp hj
  have hoff : (a + BitVec.ofNat w j - a).toNat = j := by
    rw [BitVec.add_comm, BitVec.add_sub_cancel, BitVec.toNat_ofNat, Nat.mod_eq_of_lt (by omega)]
  unfold overlay
  rw [hoff, if_pos (by omega)]

/-- The beginning of a range. -/
theorem take_read (M : BitVec w → α) (a : BitVec w) {n k : ℕ} (hk : k ≤ n) :
    (read M a n).take k = read M a k := by
  rw [show n = k + (n - k) by omega, read_append, List.take_left' (length_read M a k)]

/-- A range that ends in the address space is an interval. -/
theorem sub_toNat_lt_iff {a x : BitVec w} {n : ℕ} (h : a.toNat + n ≤ 2 ^ w) :
    (x - a).toNat < n ↔ a.toNat ≤ x.toNat ∧ x.toNat < a.toNat + n := by
  have hx : x.toNat < 2 ^ w := x.isLt
  rw [BitVec.toNat_sub]
  by_cases hle : a.toNat ≤ x.toNat
  · rw [show 2 ^ w - a.toNat + x.toNat = x.toNat - a.toNat + 2 ^ w by omega, Nat.add_mod_right,
      Nat.mod_eq_of_lt (by omega)]
    omega
  · rw [Nat.mod_eq_of_lt (by omega)]
    omega

/-- The offset in an interval. -/
theorem toNat_sub_of_toNat_le {a x : BitVec w} (h : a.toNat ≤ x.toNat) :
    (x - a).toNat = x.toNat - a.toNat :=
  BitVec.toNat_sub_of_le (BitVec.le_def.mpr h)

end ByteMap
