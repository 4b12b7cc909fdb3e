import Mathlib.Data.BitVec
import Mathlib.Data.List.Basic

/-!
# Chunks of a sequence

A sequence of `m` elements is processed in chunks of `B` elements.  All chunks are full,
except for a last one with `m % B` elements, which may be empty.  The sizes are computed
in machine words.

## Main definitions

* `Chunks.length` — the number of elements in a chunk.
* `Chunks.count` — the same, in machine words.

## Main results

* `Chunks.toNat_count` — nothing wraps around.
* `Chunks.flatMap_range` — the chunks make up the sequence.
-/

namespace Chunks

/-- The number of elements in the chunk number `c`. -/
def length (m B c : ℕ) : ℕ := if c = m / B then m % B else B

section Nat

variable {m B c : ℕ}

theorem length_le (hB : 0 < B) : length m B c ≤ B := by
  unfold length
  split
  · exact (Nat.mod_lt m hB).le
  · exact le_rfl

/-- A chunk does not reach beyond the sequence. -/
theorem mul_add_length_le (hc : c ≤ m / B) : c * B + length m B c ≤ m := by
  have hdm := Nat.div_add_mod' m B
  unfold length
  split
  · next h => rw [h]; omega
  · next h =>
    have hmul := Nat.mul_le_mul_right B (show c + 1 ≤ m / B by omega)
    rw [Nat.add_mul] at hmul
    omega

/-- **The chunks make up the sequence.** -/
theorem flatMap_range (m B : ℕ) :
    (List.range (m / B + 1)).flatMap (fun c => (List.range (length m B c)).map (c * B + ·))
      = List.range m := by
  have hfull : ∀ p ≤ m / B, (List.range p).flatMap
      (fun c => (List.range (length m B c)).map (c * B + ·)) = List.range (p * B) := by
    intro p
    induction p with
    | zero => intro _; simp
    | succ p ih =>
      intro hp
      have hne : p ≠ m / B := by omega
      rw [List.range_succ, List.flatMap_append, ih (by omega), List.flatMap_singleton, length,
        if_neg hne, Nat.add_mul, Nat.one_mul, List.range_add]
  rw [List.range_succ, List.flatMap_append, hfull _ le_rfl, List.flatMap_singleton, length,
    if_pos rfl, ← List.range_add, Nat.div_add_mod']

end Nat

section Words

variable {w : ℕ} (B blocks : BitVec w)

/-- The number of elements in a chunk, where the number of chunks is `blocks / B + 1`. -/
def count (chunk : BitVec w) : BitVec w :=
  if chunk = blocks / B + 1 - 1 then blocks - (blocks / B + 1 - 1) * B else B

variable {B} {m c : ℕ}

/-- The position of a chunk, without wrap-around. -/
theorem toNat_mul (hm : m < 2 ^ w) (hc : c ≤ m / B.toNat) :
    (BitVec.ofNat w c * B).toNat = c * B.toNat := by
  have hmul : c * B.toNat ≤ m := (Nat.mul_le_mul_right _ hc).trans (Nat.div_mul_le_self _ _)
  have hcm : c ≤ m := hc.trans (Nat.div_le_self _ _)
  rw [BitVec.toNat_mul, BitVec.toNat_ofNat, Nat.mod_eq_of_lt (hcm.trans_lt hm),
    Nat.mod_eq_of_lt (hmul.trans_lt hm)]

variable {blocks}

/-- **The number of elements in a chunk**, without wrap-around. -/
theorem toNat_count (hblocks : blocks.toNat = m) (hc : c ≤ m / B.toNat) :
    (count B blocks (BitVec.ofNat w c)).toNat = length m B.toNat c := by
  have hm : m < 2 ^ w := hblocks ▸ blocks.isLt
  have hdiv : (blocks / B).toNat = m / B.toNat := by rw [BitVec.toNat_udiv, hblocks]
  have hcm : c < 2 ^ w := (hc.trans (Nat.div_le_self _ _)).trans_lt hm
  have heq : BitVec.ofNat w c = blocks / B ↔ c = m / B.toNat := by
    rw [← hdiv, ← BitVec.toNat_inj, BitVec.toNat_ofNat, Nat.mod_eq_of_lt hcm]
  have hlast : (blocks - blocks / B * B).toNat = m % B.toNat := by
    have hself : blocks / B = BitVec.ofNat w (m / B.toNat) := by
      rw [← hdiv, BitVec.ofNat_toNat, BitVec.setWidth_eq]
    have hmul := toNat_mul hm (B := B) (c := m / B.toNat) le_rfl
    have hdm := Nat.div_add_mod' m B.toNat
    have hle : m / B.toNat * B.toNat ≤ m := Nat.div_mul_le_self _ _
    rw [hself, BitVec.toNat_sub_of_le, hmul, hblocks]
    · omega
    · rw [BitVec.le_def, hmul, hblocks]
      exact hle
  simp only [count, BitVec.add_sub_cancel, heq, length]
  split
  · exact hlast
  · rfl

end Words

end Chunks
