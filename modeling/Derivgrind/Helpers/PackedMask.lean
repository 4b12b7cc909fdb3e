import Derivgrind.Helpers.SignMask
import Derivgrind.Tape.Activity

/-!
# Neutral masks and packed numbers

A 64-bit operand may hold two numbers in single precision, with a shadow each.  The
handlers try a 64-bit operation first, and then both halves.  They recognise the neutral
masks of "and" and "or", but not the one of "xor".

## Main definitions

* `BitwiseOp.packedMask` — masks with the sign mask or the neutral mask in both halves.
* `EvaluatesTo` — the derivatives of both halves of a result, by evaluation of the tape.

## Main results

* `neutralMask_spec` — **what the handlers do with neutral masks.**
* `packedMask_spec` — **what the handlers do with packed pairs of numbers.**
-/

namespace Derivgrind

open Ieee

/-- The operands that look like masks. -/
def BitwiseOp.isMask (y : BitVec 64) : BitwiseOp → Bool
  | .and => y = signBit 64 - 1 || y = -1
  | .or => y = signBit 64 || y = 0
  | .xor => y = signBit 64

/-! ### Neutral masks -/

section Neutral

variable {w : ℕ} {op : BitwiseOp} {y : BitVec w}

/-- The neutral masks of "and" and "or" are recognised in forward mode. -/
theorem dotHandle_neutralMask (hw : w = 32 ∨ w = 64) (hop : op ≠ .xor)
    (hsign : y ≠ op.signMask w) (hneutral : y ≠ op.neutralMask w) (yd : BitVec w) :
    op.dotHandle (op.neutralMask w) 0 y yd = some yd ∧
      op.dotHandle y yd (op.neutralMask w) 0 = some yd := by
  have hmasks : (-1 : BitVec w) ≠ signBit w - 1 ∧ (0 : BitVec w) ≠ signBit w := by
    rcases hw with rfl | rfl <;> decide
  cases op with
  | and =>
    apply orElse_eq_some_of
    · rw [BitwiseOp.neutralMask, dotHandleAnd, if_neg hmasks.1, if_pos rfl]
    · left
      exact (if_neg hsign).trans (if_neg hneutral)
  | or =>
    apply orElse_eq_some_of
    · rw [BitwiseOp.neutralMask, dotHandleOr, if_neg fun h => hmasks.2 h.1, if_pos ⟨rfl, rfl⟩]
    · left
      rw [dotHandleOr, if_neg fun h => hsign h.1, if_neg fun h => hneutral h.1]
  | xor => exact absurd rfl hop

/-- The neutral masks of "and" and "or" are recognised in recording mode. -/
theorem handle_neutralMask (hw : w = 32 ∨ w = 64) (hop : op ≠ .xor)
    (hsign : y ≠ op.signMask w) (hneutral : y ≠ op.neutralMask w) (yiLo yiHi : BitVec w) :
    op.handle .b (op.neutralMask w) 0 0 y yiLo yiHi = some (copyIndex yiLo yiHi) ∧
      op.handle .b y yiLo yiHi (op.neutralMask w) 0 0 = some (copyIndex yiLo yiHi) := by
  have hmasks : (-1 : BitVec w) ≠ signBit w - 1 ∧ (0 : BitVec w) ≠ signBit w := by
    rcases hw with rfl | rfl <;> decide
  have hzeroIndex : zeroIndex (0 : BitVec w) 0 = true := by simp [zeroIndex]
  cases op with
  | and =>
    apply orElse_eq_some_of
    · rw [BitwiseOp.neutralMask, handleAnd, if_neg hmasks.1, if_pos rfl]
    · left
      exact (if_neg hsign).trans (if_neg hneutral)
  | or =>
    apply orElse_eq_some_of
    · rw [BitwiseOp.neutralMask, handleOr, if_neg fun h => hmasks.2 h.1,
        if_pos ⟨rfl, hzeroIndex⟩]
    · left
      rw [handleOr, if_neg fun h => hsign h.1, if_neg fun h => hneutral h.1]
  | xor => exact absurd rfl hop

/-- A "xor" with zero is not recognised in forward mode; an operand that looks like the sign
mask is taken for it. -/
theorem dotHandle_xor_zero (hw : w = 32 ∨ w = 64) (yd : BitVec w) :
    BitwiseOp.xor.dotHandle 0 0 y yd
        = (if y = signBit w ∧ yd = 0 then some (signBit w) else none) ∧
      BitwiseOp.xor.dotHandle y yd 0 0
        = (if y = signBit w ∧ yd = 0 then some (signBit w) else none) := by
  have hmask : ¬((0 : BitVec w) = signBit w ∧ (0 : BitVec w) = 0) := fun h =>
    signBit_ne_zero hw h.1.symm
  have hneg : neg (0 : BitVec w) = signBit w := by
    rcases hw with rfl | rfl <;> decide
  have hnone : dotHandleXor 0 0 y yd = none := if_neg hmask
  simp only [BitwiseOp.dotHandle, hnone]
  by_cases h : y = signBit w ∧ yd = 0
  · rw [if_pos h, dotHandleXor, if_pos h, hneg]
    exact ⟨rfl, rfl⟩
  · rw [if_neg h, dotHandleXor, if_neg h]
    exact ⟨rfl, rfl⟩

/-- A "xor" with zero is not recognised in recording mode. -/
theorem handle_xor_zero (hw : w = 32 ∨ w = 64) (yiLo yiHi : BitVec w) :
    BitwiseOp.xor.handle .b 0 0 0 y yiLo yiHi
        = (if y = signBit w ∧ zeroIndex yiLo yiHi = true then
            some (minusIndex (0 : BitVec w) 0 0) else none) ∧
      BitwiseOp.xor.handle .b y yiLo yiHi 0 0 0
        = (if y = signBit w ∧ zeroIndex yiLo yiHi = true then
            some (minusIndex (0 : BitVec w) 0 0) else none) := by
  have hmask : ¬((0 : BitVec w) = signBit w ∧ zeroIndex (0 : BitVec w) 0 = true) := fun h =>
    signBit_ne_zero hw h.1.symm
  have hmode : ¬(Mode.b = Mode.t) := by decide
  have hnone : handleXor .b (0 : BitVec w) 0 0 y yiLo yiHi = none := by
    rw [handleXor, if_neg hmask, if_neg fun h => hmode h.1]
  simp only [BitwiseOp.handle, hnone]
  by_cases h : y = signBit w ∧ zeroIndex yiLo yiHi = true
  · rw [if_pos h, handleXor, if_pos h]
    exact ⟨rfl, rfl⟩
  · rw [if_neg h, handleXor, if_neg h, if_neg fun h => hmode h.1]
    exact ⟨rfl, rfl⟩

end Neutral

section NeutralHandlers

variable {o : TapeOptions} {tid : ThreadId} {s : BarState}

/-- Minus a number without index has no index. -/
theorem perform_minus_zero (htype : o.typegrind = false) (width : ℕ) (value : ULong) :
    (BitwiseAction.minus 0 value).perform o tid width s
      = some { s with bitwiseOut := { s.bitwiseOut with w0 := 0, w2 := 0 } } := by
  simp [BitwiseAction.perform, Request.perform, Request.add, minusRequest, tapeAddStatement, htype]

/-- A "xor" of one half with zero has no index. -/
theorem handler32_xor_zero (htype : o.typegrind = false) (tid : ThreadId) (y yiLo yiHi : BitVec 32) :
    (∃ s', BitwiseOp.xor.handler32 o .b tid 0 0 0 y yiLo yiHi s = some s' ∧ s'.tape = s.tape ∧
      s'.bitwiseOut.w0 = 0 ∧ s'.bitwiseOut.w2 = 0) ∧
    (∃ s', BitwiseOp.xor.handler32 o .b tid y yiLo yiHi 0 0 0 s = some s' ∧ s'.tape = s.tape ∧
      s'.bitwiseOut.w0 = 0 ∧ s'.bitwiseOut.w2 = 0) := by
  have hminus : ∀ value, (BitwiseAction.minus 0 value).perform o tid 32 s = _ :=
    perform_minus_zero htype 32
  have hindex : ∃ value, minusIndex (0 : BitVec 32) 0 0 = .minus 0 value := ⟨_, rfl⟩
  obtain ⟨value, hvalue⟩ := hindex
  have hout : ∀ xiLo yiLo : BitVec 32, unrecognised o .b xiLo yiLo = ⟨0, 0, 0, 0⟩ := by
    intro xiLo yiLo
    simp [unrecognised, htype]
  obtain ⟨hfirst, hsecond⟩ := handle_xor_zero (y := y) (Or.inl rfl) yiLo yiHi
  simp only [BitwiseOp.handler32, hfirst, hsecond]
  by_cases h : y = signBit 32 ∧ zeroIndex yiLo yiHi = true
  · simp only [if_pos h, hvalue, hminus]
    exact ⟨⟨_, rfl, rfl, rfl, rfl⟩, ⟨_, rfl, rfl, rfl, rfl⟩⟩
  · simp only [if_neg h, hout]
    exact ⟨⟨_, rfl, rfl, rfl, rfl⟩, ⟨_, rfl, rfl, rfl, rfl⟩⟩

theorem upperHalf_zero : upperHalf 0 = 0 := by decide

theorem lowerHalf_zero : lowerHalf 0 = 0 := by decide

/-- A "xor" of both halves with zero has no index. -/
theorem barMasked_xor_zero (htype : o.typegrind = false) (maskFirst : Bool)
    {y : BitVec 64} (hy : y ≠ signBit 64) (yiLo yiHi : BitVec 64) :
    ∃ s', BitwiseOp.xor.barMasked o tid maskFirst 0 y yiLo yiHi s = some s' ∧
      s'.tape = s.tape ∧ s'.bitwiseGetLower = 0 ∧ s'.bitwiseGetHigher = 0 := by
  obtain ⟨hfirst, hsecond⟩ := handle_xor_zero (y := y) (Or.inr rfl) yiLo yiHi
  rw [if_neg fun h => hy h.1] at hfirst hsecond
  cases maskFirst with
  | true =>
    obtain ⟨s₁, hs₁, htape₁, h₁₀, h₁₂⟩ := (handler32_xor_zero (s := s) htype tid
      (upperHalf y) (upperHalf yiLo) (upperHalf yiHi)).1
    obtain ⟨s₂, hs₂, htape₂, h₂₀, h₂₂⟩ := (handler32_xor_zero (s := s₁) htype tid
      (lowerHalf y) (lowerHalf yiLo) (lowerHalf yiHi)).1
    simp only [BitwiseOp.barMasked, BitwiseOp.handler64, if_true, hfirst, upperHalf_zero,
      lowerHalf_zero, hs₁, hs₂, Option.bind_eq_bind, Option.bind_some]
    refine ⟨_, rfl, htape₂.trans htape₁, ?_, ?_⟩
    · simp [BarState.bitwiseGetLower, h₁₀, h₂₀]
    · simp [BarState.bitwiseGetHigher, h₁₂, h₂₂]
  | false =>
    obtain ⟨s₁, hs₁, htape₁, h₁₀, h₁₂⟩ := (handler32_xor_zero (s := s) htype tid
      (upperHalf y) (upperHalf yiLo) (upperHalf yiHi)).2
    obtain ⟨s₂, hs₂, htape₂, h₂₀, h₂₂⟩ := (handler32_xor_zero (s := s₁) htype tid
      (lowerHalf y) (lowerHalf yiLo) (lowerHalf yiHi)).2
    simp only [BitwiseOp.barMasked, BitwiseOp.handler64, Bool.false_eq_true, if_false, hsecond,
      upperHalf_zero, lowerHalf_zero, hs₁, hs₂, Option.bind_eq_bind, Option.bind_some]
    refine ⟨_, rfl, htape₂.trans htape₁, ?_, ?_⟩
    · simp [BarState.bitwiseGetLower, h₁₀, h₂₀]
    · simp [BarState.bitwiseGetHigher, h₁₂, h₂₂]

end NeutralHandlers

/-- What the forward-mode handler of "xor" makes of one half of an operand, if the other
operand is zero: a zero. -/
def xorZeroDot (y yd : BitVec 32) : BitVec 32 :=
  if y = signBit 32 ∧ yd = 0 then signBit 32 else 0

theorem dotMasked_xor_zero (maskFirst : Bool) {y : BitVec 64} (hy : y ≠ signBit 64)
    (yd : BitVec 64) : BitwiseOp.xor.dotMasked maskFirst 0 y yd
      = xorZeroDot (upperHalf y) (upperHalf yd) ++ xorZeroDot (lowerHalf y) (lowerHalf yd) := by
  obtain ⟨hfirst, hsecond⟩ := dotHandle_xor_zero (y := y) (Or.inr rfl) yd
  rw [if_neg fun h => hy h.1] at hfirst hsecond
  have hhalf : ∀ x xd : BitVec 32, BitwiseOp.xor.dot32 0 0 x xd = xorZeroDot x xd ∧
      BitwiseOp.xor.dot32 x xd 0 0 = xorZeroDot x xd := by
    intro x xd
    obtain ⟨h₁, h₂⟩ := dotHandle_xor_zero (y := x) (Or.inl rfl) xd
    simp only [BitwiseOp.dot32, h₁, h₂, xorZeroDot]
    constructor <;> split <;> rfl
  cases maskFirst with
  | true => simp only [BitwiseOp.dotMasked, BitwiseOp.dot64, if_true, hfirst, upperHalf_zero,
      lowerHalf_zero, hhalf]
  | false => simp only [BitwiseOp.dotMasked, BitwiseOp.dot64, Bool.false_eq_true, if_false,
      hsecond, upperHalf_zero, lowerHalf_zero, hhalf]

/-- **Neutral masks.**  "And" with ones and "or" with zeros keep all bytes of the dot value, and
the low four bytes of both layers of the index.  "Xor" with zeros is not among the operations
that are recognised: the result has no index, and its dot value is zero in both halves. -/
theorem neutralMask_spec (op : BitwiseOp) (maskFirst : Bool) (o : TapeOptions)
    (htype : o.typegrind = false) (tid : ThreadId) (s : BarState) (y yd yiLo yiHi : BitVec 64)
    (hy : op.isMask y = false) :
    (op ≠ .xor → op.dotMasked maskFirst (op.neutralMask 64) y yd = yd ∧
      ∃ s', op.barMasked o tid maskFirst (op.neutralMask 64) y yiLo yiHi s = some s' ∧
        s'.tape = s.tape ∧ lowerHalf s'.bitwiseGetLower = lowerHalf yiLo ∧
        lowerHalf s'.bitwiseGetHigher = lowerHalf yiHi) ∧
    (op = .xor →
      op.dotMasked maskFirst (op.neutralMask 64) y yd
        = xorZeroDot (upperHalf y) (upperHalf yd) ++ xorZeroDot (lowerHalf y) (lowerHalf yd) ∧
      ∃ s', op.barMasked o tid maskFirst (op.neutralMask 64) y yiLo yiHi s = some s' ∧
        s'.tape = s.tape ∧ s'.bitwiseGetLower = 0 ∧ s'.bitwiseGetHigher = 0) := by
  constructor
  · intro hop
    have hne : y ≠ op.signMask 64 ∧ y ≠ op.neutralMask 64 := by
      cases op with
      | and => simpa [BitwiseOp.isMask, BitwiseOp.signMask, BitwiseOp.neutralMask] using hy
      | or => simpa [BitwiseOp.isMask, BitwiseOp.signMask, BitwiseOp.neutralMask] using hy
      | xor => exact absurd rfl hop
    obtain ⟨hdot₁, hdot₂⟩ := dotHandle_neutralMask (Or.inr rfl) hop hne.1 hne.2 yd
    obtain ⟨hbar₁, hbar₂⟩ := handle_neutralMask (Or.inr rfl) hop hne.1 hne.2 yiLo yiHi
    have hcopy : ∃ s', (copyIndex yiLo yiHi).perform o tid 64 s = some s' ∧ s'.tape = s.tape ∧
        lowerHalf s'.bitwiseGetLower = lowerHalf yiLo ∧
        lowerHalf s'.bitwiseGetHigher = lowerHalf yiHi := by
      refine ⟨_, rfl, rfl, ?_, ?_⟩
      · exact lowerHalf_append _ _
      · exact lowerHalf_append _ _
    cases maskFirst with
    | true =>
      simp only [BitwiseOp.dotMasked, BitwiseOp.dot64, BitwiseOp.barMasked, BitwiseOp.handler64,
        if_true, hdot₁, hbar₁]
      exact ⟨trivial, hcopy⟩
    | false =>
      simp only [BitwiseOp.dotMasked, BitwiseOp.dot64, BitwiseOp.barMasked, BitwiseOp.handler64,
        Bool.false_eq_true, if_false, hdot₂, hbar₂]
      exact ⟨trivial, hcopy⟩
  · rintro rfl
    have hne : y ≠ signBit 64 := by simpa [BitwiseOp.isMask] using hy
    exact ⟨dotMasked_xor_zero maskFirst hne yd,
      barMasked_xor_zero htype maskFirst hne yiLo yiHi⟩

/-- The theorem applies to the number one with dot value one. -/
theorem neutralMask_spec_one :
    BitwiseOp.and.dotMasked true (-1) 0x3FF0000000000000#64 0x3FF0000000000000#64
        = 0x3FF0000000000000#64 ∧
      BitwiseOp.xor.dotMasked true 0 0x3FF0000000000000#64 0x3FF0000000000000#64 = 0 := by
  have hand := (neutralMask_spec .and true plainOptions rfl 1 initialBarState
    0x3FF0000000000000#64 0x3FF0000000000000#64 5 7 (by decide)).1 (by decide)
  have hxor := (neutralMask_spec .xor true plainOptions rfl 1 initialBarState
    0x3FF0000000000000#64 0x3FF0000000000000#64 5 7 (by decide)).2 rfl
  exact ⟨hand.1, hxor.1.trans (by decide)⟩

/-- A "xor" with zero does not keep the derivative of the number one. -/
theorem not_kept_by_xor_zero : BitwiseOp.xor.isMask 0x3FF0000000000000#64 = false ∧
    BitwiseOp.xor.dotMasked true (BitwiseOp.xor.neutralMask 64) 0x3FF0000000000000#64
      0x3FF0000000000000#64 ≠ 0x3FF0000000000000#64 := by
  decide

/-! ### Two numbers in one operand -/

/-- A nonzero number. -/
def IsLane (y : BitVec 32) : Prop := ¬IsNaN y ∧ mag y ≠ 0

instance (y : BitVec 32) : Decidable (IsLane y) := inferInstanceAs (Decidable (_ ∧ _))

/-- The mask of one half: the sign mask or the neutral mask. -/
def BitwiseOp.laneMask (op : BitwiseOp) (sign : Bool) : BitVec 32 :=
  if sign then op.signMask 32 else op.neutralMask 32

/-- The mask of both halves. -/
def BitwiseOp.packedMask (op : BitwiseOp) (signUpper signLower : Bool) : BitVec 64 :=
  op.laneMask signUpper ++ op.laneMask signLower

/-- The dot value of one half of the result: negated if the sign mask negates the number. -/
def BitwiseOp.laneDot (op : BitwiseOp) (sign : Bool) (y d : BitVec 32) : BitVec 32 :=
  if sign && op.negates y then neg d else d

section Lanes

variable {op : BitwiseOp} {y1 y0 : BitVec 32}

theorem toNat_append (a b : BitVec 32) : (a ++ b).toNat = a.toNat * 2 ^ 32 + b.toNat := by
  have hb := b.isLt
  rw [BitVec.toNat_append, Nat.shiftLeft_eq, Nat.mul_comm, Nat.two_pow_add_eq_or_of_lt hb]

/-- The magnitude of both halves, as one number. -/
theorem mag_append (a b : BitVec 32) : mag (a ++ b) = mag a * 2 ^ 32 + b.toNat := by
  have hb := b.isLt
  unfold mag
  rw [toNat_append]
  omega

theorem msb_append (a b : BitVec 32) : (a ++ b).msb = a.msb := by
  have ha := a.isLt
  have hb := b.isLt
  rw [BitVec.msb_eq_decide, BitVec.msb_eq_decide, toNat_append, decide_eq_decide]
  omega

/-- Two numbers are not NaN as one number in double precision. -/
theorem not_isNaN_append (h : ¬IsNaN y1) (y0 : BitVec 32) : ¬IsNaN (y1 ++ y0) := by
  have hy0 := y0.isLt
  have h32 : infMag 32 = 255 * 2 ^ 23 := by decide
  have h64 : infMag (32 + 32) = 2047 * 2 ^ 52 := by decide
  unfold IsNaN at h ⊢
  rw [mag_append, h64]
  rw [h32] at h
  omega

/-- The comparison of a nonzero number with zero looks at the sign bit. -/
theorem lt_zero_eq_msb {w : ℕ} (hw : w = 32 ∨ w = 64) {y : BitVec w} (hy : ¬IsNaN y)
    (hmag : mag y ≠ 0) : lt y 0 = y.msb ∧ lt 0 y = !y.msb := by
  have hzero : ¬IsNaN (0 : BitVec w) := isNaN_zero hw
  have hkey : key (0 : BitVec w) = 0 := by rcases hw with rfl | rfl <;> decide
  simp only [lt, decide_eq_false hy, decide_eq_false hzero, Bool.not_false, Bool.true_and, hkey]
  unfold key
  cases hmsb : y.msb with
  | true =>
    rw [if_pos rfl]
    exact ⟨decide_eq_true (by omega), decide_eq_false (by omega)⟩
  | false =>
    rw [if_neg (by decide)]
    exact ⟨decide_eq_false (by omega), decide_eq_true (by omega)⟩

/-- The sign of two numbers as one number is the sign of the upper one. -/
theorem negates_append (h1 : IsLane y1) (y0 : BitVec 32) :
    op.negates (y1 ++ y0) = op.negates y1 := by
  have hmag : mag (y1 ++ y0) ≠ 0 := by
    rw [mag_append]
    have := h1.2
    omega
  have hwide := lt_zero_eq_msb (w := 64) (Or.inr rfl) (not_isNaN_append h1.1 y0) hmag
  have hlane := lt_zero_eq_msb (w := 32) (Or.inl rfl) h1.1 h1.2
  cases op with
  | and => exact (hwide.1.trans (msb_append y1 y0)).trans hlane.1.symm
  | or => exact (hwide.2.trans (by rw [msb_append])).trans hlane.2.symm
  | xor => rfl

theorem neg_append (d1 d0 : BitVec 32) : neg (d1 ++ d0) = neg d1 ++ d0 := by
  have hsign : BitVec.ofNat (32 + 32) (2 ^ (32 + 32 - 1)) = signBit 32 ++ (0 : BitVec 32) := by
    decide
  unfold neg
  rw [hsign]
  ext i hi
  simp only [BitVec.getElem_xor, BitVec.getElem_append, signBit]
  split <;> simp

/-- Nonzero numbers do not look like masks. -/
theorem IsLane.ne_masks (h : IsLane y1) (op : BitwiseOp) :
    y1 ≠ op.signMask 32 ∧ y1 ≠ op.neutralMask 32 ∧ y1 ≠ signBit 32 ∧ y1 ≠ 0 := by
  obtain ⟨hsign, hones⟩ := Derivgrind.ne_masks (Or.inl rfl) h.1
  have hbit : y1 ≠ signBit 32 := fun heq => h.2 (by rw [heq]; decide)
  have hzero : y1 ≠ 0 := fun heq => h.2 (by rw [heq]; decide)
  cases op with
  | and => exact ⟨hsign, hones, hbit, hzero⟩
  | or => exact ⟨hbit, hzero, hbit, hzero⟩
  | xor => exact ⟨hbit, hzero, hbit, hzero⟩

/-- The masks of 64 bits, by halves. -/
theorem masks_append : signBit 64 - 1 = (signBit 32 - 1) ++ (-1 : BitVec 32) ∧
    (-1 : BitVec 64) = (-1 : BitVec 32) ++ (-1 : BitVec 32) ∧
    signBit 64 = signBit 32 ++ (0 : BitVec 32) ∧
    (0 : BitVec 64) = (0 : BitVec 32) ++ (0 : BitVec 32) := by
  decide

theorem append_inj {a b c d : BitVec 32} (h : a ++ b = c ++ d) : a = c ∧ b = d := by
  have hupper := congrArg upperHalf h
  have hlower := congrArg lowerHalf h
  rw [upperHalf_append, upperHalf_append] at hupper
  rw [lowerHalf_append, lowerHalf_append] at hlower
  exact ⟨hupper, hlower⟩

@[simp] theorem upperHalf_packedMask (op : BitwiseOp) (signUpper signLower : Bool) :
    upperHalf (op.packedMask signUpper signLower) = op.laneMask signUpper := upperHalf_append _ _

@[simp] theorem lowerHalf_packedMask (op : BitwiseOp) (signUpper signLower : Bool) :
    lowerHalf (op.packedMask signUpper signLower) = op.laneMask signLower := lowerHalf_append _ _

/-- The sign mask in the upper half and the neutral mask in the lower half are the sign mask
of 64 bits. -/
theorem packedMask_sign_neutral (op : BitwiseOp) : op.packedMask true false = op.signMask 64 := by
  cases op <;> decide

/-- Operands and masks that do not look like masks of 64 bits. -/
structure NoMask (op : BitwiseOp) (x : BitVec 64) : Prop where
  sign : x ≠ op.signMask 64
  neutral : x ≠ op.neutralMask 64

theorem noMask_lanes (h1 : IsLane y1) (y0 : BitVec 32) : NoMask op (y1 ++ y0) := by
  obtain ⟨hsign, hneutral, hbit, hzero⟩ := h1.ne_masks op
  obtain ⟨m₁, m₂, m₃, m₄⟩ := masks_append
  cases op with
  | and =>
    exact ⟨fun h => hsign (append_inj (h.trans m₁)).1, fun h => hneutral (append_inj (h.trans m₂)).1⟩
  | or => exact ⟨fun h => hbit (append_inj (h.trans m₃)).1, fun h => hzero (append_inj (h.trans m₄)).1⟩
  | xor => exact ⟨fun h => hbit (append_inj (h.trans m₃)).1, fun h => hzero (append_inj (h.trans m₄)).1⟩

theorem noMask_packedMask (op : BitwiseOp) (signUpper : Bool) :
    NoMask op (op.packedMask signUpper true) := by
  cases op <;> cases signUpper <;> exact ⟨by decide, by decide⟩

/-- Operands that do not look like masks are not recognised in forward mode. -/
theorem dotHandle_eq_none {x y : BitVec 64} (hx : NoMask op x) (hy : NoMask op y)
    (xd yd : BitVec 64) : op.dotHandle x xd y yd = none := by
  cases op with
  | and =>
    have hnone : ∀ {x : BitVec 64}, NoMask .and x → ∀ xd y yd, dotHandleAnd x xd y yd = none :=
      fun h _ _ _ => (if_neg h.sign).trans (if_neg h.neutral)
    rw [BitwiseOp.dotHandle, hnone hx, hnone hy]
    rfl
  | or =>
    have hnone : ∀ {x : BitVec 64}, NoMask .or x → ∀ xd y yd, dotHandleOr x xd y yd = none :=
      fun h _ _ _ => (if_neg fun hc => h.sign hc.1).trans (if_neg fun hc => h.neutral hc.1)
    rw [BitwiseOp.dotHandle, hnone hx, hnone hy]
    rfl
  | xor =>
    have hnone : ∀ {x : BitVec 64}, NoMask .xor x → ∀ xd y yd, dotHandleXor x xd y yd = none :=
      fun h _ _ _ => if_neg fun hc => h.sign hc.1
    rw [BitwiseOp.dotHandle, hnone hx, hnone hy]
    rfl

/-- Operands that do not look like masks are not recognised in recording mode. -/
theorem handle_eq_none {x y : BitVec 64} (hx : NoMask op x) (hy : NoMask op y)
    (xiLo xiHi yiLo yiHi : BitVec 64) : op.handle .b x xiLo xiHi y yiLo yiHi = none := by
  have hmode : ¬(Mode.b = Mode.t) := by decide
  cases op with
  | and =>
    have hnone : ∀ {x : BitVec 64}, NoMask .and x → ∀ xiLo xiHi y yiLo yiHi,
        handleAnd x xiLo xiHi y yiLo yiHi = none :=
      fun h _ _ _ _ _ => (if_neg h.sign).trans (if_neg h.neutral)
    rw [BitwiseOp.handle, hnone hx, hnone hy]
    rfl
  | or =>
    have hnone : ∀ {x : BitVec 64}, NoMask .or x → ∀ xiLo xiHi y yiLo yiHi,
        handleOr x xiLo xiHi y yiLo yiHi = none :=
      fun h _ _ _ _ _ => (if_neg fun hc => h.sign hc.1).trans (if_neg fun hc => h.neutral hc.1)
    rw [BitwiseOp.handle, hnone hx, hnone hy]
    rfl
  | xor =>
    have hnone : ∀ {x : BitVec 64}, NoMask .xor x → ∀ xiLo xiHi y yiLo yiHi,
        handleXor .b x xiLo xiHi y yiLo yiHi = none :=
      fun h _ _ _ _ _ => (if_neg fun hc => h.sign hc.1).trans (if_neg fun hc => hmode hc.1)
    rw [BitwiseOp.handle, hnone hx, hnone hy]
    rfl

/-- **The forward-mode handler on two numbers.** -/
theorem dotMasked_packedMask (op : BitwiseOp) (maskFirst signUpper signLower : Bool)
    (hsome : signUpper = true ∨ signLower = true) (h1 : IsLane y1) (h0 : IsLane y0)
    (d1 d0 : BitVec 32) :
    op.dotMasked maskFirst (op.packedMask signUpper signLower) (y1 ++ y0) (d1 ++ d0)
      = (if op = .xor ∧ signUpper = false then 0 else op.laneDot signUpper y1 d1)
        ++ op.laneDot signLower y0 d0 := by
  cases signLower with
  | false =>
    obtain rfl : signUpper = true := by simpa using hsome
    have hupper : ¬(op = .xor ∧ true = false) := fun h => absurd h.2 (by decide)
    rw [packedMask_sign_neutral, dotMasked_signMask op maskFirst (not_isNaN_append h1.1 y0),
      negates_append h1, neg_append, if_neg hupper]
    simp only [BitwiseOp.laneDot, Bool.true_and, Bool.false_and, Bool.false_eq_true, if_false]
    cases op.negates y1 with
    | true => simp only [if_true]
    | false => simp only [Bool.false_eq_true, if_false]
  | true =>
    have hmask := noMask_packedMask op signUpper
    have hlanes : NoMask op (y1 ++ y0) := noMask_lanes h1 y0
    -- the upper half may have the neutral mask, which "xor" does not recognise
    have hupper : op.dot32 (op.laneMask signUpper) 0 y1 d1
          = (if op = .xor ∧ signUpper = false then 0 else op.laneDot signUpper y1 d1) ∧
        op.dot32 y1 d1 (op.laneMask signUpper) 0
          = (if op = .xor ∧ signUpper = false then 0 else op.laneDot signUpper y1 d1) := by
      cases signUpper with
      | true =>
        obtain ⟨hfirst, hsecond⟩ := dotHandle_signMask (Or.inl rfl) op h1.1 d1
        simp only [BitwiseOp.dot32, BitwiseOp.laneMask, BitwiseOp.laneDot, hfirst, hsecond, if_true,
          Option.getD_some, Bool.true_and, Bool.true_eq_false, and_false, if_false, and_self]
      | false =>
        by_cases hop : op = .xor
        · subst hop
          obtain ⟨hfirst, hsecond⟩ := dotHandle_xor_zero (y := y1) (Or.inl rfl) d1
          rw [if_neg fun h => (h1.ne_masks .xor).2.2.1 h.1] at hfirst hsecond
          simp only [BitwiseOp.dot32, BitwiseOp.laneMask, BitwiseOp.neutralMask, hfirst, hsecond,
            Bool.false_eq_true, if_false, Option.getD_none, and_self, if_true]
        · obtain ⟨hsign, hneutral, -⟩ := h1.ne_masks op
          obtain ⟨hfirst, hsecond⟩ := dotHandle_neutralMask (Or.inl rfl) hop hsign hneutral d1
          simp only [BitwiseOp.dot32, BitwiseOp.laneMask, BitwiseOp.laneDot, hfirst, hsecond, hop,
            Bool.false_eq_true, if_false, Option.getD_some, false_and, Bool.false_and, and_self]
    obtain ⟨hfirst, hsecond⟩ := dotHandle_signMask (Or.inl rfl) op h0.1 d0
    have hlower : op.dot32 (op.laneMask true) 0 y0 d0 = op.laneDot true y0 d0 ∧
        op.dot32 y0 d0 (op.laneMask true) 0 = op.laneDot true y0 d0 := by
      simp only [BitwiseOp.dot32, BitwiseOp.laneMask, BitwiseOp.laneDot, hfirst, hsecond, if_true,
        Option.getD_some, Bool.true_and, and_self]
    cases maskFirst with
    | true =>
      simp only [BitwiseOp.dotMasked, BitwiseOp.dot64, if_true, dotHandle_eq_none hmask hlanes,
        upperHalf_packedMask, lowerHalf_packedMask, upperHalf_append, lowerHalf_append, upperHalf_zero, lowerHalf_zero,
        hupper.1, hlower.1]
    | false =>
      simp only [BitwiseOp.dotMasked, BitwiseOp.dot64, Bool.false_eq_true, if_false,
        dotHandle_eq_none hlanes hmask, upperHalf_packedMask, lowerHalf_packedMask, upperHalf_append, lowerHalf_append,
        upperHalf_zero, lowerHalf_zero, hupper.2, hlower.2]

end Lanes

/-! ### Two numbers on the tape -/

section Tape

variable {o : TapeOptions} {tid : ThreadId} {s s' : BarState} {op : BitwiseOp}

/-- The result of one half: "xor" does not recognise its neutral mask, and then the result has
no index. -/
structure LaneResult (o : TapeOptions) (tid : ThreadId) (op : BitwiseOp) (sign : Bool)
    (y : BitVec 32) (index : ULong) (s s' : BarState) : Prop where
  unrecognised : op = .xor → sign = false → s'.tape = s.tape ∧ s'.bitwiseIndex = 0
  recognised : ¬(op = .xor ∧ sign = false) →
    SignChange o tid index (widen (neg y)) (sign && op.negates y) s s'
  allocated : s'.tape.Allocated
  disable : s'.tape.dgDisable = s.tape.dgDisable

/-- The handler of one half. -/
theorem handler32_laneMask (op : BitwiseOp) (htype : o.typegrind = false) (hs : s.tape.Allocated)
    (hen : s.tape.dgDisable tid = 0) (sign : Bool) {y : BitVec 32} (hy : IsLane y)
    (iLo iHi : BitVec 32) :
    (∃ s', op.handler32 o .b tid (op.laneMask sign) 0 0 y iLo iHi s = some s' ∧
      LaneResult o tid op sign y (iHi ++ iLo) s s') ∧
    (∃ s', op.handler32 o .b tid y iLo iHi (op.laneMask sign) 0 0 s = some s' ∧
      LaneResult o tid op sign y (iHi ++ iLo) s s') := by
  by_cases hxor : op = .xor ∧ sign = false
  · obtain ⟨rfl, rfl⟩ := hxor
    -- The neutral mask of "xor" is zero, which is not recognised.
    have hmask : BitwiseOp.xor.laneMask false = 0 := rfl
    have hresult : ∀ s' : BarState, s'.tape = s.tape ∧ s'.bitwiseOut.w0 = 0 ∧
        s'.bitwiseOut.w2 = 0 → LaneResult o tid .xor false y (iHi ++ iLo) s s' := by
      rintro s' ⟨htape, h0, h2⟩
      refine ⟨fun _ _ => ⟨htape, ?_⟩, fun h => absurd ⟨rfl, rfl⟩ h, by rw [htape]; exact hs, by rw [htape]⟩
      rw [bitwiseIndex_eq, h0, h2]
      rfl
    obtain ⟨⟨s₁, hs₁, h₁⟩, ⟨s₂, hs₂, h₂⟩⟩ :=
      handler32_xor_zero (s := s) htype tid y iLo iHi
    rw [hmask]
    exact ⟨⟨s₁, hs₁, hresult s₁ h₁⟩, ⟨s₂, hs₂, hresult s₂ h₂⟩⟩
  -- Otherwise the mask is recognised on either side.
  · have hhandle : op.handle .b (op.laneMask sign) 0 0 y iLo iHi
          = some (if sign && op.negates y then minusIndex y iLo iHi else copyIndex iLo iHi) ∧
        op.handle .b y iLo iHi (op.laneMask sign) 0 0
          = some (if sign && op.negates y then minusIndex y iLo iHi else copyIndex iLo iHi) := by
      cases sign with
      | true => exact handle_signMask (Or.inl rfl) op hy.1 iLo iHi
      | false =>
        have hop : op ≠ .xor := fun h => hxor ⟨h, rfl⟩
        obtain ⟨hsign, hneutral, -⟩ := hy.ne_masks op
        exact handle_neutralMask (Or.inl rfl) hop hsign hneutral iLo iHi
    obtain ⟨s', hs', hchange, hkeeps⟩ :=
      perform_signAction htype hs hen (Or.inl rfl) y iLo iHi (sign && op.negates y)
    have hindex : indexOf iLo iHi = iHi ++ iLo := by simp [indexOf_eq (Or.inl rfl)]
    have hvalue : toDouble (neg y) = widen (neg y) := by simp [toDouble]
    rw [hindex, hvalue] at hchange
    have hresult : LaneResult o tid op sign y (iHi ++ iLo) s s' :=
      ⟨fun h h' => absurd ⟨h, h'⟩ hxor, fun _ => hchange, hkeeps.allocated, hkeeps.disable⟩
    simp only [BitwiseOp.handler32, hhandle.1, hhandle.2, hs']
    exact ⟨⟨s', rfl, hresult⟩, ⟨s', rfl, hresult⟩⟩

/-- The index of the upper half of the result. -/
def BarState.upperIndex (s : BarState) : ULong := s.bitwiseOut.w3 ++ s.bitwiseOut.w1

/-- **The recording-mode handler on two numbers**, unless the mask is the sign mask of 64 bits:
the upper half is handled first. -/
theorem barMasked_packedMask (op : BitwiseOp) (htype : o.typegrind = false) (hs : s.tape.Allocated)
    (hen : s.tape.dgDisable tid = 0) (maskFirst signUpper : Bool) {y1 y0 : BitVec 32}
    (h1 : IsLane y1) (h0 : IsLane y0) (lo1 lo0 hi1 hi0 : BitVec 32) :
    ∃ s₁ s₂ s', op.barMasked o tid maskFirst (op.packedMask signUpper true) (y1 ++ y0)
        (lo1 ++ lo0) (hi1 ++ hi0) s = some s' ∧
      LaneResult o tid op signUpper y1 (hi1 ++ lo1) s s₁ ∧
      LaneResult o tid op true y0 (hi0 ++ lo0) s₁ s₂ ∧
      s'.tape = s₂.tape ∧ s'.upperIndex = s₁.bitwiseIndex ∧ s'.bitwiseIndex = s₂.bitwiseIndex := by
  -- Neither operand is a mask of 64 bits, so both halves are handled.
  have hmask := noMask_packedMask op signUpper
  have hlanes : NoMask op (y1 ++ y0) := noMask_lanes h1 y0
  cases maskFirst with
  | true =>
    obtain ⟨s₁, hs₁, hupper⟩ := (handler32_laneMask op htype hs hen signUpper h1 lo1 hi1).1
    obtain ⟨s₂, hs₂, hlower⟩ := (handler32_laneMask op htype hupper.allocated
      (by rw [hupper.disable]; exact hen) true h0 lo0 hi0).1
    refine ⟨s₁, s₂, { s₂ with bitwiseOut := { s₂.bitwiseOut with
      w1 := s₁.bitwiseOut.w0, w3 := s₁.bitwiseOut.w2 } }, ?_, hupper, hlower, rfl, ?_, ?_⟩
    · simp only [BitwiseOp.barMasked, BitwiseOp.handler64, if_true, handle_eq_none hmask hlanes,
        upperHalf_packedMask, lowerHalf_packedMask, upperHalf_append, lowerHalf_append,
        upperHalf_zero, lowerHalf_zero, hs₁, hs₂, Option.bind_eq_bind, Option.bind_some]
    · rw [bitwiseIndex_eq]
      rfl
    · rw [bitwiseIndex_eq, bitwiseIndex_eq]
  | false =>
    obtain ⟨s₁, hs₁, hupper⟩ := (handler32_laneMask op htype hs hen signUpper h1 lo1 hi1).2
    obtain ⟨s₂, hs₂, hlower⟩ := (handler32_laneMask op htype hupper.allocated
      (by rw [hupper.disable]; exact hen) true h0 lo0 hi0).2
    refine ⟨s₁, s₂, { s₂ with bitwiseOut := { s₂.bitwiseOut with
      w1 := s₁.bitwiseOut.w0, w3 := s₁.bitwiseOut.w2 } }, ?_, hupper, hlower, rfl, ?_, ?_⟩
    · simp only [BitwiseOp.barMasked, BitwiseOp.handler64, Bool.false_eq_true, if_false,
        handle_eq_none hlanes hmask, upperHalf_packedMask, lowerHalf_packedMask,
        upperHalf_append, lowerHalf_append, upperHalf_zero, lowerHalf_zero, hs₁, hs₂,
        Option.bind_eq_bind, Option.bind_some]
    · rw [bitwiseIndex_eq]
      rfl
    · rw [bitwiseIndex_eq, bitwiseIndex_eq]

/-- The blocks of a sign change. -/
def signBlocks (index : ULong) (negated : Bool) : List (List ULong) :=
  if negated = true ∧ index ≠ 0 then [[index, 0, 0xBFF0000000000000#64, 0]] else []

theorem SignChange.appends {index value : ULong} {negated : Bool}
    (h : SignChange o tid index value negated s s') :
    s.tape.Appends o s'.tape (signBlocks index negated) := by
  unfold signBlocks
  by_cases hrec : negated = true ∧ index ≠ 0
  · rw [if_pos hrec]
    exact (h.recorded hrec.1 hrec.2).2
  · have hsame : s'.tape = s.tape := by
      cases negated with
      | false => exact (h.kept rfl).1
      | true => exact (h.passive rfl (not_not.mp fun hne => hrec ⟨rfl, hne⟩)).1
    rw [if_neg hrec, hsame]
    exact TapeState.Appends.refl o s.tape

/-- The blocks of one half. -/
def laneBlocks (op : BitwiseOp) (sign : Bool) (y : BitVec 32) (index : ULong) :
    List (List ULong) :=
  if op = .xor ∧ sign = false then [] else signBlocks index (sign && op.negates y)

theorem LaneResult.appends {sign : Bool} {y : BitVec 32} {index : ULong}
    (h : LaneResult o tid op sign y index s s') :
    s.tape.Appends o s'.tape (laneBlocks op sign y index) := by
  unfold laneBlocks
  by_cases hxor : op = .xor ∧ sign = false
  · rw [if_pos hxor, (h.unrecognised hxor.1 hxor.2).1]
    exact TapeState.Appends.refl o s.tape
  · rw [if_neg hxor]
    exact (h.recognised hxor).appends

section Evaluate

universe u

variable {R : Type u} [CommRing R] {dec : ULong → R} {t : Tapefile R}
  {log rest : List (List ULong)} {v : Fin t.numberOfBlocks.toNat → R}

open Tapefile

/-- **The forward evaluation of a sign change.** -/
theorem SignChange.evaluates {index value : ULong} {negated : Bool}
    (h : SignChange o tid index value negated s s') (hlog : TapeInv s.tape log)
    (hc : s.tape.fdTape.complete = true) (hpos : 0 < log.length)
    (hdec : dec 0xBFF0000000000000#64 = -1)
    (ht : ReadsAs dec t (log ++ signBlocks index negated ++ rest)) (hbefore : t.OperandsBefore)
    (hv : ∀ p, log.length ≤ p.val → v p = 0) :
    operandValue (t.forwardSweep v) s'.bitwiseIndex
      = if negated then -operandValue (t.forwardSweep v) index
        else operandValue (t.forwardSweep v) index := by
  cases negated with
  | false => rw [(h.kept rfl).2, if_neg (by decide)]
  | true =>
    by_cases hzero : index = 0
    · have hinactive : operandValue (t.forwardSweep v) 0 = 0 := operandValue_zero _
      rw [(h.passive rfl hzero).2, hzero, hinactive, neg_zero, ite_self]
    · have hlt : log.length < t.numberOfBlocks.toNat := by
        rw [ht.length, signBlocks, if_pos ⟨rfl, hzero⟩]
        simp only [List.length_append, List.length_cons, List.length_nil]
        omega
      have hget : (log ++ signBlocks index true ++ rest)[log.length]?
          = some [index, 0, 0xBFF0000000000000#64, 0] := by
        rw [signBlocks, if_pos ⟨rfl, hzero⟩]
        simp
      have hindex : s'.bitwiseIndex = BitVec.ofNat 64 log.length := by
        rw [(h.recorded rfl hzero).1]
        apply BitVec.eq_of_toNat_eq
        have hhalf := hlog.length_lt_half hc
        rw [hlog.next hc, BitVec.toNat_ofNat, Nat.mod_eq_of_lt (by omega)]
      have hinactive : operandValue (t.forwardSweep v) 0 = 0 := operandValue_zero _
      rw [hindex, operandValue_ofNat _ t.length_lt hpos hlt, forwardSweep_apply hbefore,
        ht.getElem? hget hlt, hv _ (le_refl _)]
      simp only [decodeBlock, hdec, hinactive, if_true]
      ring

/-- The forward evaluation of one half of the result: the dot value of forward mode. -/
theorem LaneResult.evaluates {sign : Bool} {y d : BitVec 32} {index : ULong}
    (h : LaneResult o tid op sign y index s s') (hlog : TapeInv s.tape log)
    (hc : s.tape.fdTape.complete = true) (hpos : 0 < log.length)
    (hdec : dec 0xBFF0000000000000#64 = -1)
    (ht : ReadsAs dec t (log ++ laneBlocks op sign y index ++ rest)) (hbefore : t.OperandsBefore)
    (hv : ∀ p, log.length ≤ p.val → v p = 0) {val : BitVec 32 → R} (hval : val 0 = 0)
    (hneg : ∀ d, val (neg d) = -val d) (hd : operandValue (t.forwardSweep v) index = val d) :
    operandValue (t.forwardSweep v) s'.bitwiseIndex
      = val (if op = .xor ∧ sign = false then 0 else op.laneDot sign y d) := by
  by_cases hxor : op = .xor ∧ sign = false
  · have hinactive : operandValue (t.forwardSweep v) 0 = 0 := operandValue_zero _
    rw [(h.unrecognised hxor.1 hxor.2).2, if_pos hxor, hval, hinactive]
  · rw [laneBlocks, if_neg hxor] at ht
    rw [(h.recognised hxor).evaluates hlog hc hpos hdec ht hbefore hv, if_neg hxor, hd,
      BitwiseOp.laneDot]
    split
    · rw [hneg]
    · rfl

end Evaluate

end Tape

/-- Whatever numbers bit patterns stand for, the forward evaluation of the tape gives both
halves of a result the numbers that the given dot values stand for, if this holds for both
halves of the operand. -/
def EvaluatesTo.{u} (log log' : List (List ULong)) (i1 i0 r1 r0 : ULong)
    (d1 d0 e1 e0 : BitVec 32) : Prop :=
  ∀ (R : Type u) [CommRing R] [DecidableEq R] (dec : ULong → R) (val : BitVec 32 → R),
    dec 0xBFF0000000000000#64 = -1 → val 0 = 0 → (∀ d, val (neg d) = -val d) →
    ∀ t : Tapefile R, t.tape = log'.map (decodeBlock dec) → t.OperandsBefore →
    ∀ buf v w, buf.size = t.bufsize.toNat → (∀ p, log.length ≤ p.val → v p = 0) →
      t.evaluateForward buf v = some w →
      Tapefile.operandValue w i1 = val d1 → Tapefile.operandValue w i0 = val d0 →
      Tapefile.operandValue w r1 = val e1 ∧ Tapefile.operandValue w r0 = val e0

/-- **Packed pairs of numbers.**  In forward mode, both halves are handled on their own, except
that "xor" does not recognise its neutral mask in the upper half.  In recording mode, the
index of each half evaluates to the dot value of forward mode, unless the mask is the sign
mask of 64 bits: then the operand is handled as one number, whose index is the one of the
lower half. -/
theorem packedMask_spec.{u} (op : BitwiseOp) (maskFirst signUpper signLower : Bool)
    (hsome : signUpper = true ∨ signLower = true) (y1 y0 : BitVec 32) (h1 : IsLane y1)
    (h0 : IsLane y0) (d1 d0 lo1 lo0 hi1 hi0 : BitVec 32) :
    op.dotMasked maskFirst (op.packedMask signUpper signLower) (y1 ++ y0) (d1 ++ d0)
      = (if op = .xor ∧ signUpper = false then 0 else op.laneDot signUpper y1 d1)
        ++ op.laneDot signLower y0 d0 ∧
    ∀ (o : TapeOptions) (tid : ThreadId) (s : BarState) (log : List (List ULong)),
      o.typegrind = false → o.tapeInRam = false → s.tape.Allocated → s.tape.dgDisable tid = 0 →
      TapeInv s.tape log → 0 < log.length →
      ∃ s', op.barMasked o tid maskFirst (op.packedMask signUpper signLower) (y1 ++ y0)
          (lo1 ++ lo0) (hi1 ++ hi0) s = some s' ∧
        (signLower = true → ∃ log', TapeInv s'.tape log' ∧ (s'.tape.fdTape.complete = true →
          EvaluatesTo.{u} log log' (hi1 ++ lo1) (hi0 ++ lo0) s'.upperIndex s'.bitwiseIndex d1 d0
            (upperHalf (op.dotMasked maskFirst (op.packedMask signUpper signLower) (y1 ++ y0)
              (d1 ++ d0)))
            (lowerHalf (op.dotMasked maskFirst (op.packedMask signUpper signLower) (y1 ++ y0)
              (d1 ++ d0))))) ∧
        (signLower = false →
          SignChange o tid (hi0 ++ lo0) (neg (y1 ++ y0)) (op.negates y1) s s') := by
  have hdot := dotMasked_packedMask op maskFirst signUpper signLower hsome h1 h0 d1 d0
  refine ⟨hdot, fun o tid s log htype hram hs hen hlog hpos => ?_⟩
  rw [hdot, upperHalf_append, lowerHalf_append]
  cases signLower with
  | true =>
    obtain ⟨s₁, s₂, s', hs', hupper, hlower, htape, hup, hlow⟩ :=
      barMasked_packedMask op htype hs hen maskFirst signUpper h1 h0 lo1 lo0 hi1 hi0
    obtain ⟨hinv₁, hc₁⟩ := hupper.appends.2 hram log hlog
    obtain ⟨hinv₂, hc₂⟩ := hlower.appends.2 hram _ hinv₁
    refine ⟨s', hs', fun _ => ⟨_, htape ▸ hinv₂, fun hc => ?_⟩, by simp⟩
    intro R _ _ dec val hdec hval hneg t ht hbefore buf v w hbuf hv hw hd1 hd0
    have hc₁' := hc₂ (htape ▸ hc)
    rw [Tapefile.evaluateForward_eq hbefore hbuf, Option.some.injEq] at hw
    subst hw
    -- The tape holds the blocks of the upper half, followed by those of the lower half.
    have hreads₁ : ReadsAs dec t (log ++ laneBlocks op signUpper y1 (hi1 ++ lo1)
        ++ laneBlocks op true y0 (hi0 ++ lo0)) := ⟨ht⟩
    have hreads₂ : ReadsAs dec t (log ++ laneBlocks op signUpper y1 (hi1 ++ lo1)
        ++ laneBlocks op true y0 (hi0 ++ lo0) ++ []) := ⟨by rw [List.append_nil]; exact ht⟩
    have hv₁ : ∀ p : Fin t.numberOfBlocks.toNat,
        (log ++ laneBlocks op signUpper y1 (hi1 ++ lo1)).length ≤ p.val → v p = 0 := by
      intro p hp
      rw [List.length_append] at hp
      exact hv p (by omega)
    rw [hup, hlow]
    constructor
    · exact hupper.evaluates hlog (hc₁ hc₁') hpos hdec hreads₁ hbefore hv hval hneg hd1
    · have hvalue := hlower.evaluates hinv₁ hc₁' (by rw [List.length_append]; omega) hdec hreads₂
        hbefore hv₁ hval hneg hd0
      rwa [if_neg fun h => absurd h.2 (by decide)] at hvalue
  | false =>
    -- The mask is the sign mask of 64 bits, the operand is handled as one number.
    obtain rfl : signUpper = true := by simpa using hsome
    obtain ⟨s', hs', hchange, -⟩ := barMasked_signMask htype hs hen op maskFirst
      (not_isNaN_append h1.1 y0) (lo1 ++ lo0) (hi1 ++ hi0)
    have hindex : indexOf (lo1 ++ lo0) (hi1 ++ hi0) = hi0 ++ lo0 := by
      rw [indexOf_eq (Or.inr rfl)]
      exact congrArg₂ _ (lowerHalf_append hi1 hi0) (lowerHalf_append lo1 lo0)
    rw [packedMask_sign_neutral]
    refine ⟨s', hs', by simp, fun _ => ?_⟩
    rw [hindex, negates_append h1] at hchange
    exact hchange

/-- A client request for an index without operands. -/
def inputRequest : Request := ⟨false, 0, 0, 0, 0, 0⟩

/-- The tape of a packed absolute value: two inputs, and the negation of the second one. -/
def absTape : Tapefile ℤ where
  bufsize := 5
  numberOfBlocks := 4
  tape := [⟨0, 0, 0, 0⟩, ⟨0, 0, 0, 0⟩, ⟨0, 0, 0, 0⟩, ⟨2, 0, -1, 0⟩]
  bufsize_pos := by decide
  bufsize_lt := by decide
  length_tape := rfl
  size_tape := by decide

/-- Bit patterns as numbers. -/
def packedValue (d : BitVec 32) : ℤ :=
  if d = 0x3F800000#32 then 1 else if d = 0xBF800000#32 then -1 else 0

theorem packedValue_neg (d : BitVec 32) : packedValue (neg d) = -packedValue d := by
  have hinvol : ∀ c : BitVec 32, neg (neg c) = c := fun c => by
    rw [neg, neg, BitVec.xor_assoc, BitVec.xor_self, BitVec.xor_zero]
  have hiff : ∀ c, neg d = c ↔ d = neg c := fun c =>
    ⟨fun h => by rw [← h, hinvol], fun h => by rw [h, hinvol]⟩
  have hone : neg 0x3F800000#32 = 0xBF800000#32 := by decide
  have hminusOne : neg 0xBF800000#32 = 0x3F800000#32 := by decide
  simp only [packedValue, hiff, hone, hminusOne]
  split <;> split <;> simp_all

/-- The theorem applies to the absolute values of `-1.0` and `2.0`, which have been registered as
inputs with the indices 2 and 1: if both have the dot value one, the tape gives the results
the dot values `-1` and `1`. -/
theorem packedMask_spec_abs :
    BitwiseOp.and.dotMasked true 0x7FFFFFFF7FFFFFFF#64 0xBF80000040000000#64
        0x3F8000003F800000#64 = 0xBF8000003F800000#64 ∧
      ∃ s s', performRequests plainOptions 1 [inputRequest, inputRequest] initialBarState.tape
          = some s.tape ∧
        BitwiseOp.and.barMasked plainOptions 1 true 0x7FFFFFFF7FFFFFFF#64
          0xBF80000040000000#64 0x0000000200000001#64 0 s = some s' ∧
        s'.tape.fdTape.complete = true ∧
        ∃ log', TapeInv s'.tape log' ∧
          absTape.tape = log'.map (decodeBlock fun x => if x = 0xBFF0000000000000#64 then -1 else 0) ∧
          ∃ w, absTape.evaluateForward (ChunkedLog.Buf.fill 5 ⟨0, 0, 0, 0⟩)
              (fun p => if p.val = 1 ∨ p.val = 2 then 1 else 0) = some w ∧
            Tapefile.operandValue w s'.upperIndex = -1 ∧
            Tapefile.operandValue w s'.bitwiseIndex = 1 := by
  have hblocks : inputRequest.blocks = [zeroBlock] := rfl
  -- the two inputs
  obtain ⟨t₁, ht₁, halloc₁, hdis₁, happ₁, -⟩ := Request.perform_enabled (o := plainOptions) rfl
    inputRequest allocated_initial (show dgBarTapeInitialize.dgDisable 1 = 0 from rfl)
  obtain ⟨t₂, ht₂, halloc₂, hdis₂, happ₂, -⟩ := Request.perform_enabled (o := plainOptions) rfl
    inputRequest halloc₁ (show t₁.dgDisable 1 = 0 by rw [hdis₁]; rfl)
  obtain ⟨hinv, -⟩ := (happ₁.trans happ₂).2 rfl _ tapeInv_initial
  rw [hblocks] at hinv
  have hrequests : performRequests plainOptions 1 [inputRequest, inputRequest] initialBarState.tape
      = some t₂ := by
    simp only [performRequests, initialBarState, ht₁, ht₂, Option.bind_eq_bind, Option.bind_some]
  have hen : t₂.dgDisable 1 = 0 := by rw [hdis₂, hdis₁]; rfl
  -- the operation
  have hmask : BitwiseOp.and.packedMask true true = 0x7FFFFFFF7FFFFFFF#64 := by decide
  have hlanes : (0xBF800000#32 ++ 0x40000000#32 : BitVec 64) = 0xBF80000040000000#64 := by decide
  have hdots : (0x3F800000#32 ++ 0x3F800000#32 : BitVec 64) = 0x3F8000003F800000#64 := by decide
  have hlow : (0x2#32 ++ 0x1#32 : BitVec 64) = 0x0000000200000001#64 := by decide
  have hhigh : (0x0#32 ++ 0x0#32 : BitVec 64) = 0 := by decide
  have hresult : BitwiseOp.and.dotMasked true 0x7FFFFFFF7FFFFFFF#64 0xBF80000040000000#64
      0x3F8000003F800000#64 = 0xBF8000003F800000#64 := by decide
  obtain ⟨hdot, hbar⟩ := packedMask_spec.{0} .and true true true (Or.inl rfl) 0xBF800000#32
    0x40000000#32 (by decide) (by decide) 0x3F800000#32 0x3F800000#32 0x2#32 0x1#32 0x0#32 0x0#32
  obtain ⟨s', hs', hlower, -⟩ := hbar plainOptions 1 ⟨t₂, initialBarState.bitwiseOut⟩ _ rfl rfl
    halloc₂ hen hinv (by decide)
  obtain ⟨log', hinv', heval⟩ := hlower rfl
  rw [hmask, hlanes, hdots, hresult] at heval
  rw [hmask, hlanes, hlow, hhigh] at hs'
  have hcomplete : ((performRequests plainOptions 1 [inputRequest, inputRequest]
      initialBarState.tape).bind fun t => BitwiseOp.and.barMasked plainOptions 1 true
        0x7FFFFFFF7FFFFFFF#64 0xBF80000040000000#64 0x0000000200000001#64 0
        ⟨t, initialBarState.bitwiseOut⟩).map (·.tape.fdTape.complete) = some true := by
    decide +kernel
  rw [hrequests, Option.bind_some, hs', Option.map_some, Option.some.injEq] at hcomplete
  -- the blocks on the tape
  obtain ⟨s₁, s₂, s'', hs'', hupper₁, hlower₂, htape, -⟩ := barMasked_packedMask (o := plainOptions)
    (s := ⟨t₂, initialBarState.bitwiseOut⟩) .and rfl halloc₂ hen true true
    (show IsLane 0xBF800000#32 by decide) (show IsLane 0x40000000#32 by decide) 0x2#32 0x1#32
    0x0#32 0x0#32
  rw [hmask, hlanes, hlow, hhigh, hs', Option.some.injEq] at hs''
  subst hs''
  have hlog : TapeInv s'.tape _ :=
    htape ▸ (hlower₂.appends.2 rfl _ (hupper₁.appends.2 rfl _ hinv).1).1
  obtain rfl := hinv'.log_unique hlog hcomplete
  -- the evaluation
  have hbefore : absTape.OperandsBefore := by
    unfold Tapefile.OperandsBefore Tapefile.OperandBefore
    decide
  have hsize : (ChunkedLog.Buf.fill 5 (⟨0, 0, 0, 0⟩ : Block ℤ)).size = absTape.bufsize.toNat := rfl
  have hforward := Tapefile.evaluateForward_eq hbefore hsize
    fun p => if p.val = 1 ∨ p.val = 2 then 1 else 0
  refine ⟨hresult, ⟨t₂, initialBarState.bitwiseOut⟩, s', hrequests, hs', hcomplete, _, hinv', rfl, _,
    hforward, ?_⟩
  obtain ⟨hupper, hlower⟩ := heval hcomplete ℤ (fun x => if x = 0xBFF0000000000000#64 then -1 else 0)
    packedValue (by decide) (by decide) packedValue_neg absTape rfl hbefore _ _ _ rfl (by decide)
    hforward (by decide) (by decide)
  exact ⟨hupper.trans (by decide), hlower.trans (by decide)⟩

/-- A "xor" with the sign mask in the lower half only loses the dot value of the upper half. -/
theorem upper_lost_by_xor : IsLane 0x3F800000#32 ∧
    upperHalf (BitwiseOp.xor.dotMasked true (BitwiseOp.xor.packedMask false true)
      (0x3F800000#32 ++ 0x3F800000#32) (0x3F800000#32 ++ 0x3F800000#32))
        ≠ BitwiseOp.xor.laneDot false 0x3F800000#32 0x3F800000#32 := by
  decide

end Derivgrind
