import Derivgrind.Helpers.DotBitwise
import Derivgrind.Tape.Append

/-!
# Operations with sign masks

With a mask that changes the sign only, the handlers of forward mode and of recording
mode take the same decision, whichever operand is the mask, and also for operands such
as `-0.0` that look like masks themselves.
-/

namespace Derivgrind

open Ieee

/-! ### Halves -/

@[simp] theorem upperHalf_append (a b : BitVec 32) : upperHalf (a ++ b) = a := by
  unfold upperHalf
  ext i hi
  simp only [BitVec.getElem_setWidth, BitVec.getLsbD_ushiftRight, BitVec.getLsbD_append]
  grind

@[simp] theorem lowerHalf_append (a b : BitVec 32) : lowerHalf (a ++ b) = b := by
  unfold lowerHalf
  ext i hi
  simp only [BitVec.getElem_setWidth, BitVec.getLsbD_append]
  grind

theorem append_halves (x : BitVec 64) : upperHalf x ++ lowerHalf x = x := by
  unfold upperHalf lowerHalf
  ext i hi
  simp only [BitVec.getElem_append, BitVec.getElem_setWidth, BitVec.getLsbD_ushiftRight]
  grind

/-! ### One number -/

section One

variable {w : ℕ} {y : BitVec w}

/-- The sign masks of "and" and the mask of ones are not numbers. -/
theorem isNaN_masks (hw : w = 32 ∨ w = 64) :
    IsNaN (signBit w - 1) ∧ IsNaN (-1 : BitVec w) := by
  rcases hw with rfl | rfl <;> decide

theorem signBit_ne_zero (hw : w = 32 ∨ w = 64) : signBit w ≠ 0 := by
  rcases hw with rfl | rfl <;> decide

/-- The sign bit alone is a zero. -/
theorem key_signBit (hw : w = 32 ∨ w = 64) :
    lt 0 (signBit w) = false ∧ le (signBit w) 0 = true ∧ lt (0 : BitVec w) 0 = false := by
  rcases hw with rfl | rfl <;> decide

theorem isNaN_zero (hw : w = 32 ∨ w = 64) : ¬IsNaN (0 : BitVec w) := by
  rcases hw with rfl | rfl <;> decide

/-- Numbers are comparable. -/
theorem le_zero_eq (hw : w = 32 ∨ w = 64) (hy : ¬IsNaN y) :
    le 0 y = !lt y 0 ∧ le y 0 = !lt 0 y := by
  have hzero := isNaN_zero hw
  simp only [le, lt, decide_eq_false hy, decide_eq_false hzero, Bool.not_false, Bool.true_and]
  refine ⟨?_, ?_⟩
  · rw [← decide_not, decide_eq_decide]
    omega
  · rw [← decide_not, decide_eq_decide]
    omega

theorem ne_masks (hw : w = 32 ∨ w = 64) (hy : ¬IsNaN y) : y ≠ signBit w - 1 ∧ y ≠ -1 := by
  obtain ⟨hsign, hones⟩ := isNaN_masks (w := w) hw
  exact ⟨fun h => hy (h ▸ hsign), fun h => hy (h ▸ hones)⟩

/-- An attempt that succeeds, tried before or after one that fails or agrees with it. -/
theorem orElse_eq_some_of {α : Type} {a b : Option α} {r : α} (ha : a = some r)
    (hb : b = none ∨ b = some r) : (a <|> b) = some r ∧ (b <|> a) = some r := by
  subst ha
  rcases hb with rfl | rfl <;> exact ⟨rfl, rfl⟩

/-- **The decision of forward mode.** -/
theorem dotHandle_signMask (hw : w = 32 ∨ w = 64) (op : BitwiseOp) (hy : ¬IsNaN y)
    (yd : BitVec w) :
    op.dotHandle (op.signMask w) 0 y yd = some (if op.negates y then neg yd else yd) ∧
      op.dotHandle y yd (op.signMask w) 0 = some (if op.negates y then neg yd else yd) := by
  obtain ⟨hsignNaN, honesNaN⟩ := ne_masks hw hy
  obtain ⟨hsignKey, -, hzeroKey⟩ := key_signBit (w := w) hw
  cases op with
  | and =>
    apply orElse_eq_some_of
    · rw [BitwiseOp.signMask, dotHandleAnd, if_pos rfl, BitwiseOp.negates, apply_ite some]
    · left
      rw [dotHandleAnd, if_neg hsignNaN, if_neg honesNaN]
  | or =>
    apply orElse_eq_some_of
    · rw [BitwiseOp.signMask, dotHandleOr, if_pos ⟨rfl, rfl⟩, BitwiseOp.negates, apply_ite some]
    -- zeros without dot value are taken for the mask
    · by_cases hsign : y = signBit w ∧ yd = 0
      · right
        rw [dotHandleOr, if_pos hsign, BitwiseOp.signMask, BitwiseOp.negates, hsign.1, hsign.2,
          hsignKey]
        rfl
      · by_cases hzero : y = 0 ∧ yd = 0
        · right
          rw [dotHandleOr, if_neg hsign, if_pos hzero, BitwiseOp.negates, hzero.1, hzero.2,
            hzeroKey]
          rfl
        · left
          rw [dotHandleOr, if_neg hsign, if_neg hzero]
  | xor =>
    apply orElse_eq_some_of
    · rw [BitwiseOp.signMask, dotHandleXor, if_pos ⟨rfl, rfl⟩]
      rfl
    · by_cases hsign : y = signBit w ∧ yd = 0
      · right
        rw [dotHandleXor, if_pos hsign, hsign.2]
        rfl
      · left
        rw [dotHandleXor, if_neg hsign]

/-- **The decision of recording mode.** -/
theorem handle_signMask (hw : w = 32 ∨ w = 64) (op : BitwiseOp) (hy : ¬IsNaN y)
    (yiLo yiHi : BitVec w) :
    op.handle .b (op.signMask w) 0 0 y yiLo yiHi
        = some (if op.negates y then minusIndex y yiLo yiHi else copyIndex yiLo yiHi) ∧
      op.handle .b y yiLo yiHi (op.signMask w) 0 0
        = some (if op.negates y then minusIndex y yiLo yiHi else copyIndex yiLo yiHi) := by
  obtain ⟨hsignNaN, honesNaN⟩ := ne_masks hw hy
  obtain ⟨hsignKey, hsignLe, hzeroKey⟩ := key_signBit (w := w) hw
  obtain ⟨hle, hge⟩ := le_zero_eq hw hy
  have hzeroIndex : zeroIndex (0 : BitVec w) 0 = true := by simp [zeroIndex]
  have hcopy : zeroIndex yiLo yiHi = true → copyIndex yiLo yiHi = copyIndex (0 : BitVec w) 0 := by
    intro h
    simp only [zeroIndex, Bool.and_eq_true, decide_eq_true_eq] at h
    simp [copyIndex, h]
  cases op with
  | and =>
    apply orElse_eq_some_of
    · rw [BitwiseOp.signMask, handleAnd, if_pos rfl, hle, BitwiseOp.negates]
      cases lt y 0 <;> rfl
    · left
      rw [handleAnd, if_neg hsignNaN, if_neg honesNaN]
  | or =>
    apply orElse_eq_some_of
    · rw [BitwiseOp.signMask, handleOr, if_pos ⟨rfl, hzeroIndex⟩, hge, BitwiseOp.negates]
      cases lt 0 y <;> rfl
    -- zeros without index are taken for the mask
    · by_cases hsign : y = signBit w ∧ zeroIndex yiLo yiHi = true
      · right
        rw [handleOr, if_pos hsign, BitwiseOp.signMask, if_pos hsignLe, hcopy hsign.2, hsign.1,
          BitwiseOp.negates, hsignKey]
        rfl
      · by_cases hzero : y = 0 ∧ zeroIndex yiLo yiHi = true
        · right
          rw [handleOr, if_neg hsign, if_pos hzero, hcopy hzero.2, hzero.1, BitwiseOp.negates,
            hzeroKey]
          rfl
        · left
          rw [handleOr, if_neg hsign, if_neg hzero]
  | xor =>
    have hminus : zeroIndex yiLo yiHi = true → minusIndex y yiLo yiHi = minusIndex y 0 0 := by
      intro h
      simp only [zeroIndex, Bool.and_eq_true, decide_eq_true_eq] at h
      rcases hw with rfl | rfl <;> simp_all [minusIndex, assemble64x2to64]
    have hmode : ¬(Mode.b = Mode.t) := by decide
    apply orElse_eq_some_of
    · rw [BitwiseOp.signMask, handleXor, if_pos ⟨rfl, hzeroIndex⟩]
      rfl
    · by_cases hsign : y = signBit w ∧ zeroIndex yiLo yiHi = true
      · right
        rw [handleXor, if_pos hsign, hminus hsign.2, hsign.1]
        rfl
      · left
        rw [handleXor, if_neg hsign, if_neg (fun h => hmode h.1)]

end One

/-! ### Single-precision numbers in 64-bit operands -/

section ZeroExtended

variable (x : BitVec 32)

theorem toNat_zeroExtended : (x.setWidth 64).toNat < 2 ^ 32 := by
  have := x.isLt
  simp only [BitVec.toNat_setWidth]
  omega

theorem zeroExtended_ne {c : BitVec 64} (hc : 2 ^ 32 ≤ c.toNat) : x.setWidth 64 ≠ c := by
  intro h
  have := toNat_zeroExtended x
  rw [h] at this
  omega

theorem zeroExtended_eq_zero : x.setWidth 64 = 0 ↔ x = 0 := by
  constructor
  · intro h
    have hlow : (x.setWidth 64).setWidth 32 = (0 : BitVec 64).setWidth 32 := by rw [h]
    simpa using hlow
  · rintro rfl
    rfl

@[simp] theorem upperHalf_zeroExtended : upperHalf (x.setWidth 64) = 0 := by
  unfold upperHalf
  apply BitVec.eq_of_toNat_eq
  have := x.isLt
  simp only [BitVec.toNat_setWidth, BitVec.toNat_ushiftRight, Nat.shiftRight_eq_div_pow]
  change x.toNat % 2 ^ 64 / 2 ^ 32 % 2 ^ 32 = 0
  omega

@[simp] theorem lowerHalf_zeroExtended : lowerHalf (x.setWidth 64) = x := by
  simp [lowerHalf]

theorem zero_append_eq : (0 : BitVec 32) ++ x = x.setWidth 64 := by
  rw [← append_halves (x.setWidth 64), upperHalf_zeroExtended, lowerHalf_zeroExtended]

theorem zeroExtended_ne_masks :
    x.setWidth 64 ≠ signBit 64 - 1 ∧ x.setWidth 64 ≠ -1 ∧ x.setWidth 64 ≠ signBit 64 :=
  ⟨zeroExtended_ne x (by decide), zeroExtended_ne x (by decide), zeroExtended_ne x (by decide)⟩

end ZeroExtended

section Zero

variable {y : BitVec 32}

/-- The operands are not recognised on 64 bits, unless a zero without dot value is taken for
the mask. -/
theorem dotHandle_zeroExtended (op : BitwiseOp) (yd : BitVec 32) :
    ((op.dotHandle ((op.signMask 32).setWidth 64) 0 (y.setWidth 64) (yd.setWidth 64) = none ∧
      op.dotHandle (y.setWidth 64) (yd.setWidth 64) ((op.signMask 32).setWidth 64) 0 = none)) ∨
    (op = .or ∧ y = 0 ∧ yd = 0 ∧
      op.dotHandle ((op.signMask 32).setWidth 64) 0 (y.setWidth 64) (yd.setWidth 64) = some 0 ∧
      op.dotHandle (y.setWidth 64) (yd.setWidth 64) ((op.signMask 32).setWidth 64) 0 = some 0) := by
  obtain ⟨hy₁, hy₂, hy₃⟩ := zeroExtended_ne_masks y
  obtain ⟨hm₁, hm₂, hm₃⟩ := zeroExtended_ne_masks (op.signMask 32)
  cases op with
  | and =>
    left
    simp only [BitwiseOp.dotHandle, dotHandleAnd, if_neg hy₁, if_neg hy₂, if_neg hm₁, if_neg hm₂]
    exact ⟨rfl, rfl⟩
  | or =>
    have hmask : dotHandleOr ((BitwiseOp.or.signMask 32).setWidth 64) 0 (y.setWidth 64)
        (yd.setWidth 64) = none := by
      rw [dotHandleOr, if_neg (fun h => hm₃ h.1), if_neg]
      decide
    by_cases hzero : y = 0 ∧ yd = 0
    · right
      obtain ⟨rfl, rfl⟩ := hzero
      exact ⟨rfl, rfl, rfl, by decide, by decide⟩
    · left
      have hother : dotHandleOr (y.setWidth 64) (yd.setWidth 64)
          ((BitwiseOp.or.signMask 32).setWidth 64) 0 = none := by
        rw [dotHandleOr, if_neg (fun h => hy₃ h.1), if_neg]
        rwa [zeroExtended_eq_zero, zeroExtended_eq_zero]
      simp only [BitwiseOp.dotHandle, hmask, hother]
      exact ⟨rfl, rfl⟩
  | xor =>
    left
    simp only [BitwiseOp.dotHandle, dotHandleXor, if_neg (fun h => hy₃ (And.left h)),
      if_neg (fun h => hm₃ (And.left h))]
    exact ⟨rfl, rfl⟩

/-- The operands are not recognised on 64 bits, unless a zero without index is taken for the
mask. -/
theorem handle_zeroExtended (op : BitwiseOp) (yiLo yiHi : BitVec 32) :
    (op.handle .b ((op.signMask 32).setWidth 64) 0 0 (y.setWidth 64) (yiLo.setWidth 64)
        (yiHi.setWidth 64) = none ∧
      op.handle .b (y.setWidth 64) (yiLo.setWidth 64) (yiHi.setWidth 64)
        ((op.signMask 32).setWidth 64) 0 0 = none) ∨
    (op = .or ∧ y = 0 ∧ yiLo = 0 ∧ yiHi = 0 ∧
      op.handle .b ((op.signMask 32).setWidth 64) 0 0 (y.setWidth 64) (yiLo.setWidth 64)
        (yiHi.setWidth 64) = some (.copy 0 0) ∧
      op.handle .b (y.setWidth 64) (yiLo.setWidth 64) (yiHi.setWidth 64)
        ((op.signMask 32).setWidth 64) 0 0 = some (.copy 0 0)) := by
  obtain ⟨hy₁, hy₂, hy₃⟩ := zeroExtended_ne_masks y
  obtain ⟨hm₁, hm₂, hm₃⟩ := zeroExtended_ne_masks (op.signMask 32)
  have hmode : ¬(Mode.b = Mode.t) := by decide
  cases op with
  | and =>
    left
    simp only [BitwiseOp.handle, handleAnd, if_neg hy₁, if_neg hy₂, if_neg hm₁, if_neg hm₂]
    exact ⟨rfl, rfl⟩
  | or =>
    have hmask : handleOr ((BitwiseOp.or.signMask 32).setWidth 64) 0 0 (y.setWidth 64)
        (yiLo.setWidth 64) (yiHi.setWidth 64) = none := by
      rw [handleOr, if_neg (fun h => hm₃ h.1), if_neg]
      decide
    -- A zero without index is the neutral mask of "or" with 64 bits.
    by_cases hzero : y = 0 ∧ yiLo = 0 ∧ yiHi = 0
    · right
      obtain ⟨rfl, rfl, rfl⟩ := hzero
      exact ⟨rfl, rfl, rfl, rfl, by decide, by decide⟩
    · left
      have hother : handleOr (y.setWidth 64) (yiLo.setWidth 64) (yiHi.setWidth 64)
          ((BitwiseOp.or.signMask 32).setWidth 64) 0 0 = none := by
        rw [handleOr, if_neg (fun h => hy₃ h.1), if_neg]
        rintro ⟨hy, hindex⟩
        simp only [zeroIndex, Bool.and_eq_true, decide_eq_true_eq] at hindex
        refine hzero ⟨(zeroExtended_eq_zero y).mp hy, ?_, ?_⟩
        · simpa using hindex.1
        · simpa using hindex.2
      simp only [BitwiseOp.handle, hmask, hother]
      exact ⟨rfl, rfl⟩
  | xor =>
    left
    simp only [BitwiseOp.handle, handleXor, if_neg (fun h => hy₃ (And.left h)),
      if_neg (fun h => hm₃ (And.left h)), if_neg (fun h => hmode (And.left h))]
    exact ⟨rfl, rfl⟩

end Zero

/-! ### Performing the decision -/

/-- The index in the low four bytes of both layers of the result. -/
def BarState.bitwiseIndex (s : BarState) : ULong :=
  assemble64x2to64 s.bitwiseGetLower s.bitwiseGetHigher

@[simp] theorem bitwiseIndex_eq (s : BarState) :
    s.bitwiseIndex = s.bitwiseOut.w2 ++ s.bitwiseOut.w0 := by
  have hlow : ∀ a b : BitVec 32, (a ++ b).setWidth 32 = b := lowerHalf_append
  simp [BarState.bitwiseIndex, assemble64x2to64, BarState.bitwiseGetLower,
    BarState.bitwiseGetHigher, hlow]

/-- The result is the operand with the given index, or minus this operand: then the block
`(index, 0, -1, 0)` is recorded, unless the index is zero, and nothing else. -/
structure SignChange (o : TapeOptions) (tid : ThreadId) (index value : ULong) (negated : Bool)
    (s s' : BarState) : Prop where
  kept : negated = false → s'.tape = s.tape ∧ s'.bitwiseIndex = index
  passive : negated = true → index = 0 → s'.tape = s.tape ∧ s'.bitwiseIndex = 0
  recorded : negated = true → index ≠ 0 → s'.bitwiseIndex = s.tape.nextindex ∧
    s.tape.Appends o s'.tape [[index, 0, 0xBFF0000000000000#64, 0]]
  performs : negated = true →
    (minusRequest index value).perform o tid s.tape = some (s'.bitwiseIndex, s'.tape)

/-- What is left alone: the upper words of the result, the sizes of the buffers, and whether
recording is disabled. -/
structure KeepsUpperLanes (s s' : BarState) : Prop where
  lower : s'.bitwiseOut.w1 = s.bitwiseOut.w1
  higher : s'.bitwiseOut.w3 = s.bitwiseOut.w3
  allocated : s'.tape.Allocated
  disable : s'.tape.dgDisable = s.tape.dgDisable

section Perform

variable {o : TapeOptions} {tid : ThreadId} {s : BarState}

theorem minusRequest_blocks (index value : ULong) :
    (minusRequest index value).blocks
      = if index = 0 then [] else [[index, 0, 0xBFF0000000000000#64, 0]] := by
  simp [Request.blocks, minusRequest, Request.block]

theorem minusRequest_newIndex (index value : ULong) (t : TapeState) :
    (minusRequest index value).newIndex t = if index = 0 then 0 else t.nextindex := by
  simp [Request.newIndex, minusRequest]

/-- **The actions on a recognised operation.** -/
theorem perform_signChange (htype : o.typegrind = false) (hs : s.tape.Allocated)
    (hen : s.tape.dgDisable tid = 0) (width : ℕ) (index value : ULong) (negated : Bool) :
    ∃ s', (if negated then BitwiseAction.minus index value
        else .copy (lowerHalf index) (upperHalf index)).perform o tid width s = some s' ∧
      SignChange o tid index value negated s s' ∧ KeepsUpperLanes s s' := by
  cases negated with
  | false =>
    refine ⟨_, rfl, ⟨fun _ => ⟨rfl, ?_⟩, by simp, by simp, by simp⟩, ⟨rfl, rfl, hs, rfl⟩⟩
    simp [append_halves]
  | true =>
    obtain ⟨t, ht, halloc, hdis, happ, hsame⟩ :=
      Request.perform_enabled htype (minusRequest index value) hs hen
    rw [minusRequest_newIndex] at ht
    rw [minusRequest_blocks] at happ hsame
    obtain ⟨r, hr⟩ : ∃ r : ULong, r = if index = 0 then 0 else s.tape.nextindex := ⟨_, rfl⟩
    rw [← hr] at ht
    refine ⟨⟨t, { s.bitwiseOut with
      w0 := r.setWidth 32, w2 := (r >>> 32).setWidth 32 }⟩, ?_, ?_, ⟨rfl, rfl, halloc, hdis⟩⟩
    · simp only [if_true, BitwiseAction.perform, ht, Option.bind_eq_bind, Option.bind_some]
    · have hindex : (r >>> 32).setWidth 32 ++ r.setWidth 32 = r := append_halves r
      refine ⟨by simp, fun _ h0 => ?_, fun _ h0 => ?_, fun _ => ?_⟩
      · rw [if_pos h0] at hr hsame
        refine ⟨hsame rfl, ?_⟩
        rw [bitwiseIndex_eq, hindex, hr]
      · rw [if_neg h0] at hr happ
        refine ⟨?_, happ⟩
        rw [bitwiseIndex_eq, hindex, hr]
      · rw [bitwiseIndex_eq, hindex]
        exact ht

/-- The index of a number with the given layers of the shadow. -/
def indexOf {w : ℕ} (iLo iHi : BitVec w) : ULong :=
  assemble64x2to64 (iLo.setWidth 64) (iHi.setWidth 64)

theorem indexOf_eq {w : ℕ} (hw : w = 32 ∨ w = 64) (iLo iHi : BitVec w) :
    indexOf iLo iHi = iHi.setWidth 32 ++ iLo.setWidth 32 := by
  rcases hw with rfl | rfl <;> simp [indexOf, assemble64x2to64]

theorem perform_signAction (htype : o.typegrind = false) (hs : s.tape.Allocated)
    (hen : s.tape.dgDisable tid = 0) {w : ℕ} (hw : w = 32 ∨ w = 64) (y yiLo yiHi : BitVec w)
    (negated : Bool) :
    ∃ s', (if negated then minusIndex y yiLo yiHi else copyIndex yiLo yiHi).perform o tid w s
        = some s' ∧
      SignChange o tid (indexOf yiLo yiHi) (toDouble (neg y)) negated s s' ∧ KeepsUpperLanes s s' := by
  have haction : (if negated then minusIndex y yiLo yiHi else copyIndex yiLo yiHi)
      = if negated then BitwiseAction.minus (indexOf yiLo yiHi) (toDouble (neg y))
        else .copy (lowerHalf (indexOf yiLo yiHi)) (upperHalf (indexOf yiLo yiHi)) := by
    cases negated with
    | true => simp only [if_true, minusIndex, indexOf]
    | false =>
      simp only [Bool.false_eq_true, if_false, copyIndex, indexOf_eq hw, lowerHalf_append,
        upperHalf_append]
  rw [haction]
  exact perform_signChange htype hs hen w _ _ negated

/-- Operations on zeros without index give a zero without index. -/
theorem handler32_zero (htype : o.typegrind = false) (tid : ThreadId) (op : BitwiseOp) :
    ∃ s', op.handler32 o .b tid 0 0 0 0 0 0 s = some s' ∧ s'.tape = s.tape ∧
      s'.bitwiseOut.w0 = 0 ∧ s'.bitwiseOut.w2 = 0 := by
  have hout : unrecognised o .b 0 0 = ⟨0, 0, 0, 0⟩ := by simp [unrecognised, htype]
  cases op with
  | and => exact ⟨{ s with bitwiseOut := unrecognised o .b 0 0 }, rfl, rfl, by rw [hout], by rw [hout]⟩
  | or => exact ⟨{ s with bitwiseOut := { s.bitwiseOut with w0 := 0, w2 := 0 } }, rfl, rfl, rfl, rfl⟩
  | xor => exact ⟨{ s with bitwiseOut := unrecognised o .b 0 0 }, rfl, rfl, by rw [hout], by rw [hout]⟩

end Perform

/-! ### Both modes agree -/

section Modes

variable {o : TapeOptions} {tid : ThreadId} {s : BarState}

theorem dotMasked_signMask (op : BitwiseOp) (maskFirst : Bool) {y : BitVec 64} (hy : ¬IsNaN y)
    (yd : BitVec 64) : op.dotMasked maskFirst (op.signMask 64) y yd
      = if op.negates y then neg yd else yd := by
  obtain ⟨hfirst, hsecond⟩ := dotHandle_signMask (Or.inr rfl) op hy yd
  cases maskFirst with
  | true => simp only [BitwiseOp.dotMasked, BitwiseOp.dot64, hfirst, if_true]
  | false => simp only [BitwiseOp.dotMasked, BitwiseOp.dot64, hsecond, Bool.false_eq_true, if_false]

theorem dotMasked_signMask32 (op : BitwiseOp) (maskFirst : Bool) {y : BitVec 32} (hy : ¬IsNaN y)
    (yd : BitVec 32) :
    op.dotMasked maskFirst ((op.signMask 32).setWidth 64) (y.setWidth 64) (yd.setWidth 64)
      = (if op.negates y then neg yd else yd).setWidth 64 := by
  have hzero : op.dot32 0 0 0 0 = 0 := by cases op <;> decide
  obtain ⟨hfirst, hsecond⟩ := dotHandle_signMask (Or.inl rfl) op hy yd
  have hhalves : upperHalf (0 : BitVec 64) = 0 ∧ lowerHalf (0 : BitVec 64) = 0 := by decide
  rcases dotHandle_zeroExtended (y := y) op yd with ⟨h₁, h₂⟩ | ⟨rfl, rfl, rfl, h₁, h₂⟩
  · cases maskFirst with
    | true =>
      simp only [BitwiseOp.dotMasked, BitwiseOp.dot64, h₁, if_true, upperHalf_zeroExtended,
        lowerHalf_zeroExtended, hhalves, hzero]
      rw [BitwiseOp.dot32, hfirst, Option.getD_some, zero_append_eq]
    | false =>
      simp only [BitwiseOp.dotMasked, BitwiseOp.dot64, h₂, Bool.false_eq_true, if_false,
        upperHalf_zeroExtended, lowerHalf_zeroExtended, hhalves, hzero]
      rw [BitwiseOp.dot32, hsecond, Option.getD_some, zero_append_eq]
  · cases maskFirst with
    | true =>
      simp only [BitwiseOp.dotMasked, BitwiseOp.dot64, h₁, if_true]
      decide
    | false =>
      simp only [BitwiseOp.dotMasked, BitwiseOp.dot64, h₂, Bool.false_eq_true, if_false]
      decide

theorem barMasked_signMask (htype : o.typegrind = false) (hs : s.tape.Allocated)
    (hen : s.tape.dgDisable tid = 0) (op : BitwiseOp) (maskFirst : Bool) {y : BitVec 64}
    (hy : ¬IsNaN y) (yiLo yiHi : BitVec 64) :
    ∃ s', op.barMasked o tid maskFirst (op.signMask 64) y yiLo yiHi s = some s' ∧
      SignChange o tid (indexOf yiLo yiHi) (neg y) (op.negates y) s s' ∧ KeepsUpperLanes s s' := by
  obtain ⟨hfirst, hsecond⟩ := handle_signMask (Or.inr rfl) op hy yiLo yiHi
  obtain ⟨s', hs', hspec⟩ := perform_signAction htype hs hen (Or.inr rfl) y yiLo yiHi (op.negates y)
  refine ⟨s', ?_, by simpa [toDouble] using hspec⟩
  cases maskFirst with
  | true => simp only [BitwiseOp.barMasked, BitwiseOp.handler64, hfirst, if_true, hs']
  | false =>
    simp only [BitwiseOp.barMasked, BitwiseOp.handler64, hsecond, Bool.false_eq_true, if_false, hs']

/-- After an operation on both halves of zero-extended operands, the result of the lower half
is in the low words. -/
theorem handler64_zeroExtended (htype : o.typegrind = false) {op : BitwiseOp}
    {x xiLo xiHi y yiLo yiHi : BitVec 32} {action : BitwiseAction}
    (h64 : op.handle .b (x.setWidth 64) (xiLo.setWidth 64) (xiHi.setWidth 64) (y.setWidth 64)
      (yiLo.setWidth 64) (yiHi.setWidth 64) = none)
    (h32 : op.handle .b x xiLo xiHi y yiLo yiHi = some action) {P : BarState → BarState → Prop}
    (hperform : ∀ s₁ : BarState, s₁.tape = s.tape → ∃ s₂, action.perform o tid 32 s₁ = some s₂ ∧
      ∀ s' : BarState, s'.tape = s₂.tape → s'.bitwiseIndex = s₂.bitwiseIndex → P s s') :
    ∃ s', op.handler64 o .b tid (x.setWidth 64) (xiLo.setWidth 64) (xiHi.setWidth 64)
      (y.setWidth 64) (yiLo.setWidth 64) (yiHi.setWidth 64) s = some s' ∧ P s s' := by
  obtain ⟨s₁, hs₁, htape, -⟩ := handler32_zero (s := s) htype tid op
  obtain ⟨s₂, hs₂, hP⟩ := hperform s₁ htape
  simp only [BitwiseOp.handler64, h64, upperHalf_zeroExtended, lowerHalf_zeroExtended, hs₁,
    Option.bind_eq_bind, Option.bind_some]
  rw [BitwiseOp.handler32, h32]
  simp only [hs₂, Option.bind_some]
  exact ⟨_, rfl, hP _ rfl (by simp)⟩

theorem SignChange.congr {index value : ULong} {negated : Bool} {s₁ s₂ s' : BarState}
    (h : SignChange o tid index value negated s₁ s₂) (hs : s₁.tape = s.tape)
    (htape : s'.tape = s₂.tape) (hindex : s'.bitwiseIndex = s₂.bitwiseIndex) :
    SignChange o tid index value negated s s' := by
  obtain ⟨hkept, hpassive, hrecorded, hperforms⟩ := h
  rw [hs, ← htape, ← hindex] at hkept hpassive hrecorded hperforms
  exact ⟨hkept, hpassive, hrecorded, hperforms⟩

theorem barMasked_signMask32 (htype : o.typegrind = false) (hs : s.tape.Allocated)
    (hen : s.tape.dgDisable tid = 0) (op : BitwiseOp) (maskFirst : Bool) {y : BitVec 32}
    (hy : ¬IsNaN y) (yiLo yiHi : BitVec 32) :
    ∃ s', op.barMasked o tid maskFirst ((op.signMask 32).setWidth 64) (y.setWidth 64)
        (yiLo.setWidth 64) (yiHi.setWidth 64) s = some s' ∧
      SignChange o tid (yiHi ++ yiLo) (widen (neg y)) (op.negates y) s s' := by
  obtain ⟨hfirst, hsecond⟩ := handle_signMask (Or.inl rfl) op hy yiLo yiHi
  have hperform : ∀ s₁ : BarState, s₁.tape = s.tape →
      ∃ s₂, (if op.negates y then minusIndex y yiLo yiHi else copyIndex yiLo yiHi).perform
          o tid 32 s₁ = some s₂ ∧
        ∀ s' : BarState, s'.tape = s₂.tape → s'.bitwiseIndex = s₂.bitwiseIndex →
          SignChange o tid (yiHi ++ yiLo) (widen (neg y)) (op.negates y) s s' := by
    intro s₁ h₁
    rw [← h₁] at hs hen
    obtain ⟨s₂, hs₂, hspec, -⟩ :=
      perform_signAction htype hs hen (Or.inl rfl) y yiLo yiHi (op.negates y)
    refine ⟨s₂, hs₂, fun s' htape hindex => SignChange.congr ?_ h₁ htape hindex⟩
    simpa [indexOf_eq (Or.inl rfl), toDouble] using hspec
  have hzero : (0 : BitVec 64) = (0 : BitVec 32).setWidth 64 := rfl
  rcases handle_zeroExtended (y := y) op yiLo yiHi with ⟨h₁, h₂⟩ | ⟨rfl, rfl, rfl, rfl, h₁, h₂⟩
  · cases maskFirst with
    | true =>
      simp only [BitwiseOp.barMasked, if_true]
      rw [hzero] at h₁ ⊢
      exact handler64_zeroExtended htype h₁ hfirst hperform
    | false =>
      simp only [BitwiseOp.barMasked, Bool.false_eq_true, if_false]
      rw [hzero] at h₂ ⊢
      exact handler64_zeroExtended htype h₂ hsecond hperform
  · -- the operand is taken for the mask, and the other way round
    have hnegates : BitwiseOp.or.negates (0 : BitVec 32) = false := by decide
    refine ⟨{ s with bitwiseOut := { s.bitwiseOut with w0 := 0, w2 := 0 } }, ?_, ?_⟩
    · cases maskFirst with
      | true => simp only [BitwiseOp.barMasked, BitwiseOp.handler64, if_true, h₁]; rfl
      | false =>
        simp only [BitwiseOp.barMasked, BitwiseOp.handler64, Bool.false_eq_true, if_false, h₂]
        rfl
    · rw [hnegates]
      exact ⟨fun _ => ⟨rfl, by simp⟩, by simp, by simp, by simp⟩

/-- **Sign-mask operations are differentiated correctly, and alike in both modes.**  For a mask
without dot value and index on either side of a number that is not NaN, in double precision or
zero-extended from single precision, and whatever is left in `dg_bar_bitwise_out`. -/
theorem signMask_alike (op : BitwiseOp) (maskFirst : Bool) (o : TapeOptions)
    (htype : o.typegrind = false) (tid : ThreadId) (s : BarState) (hs : s.tape.Allocated)
    (hen : s.tape.dgDisable tid = 0) :
    (∀ y yd yiLo yiHi : BitVec 64, ¬IsNaN y →
      op.dotMasked maskFirst (op.signMask 64) y yd = (if op.negates y then neg yd else yd) ∧
      ∃ s', op.barMasked o tid maskFirst (op.signMask 64) y yiLo yiHi s = some s' ∧
        SignChange o tid (assemble64x2to64 yiLo yiHi) (neg y) (op.negates y) s s') ∧
    (∀ y yd yiLo yiHi : BitVec 32, ¬IsNaN y →
      op.dotMasked maskFirst ((op.signMask 32).setWidth 64) (y.setWidth 64) (yd.setWidth 64)
        = (if op.negates y then neg yd else yd).setWidth 64 ∧
      ∃ s', op.barMasked o tid maskFirst ((op.signMask 32).setWidth 64) (y.setWidth 64)
          (yiLo.setWidth 64) (yiHi.setWidth 64) s = some s' ∧
        SignChange o tid (yiHi ++ yiLo) (widen (neg y)) (op.negates y) s s') := by
  refine ⟨fun y yd yiLo yiHi hy => ⟨dotMasked_signMask op maskFirst hy yd, ?_⟩,
    fun y yd yiLo yiHi hy => ⟨dotMasked_signMask32 op maskFirst hy yd, ?_⟩⟩
  · obtain ⟨s', hs', hspec, -⟩ := barMasked_signMask htype hs hen op maskFirst hy yiLo yiHi
    refine ⟨s', hs', ?_⟩
    simpa [indexOf] using hspec
  · exact barMasked_signMask32 htype hs hen op maskFirst hy yiLo yiHi

/-- The theorem applies to the absolute value of `-1.0` at the beginning of a recording. -/
theorem signMask_alike_minusOne :
    BitwiseOp.and.dotMasked true 0x7FFFFFFFFFFFFFFF#64 0xBFF0000000000000#64
        0x4000000000000000#64 = 0xC000000000000000#64 ∧
      ∃ s', BitwiseOp.and.barMasked plainOptions 1 true 0x7FFFFFFFFFFFFFFF#64
          0xBFF0000000000000#64 5 7 initialBarState = some s' ∧
        s'.bitwiseIndex = 1 ∧ initialBarState.tape.Appends plainOptions s'.tape
          [[0x0000000700000005#64, 0, 0xBFF0000000000000#64, 0]] := by
  obtain ⟨hdot, s', hs', hspec⟩ := (signMask_alike .and true plainOptions rfl 1 initialBarState
    allocated_initial rfl).1 0xBFF0000000000000#64 0x4000000000000000#64 5 7 (by decide)
  have hindex : assemble64x2to64 5 7 = 0x0000000700000005#64 := by decide
  have hneg : BitwiseOp.and.negates 0xBFF0000000000000#64 = true := by decide
  rw [hindex] at hspec
  refine ⟨hdot.trans (by decide), s', hs', (hspec.recorded hneg (by decide)).1, ?_⟩
  exact (hspec.recorded hneg (by decide)).2

end Modes

end Derivgrind
