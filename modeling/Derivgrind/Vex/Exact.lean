import Derivgrind.Vex.Lanes
import Mathlib.Algebra.DualNumber
import Mathlib.Tactic.Ring

/-!
# Exact arithmetic, and dual numbers

An interpretation of VEX in which floating-point operations are exact: lanes are
decoded to numbers of a ring, and the result of an operation is encoded again.
Bytes can be anything.

If numbers are encoded by bytes, then dual numbers are encoded by pairs of bytes: one
byte for the primal part, and one for the epsilon part.

## Main definitions

* `Numbers` — numbers that are encoded by bytes, with their operations.
* `Interp.exact` — the exact interpretation.
* `Numbers.dual`, `Interp.dual` — dual numbers, encoded by pairs of bytes.

## Main results

* `mul_self_eq_iff_dualSqrt` — the square root of a dual number.
* `map_fst_dual_op` — the primal parts of results are the results for the primal parts.
-/

namespace Derivgrind

open TrivSqZeroExt

/-! ### Numbers -/

/-- Numbers of a ring `R` that are encoded by lists of bytes.  The number of bytes
is the size of a lane, and every number can be encoded in single precision. -/
structure Numbers (R B : Type) [Zero R] where
  zero : B
  decode : List B → R
  encode : ℕ → R → List B
  sqrt : R → R
  isNeg : R → Bool
  length_encode : ∀ n x, (encode n x).length = n
  decode_encode : ∀ n x, 4 ≤ n → decode (encode n x) = x
  decode_zero : ∀ n, decode (List.replicate n zero) = 0

/-- The number that an arithmetic operation computes. -/
def ArithOp.apply {R : Type} [Ring R] [Inv R] : ArithOp → R → R → R
  | .add, x, y => x + y
  | .sub, x, y => x - y
  | .mul, x, y => x * y
  | .div, x, y => x * y⁻¹

/-- The number that a fused operation computes. -/
def fmaApply {R : Type} [Ring R] (sub : Bool) (x y z : R) : R :=
  if sub then x * y - z else x * y + z

/-- Exact floating-point operations.  The absolute value changes the sign if the number
is negative, and nothing else.  Operations that are not exact are taken from `F`. -/
def Numbers.fpSem {R B : Type} [Ring R] [Inv R] (N : Numbers R B) (F : FpSem B) : FpSem B :=
  { F with
    arith := fun op n _ x y => N.encode n (op.apply (N.decode x) (N.decode y))
    sqrt := fun n _ x => N.encode n (N.sqrt (N.decode x))
    neg := fun n x => N.encode n (-N.decode x)
    abs := fun n x => if N.isNeg (N.decode x) then N.encode n (-N.decode x) else x
    fma := fun sub n _ x y z => N.encode n (fmaApply sub (N.decode x) (N.decode y) (N.decode z))
    f32toF64 := fun x => N.encode 8 (N.decode x)
    f64toF32 := fun _ x => N.encode 4 (N.decode x) }

/-- **The exact interpretation.**  What is not floating-point arithmetic is taken from `I`. -/
def Interp.exact {R B : Type} [Ring R] [Inv R] (N : Numbers R B) (F : FpSem B) (I : Interp B) :
    Interp B :=
  { I with zero := N.zero, op := vexOp (N.fpSem F) N.zero I.op }

/-! ### Dual numbers -/

section Dual

variable {K B : Type} [Field K]

/-- The square root of a dual number, given the one of its primal part. -/
def dualSqrt (sqrt : K → K) (x : DualNumber K) : DualNumber K :=
  inl (sqrt x.fst) + inr (x.snd * (2 * sqrt x.fst)⁻¹)

/-- Dual numbers are encoded by pairs of bytes. -/
def Numbers.dual (N : Numbers K B) : Numbers (DualNumber K) (B × B) where
  zero := (N.zero, N.zero)
  decode v := inl (N.decode (v.map Prod.fst)) + inr (N.decode (v.map Prod.snd))
  encode n x := (N.encode n x.fst).zip (N.encode n x.snd)
  sqrt := dualSqrt N.sqrt
  isNeg x := N.isNeg x.fst
  length_encode n x := by rw [List.length_zip, N.length_encode, N.length_encode, Nat.min_self]
  decode_encode n x hn := by
    have hlen : (N.encode n x.fst).length = (N.encode n x.snd).length := by
      rw [N.length_encode, N.length_encode]
    rw [List.map_fst_zip hlen.le, List.map_snd_zip hlen.ge, N.decode_encode n _ hn,
      N.decode_encode n _ hn, inl_fst_add_inr_snd_eq]
  decode_zero n := by
    rw [List.map_replicate, List.map_replicate, N.decode_zero, inl_zero, inr_zero, add_zero]

/-- Bytes without an epsilon part. -/
def constantBytes (z : B) (v : List B) : List (B × B) := v.map fun b => (b, z)

/-- An interpretation on pairs of bytes.  Addresses, indices and conditions depend on the
primal parts, and constants have no epsilon part.  Shifts act on both parts alike; the
results of other operations have no epsilon part. -/
def Interp.dual (z : B) (I : Interp B) : Interp (B × B) where
  zero := (z, z)
  const con := constantBytes z (I.const con)
  op
    | .shift left size, [a, n] =>
        (I.op (.shift left size) [a.map Prod.fst, n.map Prod.fst]).zip
          (I.op (.shift left size) [a.map Prod.snd, n.map Prod.fst])
    | op, args => constantBytes z (I.op op (args.map (List.map Prod.fst)))
  ccall cee args := constantBytes z (I.ccall cee (args.map (List.map Prod.fst)))
  isTrue v := I.isTrue (v.map Prod.fst)
  addr v := I.addr (v.map Prod.fst)
  index v := I.index (v.map Prod.fst)

/-- The square root of a dual number is the only one that has the given primal part. -/
theorem mul_self_eq_iff_dualSqrt (h2 : (2 : K) ≠ 0) {sqrt : K → K} {x : DualNumber K}
    (hx : sqrt x.fst * sqrt x.fst = x.fst) (hne : sqrt x.fst ≠ 0) (y : DualNumber K) :
    (y * y = x ∧ y.fst = sqrt x.fst) ↔ y = dualSqrt sqrt x := by
  have hne2 : 2 * sqrt x.fst ≠ 0 := mul_ne_zero h2 hne
  have hfst : (dualSqrt sqrt x).fst = sqrt x.fst := by simp [dualSqrt]
  have hsnd : (dualSqrt sqrt x).snd = x.snd * (2 * sqrt x.fst)⁻¹ := by simp [dualSqrt]
  constructor
  · rintro ⟨hy, hyfst⟩
    have hxsnd : x.snd = y.snd * (2 * sqrt x.fst) := by
      rw [← hyfst, ← hy, DualNumber.snd_mul]
      ring
    apply TrivSqZeroExt.ext
    · rw [hyfst, hfst]
    · rw [hsnd, hxsnd, mul_inv_cancel_right₀ hne2]
  · rintro rfl
    refine ⟨TrivSqZeroExt.ext ?_ ?_, hfst⟩
    · rw [fst_mul, hfst, hx]
    · rw [DualNumber.snd_mul, hfst, hsnd]
      calc sqrt x.fst * (x.snd * (2 * sqrt x.fst)⁻¹) + x.snd * (2 * sqrt x.fst)⁻¹ * sqrt x.fst
          = x.snd * (2 * sqrt x.fst)⁻¹ * (2 * sqrt x.fst) := by ring
        _ = x.snd := inv_mul_cancel_right₀ hne2 x.snd

section Parts

variable (N : Numbers K B)

@[simp] theorem fst_dual_decode (v : List (B × B)) :
    (N.dual.decode v).fst = N.decode (v.map Prod.fst) := by simp [Numbers.dual]

@[simp] theorem snd_dual_decode (v : List (B × B)) :
    (N.dual.decode v).snd = N.decode (v.map Prod.snd) := by simp [Numbers.dual]

@[simp] theorem map_fst_dual_encode (n : ℕ) (x : DualNumber K) :
    (N.dual.encode n x).map Prod.fst = N.encode n x.fst :=
  List.map_fst_zip (by rw [N.length_encode, N.length_encode])

@[simp] theorem map_snd_dual_encode (n : ℕ) (x : DualNumber K) :
    (N.dual.encode n x).map Prod.snd = N.encode n x.snd :=
  List.map_snd_zip (by rw [N.length_encode, N.length_encode])

@[simp] theorem fst_dual_sqrt (x : DualNumber K) : (N.dual.sqrt x).fst = N.sqrt x.fst := by
  simp [Numbers.dual, dualSqrt]

@[simp] theorem snd_dual_sqrt (x : DualNumber K) :
    (N.dual.sqrt x).snd = x.snd * (2 * N.sqrt x.fst)⁻¹ := by
  simp [Numbers.dual, dualSqrt]

/-- The primal part of a result is the result for the primal parts. -/
@[simp] theorem fst_arithApply (op : ArithOp) (x y : DualNumber K) :
    (op.apply x y).fst = op.apply x.fst y.fst := by
  cases op <;> simp [ArithOp.apply]

@[simp] theorem fst_fmaApply (sub : Bool) (x y z : DualNumber K) :
    (fmaApply sub x y z).fst = fmaApply sub x.fst y.fst z.fst := by
  cases sub <;> simp [fmaApply]

@[simp] theorem map_fst_constantBytes (z : B) (v : List B) :
    (constantBytes z v).map Prod.fst = v := by
  simp [constantBytes, Function.comp_def]

@[simp] theorem map_snd_constantBytes (z : B) (v : List B) :
    (constantBytes z v).map Prod.snd = List.replicate v.length z := by
  simp [constantBytes, Function.comp_def]

end Parts

/-! ### Operations -/

/-- The operations with a meaning for dual numbers: arithmetic, negation, the absolute value,
fused operations, conversions of floating-point numbers, and moves of bytes. -/
def IROp.isDual : IROp → Bool
  | .arith _ _ => true
  | .sqrt _ => true
  | .neg _ => true
  | .abs _ => true
  | .fma _ _ => true
  | .f32toF64 => true
  | .f64toF32 => true
  | .unMove _ => true
  | .binMove _ => true
  | .shift _ _ => true
  | .op64x4toV256 => true
  | _ => false

/-- The results of shifts have the right size. -/
def Interp.ShiftsSized (I : Interp B) : Prop :=
  ∀ left size a n, (I.op (.shift left size) [a, n]).length = sizeofIRType size.type

variable {N : Numbers K B} {I : Interp B}

/-- **The primal part of a result** is the result for the primal parts. -/
theorem map_fst_dual_op (hI : I.ShiftsSized) (F : FpSem B) (F' : FpSem (B × B)) {op : IROp}
    (hop : op.isDual = true) (vs : List (List (B × B))) :
    (((I.dual N.zero).exact N.dual F').op op vs).map Prod.fst
      = (I.exact N F).op op (vs.map (List.map Prod.fst)) := by
  have hmove : ∀ route, (moveBytes (N.zero, N.zero) route vs).map Prod.fst
      = moveBytes N.zero route (vs.map (List.map Prod.fst)) := fun route => moveBytes_map _ _ _ _
  cases op with
  | unMove m => exact hmove _
  | binMove m => exact hmove _
  | op64x4toV256 => exact hmove _
  | arith op l =>
    -- With a rounding mode or without; other numbers of operands give a constant.
    rcases vs with _ | ⟨a, _ | ⟨b, _ | ⟨c, _ | ⟨d, vs⟩⟩⟩⟩
    · exact map_fst_constantBytes _ _
    · exact map_fst_constantBytes _ _
    · exact map_lanewise₂ (fun x y => by simp [Numbers.fpSem]) a b
    · exact map_lanewise₂ (fun x y => by simp [Numbers.fpSem]) b c
    · exact map_fst_constantBytes _ _
  | sqrt l =>
    rcases vs with _ | ⟨a, _ | ⟨b, _ | ⟨c, vs⟩⟩⟩
    · exact map_fst_constantBytes _ _
    · exact map_lanewise₁ (fun x => by simp [Numbers.fpSem]) a
    · exact map_lanewise₁ (fun x => by simp [Numbers.fpSem]) b
    · exact map_fst_constantBytes _ _
  | neg l =>
    rcases vs with _ | ⟨a, _ | ⟨b, vs⟩⟩
    · exact map_fst_constantBytes _ _
    · exact map_lanewise₁ (fun x => by simp [Numbers.fpSem]) a
    · exact map_fst_constantBytes _ _
  | abs l =>
    rcases vs with _ | ⟨a, _ | ⟨b, vs⟩⟩
    · exact map_fst_constantBytes _ _
    -- The sign of a dual number is the one of its primal part.
    · show List.map Prod.fst (if N.isNeg (N.dual.decode a).fst then _ else a) = _
      rw [fst_dual_decode]
      show _ = if N.isNeg (N.decode (a.map Prod.fst)) then _ else a.map Prod.fst
      split
      · rw [map_fst_dual_encode, fst_neg, fst_dual_decode]
      · rfl
    · exact map_fst_constantBytes _ _
  | fma sub l =>
    rcases vs with _ | ⟨a, _ | ⟨b, _ | ⟨c, _ | ⟨d, _ | ⟨e, vs⟩⟩⟩⟩⟩
    · exact map_fst_constantBytes _ _
    · exact map_fst_constantBytes _ _
    · exact map_fst_constantBytes _ _
    · exact map_fst_constantBytes _ _
    · show List.map Prod.fst (N.dual.encode _ (fmaApply sub _ _ _)) = _
      rw [map_fst_dual_encode, fst_fmaApply, fst_dual_decode, fst_dual_decode, fst_dual_decode]
      rfl
    · exact map_fst_constantBytes _ _
  | f32toF64 =>
    rcases vs with _ | ⟨a, _ | ⟨b, vs⟩⟩
    · exact map_fst_constantBytes _ _
    · show List.map Prod.fst (N.dual.encode 8 (N.dual.decode a)) = _
      rw [map_fst_dual_encode, fst_dual_decode]
      rfl
    · exact map_fst_constantBytes _ _
  | f64toF32 =>
    rcases vs with _ | ⟨a, _ | ⟨b, _ | ⟨c, vs⟩⟩⟩
    · exact map_fst_constantBytes _ _
    · exact map_fst_constantBytes _ _
    · show List.map Prod.fst (N.dual.encode 4 (N.dual.decode b)) = _
      rw [map_fst_dual_encode, fst_dual_decode]
      rfl
    · exact map_fst_constantBytes _ _
  | shift left size =>
    rcases vs with _ | ⟨a, _ | ⟨n, _ | ⟨c, vs⟩⟩⟩
    · exact map_fst_constantBytes _ _
    · exact map_fst_constantBytes _ _
    · exact List.map_fst_zip (by rw [hI, hI])
    · exact map_fst_constantBytes _ _
  | _ => cases hop

end Dual

section Length

variable {R B : Type} [Ring R] [Inv R] {N : Numbers R B} {I : Interp B} {F : FpSem B}

theorem sizeofIRType_arithLayout (l : ArithLayout) :
    sizeofIRType l.simd.type = l.simd.fpsize * l.simd.simdsize := by cases l <;> rfl

theorem sizeofIRType_negLayout (l : NegLayout) :
    sizeofIRType l.simd.type = l.simd.fpsize * l.simd.simdsize := by cases l <;> rfl

theorem sizeofIRType_scalarLayout (l : ScalarLayout) :
    sizeofIRType l.simd.type = l.simd.fpsize := by cases l <;> rfl

/-- Operations on operands of the right sizes have results of the right size. -/
theorem length_exact_op (hI : I.ShiftsSized) {op : IROp} (hop : op.isDual = true)
    {vs : List (List B)} (hvs : vs.map List.length = (typeOfPrimop op).args.map sizeofIRType) :
    ((I.exact N F).op op vs).length = sizeofIRType (typeOfPrimop op).dst := by
  have hmove : ∀ route, op.route? = some route →
      (moveBytes N.zero route vs).length = sizeofIRType (typeOfPrimop op).dst := fun route hroute => by
    rw [length_moveBytes, length_route hroute]
  cases op with
  | unMove m => exact hmove _ rfl
  | binMove m => exact hmove _ rfl
  | op64x4toV256 => exact hmove _ rfl
  | arith op l =>
    -- Lowest-lane-only operations have no rounding mode.
    by_cases hllo : l.simd.llo = true
    · simp only [typeOfPrimop, if_pos hllo, sizeofIRType_arithLayout, List.map_cons,
        List.map_nil] at hvs ⊢
      rcases vs with _ | ⟨a, _ | ⟨b, _ | ⟨c, vs⟩⟩⟩ <;> simp at hvs
      exact length_lanewise₂ hvs.1 fun _ _ => N.length_encode _ _
    · simp only [typeOfPrimop, if_neg hllo, sizeofIRType_arithLayout, List.map_cons,
        List.map_nil] at hvs ⊢
      rcases vs with _ | ⟨a, _ | ⟨b, _ | ⟨c, _ | ⟨e, vs⟩⟩⟩⟩ <;> simp at hvs
      exact length_lanewise₂ hvs.2.1 fun _ _ => N.length_encode _ _
  | sqrt l =>
    by_cases hrm : l.sqrtNoRoundingMode = true
    · simp only [typeOfPrimop, if_pos hrm, sizeofIRType_arithLayout, List.map_cons,
        List.map_nil] at hvs ⊢
      rcases vs with _ | ⟨a, _ | ⟨b, vs⟩⟩ <;> simp at hvs
      exact length_lanewise₁ hvs fun _ => N.length_encode _ _
    · simp only [typeOfPrimop, if_neg hrm, sizeofIRType_arithLayout, List.map_cons,
        List.map_nil] at hvs ⊢
      rcases vs with _ | ⟨a, _ | ⟨b, _ | ⟨c, vs⟩⟩⟩ <;> simp at hvs
      exact length_lanewise₁ hvs.2 fun _ => N.length_encode _ _
  | neg l =>
    simp only [typeOfPrimop, sizeofIRType_negLayout, List.map_cons, List.map_nil] at hvs ⊢
    rcases vs with _ | ⟨a, _ | ⟨b, vs⟩⟩ <;> simp at hvs
    exact length_lanewise₁ hvs fun _ => N.length_encode _ _
  | abs l =>
    simp only [typeOfPrimop, sizeofIRType_scalarLayout, List.map_cons, List.map_nil] at hvs ⊢
    rcases vs with _ | ⟨a, _ | ⟨b, vs⟩⟩ <;> simp at hvs
    show (if N.isNeg (N.decode a) then N.encode l.simd.fpsize (-N.decode a) else a).length = _
    split
    · exact N.length_encode _ _
    · exact hvs
  | fma sub l =>
    simp only [typeOfPrimop, sizeofIRType_scalarLayout, List.map_cons, List.map_nil] at hvs ⊢
    rcases vs with _ | ⟨a, _ | ⟨b, _ | ⟨c, _ | ⟨e, _ | ⟨f, vs⟩⟩⟩⟩⟩ <;> simp at hvs
    exact N.length_encode _ _
  | f32toF64 =>
    rcases vs with _ | ⟨a, _ | ⟨b, vs⟩⟩ <;> simp [typeOfPrimop] at hvs
    exact N.length_encode _ _
  | f64toF32 =>
    rcases vs with _ | ⟨a, _ | ⟨b, _ | ⟨c, vs⟩⟩⟩ <;> simp [typeOfPrimop] at hvs
    exact N.length_encode _ _
  | shift left size =>
    rcases vs with _ | ⟨a, _ | ⟨b, _ | ⟨c, vs⟩⟩⟩ <;> simp [typeOfPrimop] at hvs
    exact hI left size a b
  | _ => cases hop

end Length

theorem shiftsSized_dual {B : Type} {I : Interp B} (hI : I.ShiftsSized) (z : B) :
    (I.dual z).ShiftsSized := by
  intro left size a n
  show ((I.op (.shift left size) _).zip (I.op (.shift left size) _)).length = _
  rw [List.length_zip, hI, hI, Nat.min_self]

end Derivgrind
