import Derivgrind.Instrument.Value
import Derivgrind.Vex.Exact
import Mathlib.Tactic.FieldSimp

/-!
# Dot values are epsilon parts

With exact arithmetic, the code that forward mode emits for an operation computes the
epsilon part of the result of the operation on dual numbers.

## Main definitions

* `Interp.Exact` — what is assumed about constants and comparisons.
* `DualOperands` — operands and their dot values, given by dual numbers.

## Main results

* `eval_dotcode` — **the code computes the epsilon part.**
-/

namespace Derivgrind

open TrivSqZeroExt

variable {K B T : Type} [Field K]

/-! ### Constants and comparisons -/

/-- The zero constant of the same kind. -/
def IRConst.zeroed : IRConst → IRConst
  | .u1 _ => .u1 false
  | .u8 _ => .u8 0
  | .u16 _ => .u16 0
  | .u32 _ => .u32 0
  | .u64 _ => .u64 0
  | .u128 _ => .u128 0
  | .f32 _ => .f32 0
  | .f32i _ => .f32i 0
  | .f64 _ => .f64 0
  | .f64i _ => .f64i 0
  | .v128 _ => .v128 0
  | .v256 _ => .v256 0
  | .bufferAddr ty offset => .bufferAddr ty offset

/-- Constants that are not floating-point arithmetic are as usual: zero constants have zero
bytes, the constants two stand for the number two, and the comparison with zero tells
whether a number is negative. -/
structure Interp.Exact (I : Interp B) (N : Numbers K B) : Prop where
  length_const : ∀ con : IRConst, con.isBufferAddr = false →
    (I.const con).length = sizeofIRType (typeOfIRConst con)
  const_zeroed : ∀ con : IRConst, con.isBufferAddr = false →
    I.const con.zeroed = List.replicate (sizeofIRType (typeOfIRConst con)) N.zero
  two64 : N.decode (I.const (.f64 f64Two)) = 2
  two32 : N.decode (I.const (.f32 f32Two)) = 2
  isTrue_true : I.isTrue (I.const (.u1 true)) = true
  isLess_zero : ∀ (l : ScalarLayout) (x : List B), x.length = l.simd.fpsize →
    I.isTrue (I.op (.helper .op32to1) [I.op l.cmp [x, List.replicate l.simd.fpsize N.zero]])
      = N.isNeg (N.decode x)
  shifts : I.ShiftsSized

theorem dgDotConstant_eq {con : IRConst} (h : con.isBufferAddr = false) :
    dgDotConstant con = [.const con.zeroed] := by
  cases con with
  | bufferAddr ty offset => cases h
  | _ => rfl

variable {N : Numbers K B} {I : Interp B} {F : FpSem B} {F' : FpSem (B × B)} {s : State B T}

theorem Interp.Exact.isVex (hI : I.Exact N) (F : FpSem B) : (I.exact N F).IsVex (N.fpSem F) where
  op := ⟨I.op, rfl⟩
  length_const := hI.length_const
  const_u32 := hI.const_zeroed (.u32 0) rfl
  const_u64 := hI.const_zeroed (.u64 0) rfl

/-! ### Arithmetic -/

/-- Exact arithmetic on lanes. -/
def Numbers.arithLanes {R : Type} [Ring R] [Inv R] (N : Numbers R B) (op : ArithOp) (l : Simd)
    (u v : List B) : List B :=
  lanewise₂ l (fun x y => N.encode l.fpsize (op.apply (N.decode x) (N.decode y))) u v

section Lanes

variable {R : Type} [Ring R] [Inv R] {N : Numbers R B} {op : ArithOp} {l : Simd} {u v : List B}

theorem length_arithLanes (hu : u.length = l.fpsize * l.simdsize) :
    (N.arithLanes op l u v).length = l.fpsize * l.simdsize :=
  length_lanewise₂ hu fun _ _ => N.length_encode _ _

theorem lane_arithLanes (hu : u.length = l.fpsize * l.simdsize) {i : ℕ} (hi : i < l.simdsize) :
    lane l.fpsize i (N.arithLanes op l u v) = if l.llo && i ≠ 0 then lane l.fpsize i u
      else N.encode l.fpsize
        (op.apply (N.decode (lane l.fpsize i u)) (N.decode (lane l.fpsize i v))) :=
  lane_lanewise₂ hu (fun _ _ => N.length_encode _ _) hi

end Lanes

theorem eval_applyArith (op : ArithOp) (l : ArithLayout) (rm a b : IRExpr) :
    evalExpr (I.exact N F) s (applyArith op l rm a b)
      = N.arithLanes op l.simd (evalExpr (I.exact N F) s a) (evalExpr (I.exact N F) s b) := by
  unfold applyArith
  split <;> (simp only [evalExpr]; rfl)

theorem four_le_fpsize (l : ArithLayout) : 4 ≤ l.simd.fpsize := by cases l <;> decide

/-- The lanes of the epsilon part of exact arithmetic on dual numbers. -/
theorem lane_snd_arithLanes {op : ArithOp} {l : Simd} {u v : List (B × B)}
    (hu : u.length = l.fpsize * l.simdsize) {i : ℕ} (hi : i < l.simdsize) :
    lane l.fpsize i ((N.dual.arithLanes op l u v).map Prod.snd)
      = if l.llo && i ≠ 0 then lane l.fpsize i (u.map Prod.snd)
        else N.encode l.fpsize (op.apply (N.dual.decode (lane l.fpsize i u))
          (N.dual.decode (lane l.fpsize i v))).snd := by
  rw [← map_lane, lane_arithLanes hu hi]
  split
  · exact map_lane _ _ _ _
  · exact map_snd_dual_encode _ _ _

/-- The epsilon part of a quotient. -/
theorem snd_div_apply (x y : DualNumber K) : (ArithOp.div.apply x y).snd
    = (x.snd * y.fst - x.fst * y.snd) * (y.fst * y.fst)⁻¹ := by
  have hsnd : (x * y⁻¹).snd = x.fst * -(y.fst⁻¹ * y.snd * y.fst⁻¹) + x.snd * y.fst⁻¹ := by
    simp [mul_comm]
  show (x * y⁻¹).snd = _
  rw [hsnd]
  by_cases hy : y.fst = 0
  · simp [hy]
  · field_simp
    ring

section Arith

variable {l : ArithLayout} {arg d : ℕ → IRExpr} {u v : List (B × B)}

/-- **The dot values of arithmetic operations.** -/
theorem eval_arithDot (op : ArithOp) (hu : u.length = l.simd.fpsize * l.simd.simdsize)
    (hv : v.length = l.simd.fpsize * l.simd.simdsize)
    (hargu : evalExpr (I.exact N F) s (arg l.firstOperand) = u.map Prod.fst)
    (hargv : evalExpr (I.exact N F) s (arg (l.firstOperand + 1)) = v.map Prod.fst)
    (hdu : evalExpr (I.exact N F) s (d l.firstOperand) = u.map Prod.snd)
    (hdv : evalExpr (I.exact N F) s (d (l.firstOperand + 1)) = v.map Prod.snd) :
    evalExpr (I.exact N F) s (arithDot op l arg d)
      = (N.dual.arithLanes op l.simd u v).map Prod.snd := by
  have hlen : ((N.dual.arithLanes op l.simd u v).map Prod.snd).length
      = l.simd.fpsize * l.simd.simdsize := by
    rw [List.length_map, length_arithLanes hu]
  have hu₀ : (u.map Prod.fst).length = l.simd.fpsize * l.simd.simdsize := by
    rw [List.length_map, hu]
  have hu₁ : (u.map Prod.snd).length = l.simd.fpsize * l.simd.simdsize := by
    rw [List.length_map, hu]
  have hv₀ : (v.map Prod.fst).length = l.simd.fpsize * l.simd.simdsize := by
    rw [List.length_map, hv]
  have hv₁ : (v.map Prod.snd).length = l.simd.fpsize * l.simd.simdsize := by
    rw [List.length_map, hv]
  -- Intermediate results are decoded again, which needs lanes of at least four bytes.
  have hw := four_le_fpsize l
  unfold arithDot
  cases op with
  | add =>
    simp only [eval_applyArith, hdu, hdv]
    refine eq_of_lanes (length_arithLanes hu₁) hlen fun i hi => ?_
    rw [lane_snd_arithLanes hu hi, lane_arithLanes hu₁ hi]
    simp only [ArithOp.apply, snd_add, snd_dual_decode, map_lane]
  | sub =>
    simp only [eval_applyArith, hdu, hdv]
    refine eq_of_lanes (length_arithLanes hu₁) hlen fun i hi => ?_
    rw [lane_snd_arithLanes hu hi, lane_arithLanes hu₁ hi]
    simp only [ArithOp.apply, snd_sub, snd_dual_decode, map_lane]
  | mul =>
    simp only [eval_applyArith, hdu, hdv, hargu, hargv]
    refine eq_of_lanes (length_arithLanes (length_arithLanes hu₁)) hlen fun i hi => ?_
    rw [lane_snd_arithLanes hu hi, lane_arithLanes (length_arithLanes hu₁) hi,
      lane_arithLanes hu₁ hi, lane_arithLanes hv₁ hi]
    split
    · rfl
    · simp only [N.decode_encode _ _ hw, ArithOp.apply, DualNumber.snd_mul, snd_dual_decode,
        fst_dual_decode, map_lane]
      -- The product rule, up to the order of factors and summands.
      congr 1
      ring
  | div =>
    simp only [eval_applyArith, hdu, hdv, hargu, hargv]
    refine eq_of_lanes (length_arithLanes (length_arithLanes (length_arithLanes hu₁))) hlen
      fun i hi => ?_
    rw [lane_snd_arithLanes hu hi, lane_arithLanes (length_arithLanes (length_arithLanes hu₁)) hi,
      lane_arithLanes (length_arithLanes hu₁) hi, lane_arithLanes hu₁ hi, lane_arithLanes hu₀ hi,
      lane_arithLanes hv₀ hi]
    split
    · rfl
    · rw [snd_div_apply]
      simp only [N.decode_encode _ _ hw, ArithOp.apply, snd_dual_decode, fst_dual_decode, map_lane]

/-- All lanes of the constant of `sqrtDot` are two. -/
theorem lane_fptwo (hI : I.Exact N) (F : FpSem B) (s : State B T) (l : ArithLayout) :
    (evalExpr (I.exact N F) s (mkIRConstFptwo l.simd.fpsize l.simd.simdsize)).length
        = l.simd.fpsize * l.simd.simdsize ∧
      ∀ i < l.simd.simdsize, N.decode (lane l.simd.fpsize i
        (evalExpr (I.exact N F) s (mkIRConstFptwo l.simd.fpsize l.simd.simdsize))) = 2 := by
  have hV := hI.isVex F
  -- the constant consists of copies of one lane
  have hcopies : ∀ {w n : ℕ} {c v : List B}, c.length = w → N.decode c = 2 →
      v = (List.replicate n c).flatten →
      v.length = w * n ∧ ∀ i < n, N.decode (lane w i v) = 2 := by
    rintro w n c v hc htwo rfl
    have hlanes : ∀ x ∈ List.replicate n c, x.length = w := fun x hx => by
      rw [List.eq_of_mem_replicate hx, hc]
    refine ⟨by rw [length_flatten_lanes hlanes, List.length_replicate], fun i hi => ?_⟩
    rw [lane_flatten hlanes (by rwa [List.length_replicate]), List.getElem_replicate, htwo]
  have h64 : HasValue (I.exact N F) [] s (f64Const f64Two) .f64 (I.const (.f64 f64Two)) :=
    HasValue.const hV [] s _ rfl
  have h32 : HasValue (I.exact N F) [] s (.const (.f32 f32Two)) .f32 (I.const (.f32 f32Two)) :=
    HasValue.const hV [] s _ rfl
  have ht64 := h64.reinterpret hV (.unMove .reinterpF64asI64) rfl
  have ht32 := h32.reinterpret hV (.unMove .reinterpF32asI32) rfl
  have ht32x2 := ht32.join hV ht32 (.binMove .op32HLto64) rfl
  cases l with
  | f64 => exact hcopies (n := 1) h64.length hI.two64 (h64.eval.trans (by simp [List.replicate]))
  | f32 => exact hcopies (n := 1) h32.length hI.two32 (h32.eval.trans (by simp [List.replicate]))
  | p64Fx2 =>
    have hv := ht64.join hV ht64 (.binMove .op64HLtoV128) rfl
    exact hcopies (n := 2) h64.length hI.two64 (hv.eval.trans (by simp [List.replicate]))
  | p64F0x2 =>
    have hv := ht64.join hV ht64 (.binMove .op64HLtoV128) rfl
    exact hcopies (n := 2) h64.length hI.two64 (hv.eval.trans (by simp [List.replicate]))
  | p64Fx4 =>
    have hv := ht64.join4 hV ht64 ht64 ht64
    exact hcopies (n := 4) h64.length hI.two64 (hv.eval.trans (by simp [List.replicate]))
  | p32Fx4 =>
    have hv := ht32x2.join hV ht32x2 (.binMove .op64HLtoV128) rfl
    exact hcopies (n := 4) h32.length hI.two32 (hv.eval.trans (by simp [List.replicate]))
  | p32F0x4 =>
    have hv := ht32x2.join hV ht32x2 (.binMove .op64HLtoV128) rfl
    exact hcopies (n := 4) h32.length hI.two32 (hv.eval.trans (by simp [List.replicate]))
  | p32Fx8 =>
    have hv := ht32x2.join4 hV ht32x2 ht32x2 ht32x2
    exact hcopies (n := 8) h32.length hI.two32 (hv.eval.trans (by simp [List.replicate]))

/-- The lanes of square roots. -/
def Numbers.sqrtLanes {R : Type} [Ring R] (N : Numbers R B) (l : Simd) (u : List B) : List B :=
  lanewise₁ l (fun x => N.encode l.fpsize (N.sqrt (N.decode x))) u

theorem lane_sqrtLanes {R : Type} [Ring R] {N : Numbers R B} {l : Simd} {u : List B}
    (hu : u.length = l.fpsize * l.simdsize) {i : ℕ} (hi : i < l.simdsize) :
    lane l.fpsize i (N.sqrtLanes l u) = if l.llo && i ≠ 0 then lane l.fpsize i u
      else N.encode l.fpsize (N.sqrt (N.decode (lane l.fpsize i u))) :=
  lane_lanewise₁ hu (fun _ => N.length_encode _ _) hi

theorem length_sqrtLanes {R : Type} [Ring R] {N : Numbers R B} {l : Simd} {u : List B}
    (hu : u.length = l.fpsize * l.simdsize) :
    (N.sqrtLanes l u).length = l.fpsize * l.simdsize :=
  length_lanewise₁ hu fun _ => N.length_encode _ _

/-- **The dot values of square roots.** -/
theorem eval_sqrtDot (hI : I.Exact N) (hu : u.length = l.simd.fpsize * l.simd.simdsize)
    (hargu : evalExpr (I.exact N F) s (arg l.sqrtOperand) = u.map Prod.fst)
    (hdu : evalExpr (I.exact N F) s (d l.sqrtOperand) = u.map Prod.snd) :
    evalExpr (I.exact N F) s (sqrtDot l arg d) = (N.dual.sqrtLanes l.simd u).map Prod.snd := by
  have hu₁ : (u.map Prod.snd).length = l.simd.fpsize * l.simd.simdsize := by
    rw [List.length_map, hu]
  have hu₀ : (u.map Prod.fst).length = l.simd.fpsize * l.simd.simdsize := by
    rw [List.length_map, hu]
  have hw := four_le_fpsize l
  obtain ⟨htwolen, htwo⟩ := lane_fptwo hI F s l
  have hroot : evalExpr (I.exact N F) s (if l.sqrtNoRoundingMode then .unop (.sqrt l) (arg 1)
      else .binop (.sqrt l) (arg 1) (arg 2)) = N.sqrtLanes l.simd (u.map Prod.fst) := by
    unfold ArithLayout.sqrtOperand at hargu
    split at hargu <;> rename_i hrm
    · rw [if_pos hrm, evalExpr, hargu]
      rfl
    · rw [if_neg hrm, evalExpr, hargu]
      rfl
  unfold sqrtDot
  simp only [eval_applyArith, hdu, hroot]
  refine eq_of_lanes (length_arithLanes hu₁) (by rw [List.length_map, length_sqrtLanes hu])
    fun i hi => ?_
  rw [← map_lane, lane_sqrtLanes hu hi, lane_arithLanes hu₁ hi, lane_arithLanes htwolen hi,
    lane_sqrtLanes hu₀ hi, htwo i hi]
  split
  · exact (map_lane _ _ _ _).symm
  · simp only [N.decode_encode _ _ hw, ArithOp.apply, map_snd_dual_encode, snd_dual_sqrt,
      snd_dual_decode, fst_dual_decode, map_lane]

end Arith

/-! ### Fused operations -/

/-- The value of an `F64` expression stands for a number. -/
structure Denotes (N : Numbers K B) (J : Interp B) (s : State B T) (e : IRExpr) (x : K) : Prop where
  length : (evalExpr J s e).length = 8
  decode : N.decode (evalExpr J s e) = x

section Fma

variable {a b rm : IRExpr} {x y : K} {arg d : ℕ → IRExpr} {X Y Z : DualNumber K}

theorem eval_f64Op (op : ArithOp) (ha : Denotes N (I.exact N F) s a x)
    (hb : Denotes N (I.exact N F) s b y) :
    evalExpr (I.exact N F) s (f64Op op rm a b) = N.encode 8 (op.apply x y) := by
  unfold f64Op
  rw [evalExpr]
  show lanewise₂ ⟨8, 1, false⟩ (fun u v => N.encode 8 (op.apply (N.decode u) (N.decode v))) _ _ = _
  rw [lanewise₂_scalar ha.length hb.length, ha.decode, hb.decode]

theorem Denotes.f64Op (rm : IRExpr) (op : ArithOp) (ha : Denotes N (I.exact N F) s a x)
    (hb : Denotes N (I.exact N F) s b y) :
    Denotes N (I.exact N F) s (f64Op op rm a b) (op.apply x y) := by
  constructor
  · rw [eval_f64Op op ha hb, N.length_encode]
  · rw [eval_f64Op op ha hb, N.decode_encode 8 _ (by decide)]

theorem denotes_id (ha : (evalExpr (I.exact N F) s a).length = 8) :
    Denotes N (I.exact N F) s (id a) (N.decode (evalExpr (I.exact N F) s a)) := ⟨ha, rfl⟩

theorem denotes_f32toF64 (a : IRExpr) : Denotes N (I.exact N F) s (.unop .f32toF64 a)
    (N.decode (evalExpr (I.exact N F) s a)) :=
  ⟨N.length_encode 8 _, N.decode_encode 8 _ (by decide)⟩

/-- The dot values of fused operations, before they are converted. -/
theorem eval_fmaDot (sub : Bool) {conv : IRExpr → IRExpr}
    (hx : Denotes N (I.exact N F) s (conv (arg 2)) X.fst)
    (hy : Denotes N (I.exact N F) s (conv (arg 3)) Y.fst)
    (hdx : Denotes N (I.exact N F) s (conv (d 2)) X.snd)
    (hdy : Denotes N (I.exact N F) s (conv (d 3)) Y.snd)
    (hdz : Denotes N (I.exact N F) s (conv (d 4)) Z.snd) :
    evalExpr (I.exact N F) s (fmaDot sub conv arg d) = N.encode 8 (fmaApply sub X Y Z).snd := by
  have hsum := (hdx.f64Op (arg 1) .mul hy).f64Op (arg 1) .add
    (hx.f64Op (arg 1) .mul hdy)
  unfold fmaDot
  cases sub with
  | false =>
    refine (eval_f64Op .add hsum hdz).trans (congrArg _ ?_)
    simp only [ArithOp.apply, fmaApply, Bool.false_eq_true, if_false, snd_add, DualNumber.snd_mul]
    ring
  | true =>
    refine (eval_f64Op .sub hsum hdz).trans (congrArg _ ?_)
    simp only [ArithOp.apply, fmaApply, if_true, snd_sub, DualNumber.snd_mul]
    ring

end Fma

/-! ### The table -/

/-- The operands of an operation and their dot values are given by dual numbers. -/
structure DualOperands (J : Interp B) (s : State B T) (arg d : ℕ → IRExpr) (tys : List IRType)
    (vs : List (List (B × B))) : Prop where
  sizes : vs.map List.length = tys.map sizeofIRType
  primal : ∀ (i : ℕ) (v : List (B × B)), vs[i]? = some v → evalExpr J s (arg (i + 1)) = v.map Prod.fst
  dot : ∀ (i : ℕ) (v : List (B × B)), vs[i]? = some v → evalExpr J s (d (i + 1)) = v.map Prod.snd

section Table

variable {arg d : ℕ → IRExpr} {vs : List (List (B × B))}

theorem DualOperands.length {J : Interp B} {tys : List IRType} (h : DualOperands J s arg d tys vs) :
    vs.length = tys.length := by
  simpa only [List.length_map] using congrArg List.length h.sizes

theorem DualOperands.size {J : Interp B} {tys : List IRType} (h : DualOperands J s arg d tys vs)
    (i : ℕ) (v : List (B × B)) (ty : IRType) (hv : vs[i]? = some v) (hty : tys[i]? = some ty) :
    v.length = sizeofIRType ty := by
  have hi := congrArg (fun l => l[i]?) h.sizes
  simp only [List.getElem?_map, hv, hty, Option.map_some] at hi
  exact Option.some_inj.mp hi

/-- The code for an operation computes the epsilon part of its result, and emits nothing. -/
def ComputesEpsilon (J : Interp B) (D : Interp (B × B)) (s : State B T) (m : Emit IRExpr)
    (op : IROp) (vs : List (List (B × B))) : Prop :=
  ∃ e, m = pure e ∧ evalExpr J s e = (D.op op vs).map Prod.snd

theorem computesEpsilon_arith (op : ArithOp) (l : ArithLayout)
    (h : DualOperands (I.exact N F) s arg d (typeOfPrimop (.arith op l)).args vs) :
    ComputesEpsilon (I.exact N F) ((I.dual N.zero).exact N.dual F') s
      ((arithInfo op l).dotcode arg d) (.arith op l) vs := by
  refine ⟨_, rfl, ?_⟩
  have hlen := h.length
  have hsize := h.size
  simp only [typeOfPrimop] at hlen hsize
  by_cases hllo : l.simd.llo = true
  · rw [if_pos hllo] at hlen hsize
    obtain ⟨u, v, rfl⟩ := List.length_eq_two.mp hlen
    have hfirst : l.firstOperand = 1 := if_pos hllo
    refine eval_arithDot op ?_ ?_ ?_ ?_ ?_ ?_
    · rw [hsize 0 u _ rfl rfl, sizeofIRType_arithLayout]
    · rw [hsize 1 v _ rfl rfl, sizeofIRType_arithLayout]
    · rw [hfirst]; exact h.primal 0 u rfl
    · rw [hfirst]; exact h.primal 1 v rfl
    · rw [hfirst]; exact h.dot 0 u rfl
    · rw [hfirst]; exact h.dot 1 v rfl
  · rw [if_neg hllo] at hlen hsize
    obtain ⟨rm, u, v, rfl⟩ := List.length_eq_three.mp hlen
    have hfirst : l.firstOperand = 2 := if_neg hllo
    refine eval_arithDot op ?_ ?_ ?_ ?_ ?_ ?_
    · rw [hsize 1 u _ rfl rfl, sizeofIRType_arithLayout]
    · rw [hsize 2 v _ rfl rfl, sizeofIRType_arithLayout]
    · rw [hfirst]; exact h.primal 1 u rfl
    · rw [hfirst]; exact h.primal 2 v rfl
    · rw [hfirst]; exact h.dot 1 u rfl
    · rw [hfirst]; exact h.dot 2 v rfl

theorem computesEpsilon_sqrt (hI : I.Exact N) (l : ArithLayout)
    (h : DualOperands (I.exact N F) s arg d (typeOfPrimop (.sqrt l)).args vs) :
    ComputesEpsilon (I.exact N F) ((I.dual N.zero).exact N.dual F') s
      ((sqrtInfo l).dotcode arg d) (.sqrt l) vs := by
  refine ⟨_, rfl, ?_⟩
  have hlen := h.length
  have hsize := h.size
  simp only [typeOfPrimop] at hlen hsize
  by_cases hrm : l.sqrtNoRoundingMode = true
  · rw [if_pos hrm] at hlen hsize
    obtain ⟨u, rfl⟩ := List.length_eq_one_iff.mp hlen
    have hoperand : l.sqrtOperand = 1 := if_pos hrm
    refine eval_sqrtDot hI ?_ ?_ ?_
    · rw [hsize 0 u _ rfl rfl, sizeofIRType_arithLayout]
    · rw [hoperand]; exact h.primal 0 u rfl
    · rw [hoperand]; exact h.dot 0 u rfl
  · rw [if_neg hrm] at hlen hsize
    obtain ⟨rm, u, rfl⟩ := List.length_eq_two.mp hlen
    have hoperand : l.sqrtOperand = 2 := if_neg hrm
    refine eval_sqrtDot hI ?_ ?_ ?_
    · rw [hsize 1 u _ rfl rfl, sizeofIRType_arithLayout]
    · rw [hoperand]; exact h.primal 1 u rfl
    · rw [hoperand]; exact h.dot 1 u rfl

theorem computesEpsilon_neg (l : NegLayout)
    (h : DualOperands (I.exact N F) s arg d (typeOfPrimop (.neg l)).args vs) :
    ComputesEpsilon (I.exact N F) ((I.dual N.zero).exact N.dual F') s
      ((negInfo l).dotcode arg d) (.neg l) vs := by
  refine ⟨_, rfl, ?_⟩
  obtain ⟨u, rfl⟩ := List.length_eq_one_iff.mp h.length
  rw [evalExpr, h.dot 0 u rfl]
  exact (map_lanewise₁ (fun x => by simp [Numbers.fpSem]) u).symm

theorem computesEpsilon_abs (hI : I.Exact N) (l : ScalarLayout)
    (h : DualOperands (I.exact N F) s arg d (typeOfPrimop (.abs l)).args vs) :
    ComputesEpsilon (I.exact N F) ((I.dual N.zero).exact N.dual F') s
      ((absInfo l).dotcode arg d) (.abs l) vs := by
  refine ⟨_, rfl, ?_⟩
  obtain ⟨u, rfl⟩ := List.length_eq_one_iff.mp h.length
  have hu : u.length = l.simd.fpsize := by
    rw [h.size 0 u _ rfl rfl]
    cases l <;> rfl
  have hu₁ : (u.map Prod.snd).length = l.simd.fpsize := by rw [List.length_map, hu]
  have hzero : evalExpr (I.exact N F) s l.zero = List.replicate l.simd.fpsize N.zero := by
    cases l with
    | f64 => exact hI.const_zeroed (.f64i 0) rfl
    | f32 => exact hI.const_zeroed (.f32i 0) rfl
  have hcmp : ∀ v w : List B, (I.exact N F).op l.cmp [v, w] = I.op l.cmp [v, w] := by
    cases l <;> exact fun _ _ => rfl
  have hcond : (I.exact N F).isTrue (evalExpr (I.exact N F) s (isLess l.cmp (arg 1) l.zero))
      = N.isNeg (N.decode (u.map Prod.fst)) := by
    unfold isLess
    rw [evalExpr, evalExpr, h.primal 0 u rfl, hzero, hcmp]
    exact hI.isLess_zero l _ (by rw [List.length_map, hu])
  have hneg : evalExpr (I.exact N F) s (.unop l.neg (d 1))
      = N.encode l.simd.fpsize (-N.decode (u.map Prod.snd)) := by
    rw [evalExpr, h.dot 0 u rfl]
    cases l with
    | f64 => exact lanewise₂_scalar (f := fun x _ => N.encode 8 (-N.decode x)) hu₁ hu₁
    | f32 => exact lanewise₂_scalar (f := fun x _ => N.encode 4 (-N.decode x)) hu₁ hu₁
  rw [evalExpr, hcond, hneg, h.dot 0 u rfl]
  show _ = List.map Prod.snd (if N.isNeg (N.dual.decode u).fst then
    N.dual.encode l.simd.fpsize (-N.dual.decode u) else u)
  rw [fst_dual_decode]
  split
  · rw [map_snd_dual_encode, snd_neg, snd_dual_decode]
  · rfl

theorem computesEpsilon_fma (sub : Bool) (l : ScalarLayout)
    (h : DualOperands (I.exact N F) s arg d (typeOfPrimop (.fma sub l)).args vs) :
    ComputesEpsilon (I.exact N F) ((I.dual N.zero).exact N.dual F') s
      ((fmaInfo sub l).dotcode arg d) (.fma sub l) vs := by
  obtain ⟨rm, u, v, w, rfl⟩ : ∃ rm u v w, vs = [rm, u, v, w] := by
    have hlen := h.length
    rcases vs with _ | ⟨a, _ | ⟨b, _ | ⟨c, _ | ⟨e, _ | ⟨f, vs⟩⟩⟩⟩⟩ <;> simp [typeOfPrimop] at hlen
    exact ⟨a, b, c, e, rfl⟩
  refine ⟨_, rfl, ?_⟩
  cases l with
  | f64 =>
    have hlen : ∀ (i : ℕ) (x : List (B × B)), [rm, u, v, w][i]? = some x →
        (typeOfPrimop (.fma sub .f64)).args[i]? = some .f64 → x.length = 8 :=
      fun i x hx hty => h.size i x _ hx hty
    have hu := hlen 1 u rfl rfl
    have hv := hlen 2 v rfl rfl
    have hw := hlen 3 w rfl rfl
    have hdot : evalExpr (I.exact N F) s (fmaDot sub id arg d) = N.encode 8
        (fmaApply sub (N.dual.decode u) (N.dual.decode v) (N.dual.decode w)).snd := by
      apply eval_fmaDot
      · rw [fst_dual_decode, ← h.primal 1 u rfl]
        exact denotes_id (by rw [h.primal 1 u rfl, List.length_map, hu])
      · rw [fst_dual_decode, ← h.primal 2 v rfl]
        exact denotes_id (by rw [h.primal 2 v rfl, List.length_map, hv])
      · rw [snd_dual_decode, ← h.dot 1 u rfl]
        exact denotes_id (by rw [h.dot 1 u rfl, List.length_map, hu])
      · rw [snd_dual_decode, ← h.dot 2 v rfl]
        exact denotes_id (by rw [h.dot 2 v rfl, List.length_map, hv])
      · rw [snd_dual_decode, ← h.dot 3 w rfl]
        exact denotes_id (by rw [h.dot 3 w rfl, List.length_map, hw])
    exact hdot.trans (map_snd_dual_encode N 8 _).symm
  | f32 =>
    -- Single precision is computed in double precision, and converted in the end.
    have hdot : evalExpr (I.exact N F) s (fmaDot sub (.unop .f32toF64) arg d) = N.encode 8
        (fmaApply sub (N.dual.decode u) (N.dual.decode v) (N.dual.decode w)).snd := by
      apply eval_fmaDot
      · rw [fst_dual_decode, ← h.primal 1 u rfl]
        exact denotes_f32toF64 _
      · rw [fst_dual_decode, ← h.primal 2 v rfl]
        exact denotes_f32toF64 _
      · rw [snd_dual_decode, ← h.dot 1 u rfl]
        exact denotes_f32toF64 _
      · rw [snd_dual_decode, ← h.dot 2 v rfl]
        exact denotes_f32toF64 _
      · rw [snd_dual_decode, ← h.dot 3 w rfl]
        exact denotes_f32toF64 _
    rw [evalExpr, hdot]
    show N.encode 4 (N.decode (N.encode 8 _)) = _
    rw [N.decode_encode 8 _ (by decide)]
    exact (map_snd_dual_encode N 4 _).symm

/-- Moving the bytes of dot values. -/
theorem computesEpsilon_move {op : IROp} {route : List Source} (hroute : op.route? = some route)
    {m : Emit IRExpr} {e : IRExpr} (hm : m = pure e)
    (he : evalExpr (I.exact N F) s e
      = moveBytes N.zero route (vs.map (List.map Prod.snd))) :
    ComputesEpsilon (I.exact N F) ((I.dual N.zero).exact N.dual F') s m op vs := by
  refine ⟨e, hm, ?_⟩
  -- The operation is none of those with a meaning of its own.
  have hdual : ((I.dual N.zero).exact N.dual F').op op vs
      = moveBytes (N.zero, N.zero) route vs := by
    cases op with
    | unMove m => obtain rfl := Option.some_inj.mp hroute; rfl
    | binMove m => obtain rfl := Option.some_inj.mp hroute; rfl
    | op64x4toV256 => obtain rfl := Option.some_inj.mp hroute; rfl
    | helperMove m => obtain rfl := Option.some_inj.mp hroute; rfl
    | _ => cases hroute
  rw [he, hdual]
  exact (moveBytes_map Prod.snd (N.zero, N.zero) route vs).symm

/-- **The code in the table computes epsilon parts.** -/
theorem eval_dotcode (hI : I.Exact N) {op : IROp} {info : IROpInfo} (hop : op.isDual = true)
    (hinfo : irOpInfo? op = some info)
    (h : DualOperands (I.exact N F) s arg d (typeOfPrimop op).args vs) :
    ComputesEpsilon (I.exact N F) ((I.dual N.zero).exact N.dual F') s (info.dotcode arg d) op vs := by
  cases op with
  | arith op l => obtain rfl := Option.some_inj.mp hinfo; exact computesEpsilon_arith op l h
  | sqrt l => obtain rfl := Option.some_inj.mp hinfo; exact computesEpsilon_sqrt hI l h
  | neg l => obtain rfl := Option.some_inj.mp hinfo; exact computesEpsilon_neg l h
  | abs l => obtain rfl := Option.some_inj.mp hinfo; exact computesEpsilon_abs hI l h
  | fma sub l => obtain rfl := Option.some_inj.mp hinfo; exact computesEpsilon_fma sub l h
  | f32toF64 =>
    obtain rfl := Option.some_inj.mp hinfo
    obtain ⟨u, rfl⟩ := List.length_eq_one_iff.mp h.length
    refine ⟨_, rfl, ?_⟩
    rw [evalExpr, h.dot 0 u rfl]
    show N.encode 8 (N.decode (u.map Prod.snd)) = (N.dual.encode 8 (N.dual.decode u)).map Prod.snd
    rw [map_snd_dual_encode, snd_dual_decode]
  | f64toF32 =>
    obtain rfl := Option.some_inj.mp hinfo
    obtain ⟨rm, u, rfl⟩ := List.length_eq_two.mp h.length
    refine ⟨_, rfl, ?_⟩
    rw [evalExpr, h.dot 1 u rfl]
    show N.encode 4 (N.decode (u.map Prod.snd)) = (N.dual.encode 4 (N.dual.decode u)).map Prod.snd
    rw [map_snd_dual_encode, snd_dual_decode]
  | unMove m =>
    obtain rfl := Option.some_inj.mp hinfo
    obtain ⟨u, rfl⟩ := List.length_eq_one_iff.mp (h.length.trans (by cases m <;> rfl))
    refine computesEpsilon_move rfl rfl ?_
    rw [evalExpr, h.dot 0 u rfl]
    rfl
  | binMove m =>
    obtain rfl := Option.some_inj.mp hinfo
    obtain ⟨u, v, rfl⟩ := List.length_eq_two.mp (h.length.trans (by cases m <;> rfl))
    refine computesEpsilon_move rfl rfl ?_
    rw [evalExpr, h.dot 0 u rfl, h.dot 1 v rfl]
    rfl
  | op64x4toV256 =>
    obtain rfl := Option.some_inj.mp hinfo
    obtain ⟨a, b, c, e, rfl⟩ := List.length_eq_four.mp h.length
    refine computesEpsilon_move rfl rfl ?_
    unfold op64x4toV256Info.all
    rw [evalExpr, h.dot 0 a rfl, h.dot 1 b rfl, h.dot 2 c rfl, h.dot 3 e rfl]
    rfl
  | shift left size =>
    obtain rfl := Option.some_inj.mp hinfo
    obtain ⟨u, n, rfl⟩ := List.length_eq_two.mp h.length
    refine ⟨_, rfl, ?_⟩
    rw [evalExpr, h.dot 0 u rfl, h.primal 1 n rfl]
    have hlen := (hI.shifts left size (u.map Prod.snd) (n.map Prod.fst)).trans
      (hI.shifts left size (u.map Prod.fst) (n.map Prod.fst)).symm
    exact (List.map_snd_zip (Nat.le_of_eq hlen)).symm
  | _ => cases hop

end Table

end Derivgrind
