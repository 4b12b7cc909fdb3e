import Derivgrind.Client.Wrapper
import Mathlib.Analysis.SpecialFunctions.Complex.LogDeriv
import Mathlib.Analysis.SpecialFunctions.Pow.Deriv
import Mathlib.Analysis.Calculus.Deriv.Abs
import Mathlib.Analysis.CStarAlgebra.Classes
import Mathlib.Topology.Algebra.Order.Floor

/-!
# Partial derivatives of the wrapped functions with two arguments

The table `functions` of `gen_replace_math.py` contains C expressions for the partial
derivatives of `atan2`, `fmod`, `pow` and `copysign`.  Both arguments are called `x` and
`y`, in this order; but the first argument of `atan2` is the ordinate.

Here the expressions and the functions are interpreted over the real numbers, which have
only one zero.

## Main definitions

* `CExpr` — the C expressions that occur in the table.
* `MathFunction2.derivX`, `MathFunction2.derivY` — the table.
* `MathFunction2.value` — the functions over the real numbers.
* `KeepsSides` — a function near a point maps each side of it to one side of its value.

## Main results

* `deriv_eq_of_side` — derivatives can be computed on one side.
* `MathFunction2.partials_iff` — **where the table is right.**
-/

namespace Derivgrind

open Filter Topology

/-! ### C expressions -/

/-- C expressions in the arguments `x` and `y`.  Literals and functions have a type, which is
visible in their suffix. -/
inductive CExpr
  | x
  | y
  /-- `1.`, `1.f`, `1.l`. -/
  | lit (type : CType) (n : ℕ)
  | int (n : ℕ)
  | neg (e : CExpr)
  | add (e e' : CExpr)
  | sub (e e' : CExpr)
  | mul (e e' : CExpr)
  | div (e e' : CExpr)
  | gt (e e' : CExpr)
  | ge (e e' : CExpr)
  | le (e e' : CExpr)
  | eq (e e' : CExpr)
  | or (e e' : CExpr)
  /-- `^`, for truth values. -/
  | xor (e e' : CExpr)
  | cond (c e e' : CExpr)
  | fabs (type : CType) (e : CExpr)
  | floor (type : CType) (e : CExpr)
  | log (type : CType) (e : CExpr)
  | pow (type : CType) (e e' : CExpr)
  deriving DecidableEq, Repr

open Classical in
/-- The truth values of C. -/
noncomputable def truth (p : Prop) : ℝ := if p then 1 else 0

@[simp] theorem truth_eq_zero (p : Prop) : truth p = 0 ↔ ¬p := by
  unfold truth
  split <;> simp [*]

open Classical in
/-- The value of an expression over the real numbers. -/
noncomputable def CExpr.eval (x y : ℝ) : CExpr → ℝ
  | .x => x
  | .y => y
  | .lit _ n => n
  | .int n => n
  | .neg e => -e.eval x y
  | .add e e' => e.eval x y + e'.eval x y
  | .sub e e' => e.eval x y - e'.eval x y
  | .mul e e' => e.eval x y * e'.eval x y
  | .div e e' => e.eval x y / e'.eval x y
  | .gt e e' => truth (e.eval x y > e'.eval x y)
  | .ge e e' => truth (e.eval x y ≥ e'.eval x y)
  | .le e e' => truth (e.eval x y ≤ e'.eval x y)
  | .eq e e' => truth (e.eval x y = e'.eval x y)
  | .or e e' => truth (e.eval x y ≠ 0 ∨ e'.eval x y ≠ 0)
  | .xor e e' => truth (Xor (e.eval x y ≠ 0) (e'.eval x y ≠ 0))
  | .cond c e e' => if c.eval x y ≠ 0 then e.eval x y else e'.eval x y
  | .fabs _ e => |e.eval x y|
  | .floor _ e => ⌊e.eval x y⌋
  | .log _ e => Real.log (e.eval x y)
  | .pow _ e e' => e.eval x y ^ e'.eval x y

/-! ### The table -/

/-- The functions in objects of class `DERIVGRIND_MATH_FUNCTION2`. -/
inductive MathFunction2
  | atan2
  | fmod
  | pow
  | copysign
  deriving DecidableEq, Repr

namespace MathFunction2

/-- `x*x+y*y`. -/
def sumOfSquares : CExpr := .add (.mul .x .x) (.mul .y .y)

/-- `(e>0.?1.:-1.)`. -/
def signOf (type : CType) (e : CExpr) : CExpr :=
  .cond (.gt e (.lit type 0)) (.lit type 1) (.neg (.lit type 1))

/-- `derivX`.  There is one variant for each type. -/
def derivX (type : CType) : MathFunction2 → CExpr
  | atan2 => .div (.neg .y) sumOfSquares
  | fmod => .lit type 1
  | pow => .cond (.or (.eq .y (.lit type 0)) (.eq .y (.neg (.lit type 0)))) (.lit type 0)
      (.mul .y (.pow type .x (.sub .y (.int 1))))
  | copysign => .cond (.xor (.ge .x (.lit type 0)) (.ge .y (.lit type 0))) (.neg (.lit type 1))
      (.lit type 1)

/-- `derivY`. -/
def derivY (type : CType) : MathFunction2 → CExpr
  | atan2 => .div .x sumOfSquares
  | fmod => .mul (.mul (.neg (.floor type (.fabs type (.div .x .y)))) (signOf type .x))
      (signOf type .y)
  | pow => .cond (.le .x (.lit type 0)) (.lit type 0) (.mul (.pow type .x .y) (.log type .x))
  | copysign => .lit type 0

end MathFunction2

/-! ### The functions -/

/-- The integer part. -/
noncomputable def trunc (q : ℝ) : ℤ := if 0 ≤ q then ⌊q⌋ else ⌈q⌉

namespace MathFunction2

/-- The functions over the real numbers, first argument first. -/
noncomputable def value : MathFunction2 → ℝ → ℝ → ℝ
  | atan2, x, y => Complex.arg ⟨y, x⟩
  | fmod, x, y => x - y * trunc (x / y)
  | pow, x, y => x ^ y
  | copysign, x, y => if 0 ≤ y then |x| else -|x|

/-- Where the functions are looked at: `fmod` is not defined for a divisor of zero, and the base
of `pow` is positive. -/
def Defined : MathFunction2 → ℝ → ℝ → Prop
  | fmod, _, y => y ≠ 0
  | pow, x, _ => 0 < x
  | _, _, _ => True

end MathFunction2

/-! ### One-sided derivatives -/

section OneSided

variable {f g : ℝ → ℝ} {g' x : ℝ}

/-- A function with a derivative has the derivative of any function with which it agrees on
one side. -/
theorem deriv_eq_of_side {s : Set ℝ} (hs : s = Set.Ici x ∨ s = Set.Iic x)
    (hf : DifferentiableAt ℝ f x) (hg : HasDerivAt g g' x) (h : f =ᶠ[𝓝[s] x] g) :
    deriv f x = g' := by
  have hmem : x ∈ s := by
    rcases hs with rfl | rfl
    · exact Set.self_mem_Ici
    · exact Set.self_mem_Iic
  have hunique : UniqueDiffWithinAt ℝ s x := by
    rcases hs with rfl | rfl
    · exact uniqueDiffOn_Ici x x Set.self_mem_Ici
    · exact uniqueDiffOn_Iic x x Set.self_mem_Iic
  exact hunique.eq_deriv s hf.hasDerivAt.hasDerivWithinAt
    (hg.hasDerivWithinAt.congr_of_eventuallyEq h (h.self_of_nhdsWithin hmem))

/-- The integer part does not change on one side. -/
theorem trunc_side (q : ℝ) :
    (∀ᶠ r in 𝓝[≥] q, trunc r = trunc q) ∨ ∀ᶠ r in 𝓝[≤] q, trunc r = trunc q := by
  by_cases hq : 0 ≤ q
  · refine .inl ?_
    filter_upwards [tendsto_pure.mp (tendsto_floor_right_pure_floor q), self_mem_nhdsWithin]
      with r hr hle
    rw [trunc, trunc, if_pos hq, if_pos (hq.trans hle), hr]
  · refine .inr ?_
    filter_upwards [tendsto_pure.mp (tendsto_ceil_left_pure_ceil q), self_mem_nhdsWithin]
      with r hr hle
    have hr' : ¬0 ≤ r := fun h => hq (h.trans hle)
    rw [trunc, trunc, if_neg hq, if_neg hr', hr]

/-- The sides are preserved or exchanged. -/
def KeepsSides (h : ℝ → ℝ) (x : ℝ) : Prop :=
  (Tendsto h (𝓝[≥] x) (𝓝[≥] h x) ∧ Tendsto h (𝓝[≤] x) (𝓝[≤] h x)) ∨
  (Tendsto h (𝓝[≥] x) (𝓝[≤] h x) ∧ Tendsto h (𝓝[≤] x) (𝓝[≥] h x))

theorem KeepsSides.trunc_eventually {h : ℝ → ℝ} (hh : KeepsSides h x) :
    ∃ s, (s = Set.Ici x ∨ s = Set.Iic x) ∧ ∀ᶠ t in 𝓝[s] x, trunc (h t) = trunc (h x) := by
  rcases hh with ⟨hge, hle⟩ | ⟨hge, hle⟩ <;> rcases trunc_side (h x) with hside | hside
  · exact ⟨_, .inl rfl, hge.eventually hside⟩
  · exact ⟨_, .inr rfl, hle.eventually hside⟩
  · exact ⟨_, .inr rfl, hle.eventually hside⟩
  · exact ⟨_, .inl rfl, hge.eventually hside⟩

theorem KeepsSides.comp {k h : ℝ → ℝ} (hk : KeepsSides k (h x)) (hh : KeepsSides h x) :
    KeepsSides (fun t => k (h t)) x := by
  rcases hk with ⟨hge, hle⟩ | ⟨hge, hle⟩ <;> rcases hh with ⟨hge', hle'⟩ | ⟨hge', hle'⟩
  · exact .inl ⟨hge.comp hge', hle.comp hle'⟩
  · exact .inr ⟨hle.comp hge', hge.comp hle'⟩
  · exact .inr ⟨hge.comp hge', hle.comp hle'⟩
  · exact .inl ⟨hle.comp hge', hge.comp hle'⟩

theorem keepsSides_of_monotone {h : ℝ → ℝ} (hcont : ContinuousAt h x) (hmono : Monotone h) :
    KeepsSides h x := by
  refine .inl ⟨?_, ?_⟩ <;> refine tendsto_nhdsWithin_iff.mpr
    ⟨hcont.mono_left nhdsWithin_le_nhds, eventually_nhdsWithin_of_forall fun t ht => hmono ht⟩

theorem keepsSides_of_antitoneOn {h : ℝ → ℝ} {u : Set ℝ} (hcont : ContinuousAt h x)
    (hu : u ∈ 𝓝 x) (hanti : AntitoneOn h u) : KeepsSides h x := by
  have hx : x ∈ u := mem_of_mem_nhds hu
  refine .inr ⟨?_, ?_⟩ <;>
    refine tendsto_nhdsWithin_iff.mpr ⟨hcont.mono_left nhdsWithin_le_nhds, ?_⟩
  · filter_upwards [self_mem_nhdsWithin, nhdsWithin_le_nhds hu] with t ht htu
    exact hanti hx htu ht
  · filter_upwards [self_mem_nhdsWithin, nhdsWithin_le_nhds hu] with t ht htu
    exact hanti htu hx ht

theorem keepsSides_mul (c : ℝ) : KeepsSides (fun t => c * t) x := by
  have hcont : ContinuousAt (fun t => c * t) x := (continuous_const_mul c).continuousAt
  rcases le_total 0 c with hc | hc
  · exact keepsSides_of_monotone hcont (monotone_mul_left_of_nonneg hc)
  · exact keepsSides_of_antitoneOn hcont univ_mem ((antitone_mul_left hc).antitoneOn _)

theorem keepsSides_inv (hx : x ≠ 0) : KeepsSides (fun t => t⁻¹) x := by
  rcases lt_or_gt_of_ne hx with hneg | hpos
  · exact keepsSides_of_antitoneOn (continuousAt_inv₀ hx) (Iio_mem_nhds hneg) inv_antitoneOn_Iio
  · exact keepsSides_of_antitoneOn (continuousAt_inv₀ hx) (Ioi_mem_nhds hpos) inv_antitoneOn_Ioi

end OneSided

/-! ### Remainders -/

section Fmod

variable {x y : ℝ}

/-- The C standard: the dividend minus a multiple of the divisor, with the sign of the dividend and
a smaller magnitude than the divisor. -/
theorem fmod_spec (x : ℝ) (hy : y ≠ 0) :
    (∃ n : ℤ, MathFunction2.fmod.value x y = x - n * y) ∧
      0 ≤ x * MathFunction2.fmod.value x y ∧ |MathFunction2.fmod.value x y| < |y| := by
  set q := x / y with hq
  have hx : x = q * y := (div_mul_cancel₀ x hy).symm
  have hvalue : MathFunction2.fmod.value x y = (q - trunc q) * y := by
    rw [MathFunction2.value, ← hq]
    linear_combination hx
  have hpart : 0 ≤ q * (q - trunc q) ∧ |q - trunc q| < 1 := by
    unfold trunc
    split_ifs with h0
    · have hle := Int.floor_le q
      have hlt := Int.lt_floor_add_one q
      exact ⟨mul_nonneg h0 (by linarith), abs_lt.mpr ⟨by linarith, by linarith⟩⟩
    · have hle := Int.le_ceil q
      have hlt := Int.ceil_lt_add_one q
      exact ⟨mul_nonneg_of_nonpos_of_nonpos (not_le.mp h0).le (by linarith),
        abs_lt.mpr ⟨by linarith, by linarith⟩⟩
  refine ⟨⟨trunc q, by rw [hvalue]; linear_combination -hx⟩, ?_, ?_⟩
  · have hmul : x * ((q - trunc q) * y) = q * (q - trunc q) * (y * y) := by
      linear_combination ((q - trunc q) * y) * hx
    rw [hvalue, hmul]
    exact mul_nonneg hpart.1 (mul_self_nonneg y)
  · rw [hvalue, abs_mul]
    exact mul_lt_of_lt_one_left (abs_pos.mpr hy) hpart.2

theorem deriv_fmod_x (h : DifferentiableAt ℝ (fun s => MathFunction2.fmod.value s y) x) :
    deriv (fun s => MathFunction2.fmod.value s y) x = 1 := by
  have hsides : KeepsSides (fun s => s / y) x := by
    simp only [div_eq_inv_mul]
    exact keepsSides_mul y⁻¹
  obtain ⟨s, hs, hside⟩ := hsides.trunc_eventually
  refine deriv_eq_of_side hs h (g := fun s => s - y * trunc (x / y))
    ((hasDerivAt_id' x).sub_const _) ?_
  filter_upwards [hside] with t ht
  rw [MathFunction2.value, ht]

theorem deriv_fmod_y (hy : y ≠ 0)
    (h : DifferentiableAt ℝ (fun t => MathFunction2.fmod.value x t) y) :
    deriv (fun t => MathFunction2.fmod.value x t) y = -trunc (x / y) := by
  have hsides : KeepsSides (fun t => x / t) y := by
    simp only [div_eq_mul_inv]
    exact (keepsSides_mul x).comp (keepsSides_inv hy)
  obtain ⟨s, hs, hside⟩ := hsides.trunc_eventually
  have hlinear : HasDerivAt (fun t => x - t * trunc (x / y)) (-trunc (x / y)) y := by
    simpa using ((hasDerivAt_id' y).mul_const (trunc (x / y) : ℝ)).const_sub x
  refine deriv_eq_of_side hs h hlinear ?_
  filter_upwards [hside] with t ht
  rw [MathFunction2.value, ht]

end Fmod

/-! ### Signs -/

section Copysign

variable {x y : ℝ}

theorem deriv_copysign_y (h : DifferentiableAt ℝ (fun t => MathFunction2.copysign.value x t) y) :
    deriv (fun t => MathFunction2.copysign.value x t) y = 0 := by
  rcases le_or_gt 0 y with hy | hy
  · refine deriv_eq_of_side (.inl rfl) h (hasDerivAt_const y |x|) ?_
    filter_upwards [self_mem_nhdsWithin] with t ht
    rw [MathFunction2.value, if_pos (hy.trans ht)]
  · refine deriv_eq_of_side (.inr rfl) h (hasDerivAt_const y (-|x|)) ?_
    filter_upwards [self_mem_nhdsWithin] with t ht
    rw [MathFunction2.value, if_neg (not_le.mpr (lt_of_le_of_lt ht hy))]

/-- The absolute value has a kink at zero. -/
theorem ne_zero_of_differentiableAt_copysign
    (h : DifferentiableAt ℝ (fun s => MathFunction2.copysign.value s y) x) : x ≠ 0 := by
  rintro rfl
  refine not_differentiableAt_abs_zero ?_
  by_cases hy : 0 ≤ y
  · simpa only [MathFunction2.value, if_pos hy] using h
  · have hneg := h.fun_neg
    simpa only [MathFunction2.value, if_neg hy, neg_neg] using hneg

/-- The slope is one if the signs agree and minus one otherwise. -/
theorem deriv_copysign_x (h : DifferentiableAt ℝ (fun s => MathFunction2.copysign.value s y) x) :
    deriv (fun s => MathFunction2.copysign.value s y) x
      = if 0 ≤ y then (SignType.sign x : ℝ) else -SignType.sign x := by
  have habs := hasDerivAt_abs (ne_zero_of_differentiableAt_copysign h)
  by_cases hy : 0 ≤ y
  · simp only [MathFunction2.value, if_pos hy]
    exact habs.deriv
  · simp only [MathFunction2.value, if_neg hy]
    exact habs.fun_neg.deriv

end Copysign

/-! ### Angles -/

section Atan2

variable {x y : ℝ}

theorem hasDerivAt_im {f : ℝ → ℂ} {f' : ℂ} (h : HasDerivAt f f' x) :
    HasDerivAt (fun t => (f t).im) f'.im x :=
  Complex.imCLM.hasFDerivAt.comp_hasDerivAt x h

/-- Outside the branch cut, the angle is the imaginary part of the logarithm. -/
theorem hasDerivAt_atan2_x (h : 0 < y ∨ x ≠ 0) :
    HasDerivAt (fun s => MathFunction2.atan2.value s y) (y / (x * x + y * y)) x := by
  have hmk : HasDerivAt (fun s : ℝ => (y + s * Complex.I : ℂ)) Complex.I x := by
    simpa using ((Complex.ofRealCLM.hasDerivAt (x := x)).mul_const Complex.I).const_add (y : ℂ)
  have hmem : (y + x * Complex.I : ℂ) ∈ Complex.slitPlane := by
    simpa [Complex.mem_slitPlane_iff] using h
  have hlog := hasDerivAt_im (hmk.clog_real hmem)
  simp only [Complex.log_im, ← Complex.mk_eq_add_mul_I] at hlog
  refine hlog.congr_deriv ?_
  simp [Complex.div_im, Complex.normSq_mk, add_comm]

theorem hasDerivAt_atan2_y (h : 0 < y ∨ x ≠ 0) :
    HasDerivAt (fun t => MathFunction2.atan2.value x t) (-x / (x * x + y * y)) y := by
  have hmk : HasDerivAt (fun t : ℝ => (t + x * Complex.I : ℂ)) 1 y := by
    simpa using (Complex.ofRealCLM.hasDerivAt (x := y)).add_const (x * Complex.I : ℂ)
  have hmem : (y + x * Complex.I : ℂ) ∈ Complex.slitPlane := by
    simpa [Complex.mem_slitPlane_iff] using h
  have hlog := hasDerivAt_im (hmk.clog_real hmem)
  simp only [Complex.log_im, ← Complex.mk_eq_add_mul_I] at hlog
  refine hlog.congr_deriv ?_
  simp [Complex.normSq_mk, add_comm]

/-- On the branch cut, the angle jumps with the ordinate. -/
theorem not_differentiableAt_atan2_x (hy : y ≤ 0) :
    ¬DifferentiableAt ℝ (fun s => MathFunction2.atan2.value s y) 0 := by
  intro h
  have hcont : Tendsto (fun s : ℝ => Complex.arg ⟨y, s⟩) (𝓝[<] 0) (𝓝 (Complex.arg ⟨y, 0⟩)) :=
    h.continuousAt.mono_left nhdsWithin_le_nhds
  rcases hy.lt_or_eq with hneg | rfl
  · have hmk : Tendsto (fun s : ℝ => (⟨y, s⟩ : ℂ)) (𝓝[<] 0) (𝓝[{z | z.im < 0}] ⟨y, 0⟩) := by
      refine tendsto_nhdsWithin_iff.mpr ⟨?_, eventually_nhdsWithin_of_forall fun s hs => hs⟩
      have hcont : Continuous fun s : ℝ => (y + s * Complex.I : ℂ) := by fun_prop
      simp only [← Complex.mk_eq_add_mul_I] at hcont
      exact hcont.continuousAt.mono_left nhdsWithin_le_nhds
    have hlim := (Complex.tendsto_arg_nhdsWithin_im_neg_of_re_neg_of_im_zero hneg rfl).comp hmk
    have heq := tendsto_nhds_unique hcont hlim
    have hpi : Complex.arg ⟨y, 0⟩ = Real.pi := Complex.arg_ofReal_of_neg hneg
    rw [hpi] at heq
    linarith [Real.pi_pos]
  · have hlim : Tendsto (fun s : ℝ => Complex.arg ⟨0, s⟩) (𝓝[<] 0) (𝓝 (-(Real.pi / 2))) := by
      refine tendsto_const_nhds.congr' (eventually_nhdsWithin_of_forall fun s hs => ?_)
      have harg : Complex.arg ⟨0, s⟩ = -(Real.pi / 2) :=
        Complex.arg_eq_neg_pi_div_two_iff.mpr ⟨rfl, hs⟩
      exact harg.symm
    have heq := tendsto_nhds_unique hcont hlim
    have hzero : Complex.arg ⟨0, 0⟩ = 0 := Complex.arg_zero
    rw [hzero] at heq
    linarith [Real.pi_pos]

/-- The angle of the first argument zero depends on the sign of the second one only. -/
theorem deriv_atan2_y_of_eq_zero
    (h : DifferentiableAt ℝ (fun t => MathFunction2.atan2.value 0 t) y) :
    deriv (fun t => MathFunction2.atan2.value 0 t) y = 0 := by
  rcases le_or_gt 0 y with hy | hy
  · refine deriv_eq_of_side (.inl rfl) h (hasDerivAt_const y 0) ?_
    filter_upwards [self_mem_nhdsWithin] with t ht
    exact Complex.arg_ofReal_of_nonneg (hy.trans ht)
  · refine deriv_eq_of_side (.inr rfl) h (hasDerivAt_const y Real.pi) ?_
    filter_upwards [self_mem_nhdsWithin] with t ht
    exact Complex.arg_ofReal_of_neg (lt_of_le_of_lt ht hy)

end Atan2

/-! ### The table is compared with the derivatives -/

namespace MathFunction2

/-- The condition for `derivX`. -/
def RightX : MathFunction2 → ℝ → ℝ → Prop
  | atan2, _, y => y = 0
  | _, _, _ => True

/-- The condition for `derivY`. -/
def RightY : MathFunction2 → ℝ → ℝ → Prop
  | atan2, x, _ => x = 0
  | _, _, _ => True

variable (type : CType) {x y : ℝ}

@[simp] theorem eval_signOf (e : CExpr) :
    (signOf type e).eval x y = if 0 < e.eval x y then 1 else -1 := by
  simp [signOf, CExpr.eval]

/-- The sign of a quotient is the product of the signs. -/
theorem trunc_div (hy : y ≠ 0) :
    (trunc (x / y) : ℝ)
      = ⌊|x / y|⌋ * (if 0 < x then 1 else -1) * (if 0 < y then 1 else -1) := by
  rcases lt_trichotomy x 0 with hx | rfl | hx <;> rcases lt_or_gt_of_ne hy with hy | hy
  · have hq : 0 < x / y := div_pos_of_neg_of_neg hx hy
    rw [trunc, if_pos hq.le, abs_of_pos hq, if_neg hx.not_gt, if_neg hy.not_gt]
    ring
  · have hq : x / y < 0 := div_neg_of_neg_of_pos hx hy
    rw [trunc, if_neg hq.not_ge, abs_of_neg hq, if_neg hx.not_gt, if_pos hy, Int.floor_neg]
    push_cast
    ring
  · simp [trunc]
  · simp [trunc]
  · have hq : x / y < 0 := div_neg_of_pos_of_neg hx hy
    rw [trunc, if_neg hq.not_ge, abs_of_neg hq, if_pos hx, if_neg hy.not_gt, Int.floor_neg]
    push_cast
    ring
  · have hq : 0 < x / y := div_pos hx hy
    rw [trunc, if_pos hq.le, abs_of_pos hq, if_pos hx, if_pos hy]
    ring

/-- The opposite of the derivative is right where the derivative vanishes. -/
theorem div_eq_neg_div_iff {a D : ℝ} (hD : D ≠ 0) : -a / D = a / D ↔ a = 0 := by
  rw [div_left_inj' hD, neg_eq_self]

theorem derivX_iff (f : MathFunction2) (hdef : f.Defined x y)
    (h : DifferentiableAt ℝ (fun s => f.value s y) x) :
    (f.derivX type).eval x y = deriv (fun s => f.value s y) x ↔ f.RightX x y := by
  cases f with
  | atan2 =>
    have hplane : 0 < y ∨ x ≠ 0 := by
      by_contra hcut
      push Not at hcut
      obtain ⟨hy, rfl⟩ := hcut
      exact not_differentiableAt_atan2_x hy h
    have hD : x * x + y * y ≠ 0 := by
      rcases hplane with hy | hx
      · exact (add_pos_of_nonneg_of_pos (mul_self_nonneg x) (mul_pos hy hy)).ne'
      · exact (add_pos_of_pos_of_nonneg (mul_self_pos.mpr hx) (mul_self_nonneg y)).ne'
    rw [(hasDerivAt_atan2_x hplane).deriv]
    exact div_eq_neg_div_iff hD
  | fmod =>
    refine iff_of_true ?_ trivial
    rw [deriv_fmod_x h]
    simp [derivX, CExpr.eval]
  | pow =>
    refine iff_of_true ?_ trivial
    have hderiv : deriv (fun s => pow.value s y) x = y * x ^ (y - 1) :=
      (Real.hasDerivAt_rpow_const (.inl hdef.ne')).deriv
    rw [hderiv]
    by_cases hy : y = 0
    · simp [derivX, CExpr.eval, hy]
    · simp [derivX, CExpr.eval, hy]
  | copysign =>
    refine iff_of_true ?_ trivial
    rw [deriv_copysign_x h]
    have hx := ne_zero_of_differentiableAt_copysign h
    rcases lt_or_gt_of_ne hx with hx | hx <;> rcases le_or_gt 0 y with hy | hy
    · simp [derivX, CExpr.eval, hx, hy, Xor, not_le.mpr hx]
    · simp [derivX, CExpr.eval, hx, Xor, not_le.mpr hx, not_le.mpr hy]
    · simp [derivX, CExpr.eval, hx, hy, Xor, hx.le]
    · simp [derivX, CExpr.eval, hx, Xor, hx.le, not_le.mpr hy]

theorem derivY_iff (f : MathFunction2) (hdef : f.Defined x y)
    (h : DifferentiableAt ℝ (fun t => f.value x t) y) :
    (f.derivY type).eval x y = deriv (fun t => f.value x t) y ↔ f.RightY x y := by
  cases f with
  | atan2 =>
    by_cases hx : x = 0
    · subst hx
      rw [deriv_atan2_y_of_eq_zero h]
      exact iff_of_true (zero_div _) rfl
    · have hD : x * x + y * y ≠ 0 :=
        (add_pos_of_pos_of_nonneg (mul_self_pos.mpr hx) (mul_self_nonneg y)).ne'
      rw [(hasDerivAt_atan2_y (.inr hx)).deriv]
      exact eq_comm.trans (div_eq_neg_div_iff hD)
  | fmod =>
    refine iff_of_true ?_ trivial
    rw [deriv_fmod_y hdef h, trunc_div hdef]
    simp only [derivY, CExpr.eval, eval_signOf, neg_mul]
    congr
  | pow =>
    refine iff_of_true ?_ trivial
    have hpow : HasDerivAt (fun t => pow.value x t) (Real.log x * 1 * x ^ y) y :=
      (hasDerivAt_id' y).const_rpow hdef
    have hderiv : deriv (fun t => pow.value x t) y = x ^ y * Real.log x := by
      rw [hpow.deriv]
      ring
    rw [hderiv]
    simp [derivY, CExpr.eval, not_le.mpr (show 0 < x from hdef)]
  | copysign =>
    refine iff_of_true ?_ trivial
    rw [deriv_copysign_y h]
    simp [derivY, CExpr.eval]

/-- **Where the table is right.**  The partial derivatives of `atan2` have the wrong sign. -/
theorem partials_iff (f : MathFunction2) (hdef : f.Defined x y) :
    (DifferentiableAt ℝ (fun s => f.value s y) x →
      ((f.derivX type).eval x y = deriv (fun s => f.value s y) x ↔ f.RightX x y)) ∧
    (DifferentiableAt ℝ (fun t => f.value x t) y →
      ((f.derivY type).eval x y = deriv (fun t => f.value x t) y ↔ f.RightY x y)) :=
  ⟨derivX_iff type f hdef, derivY_iff type f hdef⟩

theorem partials_iff_pow :
    ((pow.derivX .float).eval 2 3 = deriv (fun s => pow.value s 3) 2) ∧
      ((pow.derivY .float).eval 2 3 = deriv (fun t => pow.value 2 t) 3) := by
  obtain ⟨hX, hY⟩ := partials_iff .float pow (x := 2) (y := 3) (show (0 : ℝ) < 2 by norm_num)
  refine ⟨(hX ?_).mpr trivial, (hY ?_).mpr trivial⟩
  · exact (Real.hasDerivAt_rpow_const (.inl two_ne_zero)).differentiableAt
  · exact ((hasDerivAt_id' (3 : ℝ)).const_rpow two_pos).differentiableAt

/-- The arguments of the regression test. -/
theorem not_right_atan2 :
    ¬((atan2.derivX .double).eval 3 4 = deriv (fun s => atan2.value s 4) 3) ∧
      ¬((atan2.derivY .double).eval 3 4 = deriv (fun t => atan2.value 3 t) 4) ∧
      DifferentiableAt ℝ (fun s => atan2.value s 4) 3 ∧
      DifferentiableAt ℝ (fun t => atan2.value 3 t) 4 := by
  have hX : HasDerivAt (fun s => atan2.value s 4) _ 3 := hasDerivAt_atan2_x (.inl (by norm_num))
  have hY : HasDerivAt (fun t => atan2.value 3 t) _ 4 := hasDerivAt_atan2_y (.inl (by norm_num))
  refine ⟨?_, ?_, hX.differentiableAt, hY.differentiableAt⟩
  · rw [hX.deriv]
    norm_num [derivX, sumOfSquares, CExpr.eval]
  · rw [hY.deriv]
    norm_num [derivY, sumOfSquares, CExpr.eval]

end MathFunction2

end Derivgrind
