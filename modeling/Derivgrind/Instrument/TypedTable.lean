import Derivgrind.Instrument.BarCode
import Derivgrind.Instrument.Typed

/-!
# The table is well-typed

The code that is emitted for an operation passes the sanity check, and the layers of the
shadow have the type of the result, with a few exceptions in recording mode:

* the partial derivative of `Iop_AbsF32` compares a double-precision number with a constant
  in single precision, and
* some expressions for recorded values apply an operation of single precision, or a
  vector operation, to double-precision numbers.

## Main definitions

* `IROp.illTyped` — the exceptions.

## Main results

* `entryTyped_of_irOpInfo` — **the code in the table passes the check.**
-/

namespace Derivgrind

open Emitter.Meaning

/-- Operations for which ill-typed code is emitted. -/
def IROp.illTyped (o : Options) : IROp → Bool
  | .abs .f32 => o.mode = .b
  | .neg l => o.mode = .b && o.barRecordValues && l ≠ .f64
  | .fma _ .f32 => o.mode = .b && o.barRecordValues
  | _ => false

section Rules

variable {w : IRType} {env : List IRType} {D : List IRTemp}

/-! ### Constants and tests -/

theorem typed_f64Const (bits : BitVec 64) : Typed env w D (f64Const bits) .f64 :=
  Typed.const (.f64 bits) rfl

theorem typed_mkIRConstZero (ty : IRType) : Typed env w D (mkIRConstZero ty) ty := by
  have hzero : Typed env w D mkIRConstZero.zeroF .f64 := (Typed.const (.u64 0) rfl).unop rfl
  have hu64 : Typed env w D (.const (.u64 0)) .i64 := Typed.const (.u64 0) rfl
  have hrm : Typed env w D defaultRounding .i32 := Typed.const (.u32 0) rfl
  cases ty with
  | i1 => exact Typed.const (.u1 false) rfl
  | i8 => exact Typed.const (.u8 0) rfl
  | i16 => exact Typed.const (.u16 0) rfl
  | i32 => exact Typed.const (.u32 0) rfl
  | i64 => exact hu64
  | i128 => exact Typed.const (.u128 0) rfl
  | f16 => exact Typed.binop rfl hrm hzero
  | f32 => exact Typed.const (.f32 0) rfl
  | f64 => exact hzero
  | d32 => exact Typed.binop rfl hrm hzero
  | d64 => exact Typed.binop rfl hrm hzero
  | d128 => exact Typed.binop rfl hrm hzero
  | f128 => exact hzero.unop rfl
  | v128 => exact Typed.binop rfl hu64 hu64
  | v256 => exact Typed.qop rfl hu64 hu64 hu64 hu64

/-- The constants with all bits set do not exist for all types. -/
theorem wpt_mkIRConstOnes (ty : IRType) {Q : IRExpr → List IRType → List IRTemp → Prop}
    (h : ∀ e, Typed env w D e ty → Q e env D) :
    (checkMeaning w).wp (mkIRConstOnes ty) env D Q := by
  have hu64 : Typed env w D mkIRConstOnes.onesU .i64 := Typed.const (.u64 _) rfl
  have hnone : (checkMeaning w).wp (ofOption none) env D Q := wpt_ofOption (by simp)
  cases ty with
  | i1 => exact wp_pure (h _ (Typed.const (.u1 true) rfl))
  | i8 => exact wp_pure (h _ (Typed.const (.u8 0xff) rfl))
  | i16 => exact wp_pure (h _ (Typed.const (.u16 0xffff) rfl))
  | i32 => exact wp_pure (h _ (Typed.const (.u32 0xffffffff) rfl))
  | i64 => exact wp_pure (h _ hu64)
  | i128 => exact wp_pure (h _ (Typed.binop rfl hu64 hu64))
  | f32 => exact wp_pure (h _ ((Typed.const (.u32 0xffffffff) rfl).unop rfl))
  | f64 => exact wp_pure (h _ (hu64.unop rfl))
  | v128 => exact wp_pure (h _ (Typed.binop rfl hu64 hu64))
  | v256 => exact wp_pure (h _ (Typed.qop rfl hu64 hu64 hu64 hu64))
  | _ => exact hnone

theorem typed_and1 {a b : IRExpr} (ha : Typed env w D a .i1) (hb : Typed env w D b .i1) :
    Typed env w D (and1 a b) .i1 := Typed.binop rfl ha hb

theorem typed_isZero {e : IRExpr} {ty : IRType} (h : Typed env w D e ty) :
    Typed env w D (isZero e (some ty)) .i1 := by
  have h64 : ∀ {e : IRExpr}, Typed env w D e .i64 → Typed env w D (isZero.isZero64 e) .i1 :=
    fun h => Typed.binop rfl h (Typed.const (.u64 0) rfl)
  have h128 : ∀ {e : IRExpr}, Typed env w D e .i128 → Typed env w D (isZero.isZero128 e) .i1 :=
    fun h => typed_and1 (h64 (h.unop rfl)) (h64 (h.unop rfl))
  have hv128 : ∀ {e : IRExpr}, Typed env w D e .v128 → Typed env w D (isZero.isZeroV128 e) .i1 :=
    fun h => typed_and1 (h64 (h.unop rfl)) (h64 (h.unop rfl))
  cases ty with
  | i1 => exact h.unop rfl
  | i8 => exact Typed.binop rfl h (Typed.const (.u8 0) rfl)
  | i16 => exact Typed.binop rfl h (Typed.const (.u16 0) rfl)
  | i32 => exact Typed.binop rfl h (Typed.const (.u32 0) rfl)
  | i64 => exact h64 h
  | i128 => exact h128 h
  | f32 => exact Typed.binop rfl (h.unop rfl) (Typed.const (.u32 0) rfl)
  | f64 => exact h64 (h.unop rfl)
  | f128 => exact h128 (h.unop rfl)
  | v128 => exact hv128 h
  | v256 => exact typed_and1 (hv128 (h.unop rfl)) (hv128 (h.unop rfl))
  | _ => exact Typed.const (.u1 false) rfl

theorem typed_mkIRConstFptwo (l : ArithLayout) :
    Typed env w D (mkIRConstFptwo l.simd.fpsize l.simd.simdsize) l.simd.type := by
  have h64 : Typed env w D mkIRConstFptwo.two64 .i64 := (typed_f64Const f64Two).unop rfl
  have h32 : Typed env w D mkIRConstFptwo.two32 .i32 := (Typed.const (.f32 f32Two) rfl).unop rfl
  have h32x2 : Typed env w D mkIRConstFptwo.two32x2 .i64 := Typed.binop rfl h32 h32
  cases l with
  | f64 => exact typed_f64Const f64Two
  | f32 => exact Typed.const (.f32 f32Two) rfl
  | p64Fx2 => exact Typed.binop rfl h64 h64
  | p64Fx4 => exact Typed.qop rfl h64 h64 h64 h64
  | p32Fx4 => exact Typed.binop rfl h32x2 h32x2
  | p32Fx8 => exact Typed.qop rfl h32x2 h32x2 h32x2 h32x2
  | p32F0x4 => exact Typed.binop rfl h32x2 h32x2
  | p64F0x2 => exact Typed.binop rfl h64 h64

/-! ### Recording operations -/

theorem wpt_dgBarWriteToTape {o : Options} {a b c d p q v : IRExpr} (hb : Bounded env D)
    (hargs : TypedAll env w D 4 .i64 [a, b, c, d]) (hp : Typed env w D p .f64)
    (hq : Typed env w D q .f64) (hv : o.barRecordValues = true → Typed env w D v .f64) :
    (checkMeaning w).wp (dgBarWriteToTape o a b c d p q v) env D fun outs env' D' =>
      Adds env D env' D' ∧ TypedAll env' w D' 2 .i64 outs := by
  apply wpt_newDirtyTmp hb
  · apply typedArgs_of_i64
    intro e he
    have hdiffs : ∀ e ∈ [IRExpr.unop (.unMove .reinterpF64asI64) p,
        IRExpr.unop (.unMove .reinterpF64asI64) q], Typed env w D e .i64 :=
      (TypedAll.cons (hp.unop rfl) (TypedAll.cons (hq.unop rfl) (TypedAll.nil .i64))).2
    rcases List.mem_append.mp (show e ∈ [a, b, c, d] ++ _ from he) with hindex | hdiff
    · exact hargs.2 e hindex
    · exact hdiffs e hdiff
  intro env' D' tmp hadds htmp
  have hlayers : TypedAll env' w D' 2 .i64
      [.binop (.binMove .op32HLto64) (.const (.u32 0)) (.unop (.unMove .op64to32) (.rdTmp tmp)),
        .binop (.binMove .op32HLto64) (.const (.u32 0))
          (.unop (.unMove .op64HIto32) (.rdTmp tmp))] := by
    apply TypedAll.cons (Typed.binop rfl (Typed.const (.u32 0) rfl) (htmp.unop rfl))
    exact TypedAll.cons (Typed.binop rfl (Typed.const (.u32 0) rfl) (htmp.unop rfl)) (TypedAll.nil _)
  split
  · rename_i hvalues
    apply wp_bind
    apply wpt_addDirty
    · apply typedArgs_of_i64
      exact (TypedAll.cons (((hv hvalues).adds hadds).unop rfl) (TypedAll.cons htmp (TypedAll.nil .i64))).2
    · exact wp_pure ⟨hadds, hlayers⟩
  · exact wp_pure ⟨hadds, hlayers⟩

theorem typed_partAsF64 {fpsize : ℕ} {part : IRExpr} (h : Typed env w D part .i64) :
    Typed env w D (partAsF64 fpsize part) .f64 := by
  unfold partAsF64
  split
  · exact ((h.unop rfl).unop rfl).unop rfl
  · exact h.unop rfl

/-- Code for an operation with typed inputs: `n` of them, as double-precision numbers. -/
def TypedFrom (w : IRType) (env : List IRType) (D : List IRTemp) (n : ℕ)
    (f : (ℕ → IRExpr) → IRExpr) : Prop :=
  ∀ env' D' partF, Adds env D env' D' → (∀ m < n, Typed env' w D' (partF m) .f64) →
    Typed env' w D' (f partF) .f64

/-- The partial derivatives of an operation are typed. -/
def PartialsTyped (w : IRType) (env : List IRType) (D : List IRTemp) (n : ℕ)
    (partials : (ℕ → IRExpr) → List IRExpr) : Prop :=
  ∀ env' D' partF, Adds env D env' D' → (∀ m < n, Typed env' w D' (partF m) .f64) →
    TypedAll env' w D' n .f64 (partials partF)

theorem bodyTyped_barBody {o : Options} {n fpsize : ℕ} (hn : n = 1 ∨ n = 2 ∨ n = 3)
    {partials : (ℕ → IRExpr) → List IRExpr} {value : (ℕ → IRExpr) → IRExpr} (hb : Bounded env D)
    (hpartials : PartialsTyped w env D n partials)
    (hvalue : o.barRecordValues = true → TypedFrom w env D n value) :
    BodyTyped w env D (3 * n) 2 (barBody o n fpsize partials value) := by
  intro env' D' parts hadds hparts
  have hb' := hadds.bounded hb
  have hpartF : ∀ m < n, Typed env' w D' (partAsF64 fpsize (inputParts parts m).1) .f64 :=
    fun m hm => typed_partAsF64 (hparts.getD (by omega))
  have hlo : ∀ m < n, Typed env' w D' (inputParts parts m).2.1 .i64 :=
    fun m hm => hparts.getD (by omega)
  have hhi : ∀ m < n, Typed env' w D' (inputParts parts m).2.2 .i64 :=
    fun m hm => hparts.getD (by omega)
  have hdiffs := hpartials env' D' _ hadds hpartF
  have hval : o.barRecordValues = true → Typed env' w D' (value _) .f64 :=
    fun h => hvalue h env' D' _ hadds hpartF
  have hzero : Typed env' w D' (.const (.u64 0)) .i64 := Typed.const (.u64 0) rfl
  rcases hn with rfl | rfl | rfl
  · obtain ⟨p, hp⟩ := List.length_eq_one_iff.mp hdiffs.1
    rw [barBody_one hp]
    rw [hp] at hdiffs
    refine wpt_dgBarWriteToTape hb' ?_ (hdiffs.2 p (by simp)) (typed_f64Const 0) hval
    exact .cons (hlo 0 (by decide)) (.cons (hhi 0 (by decide)) (.cons hzero (.cons hzero (.nil _))))
  · obtain ⟨p, q, hp⟩ := List.length_eq_two.mp hdiffs.1
    rw [barBody_two hp]
    rw [hp] at hdiffs
    refine wpt_dgBarWriteToTape hb' ?_ (hdiffs.2 p (by simp)) (hdiffs.2 q (by simp)) hval
    exact .cons (hlo 0 (by decide)) (.cons (hhi 0 (by decide)) (.cons (hlo 1 (by decide))
      (.cons (hhi 1 (by decide)) (.nil _))))
  · obtain ⟨p, q, r, hp⟩ := List.length_eq_three.mp hdiffs.1
    rw [barBody_three hp]
    rw [hp] at hdiffs
    apply wp_bind
    have hfirst : TypedAll env' w D' 4 .i64 [(inputParts parts 0).2.1, (inputParts parts 0).2.2,
        (inputParts parts 1).2.1, (inputParts parts 1).2.2] :=
      .cons (hlo 0 (by decide)) (.cons (hhi 0 (by decide)) (.cons (hlo 1 (by decide))
        (.cons (hhi 1 (by decide)) (.nil _))))
    apply wp_mono (wpt_dgBarWriteToTape hb' hfirst (hdiffs.2 p (by simp)) (hdiffs.2 q (by simp))
      fun _ => typed_f64Const 0)
    rintro outs env'' D'' ⟨hadds', houts⟩
    have hsecond : TypedAll env'' w D'' 4 .i64 [outs.getD 0 .vecret, outs.getD 1 .vecret,
        (inputParts parts 2).2.1, (inputParts parts 2).2.2] :=
      .cons (houts.getD (by decide)) (.cons (houts.getD (by decide))
        (.cons ((hlo 2 (by decide)).adds hadds') (.cons ((hhi 2 (by decide)).adds hadds') (.nil _))))
    apply wp_mono (wpt_dgBarWriteToTape (hadds'.bounded hb') hsecond (typed_f64Const f64One)
      ((hdiffs.2 r (by simp)).adds hadds') fun h => (hval h).adds hadds')
    rintro outs' env₃ D₃ ⟨hadds'', houts'⟩
    exact ⟨hadds'.trans hadds'', houts'⟩

theorem bodyTyped_copyBody {n : ℕ} (hn : 1 ≤ n) : BodyTyped w env D (3 * n) 2 copyBody := by
  intro env' D' parts _ hparts
  refine wp_pure ⟨Adds.refl env' D', ?_⟩
  exact .cons (hparts.getD (by omega)) (.cons (hparts.getD (by omega)) (.nil _))

theorem wpt_dgTrickWarn {fpsize : ℕ} {lo hi : IRExpr} (hlo : Typed env w D lo .i64)
    (hhi : Typed env w D hi .i64) {Q : Unit → List IRType → List IRTemp → Prop}
    (h : Q () env D) : (checkMeaning w).wp (dgTrickWarn fpsize lo hi) env D Q := by
  apply wpt_addDirty (typedArgs_of_i64 ?_) h
  exact (TypedAll.cons hlo (.cons hhi (.cons (Typed.const (.u64 _) rfl) (.nil .i64)))).2

theorem typed_allzero {f : ℕ → IRExpr} {ms : List ℕ} (hf : ∀ m ∈ ms, Typed env w D (f m) .i64) :
    ∀ {e : IRExpr}, Typed env w D e .i1 →
      Typed env w D (ms.foldl (fun e m => and1 e (isZero (f m) (some .i64))) e) .i1 := by
  induction ms with
  | nil => exact fun h => h
  | cons m ms ih =>
    intro e he
    exact ih (fun m' hm' => hf m' (List.mem_cons_of_mem m hm'))
      (typed_and1 he (typed_isZero (hf m List.mem_cons_self)))

theorem bodyTyped_trickBody {n fpsize : ℕ} {floatinputs : List ℕ} {discrete : Bool}
    (hfloat : ∀ m ∈ floatinputs, m < n) :
    BodyTyped w env D (3 * n) 2 (trickBody n floatinputs discrete fpsize) := by
  intro env' D' parts _ hparts
  have hlo : ∀ m < n, Typed env' w D' (inputParts parts m).2.1 .i64 :=
    fun m hm => hparts.getD (by omega)
  have hhi : ∀ m < n, Typed env' w D' (inputParts parts m).2.2 .i64 :=
    fun m hm => hparts.getD (by omega)
  apply wp_bind
  apply wp_mapList_pure (P := fun _ _ => True)
  · intro m hm
    exact wpt_dgTrickWarn (hlo m (hfloat m hm)) (hhi m (hfloat m hm)) ⟨rfl, rfl, trivial⟩
  intro _ _
  apply wp_bind
  apply wpt_mkIRConstOnes
  intro ones hones
  have hzero : Typed env' w D' (mkIRConstZero .i64) .i64 := typed_mkIRConstZero .i64
  have hrange : ∀ m ∈ List.range n, Typed env' w D' (inputParts parts m).2.1 .i64 :=
    fun m hm => hlo m (List.mem_range.mp hm)
  have hall := typed_allzero hrange (Typed.const (.u1 true) rfl)
  refine wp_pure ⟨Adds.refl env' D', .cons (Typed.ite hall hzero hones) (.cons ?_ (.nil _))⟩
  split
  · exact hones
  · exact hzero

/-- The bodies of operations that may be lowest-lane-only. -/
theorem bodyTyped_llo {n : ℕ} {l : Simd} {body : List IRExpr → Emit (List IRExpr)} (hn : 1 ≤ n)
    (hbody : BodyTyped w env D (3 * n) 2 body) (c : ℕ) :
    BodyTyped w env D (3 * n) 2 (if l.llo && c ≠ 0 then copyBody else body) := by
  split
  · exact bodyTyped_copyBody hn
  · exact hbody

/-- The `i`-th argument has the type given by the signature; arguments are numbered from one. -/
def TypedArg (env : List IRType) (w : IRType) (D : List IRTemp) (op : IROp) (x : ℕ → IRExpr)
    (i : ℕ) : Prop :=
  ∀ ty, (typeOfPrimop op).args[i - 1]? = some ty → Typed env w D (x i) ty

/-- The arguments of an operation are typed, and both shadow layers of some of them.  In
forward mode, `lo` and `hi` are the same. -/
structure Operands (env : List IRType) (w : IRType) (D : List IRTemp) (op : IROp)
    (inputs : List ℕ) (arg lo hi : ℕ → IRExpr) : Prop where
  bounded : Bounded env D
  arg : ∀ i, TypedArg env w D op arg i
  lo : ∀ i ∈ inputs, TypedArg env w D op lo i
  hi : ∀ i ∈ inputs, TypedArg env w D op hi i

/-- Code for all layers of the result of an operation passes the check. -/
def LayersTyped (w : IRType) (env : List IRType) (D : List IRTemp) (n : ℕ) (ty : IRType)
    (m : Emit (List IRExpr)) : Prop :=
  (checkMeaning w).wp m env D fun layers env' D' =>
    Adds env D env' D' ∧ TypedAll env' w D' n ty layers

theorem Operands.typedVector {op : IROp} {ty : IRType} {inputs : List ℕ} {size : ℕ}
    {arg lo hi : ℕ → IRExpr} (h : Operands env w D op inputs arg lo hi)
    (hvec : ty.isVector = true) (hsize : sizeofIRType ty = size)
    (hop : ∀ i ∈ inputs, (typeOfPrimop op).args[i - 1]? = some ty) :
    ∀ e ∈ layeredInputs inputs arg lo hi, TypedVector env w D size e := by
  intro e he
  obtain ⟨i, hi', he⟩ := List.mem_flatMap.mp he
  have hty := hop i hi'
  have hall : TypedAll env w D 3 ty [arg i, lo i, hi i] :=
    .cons (h.arg i ty hty) (.cons (h.lo i hi' ty hty) (.cons (h.hi i hi' ty hty) (.nil _)))
  exact ⟨ty, hall.2 e he, hvec, hsize⟩

theorem length_layeredInputs (inputs : List ℕ) (arg lo hi : ℕ → IRExpr) :
    (layeredInputs inputs arg lo hi).length = 3 * inputs.length := by
  simp [layeredInputs, List.length_flatMap, Nat.mul_comm]

/-- The rule for code for one component, followed by a cast. -/
theorem layersTyped_cast {op : IROp} {l : Simd} {inputs : List IRExpr}
    {body : ℕ → List IRExpr → Emit (List IRExpr)}
    (hl : Simd.valid ⟨l.fpsize, l.simdsize, false⟩ = true)
    (hvec : (typeOfPrimop op).dst.isVector = true)
    (hsize : sizeofIRType (typeOfPrimop op).dst = l.fpsize * l.simdsize)
    (hin : ∀ e ∈ inputs, TypedVector env w D (l.fpsize * l.simdsize) e)
    (hbody : ∀ c, BodyTyped w env D inputs.length 2 (body c)) :
    LayersTyped w env D 2 (typeOfPrimop op).dst (do
      let layers ← applyComponentwisely inputs 2 l.fpsize l.simdsize body
      reinterpretLayers op layers) := by
  apply wp_bind
  apply wp_mono (wpt_applyComponentwisely hl hin hbody)
  rintro layers env' D' ⟨hadds, hlen, hlayers⟩
  apply wp_mapList_pure (P := fun _ e => Typed env' w D' e (typeOfPrimop op).dst)
  · intro e he
    apply wpt_reinterpretType hvec (by rw [hsize]; exact hlayers e he)
    intro e' he'
    exact ⟨rfl, rfl, he'⟩
  · intro es hes
    exact ⟨hadds, by rw [← hes.length_eq, hlen], forall_mem_of_forall₂ hes⟩

/-- An operation that acts on all components of some inputs, which have the type of the
result. -/
structure Componentwise (op : IROp) (inputs : List ℕ) (l : Simd) : Prop where
  valid : Simd.valid ⟨l.fpsize, l.simdsize, false⟩ = true
  isVector : (typeOfPrimop op).dst.isVector = true
  size : sizeofIRType (typeOfPrimop op).dst = l.fpsize * l.simdsize
  args : ∀ i ∈ inputs, (typeOfPrimop op).args[i - 1]? = some (typeOfPrimop op).dst
  arity : inputs.length = 1 ∨ inputs.length = 2 ∨ inputs.length = 3

section Create

variable {o : Options} {op : IROp} {inputs : List ℕ} {l : Simd} {arg lo hi : ℕ → IRExpr}

theorem layersTyped_createBarCode {partials : (ℕ → IRExpr) → List IRExpr}
    {value : (ℕ → IRExpr) → IRExpr} (hop : Componentwise op inputs l)
    (h : Operands env w D op inputs arg lo hi)
    (hpartials : PartialsTyped w env D inputs.length partials)
    (hvalue : o.barRecordValues = true → TypedFrom w env D inputs.length value) :
    LayersTyped w env D 2 (typeOfPrimop op).dst
      (createBarCode o op inputs partials value l arg lo hi) := by
  have harity := hop.arity
  apply layersTyped_cast hop.valid hop.isVector hop.size
  · exact h.typedVector hop.isVector hop.size hop.args
  · intro c
    rw [length_layeredInputs]
    exact bodyTyped_llo (by omega) (bodyTyped_barBody harity h.bounded hpartials hvalue) c

theorem layersTyped_createTrickCode {floatinputs : List ℕ} {discrete : Bool}
    (hop : Componentwise op inputs l) (h : Operands env w D op inputs arg lo hi)
    (hfloat : ∀ m ∈ floatinputs, m < inputs.length) :
    LayersTyped w env D 2 (typeOfPrimop op).dst
      (createTrickCode op inputs floatinputs discrete l arg lo hi) := by
  have harity := hop.arity
  apply layersTyped_cast hop.valid hop.isVector hop.size
  · exact h.typedVector hop.isVector hop.size hop.args
  · intro c
    rw [length_layeredInputs]
    exact bodyTyped_llo (by omega) (bodyTyped_trickBody hfloat) c

end Create

/-! ### Entries -/

theorem componentwise_arith (op : ArithOp) (l : ArithLayout) :
    Componentwise (.arith op l) [l.firstOperand, l.firstOperand + 1] l.simd := by
  cases op <;> cases l <;> exact ⟨rfl, rfl, rfl, by decide, by decide⟩

theorem componentwise_sqrt (l : ArithLayout) :
    Componentwise (.sqrt l) [l.sqrtOperand] l.simd := by
  cases l <;> exact ⟨rfl, rfl, rfl, by decide, by decide⟩

theorem componentwise_neg (l : NegLayout) : Componentwise (.neg l) [1] l.simd := by
  cases l <;> exact ⟨rfl, rfl, rfl, by decide, by decide⟩

theorem componentwise_abs (l : ScalarLayout) : Componentwise (.abs l) [1] l.simd := by
  cases l <;> exact ⟨rfl, rfl, rfl, by decide, by decide⟩

theorem componentwise_minMax (op : MinMaxOp) (l : MinMaxLayout) :
    Componentwise (.minMax op l) [1, 2] l.simd := by
  cases op <;> cases l <;> exact ⟨rfl, rfl, rfl, by decide, by decide⟩

theorem componentwise_fma (sub : Bool) (l : ScalarLayout) :
    Componentwise (.fma sub l) [2, 3, 4] l.simd := by
  cases sub <;> cases l <;> exact ⟨rfl, rfl, rfl, by decide, by decide⟩

theorem componentwise_scaleF64 : Componentwise .scaleF64 [2] ⟨8, 1, false⟩ :=
  ⟨rfl, rfl, rfl, by decide, by decide⟩

theorem componentwise_yl2x {op : IROp} (hop : typeOfPrimop op = ⟨[rmode, .f64, .f64], .f64⟩) :
    Componentwise op [2, 3] ⟨8, 1, false⟩ := by
  refine ⟨rfl, ?_, ?_, ?_, by decide⟩ <;> rw [hop]
  · rfl
  · rfl
  · simp

theorem typed_applyArith {op : ArithOp} {l : ArithLayout} {rm a b : IRExpr}
    (hrm : l.simd.llo = false → Typed env w D rm rmode) (ha : Typed env w D a l.simd.type)
    (hb : Typed env w D b l.simd.type) :
    Typed env w D (applyArith op l rm a b) l.simd.type := by
  unfold applyArith
  split
  · rename_i hllo
    exact Typed.binop (by rw [typeOfPrimop, if_pos hllo]) ha hb
  · rename_i hllo
    exact Typed.triop (by rw [typeOfPrimop, if_neg hllo]) (hrm (by simpa using hllo)) ha hb

theorem typed_f64Op (op : ArithOp) {rm a b : IRExpr} (hrm : Typed env w D rm rmode)
    (ha : Typed env w D a .f64) (hb : Typed env w D b .f64) :
    Typed env w D (f64Op op rm a b) .f64 := Typed.triop rfl hrm ha hb

theorem typed_dgRoundingMode : Typed env w D dgRoundingMode rmode := Typed.const (.u32 0) rfl

theorem typed_isLess {cmp : IROp} {ty : IRType} {a b : IRExpr}
    (hop : typeOfPrimop cmp = ⟨[ty, ty], .i32⟩) (ha : Typed env w D a ty)
    (hb : Typed env w D b ty) : Typed env w D (isLess cmp a b) .i1 :=
  (Typed.binop hop ha hb).unop rfl

/-- What the code of an entry of the table does: it passes the check, and the layers of the
shadow have the type of the result. -/
structure EntryTyped (op : IROp) (info : IROpInfo) : Prop where
  dotcode : ∀ {w env D arg d}, Operands env w D op info.diffinputs arg d d →
    (checkMeaning w).wp (info.dotcode arg d) env D fun e env' D' =>
      Adds env D env' D' ∧ Typed env' w D' e (typeOfPrimop op).dst
  barcode : ∀ {w env D arg lo hi o}, Operands env w D op info.diffinputs arg lo hi →
    o.mode = .b → op.illTyped o = false →
    LayersTyped w env D 2 (typeOfPrimop op).dst (info.barcode o arg lo hi)
  trickcode : ∀ {w env D arg lo hi}, Operands env w D op info.trickinputs arg lo hi →
    LayersTyped w env D 2 (typeOfPrimop op).dst (info.trickcode arg lo hi)

/-- Code that emits nothing. -/
theorem wpt_pure {e : IRExpr} {ty : IRType} (h : Typed env w D e ty) :
    (checkMeaning w).wp (pure e) env D fun e env' D' =>
      Adds env D env' D' ∧ Typed env' w D' e ty :=
  wp_pure ⟨Adds.refl env D, h⟩

theorem layersTyped_pure {lo hi : IRExpr} {ty : IRType} (hlo : Typed env w D lo ty)
    (hhi : Typed env w D hi ty) : LayersTyped w env D 2 ty (pure [lo, hi]) :=
  wp_pure ⟨Adds.refl env D, .cons hlo (.cons hhi (.nil _))⟩

theorem typed_arithDot {op : ArithOp} {l : ArithLayout} {arg d : ℕ → IRExpr}
    (h : Operands env w D (.arith op l) (arithInfo op l).diffinputs arg d d) :
    Typed env w D (arithDot op l arg d) l.simd.type := by
  have hdst : (typeOfPrimop (.arith op l)).dst = l.simd.type := by cases l <;> rfl
  have hargs := (componentwise_arith op l).args
  rw [hdst] at hargs
  have hrm : l.simd.llo = false → Typed env w D (arg 1) rmode := by
    intro hllo
    exact h.arg 1 rmode (by rw [typeOfPrimop, hllo]; rfl)
  have hx := h.arg _ _ (hargs _ (List.mem_cons_self))
  have hy := h.arg _ _ (hargs (l.firstOperand + 1) (by simp))
  have hxd := h.lo _ (List.mem_cons_self) _ (hargs _ (List.mem_cons_self))
  have hyd := h.lo (l.firstOperand + 1) (by simp [arithInfo]) _ (hargs _ (by simp))
  have happ : ∀ op' {a b : IRExpr}, Typed env w D a l.simd.type → Typed env w D b l.simd.type →
      Typed env w D (applyArith op' l (arg 1) a b) l.simd.type :=
    fun op' _ _ ha hb => typed_applyArith hrm ha hb
  cases op with
  | add => exact happ .add hxd hyd
  | sub => exact happ .sub hxd hyd
  | mul => exact happ .add (happ .mul hxd hy) (happ .mul hyd hx)
  | div => exact happ .div (happ .sub (happ .mul hxd hy) (happ .mul hx hyd)) (happ .mul hy hy)

theorem partialsTyped_arith (op : ArithOp) : PartialsTyped w env D 2 (arithPartials op) := by
  intro env' D' partF _ hpartF
  have hx := hpartF 0 (by decide)
  have hy := hpartF 1 (by decide)
  have hrm : Typed env' w D' dgRoundingMode rmode := typed_dgRoundingMode
  cases op with
  | add => exact .cons (typed_f64Const _) (.cons (typed_f64Const _) (.nil _))
  | sub => exact .cons (typed_f64Const _) (.cons (typed_f64Const _) (.nil _))
  | mul => exact .cons hy (.cons hx (.nil _))
  | div =>
    apply TypedAll.cons (typed_f64Op .div hrm (typed_f64Const _) hy)
    exact .cons (typed_f64Op .div hrm (typed_f64Op .mul hrm (typed_f64Const _) hx)
      (typed_f64Op .mul hrm hy hy)) (.nil _)

theorem entryTyped_arith (op : ArithOp) (l : ArithLayout) :
    EntryTyped (.arith op l) (arithInfo op l) := by
  have hdst : (typeOfPrimop (.arith op l)).dst = l.simd.type := by cases l <;> rfl
  refine ⟨?_, ?_, ?_⟩
  · intro w env D arg d h
    rw [hdst]
    exact wpt_pure (typed_arithDot h)
  · intro w env D arg lo hi o h _ _
    apply layersTyped_createBarCode (componentwise_arith op l) h (partialsTyped_arith op)
    intro _ env' D' partF _ hpartF
    exact typed_f64Op op typed_dgRoundingMode (hpartF 0 (by simp)) (hpartF 1 (by simp))
  · intro w env D arg lo hi h
    exact layersTyped_createTrickCode (componentwise_arith op l) h (by simp)

theorem typed_sqrtDot {l : ArithLayout} {arg d : ℕ → IRExpr}
    (h : Operands env w D (.sqrt l) (sqrtInfo l).diffinputs arg d d) :
    Typed env w D (sqrtDot l arg d) l.simd.type := by
  have hdst : (typeOfPrimop (.sqrt l)).dst = l.simd.type := by cases l <;> rfl
  have hargs := (componentwise_sqrt l).args _ List.mem_cons_self
  rw [hdst] at hargs
  have hx := h.arg _ _ hargs
  have hxd := h.lo _ List.mem_cons_self _ hargs
  have htwo : Typed env w D (mkIRConstFptwo l.simd.fpsize l.simd.simdsize) l.simd.type :=
    typed_mkIRConstFptwo l
  unfold sqrtDot
  by_cases hno : l.sqrtNoRoundingMode = true
  · rw [ArithLayout.sqrtOperand, if_pos hno] at hx
    simp only [hno, if_true]
    have hroot : Typed env w D (.unop (.sqrt l) (arg 1)) l.simd.type :=
      hx.unop (by rw [typeOfPrimop, if_pos hno])
    exact typed_applyArith (fun _ => typed_dgRoundingMode) hxd
      (typed_applyArith (fun _ => typed_dgRoundingMode) htwo hroot)
  · rw [ArithLayout.sqrtOperand, if_neg hno] at hx
    simp only [hno, Bool.false_eq_true, if_false]
    have hrm : Typed env w D (arg 1) rmode := h.arg 1 rmode (by rw [typeOfPrimop, if_neg hno]; rfl)
    have hroot : Typed env w D (.binop (.sqrt l) (arg 1) (arg 2)) l.simd.type :=
      Typed.binop (by rw [typeOfPrimop, if_neg hno]) hrm hx
    exact typed_applyArith (fun _ => hrm) hxd (typed_applyArith (fun _ => hrm) htwo hroot)

theorem entryTyped_sqrt (l : ArithLayout) : EntryTyped (.sqrt l) (sqrtInfo l) := by
  have hdst : (typeOfPrimop (.sqrt l)).dst = l.simd.type := by cases l <;> rfl
  have hroot : ∀ {w env D} {a : IRExpr}, Typed env w D a .f64 →
      Typed env w D (.binop (.sqrt .f64) dgRoundingMode a) .f64 :=
    fun ha => Typed.binop rfl typed_dgRoundingMode ha
  refine ⟨?_, ?_, ?_⟩
  · intro w env D arg d h
    rw [hdst]
    exact wpt_pure (typed_sqrtDot h)
  · intro w env D arg lo hi o h _ _
    apply layersTyped_createBarCode (componentwise_sqrt l) h
    · intro env' D' partF _ hpartF
      exact .cons (typed_f64Op .div typed_dgRoundingMode (typed_f64Const _)
        (hroot (hpartF 0 (by simp)))) (.nil _)
    · intro _ env' D' partF _ hpartF
      exact hroot (hpartF 0 (by simp))
  · intro w env D arg lo hi h
    exact layersTyped_createTrickCode (componentwise_sqrt l) h (by simp)

theorem entryTyped_neg (l : NegLayout) : EntryTyped (.neg l) (negInfo l) := by
  refine ⟨?_, ?_, ?_⟩
  · intro w env D arg d h
    exact wpt_pure ((h.lo 1 (by simp [negInfo]) _ rfl).unop rfl)
  · intro w env D arg lo hi o h hmode hill
    apply layersTyped_createBarCode (componentwise_neg l) h
    · intro env' D' partF _ _
      exact .cons (typed_f64Const _) (.nil _)
    · intro hvalues env' D' partF _ hpartF
      -- only the operation for scalars of double precision fits the components
      obtain rfl : l = .f64 := by simpa [IROp.illTyped, hmode, hvalues] using hill
      exact (hpartF 0 (by simp)).unop rfl
  · intro w env D arg lo hi h
    exact layersTyped_createTrickCode (componentwise_neg l) h (by simp)

theorem entryTyped_abs (l : ScalarLayout) : EntryTyped (.abs l) (absInfo l) := by
  refine ⟨?_, ?_, ?_⟩
  · intro w env D arg d h
    have hx := h.arg 1 _ rfl
    have hxd := h.lo 1 (by simp [absInfo]) _ rfl
    have hzero : Typed env w D l.zero l.simd.type := by
      cases l <;> exact Typed.const _ rfl
    have hcmp : typeOfPrimop l.cmp = ⟨[l.simd.type, l.simd.type], .i32⟩ := by cases l <;> rfl
    have hneg : typeOfPrimop l.neg = ⟨[l.simd.type], l.simd.type⟩ := by cases l <;> rfl
    exact wpt_pure (Typed.ite (typed_isLess hcmp hx hzero) (hxd.unop hneg) hxd)
  · intro w env D arg lo hi o h hmode hill
    obtain rfl : l = .f64 := by
      cases l with
      | f64 => rfl
      | f32 => simp [IROp.illTyped, hmode] at hill
    apply layersTyped_createBarCode (componentwise_abs .f64) h
    · intro env' D' partF _ hpartF
      exact .cons (Typed.ite (typed_isLess rfl (hpartF 0 (by simp)) (Typed.const (.f64i 0) rfl))
        (typed_f64Const _) (typed_f64Const _)) (.nil _)
    · intro _ env' D' partF _ hpartF
      exact (hpartF 0 (by simp)).unop rfl
  · intro w env D arg lo hi h
    exact layersTyped_createTrickCode (componentwise_abs l) h (by simp)

/-- A function of Derivgrind that is applied to the components of the operands and of their
dot values. -/
theorem wpt_dotCcall {op : IROp} {l : Simd} {arg d : ℕ → IRExpr} (helper : ToolHelper)
    (hop : Componentwise op [1, 2] l)
    (hdst : (typeOfPrimop op).dst = vecTy (l.fpsize * l.simdsize))
    (h : Operands env w D op [1, 2] arg d d) :
    (checkMeaning w).wp (do
      let out ← applyComponentwisely [arg 1, d 1, arg 2, d 2] 1 l.fpsize l.simdsize
        fun _ parts => pure [.ccall (.tool helper) .i64 parts]
      return out.getD 0 .vecret) env D fun e env' D' =>
        Adds env D env' D' ∧ Typed env' w D' e (typeOfPrimop op).dst := by
  have h1 := hop.args 1 (by simp)
  have h2 := hop.args 2 (by simp)
  have hall : TypedAll env w D 4 (typeOfPrimop op).dst [arg 1, d 1, arg 2, d 2] :=
    .cons (h.arg 1 _ h1) (.cons (h.lo 1 (by simp) _ h1) (.cons (h.arg 2 _ h2)
      (.cons (h.lo 2 (by simp) _ h2) (.nil _))))
  apply wp_bind
  apply wp_mono (wpt_applyComponentwisely hop.valid
    (fun e he => ⟨_, hall.2 e he, hop.isVector, hop.size⟩) ?_)
  · rintro out env' D' ⟨hadds, hout⟩
    rw [hdst]
    exact wp_pure ⟨hadds, hout.getD (by decide)⟩
  · intro c env' D' parts _ hparts
    refine wp_pure ⟨Adds.refl env' D', .cons ?_ (.nil _)⟩
    exact Typed.ccall _ (by decide) fun e he => ⟨.i64, hparts.2 e he, by decide⟩

theorem entryTyped_minMax (op : MinMaxOp) (l : MinMaxLayout) :
    EntryTyped (.minMax op l) (minMaxInfo op l) := by
  refine ⟨?_, ?_, ?_⟩
  · intro w env D arg d h
    exact wpt_dotCcall _ (componentwise_minMax op l) (by cases l <;> rfl) h
  · intro w env D arg lo hi o h _ _
    apply layersTyped_createBarCode (componentwise_minMax op l) h
    · intro env' D' partF _ hpartF
      have hselect : ∀ x y, Typed env' w D' (selectPartial partF x y) .f64 := by
        intro x y
        exact Typed.ite (typed_isLess rfl (hpartF 0 (by simp)) (hpartF 1 (by simp)))
          (typed_f64Const x) (typed_f64Const y)
      cases op with
      | min => exact .cons (hselect _ _) (.cons (hselect _ _) (.nil _))
      | max => exact .cons (hselect _ _) (.cons (hselect _ _) (.nil _))
    · intro _ env' D' partF _ hpartF
      have hx := hpartF 0 (by simp)
      have hy := hpartF 1 (by simp)
      cases op with
      | min => exact Typed.ite (typed_isLess rfl hx hy) hx hy
      | max => exact Typed.ite (typed_isLess rfl hx hy) hy hx
  · intro w env D arg lo hi h
    exact layersTyped_createTrickCode (componentwise_minMax op l) h (by simp)

theorem typed_fmaDot {sub : Bool} {ty : IRType} {conv : IRExpr → IRExpr} {arg d : ℕ → IRExpr}
    (hconv : ∀ {e : IRExpr}, Typed env w D e ty → Typed env w D (conv e) .f64)
    (hrm : Typed env w D (arg 1) rmode) (harg : ∀ i ∈ [2, 3, 4], Typed env w D (arg i) ty)
    (hd : ∀ i ∈ [2, 3, 4], Typed env w D (d i) ty) :
    Typed env w D (fmaDot sub conv arg d) .f64 := by
  have hx := hconv (harg 2 (by simp))
  have hy := hconv (harg 3 (by simp))
  have hxd := hconv (hd 2 (by simp))
  have hyd := hconv (hd 3 (by simp))
  exact typed_f64Op _ hrm (typed_f64Op .add hrm (typed_f64Op .mul hrm hxd hy)
    (typed_f64Op .mul hrm hx hyd)) (hconv (hd 4 (by simp)))

theorem entryTyped_fma (sub : Bool) (l : ScalarLayout) :
    EntryTyped (.fma sub l) (fmaInfo sub l) := by
  refine ⟨?_, ?_, ?_⟩
  · intro w env D arg d h
    have hty : ∀ i ∈ [2, 3, 4], (typeOfPrimop (.fma sub l)).args[i - 1]? = some l.simd.type :=
      (componentwise_fma sub l).args
    have hrm : Typed env w D (arg 1) rmode := h.arg 1 rmode rfl
    have harg := fun i hi => h.arg i _ (hty i hi)
    have hd := fun i hi => h.lo i hi _ (hty i hi)
    cases l with
    | f64 => exact wpt_pure (typed_fmaDot (fun he => he) hrm harg hd)
    | f32 => exact wpt_pure (Typed.binop rfl hrm (typed_fmaDot (fun he => he.unop rfl) hrm harg hd))
  · intro w env D arg lo hi o h hmode hill
    apply layersTyped_createBarCode (componentwise_fma sub l) h
    · intro env' D' partF _ hpartF
      exact .cons (hpartF 1 (by simp)) (.cons (hpartF 0 (by simp))
        (.cons (typed_f64Const _) (.nil _)))
    · intro hvalues env' D' partF hadds hpartF
      obtain rfl : l = .f64 := by
        cases l with
        | f64 => rfl
        | f32 => simp [IROp.illTyped, hmode, hvalues] at hill
      exact Typed.qop rfl ((h.arg 1 rmode rfl).adds hadds) (hpartF 0 (by simp))
        (hpartF 1 (by simp)) (hpartF 2 (by simp))
  · intro w env D arg lo hi h
    exact layersTyped_createTrickCode (componentwise_fma sub l) h (by simp)

theorem entryTyped_scaleF64 : EntryTyped .scaleF64 scaleInfo := by
  refine ⟨?_, ?_, ?_⟩
  · intro w env D arg d h
    exact wpt_pure (Typed.triop rfl (h.arg 1 rmode rfl) (h.lo 2 (by simp [scaleInfo]) .f64 rfl)
      (h.arg 3 .f64 rfl))
  · intro w env D arg lo hi o h _ _
    have hscale : ∀ {env' D'} {e : IRExpr}, Adds env D env' D' → Typed env' w D' e .f64 →
        Typed env' w D' (.triop .scaleF64 (arg 1) e (arg 3)) .f64 := fun hadds he =>
      Typed.triop rfl ((h.arg 1 rmode rfl).adds hadds) he ((h.arg 3 .f64 rfl).adds hadds)
    apply layersTyped_createBarCode componentwise_scaleF64 h
    · intro env' D' partF hadds _
      exact .cons (hscale hadds (typed_f64Const _)) (.nil _)
    · intro _ env' D' partF hadds _
      exact hscale hadds ((h.arg 2 .f64 rfl).adds hadds)
  · intro w env D arg lo hi h
    exact layersTyped_createTrickCode componentwise_scaleF64 h (by simp)

theorem entryTyped_yl2x {op : IROp} {x : (ℕ → IRExpr) → IRExpr}
    (hop : typeOfPrimop op = ⟨[rmode, .f64, .f64], .f64⟩)
    (hx : ∀ {env w D arg}, Typed env w D (arg 1) rmode → Typed env w D (arg 3) .f64 →
      Typed env w D (x arg) .f64) : EntryTyped op (yl2xInfo op x) := by
  have hdst : (typeOfPrimop op).dst = .f64 := by rw [hop]
  have hty1 : (typeOfPrimop op).args[1 - 1]? = some rmode := by rw [hop]; rfl
  have hty2 : (typeOfPrimop op).args[2 - 1]? = some .f64 := by rw [hop]; rfl
  have hty3 : (typeOfPrimop op).args[3 - 1]? = some .f64 := by rw [hop]; rfl
  refine ⟨?_, ?_, ?_⟩
  · intro w env D arg d h
    have hrm := h.arg 1 _ hty1
    have hlog := h.arg 3 _ hty3
    have hyd := h.lo 2 (by simp [yl2xInfo]) _ hty2
    have hxd := h.lo 3 (by simp [yl2xInfo]) _ hty3
    have hbyX := typed_f64Op .div hrm (typed_f64Op .mul hrm (h.arg 2 _ hty2) hxd)
      (typed_f64Op .mul hrm (typed_f64Const f64Ln2) (hx hrm hlog))
    rw [hdst]
    exact wpt_pure (typed_f64Op .add hrm (Typed.triop hop hrm hyd hlog) hbyX)
  · intro w env D arg lo hi o h _ _
    apply layersTyped_createBarCode (componentwise_yl2x hop) h
    · intro env' D' partF hadds _
      have hrm := (h.arg 1 _ hty1).adds hadds
      have hlog := (h.arg 3 _ hty3).adds hadds
      exact .cons (Typed.triop hop hrm (typed_f64Const _) hlog)
        (.cons (typed_f64Op .div hrm ((h.arg 2 _ hty2).adds hadds)
          (typed_f64Op .mul hrm (typed_f64Const _) (hx hrm hlog))) (.nil _))
    · intro _ env' D' partF hadds _
      exact Typed.triop hop ((h.arg 1 _ hty1).adds hadds) ((h.arg 2 _ hty2).adds hadds)
        ((h.arg 3 _ hty3).adds hadds)
  · intro w env D arg lo hi h
    exact layersTyped_createTrickCode (componentwise_yl2x hop) h (by simp)

/-- A handler is called, and both layers of its result are fetched. -/
theorem bodyTyped_bitwiseDirtyBody {n : ℕ} (handler getLower getHigher : ToolHelper)
    (hb : Bounded env D) :
    BodyTyped w env D n 2 (bitwiseDirtyBody handler getLower getHigher) := by
  intro env' D' parts hadds hparts
  have hb' := hadds.bounded hb
  obtain ⟨lo, hlo⟩ : ∃ lo, env'.length = lo := ⟨_, rfl⟩
  obtain ⟨env₂, henv₂⟩ : ∃ env₂, env' ++ [.i64] ++ [.i64] = env₂ := ⟨_, rfl⟩
  have hdeclare : Adds env' D' env₂ D' :=
    henv₂ ▸ (Adds.declare env' D' [.i64]).trans (Adds.declare (env' ++ [.i64]) D' [.i64])
  have hlen : env₂.length = lo + 2 := by simp [← henv₂, hlo]
  have hadds₁ : Adds env' D' env₂ (D' ++ [lo]) := hdeclare.assign (by omega) (by omega)
  have hadds₂ : Adds env' D' env₂ (D' ++ [lo] ++ [lo + 1]) := hadds₁.assign (by omega) (by omega)
  have hty : env₂[lo]? = some .i64 ∧ env₂[lo + 1]? = some .i64 := by simp [← henv₂, ← hlo]
  have hnot : lo ∉ D' ∧ lo + 1 ∉ D' ++ [lo] := by
    have hbound : ∀ t, lo ≤ t → t ∉ D' := fun t ht hD => by
      have := hb' t hD
      omega
    simp [hbound]
  apply wp_bind
  apply wpt_addDirty (typedArgs_of_i64 hparts.2)
  apply wp_bind
  apply wp_newIRTemp
  apply wp_bind
  apply wp_newIRTemp
  rw [List.length_append, List.length_singleton, hlo, henv₂]
  apply wp_bind
  apply wpt_addDirtyTmp .i64 (by simp [TypedArgs]) hty.1 (by decide) hnot.1
  apply wp_bind
  apply wpt_addDirtyTmp .i64 (by simp [TypedArgs]) hty.2 (by decide) hnot.2
  refine wp_pure ⟨hadds₂, .cons (Typed.rdTmp hty.1 (by simp)) (.cons ?_ (.nil _))⟩
  exact Typed.rdTmp hty.2 (by simp)

theorem componentwise_bitwise (op : BitwiseOp) (size : BitwiseSize) :
    Componentwise (.bitwise op size) [1, 2] size.simd := by
  cases op <;> cases size <;> exact ⟨rfl, rfl, rfl, by decide, by decide⟩

/-- The layers of bitwise logical operations need no cast. -/
theorem layersTyped_bitwise {op : BitwiseOp} {size : BitwiseSize} {arg lo hi : ℕ → IRExpr}
    {handler getLower getHigher : ToolHelper}
    (h : Operands env w D (.bitwise op size) [1, 2] arg lo hi) :
    LayersTyped w env D 2 size.type (applyComponentwisely (layeredInputs [1, 2] arg lo hi) 2
      size.simd.fpsize size.simd.simdsize fun _ => bitwiseDirtyBody handler getLower getHigher) := by
  have hop := componentwise_bitwise op size
  have hvec : vecTy (size.simd.fpsize * size.simd.simdsize) = size.type := by cases size <;> rfl
  rw [← hvec]
  apply wpt_applyComponentwisely hop.valid
  · exact h.typedVector hop.isVector hop.size hop.args
  · exact fun _ => bodyTyped_bitwiseDirtyBody _ _ _ h.bounded

theorem entryTyped_bitwise (op : BitwiseOp) (size : BitwiseSize) :
    EntryTyped (.bitwise op size) (bitwiseInfo op size) := by
  refine ⟨?_, ?_, ?_⟩
  · intro w env D arg d h
    exact wpt_dotCcall _ (componentwise_bitwise op size) (by cases size <;> rfl) h
  · intro w env D arg lo hi o h _ _
    exact layersTyped_bitwise h
  · intro w env D arg lo hi h
    exact layersTyped_bitwise h

/-! ### Data moves -/

theorem entryTyped_unaryMove {op : IROp} {ty : IRType} (hop : (typeOfPrimop op).args = [ty]) :
    EntryTyped op (unaryMoveInfo op) := by
  have hsig : typeOfPrimop op = ⟨[ty], (typeOfPrimop op).dst⟩ := by rw [← hop]
  have harg : (typeOfPrimop op).args[1 - 1]? = some ty := by rw [hop]; rfl
  refine ⟨?_, ?_, ?_⟩
  · intro w env D arg d h
    exact wpt_pure ((h.lo 1 (by simp [unaryMoveInfo]) _ harg).unop hsig)
  · intro w env D arg lo hi o h _ _
    exact layersTyped_pure ((h.lo 1 (by simp [unaryMoveInfo]) _ harg).unop hsig)
      ((h.hi 1 (by simp [unaryMoveInfo]) _ harg).unop hsig)
  · intro w env D arg lo hi h
    exact layersTyped_pure ((h.lo 1 (by simp [unaryMoveInfo]) _ harg).unop hsig)
      ((h.hi 1 (by simp [unaryMoveInfo]) _ harg).unop hsig)

theorem entryTyped_binaryMove {op : IROp} {ta tb : IRType}
    (hop : (typeOfPrimop op).args = [ta, tb]) : EntryTyped op (binaryMoveInfo op) := by
  have hsig : typeOfPrimop op = ⟨[ta, tb], (typeOfPrimop op).dst⟩ := by rw [← hop]
  have ha : (typeOfPrimop op).args[1 - 1]? = some ta := by rw [hop]; rfl
  have hb : (typeOfPrimop op).args[2 - 1]? = some tb := by rw [hop]; rfl
  have happly : ∀ {w env D} {x : ℕ → IRExpr},
      (∀ i ∈ (binaryMoveInfo op).diffinputs, TypedArg env w D op x i) →
      Typed env w D (.binop op (x 1) (x 2)) (typeOfPrimop op).dst := fun hx =>
    Typed.binop hsig (hx 1 (by simp [binaryMoveInfo]) _ ha) (hx 2 (by simp [binaryMoveInfo]) _ hb)
  refine ⟨?_, ?_, ?_⟩
  · intro w env D arg d h
    exact wpt_pure (happly h.lo)
  · intro w env D arg lo hi o h _ _
    exact layersTyped_pure (happly h.lo) (happly h.hi)
  · intro w env D arg lo hi h
    exact layersTyped_pure (happly h.lo) (happly h.hi)

theorem entryTyped_shift (left : Bool) (size : ShiftSize) :
    EntryTyped (.shift left size) (shiftInfo left size) := by
  have happly : ∀ {w env D} {x arg : ℕ → IRExpr},
      (∀ i ∈ (shiftInfo left size).diffinputs, TypedArg env w D (.shift left size) x i) →
      (∀ i, TypedArg env w D (.shift left size) arg i) →
      Typed env w D (.binop (.shift left size) (x 1) (arg 2)) size.type := fun hx harg =>
    Typed.binop rfl (hx 1 (by simp [shiftInfo]) _ rfl) (harg 2 _ rfl)
  refine ⟨?_, ?_, ?_⟩
  · intro w env D arg d h
    exact wpt_pure (happly h.lo h.arg)
  · intro w env D arg lo hi o h _ _
    exact layersTyped_pure (happly h.lo h.arg) (happly h.hi h.arg)
  · intro w env D arg lo hi h
    apply wp_bind
    apply wpt_mkIRConstOnes
    intro ones hones
    exact layersTyped_pure (happly h.lo h.arg)
      (Typed.ite (typed_isZero (h.arg 2 .i8 rfl)) (happly h.hi h.arg) hones)

theorem entryTyped_op64x4toV256 : EntryTyped .op64x4toV256 op64x4toV256Info := by
  have hall : ∀ {w env D} {x : ℕ → IRExpr},
      (∀ i ∈ op64x4toV256Info.diffinputs, TypedArg env w D .op64x4toV256 x i) →
      Typed env w D (op64x4toV256Info.all x) .v256 := fun hx =>
    Typed.qop rfl (hx 1 (by decide) .i64 rfl) (hx 2 (by decide) .i64 rfl)
      (hx 3 (by decide) .i64 rfl) (hx 4 (by decide) .i64 rfl)
  refine ⟨?_, ?_, ?_⟩
  · intro w env D arg d h
    exact wpt_pure (hall h.lo)
  · intro w env D arg lo hi o h _ _
    exact layersTyped_pure (hall h.lo) (hall h.hi)
  · intro w env D arg lo hi h
    exact layersTyped_pure (hall h.lo) (hall h.hi)

/-! ### Conversions -/

/-- Flags of the result of a conversion. -/
theorem layersTyped_conversionFlags {f : IRExpr} {argTy ty : IRType} (hf : Typed env w D f argTy) :
    LayersTyped w env D 2 ty (zeroDerivFlags ty argTy f) := by
  apply wp_bind
  apply wpt_mkIRConstOnes
  intro ones hones
  exact layersTyped_pure (Typed.ite (typed_isZero hf) (typed_mkIRConstZero ty) hones)
    (typed_mkIRConstZero ty)

theorem entryTyped_f32toF64 : EntryTyped .f32toF64 f32toF64Info := by
  have hwiden : ∀ {w env D} {e : IRExpr}, Typed env w D e .f32 →
      Typed env w D (f32toF64Info.widenIndex e) .f64 := fun he =>
    (Typed.binop rfl (Typed.const (.u32 0) rfl) (he.unop rfl)).unop rfl
  have hshift : ∀ {w env D} {e : IRExpr}, Typed env w D e .f32 →
      Typed env w D (.binop (.binMove .op32HLto64) (.unop (.unMove .reinterpF32asI32) e)
        (.const (.u32 0))) .i64 := fun he =>
    Typed.binop rfl (he.unop rfl) (Typed.const (.u32 0) rfl)
  refine ⟨?_, ?_, ?_⟩
  · intro w env D arg d h
    exact wpt_pure ((h.lo 1 (by decide) .f32 rfl).unop rfl)
  · intro w env D arg lo hi o h _ _
    exact layersTyped_pure (hwiden (h.lo 1 (by decide) .f32 rfl))
      (hwiden (h.hi 1 (by decide) .f32 rfl))
  · intro w env D arg lo hi h
    have hlo := h.lo 1 (by decide) .f32 rfl
    apply wp_bind
    apply wpt_dgTrickWarn (hshift hlo) (hshift (h.hi 1 (by decide) .f32 rfl))
    exact layersTyped_conversionFlags hlo

theorem entryTyped_f64toF32 : EntryTyped .f64toF32 f64toF32Info := by
  have hnarrow : ∀ {w env D} {e : IRExpr}, Typed env w D e .f64 →
      Typed env w D (f64toF32Info.narrowIndex e) .f32 := fun he =>
    ((he.unop rfl).unop rfl).unop rfl
  refine ⟨?_, ?_, ?_⟩
  · intro w env D arg d h
    exact wpt_pure (Typed.binop rfl (h.arg 1 rmode rfl) (h.lo 2 (by decide) .f64 rfl))
  · intro w env D arg lo hi o h _ _
    exact layersTyped_pure (hnarrow (h.lo 2 (by decide) .f64 rfl))
      (hnarrow (h.hi 2 (by decide) .f64 rfl))
  · intro w env D arg lo hi h
    have hlo := h.lo 2 (by decide) .f64 rfl
    apply wp_bind
    apply wpt_dgTrickWarn (hlo.unop rfl) ((h.hi 2 (by decide) .f64 rfl).unop rfl)
    exact layersTyped_conversionFlags hlo

theorem layersTyped_zeroDerivTrick {op : ZeroDerivOp} {arg lo hi : ℕ → IRExpr}
    (h : Operands env w D (.zeroDeriv op) [op.operand] arg lo hi) :
    LayersTyped w env D 2 op.sig.dst (zeroDerivTrick op lo hi) := by
  have hlo : ∀ ty, op.sig.args[op.operand - 1]? = some ty → Typed env w D (lo op.operand) ty :=
    h.lo op.operand (by simp)
  have hhi : ∀ ty, op.sig.args[op.operand - 1]? = some ty → Typed env w D (hi op.operand) ty :=
    h.hi op.operand (by simp)
  have hflags : ∀ {ty argTy : IRType}, Typed env w D (lo 2) argTy → LayersTyped w env D 2 ty (do
      let argTy ← typeOf (lo 2)
      zeroDerivFlags ty argTy (lo 2)) := fun hlo' =>
    wp_bind (wp_typeOf hlo'.type (layersTyped_conversionFlags hlo'))
  cases op with
  | i32StoF64 => exact layersTyped_conversionFlags (hlo .i32 rfl)
  | i32UtoF64 => exact layersTyped_conversionFlags (hlo .i32 rfl)
  | roundF64toInt =>
    apply wp_bind
    apply wpt_dgTrickWarn ((hlo .f64 rfl).unop rfl) ((hhi .f64 rfl).unop rfl)
    exact hflags (hlo .f64 rfl)
  | i64StoF64 => exact hflags (hlo .i64 rfl)
  | i64UtoF64 => exact hflags (hlo .i64 rfl)
  | i64StoF32 => exact hflags (hlo .i64 rfl)
  | i64UtoF32 => exact hflags (hlo .i64 rfl)
  | i32StoF32 => exact hflags (hlo .i32 rfl)
  | i32UtoF32 => exact hflags (hlo .i32 rfl)

theorem entryTyped_zeroDeriv (op : ZeroDerivOp) :
    EntryTyped (.zeroDeriv op) (zeroDerivInfo op) := by
  have hindex : ∀ {w env D}, Typed env w D (zeroDerivIndex op) op.sig.dst := by
    intro w env D
    cases op <;> exact (Typed.const _ rfl).unop rfl
  refine ⟨?_, ?_, ?_⟩
  · intro w env D arg d h
    apply wpt_pure
    cases op <;> exact Typed.const _ rfl
  · intro w env D arg lo hi o h _ _
    exact layersTyped_pure hindex hindex
  · intro w env D arg lo hi h
    exact layersTyped_zeroDerivTrick h

/-- **The table is well-typed**, with the exceptions in recording mode. -/
theorem entryTyped_of_irOpInfo {op : IROp} {info : IROpInfo} (h : irOpInfo? op = some info) :
    EntryTyped op info := by
  cases op with
  | arith op l => exact Option.some_inj.mp h ▸ entryTyped_arith op l
  | sqrt l => exact Option.some_inj.mp h ▸ entryTyped_sqrt l
  | neg l => exact Option.some_inj.mp h ▸ entryTyped_neg l
  | abs l => exact Option.some_inj.mp h ▸ entryTyped_abs l
  | minMax op l => exact Option.some_inj.mp h ▸ entryTyped_minMax op l
  | fma sub l => exact Option.some_inj.mp h ▸ entryTyped_fma sub l
  | scaleF64 => exact Option.some_inj.mp h ▸ entryTyped_scaleF64
  | yl2xF64 => exact Option.some_inj.mp h ▸ entryTyped_yl2x rfl fun _ hx => hx
  | yl2xp1F64 =>
    exact Option.some_inj.mp h ▸ entryTyped_yl2x rfl fun hrm hx =>
      typed_f64Op .add hrm hx (typed_f64Const _)
  | bitwise op size => exact Option.some_inj.mp h ▸ entryTyped_bitwise op size
  | unMove m =>
    obtain ⟨ty, hty⟩ : ∃ ty, m.sig.args = [ty] := by cases m <;> exact ⟨_, rfl⟩
    exact Option.some_inj.mp h ▸ entryTyped_unaryMove hty
  | signWiden m =>
    obtain ⟨ty, hty⟩ : ∃ ty, m.sig.args = [ty] := by cases m <;> exact ⟨_, rfl⟩
    exact Option.some_inj.mp h ▸ entryTyped_unaryMove hty
  | f32toF64 => exact Option.some_inj.mp h ▸ entryTyped_f32toF64
  | f64toF32 => exact Option.some_inj.mp h ▸ entryTyped_f64toF32
  | zeroDeriv op => exact Option.some_inj.mp h ▸ entryTyped_zeroDeriv op
  | binMove m =>
    obtain ⟨ta, tb, hty⟩ : ∃ ta tb, m.sig.args = [ta, tb] := by cases m <;> exact ⟨_, _, rfl⟩
    exact Option.some_inj.mp h ▸ entryTyped_binaryMove hty
  | shift left size => exact Option.some_inj.mp h ▸ entryTyped_shift left size
  | op64x4toV256 => exact Option.some_inj.mp h ▸ entryTyped_op64x4toV256
  | helperMove m => cases h
  | helper op => cases h
  | other args dst n => cases h

end Rules

end Derivgrind
