import Derivgrind.Lib.Emitter
import Derivgrind.Vex.Syntax

/-!
# Emitting instrumentation

Derivgrind builds the instrumented superblock by appending temporaries and
statements to it.  `Emit` is the monad of such computations, which fail if an
assertion does.

The second half of the file has the functions of `dg_utils.c`.

## Main definitions

* `Emit`, `addStmt`, `newIRTemp`, `typeOf`, `tlAssert` — the monad.
* `mkIRConstZero`, `mkIRConstOnes`, `mkIRConstFptwo`, `isZero` — constants and tests.
* `getSIMDComponent`, `assembleSIMDVector`, `reinterpretType` — SIMD vectors.
* `applyComponentwisely` — apply code to all components of SIMD vectors.
-/

namespace Derivgrind

/-! ### The monad -/

/-- A computation that appends temporaries and statements to a superblock. -/
abbrev Emit : Type → Type := Emitter IRType IRStmt

/-- `addStmtToIRSB`. -/
def addStmt (st : IRStmt) : Emit Unit := Emitter.emit [st]

/-- Several calls of `addStmtToIRSB`. -/
def addStmts (sts : List IRStmt) : Emit Unit := Emitter.emit sts

/-- Several calls of `newIRTemp`, for the same type. -/
def newIRTemps (n : ℕ) (ty : IRType) : Emit (List IRTemp) := Emitter.declare n ty

/-- `newIRTemp`. -/
def newIRTemp (ty : IRType) : Emit IRTemp := do
  let tmps ← newIRTemps 1 ty
  return tmps.getD 0 0

/-- `typeOfIRExpr`, in the superblock that is being built. -/
def typeOf (e : IRExpr) : Emit IRType := Emitter.query fun tyenv => typeOfIRExpr tyenv e

/-- The result of code that may fail an assertion, or dereference a null pointer. -/
def ofOption {α : Type} (a : Option α) : Emit α := Emitter.query fun _ => a

/-- `tl_assert`. -/
def tlAssert (cond : Bool) : Emit Unit := ofOption (if cond then some () else none)

/-! ### Constants and tests -/

/-- A floating-point constant of type `F64`. -/
def f64Const (bits : BitVec 64) : IRExpr := .const (.f64 bits)

/-- The bit pattern of `1.`. -/
def f64One : BitVec 64 := 0x3FF0000000000000#64

/-- The bit pattern of `-1.`. -/
def f64MinusOne : BitVec 64 := 0xBFF0000000000000#64

/-- The bit pattern of `0.5`. -/
def f64Half : BitVec 64 := 0x3FE0000000000000#64

/-- The bit pattern of `2.`. -/
def f64Two : BitVec 64 := 0x4000000000000000#64

/-- The bit pattern of `2.` in single precision. -/
def f32Two : BitVec 32 := 0x40000000#32

/-- The bit pattern of `0.6931471805599453094172321214581`, the logarithm of two. -/
def f64Ln2 : BitVec 64 := 0x3FE62E42FEFA39EF#64

/-- `dg_rounding_mode`. -/
def dgRoundingMode : IRExpr := .const (.u32 0)

/-- `DEFAULT_ROUNDING`, i.e., `Irrm_NEAREST`. -/
def defaultRounding : IRExpr := .const (.u32 0)

/-- `mkIRConst_zero`. -/
def mkIRConstZero : IRType → IRExpr
  | .i1 => .const (.u1 false)
  | .i8 => .const (.u8 0)
  | .i16 => .const (.u16 0)
  | .i32 => .const (.u32 0)
  | .i64 => .const (.u64 0)
  | .i128 => .const (.u128 0)
  | .f16 => .binop (.helper .f64toF16) defaultRounding zeroF
  | .f32 => .const (.f32 0)
  | .f64 => zeroF
  | .d32 => .binop (.helper .f64toD32) defaultRounding zeroF
  | .d64 => .binop (.helper .f64toD64) defaultRounding zeroF
  | .d128 => .binop (.helper .f64toD128) defaultRounding zeroF
  | .f128 => .unop (.helper .f64toF128) zeroF
  | .v128 => .binop (.binMove .op64HLtoV128) (.const (.u64 0)) (.const (.u64 0))
  | .v256 => .qop .op64x4toV256 (.const (.u64 0)) (.const (.u64 0)) (.const (.u64 0))
      (.const (.u64 0))
where
  zeroF : IRExpr := .unop (.unMove .reinterpI64asF64) (.const (.u64 0))

/-- `mkIRConst_ones`. -/
def mkIRConstOnes : IRType → Emit IRExpr
  | .i1 => return .const (.u1 true)
  | .i8 => return .const (.u8 0xff)
  | .i16 => return .const (.u16 0xffff)
  | .i32 => return .const (.u32 0xffffffff)
  | .i64 => return onesU
  | .i128 => return .binop (.binMove .op64HLto128) onesU onesU
  | .f32 => return .unop (.unMove .reinterpI32asF32) (.const (.u32 0xffffffff))
  | .f64 => return .unop (.unMove .reinterpI64asF64) onesU
  | .v128 => return .binop (.binMove .op64HLtoV128) onesU onesU
  | .v256 => return .qop .op64x4toV256 onesU onesU onesU onesU
  | _ => ofOption none
where
  onesU : IRExpr := .const (.u64 0xffffffffffffffff)

/-- `mkIRConst_fptwo`. -/
def mkIRConstFptwo (fpsize simdsize : ℕ) : IRExpr :=
  if fpsize = 4 then
    match simdsize with
    | 1 => .const (.f32 f32Two)
    | 2 => two32x2
    | 4 => .binop (.binMove .op64HLtoV128) two32x2 two32x2
    | _ => .qop .op64x4toV256 two32x2 two32x2 two32x2 two32x2
  else
    match simdsize with
    | 1 => f64Const f64Two
    | 2 => .binop (.binMove .op64HLtoV128) two64 two64
    | _ => .qop .op64x4toV256 two64 two64 two64 two64
where
  two32 : IRExpr := .unop (.unMove .reinterpF32asI32) (.const (.f32 f32Two))
  two32x2 : IRExpr := .binop (.binMove .op32HLto64) two32 two32
  two64 : IRExpr := .unop (.unMove .reinterpF64asI64) (f64Const f64Two)

/-- The conjunction of two bits. -/
def and1 (a b : IRExpr) : IRExpr := .binop (.helper .and1) a b

/-- `isZero`; no type stands for `Ity_INVALID`. -/
def isZero (e : IRExpr) : Option IRType → IRExpr
  | none => .const (.u1 true)
  | some .i1 => .unop (.helper .not1) e
  | some .i8 => .binop (.helper .cmpEQ8) e (.const (.u8 0))
  | some .i16 => .binop (.helper .cmpEQ16) e (.const (.u16 0))
  | some .i32 => .binop (.helper .cmpEQ32) e (.const (.u32 0))
  | some .i64 => isZero64 e
  | some .i128 => isZero128 e
  | some .f32 =>
      .binop (.helper .cmpEQ32) (.unop (.unMove .reinterpF32asI32) e) (.const (.u32 0))
  | some .f64 => isZero64 (.unop (.unMove .reinterpF64asI64) e)
  | some .f128 => isZero128 (.unop (.helperMove .reinterpF128asI128) e)
  | some .v128 => isZeroV128 e
  | some .v256 =>
      and1 (isZeroV128 (.unop (.unMove .opV256toV128lo) e))
        (isZeroV128 (.unop (.unMove .opV256toV128hi) e))
  | some _ => .const (.u1 false)
where
  isZero64 (e : IRExpr) : IRExpr := .binop (.helper .cmpEQ64) e (.const (.u64 0))
  isZero128 (e : IRExpr) : IRExpr :=
    and1 (isZero64 (.unop (.unMove .op128to64) e)) (isZero64 (.unop (.unMove .op128HIto64) e))
  isZeroV128 (e : IRExpr) : IRExpr :=
    and1 (isZero64 (.unop (.unMove .opV128to64) e)) (isZero64 (.unop (.unMove .opV128HIto64) e))

/-! ### SIMD vectors -/

/-- The reinterpretation at the beginning of `getSIMDComponent`: `I32`, `I64`,
`V128` and `V256` expressions are left as they are. -/
def reinterpretAsInt (ty : IRType) (e : IRExpr) : IRExpr :=
  match ty with
  | .f64 => .unop (.unMove .reinterpF64asI64) e
  | .f32 => .unop (.unMove .reinterpF32asI32) e
  | .i128 => .unop (.helperMove .reinterpI128asV128) e
  | _ => e

/-- `arr64to32`. -/
def arr64to32 (component : ℕ) : IROp :=
  if component = 0 then .unMove .op64to32 else .unMove .op64HIto32

/-- `arr128to64`. -/
def arr128to64 (component : ℕ) : IROp :=
  if component = 0 then .unMove .opV128to64 else .unMove .opV128HIto64

/-- `arr256to64`. -/
def arr256to64 (component : ℕ) : IROp := .helperMove (.v256to64 (Fin.ofNat 4 component))

/-- The extraction in `getSIMDComponent`. -/
def extractComponent (fpsize simdsize component : ℕ) (e : IRExpr) : IRExpr :=
  if fpsize = 4 then
    match simdsize with
    | 1 => e
    | 2 => .unop (arr64to32 component) e
    | 4 => .unop (arr64to32 (component % 2)) (.unop (arr128to64 (component / 2)) e)
    | _ => .unop (arr64to32 (component % 2)) (.unop (arr256to64 (component / 2)) e)
  else
    match simdsize with
    | 1 => e
    | 2 => .unop (arr128to64 component) e
    | _ => .unop (arr256to64 component) e

/-- `getSIMDComponent`. -/
def getSIMDComponent (e : IRExpr) (fpsize simdsize component : ℕ) : Emit IRExpr := do
  let ty ← typeOf e
  let e := reinterpretAsInt ty e
  let ty ← typeOf e
  tlAssert (ty = .i32 || ty = .i64 || ty = .v128 || ty = .v256)
  return extractComponent fpsize simdsize component e

/-- The conversion of a component in `assembleSIMDVector`. -/
def prepareComponent (fpsize : ℕ) (ty : IRType) (e : IRExpr) : IRExpr :=
  match ty with
  | .f64 => .unop (.unMove .reinterpF64asI64) e
  | .f32 => .unop (.unMove .reinterpF32asI32) e
  | .i64 => if fpsize = 4 then .unop (.unMove .op64to32) e else e
  | _ => e

/-- The last part of `assembleSIMDVector`, for components of type `ty`. -/
def assemble (ty : IRType) : List IRExpr → Option IRExpr
  | [e0] => some e0
  | [e0, e1] =>
      if sizeofIRType ty = 4 then some (.binop (.binMove .op32HLto64) e1 e0)
      else some (.binop (.binMove .op64HLtoV128) e1 e0)
  | [e0, e1, e2, e3] =>
      if sizeofIRType ty = 4 then
        some (.binop (.binMove .op64HLtoV128) (.binop (.binMove .op32HLto64) e3 e2)
          (.binop (.binMove .op32HLto64) e1 e0))
      else some (.qop .op64x4toV256 e3 e2 e1 e0)
  | [e0, e1, e2, e3, e4, e5, e6, e7] =>
      if sizeofIRType ty = 4 then
        some (.qop .op64x4toV256 (.binop (.binMove .op32HLto64) e7 e6)
          (.binop (.binMove .op32HLto64) e5 e4) (.binop (.binMove .op32HLto64) e3 e2)
          (.binop (.binMove .op32HLto64) e1 e0))
      else none
  | _ => none

/-- `assembleSIMDVector`. -/
def assembleSIMDVector (es : List IRExpr) (fpsize : ℕ) : Emit IRExpr := do
  let ty ← typeOf (es.headD .vecret)
  let es ← Emitter.mapList (fun e => do
    let ty' ← typeOf e
    tlAssert (ty' = ty)
    return prepareComponent fpsize ty e) es
  ofOption (assemble ty es)

/-- `reinterpretType`. -/
def reinterpretType (e : IRExpr) (ty : IRType) : Emit IRExpr := do
  let origtype ← typeOf e
  tlAssert (sizeofIRType origtype = sizeofIRType ty)
  if ty = origtype then return e
  else match ty, origtype with
    | .f64, .i64 => return .unop (.unMove .reinterpI64asF64) e
    | .i64, .f64 => return .unop (.unMove .reinterpF64asI64) e
    | .f32, .i32 => return .unop (.unMove .reinterpI32asF32) e
    | .i32, .f32 => return .unop (.unMove .reinterpF32asI32) e
    | .i128, .v128 => return .unop (.helperMove .reinterpV128asI128) e
    | .v128, .i128 => return .unop (.helperMove .reinterpI128asV128) e
    | _, _ => ofOption none

/-- Widen a 32-bit component to 64 bits. -/
def widenComponent (fpsize : ℕ) (e : IRExpr) : IRExpr :=
  if fpsize = 4 then .binop (.binMove .op32HLto64) (.const (.u32 0)) e else e

/-- Discard the upper half of a component if it has 32 bits. -/
def narrowComponent (fpsize : ℕ) (e : IRExpr) : IRExpr :=
  if fpsize = 4 then .unop (.unMove .op64to32) e else e

/-- Apply code to one component of the inputs.  The code works on `I64` expressions,
whose upper halves are irrelevant for 32-bit components. -/
def applyToComponent (inputs : List IRExpr) (fpsize simdsize : ℕ)
    (body : ℕ → List IRExpr → Emit (List IRExpr)) (component : ℕ) : Emit (List IRExpr) := do
  let parts ← Emitter.mapList (fun e => do
    let part ← getSIMDComponent e fpsize simdsize component
    return widenComponent fpsize part) inputs
  let outs ← body component parts
  return outs.map (narrowComponent fpsize)

/-- `applyComponentwisely`: apply code to all components of SIMD vectors, and
assemble the `nOutputs` output vectors.  The body is given the component. -/
def applyComponentwisely (inputs : List IRExpr) (nOutputs fpsize simdsize : ℕ)
    (body : ℕ → List IRExpr → Emit (List IRExpr)) : Emit (List IRExpr) := do
  let outs ← Emitter.mapList (applyToComponent inputs fpsize simdsize body) (List.range simdsize)
  Emitter.mapList (fun j => assembleSIMDVector (outs.map fun parts => parts.getD j .vecret) fpsize)
    (List.range nOutputs)

/-! ### Rules for running emitted code -/

section Rules

open Emitter.Meaning

variable {σ : Type} {R : Emitter.Meaning IRType IRStmt σ} {env : List IRType} {s : σ}

theorem wp_typeOf {e : IRExpr} {ty : IRType} {Q : IRType → List IRType → σ → Prop}
    (hty : typeOfIRExpr env e = some ty) (h : Q ty env s) :
    R.wp (typeOf e) env s Q := by
  apply wp_query
  · intro _
    rw [hty]
    rfl
  · intro ty' hty'
    rw [hty] at hty'
    rwa [← Option.some_inj.mp hty']

theorem wp_ofOption {α : Type} {a : α} {Q : α → List IRType → σ → Prop}
    (h : Q a env s) : R.wp (ofOption (some a)) env s Q := by
  apply wp_query (fun _ => rfl)
  intro x hx
  rwa [← Option.some_inj.mp hx]

theorem wp_tlAssert {cond : Bool} {Q : Unit → List IRType → σ → Prop}
    (hcond : cond = true) (h : Q () env s) : R.wp (tlAssert cond) env s Q := by
  rw [tlAssert, if_pos hcond]
  exact wp_ofOption h

theorem wp_newIRTemp {ty : IRType} {Q : IRTemp → List IRType → σ → Prop}
    (h : Q env.length (env ++ [ty]) s) : R.wp (newIRTemp ty) env s Q :=
  wp_bind (wp_declare (wp_pure h))

end Rules

end Derivgrind
