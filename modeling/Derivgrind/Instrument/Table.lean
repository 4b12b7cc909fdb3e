import Derivgrind.Instrument.Emit

/-!
# The table of differentiable operations

`gen_operationhandling_code.py` generates the handling of operations in the three
modes from a table: for each operation, the arguments on which the result
depends in a differentiable way, and code that computes

* the dot value of the result (forward mode),
* both layers of the index of the result (recording mode), and
* both layers of the flags of the result (bit-trick-finding mode).

The functions `arg`, `d`, `iLo`, … stand for the C variables `arg1`, `arg2`, …,
`d1`, `d2`, …, and so on.

## Main definitions

* `dgBarWriteToTape` — the dirty calls that record an operation.
* `createBarCode`, `createTrickCode` — code that acts on all components.
* `IROpInfo`, `irOpInfo?` — **the table.**
-/

namespace Derivgrind

/-- The options instrumentation depends on. -/
structure Options where
  mode : Mode
  typegrind : Bool
  barRecordValues : Bool
  deriving DecidableEq, Repr

/-! ### Dirty calls -/

/-- `unsafeIRDirty_0_N`, added to the superblock. -/
def addDirty (helper : ToolHelper) (args : List IRExpr) : Emit Unit :=
  addStmt (.dirty ⟨.tool helper, .const (.u1 true), args, none⟩)

/-- `unsafeIRDirty_1_N`, added to the superblock. -/
def addDirtyTmp (tmp : IRTemp) (helper : ToolHelper) (args : List IRExpr) : Emit Unit :=
  addStmt (.dirty ⟨.tool helper, .const (.u1 true), args, some tmp⟩)

/-- `dg_bar_writeToTape`. -/
def dgBarWriteToTape (o : Options)
    (index1Lo index1Hi index2Lo index2Hi diff1 diff2 value : IRExpr) : Emit (List IRExpr) := do
  let returnindex ← newIRTemp .i64
  addDirtyTmp returnindex .barWriteToTapeCall
    [index1Lo, index1Hi, index2Lo, index2Hi, .unop (.unMove .reinterpF64asI64) diff1,
      .unop (.unMove .reinterpF64asI64) diff2]
  if o.barRecordValues then
    addDirty .barWriteToTapeValueCall
      [.unop (.unMove .reinterpF64asI64) value, .rdTmp returnindex]
  let exLoI32 := .unop (.unMove .op64to32) (.rdTmp returnindex)
  let exHiI32 := .unop (.unMove .op64HIto32) (.rdTmp returnindex)
  let exLo := .binop (.binMove .op32HLto64) (.const (.u32 0)) exLoI32
  let exHi := .binop (.binMove .op32HLto64) (.const (.u32 0)) exHiI32
  return [exLo, exHi]

/-- `dg_trick_warn4` and `dg_trick_warn8`. -/
def dgTrickWarn (fpsize : ℕ) (flagsLo flagsHi : IRExpr) : Emit Unit :=
  addDirty .trickWarn [flagsLo, flagsHi, .const (.u64 (BitVec.ofNat 64 fpsize))]

/-! ### Code for all components -/

/-- The component of an argument as an `F64` expression. -/
def partAsF64 (fpsize : ℕ) (part : IRExpr) : IRExpr :=
  if fpsize = 4 then
    .unop .f32toF64 (.unop (.unMove .reinterpI32asF32) (.unop (.unMove .op64to32) part))
  else .unop (.unMove .reinterpI64asF64) part

/-- The components of the `m`-th input: of its value, and of both shadow layers. -/
def inputParts (parts : List IRExpr) (m : ℕ) : IRExpr × IRExpr × IRExpr :=
  (parts.getD (3 * m) .vecret, parts.getD (3 * m + 1) .vecret, parts.getD (3 * m + 2) .vecret)

/-- The body of `createBarCode` for components that are computed.  `partials` and
`value` are given the components of the inputs as `F64` expressions, in the order
of the inputs. -/
def barBody (o : Options) (nInputs fpsize : ℕ) (partials : (ℕ → IRExpr) → List IRExpr)
    (value : (ℕ → IRExpr) → IRExpr) (parts : List IRExpr) : Emit (List IRExpr) := do
  let partF := fun m => partAsF64 fpsize (inputParts parts m).1
  let iLo := fun m => (inputParts parts m).2.1
  let iHi := fun m => (inputParts parts m).2.2
  let zero := f64Const 0
  match nInputs, partials partF with
  | 1, [p0] =>
      dgBarWriteToTape o (iLo 0) (iHi 0) (.const (.u64 0)) (.const (.u64 0)) p0 zero (value partF)
  | 2, [p0, p1] =>
      dgBarWriteToTape o (iLo 0) (iHi 0) (iLo 1) (iHi 1) p0 p1 (value partF)
  | 3, [p0, p1, p2] => do
      -- two blocks combine three inputs
      let intermediate ← dgBarWriteToTape o (iLo 0) (iHi 0) (iLo 1) (iHi 1) p0 p1 zero
      dgBarWriteToTape o (intermediate.getD 0 .vecret) (intermediate.getD 1 .vecret)
        (iLo 2) (iHi 2) (f64Const f64One) p2 (value partF)
  | _, _ => ofOption none

/-- The body of lowest-lane-only operations for the other components: both layers
are copied from the first input. -/
def copyBody (parts : List IRExpr) : Emit (List IRExpr) :=
  return [(inputParts parts 0).2.1, (inputParts parts 0).2.2]

/-- The inputs of `applyComponentwisely` for the given arguments: values and both
shadow layers. -/
def layeredInputs (inputs : List ℕ) (arg lo hi : ℕ → IRExpr) : List IRExpr :=
  inputs.flatMap fun i => [arg i, lo i, hi i]

/-- Cast both layers to the type of the result of the operation. -/
def reinterpretLayers (op : IROp) (layers : List IRExpr) : Emit (List IRExpr) :=
  Emitter.mapList (fun e => reinterpretType e (typeOfPrimop op).dst) layers

/-- `createBarCode`. -/
def createBarCode (o : Options) (op : IROp) (inputs : List ℕ)
    (partials : (ℕ → IRExpr) → List IRExpr) (value : (ℕ → IRExpr) → IRExpr) (l : Simd)
    (arg iLo iHi : ℕ → IRExpr) : Emit (List IRExpr) := do
  let body := barBody o inputs.length l.fpsize partials value
  let layers ← applyComponentwisely (layeredInputs inputs arg iLo iHi) 2 l.fpsize l.simdsize
    fun component => if l.llo && component ≠ 0 then copyBody else body
  reinterpretLayers op layers

/-- The body of `createTrickCode` for components that are computed: activity is
infectious. -/
def trickBody (nInputs : ℕ) (floatinputs : List ℕ) (resultIsDiscrete : Bool) (fpsize : ℕ)
    (parts : List IRExpr) : Emit (List IRExpr) := do
  let fLo := fun m => (inputParts parts m).2.1
  let fHi := fun m => (inputParts parts m).2.2
  let _ ← Emitter.mapList (fun m => dgTrickWarn fpsize (fLo m) (fHi m)) floatinputs
  let allzero := (List.range nInputs).foldl (fun e m => and1 e (isZero (fLo m) (some .i64)))
    (.const (.u1 true))
  let ones ← mkIRConstOnes .i64
  return [.ite allzero (mkIRConstZero .i64) ones,
    if resultIsDiscrete then ones else mkIRConstZero .i64]

/-- `createTrickCode`; `floatinputs` are positions in the list of inputs. -/
def createTrickCode (op : IROp) (inputs floatinputs : List ℕ) (resultIsDiscrete : Bool) (l : Simd)
    (arg fLo fHi : ℕ → IRExpr) : Emit (List IRExpr) := do
  let body := trickBody inputs.length floatinputs resultIsDiscrete l.fpsize
  let layers ← applyComponentwisely (layeredInputs inputs arg fLo fHi) 2 l.fpsize l.simdsize
    fun component => if l.llo && component ≠ 0 then copyBody else body
  reinterpretLayers op layers

/-! ### Entries -/

/-- An entry of the table. -/
structure IROpInfo where
  /-- The arguments that have to be differentiable. -/
  diffinputs : List ℕ
  dotcode : (arg d : ℕ → IRExpr) → Emit IRExpr
  barcode : Options → (arg iLo iHi : ℕ → IRExpr) → Emit (List IRExpr)
  trickcode : (arg fLo fHi : ℕ → IRExpr) → Emit (List IRExpr)
  /-- The arguments whose flags are used by `trickcode`. -/
  trickinputs : List ℕ := diffinputs

/-- Arithmetic on `F64` expressions. -/
def f64Op (op : ArithOp) (rm a b : IRExpr) : IRExpr := .triop (.arith op .f64) rm a b

/-- The number of the first operand: it comes after the rounding mode. -/
def ArithLayout.firstOperand (l : ArithLayout) : ℕ := if l.simd.llo then 1 else 2

/-- Apply an arithmetic operation, with the rounding mode `arg1` if there is one. -/
def applyArith (op : ArithOp) (l : ArithLayout) (rm a b : IRExpr) : IRExpr :=
  if l.simd.llo then .binop (.arith op l) a b else .triop (.arith op l) rm a b

/-- The dot value of an arithmetic operation. -/
def arithDot (op : ArithOp) (l : ArithLayout) (arg d : ℕ → IRExpr) : IRExpr :=
  let i := l.firstOperand
  let j := l.firstOperand + 1
  match op with
  | .add => applyArith .add l (arg 1) (d i) (d j)
  | .sub => applyArith .sub l (arg 1) (d i) (d j)
  | .mul => applyArith .add l (arg 1) (applyArith .mul l (arg 1) (d i) (arg j))
      (applyArith .mul l (arg 1) (d j) (arg i))
  | .div => applyArith .div l (arg 1)
      (applyArith .sub l (arg 1) (applyArith .mul l (arg 1) (d i) (arg j))
        (applyArith .mul l (arg 1) (arg i) (d j)))
      (applyArith .mul l (arg 1) (arg j) (arg j))

/-- The partial derivatives of an arithmetic operation. -/
def arithPartials (op : ArithOp) (partF : ℕ → IRExpr) : List IRExpr :=
  match op with
  | .add => [f64Const f64One, f64Const f64One]
  | .sub => [f64Const f64One, f64Const f64MinusOne]
  | .mul => [partF 1, partF 0]
  | .div => [f64Op .div dgRoundingMode (f64Const f64One) (partF 1),
      f64Op .div dgRoundingMode (f64Op .mul dgRoundingMode (f64Const f64MinusOne) (partF 0))
        (f64Op .mul dgRoundingMode (partF 1) (partF 1))]

/-- `Iop_Add..`, `Iop_Sub..`, `Iop_Mul..` and `Iop_Div..`. -/
def arithInfo (op : ArithOp) (l : ArithLayout) : IROpInfo where
  diffinputs := [l.firstOperand, l.firstOperand + 1]
  dotcode arg d := return arithDot op l arg d
  barcode o := createBarCode o (.arith op l) [l.firstOperand, l.firstOperand + 1]
    (arithPartials op) (fun partF => f64Op op dgRoundingMode (partF 0) (partF 1)) l.simd
  trickcode := createTrickCode (.arith op l) [l.firstOperand, l.firstOperand + 1] [0, 1] false
    l.simd

/-- The number of the operand of a square root. -/
def ArithLayout.sqrtOperand (l : ArithLayout) : ℕ := if l.sqrtNoRoundingMode then 1 else 2

/-- The dot value of a square root.  If the square root has no rounding mode, the
multiplication and the division may still need one. -/
def sqrtDot (l : ArithLayout) (arg d : ℕ → IRExpr) : IRExpr :=
  let rm := if l.sqrtNoRoundingMode then dgRoundingMode else arg 1
  let root := if l.sqrtNoRoundingMode then .unop (.sqrt l) (arg 1)
    else .binop (.sqrt l) (arg 1) (arg 2)
  applyArith .div l rm (d l.sqrtOperand)
    (applyArith .mul l rm (mkIRConstFptwo l.simd.fpsize l.simd.simdsize) root)

/-- `Iop_Sqrt..`. -/
def sqrtInfo (l : ArithLayout) : IROpInfo where
  diffinputs := [l.sqrtOperand]
  dotcode arg d := return sqrtDot l arg d
  barcode o := createBarCode o (.sqrt l) [l.sqrtOperand]
    (fun partF => [f64Op .div dgRoundingMode (f64Const f64Half)
      (.binop (.sqrt .f64) dgRoundingMode (partF 0))])
    (fun partF => .binop (.sqrt .f64) dgRoundingMode (partF 0)) l.simd
  trickcode := createTrickCode (.sqrt l) [l.sqrtOperand] [0] false l.simd

/-- `Iop_Neg..`. -/
def negInfo (l : NegLayout) : IROpInfo where
  diffinputs := [1]
  dotcode _ d := return .unop (.neg l) (d 1)
  barcode o := createBarCode o (.neg l) [1] (fun _ => [f64Const f64MinusOne])
    (fun partF => .unop (.neg l) (partF 0)) l.simd
  trickcode := createTrickCode (.neg l) [1] [0] false l.simd

/-- The zero constant `IRConst_F64i(0)` or `IRConst_F32i(0)`. -/
def ScalarLayout.zero : ScalarLayout → IRExpr
  | .f64 => .const (.f64i 0)
  | .f32 => .const (.f32i 0)

/-- The comparison operation `Iop_CmpF64` or `Iop_CmpF32`. -/
def ScalarLayout.cmp : ScalarLayout → IROp
  | .f64 => .helper .cmpF64
  | .f32 => .helper .cmpF32

/-- The negation of a scalar. -/
def ScalarLayout.neg : ScalarLayout → IROp
  | .f64 => .neg .f64
  | .f32 => .neg .f32

/-- The lowest bit of a comparison: the first operand is less than the second. -/
def isLess (cmp : IROp) (a b : IRExpr) : IRExpr :=
  .unop (.helper .op32to1) (.binop cmp a b)

/-- `Iop_AbsF64` and `Iop_AbsF32`. -/
def absInfo (l : ScalarLayout) : IROpInfo where
  diffinputs := [1]
  dotcode arg d := return .ite (isLess l.cmp (arg 1) l.zero) (.unop l.neg (d 1)) (d 1)
  barcode o := createBarCode o (.abs l) [1]
    (fun partF => [.ite (isLess (.helper .cmpF64) (partF 0) l.zero) (f64Const f64MinusOne)
      (f64Const f64One)])
    (fun partF => .unop (.abs l) (partF 0)) l.simd
  trickcode := createTrickCode (.abs l) [1] [0] false l.simd

/-- A constant that depends on whether the first component is less than the second. -/
def selectPartial (partF : ℕ → IRExpr) (ifLess otherwise : BitVec 64) : IRExpr :=
  .ite (isLess (.helper .cmpF64) (partF 0) (partF 1)) (f64Const ifLess) (f64Const otherwise)

/-- The partial derivatives of minima and maxima. -/
def minMaxPartials (op : MinMaxOp) (partF : ℕ → IRExpr) : List IRExpr :=
  match op with
  | .min => [selectPartial partF f64One 0, selectPartial partF 0 f64One]
  | .max => [selectPartial partF 0 f64One, selectPartial partF f64One 0]

/-- The recorded value of minima and maxima. -/
def minMaxValue (op : MinMaxOp) (partF : ℕ → IRExpr) : IRExpr :=
  match op with
  | .min => .ite (isLess (.helper .cmpF64) (partF 0) (partF 1)) (partF 0) (partF 1)
  | .max => .ite (isLess (.helper .cmpF64) (partF 0) (partF 1)) (partF 1) (partF 0)

/-- The dot value of one component of a minimum or maximum. -/
def minMaxDotBody (op : MinMaxOp) (fpsize : ℕ) (parts : List IRExpr) : Emit (List IRExpr) :=
  return [.ccall (.tool (.dotArithmetic op fpsize)) .i64 parts]

/-- `Iop_Min..` and `Iop_Max..`. -/
def minMaxInfo (op : MinMaxOp) (l : MinMaxLayout) : IROpInfo where
  diffinputs := [1, 2]
  dotcode arg d := do
    let out ← applyComponentwisely [arg 1, d 1, arg 2, d 2] 1 l.simd.fpsize l.simd.simdsize
      fun _ => minMaxDotBody op l.simd.fpsize
    return out.getD 0 .vecret
  barcode o := createBarCode o (.minMax op l) [1, 2] (minMaxPartials op) (minMaxValue op) l.simd
  trickcode := createTrickCode (.minMax op l) [1, 2] [0, 1] false l.simd

/-- The dot value of a fused multiply-add; `conv` converts operands to `F64`. -/
def fmaDot (sub : Bool) (conv : IRExpr → IRExpr) (arg d : ℕ → IRExpr) : IRExpr :=
  f64Op (if sub then .sub else .add) (arg 1)
    (f64Op .add (arg 1) (f64Op .mul (arg 1) (conv (d 2)) (conv (arg 3)))
      (f64Op .mul (arg 1) (conv (arg 2)) (conv (d 3))))
    (conv (d 4))

/-- `Iop_MAdd..` and `Iop_MSub..`.  Even for single precision, the calculations are
performed in double precision. -/
def fmaInfo (sub : Bool) (l : ScalarLayout) : IROpInfo where
  diffinputs := [2, 3, 4]
  dotcode arg d := return match l with
    | .f64 => fmaDot sub id arg d
    | .f32 => .binop .f64toF32 (arg 1) (fmaDot sub (.unop .f32toF64) arg d)
  barcode o arg := createBarCode o (.fma sub l) [2, 3, 4]
    (fun partF => [partF 1, partF 0, f64Const (if sub then f64MinusOne else f64One)])
    (fun partF => .qop (.fma sub l) (arg 1) (partF 0) (partF 1) (partF 2)) l.simd arg
  trickcode := createTrickCode (.fma sub l) [2, 3, 4] [0, 1, 2] false l.simd

/-- `Iop_ScaleF64`. -/
def scaleInfo : IROpInfo where
  diffinputs := [2]
  dotcode arg d := return .triop .scaleF64 (arg 1) (d 2) (arg 3)
  barcode o arg := createBarCode o .scaleF64 [2]
    (fun _ => [.triop .scaleF64 (arg 1) (f64Const f64One) (arg 3)])
    (fun _ => .triop .scaleF64 (arg 1) (arg 2) (arg 3)) ⟨8, 1, false⟩ arg
  trickcode := createTrickCode .scaleF64 [2] [0] false ⟨8, 1, false⟩

/-- `Iop_Yl2xF64` and `Iop_Yl2xp1F64`; `x` is the argument of the logarithm. -/
def yl2xInfo (op : IROp) (x : (ℕ → IRExpr) → IRExpr) : IROpInfo where
  diffinputs := [2, 3]
  dotcode arg d := do
    let byX := f64Op .div (arg 1) (f64Op .mul (arg 1) (arg 2) (d 3))
      (f64Op .mul (arg 1) (f64Const f64Ln2) (x arg))
    return f64Op .add (arg 1) (.triop op (arg 1) (d 2) (arg 3)) byX
  barcode o arg := createBarCode o op [2, 3]
    (fun _ => [.triop op (arg 1) (f64Const f64One) (arg 3),
      f64Op .div (arg 1) (arg 2) (f64Op .mul (arg 1) (f64Const f64Ln2) (x arg))])
    (fun _ => .triop op (arg 1) (arg 2) (arg 3)) ⟨8, 1, false⟩ arg
  trickcode := createTrickCode op [2, 3] [0, 1] false ⟨8, 1, false⟩

/-- The layout in which bitwise logical operations are handled. -/
def BitwiseSize.simd : BitwiseSize → Simd
  | .b32 => ⟨4, 1, false⟩
  | .b64 => ⟨8, 1, false⟩
  | .v128 => ⟨8, 2, false⟩
  | .v256 => ⟨8, 4, false⟩

/-- A component of a bitwise logical operation, in forward mode. -/
def bitwiseDotBody (op : BitwiseOp) (parts : List IRExpr) : Emit (List IRExpr) :=
  return [.ccall (.tool (.dotBitwise64 op)) .i64 parts]

/-- A component of a bitwise logical operation, in the other modes: call the
handler, and fetch both layers of its result. -/
def bitwiseDirtyBody (handler getLower getHigher : ToolHelper) (parts : List IRExpr) :
    Emit (List IRExpr) := do
  addDirty handler parts
  let lo ← newIRTemp .i64
  let hi ← newIRTemp .i64
  addDirtyTmp lo getLower []
  addDirtyTmp hi getHigher []
  return [.rdTmp lo, .rdTmp hi]

/-- `Iop_And..`, `Iop_Or..` and `Iop_Xor..`. -/
def bitwiseInfo (op : BitwiseOp) (size : BitwiseSize) : IROpInfo where
  diffinputs := [1, 2]
  dotcode arg d := do
    let out ← applyComponentwisely [arg 1, d 1, arg 2, d 2] 1 size.simd.fpsize size.simd.simdsize
      fun _ => bitwiseDotBody op
    return out.getD 0 .vecret
  barcode _ arg iLo iHi :=
    applyComponentwisely (layeredInputs [1, 2] arg iLo iHi) 2 size.simd.fpsize size.simd.simdsize
      fun _ => bitwiseDirtyBody (.barBitwise64 op) .barBitwiseGetLower .barBitwiseGetHigher
  trickcode arg fLo fHi :=
    applyComponentwisely (layeredInputs [1, 2] arg fLo fHi) 2 size.simd.fpsize size.simd.simdsize
      fun _ => bitwiseDirtyBody (.trickBitwise64 op) .trickBitwiseGetLower .trickBitwiseGetHigher

/-- Unary operations that are applied to all shadow layers alike. -/
def unaryMoveInfo (op : IROp) : IROpInfo where
  diffinputs := [1]
  dotcode _ d := return .unop op (d 1)
  barcode _ _ iLo iHi := return [.unop op (iLo 1), .unop op (iHi 1)]
  trickcode _ fLo fHi := return [.unop op (fLo 1), .unop op (fHi 1)]

/-- Binary operations that are applied to all shadow layers alike. -/
def binaryMoveInfo (op : IROp) : IROpInfo where
  diffinputs := [1, 2]
  dotcode _ d := return .binop op (d 1) (d 2)
  barcode _ _ iLo iHi := return [.binop op (iLo 1) (iLo 2), .binop op (iHi 1) (iHi 2)]
  trickcode _ fLo fHi := return [.binop op (fLo 1) (fLo 2), .binop op (fHi 1) (fHi 2)]

/-- Shifts, as a special case of data moves. -/
def shiftInfo (left : Bool) (size : ShiftSize) : IROpInfo where
  diffinputs := [1]
  dotcode arg d := return .binop (.shift left size) (d 1) (arg 2)
  barcode _ arg iLo iHi := return [.binop (.shift left size) (iLo 1) (arg 2),
    .binop (.shift left size) (iHi 1) (arg 2)]
  trickcode arg fLo fHi := do
    let ones ← mkIRConstOnes size.type
    return [.binop (.shift left size) (fLo 1) (arg 2),
      .ite (isZero (arg 2) (some .i8)) (.binop (.shift left size) (fHi 1) (arg 2)) ones]

/-- `Iop_F32toF64`: zero bytes are added to the index. -/
def f32toF64Info : IROpInfo where
  diffinputs := [1]
  dotcode _ d := return .unop .f32toF64 (d 1)
  barcode _ _ iLo iHi := return [widenIndex (iLo 1), widenIndex (iHi 1)]
  trickcode _ fLo fHi := do
    dgTrickWarn 4
      (.binop (.binMove .op32HLto64) (.unop (.unMove .reinterpF32asI32) (fLo 1)) (.const (.u32 0)))
      (.binop (.binMove .op32HLto64) (.unop (.unMove .reinterpF32asI32) (fHi 1)) (.const (.u32 0)))
    let ones ← mkIRConstOnes .f64
    return [.ite (isZero (fLo 1) (some .f32)) (mkIRConstZero .f64) ones, mkIRConstZero .f64]
where
  widenIndex (i : IRExpr) : IRExpr := .unop (.unMove .reinterpI64asF64)
    (.binop (.binMove .op32HLto64) (.const (.u32 0)) (.unop (.unMove .reinterpF32asI32) i))

/-- `Iop_F64toF32`: bytes are cut from the index. -/
def f64toF32Info : IROpInfo where
  diffinputs := [2]
  dotcode arg d := return .binop .f64toF32 (arg 1) (d 2)
  barcode _ _ iLo iHi := return [narrowIndex (iLo 2), narrowIndex (iHi 2)]
  trickcode _ fLo fHi := do
    dgTrickWarn 8 (.unop (.unMove .reinterpF64asI64) (fLo 2))
      (.unop (.unMove .reinterpF64asI64) (fHi 2))
    let ones ← mkIRConstOnes .f32
    return [.ite (isZero (fLo 2) (some .f64)) (mkIRConstZero .f32) ones, mkIRConstZero .f32]
where
  narrowIndex (i : IRExpr) : IRExpr := .unop (.unMove .reinterpI32asF32)
    (.unop (.unMove .op64to32) (.unop (.unMove .reinterpF64asI64) i))

/-- The dot value of the result of a zero-derivative operation. -/
def zeroDerivDot (op : ZeroDerivOp) : IRExpr :=
  if op.sig.dst = .f32 then .const (.f32i 0) else .const (.f64i 0)

/-- Both layers of the index of the result of a zero-derivative operation. -/
def zeroDerivIndex : ZeroDerivOp → IRExpr
  | .i32StoF64 => mkIRConstZero .f64
  | .i32UtoF64 => mkIRConstZero .f64
  | .i64StoF64 => .unop (.unMove .reinterpI64asF64) (.const (.u64 0))
  | .i64UtoF64 => .unop (.unMove .reinterpI64asF64) (.const (.u64 0))
  | .roundF64toInt => .unop (.unMove .reinterpI64asF64) (.const (.u64 0))
  | .i64StoF32 => .unop (.unMove .reinterpI32asF32) (.const (.u32 0))
  | .i64UtoF32 => .unop (.unMove .reinterpI32asF32) (.const (.u32 0))
  | .i32StoF32 => .unop (.unMove .reinterpI32asF32) (.const (.u32 0))
  | .i32UtoF32 => .unop (.unMove .reinterpI32asF32) (.const (.u32 0))

/-- The number of the operand of a zero-derivative operation. -/
def ZeroDerivOp.operand (op : ZeroDerivOp) : ℕ := op.sig.args.length

/-- The flags of the result of a zero-derivative operation, for flags of type `argTy`. -/
def zeroDerivFlags (ty : IRType) (argTy : IRType) (f : IRExpr) : Emit (List IRExpr) := do
  let ones ← mkIRConstOnes ty
  return [.ite (isZero f (some argTy)) (mkIRConstZero ty) ones, mkIRConstZero ty]

/-- The flags of the result of a zero-derivative operation.  The type of the flags is
inferred for operations with a rounding mode. -/
def zeroDerivTrick (op : ZeroDerivOp) (fLo fHi : ℕ → IRExpr) : Emit (List IRExpr) := do
  if op = .i32StoF64 ∨ op = .i32UtoF64 then zeroDerivFlags .f64 .i32 (fLo 1)
  else do
    if op = .roundF64toInt then
      dgTrickWarn 8 (.unop (.unMove .reinterpF64asI64) (fLo 2))
        (.unop (.unMove .reinterpF64asI64) (fHi 2))
    let argTy ← typeOf (fLo 2)
    zeroDerivFlags op.sig.dst argTy (fLo 2)

/-- Integer-to-float conversions and rounding, whose derivative is zero. -/
def zeroDerivInfo (op : ZeroDerivOp) : IROpInfo where
  diffinputs := []
  dotcode _ _ := return zeroDerivDot op
  barcode _ _ _ _ := return [zeroDerivIndex op, zeroDerivIndex op]
  trickcode _ fLo fHi := zeroDerivTrick op fLo fHi
  trickinputs := [op.operand]

/-- `Iop_64x4toV256`. -/
def op64x4toV256Info : IROpInfo where
  diffinputs := [1, 2, 3, 4]
  dotcode _ d := return all d
  barcode _ _ iLo iHi := return [all iLo, all iHi]
  trickcode _ fLo fHi := return [all fLo, all fHi]
where
  all (x : ℕ → IRExpr) : IRExpr := .qop .op64x4toV256 (x 1) (x 2) (x 3) (x 4)

/-- **The table.**  Operations that are not in the table have no entry. -/
def irOpInfo? : IROp → Option IROpInfo
  | .arith op l => some (arithInfo op l)
  | .sqrt l => some (sqrtInfo l)
  | .neg l => some (negInfo l)
  | .abs l => some (absInfo l)
  | .minMax op l => some (minMaxInfo op l)
  | .fma sub l => some (fmaInfo sub l)
  | .scaleF64 => some scaleInfo
  | .yl2xF64 => some (yl2xInfo .yl2xF64 fun arg => arg 3)
  | .yl2xp1F64 => some (yl2xInfo .yl2xp1F64 fun arg =>
      f64Op .add (arg 1) (arg 3) (f64Const f64One))
  | .bitwise op size => some (bitwiseInfo op size)
  | .unMove m => some (unaryMoveInfo (.unMove m))
  | .signWiden m => some (unaryMoveInfo (.signWiden m))
  | .f32toF64 => some f32toF64Info
  | .f64toF32 => some f64toF32Info
  | .zeroDeriv op => some (zeroDerivInfo op)
  | .binMove m => some (binaryMoveInfo (.binMove m))
  | .shift left size => some (shiftInfo left size)
  | .op64x4toV256 => some op64x4toV256Info
  | .helperMove _ => none
  | .helper _ => none
  | .other _ _ _ => none

end Derivgrind
