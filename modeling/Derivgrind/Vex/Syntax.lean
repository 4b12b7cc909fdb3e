import Derivgrind.Tape.Bitwise
import Mathlib.Data.Int.Notation
import Mathlib.Data.List.Basic

/-!
# The VEX intermediate representation

Valgrind hands the machine code of the client to its tools as *superblocks* of
VEX IR: lists of statements over typed temporaries, the guest state (registers)
and memory.  This file has the syntax, with the operations that occur in
Derivgrind's tables and in the code Derivgrind emits; all other operations are
`IROp.other`, together with their signature.

Annotations that Derivgrind does not look at, such as the declared effects of
dirty calls, are left out.

## Main definitions

* `IRType`, `IRConst`, `IROp`, `IRExpr`, `IRStmt`, `IRSB` — the syntax.
* `typeOfPrimop`, `typeOfIRExpr` — the types of operations and expressions.
* `ToolHelper` — the functions of Derivgrind that are called by emitted code.

## Main results

* `typeOfIRExpr_append` — types do not depend on temporaries that are added later.
-/

namespace Derivgrind

/-! ### Types and constants -/

/-- The types of VEX, without `Ity_INVALID`. -/
inductive IRType
  | i1
  | i8
  | i16
  | i32
  | i64
  | i128
  | f16
  | f32
  | f64
  | d32
  | d64
  | d128
  | f128
  | v128
  | v256
  deriving DecidableEq, Repr

/-- `sizeofIRType`, in bytes.  The size of a bit is never asked for by VEX; its
values are lists of one byte here. -/
def sizeofIRType : IRType → ℕ
  | .i1 => 1
  | .i8 => 1
  | .i16 => 2
  | .i32 => 4
  | .i64 => 8
  | .i128 => 16
  | .f16 => 2
  | .f32 => 4
  | .f64 => 8
  | .d32 => 4
  | .d64 => 8
  | .d128 => 16
  | .f128 => 16
  | .v128 => 16
  | .v256 => 32

/-- Constants.  Floating-point constants are given by their bit patterns, and
`u128`, `v128`, `v256` have one bit for each byte of the constant. -/
inductive IRConst
  | u1 (x : Bool)
  | u8 (x : BitVec 8)
  | u16 (x : BitVec 16)
  | u32 (x : BitVec 32)
  | u64 (x : BitVec 64)
  | u128 (x : BitVec 16)
  | f32 (x : BitVec 32)
  | f32i (x : BitVec 32)
  | f64 (x : BitVec 64)
  | f64i (x : BitVec 64)
  | v128 (x : BitVec 16)
  | v256 (x : BitVec 32)
  /-- The address of the `offset`-th byte of Derivgrind's `shadow_mem_buffer`: a
  `u32` or `u64` constant, depending on the word type `ty`. -/
  | bufferAddr (ty : IRType) (offset : ℕ)
  deriving DecidableEq, Repr

/-- `typeOfIRConst`. -/
def typeOfIRConst : IRConst → IRType
  | .u1 _ => .i1
  | .u8 _ => .i8
  | .u16 _ => .i16
  | .u32 _ => .i32
  | .u64 _ => .i64
  | .u128 _ => .i128
  | .f32 _ => .f32
  | .f32i _ => .f32
  | .f64 _ => .f64
  | .f64i _ => .f64
  | .v128 _ => .v128
  | .v256 _ => .v256
  | .bufferAddr ty _ => ty

/-! ### Operations -/

/-- A SIMD layout: the size of a component in bytes, the number of components,
and whether operations act on the lowest component only. -/
structure Simd where
  fpsize : ℕ
  simdsize : ℕ
  llo : Bool
  deriving DecidableEq, Repr

/-- The layouts of the basic arithmetic operations. -/
inductive ArithLayout
  | f64
  | f32
  | p64Fx2
  | p64Fx4
  | p32Fx4
  | p32Fx8
  | p32F0x4
  | p64F0x2
  deriving DecidableEq, Repr

/-- The layouts of negations. -/
inductive NegLayout
  | f64
  | f32
  | p64Fx2
  | p32Fx2
  | p32Fx4
  deriving DecidableEq, Repr

/-- The layouts of minima and maxima. -/
inductive MinMaxLayout
  | p32Fx2
  | p32Fx4
  | p32F0x4
  | p64Fx2
  | p64F0x2
  | p32Fx8
  | p64Fx4
  deriving DecidableEq, Repr

/-- The two scalar layouts. -/
inductive ScalarLayout
  | f64
  | f32
  deriving DecidableEq, Repr

def ArithLayout.simd : ArithLayout → Simd
  | .f64 => ⟨8, 1, false⟩
  | .f32 => ⟨4, 1, false⟩
  | .p64Fx2 => ⟨8, 2, false⟩
  | .p64Fx4 => ⟨8, 4, false⟩
  | .p32Fx4 => ⟨4, 4, false⟩
  | .p32Fx8 => ⟨4, 8, false⟩
  | .p32F0x4 => ⟨4, 4, true⟩
  | .p64F0x2 => ⟨8, 2, true⟩

def NegLayout.simd : NegLayout → Simd
  | .f64 => ⟨8, 1, false⟩
  | .f32 => ⟨4, 1, false⟩
  | .p64Fx2 => ⟨8, 2, false⟩
  | .p32Fx2 => ⟨4, 2, false⟩
  | .p32Fx4 => ⟨4, 4, false⟩

def MinMaxLayout.simd : MinMaxLayout → Simd
  | .p32Fx2 => ⟨4, 2, false⟩
  | .p32Fx4 => ⟨4, 4, false⟩
  | .p32F0x4 => ⟨4, 4, true⟩
  | .p64Fx2 => ⟨8, 2, false⟩
  | .p64F0x2 => ⟨8, 2, true⟩
  | .p32Fx8 => ⟨4, 8, false⟩
  | .p64Fx4 => ⟨8, 4, false⟩

def ScalarLayout.simd : ScalarLayout → Simd
  | .f64 => ⟨8, 1, false⟩
  | .f32 => ⟨4, 1, false⟩

/-- The type of a scalar or vector with the given layout. -/
def Simd.type (l : Simd) : IRType :=
  if l.simdsize = 1 then if l.fpsize = 4 then .f32 else .f64
  else if l.fpsize * l.simdsize = 8 then .i64
  else if l.fpsize * l.simdsize = 16 then .v128
  else .v256

/-- The basic arithmetic operations with two operands. -/
inductive ArithOp
  | add
  | sub
  | mul
  | div
  deriving DecidableEq, Repr

/-- Minimum and maximum. -/
inductive MinMaxOp
  | min
  | max
  deriving DecidableEq, Repr

/-- The operand sizes of bitwise logical operations. -/
inductive BitwiseSize
  | b32
  | b64
  | v128
  | v256
  deriving DecidableEq, Repr

/-- The operand sizes of shifts. -/
inductive ShiftSize
  | b8
  | b16
  | b32
  | b64
  deriving DecidableEq, Repr

/-- Unary operations that move data or set data to zero. -/
inductive UnMove
  | reinterpI32asF32
  | reinterpF32asI32
  | reinterpI64asF64
  | reinterpF64asI64
  | op16to8
  | op32to16
  | op64to32
  | opV128to64
  | op128to64
  | op16HIto8
  | op32HIto16
  | op64HIto32
  | opV128HIto64
  | op128HIto64
  | op64to8
  | op32to8
  | op64to16
  | opV256toV128lo
  | opV256toV128hi
  | op64UtoV128
  | op32UtoV128
  | opV128to32
  | zeroHI64ofV128
  | zeroHI96ofV128
  | zeroHI112ofV128
  | zeroHI120ofV128
  | op8Uto16
  | op8Uto32
  | op8Uto64
  | op16Uto32
  | op16Uto64
  | op32Uto64
  deriving DecidableEq, Repr

/-- Widenings with the sign. -/
inductive SignWiden
  | op8Sto16
  | op8Sto32
  | op8Sto64
  | op16Sto32
  | op16Sto64
  | op32Sto64
  deriving DecidableEq, Repr

/-- Binary operations that move data. -/
inductive BinMove
  | op8HLto16
  | op16HLto32
  | op32HLto64
  | op64HLto128
  | op64HLtoV128
  | opV128HLtoV256
  | setV128lo32
  | setV128lo64
  | interleaveHI8x16
  | interleaveHI16x8
  | interleaveHI32x4
  | interleaveHI64x2
  | interleaveLO8x16
  | interleaveLO16x8
  | interleaveLO32x4
  | interleaveLO64x2
  deriving DecidableEq, Repr

/-- Conversions of integers to floating-point numbers, and rounding. -/
inductive ZeroDerivOp
  | i32StoF64
  | i32UtoF64
  | i64StoF64
  | i64UtoF64
  | roundF64toInt
  | i64StoF32
  | i64UtoF32
  | i32StoF32
  | i32UtoF32
  deriving DecidableEq, Repr

/-- Further operations in emitted code that move data. -/
inductive HelperMove
  | v256to64 (part : Fin 4)
  | reinterpI128asV128
  | reinterpV128asI128
  | reinterpI64asD64
  | reinterpI128asF128
  | reinterpF128asI128
  deriving DecidableEq, Repr

/-- Further operations in emitted code that do not move data. -/
inductive HelperOp
  | cmpEQ8
  | cmpEQ16
  | cmpEQ32
  | cmpEQ64
  | cmpF64
  | cmpF32
  | op32to1
  | and1
  | not1
  | add32
  | add64
  | f64toF16
  | f64toD32
  | f64toD64
  | f64toD128
  | f64toF128
  deriving DecidableEq, Repr

/-- Primitive operations. -/
inductive IROp
  | arith (op : ArithOp) (l : ArithLayout)
  | sqrt (l : ArithLayout)
  | neg (l : NegLayout)
  | abs (l : ScalarLayout)
  | minMax (op : MinMaxOp) (l : MinMaxLayout)
  /-- The fused operations `Iop_MAdd..` and, if `sub` is set, `Iop_MSub..`. -/
  | fma (sub : Bool) (l : ScalarLayout)
  | scaleF64
  | yl2xF64
  | yl2xp1F64
  | bitwise (op : BitwiseOp) (size : BitwiseSize)
  | unMove (m : UnMove)
  | signWiden (m : SignWiden)
  | f32toF64
  | f64toF32
  | zeroDeriv (op : ZeroDerivOp)
  | binMove (m : BinMove)
  /-- `Iop_Shr..` or, if `left` is set, `Iop_Shl..`. -/
  | shift (left : Bool) (size : ShiftSize)
  | op64x4toV256
  | helperMove (m : HelperMove)
  | helper (op : HelperOp)
  /-- Any other operation, with the types of its arguments and of its result. -/
  | other (args : List IRType) (dst : IRType) (n : ℕ)
  deriving DecidableEq, Repr

/-- The type of rounding modes, `ity_RMode`. -/
def rmode : IRType := .i32

def BitwiseSize.type : BitwiseSize → IRType
  | .b32 => .i32
  | .b64 => .i64
  | .v128 => .v128
  | .v256 => .v256

def ShiftSize.type : ShiftSize → IRType
  | .b8 => .i8
  | .b16 => .i16
  | .b32 => .i32
  | .b64 => .i64

/-- The types of the arguments and of the result of an operation. -/
structure OpSig where
  args : List IRType
  dst : IRType
  deriving DecidableEq, Repr

def UnMove.sig : UnMove → OpSig
  | .reinterpI32asF32 => ⟨[.i32], .f32⟩
  | .reinterpF32asI32 => ⟨[.f32], .i32⟩
  | .reinterpI64asF64 => ⟨[.i64], .f64⟩
  | .reinterpF64asI64 => ⟨[.f64], .i64⟩
  | .op16to8 => ⟨[.i16], .i8⟩
  | .op32to16 => ⟨[.i32], .i16⟩
  | .op64to32 => ⟨[.i64], .i32⟩
  | .opV128to64 => ⟨[.v128], .i64⟩
  | .op128to64 => ⟨[.i128], .i64⟩
  | .op16HIto8 => ⟨[.i16], .i8⟩
  | .op32HIto16 => ⟨[.i32], .i16⟩
  | .op64HIto32 => ⟨[.i64], .i32⟩
  | .opV128HIto64 => ⟨[.v128], .i64⟩
  | .op128HIto64 => ⟨[.i128], .i64⟩
  | .op64to8 => ⟨[.i64], .i8⟩
  | .op32to8 => ⟨[.i32], .i8⟩
  | .op64to16 => ⟨[.i64], .i16⟩
  | .opV256toV128lo => ⟨[.v256], .v128⟩
  | .opV256toV128hi => ⟨[.v256], .v128⟩
  | .op64UtoV128 => ⟨[.i64], .v128⟩
  | .op32UtoV128 => ⟨[.i32], .v128⟩
  | .opV128to32 => ⟨[.v128], .i32⟩
  | .zeroHI64ofV128 => ⟨[.v128], .v128⟩
  | .zeroHI96ofV128 => ⟨[.v128], .v128⟩
  | .zeroHI112ofV128 => ⟨[.v128], .v128⟩
  | .zeroHI120ofV128 => ⟨[.v128], .v128⟩
  | .op8Uto16 => ⟨[.i8], .i16⟩
  | .op8Uto32 => ⟨[.i8], .i32⟩
  | .op8Uto64 => ⟨[.i8], .i64⟩
  | .op16Uto32 => ⟨[.i16], .i32⟩
  | .op16Uto64 => ⟨[.i16], .i64⟩
  | .op32Uto64 => ⟨[.i32], .i64⟩

def SignWiden.sig : SignWiden → OpSig
  | .op8Sto16 => ⟨[.i8], .i16⟩
  | .op8Sto32 => ⟨[.i8], .i32⟩
  | .op8Sto64 => ⟨[.i8], .i64⟩
  | .op16Sto32 => ⟨[.i16], .i32⟩
  | .op16Sto64 => ⟨[.i16], .i64⟩
  | .op32Sto64 => ⟨[.i32], .i64⟩

def BinMove.sig : BinMove → OpSig
  | .op8HLto16 => ⟨[.i8, .i8], .i16⟩
  | .op16HLto32 => ⟨[.i16, .i16], .i32⟩
  | .op32HLto64 => ⟨[.i32, .i32], .i64⟩
  | .op64HLto128 => ⟨[.i64, .i64], .i128⟩
  | .op64HLtoV128 => ⟨[.i64, .i64], .v128⟩
  | .opV128HLtoV256 => ⟨[.v128, .v128], .v256⟩
  | .setV128lo32 => ⟨[.v128, .i32], .v128⟩
  | .setV128lo64 => ⟨[.v128, .i64], .v128⟩
  | _ => ⟨[.v128, .v128], .v128⟩

def ZeroDerivOp.sig : ZeroDerivOp → OpSig
  | .i32StoF64 => ⟨[.i32], .f64⟩
  | .i32UtoF64 => ⟨[.i32], .f64⟩
  | .i64StoF64 => ⟨[rmode, .i64], .f64⟩
  | .i64UtoF64 => ⟨[rmode, .i64], .f64⟩
  | .roundF64toInt => ⟨[rmode, .f64], .f64⟩
  | .i64StoF32 => ⟨[rmode, .i64], .f32⟩
  | .i64UtoF32 => ⟨[rmode, .i64], .f32⟩
  | .i32StoF32 => ⟨[rmode, .i32], .f32⟩
  | .i32UtoF32 => ⟨[rmode, .i32], .f32⟩

def HelperMove.sig : HelperMove → OpSig
  | .v256to64 _ => ⟨[.v256], .i64⟩
  | .reinterpI128asV128 => ⟨[.i128], .v128⟩
  | .reinterpV128asI128 => ⟨[.v128], .i128⟩
  | .reinterpI64asD64 => ⟨[.i64], .d64⟩
  | .reinterpI128asF128 => ⟨[.i128], .f128⟩
  | .reinterpF128asI128 => ⟨[.f128], .i128⟩

def HelperOp.sig : HelperOp → OpSig
  | .cmpEQ8 => ⟨[.i8, .i8], .i1⟩
  | .cmpEQ16 => ⟨[.i16, .i16], .i1⟩
  | .cmpEQ32 => ⟨[.i32, .i32], .i1⟩
  | .cmpEQ64 => ⟨[.i64, .i64], .i1⟩
  | .cmpF64 => ⟨[.f64, .f64], .i32⟩
  | .cmpF32 => ⟨[.f32, .f32], .i32⟩
  | .op32to1 => ⟨[.i32], .i1⟩
  | .and1 => ⟨[.i1, .i1], .i1⟩
  | .not1 => ⟨[.i1], .i1⟩
  | .add32 => ⟨[.i32, .i32], .i32⟩
  | .add64 => ⟨[.i64, .i64], .i64⟩
  | .f64toF16 => ⟨[rmode, .f64], .f16⟩
  | .f64toD32 => ⟨[rmode, .f64], .d32⟩
  | .f64toD64 => ⟨[rmode, .f64], .d64⟩
  | .f64toD128 => ⟨[rmode, .f64], .d128⟩
  | .f64toF128 => ⟨[.f64], .f128⟩

/-- Whether a square root has a rounding mode: the lowest-lane-only ones and
those on 32 bytes have none. -/
def ArithLayout.sqrtNoRoundingMode (l : ArithLayout) : Bool :=
  l.simd.llo || l.simd.fpsize * l.simd.simdsize = 32

/-- `typeOfPrimop`. -/
def typeOfPrimop : IROp → OpSig
  | .arith _ l =>
      if l.simd.llo then ⟨[l.simd.type, l.simd.type], l.simd.type⟩
      else ⟨[rmode, l.simd.type, l.simd.type], l.simd.type⟩
  | .sqrt l =>
      if l.sqrtNoRoundingMode then ⟨[l.simd.type], l.simd.type⟩
      else ⟨[rmode, l.simd.type], l.simd.type⟩
  | .neg l => ⟨[l.simd.type], l.simd.type⟩
  | .abs l => ⟨[l.simd.type], l.simd.type⟩
  | .minMax _ l => ⟨[l.simd.type, l.simd.type], l.simd.type⟩
  | .fma _ l => ⟨[rmode, l.simd.type, l.simd.type, l.simd.type], l.simd.type⟩
  | .scaleF64 => ⟨[rmode, .f64, .f64], .f64⟩
  | .yl2xF64 => ⟨[rmode, .f64, .f64], .f64⟩
  | .yl2xp1F64 => ⟨[rmode, .f64, .f64], .f64⟩
  | .bitwise _ size => ⟨[size.type, size.type], size.type⟩
  | .unMove m => m.sig
  | .signWiden m => m.sig
  | .f32toF64 => ⟨[.f32], .f64⟩
  | .f64toF32 => ⟨[rmode, .f64], .f32⟩
  | .zeroDeriv op => op.sig
  | .binMove m => m.sig
  | .shift _ size => ⟨[size.type, .i8], size.type⟩
  | .op64x4toV256 => ⟨[.i64, .i64, .i64, .i64], .v256⟩
  | .helperMove m => m.sig
  | .helper op => op.sig
  | .other args dst _ => ⟨args, dst⟩

/-! ### Helper functions -/

/-- The functions of Derivgrind that emitted code calls. -/
inductive ToolHelper
  /-- `dg_dot_arithmetic_{min,max}{32,64}`; the size is in bytes. -/
  | dotArithmetic (op : MinMaxOp) (fpsize : ℕ)
  /-- `dg_dot_bitwise_{and,or,xor}64`. -/
  | dotBitwise64 (op : BitwiseOp)
  /-- `dg_dot_x86g_amd64g_dirtyhelper_store`, and similarly below. -/
  | dotStore
  | dotLoad
  | dotStoreF80le
  | dotLoadF80le
  | barStore
  | barLoad
  | barStoreF80leLo
  | barStoreF80leHi
  | barLoadF80leLo
  | barLoadF80leHi
  /-- `dg_bar_bitwise_{and,or,xor}64`. -/
  | barBitwise64 (op : BitwiseOp)
  | barBitwiseGetLower
  | barBitwiseGetHigher
  | barWriteToTapeCall
  | barWriteToTapeValueCall
  | trickStoreF80le
  | trickLoadF80leLo
  | trickLoadF80leHi
  /-- `dg_trick_bitwise_{and,or,xor}64`. -/
  | trickBitwise64 (op : BitwiseOp)
  | trickBitwiseGetLower
  | trickBitwiseGetHigher
  /-- `dg_trick_warn_dirtyhelper`. -/
  | trickWarn
  deriving DecidableEq, Repr

/-- The functions that IR can call: helper functions of the guest architecture,
and those of Derivgrind. -/
inductive IRCallee
  | guest (name : String)
  | tool (helper : ToolHelper)
  deriving DecidableEq, Repr

/-! ### Expressions, statements and superblocks -/

/-- Byte order of memory accesses. -/
inductive IREndness
  | le
  | be
  deriving DecidableEq, Repr

/-- A circular array in the guest state. -/
structure IRRegArray where
  base : ℕ
  elemTy : IRType
  nElems : ℕ
  deriving DecidableEq, Repr

/-- The number of a temporary. -/
abbrev IRTemp := ℕ

/-- Expressions. -/
inductive IRExpr
  | get (offset : ℕ) (ty : IRType)
  | getI (descr : IRRegArray) (ix : IRExpr) (bias : ℤ)
  | rdTmp (tmp : IRTemp)
  | qop (op : IROp) (arg1 arg2 arg3 arg4 : IRExpr)
  | triop (op : IROp) (arg1 arg2 arg3 : IRExpr)
  | binop (op : IROp) (arg1 arg2 : IRExpr)
  | unop (op : IROp) (arg : IRExpr)
  | load (endness : IREndness) (ty : IRType) (addr : IRExpr)
  | const (con : IRConst)
  | ite (cond iftrue iffalse : IRExpr)
  | ccall (cee : IRCallee) (retty : IRType) (args : List IRExpr)
  /-- Placeholders in the arguments of dirty calls: a pointer to the return value,
  and a pointer to the guest state. -/
  | vecret
  | gsptr
  deriving Repr

/-- Conversions of guarded loads. -/
inductive IRLoadGOp
  | identV128
  | ident64
  | ident32
  | cvt16Uto32
  | cvt16Sto32
  | cvt8Uto32
  | cvt8Sto32
  deriving DecidableEq, Repr

/-- Compare-and-swap.  The upper parts are present in double-element operations. -/
structure IRCAS where
  oldHi : Option IRTemp
  oldLo : IRTemp
  endness : IREndness
  addr : IRExpr
  expdHi : Option IRExpr
  expdLo : IRExpr
  dataHi : Option IRExpr
  dataLo : IRExpr
  deriving Repr

/-- Calls with side effects. -/
structure IRDirty where
  cee : IRCallee
  guard : IRExpr
  args : List IRExpr
  tmp : Option IRTemp
  deriving Repr

/-- Statements. -/
inductive IRStmt
  | noOp
  | iMark (addr len delta : ℕ)
  | abiHint (base : IRExpr) (len : ℕ) (nia : IRExpr)
  | put (offset : ℕ) (data : IRExpr)
  | putI (descr : IRRegArray) (ix : IRExpr) (bias : ℤ) (data : IRExpr)
  | wrTmp (tmp : IRTemp) (data : IRExpr)
  | store (endness : IREndness) (addr data : IRExpr)
  | storeG (endness : IREndness) (addr data guard : IRExpr)
  | loadG (endness : IREndness) (cvt : IRLoadGOp) (dst : IRTemp) (addr alt guard : IRExpr)
  | cas (details : IRCAS)
  /-- Load-linked, or store-conditional if there are data to store. -/
  | llsc (endness : IREndness) (result : IRTemp) (addr : IRExpr) (storedata : Option IRExpr)
  | dirty (details : IRDirty)
  | mbe
  | exit (guard : IRExpr) (jk : ℕ) (dst : BitVec 64) (offsIP : ℕ)
  deriving Repr

/-- A superblock. -/
structure IRSB where
  tyenv : List IRType
  stmts : List IRStmt
  next : IRExpr
  deriving Repr

/-- `typeOfIRExpr`.  A temporary that does not exist and the placeholders have no
type. -/
def typeOfIRExpr (tyenv : List IRType) : IRExpr → Option IRType
  | .get _ ty => some ty
  | .getI descr _ _ => some descr.elemTy
  | .rdTmp tmp => tyenv[tmp]?
  | .qop op _ _ _ _ => some (typeOfPrimop op).dst
  | .triop op _ _ _ => some (typeOfPrimop op).dst
  | .binop op _ _ => some (typeOfPrimop op).dst
  | .unop op _ => some (typeOfPrimop op).dst
  | .load _ ty _ => some ty
  | .const con => some (typeOfIRConst con)
  | .ite _ _ iffalse => typeOfIRExpr tyenv iffalse
  | .ccall _ retty _ => some retty
  | .vecret => none
  | .gsptr => none

/-- Types do not depend on temporaries that are added later. -/
theorem typeOfIRExpr_append {env : List IRType} (tys : List IRType) {ty : IRType} :
    ∀ e : IRExpr, typeOfIRExpr env e = some ty → typeOfIRExpr (env ++ tys) e = some ty
  | .rdTmp tmp, h => by
      rw [typeOfIRExpr] at h ⊢
      obtain ⟨hlt, -⟩ := List.getElem?_eq_some_iff.mp h
      rwa [List.getElem?_append_left hlt]
  | .ite cond iftrue iffalse, h => by
      rw [typeOfIRExpr] at h ⊢
      exact typeOfIRExpr_append tys iffalse h
  | .get offset ty, h => h
  | .getI descr ix bias, h => h
  | .qop op a b c d, h => h
  | .triop op a b c, h => h
  | .binop op a b, h => h
  | .unop op a, h => h
  | .load endness ty addr, h => h
  | .const con, h => h
  | .ccall cee retty args, h => h
  | .vecret, h => h
  | .gsptr, h => h

end Derivgrind
