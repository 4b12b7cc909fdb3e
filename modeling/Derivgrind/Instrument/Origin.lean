import Derivgrind.Helpers.DotBitwise
import Derivgrind.Instrument.Components
import Derivgrind.Instrument.Recording
import Derivgrind.Vex.Check

/-!
# The origins of bytes

Indices are stored and moved together with the bytes of numbers.  Where a byte of the client comes
from can be said without Derivgrind: it may be a certain byte of a number that the client has
computed or registered, and has been moved since.

The origins of bytes are followed in the run of the client itself, which is not instrumented.  Such
a run gets stuck at an operation or request that is recorded if an operand is *torn*: its bytes come
from several numbers, are in a wrong order, or have been changed.

## Main definitions

* `Origin`, `isWhole` — where a byte comes from, and operands that are not torn.
* `IROp.origins` — what an operation does to the origins of bytes.
* `IRStmt.origins`, `runOrigins` — statements.
* `RecordingContext.originRun` — runs of several threads.
-/

namespace Derivgrind

/-! ### Origins -/

/-- A number of the client: the number of the statement that has computed it, and its position in
the result. -/
abbrev NumberId := ℕ × ℕ

/-- Where a byte of the client comes from. -/
inductive Origin
  /-- It does not belong to a number that has an index. -/
  | zero
  /-- It is the `j`-th byte of a number. -/
  | part (id : NumberId) (j : ℕ)
  /-- It has been changed, or has been combined from other bytes. -/
  | unknown
  deriving DecidableEq, Repr

/-- Bytes without an index.  An index belongs to the first four bytes of its number. -/
def Origin.isZero : Origin → Bool
  | .zero => true
  | .part _ j => 4 ≤ j
  | .unknown => false

/-- The origins of the bytes of a number. -/
def numberBytes (id : NumberId) (n : ℕ) : List Origin := (List.range n).map fun j => .part id j

/-- Bytes without an index. -/
def zeroOrigins (n : ℕ) : List Origin := List.replicate n .zero

/-- The first four bytes are those of one number, or they have no index. -/
def isWhole (v : List Origin) : Bool :=
  (v.take 4).all Origin.isZero ||
    match v.head? with
    | some (.part id _) => v.take 4 = numberBytes id 4
    | _ => false

/-! ### Operations -/

/-- Operations that are recorded: the numbers of their operands, and the layout. -/
def IROp.recorded? : IROp → Option (List ℕ × Simd)
  | .arith _ l => some ([l.firstOperand, l.firstOperand + 1], l.simd)
  | .sqrt l => some ([l.sqrtOperand], l.simd)
  | .neg l => some ([1], l.simd)
  | .abs l => some ([1], l.simd)
  | .minMax _ l => some ([1, 2], l.simd)
  | .fma _ l => some ([2, 3, 4], l.simd)
  | .scaleF64 => some ([2], ⟨8, 1, false⟩)
  | .yl2xF64 => some ([2, 3], ⟨8, 1, false⟩)
  | .yl2xp1F64 => some ([2, 3], ⟨8, 1, false⟩)
  | _ => none

/-- An operand; the operands of operations are numbered from one. -/
def operandOf {α : Type} (operands : List (List α)) (inputs : List ℕ) (m : ℕ) : List α :=
  operands.getD (inputs.getD m 0 - 1) []

/-- Whether a lane is copied from the first operand. -/
def Simd.copies (l : Simd) (c : ℕ) : Bool := l.llo && c ≠ 0

/-- The result of an operation that is recorded.  In each lane that is computed, the operands must
be whole, and the result is a new number. -/
def recordedOrigins (n : ℕ) (inputs : List ℕ) (l : Simd) (os : List (List Origin)) :
    Option (List Origin) :=
  if ∀ c < l.simdsize, l.copies c = false → ∀ m < inputs.length,
      isWhole (lane l.fpsize c (operandOf os inputs m)) = true then
    some ((List.range l.simdsize).map fun c =>
      if l.copies c then lane l.fpsize c (operandOf os inputs 0)
      else numberBytes (n, c) l.fpsize).flatten
  else none

section Bitwise

variable {w : ℕ} (op : BitwiseOp)

/-- An operand is the mask with which an operation may change a sign. -/
def BitwiseOp.mayRecord (x y : BitVec w) : Bool := x = op.signMask w || y = op.signMask w

/-- An operand is a mask that may be recognised. -/
def BitwiseOp.mayRecognise (x y : BitVec w) : Bool :=
  op.mayRecord x y || x = op.neutralMask w || y = op.neutralMask w

/-- Half of the result of a bitwise operation. -/
def halfOrigins (whole : Bool) (id : NumberId) : List Origin :=
  if whole then numberBytes id 4 else List.replicate 4 .unknown

/-- A bitwise operation on words of 64 bits.  It is applied to both halves, unless it is recognised
on 64 bits; then the upper half of the index is the one of the previous operation.  The flag tells
whether this is a known index. -/
def BitwiseOp.origins (n c : ℕ) (x y : ULong) (xo yo : List Origin) (upper : Bool) :
    Option (List Origin × Bool) :=
  let whole := fun h => isWhole (lane 4 h xo) && isWhole (lane 4 h yo)
  if (op.mayRecord x y || op.mayRecord (lowerHalf x) (lowerHalf y)) && !whole 0 ||
      op.mayRecord (upperHalf x) (upperHalf y) && !whole 1 then none
  else
    let upper' := whole 1 && (upper || !op.mayRecognise x y)
    some (halfOrigins (whole 0) (n, 2 * c) ++ halfOrigins upper' (n, 2 * c + 1), upper')

/-- A component of a bitwise operation. -/
def BitwiseOp.originsAt (n : ℕ) (l : Simd) (vs : List (List Byte)) (os : List (List Origin)) (c : ℕ)
    (upper : Bool) : Option (List Origin × Bool) :=
  let value := fun m => bitsOf 64 (widenBytes 0 l.fpsize (lane l.fpsize c (vs.getD m [])))
  let origin := fun m => widenBytes .zero l.fpsize (lane l.fpsize c (os.getD m []))
  op.origins n c (value 0) (value 1) (origin 0) (origin 1) upper

/-- The first components of a bitwise operation. -/
def bitwiseOrigins (n : ℕ) (l : Simd) (vs : List (List Byte)) (os : List (List Origin))
    (upper : Bool) : ℕ → Option (List Origin × Bool)
  | 0 => some ([], upper)
  | c + 1 => do
      let (o, upper) ← bitwiseOrigins n l vs os upper c
      let (o', upper) ← op.originsAt n l vs os c upper
      some (o ++ o'.take l.fpsize, upper)

end Bitwise

/-- The bytes in front of the result of a widening with the sign are moved; the others are zero if
the sign bit of the index is known to be zero. -/
def widenOrigins (n : ℕ) (o : List Origin) : List Origin :=
  o ++ List.replicate (n - o.length) (if (o.getD (o.length - 1) .zero).isZero then .zero else .unknown)

/-- A shift of `n` bits moves bytes if `n` is a multiple of eight. -/
def shiftOrigins (left : Bool) (size : ShiftSize) (n : ℕ) (o : List Origin) : List Origin :=
  let width := sizeofIRType size.type
  if n < 8 * width && o.all Origin.isZero then zeroOrigins width
  else if n < 8 * width && n % 8 = 0 then moveBytes .zero (shiftRoute left width (n / 8)) [o]
  else List.replicate width .unknown

/-- The result of an operation that moves bytes, or that has no derivative. -/
def IROp.movedOrigins (op : IROp) (vs : List (List Byte)) (os : List (List Origin)) : List Origin :=
  match op with
  | .unMove m => moveBytes .zero m.route os
  | .binMove m => moveBytes .zero m.route os
  | .op64x4toV256 => moveBytes .zero (fromArg 3 0 8 ++ fromArg 2 0 8 ++ fromArg 1 0 8 ++ fromArg 0 0 8) os
  | .signWiden m => widenOrigins (sizeofIRType m.sig.dst) (os.getD 0 [])
  | .shift left size => shiftOrigins left size ((vs.getD 1 []).getD 0 0).toNat (os.getD 0 [])
  | .f32toF64 => os.getD 0 [] ++ zeroOrigins 4
  | .f64toF32 => (os.getD 1 []).take 4
  | op => zeroOrigins (sizeofIRType (typeOfPrimop op).dst)

/-- What an operation does to the origins of bytes, given the values of the operands. -/
def IROp.origins (n : ℕ) (op : IROp) (vs : List (List Byte)) (os : List (List Origin))
    (upper : Bool) : Option (List Origin × Bool) :=
  match op.recorded?, op with
  | some (inputs, l), _ => (recordedOrigins n inputs l os).map fun o => (o, upper)
  | none, .bitwise op size => bitwiseOrigins op n size.simd vs os upper size.simd.simdsize
  | none, op => some (op.movedOrigins vs os, upper)

/-! ### Statements -/

/-- Nothing is known about the bytes of a value. -/
def unknownOrigins (o : List Origin) : List Origin := List.replicate o.length .unknown

/-- Bytes that are accessed in big-endian order are not in the order of their number. -/
def IREndness.origins : IREndness → List Origin → List Origin
  | .le, o => o
  | .be, o => unknownOrigins o

/-- The origins of the bytes that a thread can access. -/
structure Origins where
  tmp : IRTemp → List Origin
  reg : ℕ → Origin
  mem : Addr → Origin
  /-- The index that the last bitwise operation has left in the upper words is known. -/
  upper : Bool
  /-- The number of assignments and requests so far. -/
  count : ℕ

namespace Origins

variable (I : Interp Byte) (s : State Byte Unit) (d : Origins)

/-- The origins of an atom. -/
def atom : IRExpr → List Origin
  | .rdTmp tmp => d.tmp tmp
  | .const con => zeroOrigins (sizeofIRType (typeOfIRConst con))
  | _ => []

/-- The origins of the value of a flat expression. -/
def eval : IRExpr → Option (List Origin × Bool)
  | .get offset ty => some (readReg d.reg offset (sizeofIRType ty), d.upper)
  | .getI descr ix bias =>
      some (readReg d.reg (descr.offset (I.index (evalExpr I s ix)) bias)
        (sizeofIRType descr.elemTy), d.upper)
  | .qop op a b c e => op.origins d.count ([a, b, c, e].map (evalExpr I s))
      ([a, b, c, e].map d.atom) d.upper
  | .triop op a b c => op.origins d.count ([a, b, c].map (evalExpr I s)) ([a, b, c].map d.atom)
      d.upper
  | .binop op a b => op.origins d.count ([a, b].map (evalExpr I s)) ([a, b].map d.atom) d.upper
  | .unop op a => op.origins d.count ([a].map (evalExpr I s)) ([a].map d.atom) d.upper
  | .load endness ty addr =>
      some (endness.origins (readMem d.mem (I.addr (evalExpr I s addr)) (sizeofIRType ty)), d.upper)
  | .ite cond iftrue iffalse =>
      some (if I.isTrue (evalExpr I s cond) then d.atom iftrue else d.atom iffalse, d.upper)
  | .ccall _ retty _ => some (zeroOrigins (sizeofIRType retty), d.upper)
  | e => some (d.atom e, d.upper)

/-- Assign origins to a temporary. -/
def setTmp (tmp : IRTemp) (o : List Origin) : Origins :=
  { d with tmp := Function.update d.tmp tmp o }

/-- Dirty calls.  Only the first four bytes of a number in extended precision carry its index.  Other
calls do not change the origins of registers and memory. -/
def dirty (tyenv : List IRType) (c : IRDirty) : Option Origins :=
  let addr := I.addr (evalExpr I s (c.args.getD 0 .vecret))
  if c.cee.name ∈ storeF80leNames then
    if I.isTrue (evalExpr I s c.guard) then
      some { d with mem := writeMem d.mem addr ((d.atom (c.args.getD 1 .vecret)).take 4) }
    else none
  else
    match c.tmp with
    | none => some d
    | some tmp =>
      if c.cee.name ∈ loadF80leNames then
        if I.isTrue (evalExpr I s c.guard) then
          some (d.setTmp tmp (readMem d.mem addr 4 ++ List.replicate 4 .unknown))
        else none
      else some (d.setTmp tmp (zeroOrigins ((tyenv[tmp]?.map sizeofIRType).getD 0)))

/-- Assign origins to memory. -/
def store (endness : IREndness) (addr : IRExpr) (o : List Origin) : Origins :=
  { d with mem := writeMem d.mem (I.addr (evalExpr I s addr)) (endness.origins o) }

end Origins

/-- What a statement does to origins.  Nothing is known about bytes that are accessed by LL/SC, or
that are added by a conversion.  Compare-and-swap statements are not followed. -/
def IRStmt.origins (I : Interp Byte) (tyenv : List IRType) (s : State Byte Unit) (d : Origins) :
    IRStmt → Option Origins
  | .put offset data => some { d with reg := writeReg d.reg offset (d.atom data) }
  | .putI descr ix bias data =>
      some { d with
        reg := writeReg d.reg (descr.offset (I.index (evalExpr I s ix)) bias) (d.atom data) }
  | .wrTmp tmp data => do
      let (o, upper) ← d.eval I s data
      some { d.setTmp tmp o with upper := upper, count := d.count + 1 }
  | .store endness addr data => some (d.store I s endness addr (d.atom data))
  | .storeG endness addr data guard =>
      some (if I.isTrue (evalExpr I s guard) then d.store I s endness addr (d.atom data) else d)
  | .loadG endness cvt dst addr alt guard =>
      some (d.setTmp dst (if I.isTrue (evalExpr I s guard) then
        endness.origins (readMem d.mem (I.addr (evalExpr I s addr)) cvt.size) ++
          List.replicate (sizeofIRType cvt.type - cvt.size) .unknown
      else d.atom alt))
  | .llsc _ result addr data =>
      let d' := d.setTmp result (unknownOrigins (d.tmp result))
      some (match data with
        | some data => d'.store I s .le addr (unknownOrigins (d.atom data))
        | none => d')
  | .dirty details => d.dirty I s tyenv details
  | .cas _ => none
  | _ => some d

/-- The temporaries that a statement has assigned have the sizes of their types. -/
def IRStmt.sized (tyenv : List IRType) (s : State Byte Unit) (st : IRStmt) : Bool :=
  st.defs.all fun t => (s.tmp t).length = (tyenv[t]?.map sizeofIRType).getD 0

/-- Statements of the client, and the origins of its bytes, until a side exit is taken. -/
def runOrigins (M : Machine Byte Unit) (tyenv : List IRType) :
    List IRStmt → State Byte Unit → Origins → Option (State Byte Unit × Origins)
  | [], s, d => some (s, d)
  | st :: sts, s, d => do
      let d' ← st.origins M.toInterp tyenv s d
      match execStmt M tyenv st s with
      | (s', none) => if st.sized tyenv s' then runOrigins M tyenv sts s' d' else none
      | (s', some _) => some (s', d')

/-! ### Threads -/

/-- A process of the client, and the origins of its bytes. -/
structure OriginProcess where
  client : ProcessState Unit
  reg : ThreadId → ℕ → Origin
  mem : Addr → Origin
  upper : Bool
  count : ℕ

namespace RecordingContext

variable (c : RecordingContext)

/-- The number of a variable that is used by a request is whole. -/
def wholeVariable (mem : Addr → Origin) (var : Option Addr) : Bool :=
  var.all fun a => isWhole (readMem mem a 4)

/-- An action of a thread. -/
def originStep (p : OriginProcess) : ThreadId × ClientAction → Option OriginProcess
  | (tid, .block sb) => do
      let (s, d) ← runOrigins c.base sb.tyenv sb.stmts (p.client.enter tid sb.tyenv)
        ⟨freshTmps .zero sb.tyenv, p.reg tid, p.mem, p.upper, p.count⟩
      some ⟨p.client.leave tid s, Function.update p.reg tid d.reg, d.mem, d.upper, d.count⟩
  | (_, .request r) =>
      if wholeVariable p.mem r.operand1 && wholeVariable p.mem r.operand2 then
        some { p with
          mem := match r.target with
            | some a => writeMem p.mem a (numberBytes (p.count, 0) 4)
            | none => p.mem
          count := p.count + 1 }
      else none
  | (_, .disable _ _) => some p

end RecordingContext

end Derivgrind
