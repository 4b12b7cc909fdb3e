import Derivgrind.Lib.Ieee
import Derivgrind.Tape.Record

/-!
# Bitwise logical operations on the tape

Compilers change the sign of floating-point numbers by bitwise logical
operations: an "and" with `0b01..1` is the absolute value, an "or" with `0b10..0`
the negative absolute value, and a "xor" with `0b10..0` the negation.  The
handlers of `dg_bar_bitwise.c` recognise these cases, for 64-bit operands and for
both 32-bit halves of them, and record the sign changes.

The handlers first decide on an *action*, by looking at the operands only, and
then perform it.

## Main definitions

* `BitwiseAction` — what the macros `DG_HANDLE_AND`, `DG_HANDLE_OR` and
  `DG_HANDLE_XOR` do once they have recognised an operation.
* `handleAnd`, `handleOr`, `handleXor` — the conditions of these macros.
* `BitwiseOp.handler32`, `BitwiseOp.handler64` — the functions
  `dg_bar_bitwise_{and,or,xor}{32,64}`.
-/

namespace Derivgrind

open Ieee

/-! ### Recording a block and its value -/

/-- A tape statement together with the value of its result. -/
structure Request where
  /-- Whether the statement goes through `tapeAddStatement`. -/
  activityAnalysis : Bool
  index1 : ULong
  index2 : ULong
  diff1 : ULong
  diff2 : ULong
  value : ULong
  deriving DecidableEq, Repr

/-- The tape statement of a request. -/
def Request.add (o : TapeOptions) (tid : ThreadId) (r : Request) (s : TapeState) :
    Option (ULong × TapeState) :=
  if r.activityAnalysis then tapeAddStatement o tid r.index1 r.index2 r.diff1 r.diff2 s
  else tapeAddStatementNoActivityAnalysis o tid r.index1 r.index2 r.diff1 r.diff2 s

/-- All callers add a statement and, if values are recorded and an index has been
assigned, the value right after it. -/
def Request.perform (o : TapeOptions) (tid : ThreadId) (r : Request) (s : TapeState) :
    Option (ULong × TapeState) := do
  let (index, s) ← r.add o tid s
  if o.barRecordValues ∧ index ≠ 0 then
    let s ← valuesAddStatement r.value s
    some (index, s)
  else some (index, s)

/-! ### The state of the handlers -/

/-- A `V128`, as four 32-bit words. -/
structure V128 where
  w0 : BitVec 32
  w1 : BitVec 32
  w2 : BitVec 32
  w3 : BitVec 32
  deriving DecidableEq, Repr

/-- The state of the tape and `dg_bar_bitwise_out`. -/
structure BarState where
  tape : TapeState
  bitwiseOut : V128

/-- `dg_bar_bitwise_get_lower`. -/
def BarState.bitwiseGetLower (s : BarState) : ULong := s.bitwiseOut.w1 ++ s.bitwiseOut.w0

/-- `dg_bar_bitwise_get_higher`. -/
def BarState.bitwiseGetHigher (s : BarState) : ULong := s.bitwiseOut.w3 ++ s.bitwiseOut.w2

/-- `assemble64x2to64`: an index from the lower four bytes of both arguments. -/
def assemble64x2to64 (iLo iHi : BitVec 64) : ULong := iHi.setWidth 32 ++ iLo.setWidth 32

/-! ### The macros -/

/-- The value of a result as a `double`: the operand type is `float` or `double`. -/
def toDouble {w : ℕ} (x : BitVec w) : ULong :=
  if w = 32 then widen (x.setWidth 32) else x.setWidth 64

/-- What is done with a recognised operation. -/
inductive BitwiseAction
  /-- The result has the index of an operand. -/
  | copy (iLo iHi : BitVec 32)
  /-- The result is minus the operand with the given index. -/
  | minus (index value : ULong)
  /-- The result is zero; only in bit-trick-finding mode. -/
  | clear
  deriving DecidableEq, Repr

section Macros

variable {w : ℕ}

/-- The pattern `0b10..0`. -/
def signBit (w : ℕ) : BitVec w := BitVec.ofNat w (2 ^ (w - 1))

/-- Whether the four-byte beginnings of both index layers are zero. -/
def zeroIndex (iLo iHi : BitVec w) : Bool := iLo.setWidth 32 = 0#32 && iHi.setWidth 32 = 0#32

/-- The operand itself. -/
def copyIndex (iLo iHi : BitVec w) : BitwiseAction :=
  .copy (iLo.setWidth 32) (iHi.setWidth 32)

/-- Minus the operand. -/
def minusIndex (y iLo iHi : BitVec w) : BitwiseAction :=
  .minus (assemble64x2to64 (iLo.setWidth 64) (iHi.setWidth 64)) (toDouble (neg y))

/-- `DG_HANDLE_AND`. -/
def handleAnd (x _xiLo _xiHi y yiLo yiHi : BitVec w) : Option BitwiseAction :=
  if x = signBit w - 1 then
    if le 0 y then some (copyIndex yiLo yiHi) else some (minusIndex y yiLo yiHi)
  else if x = -1 then some (copyIndex yiLo yiHi)
  else none

/-- `DG_HANDLE_OR`. -/
def handleOr (x xiLo xiHi y yiLo yiHi : BitVec w) : Option BitwiseAction :=
  if x = signBit w ∧ zeroIndex xiLo xiHi then
    if le y 0 then some (copyIndex yiLo yiHi) else some (minusIndex y yiLo yiHi)
  else if x = 0 ∧ zeroIndex xiLo xiHi then some (copyIndex yiLo yiHi)
  else none

/-- `DG_HANDLE_XOR`. -/
def handleXor (mode : Mode) (x xiLo xiHi y yiLo yiHi : BitVec w) : Option BitwiseAction :=
  if x = signBit w ∧ zeroIndex xiLo xiHi then some (minusIndex y yiLo yiHi)
  else if mode = .t ∧ x = y ∧ xiLo = yiLo ∧ xiHi = yiHi then some .clear
  else none

end Macros

/-- The bitwise logical operations. -/
inductive BitwiseOp
  | and
  | or
  | xor
  deriving DecidableEq, Repr

/-- The macro of an operation, applied to the operands in both orders. -/
def BitwiseOp.handle (op : BitwiseOp) (mode : Mode) {w : ℕ}
    (x xiLo xiHi y yiLo yiHi : BitVec w) : Option BitwiseAction :=
  match op with
  | .and => handleAnd x xiLo xiHi y yiLo yiHi <|> handleAnd y yiLo yiHi x xiLo xiHi
  | .or => handleOr x xiLo xiHi y yiLo yiHi <|> handleOr y yiLo yiHi x xiLo xiHi
  | .xor => handleXor mode x xiLo xiHi y yiLo yiHi <|> handleXor mode y yiLo yiHi x xiLo xiHi

/-! ### The handlers -/

/-- The tape statement `-1 * y` of a sign change; `0xBFF0000000000000` is minus one. -/
def minusRequest (index value : ULong) : Request :=
  ⟨true, index, 0, 0xBFF0000000000000#64, 0, value⟩

/-- Perform an action on `w`-bit operands.  Only some of the words of
`dg_bar_bitwise_out` are written. -/
def BitwiseAction.perform (o : TapeOptions) (tid : ThreadId) (w : ℕ) :
    BitwiseAction → BarState → Option BarState
  | .copy iLo iHi, s => some { s with bitwiseOut := { s.bitwiseOut with w0 := iLo, w2 := iHi } }
  | .minus index value, s => do
      let (minusYi, tape) ← (minusRequest index value).perform o tid s.tape
      some ⟨tape, { s.bitwiseOut with
        w0 := minusYi.setWidth 32, w2 := (minusYi >>> 32).setWidth 32 }⟩
  | .clear, s =>
      if w = 32 then some { s with bitwiseOut := { s.bitwiseOut with w0 := 0, w2 := 0 } }
      else some { s with bitwiseOut := ⟨0, 0, 0, 0⟩ }

/-- The result of an operation that has not been recognised. -/
def unrecognised (o : TapeOptions) (mode : Mode) (xiLo yiLo : BitVec 32) : V128 :=
  if mode = .t then ⟨xiLo ||| yiLo, 0, -1, -1⟩
  else if o.typegrind then ⟨-1, -1, -1, -1⟩ else ⟨0, 0, 0, 0⟩

/-- `dg_bar_bitwise_and32`, `dg_bar_bitwise_or32` and `dg_bar_bitwise_xor32`. -/
def BitwiseOp.handler32 (o : TapeOptions) (mode : Mode) (tid : ThreadId) (op : BitwiseOp)
    (x xiLo xiHi y yiLo yiHi : BitVec 32) (s : BarState) : Option BarState :=
  match op.handle mode x xiLo xiHi y yiLo yiHi with
  | some action => action.perform o tid 32 s
  | none => some { s with bitwiseOut := unrecognised o mode xiLo yiLo }

/-- The upper half of a 64-bit word. -/
def upperHalf (x : BitVec 64) : BitVec 32 := (x >>> 32).setWidth 32

/-- The lower half of a 64-bit word. -/
def lowerHalf (x : BitVec 64) : BitVec 32 := x.setWidth 32

/-- `dg_bar_bitwise_and64`, `dg_bar_bitwise_or64` and `dg_bar_bitwise_xor64`; operations that
are not recognised on 64 bits are handled on both halves, the upper one first. -/
def BitwiseOp.handler64 (o : TapeOptions) (mode : Mode) (tid : ThreadId) (op : BitwiseOp)
    (x xiLo xiHi y yiLo yiHi : BitVec 64) (s : BarState) : Option BarState :=
  match op.handle mode x xiLo xiHi y yiLo yiHi with
  | some action => action.perform o tid 64 s
  | none => do
      let s ← op.handler32 o mode tid (upperHalf x) (upperHalf xiLo) (upperHalf xiHi)
        (upperHalf y) (upperHalf yiLo) (upperHalf yiHi) s
      let outTmp := s.bitwiseOut
      let s ← op.handler32 o mode tid (lowerHalf x) (lowerHalf xiLo) (lowerHalf xiHi)
        (lowerHalf y) (lowerHalf yiLo) (lowerHalf yiHi) s
      some { s with bitwiseOut := { s.bitwiseOut with w1 := outTmp.w0, w3 := outTmp.w2 } }

/-! ### The tape statements of a handler -/

/-- The tape statements of an action. -/
def BitwiseAction.requests : BitwiseAction → List Request
  | .minus index value => [minusRequest index value]
  | _ => []

/-- The tape statements of a 32-bit handler. -/
def BitwiseOp.requests32 (op : BitwiseOp) (mode : Mode)
    (x xiLo xiHi y yiLo yiHi : BitVec 32) : List Request :=
  ((op.handle mode x xiLo xiHi y yiLo yiHi).map BitwiseAction.requests).getD []

/-- The tape statements of a 64-bit handler. -/
def BitwiseOp.requests64 (op : BitwiseOp) (mode : Mode)
    (x xiLo xiHi y yiLo yiHi : BitVec 64) : List Request :=
  match op.handle mode x xiLo xiHi y yiLo yiHi with
  | some action => action.requests
  | none =>
      op.requests32 mode (upperHalf x) (upperHalf xiLo) (upperHalf xiHi)
        (upperHalf y) (upperHalf yiLo) (upperHalf yiHi) ++
      op.requests32 mode (lowerHalf x) (lowerHalf xiLo) (lowerHalf xiHi)
        (lowerHalf y) (lowerHalf yiLo) (lowerHalf yiHi)

/-- Perform requests one after the other. -/
def performRequests (o : TapeOptions) (tid : ThreadId) : List Request → TapeState →
    Option TapeState
  | [], s => some s
  | r :: rs, s => do
      let (_, s) ← r.perform o tid s
      performRequests o tid rs s

theorem performRequests_append (o : TapeOptions) (tid : ThreadId) :
    ∀ (rs rs' : List Request) (s : TapeState), performRequests o tid (rs ++ rs') s
      = (performRequests o tid rs s).bind (performRequests o tid rs') := by
  intro rs rs'
  induction rs with
  | nil => intro s; rfl
  | cons r rs ih =>
    intro s
    rw [List.cons_append, performRequests, performRequests]
    cases r.perform o tid s with
    | none => rfl
    | some p => exact ih p.2

/-- An action changes the tape by its requests only. -/
theorem BitwiseAction.perform_tape (o : TapeOptions) (tid : ThreadId) (w : ℕ)
    (a : BitwiseAction) (s : BarState) :
    (a.perform o tid w s).map BarState.tape = performRequests o tid a.requests s.tape := by
  cases a with
  | copy iLo iHi => rfl
  | minus index value =>
    simp only [perform, requests, performRequests, Option.bind_eq_bind]
    cases (minusRequest index value).perform o tid s.tape <;> rfl
  | clear =>
    rw [perform]
    split <;> rfl

/-- A 32-bit handler changes the tape by its requests only. -/
theorem BitwiseOp.handler32_tape (o : TapeOptions) (mode : Mode) (tid : ThreadId)
    (op : BitwiseOp) (x xiLo xiHi y yiLo yiHi : BitVec 32) (s : BarState) :
    (op.handler32 o mode tid x xiLo xiHi y yiLo yiHi s).map BarState.tape
      = performRequests o tid (op.requests32 mode x xiLo xiHi y yiLo yiHi) s.tape := by
  rw [handler32, requests32]
  cases op.handle mode x xiLo xiHi y yiLo yiHi with
  | none => rfl
  | some a => exact a.perform_tape o tid 32 s

/-- **A 64-bit handler changes the tape by its requests only.** -/
theorem BitwiseOp.handler64_tape (o : TapeOptions) (mode : Mode) (tid : ThreadId)
    (op : BitwiseOp) (x xiLo xiHi y yiLo yiHi : BitVec 64) (s : BarState) :
    (op.handler64 o mode tid x xiLo xiHi y yiLo yiHi s).map BarState.tape
      = performRequests o tid (op.requests64 mode x xiLo xiHi y yiLo yiHi) s.tape := by
  rw [handler64, requests64]
  cases op.handle mode x xiLo xiHi y yiLo yiHi with
  | some a => exact a.perform_tape o tid 64 s
  | none =>
    have hupper := op.handler32_tape o mode tid (upperHalf x) (upperHalf xiLo) (upperHalf xiHi)
      (upperHalf y) (upperHalf yiLo) (upperHalf yiHi) s
    simp only [performRequests_append, ← hupper, Option.bind_eq_bind]
    cases op.handler32 o mode tid (upperHalf x) (upperHalf xiLo) (upperHalf xiHi)
      (upperHalf y) (upperHalf yiLo) (upperHalf yiHi) s with
    | none => rfl
    | some s₁ =>
      have hlower := op.handler32_tape o mode tid (lowerHalf x) (lowerHalf xiLo)
        (lowerHalf xiHi) (lowerHalf y) (lowerHalf yiLo) (lowerHalf yiHi) s₁
      simp only [Option.map_some, Option.bind_some, ← hlower]
      cases op.handler32 o mode tid (lowerHalf x) (lowerHalf xiLo) (lowerHalf xiHi)
        (lowerHalf y) (lowerHalf yiLo) (lowerHalf yiHi) s₁ <;> rfl

end Derivgrind
