import Derivgrind.Tape.Bitwise

/-!
# Bitwise logical operations in forward mode

The forward-mode counterpart of the handlers on the tape: the functions of
`dg_dot_bitwise.c` take the values and the dot values of both operands, and return
the dot value of the result, or zero if no floating-point operation was recognised.

## Main definitions

* `dotHandleAnd`, `dotHandleOr`, `dotHandleXor` — the macros `DG_HANDLE_AND`,
  `DG_HANDLE_OR` and `DG_HANDLE_XOR`.
* `BitwiseOp.dot32`, `BitwiseOp.dot64` — the functions
  `dg_dot_bitwise_{and,or,xor}{32,64}`.
* `BitwiseOp.signMask`, `BitwiseOp.neutralMask`, `BitwiseOp.negates` — the masks that
  change the sign or nothing, and whether the sign mask negates a number.
-/

namespace Derivgrind

open Ieee

section Macros

variable {w : ℕ}

/-- `DG_HANDLE_AND`. -/
def dotHandleAnd (x _xd y yd : BitVec w) : Option (BitVec w) :=
  if x = signBit w - 1 then
    if lt y 0 then some (neg yd) else some yd
  else if x = -1 then some yd
  else none

/-- `DG_HANDLE_OR`. -/
def dotHandleOr (x xd y yd : BitVec w) : Option (BitVec w) :=
  if x = signBit w ∧ xd = 0 then
    if lt 0 y then some (neg yd) else some yd
  else if x = 0 ∧ xd = 0 then some yd
  else none

/-- `DG_HANDLE_XOR`. -/
def dotHandleXor (x xd _y yd : BitVec w) : Option (BitVec w) :=
  if x = signBit w ∧ xd = 0 then some (neg yd) else none

end Macros

/-- The macro of an operation, applied to the operands in both orders. -/
def BitwiseOp.dotHandle (op : BitwiseOp) {w : ℕ} (x xd y yd : BitVec w) : Option (BitVec w) :=
  match op with
  | .and => dotHandleAnd x xd y yd <|> dotHandleAnd y yd x xd
  | .or => dotHandleOr x xd y yd <|> dotHandleOr y yd x xd
  | .xor => dotHandleXor x xd y yd <|> dotHandleXor y yd x xd

/-- `dg_dot_bitwise_and32`, `dg_dot_bitwise_or32` and `dg_dot_bitwise_xor32`. -/
def BitwiseOp.dot32 (op : BitwiseOp) (x xd y yd : BitVec 32) : BitVec 32 :=
  (op.dotHandle x xd y yd).getD 0

/-- `dg_dot_bitwise_and64`, `dg_dot_bitwise_or64` and `dg_dot_bitwise_xor64`. -/
def BitwiseOp.dot64 (op : BitwiseOp) (x xd y yd : BitVec 64) : BitVec 64 :=
  match op.dotHandle x xd y yd with
  | some dot => dot
  | none =>
      op.dot32 (upperHalf x) (upperHalf xd) (upperHalf y) (upperHalf yd) ++
        op.dot32 (lowerHalf x) (lowerHalf xd) (lowerHalf y) (lowerHalf yd)

/-! ### Masks -/

/-- The mask with which an operation changes nothing but the sign. -/
def BitwiseOp.signMask (w : ℕ) : BitwiseOp → BitVec w
  | .and => signBit w - 1
  | .or => signBit w
  | .xor => signBit w

/-- The mask with which an operation changes nothing. -/
def BitwiseOp.neutralMask (w : ℕ) : BitwiseOp → BitVec w
  | .and => -1
  | .or => 0
  | .xor => 0

/-- Whether the operation with the sign mask negates a number: the absolute value of a
negative number, the negative absolute value of a positive number, and the negation. -/
def BitwiseOp.negates {w : ℕ} : BitwiseOp → BitVec w → Bool
  | .and, y => lt y 0
  | .or, y => lt 0 y
  | .xor, _ => true

/-- The forward-mode handler for a mask without dot value, as the first or the second operand. -/
def BitwiseOp.dotMasked (op : BitwiseOp) (maskFirst : Bool) (mask y yd : BitVec 64) : BitVec 64 :=
  if maskFirst then op.dot64 mask 0 y yd else op.dot64 y yd mask 0

/-- The recording-mode handler for a mask without index, as the first or the second operand. -/
def BitwiseOp.barMasked (op : BitwiseOp) (o : TapeOptions) (tid : ThreadId) (maskFirst : Bool)
    (mask y yiLo yiHi : BitVec 64) (s : BarState) : Option BarState :=
  if maskFirst then op.handler64 o .b tid mask 0 0 y yiLo yiHi s
  else op.handler64 o .b tid y yiLo yiHi mask 0 0 s

end Derivgrind
