import Derivgrind.Lib.Sweep
import Derivgrind.Tape.Transpose

/-!
# The equations of a tape

The forward evaluation of a tape solves one equation per block: the derivative of a
result is its seed plus the sum over both operands of the derivative of the operand
times the partial derivative.

## Main definitions

* `Tapefile.operandValue` — the derivative of an operand; inactive operands have none.

## Main results

* `Tapefile.forwardSweep_apply` — **the equations.**
-/

namespace Derivgrind

open Adjoint Sweep

namespace Tapefile

universe u

variable {R : Type u} {n : ℕ} [CommRing R]

/-- The derivative of an operand, or of the number with the given index. -/
def operandValue (v : Fin n → R) (operand : ULong) : R :=
  match operand? n operand with
  | some o => v o
  | none => 0

theorem forwardShear_eq (i : Fin n) (operand : ULong) (diff : R) (v : Fin n → R) :
    forwardShear i operand diff v
      = Function.update v i (v i + operandValue v operand * diff) := by
  unfold forwardShear operandValue
  cases operand? n operand with
  | none => simp
  | some o => rfl

/-- The update of one operand does not change another operand. -/
theorem operandValue_update {i : Fin n} {operand : ULong} (h : OperandBefore i operand) (x : R)
    (v : Fin n → R) : operandValue (Function.update v i x) operand = operandValue v operand := by
  unfold operandValue
  cases ho : operand? n operand with
  | none => rfl
  | some o => exact Function.update_of_ne (operand?_ne h ho) x v

/-- The value that the forward evaluation assigns to the result of a block. -/
def blockValue (t : Tapefile R) (i : Fin t.numberOfBlocks.toNat)
    (v : Fin t.numberOfBlocks.toNat → R) : R :=
  v i + operandValue v (t.blockAt i).index1 * (t.blockAt i).diff1
    + operandValue v (t.blockAt i).index2 * (t.blockAt i).diff2

variable {t : Tapefile R}

theorem forwardMap_eq (ht : t.OperandsBefore) (i : Fin t.numberOfBlocks.toNat)
    (v : Fin t.numberOfBlocks.toNat → R) :
    t.forwardMap i v = Function.update v i (t.blockValue i v) := by
  have h := ht.blockAt i
  rw [forwardMap, forwardShear_eq, forwardShear_eq, operandValue_update h.2,
    Function.update_self, Function.update_idem, blockValue]

omit [CommRing R] in
/-- An operand that is looked up comes before the block. -/
theorem operand?_lt {i o : Fin n} {operand : ULong} (h : OperandBefore i operand)
    (ho : operand? n operand = some o) : o < i := by
  unfold operand? at ho
  split at ho
  · next hlt =>
    obtain rfl := Option.some.inj ho
    exact h.lt hlt.2
  · exact absurd ho (by simp)

theorem operandValue_congr {i : Fin n} {operand : ULong} (h : OperandBefore i operand)
    {v v' : Fin n → R} (hv : ∀ j < i, v j = v' j) :
    operandValue v operand = operandValue v' operand := by
  unfold operandValue
  cases ho : operand? n operand with
  | none => rfl
  | some o => exact hv o (operand?_lt h ho)

theorem causal_blockValue (ht : t.OperandsBefore) : Causal t.blockValue := by
  intro i v v' hv
  have h := ht.blockAt i
  have hbefore : ∀ j < i, v j = v' j := fun j hj => hv j (le_of_lt hj)
  rw [blockValue, blockValue, hv i le_rfl, operandValue_congr h.1 hbefore,
    operandValue_congr h.2 hbefore]

/-- **The forward evaluation solves the equations of the tape.** -/
theorem forwardSweep_apply (ht : t.OperandsBefore) (v : Fin t.numberOfBlocks.toNat → R)
    (i : Fin t.numberOfBlocks.toNat) :
    t.forwardSweep v i = v i
      + operandValue (t.forwardSweep v) (t.blockAt i).index1 * (t.blockAt i).diff1
      + operandValue (t.forwardSweep v) (t.blockAt i).index2 * (t.blockAt i).diff2 := by
  have hsweep : t.forwardSweep v = sweep t.blockValue (List.finRange t.numberOfBlocks.toNat) v := by
    unfold forwardSweep sweep
    congr 1
    funext v i
    exact forwardMap_eq ht i v
  have h := ht.blockAt i
  have hbefore : ∀ j < i, (if j < i then t.forwardSweep v j else v j) = t.forwardSweep v j :=
    fun j hj => if_pos hj
  have heq : t.forwardSweep v i
      = t.blockValue i fun j => if j < i then t.forwardSweep v j else v j := by
    rw [hsweep]
    exact sweep_apply (causal_blockValue ht) _ v (List.pairwise_lt_finRange _)
      (List.mem_finRange i)
  rw [heq, blockValue, if_neg (lt_irrefl i), operandValue_congr h.1 hbefore,
    operandValue_congr h.2 hbefore]

end Tapefile

end Derivgrind
