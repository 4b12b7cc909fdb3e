import Derivgrind.Tape.Eval
import Mathlib.Data.Fin.VecNotation

/-!
# Reverse evaluation is the transpose of forward evaluation

If every operand of a block is computed before the block, both evaluations of a
tape stay within the array of derivatives, and the reverse evaluation is the
transpose of the forward evaluation.

## Main definitions

* `Tapefile.OperandsBefore` — operands come before results.
* `Tapefile.forwardSweep`, `Tapefile.backwardSweep` — the linear maps that are
  evaluated.

## Main results

* `Tapefile.evaluateForward_eq`, `Tapefile.evaluateBackward_eq` — the evaluations
  compute the sweeps.
* `Tapefile.evaluateBackward_isTranspose` — **the reverse evaluation is the
  transpose of the forward evaluation.**
-/

namespace Derivgrind

open ChunkedLog Adjoint

namespace Tapefile

universe u

variable {R : Type u}

/-- An operand of the block `i`: inactive, or the result of an earlier block. -/
def OperandBefore (i : ℕ) (operand : ULong) : Prop :=
  operand = 0 ∨ 2 ^ 63 ≤ operand.toNat ∨ operand.toNat < i

/-- All operands of a tape come before the results. -/
def OperandsBefore (t : Tapefile R) : Prop :=
  ∀ i (h : i < t.tape.length),
    OperandBefore i (t.tape[i]).index1 ∧ OperandBefore i (t.tape[i]).index2

/-- An active operand is an earlier block. -/
theorem OperandBefore.lt {i : ℕ} {operand : ULong} (h : OperandBefore i operand)
    (ha : isActive operand = true) : operand.toNat < i := by
  simp only [isActive, Bool.and_eq_true, decide_eq_true_eq] at ha
  rcases h with h | h | h
  · exact absurd h ha.1
  · omega
  · exact h

variable {n : ℕ} [CommRing R]

/-! ### One block -/

/-- The position of an active operand in the array. -/
def operand? (n : ℕ) (operand : ULong) : Option (Fin n) :=
  if h : operand.toNat < n ∧ isActive operand = true then some ⟨operand.toNat, h.1⟩ else none

/-- The update belonging to one operand: `shear` in one of the two directions. -/
def forwardShear (i : Fin n) (operand : ULong) (diff : R) (v : Fin n → R) : Fin n → R :=
  match operand? n operand with
  | some o => shear i o diff v
  | none => v

@[inherit_doc forwardShear]
def backwardShear (i : Fin n) (operand : ULong) (diff : R) (u : Fin n → R) : Fin n → R :=
  match operand? n operand with
  | some o => shear o i diff u
  | none => u

theorem isTranspose_forwardShear (i : Fin n) (operand : ULong) (diff : R) :
    IsTranspose (forwardShear i operand diff) (backwardShear i operand diff) := by
  unfold forwardShear backwardShear
  cases operand? n operand with
  | none => exact IsTranspose.id
  | some o => exact isTranspose_shear i o diff

/-- The operand that is looked up is not the block itself. -/
theorem operand?_ne {i o : Fin n} {operand : ULong} (h : OperandBefore i operand)
    (ho : operand? n operand = some o) : o ≠ i := by
  unfold operand? at ho
  split at ho
  · next hlt =>
    obtain rfl := Option.some.inj ho
    have := h.lt hlt.2
    exact fun heq => by simp [← heq] at this
  · exact absurd ho (by simp)

/-- The updates of the two operands commute. -/
theorem backwardShear_comm {i : Fin n} {o₁ o₂ : ULong} (h₁ : OperandBefore i o₁)
    (h₂ : OperandBefore i o₂) (a₁ a₂ : R) (u : Fin n → R) :
    backwardShear i o₁ a₁ (backwardShear i o₂ a₂ u)
      = backwardShear i o₂ a₂ (backwardShear i o₁ a₁ u) := by
  unfold backwardShear
  cases hp₁ : operand? n o₁ with
  | none => rfl
  | some p₁ =>
    cases hp₂ : operand? n o₂ with
    | none => rfl
    | some p₂ => exact shear_comm (operand?_ne h₁ hp₁) (operand?_ne h₂ hp₂) a₁ a₂ u

omit [CommRing R] in
theorem derivative?_ofNat (hn : n < 2 ^ 64) (vec : Fin n → R) (i : Fin n) :
    derivative? vec (BitVec.ofNat 64 i) = some (vec i) := by
  have hi : (BitVec.ofNat 64 i).toNat = i := by
    rw [BitVec.toNat_ofNat, Nat.mod_eq_of_lt (i.isLt.trans hn)]
  simp [derivative?, hi]

theorem addDerivative?_ofNat (hn : n < 2 ^ 64) (vec : Fin n → R) (i : Fin n) (x : R) :
    addDerivative? vec (BitVec.ofNat 64 i) x = some (Function.update vec i (vec i + x)) := by
  have hi : (BitVec.ofNat 64 i).toNat = i := by
    rw [BitVec.toNat_ofNat, Nat.mod_eq_of_lt (i.isLt.trans hn)]
  simp [addDerivative?, hi]

variable [DecidableEq R]

/-- One operand in the forward evaluation; skipping zeros makes no difference. -/
theorem forwardOperand_eq (hn : n < 2 ^ 64) {i : Fin n} {operand : ULong}
    (h : OperandBefore i operand) (diff : R) (v : Fin n → R) :
    forwardOperand (BitVec.ofNat 64 i) operand diff v = some (forwardShear i operand diff v) := by
  unfold forwardOperand forwardShear
  by_cases ha : isActive operand = true
  · have hlt : operand.toNat < n := (h.lt ha).trans i.isLt
    simp only [ha, if_true, operand?, hlt, and_self, dif_pos, derivative?, Option.bind_eq_bind,
      Option.bind_some, addDerivative?_ofNat hn]
    split
    · rfl
    · next hzero =>
      rw [not_not] at hzero
      simp [shear, hzero]
  · simp [operand?, ha]

omit [DecidableEq R] in
/-- One operand in the reverse evaluation. -/
theorem backwardOperand_eq (hn : n < 2 ^ 64) {i : Fin n} {operand : ULong}
    (h : OperandBefore i operand) (diff : R) (u : Fin n → R) :
    backwardOperand (BitVec.ofNat 64 i) operand diff u
      = some (backwardShear i operand diff u) := by
  unfold backwardOperand backwardShear
  by_cases ha : isActive operand = true
  · have hlt : operand.toNat < n := (h.lt ha).trans i.isLt
    simp only [ha, if_true, operand?, hlt, and_self, dif_pos, derivative?_ofNat hn,
      Option.bind_eq_bind, Option.bind_some, addDerivative?]
    rfl
  · simp [operand?, ha]

/-! ### Whole tapes -/

variable (t : Tapefile R)

/-- The forward evaluation of one block, as a linear map. -/
def forwardMap (i : Fin t.numberOfBlocks.toNat) (v : Fin t.numberOfBlocks.toNat → R) :
    Fin t.numberOfBlocks.toNat → R :=
  forwardShear i (t.blockAt i).index2 (t.blockAt i).diff2
    (forwardShear i (t.blockAt i).index1 (t.blockAt i).diff1 v)

/-- The reverse evaluation of one block, as a linear map. -/
def backwardMap (i : Fin t.numberOfBlocks.toNat) (u : Fin t.numberOfBlocks.toNat → R) :
    Fin t.numberOfBlocks.toNat → R :=
  backwardShear i (t.blockAt i).index2 (t.blockAt i).diff2
    (backwardShear i (t.blockAt i).index1 (t.blockAt i).diff1 u)

/-- The forward evaluation of all blocks, from the first to the last. -/
def forwardSweep (v : Fin t.numberOfBlocks.toNat → R) : Fin t.numberOfBlocks.toNat → R :=
  (List.finRange t.numberOfBlocks.toNat).foldl (fun v i => t.forwardMap i v) v

/-- The reverse evaluation of all blocks, from the last to the first. -/
def backwardSweep (u : Fin t.numberOfBlocks.toNat → R) : Fin t.numberOfBlocks.toNat → R :=
  (List.finRange t.numberOfBlocks.toNat).reverse.foldl (fun u i => t.backwardMap i u) u

variable {t}

omit [CommRing R] [DecidableEq R] in
theorem OperandsBefore.blockAt (ht : t.OperandsBefore) (i : Fin t.numberOfBlocks.toNat) :
    OperandBefore i (t.blockAt i).index1 ∧ OperandBefore i (t.blockAt i).index2 :=
  ht i (by rw [t.length_tape]; exact i.isLt)

/-- A fold of steps that all succeed. -/
theorem foldlM_eq_some {α : Type} {σ : Type u} {g : σ → α → Option σ} {h : σ → α → σ}
    (hgh : ∀ s a, g s a = some (h s a)) : ∀ (l : List α) (s : σ),
    l.foldlM g s = some (l.foldl h s) := by
  intro l
  induction l with
  | nil => intro s; rfl
  | cons a l ih =>
    intro s
    rw [List.foldlM_cons, hgh, List.foldl_cons]
    exact ih (h s a)

/-- **The forward evaluation** stays within the array, and computes the sweep. -/
theorem evaluateForward_eq (ht : t.OperandsBefore) {buf : Buf (Block R)}
    (hbuf : buf.size = t.bufsize.toNat) (v : Fin t.numberOfBlocks.toNat → R) :
    t.evaluateForward buf v = some (t.forwardSweep v) := by
  rw [evaluateForward, t.iterate_forward forwardBlock hbuf]
  refine foldlM_eq_some (fun v i => ?_) _ v
  rw [visitBlock, forwardBlock, forwardOperand_eq t.numberOfBlocks.isLt (ht.blockAt i).1]
  exact forwardOperand_eq t.numberOfBlocks.isLt (ht.blockAt i).2 _ _

/-- **The reverse evaluation** stays within the array, and computes the sweep. -/
theorem evaluateBackward_eq (ht : t.OperandsBefore) {buf : Buf (Block R)}
    (hbuf : buf.size = t.bufsize.toNat) (u : Fin t.numberOfBlocks.toNat → R) :
    t.evaluateBackward buf u = some (t.backwardSweep u) := by
  rw [evaluateBackward, t.iterate_backward backwardBlock hbuf]
  refine foldlM_eq_some (fun u i => ?_) _ u
  have h := ht.blockAt i
  rw [visitBlock, backwardBlock, derivative?_ofNat t.numberOfBlocks.isLt, Option.bind_eq_bind,
    Option.bind_some]
  split
  · rw [backwardOperand_eq t.numberOfBlocks.isLt h.1]
    exact backwardOperand_eq t.numberOfBlocks.isLt h.2 _ _
  · -- a block with bar value zero is skipped
    next hzero =>
    rw [not_not] at hzero
    have hskip : ∀ (o : ULong) (a : R) (w : Fin t.numberOfBlocks.toNat → R), w i = 0 →
        backwardShear i o a w = w := by
      intro o a w hw
      unfold backwardShear
      cases operand? _ o with
      | none => rfl
      | some p => simp [shear, hw]
    rw [backwardMap, hskip _ _ u hzero, hskip _ _ u hzero]

omit [DecidableEq R] in
/-- The reverse sweep is the transpose of the forward sweep. -/
theorem isTranspose_sweeps (ht : t.OperandsBefore) :
    IsTranspose t.forwardSweep t.backwardSweep := by
  refine IsTranspose.foldl _ fun i _ => ?_
  have h := ht.blockAt i
  intro u v
  have hcomp := ((isTranspose_forwardShear i (t.blockAt i).index1 (t.blockAt i).diff1).comp
    (isTranspose_forwardShear i (t.blockAt i).index2 (t.blockAt i).diff2)) u v
  rw [backwardMap, backwardShear_comm h.2 h.1]
  exact hcomp

/-- **Reverse evaluation is the transpose of forward evaluation.**  Both stay
within the array of derivatives; the bar value of any block is the sum over all
blocks of its seed times the derivative with respect to the former. -/
theorem evaluateBackward_isTranspose (ht : t.OperandsBefore) (buf buf' : Buf (Block R))
    (hbuf : buf.size = t.bufsize.toNat) (hbuf' : buf'.size = t.bufsize.toNat)
    (u v : Fin t.numberOfBlocks.toNat → R) :
    ∃ w z, t.evaluateForward buf v = some w ∧ t.evaluateBackward buf' u = some z ∧
      ∑ i, u i * w i = ∑ i, z i * v i ∧
      ∀ j, ∃ d, t.evaluateForward buf (Pi.single j 1) = some d ∧ z j = ∑ i, u i * d i := by
  refine ⟨_, _, evaluateForward_eq ht hbuf v, evaluateBackward_eq ht hbuf' u,
    isTranspose_sweeps ht u v, fun j => ⟨_, evaluateForward_eq ht hbuf _, ?_⟩⟩
  exact (isTranspose_sweeps ht).apply_eq_sum u j

/-- A tape with a block whose operands coincide, and an unwrapped operand; read in
chunks of two blocks. -/
def sharingTape : Tapefile ℤ where
  bufsize := 2
  numberOfBlocks := 4
  tape := [⟨0, 0, 0, 0⟩, ⟨0, 0, 0, 0⟩, ⟨1, 1, 3, 4⟩, ⟨2, 0xffffffffffffffff, 5, 6⟩]
  bufsize_pos := by decide
  bufsize_lt := by decide
  length_tape := rfl
  size_tape := by decide

/-- The theorem applies to `sharingTape`. -/
theorem evaluateBackward_isTranspose_sharingTape :
    sharingTape.OperandsBefore ∧ ∃ w z,
      sharingTape.evaluateForward (Buf.fill 2 ⟨0, 0, 0, 0⟩) ![0, 1, 2, 0] = some w ∧
      sharingTape.evaluateBackward (Buf.fill 2 ⟨0, 0, 0, 0⟩) ![0, 0, 7, 1] = some z ∧
      ∑ i, ![0, 0, 7, 1] i * w i = ∑ i, z i * ![0, 1, 2, 0] i := by
  have ht : sharingTape.OperandsBefore := by
    unfold OperandsBefore OperandBefore
    decide
  obtain ⟨w, z, hw, hz, hsum, -⟩ :=
    evaluateBackward_isTranspose ht (Buf.fill 2 ⟨0, 0, 0, 0⟩) (Buf.fill 2 ⟨0, 0, 0, 0⟩) rfl rfl ![0, 0, 7, 1] ![0, 1, 2, 0]
  exact ⟨ht, w, z, hw, hz, hsum⟩

end Tapefile

end Derivgrind
