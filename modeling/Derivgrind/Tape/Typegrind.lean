import Derivgrind.Tape.Transpose
import Mathlib.Logic.Relation

/-!
# Scanning the tape for unwrapped operations

With `--typegrind=yes`, the results of operations that are not recognised as real
arithmetic get an index from `2^63` on.  The function `evaluate_for_typegrind` should
report the blocks with such an operand that influence an output.

The function exchanges the two classes of indices: it marks the operands with an index
from `2^63` on, which are no elements of the array, and does not mark the other ones.

## Main definitions

* `Tapefile.evaluateForTypegrind` — the function.
* `Tapefile.Influences` — a block influences an output.
* `Tapefile.ReportsInfluencers` — what the function should do.

## Main results

* `Tapefile.reportsInfluencers_iff` — **the function is right if there is nothing to
  report.**
-/

namespace Derivgrind

open ChunkedLog

namespace Tapefile

variable {R : Type} {n : ℕ}

/-! ### The function -/

/-- `influencervec[index]==1`; `none` is an access out of bounds. -/
def isMarked? (influencervec : Fin n → BitVec 8) (index : ULong) : Option Bool :=
  if h : index.toNat < n then some (decide (influencervec ⟨index.toNat, h⟩ = 1)) else none

/-- `influencervec[index] = 1`. -/
def mark? (influencervec : Fin n → BitVec 8) (index : ULong) : Option (Fin n → BitVec 8) :=
  if h : index.toNat < n then some (Function.update influencervec ⟨index.toNat, h⟩ 1) else none

/-- An index given to an unwrapped operation. -/
def isUnwrapped (index : ULong) : Bool := index.toNat ≥ 0x8000000000000000

/-- One operand of a block. -/
def typegrindOperand (operand : ULong) (influencervec : Fin n → BitVec 8) : Option (Fin n → BitVec 8) :=
  if isUnwrapped operand then mark? influencervec operand else some influencervec

/-- The body of `evaluate_for_typegrind`.  The state has the calls of `callback`. -/
def typegrindBlock (index : ULong) (block : Block R) (s : (Fin n → BitVec 8) × List ULong) :
    Option ((Fin n → BitVec 8) × List ULong) := do
  let marked ← isMarked? s.1 index
  if marked then
    let influencervec ← typegrindOperand block.index1 s.1
    let influencervec ← typegrindOperand block.index2 influencervec
    if isUnwrapped block.index1 || isUnwrapped block.index2 then
      some (influencervec, s.2 ++ [index])
    else some (influencervec, s.2)
  else some s

/-- `evaluate_for_typegrind`: the calls of `callback`. -/
def evaluateForTypegrind (t : Tapefile R) (tapeBuf : Buf (Block R))
    (influencervec : Fin t.numberOfBlocks.toNat → BitVec 8) : Option (List ULong) :=
  (t.iterate (t.numberOfBlocks - 1) 0 typegrindBlock (tapeBuf, influencervec, [])).map
    fun s => s.2.2

/-! ### What the function is for -/

section Influence

variable (t : Tapefile R)

/-- A block with an operand from an unwrapped operation. -/
def Suspicious (k : Fin t.numberOfBlocks.toNat) : Prop :=
  2 ^ 63 ≤ (t.blockAt k).index1.toNat ∨ 2 ^ 63 ≤ (t.blockAt k).index2.toNat

/-- The block `k` is an operand of the block `i`.  The index zero stands for no operand. -/
def IsOperand (k i : Fin t.numberOfBlocks.toNat) : Prop :=
  k.val ≠ 0 ∧ ((t.blockAt i).index1.toNat = k ∨ (t.blockAt i).index2.toNat = k)

/-- A marked output can be reached from the block `k`. -/
def Influences (outputs : Fin t.numberOfBlocks.toNat → Bool) (k : Fin t.numberOfBlocks.toNat) :
    Prop :=
  ∃ i, outputs i = true ∧ Relation.ReflTransGen t.IsOperand k i

/-- The array with which the function is called. -/
def marks (outputs : Fin t.numberOfBlocks.toNat → Bool) : Fin t.numberOfBlocks.toNat → BitVec 8 :=
  fun i => if outputs i then 1 else 0

/-- All accesses are in the array, and `callback` is called once for each suspicious block that
influences an output, and for no other block. -/
def ReportsInfluencers (tapeBuf : Buf (Block R)) (outputs : Fin t.numberOfBlocks.toNat → Bool) :
    Prop :=
  ∃ callbacks, t.evaluateForTypegrind tapeBuf (t.marks outputs) = some callbacks ∧
    callbacks.Nodup ∧ ∀ index, index ∈ callbacks ↔
      ∃ k : Fin t.numberOfBlocks.toNat, index = BitVec.ofNat 64 k ∧ t.Suspicious k ∧ t.Influences outputs k

end Influence

/-! ### What the function does -/

section Scan

variable (t : Tapefile R) (outputs : Fin t.numberOfBlocks.toNat → Bool)

theorem isUnwrapped_iff (index : ULong) : isUnwrapped index = true ↔ 2 ^ 63 ≤ index.toNat := by
  simp [isUnwrapped]

theorem numberOfBlocks_lt : t.numberOfBlocks.toNat < 2 ^ 63 := by
  have hsize := t.size_tape
  rw [t.length_tape] at hsize
  unfold maxFileSize at hsize
  omega

theorem suspicious_iff (k : Fin t.numberOfBlocks.toNat) :
    t.Suspicious k ↔
      (isUnwrapped (t.blockAt k).index1 || isUnwrapped (t.blockAt k).index2) = true := by
  rw [Bool.or_eq_true, isUnwrapped_iff, isUnwrapped_iff]
  rfl

/-- An index from `2^63` on is no element of the array. -/
theorem typegrindOperand_eq (operand : ULong) (vec : Fin t.numberOfBlocks.toNat → BitVec 8) :
    typegrindOperand operand vec = if isUnwrapped operand then none else some vec := by
  have hn := t.numberOfBlocks_lt
  unfold typegrindOperand
  by_cases h : isUnwrapped operand = true
  · have hle := (isUnwrapped_iff operand).mp h
    rw [if_pos h, if_pos h, mark?, dif_neg (by omega)]
  · rw [if_neg h, if_neg h]

open Classical in
/-- One block: nothing is marked or reported, or there is an access out of bounds. -/
theorem visitBlock_typegrindBlock (k : Fin t.numberOfBlocks.toNat) :
    t.visitBlock typegrindBlock (t.marks outputs, []) k
      = if outputs k = true ∧ t.Suspicious k then none else some (t.marks outputs, []) := by
  have hk : (BitVec.ofNat 64 k : ULong).toNat = k := by
    rw [BitVec.toNat_ofNat, Nat.mod_eq_of_lt (k.isLt.trans t.numberOfBlocks.isLt)]
  have hread : isMarked? (t.marks outputs) (BitVec.ofNat 64 k) = some (outputs k) := by
    have hin : (BitVec.ofNat 64 k : ULong).toNat < t.numberOfBlocks.toNat := by rw [hk]; exact k.isLt
    have hfin : (⟨(BitVec.ofNat 64 k : ULong).toNat, hin⟩ : Fin t.numberOfBlocks.toNat) = k :=
      Fin.ext hk
    rw [isMarked?, dif_pos hin, hfin, marks]
    cases outputs k <;> simp
  simp only [visitBlock, typegrindBlock, hread, Option.bind_eq_bind, Option.bind_some,
    typegrindOperand_eq]
  cases outputs k with
  | false => simp
  | true =>
    rw [suspicious_iff]
    cases isUnwrapped (t.blockAt k).index1 <;> cases isUnwrapped (t.blockAt k).index2 <;> simp

open Classical in
/-- The blocks in a list. -/
theorem foldlM_typegrindBlock (l : List (Fin t.numberOfBlocks.toNat)) :
    l.foldlM (t.visitBlock typegrindBlock) (t.marks outputs, [])
      = if ∃ k ∈ l, outputs k = true ∧ t.Suspicious k then none
        else some (t.marks outputs, []) := by
  induction l with
  | nil => simp
  | cons k l ih =>
    rw [List.foldlM_cons, visitBlock_typegrindBlock]
    by_cases hk : outputs k = true ∧ t.Suspicious k
    · simp [hk]
    · have hl : (∃ k' ∈ k :: l, outputs k' = true ∧ t.Suspicious k') ↔
          ∃ k' ∈ l, outputs k' = true ∧ t.Suspicious k' := by
        simp [hk]
      simp only [if_neg hk, Option.bind_eq_bind, Option.bind_some, ih, hl]

open Classical in
theorem evaluateForTypegrind_eq {tapeBuf : Buf (Block R)}
    (hbuf : tapeBuf.size = t.bufsize.toNat) :
    t.evaluateForTypegrind tapeBuf (t.marks outputs)
      = if ∃ k, outputs k = true ∧ t.Suspicious k then none else some [] := by
  have hiter := t.iterate_backward typegrindBlock hbuf (t.marks outputs, [])
  rw [foldlM_typegrindBlock] at hiter
  have hmap : t.evaluateForTypegrind tapeBuf (t.marks outputs)
      = ((t.iterate (t.numberOfBlocks - 1) 0 typegrindBlock
          (tapeBuf, t.marks outputs, [])).map Prod.snd).map Prod.snd := by
    rw [Option.map_map]
    rfl
  rw [hmap, hiter]
  simp only [List.mem_reverse, List.mem_finRange, true_and]
  split <;> rfl

/-- **The function is right** exactly if no suspicious block influences an output. -/
theorem reportsInfluencers_iff {tapeBuf : Buf (Block R)}
    (hbuf : tapeBuf.size = t.bufsize.toNat) :
    t.ReportsInfluencers tapeBuf outputs ↔ ∀ k, t.Suspicious k → ¬t.Influences outputs k := by
  rw [ReportsInfluencers, evaluateForTypegrind_eq t outputs hbuf]
  constructor
  · rintro ⟨callbacks, heval, -, hiff⟩ k hk hinf
    -- nothing is ever reported
    split at heval
    · cases heval
    · cases heval
      exact absurd ((hiff _).mpr ⟨k, rfl, hk, hinf⟩) List.not_mem_nil
  · intro h
    have hnone : ¬∃ k, outputs k = true ∧ t.Suspicious k := by
      rintro ⟨k, hk, hsus⟩
      exact h k hsus ⟨k, hk, .refl⟩
    rw [if_neg hnone]
    refine ⟨[], rfl, List.nodup_nil, fun index => iff_of_false List.not_mem_nil ?_⟩
    rintro ⟨k, -, hsus, hinf⟩
    exact h k hsus hinf

end Scan

/-- The output is block 2, whose operand has an operand from an unwrapped operation. -/
def unwrappedTape : Tapefile ℕ where
  bufsize := 100
  numberOfBlocks := 3
  tape := [⟨0, 0, 0, 0⟩, ⟨0x8000000000000000, 0, 1, 0⟩, ⟨1, 0, 1, 0⟩]
  bufsize_pos := by decide
  bufsize_lt := by decide
  length_tape := rfl
  size_tape := by decide

/-- The output is block 2, which has the operand 1.  The block with an operand from an unwrapped
operation comes later, and has no influence. -/
def unusedTape : Tapefile ℕ where
  bufsize := 100
  numberOfBlocks := 4
  tape := [⟨0, 0, 0, 0⟩, ⟨0, 0, 0, 0⟩, ⟨1, 0, 1, 0⟩, ⟨0x8000000000000000, 2, 1, 1⟩]
  bufsize_pos := by decide
  bufsize_lt := by decide
  length_tape := rfl
  size_tape := by decide

/-- The theorem applies to `unusedTape`, where the input influences the output. -/
theorem reportsInfluencers_iff_unusedTape :
    unusedTape.Influences (fun i => i.val = 2) ⟨1, by decide⟩ ∧
      unusedTape.Suspicious ⟨3, by decide⟩ ∧
      unusedTape.ReportsInfluencers (Buf.fill 100 ⟨0, 0, 0, 0⟩) fun i => i.val = 2 := by
  refine ⟨⟨⟨2, by decide⟩, rfl, .single ⟨by decide, .inl rfl⟩⟩, .inl (by decide),
    (reportsInfluencers_iff unusedTape _ rfl).mpr ?_⟩
  rintro k hk ⟨i, hi, hreach⟩
  -- only block 3 is suspicious, and it is no operand
  have hlast : ∀ k, unusedTape.Suspicious k → k = ⟨3, by decide⟩ := by
    unfold Suspicious
    decide
  obtain rfl := hlast k hk
  rcases Relation.ReflTransGen.cases_head hreach with heq | ⟨j, ⟨-, hj⟩, -⟩
  · rw [← heq] at hi
    exact absurd hi (by decide)
  · revert j
    decide

theorem not_reportsInfluencers_unwrappedTape :
    unwrappedTape.OperandsBefore ∧
      ¬unwrappedTape.ReportsInfluencers (Buf.fill 100 ⟨0, 0, 0, 0⟩) fun i => i.val = 2 := by
  constructor
  · unfold OperandsBefore OperandBefore
    decide
  · rintro ⟨callbacks, heval, -, hiff⟩
    have hinf : unwrappedTape.Influences (fun i => i.val = 2) ⟨1, by decide⟩ :=
      ⟨⟨2, by decide⟩, rfl, .single ⟨by decide, .inl rfl⟩⟩
    have hmem := (hiff 1).mpr ⟨⟨1, by decide⟩, rfl, .inl (by decide), hinf⟩
    rw [evaluateForTypegrind_eq unwrappedTape _ rfl] at heval
    split at heval
    · cases heval
    · cases heval
      exact absurd hmem List.not_mem_nil

end Tapefile

end Derivgrind
