import Derivgrind.Tape.Program

/-!
# Activity analysis does not change derivatives

With activity analysis, operations on constants are not recorded, so the tape is shorter
and its indices are different.  The derivatives that are evaluated from it are the same:
both tapes give the derivatives of the program.

## Main definitions

* `programSession` — the tape file of a program, and the indices of its variables.
* `decodeBlocks` — the blocks in a file.
* `seedVector` — the array of derivatives with the seeds of inputs or outputs.

## Main results

* `Recorded.operandValue_forwardSweep`, `Recorded.operandValue_backwardSweep` — the
  evaluations of a tape compute the derivatives of the program.
* `activityAnalysis_keeps_derivatives` — **the evaluations of both tapes agree.**
-/

namespace Derivgrind

open Tapefile

universe u

section Decode

variable {R : Type u} [CommRing R]

/-- A block, as it is read from the file; `dec` gives the numbers that bit patterns stand for. -/
def decodeBlock (dec : ULong → R) : List ULong → Block R
  | [index1, index2, diff1, diff2] => ⟨index1, index2, dec diff1, dec diff2⟩
  | _ => ⟨0, 0, 0, 0⟩

/-- The blocks in a file. -/
def decodeBlocks (dec : ULong → R) : List ULong → List (Block R)
  | index1 :: index2 :: diff1 :: diff2 :: ws =>
      decodeBlock dec [index1, index2, diff1, diff2] :: decodeBlocks dec ws
  | _ => []

theorem decodeBlocks_flatten (dec : ULong → R) : ∀ log : List (List ULong),
    (∀ block ∈ log, block.length = 4) →
    decodeBlocks dec log.flatten = log.map (decodeBlock dec) := by
  intro log
  induction log with
  | nil => intro _; rfl
  | cons block log ih =>
    intro h
    obtain ⟨i1, i2, d1, d2, rfl⟩ : ∃ i1 i2 d1 d2, block = [i1, i2, d1, d2] := by
      have hlen := h block List.mem_cons_self
      match block, hlen with
      | [i1, i2, d1, d2], _ => exact ⟨i1, i2, d1, d2, rfl⟩
    have hlog := ih fun b hb => h b (List.mem_cons_of_mem _ hb)
    rw [List.flatten_cons, List.map_cons, ← hlog]
    rfl

theorem decodeBlock_block (dec : ULong → R) (r : Request) :
    decodeBlock dec r.block = ⟨r.index1, r.index2, dec r.diff1, dec r.diff2⟩ := rfl

end Decode

/-! ### Seeds -/

section Seeds

variable {R : Type u} [CommRing R]

/-- The array of derivatives in which the results of all statements of one kind are seeded. -/
def seedVector (kind : Statement → Bool) (sts : List Statement) (indices : List ULong)
    (seed : ℕ → R) (n : ℕ) : Fin n → R := fun i =>
  ∑ k ∈ Finset.range sts.length,
    if sts[k]?.any kind = true ∧ (indices.getD k 0).toNat = i then seed k else 0

@[simp] theorem operandValue_zero {n : ℕ} (v : Fin n → R) : operandValue v 0#64 = 0 := by
  have hnone : operand? n 0#64 = none := dif_neg fun h => absurd h.2 (by decide)
  rw [operandValue, hnone]

theorem operandValue_ofNat {n p : ℕ} (v : Fin n → R) (hn : n < 2 ^ 63) (hpos : 0 < p)
    (hp : p < n) : operandValue v (BitVec.ofNat 64 p) = v ⟨p, hp⟩ := by
  have htoNat : (BitVec.ofNat 64 p).toNat = p := by
    rw [BitVec.toNat_ofNat, Nat.mod_eq_of_lt (by omega)]
  have hne : BitVec.ofNat 64 p ≠ 0 := by
    intro h
    rw [h] at htoNat
    exact absurd htoNat (by simpa using hpos.ne)
  have hactive : isActive (BitVec.ofNat 64 p) = true := by
    simp only [isActive, htoNat, Bool.and_eq_true, decide_eq_true_eq]
    exact ⟨hne, by omega⟩
  simp [operandValue, operand?, htoNat, hactive, hp]

end Seeds

/-! ### The tape of a program -/

section Recorded

variable {R : Type u} [CommRing R] {dec : ULong → R} {activityAnalysis : Bool}
  {sts : List Statement} {indices : List ULong} {log : List (List ULong)} {t : Tapefile R}

omit [CommRing R] in
theorem Tapefile.length_lt (t : Tapefile R) : t.numberOfBlocks.toNat < 2 ^ 63 := by
  have hsize := t.size_tape
  rw [t.length_tape] at hsize
  simp only [maxFileSize] at hsize
  omega

/-- The tape that is read is the tape that was recorded. -/
structure ReadsAs (dec : ULong → R) (t : Tapefile R) (log : List (List ULong)) : Prop where
  tape : t.tape = log.map (decodeBlock dec)

theorem ReadsAs.length (h : ReadsAs dec t log) : t.numberOfBlocks.toNat = log.length := by
  rw [← t.length_tape, h.tape, List.length_map]

theorem ReadsAs.getElem? (h : ReadsAs dec t log) {p : ℕ} {block : List ULong}
    (hp : log[p]? = some block) (hlt : p < t.numberOfBlocks.toNat) :
    t.blockAt ⟨p, hlt⟩ = decodeBlock dec block := by
  have hlen : p < t.tape.length := by rw [t.length_tape]; exact hlt
  have hget : t.tape[p]? = some (decodeBlock dec block) := by
    rw [h.tape, List.getElem?_map, hp]
    rfl
  rw [List.getElem?_eq_getElem hlen] at hget
  exact Option.some.inj hget

/-- The operands of a statement come before its block. -/
theorem BlockAt.index_lt {k p : ℕ} (h : BlockAt activityAnalysis sts indices log k p)
    (x : Operand) : (x.index (indices.take k)).toNat < p := by
  cases x with
  | const => exact h.pos
  | var j =>
    rw [Operand.index, List.getD_eq_getElem?_getD, List.getElem?_take]
    split
    · next hj =>
      rw [← List.getD_eq_getElem?_getD]
      exact h.before j hj
    · exact h.pos

theorem operandsBefore_request {k p : ℕ} (h : BlockAt activityAnalysis sts indices log k p)
    (st : Statement) :
    OperandBefore p (st.request activityAnalysis (indices.take k)).index1 ∧
      OperandBefore p (st.request activityAnalysis (indices.take k)).index2 := by
  cases st with
  | input value => exact ⟨Or.inl rfl, Or.inl rfl⟩
  | operation x y dx dy value => exact ⟨Or.inr (Or.inr (h.index_lt x)), Or.inr (Or.inr (h.index_lt y))⟩
  | output x value => exact ⟨Or.inr (Or.inr (h.index_lt x)), Or.inl rfl⟩

/-- **Operands come before results on the tape of a program.** -/
theorem Recorded.operandsBefore (h : Recorded activityAnalysis sts indices log)
    (ht : ReadsAs dec t log) : t.OperandsBefore := by
  intro p hp
  have hlt : p < t.numberOfBlocks.toNat := by rw [← t.length_tape]; exact hp
  change OperandBefore p (t.blockAt ⟨p, hlt⟩).index1 ∧ OperandBefore p (t.blockAt ⟨p, hlt⟩).index2
  rcases Nat.eq_zero_or_pos p with rfl | hpos
  · rw [ht.getElem? h.first]
    exact ⟨Or.inl rfl, Or.inl rfl⟩
  · obtain ⟨k, -, hblock⟩ := h.cover p hpos (by rw [← ht.length]; exact hlt)
    obtain ⟨st, -, hlog⟩ := hblock.block
    rw [ht.getElem? hlog]
    exact operandsBefore_request hblock st

theorem BlockAt.toNat_index {k p : ℕ} (h : BlockAt activityAnalysis sts indices log k p)
    (hp : p < 2 ^ 63) : (indices.getD k 0).toNat = p := by
  rw [List.getD_eq_getElem?_getD, h.index, Option.getD_some, BitVec.toNat_ofNat,
    Nat.mod_eq_of_lt (hp.trans (by decide))]

/-- Different statements have different blocks. -/
theorem Recorded.eq_of_index (h : Recorded activityAnalysis sts indices log)
    (hlog : log.length < 2 ^ 63) {k p j : ℕ} (hk : BlockAt activityAnalysis sts indices log k p)
    (hp : p < log.length) (hj : j < sts.length) (heq : (indices.getD j 0).toNat = p) : j = k := by
  have hpos := hk.pos
  rcases Nat.lt_trichotomy j k with hlt | rfl | hgt
  · have := hk.before j hlt
    omega
  · rfl
  · rcases h.entry j hj with hskip | ⟨q, hq, hblock⟩
    · rw [List.getD_eq_getElem?_getD, hskip.index] at heq
      exact absurd heq (by simpa using hpos.ne)
    · have hbefore := hblock.before k hgt
      rw [hk.toNat_index (hp.trans hlog)] at hbefore
      rw [hblock.toNat_index (hq.trans hlog)] at heq
      omega

/-- The seed of a block is the one of its statement. -/
theorem Recorded.seedVector_apply (h : Recorded activityAnalysis sts indices log)
    (hlog : log.length < 2 ^ 63) {k p n : ℕ} (hk : BlockAt activityAnalysis sts indices log k p)
    (hklt : k < sts.length) (hp : p < log.length) (hn : p < n) (kind : Statement → Bool)
    (seed : ℕ → R) :
    seedVector kind sts indices seed n ⟨p, hn⟩ = if sts[k]?.any kind = true then seed k else 0 := by
  unfold seedVector
  have hindex : (indices.getD k 0).toNat = p := hk.toNat_index (hp.trans hlog)
  rw [Finset.sum_eq_single_of_mem k (Finset.mem_range.mpr hklt)]
  · simp only [hindex, and_true]
  · intro j hj hne
    refine if_neg fun hboth => hne ?_
    exact h.eq_of_index hlog hk hp (Finset.mem_range.mp hj) hboth.2

/-- The derivative of an operand on the tape and without a tape. -/
theorem operand_dot {n k : ℕ} {w : Fin n → R} {dots : List R}
    (h : ∀ j < k, operandValue w (indices.getD j 0) = dots.getD j 0) (x : Operand) :
    operandValue w (x.index (indices.take k)) = x.dot (dots.take k) := by
  cases x with
  | const => exact operandValue_zero w
  | var j =>
    simp only [Operand.index, Operand.dot, List.getD_eq_getElem?_getD, List.getElem?_take]
    split
    · next hj =>
      rw [← List.getD_eq_getElem?_getD, ← List.getD_eq_getElem?_getD]
      exact h j hj
    · exact operandValue_zero w

/-- **The forward evaluation of the tape computes the derivatives of the program**, with or
without activity analysis. -/
theorem Recorded.operandValue_forwardSweep (h : Recorded activityAnalysis sts indices log)
    (ht : ReadsAs dec t log) (seed : ℕ → R) :
    ∀ k < sts.length, operandValue (t.forwardSweep
        (seedVector Statement.isInput sts indices seed t.numberOfBlocks.toNat)) (indices.getD k 0)
      = (programDots dec seed sts).getD k 0 := by
  intro k
  induction k using Nat.strongRecOn with
  | _ k ih =>
    intro hk
    have hlog : log.length < 2 ^ 63 := by rw [← ht.length]; exact t.length_lt
    obtain ⟨w, hw⟩ : ∃ w, w = t.forwardSweep
        (seedVector Statement.isInput sts indices seed t.numberOfBlocks.toNat) := ⟨_, rfl⟩
    rw [← hw] at ih ⊢
    -- By induction, the operands are evaluated to their dot values.
    have hoperand : ∀ x : Operand, operandValue w (x.index (indices.take k))
        = x.dot ((programDots dec seed sts).take k) :=
      operand_dot fun j hj => ih j hj (hj.trans hk)
    have hinactive : operandValue w 0 = 0 := operandValue_zero w
    rcases h.entry k hk with hskip | ⟨p, hp, hblock⟩
    · -- all operands of a skipped operation are inactive
      obtain ⟨st, hst, hblocks⟩ := hskip.operands
      rw [getD_programDots dec seed sts hst, List.getD_eq_getElem?_getD, hskip.index,
        Option.getD_some, hinactive]
      unfold Request.blocks at hblocks
      split at hblocks
      · next hzero =>
        cases st with
        | input value => exact absurd hzero.1 (by simp [Statement.request])
        | output x value => exact absurd hzero.1 (by simp [Statement.request])
        | operation x y dx dy value =>
          have hx : x.dot ((programDots dec seed sts).take k) = 0 := by
            rw [← hoperand x, show x.index (indices.take k) = 0 from hzero.2.1, hinactive]
          have hy : y.dot ((programDots dec seed sts).take k) = 0 := by
            rw [← hoperand y, show y.index (indices.take k) = 0 from hzero.2.2, hinactive]
          rw [Statement.dot, hx, hy]
          simp
      · exact absurd hblocks (by simp)
    · obtain ⟨st, hst, hlogp⟩ := hblock.block
      -- The block of a recorded operation is the equation for its dot value.
      have hpn : p < t.numberOfBlocks.toNat := by rw [ht.length]; exact hp
      rw [getD_programDots dec seed sts hst, List.getD_eq_getElem?_getD, hblock.index,
        Option.getD_some, operandValue_ofNat w t.length_lt hblock.pos hpn, hw,
        forwardSweep_apply (h.operandsBefore ht), ← hw,
        h.seedVector_apply hlog hblock hk hp hpn, ht.getElem? hlogp, decodeBlock_block, hst]
      cases st with
      | input value =>
        simp [Statement.request, Statement.dot, Statement.isInput]
      | operation x y dx dy value =>
        simp [Statement.request, Statement.dot, Statement.isInput, hoperand]
      | output x value =>
        simp [Statement.request, Statement.dot, Statement.isInput, hoperand]

/-- Inputs and outputs are always recorded. -/
theorem Recorded.blockAt_of_kind (h : Recorded activityAnalysis sts indices log) {k : ℕ}
    (hk : sts[k]?.any Statement.isInput = true ∨ sts[k]?.any Statement.isOutput = true) :
    k < sts.length ∧ ∃ p < log.length, BlockAt activityAnalysis sts indices log k p := by
  have hlt : k < sts.length := by
    by_contra hge
    rw [List.getElem?_eq_none (not_lt.mp hge)] at hk
    simp at hk
  refine ⟨hlt, (h.entry k hlt).resolve_left fun hskip => ?_⟩
  obtain ⟨st, hst, hblocks⟩ := hskip.operands
  rw [hst] at hk
  cases st with
  | input value => simp [Statement.request, Request.blocks] at hblocks
  | operation x y dx dy value => simp [Statement.isInput, Statement.isOutput] at hk
  | output x value => simp [Statement.request, Request.blocks] at hblocks

/-- The seed of one input only. -/
theorem Recorded.seedVector_single (h : Recorded activityAnalysis sts indices log) {k p : ℕ} (hk : BlockAt activityAnalysis sts indices log k p)
    (hinput : sts[k]?.any Statement.isInput = true) (hp : p < t.numberOfBlocks.toNat) :
    seedVector Statement.isInput sts indices (Pi.single k (1 : R)) t.numberOfBlocks.toNat
      = Pi.single ⟨p, hp⟩ 1 := by
  obtain ⟨hlt, -⟩ := h.blockAt_of_kind (Or.inl hinput)
  funext i
  unfold seedVector
  rw [Finset.sum_eq_single_of_mem k (Finset.mem_range.mpr hlt), hinput,
    hk.toNat_index (hp.trans t.length_lt), Pi.single_eq_same]
  · rw [Pi.single_apply]
    congr 1
    simp [Fin.ext_iff, eq_comm]
  · intro j _ hne
    rw [Pi.single_eq_of_ne hne, ite_self]

/-- The sum over the tape of the seeds of the outputs times some derivatives. -/
theorem Recorded.sum_seedVector (h : Recorded activityAnalysis sts indices log)
    (ht : ReadsAs dec t log) (seed : ℕ → R) (d : Fin t.numberOfBlocks.toNat → R) :
    ∑ i, seedVector Statement.isOutput sts indices seed t.numberOfBlocks.toNat i * d i
      = ∑ j ∈ Finset.range sts.length, if sts[j]?.any Statement.isOutput = true then
          seed j * operandValue d (indices.getD j 0) else 0 := by
  simp only [seedVector, Finset.sum_mul]
  rw [Finset.sum_comm]
  refine Finset.sum_congr rfl fun j _ => ?_
  by_cases hout : sts[j]?.any Statement.isOutput = true
  · obtain ⟨-, q, hq, hblock⟩ := h.blockAt_of_kind (Or.inr hout)
    have hqn : q < t.numberOfBlocks.toNat := by rw [ht.length]; exact hq
    have hindex : (indices.getD j 0).toNat = q := hblock.toNat_index (hqn.trans t.length_lt)
    have hvalue : operandValue d (indices.getD j 0) = d ⟨q, hqn⟩ := by
      rw [List.getD_eq_getElem?_getD, hblock.index, Option.getD_some,
        operandValue_ofNat d t.length_lt hblock.pos hqn]
    rw [if_pos hout, hvalue, Finset.sum_eq_single_of_mem ⟨q, hqn⟩ (Finset.mem_univ _),
      if_pos ⟨hout, hindex⟩]
    intro i _ hne
    rw [if_neg, zero_mul]
    rintro ⟨-, heq⟩
    exact hne (Fin.ext (by rw [← heq, hindex]))
  · rw [if_neg hout]
    exact Finset.sum_eq_zero fun i _ => by rw [if_neg fun hboth => hout hboth.1, zero_mul]

/-- **The reverse evaluation of the tape computes the derivatives of the program**: the bar
value of an input is the sum over all outputs of their seed times the derivative with respect
to the input. -/
theorem Recorded.operandValue_backwardSweep (h : Recorded activityAnalysis sts indices log)
    (ht : ReadsAs dec t log) (seed : ℕ → R) {k : ℕ}
    (hinput : sts[k]?.any Statement.isInput = true) :
    operandValue (t.backwardSweep
        (seedVector Statement.isOutput sts indices seed t.numberOfBlocks.toNat)) (indices.getD k 0)
      = ∑ j ∈ Finset.range sts.length, if sts[j]?.any Statement.isOutput = true then
          seed j * (programDots dec (Pi.single k 1) sts).getD j 0 else 0 := by
  obtain ⟨-, p, hp, hblock⟩ := h.blockAt_of_kind (Or.inl hinput)
  have hpn : p < t.numberOfBlocks.toNat := by rw [ht.length]; exact hp
  rw [List.getD_eq_getElem?_getD, hblock.index, Option.getD_some,
    operandValue_ofNat _ t.length_lt hblock.pos hpn,
    (isTranspose_sweeps (h.operandsBefore ht)).apply_eq_sum,
    ← h.seedVector_single hblock hinput hpn, h.sum_seedVector ht]
  refine Finset.sum_congr rfl fun j hj => ?_
  rw [h.operandValue_forwardSweep ht _ j (Finset.mem_range.mp hj)]

end Recorded

/-! ### Two recordings of a program -/

/-- Record a program from the beginning to the end: the indices of its variables, and the
tape file. -/
def programSession (o : TapeOptions) (tid : ThreadId) (activityAnalysis : Bool)
    (sts : List Statement) : Option (List ULong × OutFile) := do
  let (indices, s) ← recordProgram o tid activityAnalysis sts [] dgBarTapeInitialize
  let s' ← dgBarTapeFinalize o s
  some (indices, s'.fdTape)

theorem programSession_spec {o : TapeOptions} (htype : o.typegrind = false)
    (hram : o.tapeInRam = false) (tid : ThreadId) (activityAnalysis : Bool)
    (sts : List Statement) :
    ∃ indices file, programSession o tid activityAnalysis sts = some (indices, file) ∧
      (file.complete = true → ∃ log, Recorded activityAnalysis sts indices log ∧
        file.words = log.flatten ∧ ∀ block ∈ log, block.length = 4) := by
  obtain ⟨indices, s, log, hrun, hinv⟩ := recordProgram_spec htype hram tid activityAnalysis sts
    [] [] [zeroBlock] dgBarTapeInitialize (programInv_initial tid activityAnalysis)
  obtain ⟨s', hs', hfile, -⟩ :=
    dgBarTapeFinalize_spec o hinv.allocated.tape hinv.allocated.values
  refine ⟨indices, s'.fdTape, ?_, fun hcomplete => ?_⟩
  · simp only [programSession, hrun, hs', Option.bind_eq_bind, Option.bind_some]
  · obtain ⟨hc, hwords⟩ := hinv.tape.finalize hfile hcomplete
    exact ⟨log, hinv.recorded hc, hwords, (hinv.tape.holds hc).width⟩

/-- **Activity analysis does not change derivatives.**  A program is recorded with and without
activity analysis for its operations.  Whatever numbers the bit patterns of the partial
derivatives stand for, the forward evaluations of both tapes give the same value for every
variable, for all seeds of the inputs, and the reverse evaluations give the same value for
every input, for all seeds of the outputs. -/
theorem activityAnalysis_keeps_derivatives (o : TapeOptions) (htype : o.typegrind = false)
    (hram : o.tapeInRam = false) (tid : ThreadId) (sts : List Statement) :
    ∃ indices file indices' file',
      programSession o tid true sts = some (indices, file) ∧
      programSession o tid false sts = some (indices', file') ∧
      (file.complete = true → file'.complete = true →
        ∀ (R : Type u) [CommRing R] [DecidableEq R] (dec : ULong → R) (t t' : Tapefile R),
          t.tape = decodeBlocks dec file.words → t'.tape = decodeBlocks dec file'.words →
          ∀ buf buf', buf.size = t.bufsize.toNat → buf'.size = t'.bufsize.toNat →
          ∀ seed : ℕ → R,
            (∃ w w', t.evaluateForward buf (seedVector Statement.isInput sts indices seed _)
                = some w ∧
              t'.evaluateForward buf' (seedVector Statement.isInput sts indices' seed _)
                = some w' ∧
              ∀ k < sts.length, operandValue w (indices.getD k 0)
                = operandValue w' (indices'.getD k 0)) ∧
            (∃ z z', t.evaluateBackward buf (seedVector Statement.isOutput sts indices seed _)
                = some z ∧
              t'.evaluateBackward buf' (seedVector Statement.isOutput sts indices' seed _)
                = some z' ∧
              ∀ k, sts[k]?.any Statement.isInput = true → operandValue z (indices.getD k 0)
                = operandValue z' (indices'.getD k 0))) := by
  obtain ⟨indices, file, hrun, hspec⟩ := programSession_spec htype hram tid true sts
  obtain ⟨indices', file', hrun', hspec'⟩ := programSession_spec htype hram tid false sts
  refine ⟨indices, file, indices', file', hrun, hrun', ?_⟩
  intro hc hc' R _ _ dec t t' ht ht' buf buf' hbuf hbuf' seed
  obtain ⟨log, hrec, hwords, hwidth⟩ := hspec hc
  obtain ⟨log', hrec', hwords', hwidth'⟩ := hspec' hc'
  have hreads : ReadsAs dec t log := ⟨by rw [ht, hwords, decodeBlocks_flatten dec log hwidth]⟩
  have hreads' : ReadsAs dec t' log' :=
    ⟨by rw [ht', hwords', decodeBlocks_flatten dec log' hwidth']⟩
  constructor
  · refine ⟨_, _, evaluateForward_eq (hrec.operandsBefore hreads) hbuf _,
      evaluateForward_eq (hrec'.operandsBefore hreads') hbuf' _, fun k hk => ?_⟩
    -- Both evaluations give the derivatives of the program.
    rw [hrec.operandValue_forwardSweep hreads seed k hk,
      hrec'.operandValue_forwardSweep hreads' seed k hk]
  · refine ⟨_, _, evaluateBackward_eq (hrec.operandsBefore hreads) hbuf _,
      evaluateBackward_eq (hrec'.operandsBefore hreads') hbuf' _, fun k hk => ?_⟩
    rw [hrec.operandValue_backwardSweep hreads seed hk,
      hrec'.operandValue_backwardSweep hreads' seed hk]

/-- Two operations on constants, and one that depends on the input. -/
def constantsProgram : List Statement :=
  [.operation .const .const 3 4 0, .input 0, .operation (.var 0) (.var 1) 5 6 0,
    .operation (.var 0) .const 7 0 0, .output (.var 2) 0]

/-- The theorem applies to `constantsProgram`, whose tapes have different lengths. -/
theorem activityAnalysis_keeps_derivatives_constantsProgram :
    ∃ file file', programSession plainOptions 1 true constantsProgram
        = some ([0, 1, 2, 0, 3], file) ∧ file.complete = true ∧
      programSession plainOptions 1 false constantsProgram
        = some ([1, 2, 3, 4, 5], file') ∧ file'.complete = true ∧
      ∀ (dec : ULong → ℤ) (t t' : Tapefile ℤ),
        t.tape = decodeBlocks dec file.words → t'.tape = decodeBlocks dec file'.words →
        ∀ buf buf', buf.size = t.bufsize.toNat → buf'.size = t'.bufsize.toNat →
        ∃ w w', t.evaluateForward buf (seedVector Statement.isInput constantsProgram
            [0, 1, 2, 0, 3] (fun _ => 1) _) = some w ∧
          t'.evaluateForward buf' (seedVector Statement.isInput constantsProgram
            [1, 2, 3, 4, 5] (fun _ => 1) _) = some w' ∧ operandValue w 2 = operandValue w' 3 := by
  obtain ⟨indices, file, indices', file', hrun, hrun', h⟩ :=
    activityAnalysis_keeps_derivatives plainOptions rfl rfl 1 constantsProgram
  have hindices : (programSession plainOptions 1 true constantsProgram).map
      (fun r => (r.1, r.2.complete)) = some ([0, 1, 2, 0, 3], true) := by decide +kernel
  have hindices' : (programSession plainOptions 1 false constantsProgram).map
      (fun r => (r.1, r.2.complete)) = some ([1, 2, 3, 4, 5], true) := by decide +kernel
  rw [hrun] at hindices
  rw [hrun'] at hindices'
  obtain ⟨rfl, hc⟩ := Prod.mk.inj (Option.some.inj hindices)
  obtain ⟨rfl, hc'⟩ := Prod.mk.inj (Option.some.inj hindices')
  refine ⟨file, file', hrun, hc, hrun', hc', fun dec t t' ht ht' buf buf' hbuf hbuf' => ?_⟩
  obtain ⟨w, w', hw, hw', hvalue⟩ := (h hc hc' ℤ dec t t' ht ht' buf buf' hbuf hbuf' fun _ => 1).1
  exact ⟨w, w', hw, hw', hvalue 2 (by decide)⟩

end Derivgrind
