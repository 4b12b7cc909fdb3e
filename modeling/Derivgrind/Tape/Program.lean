import Derivgrind.Tape.Append
import Derivgrind.Tape.Equation
import Mathlib.Data.List.GetD

/-!
# Recording a program

A client program, as the tape sees it, marks inputs and outputs and performs elementary
operations on constants and on variables.  The operations may be recorded with or without
activity analysis; inputs and outputs are always recorded.

## Main definitions

* `Statement`, `recordProgram` — programs, and how they are recorded.
* `programDots` — the derivatives of all variables, computed without a tape.
* `Recorded` — where the blocks of the statements are on the tape.

## Main results

* `Recorded.step` — where the block of one more statement is.
* `recordProgram_spec` — **where the blocks are after a run.**
-/

namespace Derivgrind

open Tapefile

/-! ### Programs -/

/-- An operand: a constant, or the variable with the result of an earlier statement. -/
inductive Operand
  | const
  | var (k : ℕ)
  deriving DecidableEq, Repr

/-- The index of an operand, given the indices of the results so far. -/
def Operand.index (indices : List ULong) : Operand → ULong
  | .const => 0
  | .var k => indices.getD k 0

/-- The statements of a program. -/
inductive Statement
  /-- `DG_INPUT`. -/
  | input (value : ULong)
  /-- An elementary operation with its partial derivatives. -/
  | operation (x y : Operand) (dx dy value : ULong)
  /-- `DG_OUTPUT`. -/
  | output (x : Operand) (value : ULong)
  deriving DecidableEq, Repr

def Statement.isInput : Statement → Bool
  | .input _ => true
  | _ => false

def Statement.isOutput : Statement → Bool
  | .output _ _ => true
  | _ => false

/-- The tape statement; `0x3FF0000000000000` is the bit pattern of `dg_one`. -/
def Statement.request (activityAnalysis : Bool) (indices : List ULong) : Statement → Request
  | .input value => ⟨false, 0, 0, 0, 0, value⟩
  | .operation x y dx dy value =>
      ⟨activityAnalysis, x.index indices, y.index indices, dx, dy, value⟩
  | .output x value => ⟨false, x.index indices, 0, 0x3FF0000000000000#64, 0, value⟩

/-- Record a program, given the indices of the results of earlier statements. -/
def recordProgram (o : TapeOptions) (tid : ThreadId) (activityAnalysis : Bool) :
    List Statement → List ULong → TapeState → Option (List ULong × TapeState)
  | [], indices, s => some (indices, s)
  | st :: sts, indices, s => do
      let (index, s) ← (st.request activityAnalysis indices).perform o tid s
      recordProgram o tid activityAnalysis sts (indices ++ [index]) s

/-! ### Derivatives without a tape -/

section Dots

variable {R : Type*} [CommRing R]

/-- The derivative of an operand, given the derivatives of the results so far. -/
def Operand.dot (dots : List R) : Operand → R
  | .const => 0
  | .var k => dots.getD k 0

/-- The derivative of a result; `dec` gives the numbers that bit patterns stand for. -/
def Statement.dot (dec : ULong → R) (seed : R) (dots : List R) : Statement → R
  | .input _ => seed
  | .operation x y dx dy _ => x.dot dots * dec dx + y.dot dots * dec dy
  | .output x _ => x.dot dots * dec 0x3FF0000000000000#64

/-- The derivatives of all results; the inputs are seeded by their statement number. -/
def programDots (dec : ULong → R) (seed : ℕ → R) (sts : List Statement) : List R :=
  sts.foldl (fun dots st => dots ++ [st.dot dec (seed dots.length) dots]) []

variable (dec : ULong → R) (seed : ℕ → R)

theorem programDots_concat (sts : List Statement) (st : Statement) :
    programDots dec seed (sts ++ [st]) = programDots dec seed sts
      ++ [st.dot dec (seed (programDots dec seed sts).length) (programDots dec seed sts)] := by
  rw [programDots, List.foldl_append]
  rfl

@[simp] theorem length_programDots (sts : List Statement) :
    (programDots dec seed sts).length = sts.length := by
  induction sts using List.reverseRecOn with
  | nil => rfl
  | append_singleton sts st ih => simp [programDots_concat, ih]

/-- The derivative of a result, in terms of the ones before it. -/
theorem getD_programDots (sts : List Statement) {k : ℕ} {st : Statement}
    (hk : sts[k]? = some st) :
    (programDots dec seed sts).getD k 0
      = st.dot dec (seed k) ((programDots dec seed sts).take k) := by
  induction sts using List.reverseRecOn with
  | nil => simp at hk
  | append_singleton sts st' ih =>
    have hlen := length_programDots dec seed sts
    rw [programDots_concat]
    rcases Nat.lt_or_ge k sts.length with hlt | hge
    · rw [List.getElem?_append_left hlt] at hk
      rw [List.getD_append _ _ _ _ (by omega), List.take_append_of_le_length (by omega)]
      exact ih hk
    · have hlast : k = sts.length := by
        obtain ⟨hbound, -⟩ := List.getElem?_eq_some_iff.mp hk
        simp only [List.length_append, List.length_cons, List.length_nil] at hbound
        omega
      subst hlast
      simp only [List.getElem?_append_right (le_refl _), Nat.sub_self, List.getElem?_cons_zero,
        Option.some.injEq] at hk
      subst hk
      rw [List.take_append_of_le_length (by omega), List.take_of_length_le (by omega),
        List.getD_eq_getElem?_getD, List.getElem?_append_right (by omega), hlen, Nat.sub_self]
      rfl

end Dots

/-! ### Where the blocks are -/

/-- The block of the statement `k` is at position `p`, after all operands. -/
structure BlockAt (activityAnalysis : Bool) (sts : List Statement) (indices : List ULong)
    (log : List (List ULong)) (k p : ℕ) : Prop where
  pos : 0 < p
  index : indices[k]? = some (BitVec.ofNat 64 p)
  before : ∀ j < k, (indices.getD j 0).toNat < p
  block : ∃ st, sts[k]? = some st ∧
    log[p]? = some (st.request activityAnalysis (indices.take k)).block

/-- The statement `k` was skipped by the activity analysis. -/
structure Skipped (activityAnalysis : Bool) (sts : List Statement) (indices : List ULong)
    (k : ℕ) : Prop where
  index : indices[k]? = some 0
  operands : ∃ st, sts[k]? = some st ∧
    (st.request activityAnalysis (indices.take k)).blocks = []

/-- Every statement was skipped or has its block on the tape, and there are no other blocks. -/
structure Recorded (activityAnalysis : Bool) (sts : List Statement) (indices : List ULong)
    (log : List (List ULong)) : Prop where
  length : indices.length = sts.length
  first : log[0]? = some zeroBlock
  entry : ∀ k < sts.length, Skipped activityAnalysis sts indices k ∨
    ∃ p < log.length, BlockAt activityAnalysis sts indices log k p
  cover : ∀ p, 0 < p → p < log.length →
    ∃ k < sts.length, BlockAt activityAnalysis sts indices log k p

section Extend

variable {activityAnalysis : Bool} {sts sts' : List Statement} {indices indices' : List ULong}
  {log log' : List (List ULong)} {k p : ℕ}

theorem BlockAt.append (h : BlockAt activityAnalysis sts indices log k p) (hk : k < indices.length)
    (hp : p < log.length) :
    BlockAt activityAnalysis (sts ++ sts') (indices ++ indices') (log ++ log') k p := by
  obtain ⟨st, hst, hblock⟩ := h.block
  obtain ⟨hlen, -⟩ := List.getElem?_eq_some_iff.mp hst
  refine ⟨h.pos, ?_, fun j hj => ?_, st, ?_, ?_⟩
  · rw [List.getElem?_append_left hk]
    exact h.index
  · rw [List.getD_append _ _ _ _ (hj.trans hk)]
    exact h.before j hj
  · rw [List.getElem?_append_left hlen]
    exact hst
  · rw [List.getElem?_append_left hp, List.take_append_of_le_length (le_of_lt hk)]
    exact hblock

theorem Skipped.append (h : Skipped activityAnalysis sts indices k) (hk : k < indices.length) :
    Skipped activityAnalysis (sts ++ sts') (indices ++ indices') k := by
  obtain ⟨st, hst, hblocks⟩ := h.operands
  obtain ⟨hlen, -⟩ := List.getElem?_eq_some_iff.mp hst
  refine ⟨?_, st, ?_, ?_⟩
  · rw [List.getElem?_append_left hk]
    exact h.index
  · rw [List.getElem?_append_left hlen]
    exact hst
  · rw [List.take_append_of_le_length (le_of_lt hk)]
    exact hblocks

/-- The indices that have been assigned are on the tape. -/
theorem Recorded.index_lt (h : Recorded activityAnalysis sts indices log)
    (hlog : log.length < 2 ^ 63) (j : ℕ) : (indices.getD j 0).toNat < log.length := by
  have hpos : 0 < log.length := (List.getElem?_eq_some_iff.mp h.first).1
  rcases Nat.lt_or_ge j sts.length with hj | hj
  · rcases h.entry j hj with hskip | ⟨p, hp, hblock⟩
    · rw [List.getD_eq_getElem?_getD, hskip.index]
      exact hpos
    · rw [List.getD_eq_getElem?_getD, hblock.index, Option.getD_some, BitVec.toNat_ofNat,
        Nat.mod_eq_of_lt (by omega)]
      exact hp
  · rw [List.getD_eq_getElem?_getD, List.getElem?_eq_none (by rw [h.length]; exact hj)]
    exact hpos

/-- **One statement.** -/
theorem Recorded.step (h : Recorded activityAnalysis sts indices log)
    (hlog : log.length < 2 ^ 63) (st : Statement) {index : ULong}
    (hindex : index = if (st.request activityAnalysis indices).blocks = [] then 0
      else BitVec.ofNat 64 log.length) :
    Recorded activityAnalysis (sts ++ [st]) (indices ++ [index])
      (log ++ (st.request activityAnalysis indices).blocks) := by
  have hpos : 0 < log.length := (List.getElem?_eq_some_iff.mp h.first).1
  have hlast : (sts ++ [st])[sts.length]? = some st := by simp
  have hindexLast : (indices ++ [index])[sts.length]? = some index := by simp [← h.length]
  have htake : (indices ++ [index]).take sts.length = indices := by
    rw [← h.length, List.take_append_of_le_length (le_refl _), List.take_length]
  -- the block of the new statement, if there is one
  have hnew : (st.request activityAnalysis indices).blocks ≠ [] →
      (st.request activityAnalysis indices).blocks = [(st.request activityAnalysis indices).block] ∧
      BlockAt activityAnalysis (sts ++ [st]) (indices ++ [index])
        (log ++ (st.request activityAnalysis indices).blocks) sts.length log.length := by
    intro hne
    have hblocks : (st.request activityAnalysis indices).blocks
        = [(st.request activityAnalysis indices).block] := by
      unfold Request.blocks at hne ⊢
      split
      · next hskip => rw [if_pos hskip] at hne; exact absurd rfl hne
      · rfl
    rw [if_neg hne] at hindex
    refine ⟨hblocks, hpos, by rw [hindexLast, hindex], fun j hj => ?_, st, hlast, ?_⟩
    · rw [List.getD_append _ _ _ _ (by rw [h.length]; exact hj)]
      exact h.index_lt hlog j
    · rw [htake, hblocks]
      simp
  refine ⟨by simp [h.length], ?_, fun k hk => ?_, fun p hp hp' => ?_⟩
  · rw [List.getElem?_append_left hpos]
    exact h.first
  · rw [List.length_append, List.length_singleton] at hk
    rcases Nat.lt_or_ge k sts.length with hlt | hge
    · have hk' : k < indices.length := by rw [h.length]; exact hlt
      rcases h.entry k hlt with hskip | ⟨p, hp, hblock⟩
      · exact Or.inl (hskip.append hk')
      · refine Or.inr ⟨p, ?_, hblock.append hk' hp⟩
        rw [List.length_append]
        omega
    · obtain rfl : k = sts.length := by omega
      by_cases hempty : (st.request activityAnalysis indices).blocks = []
      · rw [if_pos hempty] at hindex
        refine Or.inl ⟨by rw [hindexLast, hindex], st, hlast, ?_⟩
        rw [htake]
        exact hempty
      · obtain ⟨hblocks, hblock⟩ := hnew hempty
        refine Or.inr ⟨log.length, ?_, hblock⟩
        rw [hblocks]
        simp
  · rcases Nat.lt_or_ge p log.length with hlt | hge
    · obtain ⟨k, hk, hblock⟩ := h.cover p hp hlt
      refine ⟨k, ?_, hblock.append (by rw [h.length]; exact hk) hlt⟩
      rw [List.length_append]
      omega
    · by_cases hempty : (st.request activityAnalysis indices).blocks = []
      · rw [hempty, List.append_nil] at hp'
        omega
      · obtain ⟨hblocks, hblock⟩ := hnew hempty
        obtain rfl : p = log.length := by
          rw [hblocks, List.length_append, List.length_singleton] at hp'
          omega
        exact ⟨sts.length, by simp, hblock⟩

end Extend

/-- The run invariant of a recording. -/
structure ProgramInv (tid : ThreadId) (s : TapeState) (activityAnalysis : Bool)
    (sts : List Statement) (indices : List ULong) (log : List (List ULong)) : Prop where
  allocated : s.Allocated
  enabled : s.dgDisable tid = 0
  tape : TapeInv s log
  recorded : s.fdTape.complete = true → Recorded activityAnalysis sts indices log

theorem programInv_initial (tid : ThreadId) (activityAnalysis : Bool) :
    ProgramInv tid dgBarTapeInitialize activityAnalysis [] [] [zeroBlock] where
  allocated := allocated_initial
  enabled := rfl
  tape := tapeInv_initial
  recorded := by
    refine fun _ => ⟨rfl, rfl, fun k hk => absurd hk (Nat.not_lt_zero k), fun p hp hp' => ?_⟩
    simp only [List.length_cons, List.length_nil] at hp'
    omega

/-- One statement keeps the invariant. -/
theorem ProgramInv.perform {o : TapeOptions} (htype : o.typegrind = false)
    (hram : o.tapeInRam = false) {tid : ThreadId} {s : TapeState} {activityAnalysis : Bool}
    {sts : List Statement} {indices : List ULong} {log : List (List ULong)}
    (h : ProgramInv tid s activityAnalysis sts indices log) (st : Statement) :
    ∃ index s', (st.request activityAnalysis indices).perform o tid s = some (index, s') ∧
      ProgramInv tid s' activityAnalysis (sts ++ [st]) (indices ++ [index])
        (log ++ (st.request activityAnalysis indices).blocks) := by
  obtain ⟨s', hs', halloc, hdis, happ, -⟩ :=
    Request.perform_enabled htype (st.request activityAnalysis indices) h.allocated h.enabled
  obtain ⟨htape, hcomplete⟩ := happ.2 hram log h.tape
  refine ⟨_, s', hs', halloc, by rw [hdis]; exact h.enabled, htape, fun hc => ?_⟩
  have hc' := hcomplete hc
  refine (h.recorded hc').step (h.tape.length_lt_half hc') st ?_
  have hnext : s.nextindex = BitVec.ofNat 64 log.length := by
    apply BitVec.eq_of_toNat_eq
    have hlt := h.tape.length_lt_half hc'
    rw [h.tape.next hc', BitVec.toNat_ofNat, Nat.mod_eq_of_lt (by omega)]
  unfold Request.newIndex Request.blocks
  split <;> simp [hnext]

/-- **A whole program keeps the invariant.** -/
theorem recordProgram_spec {o : TapeOptions} (htype : o.typegrind = false)
    (hram : o.tapeInRam = false) (tid : ThreadId) (activityAnalysis : Bool) :
    ∀ (sts' sts : List Statement) (indices : List ULong) (log : List (List ULong)) (s : TapeState),
    ProgramInv tid s activityAnalysis sts indices log →
    ∃ indices' s' log', recordProgram o tid activityAnalysis sts' indices s = some (indices', s') ∧
      ProgramInv tid s' activityAnalysis (sts ++ sts') indices' log' := by
  intro sts'
  induction sts' with
  | nil =>
    intro sts indices log s h
    refine ⟨indices, s, log, rfl, ?_⟩
    rwa [List.append_nil]
  | cons st sts' ih =>
    intro sts indices log s h
    obtain ⟨index, s₁, hs₁, h₁⟩ := h.perform htype hram st
    obtain ⟨indices', s', log', hrun, h'⟩ := ih _ _ _ _ h₁
    refine ⟨indices', s', log', ?_, ?_⟩
    · rw [recordProgram, hs₁]
      exact hrun
    · rwa [List.append_assoc] at h'

end Derivgrind
