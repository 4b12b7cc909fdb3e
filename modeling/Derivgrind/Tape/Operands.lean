import Derivgrind.Tape.Append
import Derivgrind.Tape.Transpose

/-!
# Operands of recorded blocks

The evaluation of a tape relies on operands that are indices of earlier blocks.  They are,
if every tape statement gets such operands.

## Main definitions

* `OperandsBelow` — operands are indices of earlier blocks.
* `TapeState.Recorded` — the tape grows by blocks of the given statements only.
* `Tapefile.IsFile` — the blocks of a tape are those of a file.

## Main results

* `Request.add_recorded`, `Request.perform_recorded` — the statements of any thread.
* `OperandsBelow.append` — more blocks.
* `OperandsBelow.operandsBefore` — the evaluation can rely on it.
-/

namespace Derivgrind

open ChunkedLog

/-! ### Recorded statements -/

/-- The tape grows by blocks of the given statements only. -/
def TapeState.Recorded (o : TapeOptions) (s s' : TapeState) (rs : List Request) : Prop :=
  s'.Allocated ∧ ∃ blocks, s.Appends o s' blocks ∧ blocks.length ≤ rs.length ∧
    ∀ block ∈ blocks, ∃ r ∈ rs, block = r.block

section Recorded

variable {o : TapeOptions} {tid : ThreadId} {s s' s'' : TapeState} {rs rs' : List Request}

theorem TapeState.Recorded.refl (o : TapeOptions) (h : s.Allocated) (rs : List Request) :
    s.Recorded o s rs :=
  ⟨h, [], Appends.refl o s, Nat.zero_le _, by simp⟩

theorem TapeState.Recorded.trans (h : s.Recorded o s' rs) (h' : s'.Recorded o s'' rs') :
    s.Recorded o s'' (rs ++ rs') := by
  obtain ⟨-, blocks, happ, hlen, hblocks⟩ := h
  obtain ⟨halloc, blocks', happ', hlen', hblocks'⟩ := h'
  refine ⟨halloc, blocks ++ blocks', happ.trans happ', ?_, ?_⟩
  · rw [List.length_append, List.length_append]
    omega
  · intro block hblock
    rcases List.mem_append.mp hblock with hb | hb
    · obtain ⟨r, hr, rfl⟩ := hblocks block hb
      exact ⟨r, List.mem_append_left _ hr, rfl⟩
    · obtain ⟨r, hr, rfl⟩ := hblocks' block hb
      exact ⟨r, List.mem_append_right _ hr, rfl⟩

/-- A statement of any thread returns zero or the next index, which is then taken. -/
theorem Request.add_recorded (htype : o.typegrind = false) (tid : ThreadId) (r : Request)
    (h : s.Allocated) : ∃ index s', r.add o tid s = some (index, s') ∧ s.Recorded o s' [r] ∧
      (index = 0 ∨ index = s.nextindex ∧ s'.nextindex = s.nextindex + 1) := by
  cases hrec : r.records o (s.dgDisable tid) with
  | false =>
    exact ⟨0, s, add_of_not_records htype hrec, TapeState.Recorded.refl o h [r], Or.inl rfl⟩
  | true =>
    have hen : s.dgDisable tid = 0 := by
      simp only [records, Bool.and_eq_true, decide_eq_true_eq] at hrec
      exact hrec.1
    obtain ⟨s', hs', halloc, -, happ⟩ := tapeAddStatementNoActivityAnalysis_enabled htype
      r.index1 r.index2 r.diff1 r.diff2 h hen
    refine ⟨s.nextindex, s', (add_of_records hrec).trans hs',
      ⟨halloc, _, happ, le_refl 1, ?_⟩, Or.inr ⟨rfl, happ.1⟩⟩
    intro block hblock
    exact ⟨r, List.mem_singleton_self r, List.mem_singleton.mp hblock⟩

/-- Values are recorded beside the tape. -/
theorem valuesAddStatement_recorded (value : ULong) (h : s.Allocated) :
    ∃ s', valuesAddStatement value s = some s' ∧ s.Recorded o s' [] ∧
      s'.nextindex = s.nextindex := by
  obtain ⟨s', hs', halloc, -, happ⟩ := valuesAddStatement_allocated o value h
  exact ⟨s', hs', ⟨halloc, [], happ, le_refl 0, by simp⟩, by simpa using happ.1⟩

/-- A statement and its value. -/
theorem Request.perform_recorded (htype : o.typegrind = false) (tid : ThreadId) (r : Request)
    (h : s.Allocated) : ∃ index s', r.perform o tid s = some (index, s') ∧ s.Recorded o s' [r] ∧
      (index = 0 ∨ index = s.nextindex ∧ s'.nextindex = s.nextindex + 1) := by
  obtain ⟨index, s₁, hadd, hrec, hindex⟩ := r.add_recorded htype tid h
  simp only [perform, hadd, Option.bind_eq_bind, Option.bind_some]
  by_cases hval : o.barRecordValues = true ∧ index ≠ 0
  · obtain ⟨s₂, hs₂, hrec', hnext⟩ := valuesAddStatement_recorded (o := o) r.value hrec.1
    refine ⟨index, s₂, by rw [if_pos hval, hs₂]; rfl, ?_, by rwa [hnext]⟩
    simpa using hrec.trans hrec'
  · exact ⟨index, s₁, if_neg hval, hrec, hindex⟩

end Recorded

/-! ### Earlier blocks -/

/-- Operands are indices of earlier blocks. -/
def OperandsBelow (log : List (List ULong)) : Prop :=
  ∀ k block, log[k]? = some block → 0 < k → ∀ j < 2, (block.getD j 0).toNat < k

/-- More blocks can be appended, if their operands are indices of blocks that exist. -/
theorem OperandsBelow.append {log blocks : List (List ULong)} (h : OperandsBelow log)
    (hblocks : ∀ block ∈ blocks, ∀ j < 2,
      block.getD j 0 = 0 ∨ (block.getD j 0).toNat < log.length) :
    OperandsBelow (log ++ blocks) := by
  intro k block hk hpos j hj
  by_cases hlt : k < log.length
  · rw [List.getElem?_append_left hlt] at hk
    exact h k block hk hpos j hj
  · rw [List.getElem?_append_right (by omega)] at hk
    rcases hblocks block (List.mem_of_getElem? hk) j hj with h0 | hle
    · rw [h0]
      exact hpos
    · omega

/-- The blocks of a tape are those of a file. -/
def Tapefile.IsFile {R : Type} (t : Tapefile R) (log : List (List ULong)) : Prop :=
  t.tape.map (fun block => [block.index1, block.index2]) = log.map (List.take 2)

/-- **The evaluation can rely on it**: both evaluations stay within the array. -/
theorem OperandsBelow.operandsBefore {log : List (List ULong)} (h : OperandsBelow log)
    (hzero : log.head? = some zeroBlock) {R : Type} {t : Tapefile R} (ht : t.IsFile log) :
    t.OperandsBefore := by
  intro i hi
  have hblock := congrArg (fun l => l[i]?) ht
  simp only [List.getElem?_map, List.getElem?_eq_getElem hi, Option.map_some] at hblock
  cases hlog : log[i]? with
  | none =>
    rw [hlog] at hblock
    cases hblock
  | some block =>
    rw [hlog, Option.map_some, Option.some_inj] at hblock
    have hget : ∀ j < 2, block.getD j 0 = [(t.tape[i]).index1, (t.tape[i]).index2].getD j 0 := by
      intro j hj
      rw [hblock, List.getD_eq_getElem?_getD, List.getD_eq_getElem?_getD,
        List.getElem?_take_of_lt hj]
    rcases Nat.eq_zero_or_pos i with rfl | hpos
    · rw [List.head?_eq_getElem?, hlog, Option.some_inj] at hzero
      subst hzero
      exact ⟨Or.inl (hget 0 (by decide)).symm, Or.inl (hget 1 (by decide)).symm⟩
    · have h0 := h i block hlog hpos 0 (by decide)
      have h1 := h i block hlog hpos 1 (by decide)
      rw [hget 0 (by decide)] at h0
      rw [hget 1 (by decide)] at h1
      exact ⟨Or.inr (Or.inr h0), Or.inr (Or.inr h1)⟩

end Derivgrind
