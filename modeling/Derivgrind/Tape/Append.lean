import Derivgrind.Tape.Values

/-!
# One statement appends one block

Whatever the options are, a tape statement of an enabled thread succeeds, returns
the next index, and appends its block; a statement without active operands is
skipped by the activity analysis.

## Main definitions

* `TapeState.Allocated` — the buffers have the size with which they are allocated.
* `TapeState.Appends` — the tape grows by the given blocks, and by nothing else.

## Main results

* `tapeAddStatementNoActivityAnalysis_enabled`, `Request.perform_enabled` — the
  statements of an enabled thread.
-/

namespace Derivgrind

open ChunkedLog

/-- The buffers have the size with which they are allocated. -/
structure TapeState.Allocated (s : TapeState) : Prop where
  tape : s.bufferTape.size = 4 * BUFSIZE
  values : s.bufferValues.size = BUFSIZE

theorem allocated_initial : dgBarTapeInitialize.Allocated := ⟨rfl, rfl⟩

/-- The tape grows by the given blocks, and by nothing else.  With `tape_in_ram`, the
tape is dropped whenever the buffer is full. -/
def TapeState.Appends (o : TapeOptions) (s s' : TapeState) (blocks : List (List ULong)) : Prop :=
  s'.nextindex = s.nextindex + BitVec.ofNat 64 blocks.length ∧
    (o.tapeInRam = false → ∀ log, TapeInv s log → TapeInv s' (log ++ blocks) ∧
      (s'.fdTape.complete = true → s.fdTape.complete = true))

theorem TapeState.Appends.refl (o : TapeOptions) (s : TapeState) : s.Appends o s [] := by
  refine ⟨by simp, fun _ log h => ⟨?_, id⟩⟩
  rwa [List.append_nil]

theorem TapeState.Appends.trans {o : TapeOptions} {s s' s'' : TapeState}
    {blocks blocks' : List (List ULong)} (h : s.Appends o s' blocks)
    (h' : s'.Appends o s'' blocks') : s.Appends o s'' (blocks ++ blocks') := by
  refine ⟨?_, fun hram log hlog => ?_⟩
  · rw [h'.1, h.1, List.length_append, BitVec.ofNat_add, BitVec.add_assoc]
  · obtain ⟨hinv, hcomplete⟩ := h.2 hram log hlog
    obtain ⟨hinv', hcomplete'⟩ := h'.2 hram _ hinv
    rw [← List.append_assoc]
    exact ⟨hinv', hcomplete ∘ hcomplete'⟩

/-- A full buffer is written or replaced; the size stays the same. -/
theorem flushTape_allocated (o : TapeOptions) {s : TapeState} (h : s.Allocated) :
    ∃ s', flushTape o s = some s' ∧ s'.Allocated ∧ s'.nextindex = s.nextindex ∧
      s'.dgDisable = s.dgDisable := by
  unfold flushTape
  by_cases hfull : s.nextindex.toNat % BUFSIZE = 0
  · rw [if_pos hfull]
    cases o.tapeInRam with
    | true => exact ⟨_, rfl, ⟨rfl, h.values⟩, rfl, rfl⟩
    | false =>
      simp only [Bool.false_eq_true, if_false, Buf.front?, h.tape, le_refl, if_true,
        Option.bind_eq_bind, Option.bind_some]
      exact ⟨_, rfl, ⟨h.tape, h.values⟩, rfl, rfl⟩
  · rw [if_neg hfull]
    exact ⟨s, rfl, h, rfl, rfl⟩

/-- **A statement of an enabled thread** returns the next index, and appends its block. -/
theorem tapeAddStatementNoActivityAnalysis_enabled {o : TapeOptions} (htype : o.typegrind = false)
    {tid : ThreadId} (i1 i2 d1 d2 : ULong) {s : TapeState} (h : s.Allocated)
    (hen : s.dgDisable tid = 0) :
    ∃ s', tapeAddStatementNoActivityAnalysis o tid i1 i2 d1 d2 s = some (s.nextindex, s') ∧
      s'.Allocated ∧ s'.dgDisable = s.dgDisable ∧ s.Appends o s' [[i1, i2, d1, d2]] := by
  have hpos : s.nextindex.toNat % BUFSIZE < BUFSIZE := Nat.mod_lt _ BUFSIZE_pos
  have hbound : 4 * (s.nextindex.toNat % BUFSIZE) + [i1, i2, d1, d2].length
      ≤ s.bufferTape.size := by
    rw [h.tape]
    simp only [List.length_cons, List.length_nil]
    omega
  obtain ⟨b, hb, hbsize, -⟩ := Buf.setAll?_spec _ _ _ hbound
  obtain ⟨s₂, hs₂, halloc, hnext, hdis⟩ := flushTape_allocated o (s := { s with
    bufferTape := b
    events := s.events ++ recordStops o s.nextindex
    nextindex := s.nextindex + 1 }) ⟨hbsize.trans h.tape, h.values⟩
  have hindex : s₂.nextindex - 1 = s.nextindex := by
    rw [hnext]
    exact BitVec.add_sub_cancel s.nextindex 1
  have hcall : tapeAddStatementNoActivityAnalysis o tid i1 i2 d1 d2 s
      = some (s.nextindex, { s₂ with
          events := s₂.events ++ if i1 = onesIndex ∨ i2 = onesIndex then
            [TapeEvent.unwrappedOperand (s₂.nextindex - 1)] else [] }) := by
    unfold tapeAddStatementNoActivityAnalysis
    rw [if_neg (by simpa using hen)]
    simp only [Buf.setAll?, Option.bind_eq_bind, Option.bind_eq_some_iff, Option.some.injEq]
      at hb ⊢
    obtain ⟨b₁, hb₁, b₂, hb₂, b₃, hb₃, b₄, hb₄, rfl⟩ := hb
    refine ⟨b₁, hb₁, b₂, hb₂, b₃, hb₃, b₄, hb₄, s₂, hs₂, ?_⟩
    rw [htype, hindex]
    rfl
  refine ⟨_, hcall, ⟨halloc.tape, halloc.values⟩, hdis, hnext, fun hram log hlog => ?_⟩
  obtain ⟨r, s', hadd, hinv, -, -, -, -, hcomplete⟩ :=
    tapeAddStatementNoActivityAnalysis_spec o hram tid i1 i2 d1 d2 hlog hen
  rw [hcall] at hadd
  obtain ⟨-, rfl⟩ := Prod.mk.inj (Option.some.inj hadd)
  exact ⟨hinv, fun hc => (hcomplete hc).1⟩

/-- A value is recorded beside the tape. -/
theorem valuesAddStatement_allocated (o : TapeOptions) (value : ULong) {s : TapeState} (h : s.Allocated) :
    ∃ s', valuesAddStatement value s = some s' ∧ s'.Allocated ∧ s'.dgDisable = s.dgDisable ∧
      s.Appends o s' [] := by
  have hpos : (s.nextindex - 1).toNat % BUFSIZE < s.bufferValues.size := by
    rw [h.values]
    exact Nat.mod_lt _ BUFSIZE_pos
  have happ : ∀ (b : Buf ULong) (fd : OutFile),
      s.Appends o { s with bufferValues := b, fdValues := fd } [] := by
    intro b fd
    refine ⟨by simp, fun _ log hlog => ⟨?_, id⟩⟩
    rw [List.append_nil]
    exact ⟨hlog.size, hlog.holds, hlog.next, hlog.bytes⟩
  unfold valuesAddStatement
  simp only [Buf.set?, hpos, if_true, Option.bind_eq_bind, Option.bind_some]
  by_cases hfull : s.nextindex.toNat % BUFSIZE = 0
  · simp only [hfull, if_true, Buf.front?, h.values, le_refl, Option.bind_some]
    exact ⟨_, rfl, ⟨h.tape, rfl⟩, rfl, happ _ _⟩
  · simp only [hfull, if_false]
    exact ⟨_, rfl, ⟨h.tape, h.values⟩, rfl, happ _ _⟩

/-- The blocks that a statement of an enabled thread appends. -/
def Request.blocks (r : Request) : List (List ULong) :=
  if r.activityAnalysis = true ∧ r.index1 = 0 ∧ r.index2 = 0 then [] else [r.block]

/-- The index that is assigned to the result of a statement of an enabled thread. -/
def Request.newIndex (r : Request) (s : TapeState) : ULong :=
  if r.activityAnalysis = true ∧ r.index1 = 0 ∧ r.index2 = 0 then 0 else s.nextindex

/-- **A statement with a value of an enabled thread.** -/
theorem Request.perform_enabled {o : TapeOptions} (htype : o.typegrind = false) {tid : ThreadId}
    (r : Request) {s : TapeState} (h : s.Allocated) (hen : s.dgDisable tid = 0) :
    ∃ s', r.perform o tid s = some (r.newIndex s, s') ∧ s'.Allocated ∧
      s'.dgDisable = s.dgDisable ∧ s.Appends o s' r.blocks ∧ (r.blocks = [] → s' = s) := by
  unfold Request.newIndex Request.blocks
  by_cases hskip : r.activityAnalysis = true ∧ r.index1 = 0 ∧ r.index2 = 0
  · simp only [hskip, and_self, if_true]
    refine ⟨s, ?_, h, rfl, TapeState.Appends.refl o s, fun _ => rfl⟩
    simp [perform, add, tapeAddStatement, hskip, htype]
  · simp only [hskip, if_false]
    have hadd : r.add o tid s
        = tapeAddStatementNoActivityAnalysis o tid r.index1 r.index2 r.diff1 r.diff2 s := by
      unfold add tapeAddStatement
      by_cases haa : r.activityAnalysis = true
      · rw [if_pos haa, if_neg]
        rintro ⟨h1, h2, -⟩
        exact hskip ⟨haa, h1, h2⟩
      · rw [if_neg haa]
    obtain ⟨t, ht, halloc, hdis, happ⟩ := tapeAddStatementNoActivityAnalysis_enabled htype
      r.index1 r.index2 r.diff1 r.diff2 h hen
    by_cases hval : o.barRecordValues = true ∧ s.nextindex ≠ 0
    · obtain ⟨t', ht', halloc', hdis', happ'⟩ := valuesAddStatement_allocated o r.value halloc
      refine ⟨t', ?_, halloc', hdis'.trans hdis, ?_, by simp⟩
      · simp only [perform, hadd, ht, Option.bind_eq_bind, Option.bind_some, if_pos hval, ht']
      · exact happ.trans happ'
    · refine ⟨t, ?_, halloc, hdis, happ, by simp⟩
      simp only [perform, hadd, ht, Option.bind_eq_bind, Option.bind_some, if_neg hval]

/-- A tape that fits into a file has fewer than `2 ^ 63` blocks. -/
theorem TapeInv.length_lt_half {s : TapeState} {log : List (List ULong)} (h : TapeInv s log)
    (hc : s.fdTape.complete = true) : log.length < 2 ^ 63 := by
  have hlen := (h.holds hc).length_file
  have hbytes := h.bytes hc
  have hdm := Nat.div_add_mod log.length BUFSIZE
  have hmod := Nat.mod_lt log.length BUFSIZE_pos
  have hsize : BUFSIZE = 1000000 := by unfold BUFSIZE; rfl
  rw [hlen, Nat.mul_comm (log.length / BUFSIZE)] at hbytes
  rw [hsize] at hbytes hdm hmod
  simp only [maxFileSize] at hbytes
  omega

end Derivgrind
