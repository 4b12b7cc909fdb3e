import Derivgrind.Tape.Record

/-!
# The tape file is the recorded sequence

Any number of threads call `tapeAddStatement`,
`tapeAddStatement_noActivityAnalysis` and the `DISABLE` request, in any
interleaving, and in the end the tape is finalized.  This file shows that the
buffer, its wrap-around and the two places where it is flushed are invisible: the
file consists of the zero block followed by the recorded blocks.

## Main definitions

* `TapeCall`, `runCalls`, `tapeSession` — runs of the recording functions.
* `disableCounter`, `records`, `recorded`, `expectedReturns` — what a run is
  meant to record, in terms of the calls alone.
* `TapeInv` — the buffer and the file hold the blocks recorded so far.

## Main results

* `tapeAddStatementNoActivityAnalysis_spec` — one recording call.
* `tapeSession_exact` — **the tape file is exactly the recorded sequence.**
-/

namespace Derivgrind

open ChunkedLog

/-! ### Runs -/

/-- A call of one of the functions that access the tape, by some thread. -/
inductive TapeCall where
  /-- `tapeAddStatement`. -/
  | add (tid : ThreadId) (index1 index2 diff1 diff2 : ULong)
  /-- `tapeAddStatement_noActivityAnalysis`. -/
  | addNoActivityAnalysis (tid : ThreadId) (index1 index2 diff1 diff2 : ULong)
  /-- The `DISABLE` client request. -/
  | disable (tid : ThreadId) (plus minus : ULong)
  deriving DecidableEq, Repr

/-- The thread making a call. -/
def TapeCall.tid : TapeCall → ThreadId
  | .add tid .. => tid
  | .addNoActivityAnalysis tid .. => tid
  | .disable tid .. => tid

/-- Execute a call; the result is the returned value. -/
def TapeCall.exec (o : TapeOptions) : TapeCall → TapeState → Option (ULong × TapeState)
  | .add tid i1 i2 d1 d2, s => tapeAddStatement o tid i1 i2 d1 d2 s
  | .addNoActivityAnalysis tid i1 i2 d1 d2, s =>
      tapeAddStatementNoActivityAnalysis o tid i1 i2 d1 d2 s
  | .disable tid plus minus, s => some (dgDisableRequest tid plus minus s)

/-- Execute calls one after the other, and collect the returned values. -/
def runCalls (o : TapeOptions) : List TapeCall → TapeState → Option (List ULong × TapeState)
  | [], s => some ([], s)
  | c :: cs, s => do
      let (r, s') ← c.exec o s
      let (rs, s'') ← runCalls o cs s'
      some (r :: rs, s'')

/-- What is left of a recording: the returned values, the state before
`dg_bar_tape_finalize`, and the tape file after it. -/
structure TapeSession where
  returns : List ULong
  final : TapeState
  file : OutFile

/-- A whole recording. -/
def tapeSession (o : TapeOptions) (calls : List TapeCall) : Option TapeSession := do
  let (rs, s) ← runCalls o calls dgBarTapeInitialize
  let s' ← dgBarTapeFinalize o s
  some ⟨rs, s, s'.fdTape⟩

/-! ### What a run is meant to record -/

/-- The counter of a thread after the given calls: the sum over its own
`DISABLE` requests. -/
def disableCounter (tid : ThreadId) : List TapeCall → ULong
  | [] => 0
  | .disable t plus minus :: cs =>
      (if t = tid then plus - minus else 0) + disableCounter tid cs
  | _ :: cs => disableCounter tid cs

/-- Whether a call is to record a block, given the calls before it. -/
def records (before : List TapeCall) (c : TapeCall) : Bool :=
  disableCounter c.tid before = 0 &&
    match c with
    | .add _ i1 i2 _ _ => i1 ≠ 0 || i2 ≠ 0
    | .addNoActivityAnalysis .. => true
    | .disable .. => false

/-- The block passed to a call. -/
def TapeCall.block : TapeCall → List ULong
  | .add _ i1 i2 d1 d2 => [i1, i2, d1, d2]
  | .addNoActivityAnalysis _ i1 i2 d1 d2 => [i1, i2, d1, d2]
  | .disable .. => []

/-- What a call returns if it does not record. -/
def TapeCall.idleReturn (before : List TapeCall) : TapeCall → ℕ
  | .disable tid _ _ => (disableCounter tid before).toNat
  | _ => 0

/-- The blocks to be recorded by calls that are made after `before`. -/
def recorded (before : List TapeCall) : List TapeCall → List (List ULong)
  | [] => []
  | c :: cs =>
      if records before c then c.block :: recorded (before ++ [c]) cs
      else recorded (before ++ [c]) cs

/-- The values to be returned by calls that are made after `before`, of which
`n` have recorded a block: the recording ones are numbered consecutively. -/
def expectedReturns (before : List TapeCall) (n : ℕ) : List TapeCall → List ℕ
  | [] => []
  | c :: cs =>
      if records before c then (n + 1) :: expectedReturns (before ++ [c]) (n + 1) cs
      else c.idleReturn before :: expectedReturns (before ++ [c]) n cs

/-! ### The invariant -/

/-- The tape holds the blocks of `log`, the first of which is the zero block,
unless some write has been cut short. -/
structure TapeInv (s : TapeState) (log : List (List ULong)) : Prop where
  size : s.bufferTape.size = 4 * BUFSIZE
  holds : s.fdTape.complete = true → Holds 4 BUFSIZE s.bufferTape s.fdTape.words log
  next : s.fdTape.complete = true → s.nextindex.toNat = log.length
  bytes : s.fdTape.complete = true → 8 * s.fdTape.words.length ≤ maxFileSize

/-- The block at the beginning of every tape. -/
def zeroBlock : List ULong := [0, 0, 0, 0]

/-- The invariant holds initially. -/
theorem tapeInv_initial : TapeInv dgBarTapeInitialize [zeroBlock] where
  size := rfl
  holds := fun _ => by
    refine ⟨rfl, by simp [zeroBlock], ?_, ?_⟩
    · simp [dgBarTapeInitialize, OutFile.empty, BUFSIZE]
    · simp [dgBarTapeInitialize, zeroBlock, BUFSIZE, List.range_succ]
  next := fun _ => rfl
  bytes := fun _ => by simp [dgBarTapeInitialize, OutFile.empty]

/-- As long as no write has been cut short, `nextindex` is far from wrapping. -/
theorem TapeInv.log_unique {s : TapeState} {log log' : List (List ULong)} (h : TapeInv s log)
    (h' : TapeInv s log') (hc : s.fdTape.complete = true) : log = log' :=
  (h.holds hc).log_unique (h'.holds hc) (by rw [← h.next hc, ← h'.next hc])

theorem TapeInv.length_lt {s : TapeState} {log : List (List ULong)} (h : TapeInv s log)
    (hc : s.fdTape.complete = true) : log.length + 1 < 2 ^ 64 := by
  have hlen := (h.holds hc).length_file
  have hbytes := h.bytes hc
  have hdm := Nat.div_add_mod log.length BUFSIZE
  have hmod := Nat.mod_lt log.length BUFSIZE_pos
  rw [hlen, Nat.mul_comm (log.length / BUFSIZE)] at hbytes
  unfold maxFileSize at hbytes
  unfold BUFSIZE at *
  omega

/-! ### One call -/

/-- Writing the buffer, once it is full. -/
theorem flushTape_spec (o : TapeOptions) (hram : o.tapeInRam = false) {s : TapeState}
    (hsize : s.bufferTape.size = 4 * BUFSIZE) :
    ∃ s', flushTape o s = some s' ∧ s' = { s with
      fdTape := if s.nextindex.toNat % BUFSIZE = 0 then
        s.fdTape.write ((List.range (4 * BUFSIZE)).map s.bufferTape.data) else s.fdTape } := by
  unfold flushTape
  by_cases h0 : s.nextindex.toNat % BUFSIZE = 0
  · refine ⟨_, ?_, rfl⟩
    rw [if_pos h0, if_neg (by simp [hram]), Buf.front?, if_pos (by rw [hsize])]
    simp [h0]
  · exact ⟨s, by rw [if_neg h0], by rw [if_neg h0]⟩

/-- Appending a block to the buffer and flushing it when full keeps the invariant.
`t` is the state after the block has been stored, before the flush. -/
theorem TapeInv.record {s t : TapeState} {log : List (List ULong)} {r : List ULong}
    (h : TapeInv s log) (hr : r.length = 4) (hfd : t.fdTape = s.fdTape)
    (hnext : t.nextindex = s.nextindex + 1) (hsize : t.bufferTape.size = s.bufferTape.size)
    (hbelow : ∀ j < 4 * (s.nextindex.toNat % BUFSIZE),
      t.bufferTape.data j = s.bufferTape.data j)
    (hnew : (List.range' (4 * (s.nextindex.toNat % BUFSIZE)) r.length).map t.bufferTape.data = r)
    {u : TapeState} (hu : u = { t with
      fdTape := if t.nextindex.toNat % BUFSIZE = 0 then
        t.fdTape.write ((List.range (4 * BUFSIZE)).map t.bufferTape.data) else t.fdTape }) :
    TapeInv u (log ++ [r]) ∧ (u.fdTape.complete = true →
      s.fdTape.complete = true ∧ (u.nextindex - 1).toNat = log.length) := by
  subst hu
  have hwrap : s.fdTape.complete = true → (s.nextindex + 1).toNat = log.length + 1 := by
    intro hc
    have hlt := h.length_lt hc
    rw [BitVec.toNat_add, h.next hc]
    exact Nat.mod_eq_of_lt hlt
  have hprev : s.fdTape.complete = true → (s.nextindex + 1 - 1).toNat = log.length := by
    intro hc
    rw [BitVec.add_sub_cancel, h.next hc]
  by_cases h0 : t.nextindex.toNat % BUFSIZE = 0
  · -- the chunk is complete: the file grows by the whole buffer
    simp only [h0, if_true]
    have hw : (t.fdTape.write ((List.range (4 * BUFSIZE)).map t.bufferTape.data)).complete
        = true → s.fdTape.complete = true := by
      intro hc
      rw [hfd] at hc
      exact (OutFile.write_of_complete hc).2.1
    refine ⟨⟨hsize.trans h.size, fun hc => ?_, fun hc => ?_, fun hc => ?_⟩, fun hc => ?_⟩
    · have hcs := hw hc
      have hH := h.holds hcs
      have hlen := h.next hcs
      rw [hlen] at hbelow hnew
      rw [hnext, hwrap hcs] at h0
      have hpush := hH.push_flush BUFSIZE_pos hr h0 hsize hbelow hnew
      simp only [hfd] at hc ⊢
      rw [(OutFile.write_of_complete hc).1]
      exact hpush
    · simp only [hnext, hwrap (hw hc), List.length_append, List.length_singleton]
    · simp only at hc ⊢
      rw [(OutFile.write_of_complete hc).1, List.length_append]
      exact (OutFile.write_of_complete hc).2.2
    · exact ⟨hw hc, by simp only [hnext]; exact hprev (hw hc)⟩
  · simp only [h0, if_false, hfd]
    refine ⟨⟨hsize.trans h.size, fun hc => ?_, fun hc => ?_, h.bytes⟩, fun hc => ?_⟩
    · have hlen := h.next hc
      rw [hlen] at hbelow hnew
      rw [hnext, hwrap hc] at h0
      exact (h.holds hc).push BUFSIZE_pos hr h0 hsize hbelow hnew
    · simp only [hnext, hwrap hc, List.length_append, List.length_singleton]
    · exact ⟨hc, by simp only [hnext]; exact hprev hc⟩

/-- **One recording call.**  It stays in bounds, returns the next index, and
appends its block to the log; the counters and the values are untouched. -/
theorem tapeAddStatementNoActivityAnalysis_spec (o : TapeOptions) (hram : o.tapeInRam = false)
    (tid : ThreadId) (i1 i2 d1 d2 : ULong) {s : TapeState}
    {log : List (List ULong)} (h : TapeInv s log) (hen : s.dgDisable tid = 0) :
    ∃ r s', tapeAddStatementNoActivityAnalysis o tid i1 i2 d1 d2 s = some (r, s') ∧
      TapeInv s' (log ++ [[i1, i2, d1, d2]]) ∧ s'.dgDisable = s.dgDisable ∧
      s'.bufferValues = s.bufferValues ∧ s'.fdValues = s.fdValues ∧
      s'.nextindex = s.nextindex + 1 ∧
      (s'.fdTape.complete = true → s.fdTape.complete = true ∧
        r.toNat = if o.typegrind then 0 else log.length) := by
  -- the four words are stored in bounds
  have hpos : s.nextindex.toNat % BUFSIZE < BUFSIZE := Nat.mod_lt _ BUFSIZE_pos
  have hbound : 4 * (s.nextindex.toNat % BUFSIZE) + [i1, i2, d1, d2].length
      ≤ s.bufferTape.size := by
    rw [h.size]
    simp only [List.length_cons, List.length_nil]
    omega
  obtain ⟨b, hb, hbsize, hbelow, hnew⟩ := Buf.setAll?_spec _ _ _ hbound
  obtain ⟨s₂, hs₂, hs₂eq⟩ := flushTape_spec o hram (s := { s with
    bufferTape := b
    events := s.events ++ recordStops o s.nextindex
    nextindex := s.nextindex + 1 }) (hbsize.trans h.size)
  have hcall : tapeAddStatementNoActivityAnalysis o tid i1 i2 d1 d2 s
      = some (if o.typegrind then 0 else s₂.nextindex - 1, { s₂ with
          events := s₂.events ++ if i1 = onesIndex ∨ i2 = onesIndex then
            [TapeEvent.unwrappedOperand (s₂.nextindex - 1)] else [] }) := by
    unfold tapeAddStatementNoActivityAnalysis
    rw [if_neg (by simpa using hen)]
    simp only [Buf.setAll?, Option.bind_eq_bind, Option.bind_eq_some_iff, Option.some.injEq]
      at hb ⊢
    obtain ⟨b₁, hb₁, b₂, hb₂, b₃, hb₃, b₄, hb₄, rfl⟩ := hb
    exact ⟨b₁, hb₁, b₂, hb₂, b₃, hb₃, b₄, hb₄, s₂, hs₂, rfl⟩
  obtain ⟨hinv, hret⟩ := h.record (t := { s with
    bufferTape := b
    events := s.events ++ recordStops o s.nextindex
    nextindex := s.nextindex + 1 }) (r := [i1, i2, d1, d2]) rfl rfl rfl hbsize hbelow hnew hs₂eq
  refine ⟨_, _, hcall, ⟨hinv.size, hinv.holds, hinv.next, hinv.bytes⟩, by rw [hs₂eq],
    by rw [hs₂eq], by rw [hs₂eq], by rw [hs₂eq], fun hc => ⟨(hret hc).1, ?_⟩⟩
  cases htype : o.typegrind with
  | true => rfl
  | false => exact (hret hc).2

/-! ### Runs keep the invariant -/

theorem disableCounter_append (tid : ThreadId) : ∀ cs ds : List TapeCall,
    disableCounter tid (cs ++ ds) = disableCounter tid cs + disableCounter tid ds := by
  intro cs ds
  induction cs with
  | nil => simp [disableCounter]
  | cons c cs ih =>
    cases c <;> simp [disableCounter, ih, BitVec.add_assoc]

/-- The state after the calls `before`, of which the blocks of `log` have been
recorded: the counters are the sums over the `DISABLE` requests. -/
structure RunInv (before : List TapeCall) (s : TapeState) (log : List (List ULong)) : Prop where
  tape : TapeInv s log
  values : s.bufferValues.size = BUFSIZE
  counters : ∀ tid, s.dgDisable tid = disableCounter tid before

/-- A call that does not record returns its idle value, and changes nothing
unless it is a `DISABLE` request. -/
theorem RunInv.exec_idle {o : TapeOptions} (htype : o.typegrind = false)
    {before : List TapeCall} {s : TapeState} {log : List (List ULong)} (h : RunInv before s log)
    {c : TapeCall} (hrec : records before c = false) :
    ∃ r s', c.exec o s = some (r, s') ∧ RunInv (before ++ [c]) s' log ∧
      s'.fdTape = s.fdTape ∧ r.toNat = c.idleReturn before ∧
      ((∀ tid plus minus, c ≠ .disable tid plus minus) → s' = s) := by
  -- Statements do not change the counters.
  have hkeep : ∀ tid i1 i2 d1 d2, c = .add tid i1 i2 d1 d2 ∨
      c = .addNoActivityAnalysis tid i1 i2 d1 d2 → RunInv (before ++ [c]) s log := by
    intro tid i1 i2 d1 d2 hc
    refine ⟨h.tape, h.values, fun t => ?_⟩
    rw [h.counters, disableCounter_append]
    rcases hc with rfl | rfl <;> simp [disableCounter]
  cases c with
  | add tid i1 i2 d1 d2 =>
    refine ⟨0, s, ?_, hkeep _ _ _ _ _ (.inl rfl), rfl, rfl, fun _ => rfl⟩
    simp only [TapeCall.exec, tapeAddStatement, tapeAddStatementNoActivityAnalysis, htype]
    simp only [records, TapeCall.tid, Bool.and_eq_false_iff, decide_eq_false_iff_not,
      Bool.or_eq_false_iff, not_not] at hrec
    by_cases hzero : i1 = 0 ∧ i2 = 0
    · simp [hzero]
    · -- an operand is active, so the thread is disabled
      have hdis : s.dgDisable tid ≠ 0 := by
        rw [h.counters]
        rcases hrec with hrec | hrec
        · exact of_decide_eq_false hrec
        · exact absurd hrec hzero
      rw [if_neg (by simpa using hzero), if_pos hdis]
      rfl
  | addNoActivityAnalysis tid i1 i2 d1 d2 =>
    refine ⟨0, s, ?_, hkeep _ _ _ _ _ (.inr rfl), rfl, rfl, fun _ => rfl⟩
    have hdis : s.dgDisable tid ≠ 0 := by
      rw [h.counters]
      simp only [records, TapeCall.tid, Bool.and_true] at hrec
      exact of_decide_eq_false hrec
    simp only [TapeCall.exec, tapeAddStatementNoActivityAnalysis, htype]
    rw [if_pos hdis]
    rfl
  | disable tid plus minus =>
    refine ⟨_, _, rfl, ⟨⟨h.tape.size, h.tape.holds, h.tape.next, h.tape.bytes⟩, h.values, fun t => ?_⟩,
      rfl, ?_, fun hne => absurd rfl (hne _ _ _)⟩
    · rw [disableCounter_append, ← h.counters]
      by_cases ht : t = tid
      · subst ht
        simp [disableCounter]
      · simp [disableCounter, ht, Ne.symm ht]
    · rw [TapeCall.idleReturn, ← h.counters]

/-- A recording call returns the next index and appends its block. -/
theorem RunInv.exec_records {o : TapeOptions} (htype : o.typegrind = false)
    (hram : o.tapeInRam = false) {before : List TapeCall} {s : TapeState}
    {log : List (List ULong)} (h : RunInv before s log) {c : TapeCall}
    (hrec : records before c = true) :
    ∃ r s', c.exec o s = some (r, s') ∧ RunInv (before ++ [c]) s' (log ++ [c.block]) ∧
      (s'.fdTape.complete = true → s.fdTape.complete = true ∧ r.toNat = log.length) := by
  have hen : s.dgDisable c.tid = 0 := by
    rw [h.counters]
    simp only [records, Bool.and_eq_true, decide_eq_true_eq] at hrec
    exact hrec.1
  have hadd : ∀ tid i1 i2 d1 d2, c.tid = tid → c.block = [i1, i2, d1, d2] →
      (∀ t, disableCounter t (before ++ [c]) = disableCounter t before) →
      c.exec o s = tapeAddStatementNoActivityAnalysis o tid i1 i2 d1 d2 s →
      ∃ r s', c.exec o s = some (r, s') ∧ RunInv (before ++ [c]) s' (log ++ [c.block]) ∧
        (s'.fdTape.complete = true → s.fdTape.complete = true ∧ r.toNat = log.length) := by
    intro tid i1 i2 d1 d2 htid hblock hcount hexec
    obtain ⟨r, s', hcall, hinv, hdis, hvals, -, -, hret⟩ :=
      tapeAddStatementNoActivityAnalysis_spec o hram tid i1 i2 d1 d2 h.tape (htid ▸ hen)
    refine ⟨r, s', hexec.trans hcall, ⟨hblock ▸ hinv, hvals ▸ h.values, fun t => ?_⟩, fun hc => ?_⟩
    · rw [hdis, hcount, h.counters]
    · exact ⟨(hret hc).1, by simpa [htype] using (hret hc).2⟩
  cases c with
  | add tid i1 i2 d1 d2 =>
    refine hadd tid i1 i2 d1 d2 rfl rfl (fun t => ?_) ?_
    · simp [disableCounter_append, disableCounter]
    · simp only [records, Bool.and_eq_true, Bool.or_eq_true, decide_eq_true_eq] at hrec
      have hactive : ¬ (i1 = 0 ∧ i2 = 0 ∧ o.typegrind = false) := by tauto
      rw [TapeCall.exec, tapeAddStatement, if_neg hactive]
  | addNoActivityAnalysis tid i1 i2 d1 d2 =>
    refine hadd tid i1 i2 d1 d2 rfl rfl (fun t => ?_) rfl
    simp [disableCounter_append, disableCounter]
  | disable tid plus minus => simp [records] at hrec

/-- **A run of calls.**  It never leaves the buffers, returns the expected
values, and appends the recorded blocks to the log. -/
theorem RunInv.runCalls {o : TapeOptions} (htype : o.typegrind = false)
    (hram : o.tapeInRam = false) : ∀ (cs before : List TapeCall) (s : TapeState)
    (log : List (List ULong)), RunInv before s log →
    ∃ rs s', runCalls o cs s = some (rs, s') ∧
      RunInv (before ++ cs) s' (log ++ recorded before cs) ∧
      (s'.fdTape.complete = true → s.fdTape.complete = true ∧
        ∀ n, log.length = n + 1 → rs.map BitVec.toNat = expectedReturns before n cs) := by
  intro cs
  induction cs with
  | nil =>
    intro before s log h
    refine ⟨[], s, rfl, ?_, fun hc => ⟨hc, fun _ _ => rfl⟩⟩
    simpa [recorded] using h
  | cons c cs ih =>
    intro before s log h
    have happ : before ++ c :: cs = (before ++ [c]) ++ cs := by simp
    by_cases hrec : records before c = true
    · obtain ⟨r, s₁, hexec, hinv, hret⟩ := h.exec_records htype hram hrec
      obtain ⟨rs, s', hrun, hinv', hrets⟩ := ih _ _ _ hinv
      refine ⟨r :: rs, s', by simp [Derivgrind.runCalls, hexec, hrun], ?_, fun hc => ?_⟩
      · rw [happ, recorded, if_pos hrec]
        simpa using hinv'
      · obtain ⟨hc₁, hrs⟩ := hrets hc
        obtain ⟨hc₀, hr⟩ := hret hc₁
        refine ⟨hc₀, fun n hn => ?_⟩
        rw [List.map_cons, expectedReturns, if_pos hrec, hr, hn, hrs (n + 1) (by simp [hn])]
    · rw [Bool.not_eq_true] at hrec
      obtain ⟨r, s₁, hexec, hinv, hfd, hr, -⟩ := h.exec_idle htype hrec
      obtain ⟨rs, s', hrun, hinv', hrets⟩ := ih _ _ _ hinv
      refine ⟨r :: rs, s', by simp [Derivgrind.runCalls, hexec, hrun], ?_, fun hc => ?_⟩
      · rw [happ, recorded, if_neg (by simp [hrec])]
        exact hinv'
      · obtain ⟨hc₁, hrs⟩ := hrets hc
        refine ⟨hfd ▸ hc₁, fun n hn => ?_⟩
        rw [List.map_cons, expectedReturns, if_neg (by simp [hrec]), hr, hrs n hn]

/-- `dg_bar_tape_finalize` stays in bounds, and writes what is pending. -/
theorem dgBarTapeFinalize_spec (o : TapeOptions) {s : TapeState}
    (hsize : s.bufferTape.size = 4 * BUFSIZE) (hvsize : s.bufferValues.size = BUFSIZE) :
    ∃ s', dgBarTapeFinalize o s = some s' ∧
      s'.fdTape = (if 0 < s.nextindex.toNat % BUFSIZE then s.fdTape.write
        ((List.range (s.nextindex.toNat % BUFSIZE * 4)).map s.bufferTape.data) else s.fdTape) ∧
      (o.barRecordValues = true →
        s'.fdValues = if 0 < s.nextindex.toNat % BUFSIZE then s.fdValues.write
          ((List.range (s.nextindex.toNat % BUFSIZE)).map s.bufferValues.data) else s.fdValues) := by
  have hpos : s.nextindex.toNat % BUFSIZE < BUFSIZE := Nat.mod_lt _ BUFSIZE_pos
  have hfront : s.bufferTape.front? (s.nextindex.toNat % BUFSIZE * 4)
      = some ((List.range (s.nextindex.toNat % BUFSIZE * 4)).map s.bufferTape.data) := by
    rw [Buf.front?, if_pos (by rw [hsize]; omega)]
  have hfrontv : s.bufferValues.front? (s.nextindex.toNat % BUFSIZE)
      = some ((List.range (s.nextindex.toNat % BUFSIZE)).map s.bufferValues.data) := by
    rw [Buf.front?, if_pos (by rw [hvsize]; omega)]
  unfold dgBarTapeFinalize
  by_cases h0 : 0 < s.nextindex.toNat % BUFSIZE
  · cases hval : o.barRecordValues <;> simp [h0, hfront, hfrontv]
  · exact ⟨s, by simp [h0], by simp [h0], fun _ => by simp [h0]⟩

/-- `dg_bar_tape_finalize` completes the file. -/
theorem TapeInv.finalize {s s' : TapeState} {log : List (List ULong)} (h : TapeInv s log)
    (hfd : s'.fdTape = if 0 < s.nextindex.toNat % BUFSIZE then s.fdTape.write
      ((List.range (s.nextindex.toNat % BUFSIZE * 4)).map s.bufferTape.data) else s.fdTape)
    (hc : s'.fdTape.complete = true) :
    s.fdTape.complete = true ∧ s'.fdTape.words = log.flatten := by
  by_cases h0 : 0 < s.nextindex.toNat % BUFSIZE
  · rw [if_pos h0] at hfd
    rw [hfd] at hc ⊢
    obtain ⟨hw, hcs, -⟩ := OutFile.write_of_complete hc
    refine ⟨hcs, ?_⟩
    rw [hw, ← (h.holds hcs).finish, h.next hcs, Nat.mul_comm 4]
  · rw [if_neg h0] at hfd
    rw [hfd] at hc ⊢
    refine ⟨hc, ?_⟩
    have hmod : log.length % BUFSIZE = 0 := by rw [← h.next hc]; omega
    rw [← (h.holds hc).finish, hmod]
    simp

/-! ### Whole recordings -/

/-- **The tape file is exactly the recorded sequence.**  Whatever the threads
do, no buffer access is out of bounds.  If all bytes could be written, the
recording calls return `1, 2, 3, …`, and the file consists of the zero block and
their blocks; `nextindex` is the number of blocks.  Calls that do not record
return zero and leave the state, reached by the calls before them, unchanged. -/
theorem tapeSession_exact (o : TapeOptions) (htype : o.typegrind = false)
    (hram : o.tapeInRam = false) (calls : List TapeCall) :
    ∃ r, tapeSession o calls = some r ∧
      (r.file.complete = true →
        r.returns.map BitVec.toNat = expectedReturns [] 0 calls ∧
        r.final.nextindex.toNat = (recorded [] calls).length + 1 ∧
        r.file.words = (zeroBlock :: recorded [] calls).flatten) ∧
      ∀ before c after, calls = before ++ c :: after → records before c = false →
        (∀ tid plus minus, c ≠ .disable tid plus minus) →
        ∃ rs s, runCalls o before dgBarTapeInitialize = some (rs, s) ∧
          c.exec o s = some (0, s) := by
  have hinit : RunInv [] dgBarTapeInitialize [zeroBlock] :=
    ⟨tapeInv_initial, rfl, fun _ => rfl⟩
  obtain ⟨rs, s, hrun, hinv, hret⟩ := hinit.runCalls htype hram calls
  obtain ⟨s', hfin, hfd, -⟩ := dgBarTapeFinalize_spec o hinv.tape.size hinv.values
  refine ⟨⟨rs, s, s'.fdTape⟩, by simp [tapeSession, hrun, hfin], fun hc => ?_, ?_⟩
  · obtain ⟨hcs, hwords⟩ := hinv.tape.finalize hfd hc
    refine ⟨(hret hcs).2 0 rfl, ?_, hwords⟩
    rw [hinv.tape.next hcs]
    simp [Nat.add_comm]
  · intro before c after _ hrec hadd
    obtain ⟨rs₁, s₁, hrun₁, hinv₁, -⟩ := hinit.runCalls htype hram before
    obtain ⟨r, s₂, hexec, -, -, hr, hsame⟩ := hinv₁.exec_idle htype (c := c) hrec
    have hr0 : r = 0 := by
      cases c with
      | disable tid plus minus => exact absurd rfl (hadd tid plus minus)
      | _ => exact BitVec.eq_of_toNat_eq hr
    exact ⟨rs₁, s₁, hrun₁, by rw [hexec, hsame hadd, hr0]⟩

/-- Recording with all options off. -/
def plainOptions : TapeOptions := ⟨false, false, false, none⟩

/-- Two threads, one of which disables itself in between. -/
def twoThreads : List TapeCall :=
  [.addNoActivityAnalysis 1 0 0 0 0, .add 2 0 0 5 5, .disable 1 1 0, .add 2 1 0 7 8,
    .add 1 1 2 3 4, .disable 1 0 1, .add 1 2 1 9 9]

/-- The theorem applies to the interleaving of `twoThreads`: three calls record. -/
theorem tapeSession_exact_twoThreads :
    ∃ r, tapeSession plainOptions twoThreads = some r ∧ r.file.complete = true ∧
      r.returns.map BitVec.toNat = [1, 0, 0, 2, 0, 1, 3] ∧
      r.file.words = [0, 0, 0, 0, 0, 0, 0, 0, 1, 0, 7, 8, 2, 1, 9, 9] := by
  obtain ⟨r, hr, hfile, -⟩ := tapeSession_exact plainOptions rfl rfl twoThreads
  have hcomplete : (tapeSession plainOptions twoThreads).map (·.file.complete) = some true := by
    decide +kernel
  rw [hr, Option.map_some, Option.some.injEq] at hcomplete
  obtain ⟨hret, -, hwords⟩ := hfile hcomplete
  exact ⟨r, hr, hcomplete, by rw [hret]; decide, by rw [hwords]; decide⟩

end Derivgrind
