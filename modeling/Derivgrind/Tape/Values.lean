import Derivgrind.Tape.Bitwise
import Derivgrind.Tape.File

/-!
# The values file is aligned with the tape

With `--record-values=yes`, the callers of the tape functions also record the
value of each result.  The values go through a buffer of their own into the file
`dg-values`; its `k`-th entry is meant to be the value of the `k`-th block.

This is the case as long as `--typegrind` is off.  With `--typegrind=yes`, the
returned indices no longer tell whether a block has been recorded: a recorded
block returns zero, so its value is dropped, and a disabled operation returns
`0xff..f`, so its value replaces the one of the last block.

With `--tape-in-ram=yes`, full buffers are dropped, so the run must not fill one.

## Main definitions

* `BarCall`, `runBarCalls`, `barSession` — runs of the callers.
* `BarCall.requests`, `recordedRequests` — the statements to be recorded.
* `Aligned` — **both files consist of the recorded statements.**
* `TapeState.Room` — no buffer is dropped.

## Main results

* `Request.perform_spec` — one statement and its value.
* `barSession_aligned` — runs without `--typegrind` are aligned.
-/

namespace Derivgrind

open ChunkedLog

/-! ### The callers -/

/-- The calls that lead to tape statements, or change whether they are recorded. -/
inductive BarCall where
  /-- The two dirty calls of `dg_bar_writeToTape`. -/
  | writeToTape (tid : ThreadId) (index1Lo index1Hi index2Lo index2Hi diff1 diff2 value : ULong)
  /-- A handler of a bitwise logical operation. -/
  | bitwise (tid : ThreadId) (op : BitwiseOp) (x xiLo xiHi y yiLo yiHi : ULong)
  /-- The client requests `NEW_INDEX` and `NEW_INDEX_NOACTIVITYANALYSIS`. -/
  | newIndex (tid : ThreadId) (activityAnalysis : Bool) (index1 index2 diff1 diff2 value : ULong)
  /-- The debugger commands `mark`, `fmark` and `lmark`, for a variable with the given value. -/
  | mark (tid : ThreadId) (value : ULong)
  /-- The client request `DISABLE`. -/
  | disable (tid : ThreadId) (plus minus : ULong)
  deriving DecidableEq, Repr

/-- The thread making a call. -/
def BarCall.tid : BarCall → ThreadId
  | .writeToTape tid .. => tid
  | .bitwise tid .. => tid
  | .newIndex tid .. => tid
  | .mark tid _ => tid
  | .disable tid .. => tid

/-- `dg_bar_writeToTape_call` and `dg_bar_writeToTape_value_call`: the indices are
assembled from the four-byte beginnings of both shadow layers. -/
def writeToTapeRequest (index1Lo index1Hi index2Lo index2Hi diff1 diff2 value : ULong) : Request :=
  ⟨true, assemble64x2to64 index1Lo index1Hi, assemble64x2to64 index2Lo index2Hi, diff1, diff2,
    value⟩

/-- Execute a call. -/
def BarCall.exec (o : TapeOptions) : BarCall → BarState → Option BarState
  | .writeToTape tid i1Lo i1Hi i2Lo i2Hi d1 d2 value, s => do
      let (_, tape) ← (writeToTapeRequest i1Lo i1Hi i2Lo i2Hi d1 d2 value).perform o tid s.tape
      some { s with tape := tape }
  | .bitwise tid op x xiLo xiHi y yiLo yiHi, s =>
      op.handler64 o .b tid x xiLo xiHi y yiLo yiHi s
  | .newIndex tid activityAnalysis i1 i2 d1 d2 value, s => do
      let (_, tape) ← Request.perform o tid ⟨activityAnalysis, i1, i2, d1, d2, value⟩ s.tape
      some { s with tape := tape }
  | .mark tid value, s => do
      let (_, tape) ← Request.perform o tid ⟨false, 0, 0, 0, 0, value⟩ s.tape
      some { s with tape := tape }
  | .disable tid plus minus, s =>
      some { s with tape := (dgDisableRequest tid plus minus s.tape).2 }

/-- Execute calls one after the other. -/
def runBarCalls (o : TapeOptions) : List BarCall → BarState → Option BarState
  | [], s => some s
  | c :: cs, s => (c.exec o s).bind (runBarCalls o cs)

/-- The state at the beginning of a recording. -/
def initialBarState : BarState := ⟨dgBarTapeInitialize, ⟨0, 0, 0, 0⟩⟩

/-- A whole recording: the tape file and the values file. -/
def barSession (o : TapeOptions) (calls : List BarCall) : Option (OutFile × OutFile) := do
  let s ← runBarCalls o calls initialBarState
  let s' ← dgBarTapeFinalize o s.tape
  some (s'.fdTape, s'.fdValues)

/-! ### What a run is meant to record -/

/-- The tape statements of a call. -/
def BarCall.requests : BarCall → List Request
  | .writeToTape _ i1Lo i1Hi i2Lo i2Hi d1 d2 value =>
      [writeToTapeRequest i1Lo i1Hi i2Lo i2Hi d1 d2 value]
  | .bitwise _ op x xiLo xiHi y yiLo yiHi => op.requests64 .b x xiLo xiHi y yiLo yiHi
  | .newIndex _ activityAnalysis i1 i2 d1 d2 value => [⟨activityAnalysis, i1, i2, d1, d2, value⟩]
  | .mark _ value => [⟨false, 0, 0, 0, 0, value⟩]
  | .disable .. => []

/-- The counter of a thread after a call. -/
def BarCall.counters (dgDisable : ThreadId → ULong) : BarCall → ThreadId → ULong
  | .disable tid plus minus =>
      Function.update dgDisable tid (dgDisable tid + (plus - minus))
  | _ => dgDisable

/-- The block of a statement. -/
def Request.block (r : Request) : List ULong := [r.index1, r.index2, r.diff1, r.diff2]

/-- Whether a statement of a thread with the given counter is to be recorded. -/
def Request.records (o : TapeOptions) (counter : ULong) (r : Request) : Bool :=
  counter = 0 && (!r.activityAnalysis || r.index1 ≠ 0 || r.index2 ≠ 0 || o.typegrind)

/-- The statements to be recorded by a run, given the counters before it. -/
def recordedRequests (o : TapeOptions) : (ThreadId → ULong) → List BarCall → List Request
  | _, [] => []
  | dgDisable, c :: cs =>
      c.requests.filter (Request.records o (dgDisable c.tid))
        ++ recordedRequests o (c.counters dgDisable) cs

/-- **The values file is aligned with the tape**: no buffer access is out of
bounds, and if all bytes could be written, the files consist of the blocks and
of the values of the recorded statements, after a zero block and a zero. -/
def Aligned (o : TapeOptions) (calls : List BarCall) : Prop :=
  ∃ tape values, barSession o calls = some (tape, values) ∧
    (tape.complete = true → values.complete = true →
      tape.words = (zeroBlock :: (recordedRequests o (fun _ => 0) calls).map Request.block).flatten ∧
      values.words = 0 :: (recordedRequests o (fun _ => 0) calls).map Request.value)

/-! ### The invariant -/

/-- The buffers and files hold the recorded statements `rs`. -/
structure ValuesInv (s : TapeState) (rs : List Request) : Prop where
  tape : TapeInv s (zeroBlock :: rs.map Request.block)
  size : s.bufferValues.size = BUFSIZE
  holds : s.fdTape.complete = true → s.fdValues.complete = true →
    Holds 1 BUFSIZE s.bufferValues s.fdValues.words ([0] :: rs.map fun r => [r.value])

/-- The invariant holds initially. -/
theorem valuesInv_initial : ValuesInv dgBarTapeInitialize [] where
  tape := tapeInv_initial
  size := rfl
  holds := fun _ _ => by
    refine ⟨by simp [dgBarTapeInitialize], by simp, ?_, ?_⟩
    · simp [dgBarTapeInitialize, OutFile.empty, BUFSIZE]
    · simp [dgBarTapeInitialize, BUFSIZE]

/-- Storing the value of the block that has just been recorded. -/
theorem valuesAddStatement_spec {s t : TapeState} {rs : List Request} {r : Request}
    (h : ValuesInv s rs) (htape : TapeInv t (zeroBlock :: (rs ++ [r]).map Request.block))
    (hnext : t.nextindex = s.nextindex + 1) (hbuf : t.bufferValues = s.bufferValues)
    (hfd : t.fdValues = s.fdValues) (hc : t.fdTape.complete = true → s.fdTape.complete = true) :
    ∃ t', valuesAddStatement r.value t = some t' ∧ ValuesInv t' (rs ++ [r]) ∧
      t'.dgDisable = t.dgDisable ∧ t'.fdTape = t.fdTape := by
  have hpos : (t.nextindex - 1).toNat % BUFSIZE < BUFSIZE := Nat.mod_lt _ BUFSIZE_pos
  have hsize : t.bufferValues.size = BUFSIZE := by rw [hbuf, h.size]
  obtain ⟨b, hb, hbsize, hbelow, hnew⟩ := Buf.setAll?_spec [r.value] t.bufferValues
    ((t.nextindex - 1).toNat % BUFSIZE) (by rw [hsize]; exact hpos)
  have hset : t.bufferValues.set? ((t.nextindex - 1).toNat % BUFSIZE) r.value = some b := by
    simpa [Buf.setAll?] using hb
  -- the position is the number of values so far, and the buffer is full together with the tape's
  have hkey : t.fdTape.complete = true →
      (t.nextindex - 1).toNat = ([0] :: rs.map fun r => [r.value]).length ∧
      t.nextindex.toNat = ([0] :: rs.map fun r => [r.value]).length + 1 := by
    intro hct
    have h₁ := h.tape.next (hc hct)
    have h₂ := htape.next hct
    rw [hnext, BitVec.add_sub_cancel]
    rw [hnext] at h₂
    simp only [List.length_cons, List.length_map, List.length_append, List.length_nil]
      at h₁ h₂ ⊢
    exact ⟨h₁, h₂⟩
  have happ : ([0] :: (rs ++ [r]).map fun r => [r.value])
      = ([0] :: rs.map fun r => [r.value]) ++ [[r.value]] := by simp
  rw [valuesAddStatement]
  simp only [hset, Option.bind_eq_bind, Option.bind_some]
  by_cases h0 : t.nextindex.toNat % BUFSIZE = 0
  · rw [if_pos h0, Buf.front?, if_pos (by rw [hbsize, hsize])]
    refine ⟨_, rfl, ⟨⟨htape.size, htape.holds, htape.next, htape.bytes⟩,
      hbsize.trans hsize, fun hct hcv => ?_⟩, rfl, rfl⟩
    obtain ⟨hlen, hlen'⟩ := hkey hct
    simp only [hfd] at hcv ⊢
    obtain ⟨hw, hcs, -⟩ := OutFile.write_of_complete hcv
    rw [hlen] at hbelow hnew
    rw [hlen'] at h0
    have hpush := (h.holds (hc hct) hcs).push_flush (r := [r.value]) BUFSIZE_pos rfl h0
      (hbsize.trans (congrArg Buf.size hbuf))
      (fun j hj => by rw [hbelow j (by simpa using hj), hbuf]) (by simpa using hnew)
    rw [hw, happ]
    simpa using hpush
  · rw [if_neg h0]
    refine ⟨_, rfl, ⟨⟨htape.size, htape.holds, htape.next, htape.bytes⟩,
      hbsize.trans hsize, fun hct hcv => ?_⟩, rfl, rfl⟩
    obtain ⟨hlen, hlen'⟩ := hkey hct
    simp only [hfd] at hcv ⊢
    rw [hlen] at hbelow hnew
    rw [hlen'] at h0
    rw [happ]
    exact (h.holds (hc hct) hcv).push BUFSIZE_pos rfl h0
      (hbsize.trans (congrArg Buf.size hbuf))
      (fun j hj => by rw [hbelow j (by simpa using hj), hbuf]) (by simpa using hnew)

/-! ### One statement -/

/-- A statement that is to be recorded reaches the recording function. -/
theorem Request.add_of_records {o : TapeOptions} {tid : ThreadId} {r : Request} {s : TapeState}
    {counter : ULong} (hrec : r.records o counter = true) :
    r.add o tid s
      = tapeAddStatementNoActivityAnalysis o tid r.index1 r.index2 r.diff1 r.diff2 s := by
  simp only [records, Bool.and_eq_true, Bool.or_eq_true, Bool.not_eq_true', decide_eq_true_eq]
    at hrec
  rw [add, tapeAddStatement]
  split
  · next hact =>
    have hactive : ¬ (r.index1 = 0 ∧ r.index2 = 0 ∧ o.typegrind = false) := by
      rintro ⟨h1, h2, h3⟩
      simp [hact, h1, h2, h3] at hrec
    rw [if_neg hactive]
  · rfl

/-- A statement that is not to be recorded changes nothing and returns zero, if
`--typegrind` is off. -/
theorem Request.add_of_not_records {o : TapeOptions} (htype : o.typegrind = false)
    {tid : ThreadId} {r : Request} {s : TapeState}
    (hrec : r.records o (s.dgDisable tid) = false) : r.add o tid s = some (0, s) := by
  have hskip : s.dgDisable tid ≠ 0 →
      tapeAddStatementNoActivityAnalysis o tid r.index1 r.index2 r.diff1 r.diff2 s
        = some (0, s) := by
    intro hdis
    rw [tapeAddStatementNoActivityAnalysis, if_pos hdis, htype]
    rfl
  simp only [records, Bool.and_eq_false_iff, decide_eq_false_iff_not, htype, Bool.or_false]
    at hrec
  rw [add, tapeAddStatement]
  rcases hrec with hdis | hidle
  · rw [hskip hdis]
    simp
  · simp only [Bool.or_eq_false_iff, Bool.not_eq_false', decide_eq_false_iff_not, not_not]
      at hidle
    simp [hidle, htype]

/-! ### Tapes in memory -/

/-- No buffer is dropped before the tape has more than `n` blocks. -/
def TapeState.Room (o : TapeOptions) (s : TapeState) (n : ℕ) : Prop :=
  o.tapeInRam = false ∨ s.fdTape.complete = true ∧ n < BUFSIZE

theorem TapeState.Room.mono {o : TapeOptions} {s : TapeState} {m n : ℕ} (h : s.Room o n)
    (hmn : m ≤ n) : s.Room o m :=
  h.imp id fun h => ⟨h.1, lt_of_le_of_lt hmn h.2⟩

/-- Nothing is written while the tape is kept in memory. -/
theorem fdTape_of_tapeInRam {o : TapeOptions} (hram : o.tapeInRam = true) {tid : ThreadId}
    {i1 i2 d1 d2 r : ULong} {s s' : TapeState}
    (h : tapeAddStatementNoActivityAnalysis o tid i1 i2 d1 d2 s = some (r, s')) :
    s'.fdTape = s.fdTape := by
  have hflush : ∀ {u u' : TapeState}, flushTape o u = some u' → u'.fdTape = u.fdTape := by
    intro u u' hu
    simp only [flushTape, hram, if_true] at hu
    split at hu <;> rw [← Option.some.inj hu]
  unfold tapeAddStatementNoActivityAnalysis at h
  split at h
  · rw [← (Prod.mk.inj (Option.some.inj h)).2]
  · simp only [Option.bind_eq_bind, Option.bind_eq_some_iff] at h
    obtain ⟨b₁, -, b₂, -, b₃, -, b₄, -, u, hu, heq⟩ := h
    have hkept := hflush hu
    rw [← (Prod.mk.inj (Option.some.inj heq)).2]
    exact hkept

/-- A buffer that is not full is neither written nor dropped. -/
theorem flushTape_of_room (o o' : TapeOptions) {s : TapeState} (hpos : 0 < s.nextindex.toNat)
    (hlt : s.nextindex.toNat < BUFSIZE) : flushTape o s = flushTape o' s := by
  have hne : s.nextindex.toNat % BUFSIZE ≠ 0 := by
    rw [Nat.mod_eq_of_lt hlt]
    omega
  unfold flushTape
  rw [if_neg hne, if_neg hne]

/-- Recording one block, if there is room for it. -/
theorem tapeAddStatementNoActivityAnalysis_room (o : TapeOptions) (tid : ThreadId)
    (i1 i2 d1 d2 : ULong) {s : TapeState} {log : List (List ULong)} (h : TapeInv s log)
    (hen : s.dgDisable tid = 0) (hroom : s.Room o (log.length + 1)) :
    ∃ r s', tapeAddStatementNoActivityAnalysis o tid i1 i2 d1 d2 s = some (r, s') ∧
      TapeInv s' (log ++ [[i1, i2, d1, d2]]) ∧ s'.dgDisable = s.dgDisable ∧
      s'.bufferValues = s.bufferValues ∧ s'.fdValues = s.fdValues ∧
      s'.nextindex = s.nextindex + 1 ∧
      (s'.fdTape.complete = true → s.fdTape.complete = true ∧
        r.toNat = if o.typegrind then 0 else log.length) := by
  rcases hroom with hram | ⟨hc, hlt⟩
  · exact tapeAddStatementNoActivityAnalysis_spec o hram tid i1 i2 d1 d2 h hen
  · -- The buffer does not become full, so it does not matter where the tape is kept.
    have hnext : (s.nextindex + 1).toNat = log.length + 1 := by
      rw [BitVec.toNat_add, h.next hc]
      have hbuf : BUFSIZE = 1000000 := by unfold BUFSIZE; rfl
      exact Nat.mod_eq_of_lt (by rw [hbuf] at hlt; simp; omega)
    have hsame : tapeAddStatementNoActivityAnalysis o tid i1 i2 d1 d2 s
        = tapeAddStatementNoActivityAnalysis { o with tapeInRam := false } tid i1 i2 d1 d2 s := by
      unfold tapeAddStatementNoActivityAnalysis
      simp only [flushTape_of_room o { o with tapeInRam := false }
        (s := { s with nextindex := s.nextindex + 1, bufferTape := _, events := _ })
        (by rw [hnext]; omega) (by rw [hnext]; exact hlt)]
      rfl
    rw [hsame]
    exact tapeAddStatementNoActivityAnalysis_spec { o with tapeInRam := false } rfl tid i1 i2 d1 d2
      h hen

/-- **One statement and its value.**  If `--typegrind` is off, both are recorded,
or none of them. -/
theorem Request.perform_spec {o : TapeOptions} (htype : o.typegrind = false)
    (hval : o.barRecordValues = true) (tid : ThreadId) {r : Request} {s : TapeState}
    {rs : List Request} (h : ValuesInv s rs) {n : ℕ} (hroom : s.Room o n)
    (hn : (rs ++ [r].filter (Request.records o (s.dgDisable tid))).length + 1 ≤ n) :
    ∃ index s', r.perform o tid s = some (index, s') ∧ s'.dgDisable = s.dgDisable ∧
      s'.Room o n ∧ ValuesInv s' (rs ++ [r].filter (Request.records o (s.dgDisable tid))) := by
  cases hrec : r.records o (s.dgDisable tid) with
  | false =>
    refine ⟨0, s, ?_, rfl, hroom, by simpa [hrec] using h⟩
    simp [perform, add_of_not_records htype hrec]
  | true =>
    have hen : s.dgDisable tid = 0 := by
      simp only [records, Bool.and_eq_true, decide_eq_true_eq] at hrec
      exact hrec.1
    obtain ⟨index, t, hcall, hinv, hdis, hbuf, hfd, hnext, hret⟩ :=
      tapeAddStatementNoActivityAnalysis_room o tid r.index1 r.index2 r.diff1 r.diff2
        h.tape hen (hroom.mono (by simpa [hrec] using hn))
    have hroom' : t.Room o n := by
      rcases hram : o.tapeInRam with _ | _
      · exact .inl hram
      · have hroom := hroom.resolve_left (by simp [hram])
        exact .inr ⟨by rw [fdTape_of_tapeInRam hram hcall]; exact hroom.1, hroom.2⟩
    have htape : TapeInv t (zeroBlock :: (rs ++ [r]).map Request.block) := by
      simpa [Request.block] using hinv
    rw [List.filter_cons_of_pos hrec, List.filter_nil]
    by_cases h0 : index = 0
    · -- the index is nonzero unless some write has been cut short
      have hcut : t.fdTape.complete ≠ true := by
        intro hct
        have := (hret hct).2
        simp [h0, htype] at this
      refine ⟨index, t, ?_, hdis, hroom',
        ⟨htape, by rw [hbuf, h.size], fun hct => absurd hct hcut⟩⟩
      simp [perform, add_of_records hrec, hcall, h0]
    · obtain ⟨t', hvals, hinv', hdis', hfd'⟩ :=
        valuesAddStatement_spec h htape hnext hbuf hfd fun hct => (hret hct).1
      refine ⟨index, t', ?_, hdis'.trans hdis, ?_, hinv'⟩
      swap
      · rwa [TapeState.Room, hfd']
      rw [perform, add_of_records hrec, hcall]
      simp only [Option.bind_eq_bind, Option.bind_some]
      rw [if_pos ⟨hval, h0⟩, hvals]
      rfl

/-- Several statements of one thread. -/
theorem performRequests_spec {o : TapeOptions} (htype : o.typegrind = false)
    (hval : o.barRecordValues = true) (tid : ThreadId) {n : ℕ} :
    ∀ (qs : List Request) (s : TapeState) (rs : List Request), ValuesInv s rs → s.Room o n →
    (rs ++ qs.filter (Request.records o (s.dgDisable tid))).length + 1 ≤ n →
    ∃ s', performRequests o tid qs s = some s' ∧ s'.dgDisable = s.dgDisable ∧ s'.Room o n ∧
      ValuesInv s' (rs ++ qs.filter (Request.records o (s.dgDisable tid))) := by
  intro qs
  induction qs with
  | nil => intro s rs h hroom _; exact ⟨s, rfl, rfl, hroom, by simpa using h⟩
  | cons q qs ih =>
    intro s rs h hroom hn
    rw [← List.singleton_append, List.filter_append, ← List.append_assoc] at hn ⊢
    have hfirst : (rs ++ [q].filter (Request.records o (s.dgDisable tid))).length + 1 ≤ n := by
      rw [List.length_append] at hn
      omega
    obtain ⟨index, s₁, hq, hdis, hroom₁, hinv⟩ := q.perform_spec htype hval tid h hroom hfirst
    rw [← hdis] at hn
    rw [← hdis] at hinv
    obtain ⟨s', hqs, hdis', hroom', hinv'⟩ := ih s₁ _ hinv hroom₁ hn
    refine ⟨s', by simp [performRequests, hq, hqs], hdis'.trans hdis, hroom', ?_⟩
    rwa [hdis] at hinv'

/-! ### Runs -/

/-- A call other than `DISABLE` performs its requests. -/
theorem BarCall.exec_tape (o : TapeOptions) (c : BarCall) (s : BarState)
    (hc : ∀ tid plus minus, c ≠ .disable tid plus minus) :
    (c.exec o s).map BarState.tape = performRequests o c.tid c.requests s.tape := by
  have hone : ∀ (tid : ThreadId) (r : Request),
      (Option.bind (r.perform o tid s.tape) fun p => some { s with tape := p.2 }).map
        BarState.tape = performRequests o tid [r] s.tape := by
    intro tid r
    simp only [performRequests, Option.bind_eq_bind]
    cases r.perform o tid s.tape <;> rfl
  cases c with
  | writeToTape tid i1Lo i1Hi i2Lo i2Hi d1 d2 value => exact hone tid _
  | bitwise tid op x xiLo xiHi y yiLo yiHi =>
    exact op.handler64_tape o .b tid x xiLo xiHi y yiLo yiHi s
  | newIndex tid activityAnalysis i1 i2 d1 d2 value => exact hone tid _
  | mark tid value => exact hone tid _
  | disable tid plus minus => exact absurd rfl (hc tid plus minus)

/-- The calls whose statements can be kept in step with their values: all of
them if `--typegrind` is off, else those without any statement. -/
def BarCall.InStep (o : TapeOptions) (c : BarCall) : Prop :=
  o.typegrind = false ∨ c.requests = []

/-- **One call** records the statements it is meant to record. -/
theorem BarCall.exec_spec {o : TapeOptions} (hval : o.barRecordValues = true) {c : BarCall}
    (hc : c.InStep o) {s : BarState} {rs : List Request} (h : ValuesInv s.tape rs) {n : ℕ}
    (hroom : s.tape.Room o n) (hn : (rs ++ c.requests.filter
      (Request.records o (s.tape.dgDisable c.tid))).length + 1 ≤ n) :
    ∃ s', c.exec o s = some s' ∧ s'.tape.dgDisable = c.counters s.tape.dgDisable ∧
      s'.tape.Room o n ∧ ValuesInv s'.tape
        (rs ++ c.requests.filter (Request.records o (s.tape.dgDisable c.tid))) := by
  by_cases hdis : ∃ tid plus minus, c = .disable tid plus minus
  · obtain ⟨tid, plus, minus, rfl⟩ := hdis
    refine ⟨_, rfl, rfl, hroom, ?_⟩
    simp only [requests, List.filter_nil, List.append_nil]
    exact ⟨⟨h.tape.size, h.tape.holds, h.tape.next, h.tape.bytes⟩, h.size, h.holds⟩
  · have hne : ∀ tid plus minus, c ≠ .disable tid plus minus := by
      intro tid plus minus heq
      exact hdis ⟨tid, plus, minus, heq⟩
    have hcount : c.counters s.tape.dgDisable = s.tape.dgDisable := by
      cases c with
      | disable tid plus minus => exact absurd rfl (hne tid plus minus)
      | _ => rfl
    have htape := c.exec_tape o s hne
    have hrun : ∃ t, performRequests o c.tid c.requests s.tape = some t ∧
        t.dgDisable = s.tape.dgDisable ∧ t.Room o n ∧
        ValuesInv t (rs ++ c.requests.filter (Request.records o (s.tape.dgDisable c.tid))) := by
      rcases hc with htype | hnone
      · exact performRequests_spec htype hval c.tid c.requests s.tape rs h hroom hn
      · exact ⟨s.tape, by rw [hnone]; rfl, rfl, hroom, by simpa [hnone] using h⟩
    obtain ⟨t, ht, htdis, hroom', hinv⟩ := hrun
    rw [ht, Option.map_eq_some_iff] at htape
    obtain ⟨s', hs', rfl⟩ := htape
    exact ⟨s', hs', by rw [htdis, hcount], hroom', hinv⟩

/-- **A run** records the statements it is meant to record. -/
theorem runBarCalls_spec {o : TapeOptions} (hval : o.barRecordValues = true) {n : ℕ} :
    ∀ (cs : List BarCall) (s : BarState) (rs : List Request), (∀ c ∈ cs, c.InStep o) →
    ValuesInv s.tape rs → s.tape.Room o n →
    (rs ++ recordedRequests o s.tape.dgDisable cs).length + 1 ≤ n →
    ∃ s', runBarCalls o cs s = some s' ∧
      ValuesInv s'.tape (rs ++ recordedRequests o s.tape.dgDisable cs) := by
  intro cs
  induction cs with
  | nil => intro s rs _ h _ _; exact ⟨s, rfl, by simpa [recordedRequests] using h⟩
  | cons c cs ih =>
    intro s rs hcs h hroom hn
    rw [recordedRequests, ← List.append_assoc] at hn ⊢
    have hfirst : (rs ++ c.requests.filter
        (Request.records o (s.tape.dgDisable c.tid))).length + 1 ≤ n := by
      rw [List.length_append] at hn
      omega
    obtain ⟨s₁, hexec, hdis, hroom₁, hinv⟩ :=
      BarCall.exec_spec hval (hcs c List.mem_cons_self) h hroom hfirst
    rw [← hdis] at hn ⊢
    obtain ⟨s', hrun, hinv'⟩ :=
      ih s₁ _ (fun d hd => hcs d (List.mem_cons_of_mem c hd)) hinv hroom₁ hn
    exact ⟨s', by simp [runBarCalls, hexec, hrun], hinv'⟩

/-- **The values file is aligned with the tape**, whatever the callers do in
whatever order, if `--typegrind` is off or the calls have no tape statements.  With
`--tape-in-ram`, the blocks of the run and the zero block must not fill the buffer. -/
theorem barSession_aligned (o : TapeOptions) (hval : o.barRecordValues = true)
    (calls : List BarCall) (hcalls : ∀ c ∈ calls, o.typegrind = false ∨ c.requests = [])
    (hram : o.tapeInRam = false ∨ (recordedRequests o (fun _ => 0) calls).length + 1 < BUFSIZE) :
    Aligned o calls := by
  have hroom : dgBarTapeInitialize.Room o ((recordedRequests o (fun _ => 0) calls).length + 1) :=
    hram.imp id fun hlt => ⟨rfl, hlt⟩
  obtain ⟨s, hrun, hinv⟩ := runBarCalls_spec hval calls initialBarState [] hcalls
    valuesInv_initial hroom (by rw [List.nil_append]; exact Nat.le_refl _)
  rw [List.nil_append] at hinv
  change ValuesInv s.tape (recordedRequests o (fun _ => 0) calls) at hinv
  obtain ⟨s', hfin, hfd, hfv⟩ := dgBarTapeFinalize_spec o hinv.tape.size hinv.size
  refine ⟨s'.fdTape, s'.fdValues, by simp [barSession, hrun, hfin], fun hct hcv => ?_⟩
  obtain ⟨hcs, hwords⟩ := hinv.tape.finalize hfd hct
  refine ⟨hwords, ?_⟩
  have hlen := hinv.tape.next hcs
  have hflat : ∀ l : List Request, ([0] :: l.map fun r => [r.value]).flatten
      = 0 :: l.map Request.value := by
    intro l
    induction l with
    | nil => rfl
    | cons r l ih => simpa using ih
  rw [← hflat]
  rw [hfv hval] at hcv ⊢
  -- the last chunk is written together with the one of the tape
  by_cases h0 : 0 < s.tape.nextindex.toNat % BUFSIZE
  · rw [if_pos h0] at hcv ⊢
    obtain ⟨hw, hcvs, -⟩ := OutFile.write_of_complete hcv
    rw [hw, ← (hinv.holds hcs hcvs).finish, hlen, Nat.one_mul]
    simp
  · rw [if_neg h0] at hcv ⊢
    have hmod : ([0] :: (recordedRequests o (fun _ => 0) calls).map
        fun r => [r.value]).length % BUFSIZE = 0 := by
      rw [hlen] at h0
      simpa using h0
    rw [← (hinv.holds hcs hcv).finish, hmod]
    simp

/-- Recording with values. -/
def valuesOptions : TapeOptions := ⟨false, true, false, none⟩

/-- Two inputs, their sum, a negation of it by `xor`, and a disabled operation. -/
def sumAndNegation : List BarCall :=
  [.newIndex 1 false 0 0 0 0 0x3FF0000000000000#64, .mark 1 0x4000000000000000#64,
    .writeToTape 1 1 0 2 0 0x3FF0000000000000#64 0x3FF0000000000000#64 0x4008000000000000#64,
    .bitwise 1 .xor 0x4008000000000000#64 3 0 0x8000000000000000#64 0 0,
    .disable 1 1 0, .writeToTape 1 1 0 2 0 0 0 7]

/-- The theorem applies to `sumAndNegation`. -/
theorem barSession_aligned_sumAndNegation :
    (∀ c ∈ sumAndNegation, valuesOptions.typegrind = false ∨ c.requests = []) ∧
      Aligned valuesOptions sumAndNegation ∧
      (recordedRequests valuesOptions (fun _ => 0) sumAndNegation).map Request.value
        = [0x3FF0000000000000#64, 0x4000000000000000#64, 0x4008000000000000#64,
          0xC008000000000000#64] :=
  ⟨fun _ _ => .inl rfl,
    barSession_aligned valuesOptions rfl sumAndNegation (fun _ _ => .inl rfl) (.inl rfl),
    by decide +kernel⟩

/-- **With `--typegrind=yes`, the values of recorded blocks are lost**: a single
`NEW_INDEX_NOACTIVITYANALYSIS` request for the value one leaves a zero in the
values file. -/
theorem not_aligned_typegrind :
    ¬ Aligned ⟨true, true, false, none⟩ [.newIndex 1 false 0 0 0 0 0x3FF0000000000000#64] := by
  rintro ⟨tape, values, hsession, hfiles⟩
  have hrun : (barSession ⟨true, true, false, none⟩
      [.newIndex 1 false 0 0 0 0 0x3FF0000000000000#64]).map
        (fun p => (p.1.complete, p.2.complete, p.2.words)) = some (true, true, [0, 0]) := by
    decide +kernel
  rw [hsession] at hrun
  simp only [Option.map_some, Option.some.injEq, Prod.mk.injEq] at hrun
  obtain ⟨hct, hcv, hwords⟩ := hrun
  have hvalues := (hfiles hct hcv).2
  rw [hwords] at hvalues
  exact absurd hvalues (by decide +kernel)

end Derivgrind
