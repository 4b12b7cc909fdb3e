import Derivgrind.Tape.Main

/-!
# The statistics of the tape of a program

The blocks on the tape of a program are those of its statements, except for operations without
active operands if there is activity analysis.  The option `--stats` counts them by the number
of active operands.

## Main definitions

* `programActivity` — the variables of a program that have an index.
* `Statement.operandCount`, `recordedCount` — statements by the number of active operands.

## Main results

* `recordProgram_counts` — the blocks after a run.
* `tapeEvaluationMain_stats` — **the statistics that are printed** for the tape of a program.
-/

namespace Derivgrind

open ChunkedLog

/-! ### Activity -/

/-- Whether an operand has an index, given the variables that have one so far. -/
def Operand.active (acts : List Bool) : Operand → Bool
  | .const => false
  | .var k => acts.getD k false

/-- The number of operands that have an index. -/
def Statement.operandCount (acts : List Bool) : Statement → ℕ
  | .input _ => 0
  | .operation x y _ _ _ => (x.active acts).toNat + (y.active acts).toNat
  | .output x _ => (x.active acts).toNat

/-- Whether a statement is recorded. -/
def Statement.isRecorded (activityAnalysis : Bool) (acts : List Bool) : Statement → Bool
  | .operation x y dx dy value =>
      !activityAnalysis || (Statement.operation x y dx dy value).operandCount acts ≠ 0
  | _ => true

/-- The variables that have an index, computed without a tape. -/
def programActivity (activityAnalysis : Bool) (sts : List Statement) : List Bool :=
  sts.foldl (fun acts st => acts ++ [st.isRecorded activityAnalysis acts]) []

/-- The number of statements with a property that may depend on the activity of variables. -/
def countStatements (activityAnalysis : Bool) (p : List Bool → Statement → Bool)
    (sts : List Statement) : ℕ :=
  (sts.foldl (fun s st => (s.1 ++ [st.isRecorded activityAnalysis s.1],
    s.2 + if p s.1 st = true then 1 else 0)) (([] : List Bool), 0)).2

/-- The number of recorded statements with `c` active operands. -/
def recordedCount (activityAnalysis : Bool) (c : ℕ) : List Statement → ℕ :=
  countStatements activityAnalysis fun acts st =>
    st.isRecorded activityAnalysis acts && st.operandCount acts = c

/-- The number of outputs that do not depend on an input. -/
def constantOutputs : List Statement → ℕ :=
  countStatements true fun acts st => st.isOutput && st.operandCount acts = 0

section Fold

variable (activityAnalysis : Bool) (p : List Bool → Statement → Bool) (sts : List Statement)
  (st : Statement)

theorem programActivity_concat :
    programActivity activityAnalysis (sts ++ [st]) = programActivity activityAnalysis sts
      ++ [st.isRecorded activityAnalysis (programActivity activityAnalysis sts)] := by
  rw [programActivity, List.foldl_append]
  rfl

@[simp] theorem length_programActivity :
    (programActivity activityAnalysis sts).length = sts.length := by
  induction sts using List.reverseRecOn with
  | nil => rfl
  | append_singleton sts st ih => simp [programActivity_concat, ih]

/-- The fold of `countStatements` computes the activity, too. -/
theorem foldl_countStatements :
    sts.foldl (fun s st => (s.1 ++ [st.isRecorded activityAnalysis s.1],
      s.2 + if p s.1 st = true then 1 else 0)) (([] : List Bool), 0)
      = (programActivity activityAnalysis sts, countStatements activityAnalysis p sts) := by
  refine Prod.ext ?_ rfl
  induction sts using List.reverseRecOn with
  | nil => rfl
  | append_singleton sts st ih =>
    rw [List.foldl_append, List.foldl_cons, List.foldl_nil, ih, programActivity_concat]

theorem countStatements_concat :
    countStatements activityAnalysis p (sts ++ [st]) = countStatements activityAnalysis p sts
      + if p (programActivity activityAnalysis sts) st = true then 1 else 0 := by
  rw [countStatements, List.foldl_append, foldl_countStatements]
  rfl

/-- **Blocks without operands** are those of inputs and of outputs that do not depend on an
input, if there is activity analysis. -/
theorem recordedCount_zero :
    recordedCount true 0 sts = sts.countP Statement.isInput + constantOutputs sts := by
  induction sts using List.reverseRecOn with
  | nil => rfl
  | append_singleton sts st ih =>
    rw [recordedCount] at ih ⊢
    rw [constantOutputs] at ih ⊢
    rw [countStatements_concat, countStatements_concat, ih, List.countP_append,
      List.countP_singleton]
    cases st with
    | input value =>
      simp only [Statement.isRecorded, Statement.isInput, Statement.isOutput,
        Statement.operandCount, Bool.true_and, Bool.false_and, decide_true, if_true,
        Bool.false_eq_true, if_false]
      omega
    | output x value =>
      simp only [Statement.isRecorded, Statement.isInput, Statement.isOutput, Bool.true_and,
        Bool.false_eq_true, if_false]
      omega
    | operation x y dx dy value =>
      -- an operation without active operands is not recorded
      simp [Statement.isRecorded, Statement.isInput, Statement.isOutput]

end Fold

/-! ### The blocks of a recording -/

/-- The number of operands in a block that are not zero. -/
def blockOperandCount : List ULong → ℕ
  | [index1, index2, _, _] => (if index1 = 0 then 0 else 1) + (if index2 = 0 then 0 else 1)
  | _ => 0

/-- Variables have an index if they are active, and the blocks are those of the recorded
statements and the zero block. -/
structure CountInv (activityAnalysis : Bool) (sts : List Statement) (indices : List ULong)
    (log : List (List ULong)) : Prop where
  length : indices.length = sts.length
  active : ∀ k, (programActivity activityAnalysis sts).getD k false = true ↔ indices.getD k 0 ≠ 0
  counts : ∀ c, log.countP (fun block => blockOperandCount block = c)
    = (if c = 0 then 1 else 0) + recordedCount activityAnalysis c sts

theorem countInv_initial (activityAnalysis : Bool) :
    CountInv activityAnalysis [] [] [zeroBlock] where
  length := rfl
  active k := by simp [programActivity]
  counts c := by
    have hcount : blockOperandCount zeroBlock = 0 := by decide
    rw [List.countP_cons, List.countP_nil, hcount, Nat.zero_add]
    have hzero : 0 = c ↔ c = 0 := eq_comm
    simp only [decide_eq_true_eq, hzero]
    exact (Nat.add_zero _).symm

section Step

variable {activityAnalysis : Bool} {sts : List Statement} {indices : List ULong}
  {log : List (List ULong)}

/-- An operand is active if it has an index. -/
theorem CountInv.operand_active (h : CountInv activityAnalysis sts indices log) (x : Operand) :
    x.active (programActivity activityAnalysis sts) = true ↔ x.index indices ≠ 0 := by
  cases x with
  | const => simp [Operand.active, Operand.index]
  | var k => exact h.active k

/-- The block of a statement has its active operands. -/
theorem CountInv.blockOperandCount (h : CountInv activityAnalysis sts indices log)
    (st : Statement) :
    blockOperandCount (st.request activityAnalysis indices).block
      = st.operandCount (programActivity activityAnalysis sts) := by
  have hoperand : ∀ x : Operand, (if x.index indices = 0 then 0 else 1)
      = (x.active (programActivity activityAnalysis sts)).toNat := by
    intro x
    cases hx : x.active (programActivity activityAnalysis sts) with
    | true => rw [if_neg ((h.operand_active x).mp hx)]; rfl
    | false =>
      rw [if_pos]
      · rfl
      · by_contra hne
        rw [(h.operand_active x).mpr hne] at hx
        cases hx
  cases st with
  | input value => rfl
  | operation x y dx dy value =>
    simp only [Statement.request, Request.block, Derivgrind.blockOperandCount, hoperand,
      Statement.operandCount]
  | output x value =>
    simp only [Statement.request, Request.block, Derivgrind.blockOperandCount, hoperand,
      Statement.operandCount, if_true, Nat.add_zero]

/-- With activity analysis, an operation is recorded if it has an active operand. -/
theorem not_recorded_iff (activityAnalysis x y : Bool) :
    (activityAnalysis = true ∧ ¬x = true ∧ ¬y = true) ↔
      ¬(!activityAnalysis || decide (x.toNat + y.toNat ≠ 0)) = true := by
  cases activityAnalysis <;> cases x <;> cases y <;> decide

/-- A statement has a block if it is recorded. -/
theorem CountInv.blocks_eq (h : CountInv activityAnalysis sts indices log) (st : Statement) :
    (st.request activityAnalysis indices).blocks
      = if st.isRecorded activityAnalysis (programActivity activityAnalysis sts) = true then
          [(st.request activityAnalysis indices).block] else [] := by
  cases st with
  | input value => rfl
  | output x value => rfl
  | operation x y dx dy value =>
    have hx : x.index indices = 0 ↔ ¬x.active (programActivity activityAnalysis sts) = true := by
      rw [h.operand_active x, not_not]
    have hy : y.index indices = 0 ↔ ¬y.active (programActivity activityAnalysis sts) = true := by
      rw [h.operand_active y, not_not]
    have hcount : activityAnalysis = true ∧ x.index indices = 0 ∧ y.index indices = 0 ↔
        ¬(Statement.operation x y dx dy value).isRecorded activityAnalysis
          (programActivity activityAnalysis sts) = true := by
      rw [hx, hy]
      exact not_recorded_iff _ _ _
    rw [← ite_not]
    simp only [← hcount]
    rfl

/-- **One statement.** -/
theorem CountInv.step (h : CountInv activityAnalysis sts indices log) (hpos : 0 < log.length)
    (hlog : log.length < 2 ^ 63) (st : Statement) {index : ULong}
    (hindex : index = if (st.request activityAnalysis indices).blocks = [] then 0
      else BitVec.ofNat 64 log.length) :
    CountInv activityAnalysis (sts ++ [st]) (indices ++ [index])
      (log ++ (st.request activityAnalysis indices).blocks) := by
  have hnonzero : BitVec.ofNat 64 log.length ≠ 0 := by
    intro hzero
    have htoNat := congrArg BitVec.toNat hzero
    rw [BitVec.toNat_ofNat, Nat.mod_eq_of_lt (by omega)] at htoNat
    exact hpos.ne' htoNat
  have hrecorded := h.blocks_eq st
  refine ⟨by simp [h.length], fun k => ?_, fun c => ?_⟩
  · rw [programActivity_concat]
    rcases Nat.lt_trichotomy k sts.length with hlt | rfl | hgt
    · rw [List.getD_append _ _ _ _ (by simpa using hlt),
        List.getD_append _ _ _ _ (by rw [h.length]; exact hlt)]
      exact h.active k
    · rw [List.getD_append_right _ _ _ _ (by simp), List.getD_append_right _ _ _ _ (by simp [h.length]),
        length_programActivity, h.length, Nat.sub_self, List.getD_cons_zero, List.getD_cons_zero,
        hindex, hrecorded]
      split <;> simp_all
    · rw [List.getD_eq_default _ _ (by simp; omega), List.getD_eq_default _ _ (by simp [h.length]; omega)]
      simp
  · rw [List.countP_append, h.counts, recordedCount, countStatements_concat, hrecorded, Nat.add_assoc]
    congr 2
    split
    · next hrec => simp [h.blockOperandCount st, hrec]
    · next hrec => simp [hrec]

end Step

/-! ### Runs -/

/-- The index that a statement returns. -/
theorem ProgramInv.index_eq {o : TapeOptions} (htype : o.typegrind = false)
    (hram : o.tapeInRam = false) {tid : ThreadId} {s s' : TapeState} {activityAnalysis : Bool}
    {sts : List Statement} {indices : List ULong} {log : List (List ULong)}
    (h : ProgramInv tid s activityAnalysis sts indices log) (st : Statement) {index : ULong}
    (hs' : (st.request activityAnalysis indices).perform o tid s = some (index, s'))
    (hcomplete : s'.fdTape.complete = true) :
    s.fdTape.complete = true ∧ index = if (st.request activityAnalysis indices).blocks = [] then 0
      else BitVec.ofNat 64 log.length := by
  obtain ⟨s'', hs'', -, -, happ, -⟩ :=
    Request.perform_enabled htype (st.request activityAnalysis indices) h.allocated h.enabled
  rw [hs'] at hs''
  obtain ⟨rfl, rfl⟩ := Prod.mk.inj (Option.some.inj hs'')
  have hc := (happ.2 hram log h.tape).2 hcomplete
  have hnext : s.nextindex = BitVec.ofNat 64 log.length := by
    apply BitVec.eq_of_toNat_eq
    have hlt := h.tape.length_lt_half hc
    rw [h.tape.next hc, BitVec.toNat_ofNat, Nat.mod_eq_of_lt (by omega)]
  refine ⟨hc, ?_⟩
  unfold Request.newIndex Request.blocks
  split <;> simp [hnext]

/-- **The blocks after a run.** -/
theorem recordProgram_counts {o : TapeOptions} (htype : o.typegrind = false)
    (hram : o.tapeInRam = false) (tid : ThreadId) (activityAnalysis : Bool)
    (sts' sts : List Statement) (indices : List ULong) (log : List (List ULong)) (s : TapeState)
    (h : ProgramInv tid s activityAnalysis sts indices log)
    (hcount : s.fdTape.complete = true → CountInv activityAnalysis sts indices log) :
    ∃ indices' s' log', recordProgram o tid activityAnalysis sts' indices s = some (indices', s') ∧
      ProgramInv tid s' activityAnalysis (sts ++ sts') indices' log' ∧
      (s'.fdTape.complete = true → CountInv activityAnalysis (sts ++ sts') indices' log') := by
  induction sts' generalizing sts indices log s with
  | nil =>
    rw [List.append_nil]
    exact ⟨indices, s, log, rfl, h, hcount⟩
  | cons st sts' ih =>
    obtain ⟨index, s₁, hs₁, h₁⟩ := h.perform htype hram st
    have hcount₁ : s₁.fdTape.complete = true → CountInv activityAnalysis (sts ++ [st])
        (indices ++ [index]) (log ++ (st.request activityAnalysis indices).blocks) := by
      intro hc₁
      obtain ⟨hc, hindex⟩ := h.index_eq htype hram st hs₁ hc₁
      have hpos : 0 < log.length := (List.getElem?_eq_some_iff.mp (h.recorded hc).first).1
      exact (hcount hc).step hpos (h.tape.length_lt_half hc) st hindex
    obtain ⟨indices', s', log', hrun, h', hcount'⟩ := ih _ _ _ _ h₁ hcount₁
    rw [List.append_assoc] at h' hcount'
    refine ⟨indices', s', log', ?_, h', hcount'⟩
    rw [recordProgram, hs₁]
    exact hrun

/-- **The tape of a program** has the blocks of the recorded statements and the zero block. -/
theorem programSession_counts {o : TapeOptions} (htype : o.typegrind = false)
    (hram : o.tapeInRam = false) (tid : ThreadId) (activityAnalysis : Bool)
    (sts : List Statement) :
    ∃ indices file, programSession o tid activityAnalysis sts = some (indices, file) ∧
      (file.complete = true → ∃ log, file.words = log.flatten ∧ (∀ block ∈ log, block.length = 4) ∧
        CountInv activityAnalysis sts indices log) := by
  obtain ⟨indices, s, log, hrun, hinv, hcount⟩ := recordProgram_counts htype hram tid
    activityAnalysis sts [] [] [zeroBlock] dgBarTapeInitialize
    (programInv_initial tid activityAnalysis) fun _ => countInv_initial activityAnalysis
  obtain ⟨s', hs', hfile, -⟩ :=
    dgBarTapeFinalize_spec o hinv.allocated.tape hinv.allocated.values
  refine ⟨indices, s'.fdTape, ?_, fun hcomplete => ?_⟩
  · simp only [programSession, hrun, hs', Option.bind_eq_bind, Option.bind_some]
  · obtain ⟨hc, hwords⟩ := hinv.tape.finalize hfile hcomplete
    exact ⟨log, hwords, (hinv.tape.holds hc).width, hcount hc⟩

/-! ### The statistics -/

/-- The blocks that are counted. -/
theorem operandCount_decodeBlock {R : Type} [CommRing R] (dec : ULong → R) {block : List ULong}
    (hblock : block.length = 4) :
    (decodeBlock dec block).operandCount = blockOperandCount block := by
  match block, hblock with
  | [index1, index2, diff1, diff2], _ => rfl

/-- The line with the statistics of the tape of a program. -/
def programStatsLine (activityAnalysis : Bool) (sts : List Statement) : List Char :=
  Nat.toDigits 10 (1 + recordedCount activityAnalysis 0 sts) ++
    ' ' :: Nat.toDigits 10 (recordedCount activityAnalysis 1 sts) ++
    ' ' :: Nat.toDigits 10 (recordedCount activityAnalysis 2 sts) ++ ['\n']

/-- **The statistics of the tape of a program.**  The program `tape-evaluation` prints how many
of the statements have been recorded with no, one and two active operands, and counts the zero
block as well.  With activity analysis, the blocks without operands are the zero block, the
inputs, and the outputs that do not depend on an input. -/
theorem tapeEvaluationMain_stats (o : TapeOptions) (htype : o.typegrind = false)
    (hram : o.tapeInRam = false) (tid : ThreadId) (activityAnalysis : Bool)
    (sts : List Statement) :
    (∃ indices file, programSession o tid activityAnalysis sts = some (indices, file) ∧
      (file.complete = true → ∀ (R : Type) [CommRing R] [DecidableEq R] (d : MainEnv R)
        (disk : DataFile) (program path : String) (fuel : ℕ) (tapeBuf : Buf (Block R)),
        disk.words = file.words → d.binaries (path ++ "/dg-tape") = some disk →
        tapeBuf.size = 100 →
        tapeEvaluationMain d fuel tapeBuf [program, path, "--stats"]
          = pure (.printed (programStatsLine activityAnalysis sts)))) ∧
    recordedCount true 0 sts = sts.countP Statement.isInput + constantOutputs sts := by
  refine ⟨?_, recordedCount_zero sts⟩
  obtain ⟨indices, file, hrun, hspec⟩ :=
    programSession_counts htype hram tid activityAnalysis sts
  refine ⟨indices, file, hrun, fun hcomplete => ?_⟩
  intro R _ _ d disk program path fuel tapeBuf hdisk hfile hbuf
  obtain ⟨log, hwords, hwidth, hcount⟩ := hspec hcomplete
  obtain ⟨t, ht⟩ : ∃ t, t = Tapefile.ofFile d.dec disk := ⟨_, rfl⟩
  -- the tape consists of the blocks that were recorded
  have htape : t.tape = log.map (decodeBlock d.dec) := by
    rw [ht, Tapefile.ofFile_tape, hdisk, hwords, decodeBlocks_flatten d.dec log hwidth]
  have hblocks : ∀ c, t.tape.countP (fun block => block.operandCount = c)
      = (if c = 0 then 1 else 0) + recordedCount activityAnalysis c sts := by
    intro c
    rw [← hcount.counts c, htape, List.countP_map]
    refine List.countP_congr fun block hblock => ?_
    rw [Function.comp_apply, operandCount_decodeBlock d.dec (hwidth block hblock)]
  have hlength : ∀ c, (if c = 0 then 1 else 0) + recordedCount activityAnalysis c sts
      < 2 ^ 64 := by
    intro c
    have hle := (t.tape).countP_le_length (p := fun block => block.operandCount = c)
    have hsize := t.length_lt
    rw [← t.length_tape] at hsize
    rw [hblocks c] at hle
    omega
  have hsize : tapeBuf.size = t.bufsize.toNat := by
    rw [ht, hbuf]
    rfl
  have hstats := t.stats_eq hsize
  simp only [hblocks] at hstats
  have hprint : statsLine ⟨BitVec.ofNat 64 (1 + recordedCount activityAnalysis 0 sts),
      BitVec.ofNat 64 (recordedCount activityAnalysis 1 sts),
      BitVec.ofNat 64 (recordedCount activityAnalysis 2 sts)⟩
      = programStatsLine activityAnalysis sts := by
    have h0 := hlength 0
    have h1 := hlength 1
    have h2 := hlength 2
    simp only [if_true, Nat.one_ne_zero, if_false, Nat.zero_add, OfNat.ofNat_ne_zero] at h0 h1 h2
    simp only [statsLine, programStatsLine, BitVec.toNat_ofNat, Nat.mod_eq_of_lt h0,
      Nat.mod_eq_of_lt h1, Nat.mod_eq_of_lt h2]
  rw [tapeEvaluationMain, hfile]
  simp only [List.head?_cons, evaluateTape, if_true, ← ht, hstats]
  rw [← hprint]
  simp
  rfl

/-- The environment in which the only file is the given one. -/
def diskEnv (disk : DataFile) : MainEnv ℤ where
  files _ := none
  strtod _ := (0, true)
  put x := (toString x).toList
  ullData _ := 0
  doubleData _ := 0
  binaries _ := some disk
  dec x := x.toInt
  scientific x := (toString x).toList

/-- The theorem applies to `constantsProgram`, of which one operation and the output have an
active operand. -/
theorem tapeEvaluationMain_stats_constantsProgram :
    ∃ (file : OutFile) (disk : DataFile),
      programSession plainOptions 1 true constantsProgram = some ([0, 1, 2, 0, 3], file) ∧
      disk.words = file.words ∧
      tapeEvaluationMain (diskEnv disk) 0 (Buf.fill 100 ⟨0, 0, 0, 0⟩)
        ["tape-evaluation", "path", "--stats"] = pure (.printed ['2', ' ', '2', ' ', '0', '\n']) := by
  obtain ⟨⟨indices, file, hrun, h⟩, -⟩ :=
    tapeEvaluationMain_stats plainOptions rfl rfl 1 true constantsProgram
  have hindices : (programSession plainOptions 1 true constantsProgram).map
      (fun r => (r.1, r.2.complete, decide (8 * r.2.words.length ≤ maxFileSize)))
        = some ([0, 1, 2, 0, 3], true, true) := by decide +kernel
  rw [hrun, Option.map_some, Option.some_inj] at hindices
  obtain ⟨rfl, hc⟩ := Prod.mk.inj hindices
  obtain ⟨hc, hsize⟩ := Prod.mk.inj hc
  refine ⟨file, ⟨file.words, of_decide_eq_true hsize⟩, hrun, rfl, ?_⟩
  have hline : programStatsLine true constantsProgram = ['2', ' ', '2', ' ', '0', '\n'] := by
    decide
  rw [← hline]
  exact h hc ℤ _ _ "tape-evaluation" "path" 0 _ rfl rfl rfl

end Derivgrind
