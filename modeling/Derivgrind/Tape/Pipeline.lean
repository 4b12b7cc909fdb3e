import Derivgrind.Tape.Main

/-!
# From the recording to the files with derivatives

A program is recorded with `DG_INPUTF` and `DG_OUTPUTF`, so the recording directory has the tape
and the files with the indices of inputs and outputs.  The user adds a file with dot values of
the inputs, or with bar values of the outputs, and runs `tape-evaluation`.

## Main definitions

* `recordWithFiles`, `recordingSession` — the recording of a program with its index files.
* `Recording.OnDisk` — the contents of the recording directory.
* `positions`, `spread` — the inputs or outputs of a program, and derivatives that are listed in
  this order.

## Main results

* `recordingSession_spec` — the index files have the indices of all inputs and outputs.
* `forwardPipeline` — **the forward evaluation** writes the derivatives of the outputs.
* `reversePipeline` — **the reverse evaluation** writes the gradients.
* `pipelines_dual` — both evaluations belong to the same matrix.
-/

namespace Derivgrind

open ChunkedLog TextStream Tapefile

/-! ### Recording with index files -/

/-- `Dg_Indexfile`. -/
inductive IndexFile
  | input
  | output
  deriving DecidableEq, Repr

/-- The files `dg-input-indices` and `dg-output-indices`. -/
structure IndexFiles where
  inputIndices : List Char
  outputIndices : List Char
  deriving DecidableEq, Repr

/-- `VG_USERREQ__INDEX_TO_FILE`. -/
def IndexFiles.add (files : IndexFiles) (index : ULong) : IndexFile → IndexFiles
  | .input => { files with inputIndices := files.inputIndices ++ indexLine index }
  | .output => { files with outputIndices := files.outputIndices ++ indexLine index }

/-- The file to which `DG_INPUTF` and `DG_OUTPUTF` write the new index. -/
def Statement.indexFile : Statement → Option IndexFile
  | .input _ => some .input
  | .operation .. => none
  | .output _ _ => some .output

/-- The index files after a statement. -/
def IndexFiles.after (files : IndexFiles) (st : Statement) (index : ULong) : IndexFiles :=
  (st.indexFile.map (files.add index)).getD files

/-- Record a program with its index files. -/
def recordWithFiles (o : TapeOptions) (tid : ThreadId) (activityAnalysis : Bool) :
    List Statement → List ULong → IndexFiles → TapeState →
      Option (List ULong × IndexFiles × TapeState)
  | [], indices, files, s => some (indices, files, s)
  | st :: sts, indices, files, s => do
      let (index, s) ← (st.request activityAnalysis indices).perform o tid s
      recordWithFiles o tid activityAnalysis sts (indices ++ [index]) (files.after st index) s

/-- What is in the recording directory. -/
structure Recording where
  tape : OutFile
  files : IndexFiles

/-- A whole recording, beginning with empty files. -/
def recordingSession (o : TapeOptions) (tid : ThreadId) (activityAnalysis : Bool)
    (sts : List Statement) : Option Recording := do
  let (_, files, s) ← recordWithFiles o tid activityAnalysis sts [] ⟨[], []⟩ dgBarTapeInitialize
  let s' ← dgBarTapeFinalize o s
  some ⟨s'.fdTape, files⟩

/-- The recording directory, as the evaluation finds it. -/
structure Recording.OnDisk {R : Type} (rec : Recording) (d : MainEnv R) (path : String) : Prop where
  tape : (d.binaries (path ++ "/dg-tape")).map DataFile.words = some rec.tape.words
  inputs : d.files (path ++ "/dg-input-indices") = some rec.files.inputIndices
  outputs : d.files (path ++ "/dg-output-indices") = some rec.files.outputIndices

/-! ### Inputs and outputs -/

/-- The statements of a kind. -/
def positions (kind : Statement → Bool) (sts : List Statement) : List ℕ :=
  (List.range sts.length).filter fun k => sts[k]?.any kind

/-- Derivatives that are listed in the order of the statements of a kind. -/
def spread {R : Type} [Zero R] (kind : Statement → Bool) (sts : List Statement) (values : List R)
    (k : ℕ) : R :=
  values.getD ((sts.take k).countP kind) 0

section Positions

variable (kind : Statement → Bool) (sts : List Statement)

theorem positions_concat (st : Statement) :
    positions kind (sts ++ [st])
      = positions kind sts ++ if kind st = true then [sts.length] else [] := by
  have hold : (List.range sts.length).filter (fun k => (sts ++ [st])[k]?.any kind)
      = positions kind sts := by
    refine List.filter_congr fun k hk => ?_
    rw [List.getElem?_append_left (List.mem_range.mp hk)]
  rw [positions, List.length_append, List.length_singleton, List.range_succ, List.filter_append,
    hold]
  congr 1
  simp only [List.filter_singleton, List.getElem?_append_right (Nat.le_refl _), Nat.sub_self,
    List.getElem?_cons_zero, Option.any_some]
  cases kind st <;> rfl

theorem lt_of_mem_positions {k : ℕ} (hk : k ∈ positions kind sts) : k < sts.length :=
  List.mem_range.mp (List.mem_filter.mp hk).1

theorem kind_of_mem_positions {k : ℕ} (hk : k ∈ positions kind sts) :
    sts[k]?.any kind = true :=
  (List.mem_filter.mp hk).2

/-- Statements of a kind are numbered in order. -/
theorem map_countP_positions :
    (positions kind sts).map (fun k => (sts.take k).countP kind)
      = List.range (sts.countP kind) := by
  induction sts using List.reverseRecOn with
  | nil => rfl
  | append_singleton sts st ih =>
    have hold : (positions kind sts).map (fun k => ((sts ++ [st]).take k).countP kind)
        = (positions kind sts).map fun k => (sts.take k).countP kind := by
      refine List.map_congr_left fun k hk => ?_
      rw [List.take_append_of_le_length (le_of_lt (lt_of_mem_positions kind sts hk))]
    rw [positions_concat, List.map_append, hold, ih, List.countP_append, List.countP_singleton]
    split
    · rw [List.range_succ, List.map_singleton, List.take_append_of_le_length (Nat.le_refl _),
        List.take_length]
    · rw [List.map_nil, List.append_nil, Nat.add_zero]

theorem length_positions : (positions kind sts).length = sts.countP kind := by
  have hlength := congrArg List.length (map_countP_positions kind sts)
  rwa [List.length_map, List.length_range] at hlength

/-- The derivatives in the order of the statements. -/
theorem map_spread_positions {R : Type} [Zero R] {values : List R}
    (hvalues : values.length = sts.countP kind) :
    (positions kind sts).map (spread kind sts values) = values := by
  have hmap : (positions kind sts).map (spread kind sts values)
      = ((positions kind sts).map fun k => (sts.take k).countP kind).map fun c =>
        values.getD c 0 := by
    rw [List.map_map]
    rfl
  rw [hmap, map_countP_positions, ← hvalues]
  refine List.ext_getElem (by simp) fun i h₁ h₂ => ?_
  rw [List.getElem_map, List.getElem_range, List.getD_eq_getElem _ _ h₂]

/-- A sum over the statements of a kind. -/
theorem sum_positions {R : Type} [CommRing R] (f : ℕ → R) :
    ((positions kind sts).map f).sum
      = ∑ k ∈ Finset.range sts.length, if sts[k]?.any kind = true then f k else 0 := by
  rw [positions]
  generalize sts.length = n
  induction n with
  | zero => rfl
  | succ n ih =>
    rw [List.range_succ, List.filter_append, List.map_append, List.sum_append, ih,
      Finset.sum_range_succ, List.filter_singleton]
    congr 1
    split <;> simp_all

end Positions

/-! ### The index files -/

/-- The indices of the statements of a kind. -/
def kindIndices (kind : Statement → Bool) (sts : List Statement) (indices : List ULong) :
    List ULong :=
  (positions kind sts).map fun k => indices.getD k 0

/-- The lines of the index files. -/
def indexFilesOf (sts : List Statement) (indices : List ULong) : IndexFiles :=
  ⟨(kindIndices Statement.isInput sts indices).flatMap indexLine,
    (kindIndices Statement.isOutput sts indices).flatMap indexLine⟩

theorem kindIndices_concat (kind : Statement → Bool) {sts : List Statement} {indices : List ULong}
    (hlength : indices.length = sts.length) (st : Statement) (index : ULong) :
    kindIndices kind (sts ++ [st]) (indices ++ [index])
      = kindIndices kind sts indices ++ if kind st = true then [index] else [] := by
  have hold : (positions kind sts).map (fun k => (indices ++ [index]).getD k 0)
      = kindIndices kind sts indices := by
    refine List.map_congr_left fun k hk => ?_
    rw [List.getD_append _ _ _ _ (by rw [hlength]; exact lt_of_mem_positions kind sts hk)]
  rw [kindIndices, positions_concat, List.map_append, hold]
  congr 1
  split
  · rw [List.map_singleton, List.getD_append_right _ _ _ _ (by rw [hlength]), hlength,
      Nat.sub_self, List.getD_cons_zero]
  · rfl

/-- The index files grow with the program. -/
theorem indexFilesOf_concat {sts : List Statement} {indices : List ULong}
    (hlength : indices.length = sts.length) (st : Statement) (index : ULong) :
    indexFilesOf (sts ++ [st]) (indices ++ [index]) = (indexFilesOf sts indices).after st index := by
  rw [indexFilesOf, kindIndices_concat _ hlength, kindIndices_concat _ hlength,
    List.flatMap_append, List.flatMap_append]
  cases st with
  | input value =>
    simp [Statement.isInput, Statement.isOutput, IndexFiles.after, Statement.indexFile,
      IndexFiles.add, indexFilesOf]
  | operation x y dx dy value =>
    simp [Statement.isInput, Statement.isOutput, IndexFiles.after, Statement.indexFile,
      indexFilesOf]
  | output x value =>
    simp [Statement.isInput, Statement.isOutput, IndexFiles.after, Statement.indexFile,
      IndexFiles.add, indexFilesOf]

/-- A recording with index files is a recording. -/
theorem recordWithFiles_eq (o : TapeOptions) (tid : ThreadId) (activityAnalysis : Bool)
    (sts' sts : List Statement) (indices : List ULong) (s : TapeState)
    (hlength : indices.length = sts.length) :
    recordWithFiles o tid activityAnalysis sts' indices (indexFilesOf sts indices) s
      = (recordProgram o tid activityAnalysis sts' indices s).map fun r =>
        (r.1, indexFilesOf (sts ++ sts') r.1, r.2) := by
  induction sts' generalizing sts indices s with
  | nil =>
    rw [List.append_nil]
    rfl
  | cons st sts' ih =>
    rw [recordWithFiles, recordProgram]
    cases hreq : (st.request activityAnalysis indices).perform o tid s with
    | none => rfl
    | some r =>
      obtain ⟨index, s₁⟩ := r
      have hlength' : (indices ++ [index]).length = (sts ++ [st]).length := by
        simp [hlength]
      simp only [Option.bind_eq_bind, Option.bind_some]
      rw [← indexFilesOf_concat hlength, ih _ _ _ hlength', List.append_assoc,
        List.singleton_append]

/-- **A recording with its index files.** -/
theorem recordingSession_spec {o : TapeOptions} (htype : o.typegrind = false)
    (hram : o.tapeInRam = false) (tid : ThreadId) (activityAnalysis : Bool)
    (sts : List Statement) :
    ∃ rec, recordingSession o tid activityAnalysis sts = some rec ∧
      (rec.tape.complete = true → ∃ indices log, Recorded activityAnalysis sts indices log ∧
        rec.tape.words = log.flatten ∧ (∀ block ∈ log, block.length = 4) ∧
        rec.files = indexFilesOf sts indices) := by
  obtain ⟨indices, file, hrun, hspec⟩ := programSession_spec htype hram tid activityAnalysis sts
  obtain ⟨⟨indices', s⟩, hrecord, hfinal⟩ := Option.bind_eq_some_iff.mp hrun
  obtain ⟨s', hs', heq⟩ := Option.bind_eq_some_iff.mp hfinal
  obtain ⟨rfl, rfl⟩ := Prod.mk.inj (Option.some.inj heq)
  have hfiles := recordWithFiles_eq o tid activityAnalysis sts [] [] dgBarTapeInitialize rfl
  rw [hrecord, Option.map_some, List.nil_append] at hfiles
  refine ⟨⟨s'.fdTape, indexFilesOf sts indices'⟩, ?_, fun hcomplete => ?_⟩
  · rw [recordingSession, show (⟨[], []⟩ : IndexFiles) = indexFilesOf [] [] from rfl, hfiles]
    simp only [Option.bind_eq_bind, Option.bind_some, hs']
  · obtain ⟨log, hrec, hwords, hwidth⟩ := hspec hcomplete
    exact ⟨indices', log, hrec, hwords, hwidth, rfl⟩

/-! ### The evaluation of a recording -/

section Evaluation

variable {R : Type} [CommRing R] {activityAnalysis : Bool} {sts : List Statement}
  {indices : List ULong} {log : List (List ULong)} {kind : Statement → Bool}

/-- The derivatives in a file are seeded at the statements of a kind. -/
theorem seededVector_kindIndices {values : List R} (hvalues : values.length = sts.countP kind)
    (n : ℕ) :
    (seededVector (kindIndices kind sts indices) values : Fin n → R)
      = seedVector kind sts indices (spread kind sts values) n := by
  have hzip : (kindIndices kind sts indices).zip values
      = (positions kind sts).map fun k => (indices.getD k 0, spread kind sts values k) := by
    rw [← List.zip_map', map_spread_positions kind sts hvalues]
    rfl
  funext i
  rw [seededVector, hzip, List.map_map, seedVector]
  refine (sum_positions kind sts _).trans (Finset.sum_congr rfl fun k _ => ?_)
  rw [Function.comp_apply, ← ite_and]

/-- Inputs or outputs. -/
def IsMark (kind : Statement → Bool) : Prop := kind = Statement.isInput ∨ kind = Statement.isOutput

theorem Recorded.blockAt_of_mem (h : Recorded activityAnalysis sts indices log)
    (hkind : IsMark kind) {k : ℕ} (hk : k ∈ positions kind sts) :
    ∃ p < log.length, BlockAt activityAnalysis sts indices log k p := by
  have hmem := kind_of_mem_positions kind sts hk
  refine (h.blockAt_of_kind ?_).2
  rcases hkind with rfl | rfl
  · exact .inl hmem
  · exact .inr hmem

variable {dec : ULong → R} {t : Tapefile R}

/-- The derivatives that are reported. -/
theorem Recorded.derivativesAt_kindIndices (h : Recorded activityAnalysis sts indices log)
    (ht : ReadsAs dec t log) (hkind : IsMark kind) (vec : Fin t.numberOfBlocks.toNat → R) :
    derivativesAt vec (kindIndices kind sts indices)
      = (positions kind sts).map fun k => operandValue vec (indices.getD k 0) := by
  rw [derivativesAt, kindIndices, List.map_map]
  refine List.map_congr_left fun k hk => ?_
  obtain ⟨p, hp, hblock⟩ := h.blockAt_of_mem hkind hk
  have hpn : p < t.numberOfBlocks.toNat := by rw [ht.length]; exact hp
  have htoNat : (indices.getD k 0).toNat = p := hblock.toNat_index (hpn.trans t.length_lt)
  have hvalue : operandValue vec (indices.getD k 0) = vec ⟨p, hpn⟩ := by
    rw [List.getD_eq_getElem?_getD, hblock.index, Option.getD_some,
      operandValue_ofNat vec t.length_lt hblock.pos hpn]
  rw [Function.comp_apply, derivative?_eq (by rw [htoNat]; exact hpn), Option.getD_some, hvalue]
  exact congrArg vec (Fin.ext htoNat)

/-- The sum over the tape of the seeds of inputs or outputs times some derivatives. -/
theorem Recorded.sum_seedVector_mul (h : Recorded activityAnalysis sts indices log)
    (ht : ReadsAs dec t log) (hkind : IsMark kind) (seed : ℕ → R)
    (vec : Fin t.numberOfBlocks.toNat → R) :
    ∑ i, seedVector kind sts indices seed t.numberOfBlocks.toNat i * vec i
      = ((positions kind sts).map fun k => seed k * operandValue vec (indices.getD k 0)).sum := by
  rw [sum_positions]
  simp only [seedVector, Finset.sum_mul]
  rw [Finset.sum_comm]
  refine Finset.sum_congr rfl fun k hk => ?_
  by_cases hmem : sts[k]?.any kind = true
  · obtain ⟨p, hp, hblock⟩ := h.blockAt_of_mem hkind (List.mem_filter.mpr
      ⟨List.mem_range.mpr (Finset.mem_range.mp hk), hmem⟩)
    have hpn : p < t.numberOfBlocks.toNat := by rw [ht.length]; exact hp
    have htoNat : (indices.getD k 0).toNat = p := hblock.toNat_index (hpn.trans t.length_lt)
    have hvalue : operandValue vec (indices.getD k 0) = vec ⟨p, hpn⟩ := by
      rw [List.getD_eq_getElem?_getD, hblock.index, Option.getD_some,
        operandValue_ofNat vec t.length_lt hblock.pos hpn]
    rw [if_pos hmem, hvalue, Finset.sum_eq_single_of_mem ⟨p, hpn⟩ (Finset.mem_univ _),
      if_pos ⟨hmem, htoNat⟩]
    intro i _ hne
    rw [if_neg, zero_mul]
    rintro ⟨-, heq⟩
    exact hne (Fin.ext (by rw [← heq, htoNat]))
  · rw [if_neg hmem]
    exact Finset.sum_eq_zero fun i _ => by rw [if_neg fun hboth => hmem hboth.1, zero_mul]

variable [DecidableEq R]

/-- The kinds of statements that are seeded and reported. -/
def seedKind (forward : Bool) : Statement → Bool :=
  if forward then Statement.isInput else Statement.isOutput

theorem isMark_seedKind (forward : Bool) : IsMark (seedKind forward) := by
  cases forward with
  | true => exact .inl rfl
  | false => exact .inr rfl

/-- The linear map that is evaluated. -/
def Tapefile.sweep (t : Tapefile R) (forward : Bool) (vec : Fin t.numberOfBlocks.toNat → R) :
    Fin t.numberOfBlocks.toNat → R :=
  if forward then t.forwardSweep vec else t.backwardSweep vec

theorem Tapefile.evaluate_eq_sweep (ht : t.OperandsBefore) (forward : Bool)
    {tapeBuf : Buf (Block R)} (hbuf : tapeBuf.size = t.bufsize.toNat)
    (vec : Fin t.numberOfBlocks.toNat → R) :
    t.evaluate forward tapeBuf vec = some (t.sweep forward vec) := by
  cases forward with
  | true => exact evaluateForward_eq ht hbuf vec
  | false => exact evaluateBackward_eq ht hbuf vec

/-- A file with a list of numbers that ends in white space. -/
def EvalEnv.HasList (e : EvalEnv R) (filename : String) (values : List R) : Prop :=
  ∃ text, e.files filename = some text ∧ (doubleGet e.strtod).IsList text values ∧
    EndsInSpace text

/-- The lines of a file with derivatives. -/
def derivativeLines (e : EvalEnv R) (values : List R) : List Char :=
  values.flatMap fun x => e.put x ++ ['\n']

/-- The arguments of `tape-evaluation`. -/
def evaluationArgs (program path : String) (forward : Bool) : List String :=
  program :: path :: if forward then ["--forward"] else []

/-- The recording directory can be evaluated: there are less than `2^32` inputs and outputs. -/
structure Recording.Evaluable (rec : Recording) (sts : List Statement) (d : MainEnv R)
    (path : String) : Prop where
  onDisk : rec.OnDisk d path
  inputs : sts.countP Statement.isInput < 2 ^ 32
  outputs : sts.countP Statement.isOutput < 2 ^ 32

/-- The program writes a file with one line for each derivative. -/
def WritesDerivatives (d : MainEnv R) (tapeBuf : Buf (Block R)) (args : List String)
    (filename : String) (values : List R) : Prop :=
  ∃ bound, ∀ fuel ≥ bound, tapeEvaluationMain d fuel tapeBuf args
    = pure (.written filename (derivativeLines d.toEvalEnv values))

omit [DecidableEq R] in
/-- The tape is read back from the recording directory. -/
theorem Recording.OnDisk.exists_tape {rec : Recording} (hwords : rec.tape.words = log.flatten)
    (hwidth : ∀ block ∈ log, block.length = 4) {d : MainEnv R} {path : String}
    (hdisk : rec.OnDisk d path) :
    ∃ disk, d.binaries (path ++ "/dg-tape") = some disk ∧
      ReadsAs d.dec (Tapefile.ofFile d.dec disk) log := by
  obtain ⟨disk, hopen, hdiskWords⟩ := Option.map_eq_some_iff.mp hdisk.tape
  refine ⟨disk, hopen, ⟨?_⟩⟩
  rw [Tapefile.ofFile_tape, hdiskWords, hwords, decodeBlocks_flatten d.dec log hwidth]

/-- The derivatives that the evaluation of a tape reports. -/
def reportedValues (t : Tapefile R) (sts : List Statement) (indices : List ULong) (forward : Bool)
    (values : List R) : List R :=
  (positions (seedKind (!forward)) sts).map fun k => operandValue (t.sweep forward
    (seedVector (seedKind forward) sts indices (spread (seedKind forward) sts values) _))
    (indices.getD k 0)

/-- **The evaluation of a recording.** -/
theorem tapeEvaluationMain_recorded (h : Recorded activityAnalysis sts indices log)
    {rec : Recording} (hfiles : rec.files = indexFilesOf sts indices) {d : MainEnv R}
    {path : String} (hdisk : rec.Evaluable sts d path) {disk : DataFile}
    (hopen : d.binaries (path ++ "/dg-tape") = some disk)
    (hreads : ReadsAs d.dec (Tapefile.ofFile d.dec disk) log) (program : String) (forward : Bool)
    {values : List R} (hvalues : d.HasList (fileNames path forward).seedGradients values)
    (hlength : values.length = sts.countP (seedKind forward)) {tapeBuf : Buf (Block R)}
    (hbuf : tapeBuf.size = 100) :
    WritesDerivatives d tapeBuf (evaluationArgs program path forward)
      (fileNames path forward).reportGradients
      (reportedValues (Tapefile.ofFile d.dec disk) sts indices forward values) := by
  obtain ⟨t, ht⟩ : ∃ t, t = Tapefile.ofFile d.dec disk := ⟨_, rfl⟩
  rw [← ht] at hreads ⊢
  obtain ⟨text, htext, hlist, hend⟩ := hvalues
  have hcounts : ∀ fwd, sts.countP (seedKind fwd) < 2 ^ 32 := by
    intro fwd
    cases fwd with
    | true => exact hdisk.inputs
    | false => exact hdisk.outputs
  have hlen : ∀ fwd, (kindIndices (seedKind fwd) sts indices).length
      = sts.countP (seedKind fwd) := by
    intro fwd
    rw [kindIndices, List.length_map, length_positions]
  have hlt : ∀ fwd, ∀ index ∈ kindIndices (seedKind fwd) sts indices,
      index.toNat < t.numberOfBlocks.toNat := by
    intro fwd index hindex
    obtain ⟨k, -, rfl⟩ := List.mem_map.mp hindex
    rw [hreads.length]
    exact h.index_lt (by rw [← hreads.length]; exact t.length_lt) k
  -- the directory has the index files of the recording
  have hfile : ∀ fwd, d.files (fileNames path fwd).seedIndices
        = some ((kindIndices (seedKind fwd) sts indices).flatMap indexLine) ∧
      d.files (fileNames path (!fwd)).reportIndices
        = some ((kindIndices (seedKind fwd) sts indices).flatMap indexLine) := by
    intro fwd
    have hin := hdisk.onDisk.inputs
    have hout := hdisk.onDisk.outputs
    rw [hfiles] at hin hout
    cases fwd with
    | true => exact ⟨hin, hin⟩
    | false => exact ⟨hout, hout⟩
  have hevalFiles : EvaluationFiles d.toEvalEnv (fileNames path forward) t.numberOfBlocks.toNat
      (kindIndices (seedKind forward) sts indices) (kindIndices (seedKind (!forward)) sts indices)
      values text := by
    refine ⟨(hfile forward).1, htext, ?_, hlist, by rw [hlength, hlen], hlt forward, hlt _⟩
    have hreport := (hfile (!forward)).2
    rwa [Bool.not_not] at hreport
  have hsize : tapeBuf.size = t.bufsize.toNat := by
    rw [hbuf, ht]
    rfl
  have heval := t.evaluate_eq_sweep (h.operandsBefore hreads) forward hsize
    (seededVector (kindIndices (seedKind forward) sts indices) values)
  refine ⟨fuelBound (kindIndices (seedKind forward) sts indices)
    (kindIndices (seedKind (!forward)) sts indices) text, fun fuel hfuel => ?_⟩
  have hresult := tapeEvaluation_of_size_lt hevalFiles hend (by rw [hlen]; exact hcounts _)
    (by rw [hlen]; exact hcounts _) heval hfuel
  rw [h.derivativesAt_kindIndices hreads (isMark_seedKind _),
    seededVector_kindIndices hlength] at hresult
  cases forward with
  | true =>
    simp only [evaluationArgs, tapeEvaluationMain, hopen, evaluateTape, ← ht]
    simp [hresult, reportedValues, derivativeLines]
  | false =>
    simp only [evaluationArgs, tapeEvaluationMain, hopen, evaluateTape, ← ht]
    simp [hresult, reportedValues, derivativeLines]

end Evaluation

/-! ### Both pipelines -/

/-- The derivatives of the outputs, given those of the inputs. -/
def outputDots {R : Type} [CommRing R] (dec : ULong → R) (sts : List Statement) (dots : List R) :
    List R :=
  (positions Statement.isOutput sts).map fun j =>
    (programDots dec (spread Statement.isInput sts dots) sts).getD j 0

/-- The gradients with respect to the inputs: the sums over the outputs of their bar value times
the derivative with respect to the input. -/
def inputBars {R : Type} [CommRing R] (dec : ULong → R) (sts : List Statement) (bars : List R) :
    List R :=
  (positions Statement.isInput sts).map fun k => ((positions Statement.isOutput sts).map fun j =>
    spread Statement.isOutput sts bars j * (programDots dec (Pi.single k 1) sts).getD j 0).sum

section Pipelines

variable (o : TapeOptions) (htype : o.typegrind = false) (hram : o.tapeInRam = false)
  (tid : ThreadId) (activityAnalysis : Bool) (sts : List Statement)

include htype hram

/-- **The forward pipeline.**  A program is recorded with its index files, with or without
activity analysis.  Given a file with the dot values of the inputs, `tape-evaluation --forward`
writes the derivatives of the outputs, in the order in which they have been marked. -/
theorem forwardPipeline :
    ∃ rec, recordingSession o tid activityAnalysis sts = some rec ∧ (rec.tape.complete = true →
      ∀ {R : Type} [CommRing R] [DecidableEq R] (d : MainEnv R) (program path : String)
        (dots : List R) (tapeBuf : Buf (Block R)), rec.Evaluable sts d path →
        d.HasList (path ++ "/dg-input-dots") dots → dots.length = sts.countP Statement.isInput →
        tapeBuf.size = 100 →
        WritesDerivatives d tapeBuf [program, path, "--forward"] (path ++ "/dg-output-dots")
          (outputDots d.dec sts dots)) := by
  obtain ⟨rec, hrun, hspec⟩ := recordingSession_spec htype hram tid activityAnalysis sts
  refine ⟨rec, hrun, fun hcomplete => ?_⟩
  intro R _ _ d program path dots tapeBuf hdisk hdots hlength hbuf
  obtain ⟨indices, log, h, hwords, hwidth, hfiles⟩ := hspec hcomplete
  obtain ⟨disk, hopen, hreads⟩ := hdisk.onDisk.exists_tape hwords hwidth
  -- the values at the outputs are the derivatives of the program
  have hvalues : reportedValues (Tapefile.ofFile d.dec disk) sts indices true dots
      = outputDots d.dec sts dots :=
    List.map_congr_left fun j hj =>
      h.operandValue_forwardSweep hreads _ j (lt_of_mem_positions _ _ hj)
  rw [← hvalues]
  exact tapeEvaluationMain_recorded h hfiles hdisk hopen hreads program true hdots hlength hbuf

/-- **The reverse pipeline.**  Given a file with the bar values of the outputs,
`tape-evaluation` writes the gradients with respect to the inputs. -/
theorem reversePipeline :
    ∃ rec, recordingSession o tid activityAnalysis sts = some rec ∧ (rec.tape.complete = true →
      ∀ {R : Type} [CommRing R] [DecidableEq R] (d : MainEnv R) (program path : String)
        (bars : List R) (tapeBuf : Buf (Block R)), rec.Evaluable sts d path →
        d.HasList (path ++ "/dg-output-bars") bars → bars.length = sts.countP Statement.isOutput →
        tapeBuf.size = 100 →
        WritesDerivatives d tapeBuf [program, path] (path ++ "/dg-input-bars")
          (inputBars d.dec sts bars)) := by
  obtain ⟨rec, hrun, hspec⟩ := recordingSession_spec htype hram tid activityAnalysis sts
  refine ⟨rec, hrun, fun hcomplete => ?_⟩
  intro R _ _ d program path bars tapeBuf hdisk hbars hlength hbuf
  obtain ⟨indices, log, h, hwords, hwidth, hfiles⟩ := hspec hcomplete
  obtain ⟨disk, hopen, hreads⟩ := hdisk.onDisk.exists_tape hwords hwidth
  -- the values at the inputs are the sums over the outputs
  have hvalues : reportedValues (Tapefile.ofFile d.dec disk) sts indices false bars
      = inputBars d.dec sts bars := by
    refine List.map_congr_left fun k hk => ?_
    rw [sum_positions]
    exact h.operandValue_backwardSweep hreads _ (kind_of_mem_positions _ _ hk)
  rw [← hvalues]
  exact tapeEvaluationMain_recorded h hfiles hdisk hopen hreads program false hbars hlength hbuf

/-- **Both pipelines are dual.**  The same recording is evaluated forward with dot values of the
inputs, and in reverse with bar values of the outputs.  The products of bar and dot values have
the same sum over the outputs and over the inputs. -/
theorem pipelines_dual :
    ∃ rec, recordingSession o tid activityAnalysis sts = some rec ∧ (rec.tape.complete = true →
      ∀ {R : Type} [CommRing R] [DecidableEq R] (d : MainEnv R) (program path : String)
        (dots bars : List R) (tapeBuf : Buf (Block R)), rec.Evaluable sts d path →
        d.HasList (path ++ "/dg-input-dots") dots → dots.length = sts.countP Statement.isInput →
        d.HasList (path ++ "/dg-output-bars") bars → bars.length = sts.countP Statement.isOutput →
        tapeBuf.size = 100 →
        ∃ dots' bars', dots'.length = bars.length ∧ bars'.length = dots.length ∧
          WritesDerivatives d tapeBuf [program, path, "--forward"] (path ++ "/dg-output-dots")
            dots' ∧
          WritesDerivatives d tapeBuf [program, path] (path ++ "/dg-input-bars") bars' ∧
          (List.zipWith (· * ·) bars dots').sum = (List.zipWith (· * ·) dots bars').sum) := by
  obtain ⟨rec, hrun, hspec⟩ := recordingSession_spec htype hram tid activityAnalysis sts
  refine ⟨rec, hrun, fun hcomplete => ?_⟩
  intro R _ _ d program path dots bars tapeBuf hdisk hdots hdotsLength hbars hbarsLength hbuf
  obtain ⟨indices, log, h, hwords, hwidth, hfiles⟩ := hspec hcomplete
  obtain ⟨disk, hopen, hreads⟩ := hdisk.onDisk.exists_tape hwords hwidth
  obtain ⟨t, ht⟩ : ∃ t, t = Tapefile.ofFile d.dec disk := ⟨_, rfl⟩
  refine ⟨reportedValues t sts indices true dots, reportedValues t sts indices false bars, ?_, ?_,
    ?_, ?_, ?_⟩
  · rw [reportedValues, List.length_map, length_positions, hbarsLength]
    rfl
  · rw [reportedValues, List.length_map, length_positions, hdotsLength]
    rfl
  · rw [ht]
    exact tapeEvaluationMain_recorded h hfiles hdisk hopen hreads program true hdots hdotsLength hbuf
  · rw [ht]
    exact tapeEvaluationMain_recorded h hfiles hdisk hopen hreads program false hbars hbarsLength
      hbuf
  · -- both sums are sums over the tape
    rw [← ht] at hreads
    have hsum : ∀ (kind : Statement → Bool) (_ : IsMark kind) (values : List R)
        (_ : values.length = sts.countP kind) (vec : Fin t.numberOfBlocks.toNat → R),
        (List.zipWith (· * ·) values
          ((positions kind sts).map fun k => operandValue vec (indices.getD k 0))).sum
          = ∑ i, seedVector kind sts indices (spread kind sts values) _ i * vec i := by
      intro kind hkind values hvalues vec
      rw [h.sum_seedVector_mul hreads hkind]
      nth_rewrite 1 [← map_spread_positions kind sts hvalues]
      rw [List.zipWith_map, List.zipWith_self]
    have hdual := isTranspose_sweeps (h.operandsBefore hreads)
      (seedVector Statement.isOutput sts indices (spread Statement.isOutput sts bars) _)
      (seedVector Statement.isInput sts indices (spread Statement.isInput sts dots) _)
    refine (hsum Statement.isOutput (.inr rfl) bars hbarsLength _).trans
      (hdual.trans ?_)
    refine Eq.trans ?_ (hsum Statement.isInput (.inl rfl) dots hdotsLength _).symm
    exact Finset.sum_congr rfl fun i _ => mul_comm _ _

end Pipelines

/-! ### A recording -/

/-- A program with a product. -/
def productProgram : List Statement :=
  [.input 0, .operation (.var 0) (.var 0) 5 6 0, .output (.var 1) 0]

/-- The recording directory, with the number one in all other text files. -/
def productEnv (rec : Recording) (disk : DataFile) : MainEnv ℤ where
  files name := if name = "path" ++ "/dg-input-indices" then some rec.files.inputIndices
    else if name = "path" ++ "/dg-output-indices" then some rec.files.outputIndices
    else some ['1', '\n']
  strtod field := (Nat.ofDigitChars 10 field 0, false)
  put x := (toString x).toList
  ullData _ := 0
  doubleData _ := 0
  binaries _ := some disk
  dec x := if x = 0x3FF0000000000000#64 then 1 else x.toInt
  scientific x := (toString x).toList

theorem files_productEnv (rec : Recording) (disk : DataFile) (name : String) :
    (productEnv rec disk).files name
      = if name = "path" ++ "/dg-input-indices" then some rec.files.inputIndices
        else if name = "path" ++ "/dg-output-indices" then some rec.files.outputIndices
        else some ['1', '\n'] := rfl

/-- The recording is on the disk. -/
theorem exists_productEnv {rec : Recording}
    (hrun : recordingSession plainOptions 1 true productProgram = some rec) :
    rec.tape.complete = true ∧ ∃ disk, rec.Evaluable productProgram (productEnv rec disk) "path" := by
  have hcomplete : (recordingSession plainOptions 1 true productProgram).map
      (fun r => (r.tape.complete, decide (8 * r.tape.words.length ≤ maxFileSize)))
        = some (true, true) := by decide +kernel
  rw [hrun, Option.map_some, Option.some_inj] at hcomplete
  obtain ⟨hc, hsize⟩ := Prod.mk.inj hcomplete
  have hne : "path" ++ "/dg-output-indices" ≠ "path" ++ "/dg-input-indices" := by decide
  refine ⟨hc, ⟨rec.tape.words, of_decide_eq_true hsize⟩, ⟨rfl, ?_, ?_⟩, by decide, by decide⟩
  · rw [files_productEnv, if_pos rfl]
  · rw [files_productEnv, if_neg hne, if_pos rfl]

theorem hasList_productEnv (rec : Recording) (disk : DataFile) {filename : String}
    (hinputs : filename ≠ "path" ++ "/dg-input-indices")
    (houtputs : filename ≠ "path" ++ "/dg-output-indices") :
    (productEnv rec disk).HasList filename [1] := by
  refine ⟨['1', '\n'], ?_, ?_, by decide⟩
  · rw [files_productEnv, if_neg hinputs, if_neg houtputs]
  · have hblank : (doubleGet (productEnv rec disk).strtod).IsList ['\n'] [] :=
      .blank (List.forall_mem_singleton.mpr rfl)
    change (doubleGet (productEnv rec disk).strtod).IsList ([] ++ (['1'] ++ ['\n'])) [1]
    refine .number (List.forall_mem_nil _) ⟨rfl, rfl⟩ ?_ hblank
    intro c hc
    cases hc
    rfl

/-- The theorem applies to `productProgram`, whose derivative is 11. -/
theorem forwardPipeline_productProgram :
    ∃ rec disk, recordingSession plainOptions 1 true productProgram = some rec ∧
      WritesDerivatives (productEnv rec disk) (Buf.fill 100 ⟨0, 0, 0, 0⟩)
        ["tape-evaluation", "path", "--forward"] ("path" ++ "/dg-output-dots") [11] := by
  obtain ⟨rec, hrun, h⟩ := forwardPipeline plainOptions rfl rfl 1 true productProgram
  obtain ⟨hc, disk, hdisk⟩ := exists_productEnv hrun
  exact ⟨rec, disk, hrun, h hc (productEnv rec disk) "tape-evaluation" "path" [1] _ hdisk
    (hasList_productEnv rec disk (by decide) (by decide)) rfl rfl⟩

/-- The theorem applies to `productProgram`, whose gradient is 11. -/
theorem reversePipeline_productProgram :
    ∃ rec disk, recordingSession plainOptions 1 true productProgram = some rec ∧
      WritesDerivatives (productEnv rec disk) (Buf.fill 100 ⟨0, 0, 0, 0⟩)
        ["tape-evaluation", "path"] ("path" ++ "/dg-input-bars") [11] := by
  obtain ⟨rec, hrun, h⟩ := reversePipeline plainOptions rfl rfl 1 true productProgram
  obtain ⟨hc, disk, hdisk⟩ := exists_productEnv hrun
  exact ⟨rec, disk, hrun, h hc (productEnv rec disk) "tape-evaluation" "path" [1] _ hdisk
    (hasList_productEnv rec disk (by decide) (by decide)) rfl rfl⟩

/-- The theorem applies to `productProgram`. -/
theorem pipelines_dual_productProgram :
    ∃ rec disk dots' bars', recordingSession plainOptions 1 true productProgram = some rec ∧
      WritesDerivatives (productEnv rec disk) (Buf.fill 100 ⟨0, 0, 0, 0⟩)
        ["tape-evaluation", "path", "--forward"] ("path" ++ "/dg-output-dots") dots' ∧
      WritesDerivatives (productEnv rec disk) (Buf.fill 100 ⟨0, 0, 0, 0⟩)
        ["tape-evaluation", "path"] ("path" ++ "/dg-input-bars") bars' ∧
      (List.zipWith (· * ·) [1] dots').sum = (List.zipWith (· * ·) [1] bars').sum := by
  obtain ⟨rec, hrun, h⟩ := pipelines_dual plainOptions rfl rfl 1 true productProgram
  obtain ⟨hc, disk, hdisk⟩ := exists_productEnv hrun
  obtain ⟨dots', bars', -, -, hdots, hbars, hsum⟩ := h hc (productEnv rec disk) "tape-evaluation"
    "path" [1] [1] (Buf.fill 100 ⟨0, 0, 0, 0⟩) hdisk
    (hasList_productEnv rec disk (by decide) (by decide)) rfl
    (hasList_productEnv rec disk (by decide) (by decide)) rfl rfl
  exact ⟨rec, disk, dots', bars', hrun, hdots, hbars, hsum⟩

end Derivgrind
