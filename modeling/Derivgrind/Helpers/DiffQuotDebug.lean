import Derivgrind.Tape.Record

/-!
# Difference quotient debugging

With `--diffquotdebug`, forward mode logs the values and the dot values of results.  Both
are collected in buffers of `BUFSIZE` words, which are written to the files `dg-dqd-val`
and `dg-dqd-dot` when they are full, and at the end.

The words are stored at the position `dg_dot_nextindex`, which keeps on growing after the
buffers have been written, instead of its remainder modulo `BUFSIZE`.

## Main definitions

* `dgAddDiffquotdebugHelper` — log a pair.
* `dqdSession` — a whole run.
* `LogsAll` — **the files consist of the logged pairs.**

## Main results

* `logsAll_iff` — the files are right up to `BUFSIZE` many pairs.
-/

namespace Derivgrind

open ChunkedLog

/-! ### Logging -/

/-- The static variables of `dg_dot_diffquotdebug.c`, and the counters `dg_disable`. -/
structure DqdState where
  nextindex : ULong
  bufferVal : Buf ULong
  bufferDot : Buf ULong
  fdVal : OutFile
  fdDot : OutFile
  dgDisable : ThreadId → ULong

/-- `dg_dot_diffquotdebug_initialize`. -/
def dgDotDiffquotdebugInitialize : DqdState where
  nextindex := 0
  bufferVal := Buf.fill BUFSIZE 0
  bufferDot := Buf.fill BUFSIZE 0
  fdVal := OutFile.empty
  fdDot := OutFile.empty
  dgDisable := fun _ => 0

/-- Write the first words of both buffers. -/
def DqdState.flush (s : DqdState) (count : ℕ) : Option DqdState := do
  let vals ← s.bufferVal.front? count
  let dots ← s.bufferDot.front? count
  some { s with fdVal := s.fdVal.write vals, fdDot := s.fdDot.write dots }

/-- `dg_add_diffquotdebug_helper`, called by thread `tid`. -/
def dgAddDiffquotdebugHelper (tid : ThreadId) (value dotvalue : ULong) (s : DqdState) :
    Option DqdState :=
  if s.dgDisable tid = 0 then do
    let bufferVal ← s.bufferVal.set? s.nextindex.toNat value
    let bufferDot ← s.bufferDot.set? s.nextindex.toNat dotvalue
    let s := { s with
      bufferVal := bufferVal
      bufferDot := bufferDot
      nextindex := s.nextindex + 1 }
    if s.nextindex.toNat % BUFSIZE = 0 then s.flush BUFSIZE else some s
  else some s

/-- `dg_dot_diffquotdebug_finalize`. -/
def dgDotDiffquotdebugFinalize (s : DqdState) : Option DqdState :=
  let pos := s.nextindex.toNat % BUFSIZE
  if 0 < pos then s.flush pos else some s

/-- The calls that log, or change whether pairs are logged. -/
inductive DqdCall
  | log (tid : ThreadId) (value dotvalue : ULong)
  /-- The client request `DISABLE`. -/
  | disable (tid : ThreadId) (plus minus : ULong)
  deriving DecidableEq, Repr

/-- The counters after a call. -/
def DqdCall.counters (dgDisable : ThreadId → ULong) : DqdCall → ThreadId → ULong
  | .log .. => dgDisable
  | .disable tid plus minus => Function.update dgDisable tid (dgDisable tid + (plus - minus))

/-- Execute a call. -/
def DqdCall.exec : DqdCall → DqdState → Option DqdState
  | .log tid value dotvalue, s => dgAddDiffquotdebugHelper tid value dotvalue s
  | .disable tid plus minus, s =>
      some { s with dgDisable := (DqdCall.disable tid plus minus).counters s.dgDisable }

/-- Execute calls one after the other. -/
def runDqdCalls : List DqdCall → DqdState → Option DqdState
  | [], s => some s
  | c :: cs, s => (c.exec s).bind (runDqdCalls cs)

/-- A whole run: the files `dg-dqd-val` and `dg-dqd-dot`. -/
def dqdSession (calls : List DqdCall) : Option (OutFile × OutFile) := do
  let s ← runDqdCalls calls dgDotDiffquotdebugInitialize
  let s ← dgDotDiffquotdebugFinalize s
  some (s.fdVal, s.fdDot)

/-- The pairs that are to be logged: those of calls made while the counter of the thread is
zero. -/
def logged : (ThreadId → ULong) → List DqdCall → List (ULong × ULong)
  | _, [] => []
  | dgDisable, c :: cs =>
      (match c with
        | .log tid value dotvalue => if dgDisable tid = 0 then [(value, dotvalue)] else []
        | .disable .. => [])
        ++ logged (c.counters dgDisable) cs

/-- **The files consist of the logged pairs**, and all accesses are in the buffers. -/
def LogsAll (calls : List DqdCall) : Prop :=
  ∃ val dot, dqdSession calls = some (val, dot) ∧
    val.words = (logged (fun _ => 0) calls).map Prod.fst ∧
    dot.words = (logged (fun _ => 0) calls).map Prod.snd

/-! ### One buffer -/

section Buffer

/-- The log of one of the buffers, as records of one word. -/
def Logs (b : Buf ULong) (file : OutFile) (xs : List ULong) : Prop :=
  Holds 1 BUFSIZE b file.words (xs.map fun x => [x])

variable {b : Buf ULong} {file : OutFile} {xs : List ULong}

theorem flatten_map_singleton (xs : List ULong) : (xs.map fun x => [x]).flatten = xs := by
  induction xs with
  | nil => rfl
  | cons x xs ih => rw [List.map_cons, List.flatten_cons, ih]; rfl

/-- A write of a buffer is not cut short. -/
theorem words_write {ws : List ULong} (h : 8 * (file.words.length + ws.length) ≤ maxFileSize) :
    (file.write ws).words = file.words ++ ws := by
  rw [OutFile.write, if_pos h]

theorem Logs.length_words (h : Logs b file xs) (hlt : xs.length < BUFSIZE) :
    file.words.length = 0 := by
  rw [h.length_file, List.length_map, Nat.div_eq_of_lt hlt]
  simp

/-- **One more word**, as long as the buffer has not been full. -/
theorem Logs.push (h : Logs b file xs) (hlt : xs.length < BUFSIZE) (x : ULong) :
    ∃ b', b.set? xs.length x = some b' ∧
      if (xs.length + 1) % BUFSIZE = 0 then
        ∃ ws, b'.front? BUFSIZE = some ws ∧ Logs b' (file.write ws) (xs ++ [x])
      else Logs b' file (xs ++ [x]) := by
  have hsize : b.size = BUFSIZE := h.size.trans (Nat.one_mul _)
  have hpos : 1 * ((xs.map fun x => [x]).length % BUFSIZE) = xs.length := by
    rw [List.length_map, Nat.mod_eq_of_lt hlt, Nat.one_mul]
  let b' : Buf ULong := ⟨b.size, Function.update b.data xs.length x⟩
  have hbelow : ∀ j < 1 * ((xs.map fun x => [x]).length % BUFSIZE), b'.data j = b.data j := by
    intro j hj
    rw [hpos] at hj
    have hne : j ≠ xs.length := Nat.ne_of_lt hj
    exact Function.update_of_ne hne x b.data
  have hnew : (List.range' (1 * ((xs.map fun x => [x]).length % BUFSIZE)) [x].length).map b'.data
      = [x] := by
    rw [hpos]
    simp [b']
  have hsame : b'.size = b.size := rfl
  refine ⟨b', by rw [Buf.set?, if_pos (by omega)], ?_⟩
  split
  · next heq =>
    have hflush := Holds.push_flush h BUFSIZE_pos (r := [x]) rfl (by simpa using heq) hsame
      hbelow hnew
    refine ⟨(List.range BUFSIZE).map b'.data, by rw [Buf.front?, if_pos (by simp [b', hsize])], ?_⟩
    -- The buffer is written for the first time, so the file is large enough.
    have hfit : 8 * (file.words.length + ((List.range BUFSIZE).map b'.data).length)
        ≤ maxFileSize := by
      rw [h.length_words hlt, List.length_map, List.length_range]
      unfold BUFSIZE maxFileSize
      decide
    unfold Logs
    rw [words_write hfit, List.map_append]
    rw [Nat.one_mul] at hflush
    exact hflush
  · next hne =>
    unfold Logs
    rw [List.map_append]
    exact Holds.push h BUFSIZE_pos (r := [x]) rfl (by simpa using hne) hsame hbelow hnew

/-- The final write. -/
theorem Logs.finish (h : Logs b file xs) (hle : xs.length ≤ BUFSIZE) :
    ∃ ws, b.front? (xs.length % BUFSIZE) = some ws ∧
      (if 0 < xs.length % BUFSIZE then file.write ws else file).words = xs := by
  have hfinish := Holds.finish h
  rw [flatten_map_singleton, List.length_map, Nat.one_mul] at hfinish
  have hmod : xs.length % BUFSIZE < BUFSIZE := Nat.mod_lt _ BUFSIZE_pos
  have hsize : b.size = BUFSIZE := h.size.trans (Nat.one_mul _)
  refine ⟨_, by rw [Buf.front?, if_pos (by omega)], ?_⟩
  split
  · have hlen : file.words.length + ((List.range (xs.length % BUFSIZE)).map b.data).length
        = xs.length := by
      rw [← List.length_append, hfinish]
    have hmax : 8 * BUFSIZE ≤ maxFileSize := by
      unfold BUFSIZE maxFileSize
      decide
    rw [words_write (by omega), hfinish]
  · next hzero =>
    have hzero : xs.length % BUFSIZE = 0 := by omega
    rw [hzero, List.range_zero, List.map_nil, List.append_nil] at hfinish
    exact hfinish

end Buffer

/-! ### Runs -/

/-- Both buffers and files hold the logged pairs. -/
structure DqdInv (s : DqdState) (log : List (ULong × ULong)) : Prop where
  length : log.length ≤ BUFSIZE
  nextindex : s.nextindex.toNat = log.length
  val : Logs s.bufferVal s.fdVal (log.map Prod.fst)
  dot : Logs s.bufferDot s.fdDot (log.map Prod.snd)

theorem logs_initial : Logs (Buf.fill BUFSIZE 0) OutFile.empty [] :=
  ⟨(Nat.one_mul _).symm, by simp, by simp [OutFile.empty], by simp⟩

theorem dqdInv_initial : DqdInv dgDotDiffquotdebugInitialize [] :=
  ⟨Nat.zero_le _, rfl, logs_initial, logs_initial⟩

section Run

variable {s : DqdState} {log : List (ULong × ULong)} {tid : ThreadId} (value dotvalue : ULong)

/-- The pairs up to number `BUFSIZE`. -/
theorem DqdInv.helper (h : DqdInv s log) (hlt : log.length < BUFSIZE)
    (htid : s.dgDisable tid = 0) :
    ∃ s', dgAddDiffquotdebugHelper tid value dotvalue s = some s' ∧
      DqdInv s' (log ++ [(value, dotvalue)]) ∧ s'.dgDisable = s.dgDisable := by
  obtain ⟨bv, hbv, hval⟩ := h.val.push (by rwa [List.length_map]) value
  obtain ⟨bd, hbd, hdot⟩ := h.dot.push (by rwa [List.length_map]) dotvalue
  rw [List.length_map] at hbv hbd hval hdot
  have hnext : (s.nextindex + 1).toNat = log.length + 1 := by
    have hmax : BUFSIZE < 2 ^ 64 := by unfold BUFSIZE; decide
    have hnext := h.nextindex
    bv_omega
  have hlen : (log ++ [(value, dotvalue)]).length = log.length + 1 := by simp
  unfold dgAddDiffquotdebugHelper
  rw [if_pos htid, h.nextindex, hbv, Option.bind_eq_bind, Option.bind_some, hbd, Option.bind_some]
  simp only [hnext]
  by_cases hfull : (log.length + 1) % BUFSIZE = 0
  · rw [if_pos hfull] at hval hdot ⊢
    obtain ⟨vals, hvals, hval⟩ := hval
    obtain ⟨dots, hdots, hdot⟩ := hdot
    simp only [DqdState.flush, hvals, hdots, Option.bind_eq_bind, Option.bind_some]
    refine ⟨_, rfl, ⟨by omega, by rw [hlen]; exact hnext, ?_, ?_⟩, rfl⟩
    · rw [List.map_append]
      exact hval
    · rw [List.map_append]
      exact hdot
  · rw [if_neg hfull] at hval hdot ⊢
    refine ⟨_, rfl, ⟨by omega, by rw [hlen]; exact hnext, ?_, ?_⟩, rfl⟩
    · rw [List.map_append]
      exact hval
    · rw [List.map_append]
      exact hdot

/-- The pair number `BUFSIZE + 1` is stored behind the buffer. -/
theorem DqdInv.helper_eq_none (h : DqdInv s log) (hfull : log.length = BUFSIZE)
    (htid : s.dgDisable tid = 0) : dgAddDiffquotdebugHelper tid value dotvalue s = none := by
  have hsize : s.bufferVal.size = BUFSIZE := h.val.size.trans (Nat.one_mul _)
  have hset : s.bufferVal.set? s.nextindex.toNat value = none := by
    rw [Buf.set?, if_neg (by rw [h.nextindex]; omega)]
  rw [dgAddDiffquotdebugHelper, if_pos htid, hset]
  rfl

/-- The pairs that a call is to log. -/
theorem logged_cons_log (dgDisable : ThreadId → ULong) (cs : List DqdCall) :
    logged dgDisable (.log tid value dotvalue :: cs)
      = (if dgDisable tid = 0 then [(value, dotvalue)] else []) ++ logged dgDisable cs := rfl

/-- **Runs with at most `BUFSIZE` many pairs.** -/
theorem DqdInv.run {cs : List DqdCall} (h : DqdInv s log)
    (hle : (log ++ logged s.dgDisable cs).length ≤ BUFSIZE) :
    ∃ s', runDqdCalls cs s = some s' ∧ DqdInv s' (log ++ logged s.dgDisable cs) := by
  induction cs generalizing s log with
  | nil => exact ⟨s, rfl, by rwa [logged, List.append_nil]⟩
  | cons c cs ih =>
    cases c with
    | log tid value dotvalue =>
      rw [logged_cons_log] at hle ⊢
      by_cases htid : s.dgDisable tid = 0
      · rw [if_pos htid, ← List.append_assoc] at hle ⊢
        have hlt : log.length < BUFSIZE := by
          rw [List.length_append, List.length_append] at hle
          simp only [List.length_singleton] at hle
          omega
        obtain ⟨s₁, hs₁, hinv, hdis⟩ := h.helper value dotvalue hlt htid
        rw [← hdis] at hle ⊢
        obtain ⟨s', hs', hinv'⟩ := ih hinv hle
        exact ⟨s', by rw [runDqdCalls, DqdCall.exec, hs₁]; exact hs', hinv'⟩
      · rw [if_neg htid, List.nil_append] at hle ⊢
        obtain ⟨s', hs', hinv'⟩ := ih h hle
        refine ⟨s', ?_, hinv'⟩
        rw [runDqdCalls, DqdCall.exec, dgAddDiffquotdebugHelper, if_neg htid]
        exact hs'
    | disable tid plus minus =>
      exact ih (s := { s with dgDisable := _ }) ⟨h.length, h.nextindex, h.val, h.dot⟩ hle

/-- **Longer runs** have an access out of bounds. -/
theorem DqdInv.run_eq_none {cs : List DqdCall} (h : DqdInv s log)
    (hlt : BUFSIZE < (log ++ logged s.dgDisable cs).length) : runDqdCalls cs s = none := by
  induction cs generalizing s log with
  | nil =>
    rw [logged, List.append_nil] at hlt
    exact absurd h.length (by omega)
  | cons c cs ih =>
    cases c with
    | log tid value dotvalue =>
      rw [logged_cons_log] at hlt
      rw [runDqdCalls, DqdCall.exec]
      by_cases htid : s.dgDisable tid = 0
      · rw [if_pos htid, ← List.append_assoc] at hlt
        rcases Nat.lt_or_eq_of_le h.length with hroom | hfull
        · obtain ⟨s₁, hs₁, hinv, hdis⟩ := h.helper value dotvalue hroom htid
          rw [← hdis] at hlt
          rw [hs₁]
          exact ih hinv hlt
        · rw [h.helper_eq_none value dotvalue hfull htid]
          rfl
      · rw [if_neg htid, List.nil_append] at hlt
        rw [dgAddDiffquotdebugHelper, if_neg htid]
        exact ih h hlt
    | disable tid plus minus =>
      exact ih (s := { s with dgDisable := _ }) ⟨h.length, h.nextindex, h.val, h.dot⟩ hlt

end Run

/-! ### Whole runs -/

theorem logsAll_of_le {calls : List DqdCall}
    (hle : (logged (fun _ => 0) calls).length ≤ BUFSIZE) : LogsAll calls := by
  have hle' : ([] ++ logged dgDotDiffquotdebugInitialize.dgDisable calls).length ≤ BUFSIZE := hle
  obtain ⟨s, hs, hinv⟩ := dqdInv_initial.run hle'
  obtain ⟨vals, hvals, hval⟩ := hinv.val.finish (by rw [List.length_map]; exact hinv.length)
  obtain ⟨dots, hdots, hdot⟩ := hinv.dot.finish (by rw [List.length_map]; exact hinv.length)
  rw [List.length_map] at hvals hdots hval hdot
  unfold LogsAll dqdSession dgDotDiffquotdebugFinalize
  simp only [hs, hinv.nextindex, Option.bind_eq_bind, Option.bind_some]
  split
  · next hpos =>
    rw [if_pos hpos] at hval hdot
    simp only [DqdState.flush, hvals, hdots, Option.bind_eq_bind, Option.bind_some]
    exact ⟨_, _, rfl, hval, hdot⟩
  · next hpos =>
    rw [if_neg hpos] at hval hdot
    exact ⟨_, _, rfl, hval, hdot⟩

theorem not_logsAll_of_lt {calls : List DqdCall}
    (hlt : BUFSIZE < (logged (fun _ => 0) calls).length) : ¬LogsAll calls := by
  rintro ⟨val, dot, hsession, -⟩
  have hnone : runDqdCalls calls dgDotDiffquotdebugInitialize = none := dqdInv_initial.run_eq_none hlt
  rw [dqdSession, hnone] at hsession
  cases hsession

/-- **The files are right** exactly up to `BUFSIZE` many pairs. -/
theorem logsAll_iff (calls : List DqdCall) :
    LogsAll calls ↔ (logged (fun _ => 0) calls).length ≤ BUFSIZE :=
  ⟨fun h => not_lt.mp fun hlt => not_logsAll_of_lt hlt h, logsAll_of_le⟩

/-- One pair too many. -/
theorem not_logsAll_replicate : ¬LogsAll (List.replicate (BUFSIZE + 1) (.log 0 1 1)) := by
  have hlogged : ∀ n, (logged (fun _ => 0) (List.replicate n (.log 0 1 1))).length = n := by
    intro n
    induction n with
    | zero => rfl
    | succ n ih =>
      rw [List.replicate_succ, logged_cons_log, if_pos rfl, List.length_append, ih,
        List.length_singleton, Nat.add_comm]
  exact not_logsAll_of_lt (by rw [hlogged]; omega)

end Derivgrind
