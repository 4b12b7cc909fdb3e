import Derivgrind.Lib.ChunkedLog
import Mathlib.Algebra.Group.Nat.Defs
import Mathlib.Data.List.Basic

/-!
# Writing the tape

The recording mode appends one block of four 64-bit words per elementary
operation to the tape: the indices of the two operands and the two partial
derivatives, the latter as the bit pattern of a `double`.  The blocks are
collected in a buffer of `BUFSIZE` blocks, which is written to the file
`dg-tape` whenever it is full and once more at the end; the values of the
results may be recorded in the same manner in `dg-values`.

The state of a recording is explicit here.  An access beyond the end of a buffer
is `none`.

## Main definitions

* `OutFile` — a file and `VG_(write)`.
* `TapeState` — the static variables of the tape, and `dg_disable`.
* `tapeAddStatement`, `tapeAddStatementNoActivityAnalysis`, `valuesAddStatement`,
  `dgBarTapeInitialize`, `dgBarTapeFinalize` — the functions of `dg_bar_tape.c`.
* `dgDisableRequest` — the client request that changes `dg_disable`.
-/

namespace Derivgrind

open ChunkedLog

/-- A 64-bit word: an index, or the bit pattern of a `double`. -/
abbrev ULong := BitVec 64

/-- The number of a thread of the client. -/
abbrev ThreadId := ℕ

/-- Number of tape blocks fitting into the buffer. -/
@[irreducible] def BUFSIZE : ℕ := 1000000

theorem BUFSIZE_pos : 0 < BUFSIZE := by unfold BUFSIZE; decide

/-! ### Files -/

/-- The largest size of a file: file offsets are signed 64-bit integers. -/
def maxFileSize : ℕ := 2 ^ 63 - 1

/-- A file opened for writing: the words written so far, and whether all writes
so far have written all their bytes. -/
structure OutFile where
  /-- The contents. -/
  words : List ULong
  /-- No write has been cut short. -/
  complete : Bool

/-- `VG_(open)` of a file that is truncated. -/
def OutFile.empty : OutFile := ⟨[], true⟩

/-- `VG_(write)`: what does not fit into the largest file is not written. -/
def OutFile.write (f : OutFile) (ws : List ULong) : OutFile :=
  if 8 * (f.words.length + ws.length) ≤ maxFileSize then ⟨f.words ++ ws, f.complete⟩
  else ⟨f.words ++ ws.take (maxFileSize / 8 - f.words.length), false⟩

/-- A write after which the file is complete was not cut short. -/
theorem OutFile.write_of_complete {f : OutFile} {ws : List ULong}
    (h : (f.write ws).complete = true) :
    f.write ws = ⟨f.words ++ ws, f.complete⟩ ∧ f.complete = true ∧
      8 * (f.words.length + ws.length) ≤ maxFileSize := by
  unfold write at h ⊢
  split
  · next hle => rw [if_pos hle] at h; exact ⟨rfl, h, hle⟩
  · next hgt => rw [if_neg hgt] at h; exact absurd h (by simp)

/-! ### The state of a recording -/

/-- The mode of operation. -/
inductive Mode
  /-- Forward mode: shadow values are dot values. -/
  | d
  /-- Recording mode: shadow values are indices, in two layers. -/
  | b
  /-- Bit-trick-finding mode: shadow values are activity and discreteness flags. -/
  | t
  deriving DecidableEq, Repr

/-- The command line options the tape depends on. -/
structure TapeOptions where
  /-- `--typegrind`: whether unhandled operations get the index `0xff..f`. -/
  typegrind : Bool
  /-- `--record-values`: whether the values of the results are recorded. -/
  barRecordValues : Bool
  /-- `--tape-in-ram`: full buffers are dropped instead of written. -/
  tapeInRam : Bool
  /-- `--record-stop`: the indices at which to enter the debugger, with the
  terminating zero; `none` if the option was not given. -/
  recordingStopIndices : Option (List ULong)

/-- What the user is told while recording. -/
inductive TapeEvent where
  /-- "User-specified index has been reached", followed by the debugger. -/
  | recordStop (index : ULong)
  /-- "Result of unwrapped operation used as input of differentiable operation." -/
  | unwrappedOperand (index : ULong)
  deriving DecidableEq, Repr

/-- The static variables of `dg_bar_tape.c`, and the counters `dg_disable`. -/
structure TapeState where
  nextindex : ULong
  bufferTape : Buf ULong
  bufferValues : Buf ULong
  fdTape : OutFile
  fdValues : OutFile
  dgDisable : ThreadId → ULong
  events : List TapeEvent

/-- The index given to operations that are not recorded although they should be
known to be suspicious: all bits are set. -/
def onesIndex : ULong := 0xffffffffffffffff#64

/-- `dg_bar_tape_initialize`: zeroed buffers, empty files, and `nextindex = 1`.
The counters `dg_disable` are zeroed by `dg_post_clo_init`. -/
def dgBarTapeInitialize : TapeState where
  nextindex := 1
  bufferTape := Buf.fill (4 * BUFSIZE) 0
  bufferValues := Buf.fill BUFSIZE 0
  fdTape := OutFile.empty
  fdValues := OutFile.empty
  dgDisable := fun _ => 0
  events := []

/-- The client request `VG_USERREQ__DISABLE` of thread `tid`: returns the
previous counter. -/
def dgDisableRequest (tid : ThreadId) (plus minus : ULong) (s : TapeState) :
    ULong × TapeState :=
  (s.dgDisable tid,
    { s with dgDisable := Function.update s.dgDisable tid (s.dgDisable tid + (plus - minus)) })

/-- The loop over the zero-terminated list of `--record-stop`. -/
def recordStops (o : TapeOptions) (nextindex : ULong) : List TapeEvent :=
  match o.recordingStopIndices with
  | none => []
  | some indices =>
      ((indices.takeWhile (· ≠ 0)).filter (nextindex = ·)).map TapeEvent.recordStop

/-- The full buffer is written, or replaced by a fresh one with `tape_in_ram`.
No word of a fresh buffer is used before it has been stored. -/
def flushTape (o : TapeOptions) (s : TapeState) : Option TapeState :=
  if s.nextindex.toNat % BUFSIZE = 0 then
    if o.tapeInRam then some { s with bufferTape := Buf.fill (4 * BUFSIZE) 0 }
    else do
      let ws ← s.bufferTape.front? (4 * BUFSIZE)
      some { s with fdTape := s.fdTape.write ws }
  else some s

/-- `tapeAddStatement_noActivityAnalysis`, called by thread `tid`. -/
def tapeAddStatementNoActivityAnalysis (o : TapeOptions) (tid : ThreadId)
    (index1 index2 diff1 diff2 : ULong) (s : TapeState) : Option (ULong × TapeState) :=
  if s.dgDisable tid ≠ 0 then some (if o.typegrind then onesIndex else 0, s)
  else do
    let pos := s.nextindex.toNat % BUFSIZE
    let b ← s.bufferTape.set? (4 * pos) index1
    let b ← b.set? (4 * pos + 1) index2
    let b ← b.set? (4 * pos + 2) diff1
    let b ← b.set? (4 * pos + 3) diff2
    let s' ← flushTape o { s with
      bufferTape := b
      events := s.events ++ recordStops o s.nextindex
      nextindex := s.nextindex + 1 }
    let warning :=
      if index1 = onesIndex ∨ index2 = onesIndex then
        [TapeEvent.unwrappedOperand (s'.nextindex - 1)] else []
    some (if o.typegrind then 0 else s'.nextindex - 1,
      { s' with events := s'.events ++ warning })

/-- `tapeAddStatement`, called by thread `tid`: with activity analysis. -/
def tapeAddStatement (o : TapeOptions) (tid : ThreadId)
    (index1 index2 diff1 diff2 : ULong) (s : TapeState) : Option (ULong × TapeState) :=
  if index1 = 0 ∧ index2 = 0 ∧ o.typegrind = false then some (0, s)
  else tapeAddStatementNoActivityAnalysis o tid index1 index2 diff1 diff2 s

/-- `valuesAddStatement`: record the value belonging to the last block. -/
def valuesAddStatement (value : ULong) (s : TapeState) : Option TapeState := do
  let pos := (s.nextindex - 1).toNat % BUFSIZE
  let b ← s.bufferValues.set? pos value
  if s.nextindex.toNat % BUFSIZE = 0 then
    let ws ← b.front? BUFSIZE
    some { s with bufferValues := b, fdValues := s.fdValues.write ws }
  else some { s with bufferValues := b }

/-- `dg_bar_tape_finalize`: write what is pending in the buffers. -/
def dgBarTapeFinalize (o : TapeOptions) (s : TapeState) : Option TapeState :=
  let pos := s.nextindex.toNat % BUFSIZE
  if 0 < pos then do
    let ws ← s.bufferTape.front? (pos * 4)
    let s' := { s with fdTape := s.fdTape.write ws }
    if o.barRecordValues then
      let vs ← s.bufferValues.front? pos
      some { s' with fdValues := s'.fdValues.write vs }
    else some s'
  else some s

end Derivgrind
