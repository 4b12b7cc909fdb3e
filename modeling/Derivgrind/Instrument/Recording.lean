import Derivgrind.Instrument.Process
import Derivgrind.Shadow.Index
import Derivgrind.Tape.Operands

/-!
# Runs of recording mode

A run of recording mode executes instrumented superblocks and client requests of any threads.
Shadow memory is one byte map for each layer, see `shadowCalls_bar`.

## Main definitions

* `BarMemory`, `memoryCall` — the shadow memory of recording mode.
* `barCall` — the functions of recording mode that emitted code calls.
* `IndexRequest` — the client requests of `DG_INPUT`, `DG_OUTPUT` and the math wrappers.
* `RecordingContext.machine`, `RecordingContext.run` — recording.
-/

namespace Derivgrind

/-! ### Shadow memory -/

/-- Both layers of shadow memory, and the number of x87 loads so far. -/
structure BarMemory where
  layer : BarLayer → Addr → Byte
  loads : ℕ

namespace BarMemory

variable (m : BarMemory)

/-- Copy both layers of the buffer to shadow memory. -/
def store (a : Addr) (n : ℕ) (buf : ℕ → Byte) : BarMemory :=
  { m with
    layer := BarLayer.pair (writeMem (m.layer .lo) a (readReg buf 0 n))
      (writeMem (m.layer .hi) a (readReg buf 32 n)) }

/-- Copy shadow memory to both layers of the buffer. -/
def load (a : Addr) (n : ℕ) (buf : ℕ → Byte) : ℕ → Byte :=
  writeReg (writeReg buf 0 (readMem (m.layer .lo) a n)) 32 (readMem (m.layer .hi) a n)

/-- Write to one layer. -/
def set (l : BarLayer) (a : Addr) (v : List Byte) : BarMemory :=
  { m with layer := Function.update m.layer l (writeMem (m.layer l) a v) }

/-- The index of a variable: `VG_USERREQ__GET_INDEX`. -/
def getIndex (a : Addr) : ULong :=
  bitsOf 64 (readMem (m.layer .lo) a 4 ++ readMem (m.layer .hi) a 4)

/-- `VG_USERREQ__SET_INDEX`. -/
def setIndex (a : Addr) (index : ULong) : BarMemory :=
  (m.set .lo a ((bytesOf index).take 4)).set .hi a ((bytesOf index).drop 4)

end BarMemory

/-- The calls of emitted code that access shadow memory.  The upper halves of the results of x87
loads are not initialised; the function tells what they are for each of these loads. -/
def memoryCall (uninitialised : ℕ → BitVec 32) (helper : ToolHelper) (args : List (List Byte))
    (buf : ℕ → Byte) (m : BarMemory) : Option (List Byte × (ℕ → Byte) × BarMemory) :=
  let addr := bitsOf 64 (args.getD 0 [])
  let arg := args.getD 1 []
  match helper with
  | .barStore => some ([], buf, m.store addr (bitsOf 64 arg).toNat buf)
  | .barLoad => some ([], m.load addr (bitsOf 64 arg).toNat buf, m)
  | .barStoreF80leLo => some ([], buf, m.set .lo addr (arg.take 4))
  | .barStoreF80leHi => some ([], buf, m.set .hi addr (arg.take 4))
  | .barLoadF80leLo =>
      some (readMem (m.layer .lo) addr 4 ++ bytesOf (uninitialised m.loads), buf,
        { m with loads := m.loads + 1 })
  | .barLoadF80leHi =>
      some (readMem (m.layer .hi) addr 4 ++ bytesOf (uninitialised m.loads), buf,
        { m with loads := m.loads + 1 })
  | _ => none

/-! ### The tape -/

/-- The functions that record, and those that return a part of `dg_bar_bitwise_out`.  The result
of `dg_bar_writeToTape_value_call` and of the bitwise handlers is not used. -/
def barCall (o : TapeOptions) (tid : ThreadId) (helper : ToolHelper) (args : List ULong)
    (s : BarState) : Option (ULong × BarState) :=
  let arg := fun i => args.getD i 0
  match helper with
  | .barWriteToTapeCall => do
      let (index, tape) ← tapeAddStatement o tid (assemble64x2to64 (arg 0) (arg 1))
        (assemble64x2to64 (arg 2) (arg 3)) (arg 4) (arg 5) s.tape
      some (index, { s with tape := tape })
  | .barWriteToTapeValueCall =>
      if arg 1 ≠ 0 then do
        let tape ← valuesAddStatement (arg 0) s.tape
        some (0, { s with tape := tape })
      else some (0, s)
  | .barBitwise64 op => do
      let s ← op.handler64 o .b tid (arg 0) (arg 1) (arg 2) (arg 3) (arg 4) (arg 5) s
      some (0, s)
  | .barBitwiseGetLower => some (s.bitwiseGetLower, s)
  | .barBitwiseGetHigher => some (s.bitwiseGetHigher, s)
  | _ => none

/-! ### Client requests -/

/-- The client requests of `DG_INPUT`, of `DG_OUTPUT` and of the math wrappers: the indices of up
to two variables are read, a statement is recorded, and its index may be written to the shadow of
a variable. -/
structure IndexRequest where
  activityAnalysis : Bool
  operand1 : Option Addr
  operand2 : Option Addr
  diff1 : ULong
  diff2 : ULong
  value : ULong
  target : Option Addr
  deriving DecidableEq, Repr

/-- The tape statement, given the indices of variables. -/
def IndexRequest.statement (r : IndexRequest) (index : Addr → ULong) : Request :=
  ⟨r.activityAnalysis, (r.operand1.map index).getD 0, (r.operand2.map index).getD 0, r.diff1,
    r.diff2, r.value⟩

/-! ### Recording -/

/-- The state of the tool in recording mode. -/
structure BarTool where
  memory : BarMemory
  bar : BarState

/-- `VG_USERREQ__DISABLE`. -/
def BarTool.disable (t : BarTool) (tid : ThreadId) (plus minus : ULong) : BarTool :=
  { t with bar := { t.bar with tape := (dgDisableRequest tid plus minus t.bar.tape).2 } }

/-- Everything a recording depends on: the machine without the tool, the options, and the upper
halves of the results of x87 loads, which are not initialised. -/
structure RecordingContext where
  base : Machine Byte Unit
  tape : TapeOptions
  wordTy : IRType
  uninitialised : ℕ → BitVec 32

namespace RecordingContext

variable (c : RecordingContext)

/-- The options of the instrumentation. -/
def options : Options := ⟨.b, c.tape.typegrind, c.tape.barRecordValues⟩

/-- The calls of emitted code.  Other calls have no effect. -/
def toolDirty (tid : ThreadId) (helper : ToolHelper) (args : List (List Byte)) (buf : ℕ → Byte)
    (t : BarTool) : List Byte × (ℕ → Byte) × BarTool :=
  match memoryCall c.uninitialised helper args buf t.memory with
  | some (r, buf, memory) => (r, buf, { t with memory := memory })
  | none =>
    match barCall c.tape tid helper (args.map (bitsOf 64)) t.bar with
    | some (index, bar) => (bytesOf index, buf, { t with bar := bar })
    | none => (List.replicate 8 0, buf, t)

/-- The machine on which the code of a thread is executed. -/
def machine (tid : ThreadId) : Machine Byte BarTool :=
  { c.base.toInterp with
    guestSize := c.base.guestSize
    guestDirty := c.base.guestDirty
    toolDirty := c.toolDirty tid
    skipped := c.base.skipped
    storeSucceeds := c.base.storeSucceeds
    flag := c.base.flag }

/-- The client requests that record. -/
def request (tid : ThreadId) (r : IndexRequest) (t : BarTool) : BarTool :=
  match (r.statement t.memory.getIndex).perform c.tape tid t.bar.tape with
  | some (index, tape) =>
    ⟨match r.target with
      | some a => t.memory.setIndex a index
      | none => t.memory, { t.bar with tape := tape }⟩
  | none => t

end RecordingContext

/-! ### Runs -/

/-- The registers of all threads, memory, the buffer, and the state of the tool. -/
structure ProcessState (T : Type) where
  regs : ThreadId → ℕ → Byte
  mem : Addr → Byte
  buf : ℕ → Byte
  tool : T

/-- What a thread does: it executes a superblock, or makes a request. -/
inductive ClientAction
  | block (sb : IRSB)
  | request (r : IndexRequest)
  | disable (plus minus : ULong)

section Runs

variable {T : Type}

/-- The state in which a thread starts to execute a superblock. -/
def ProcessState.enter (s : ProcessState T) (tid : ThreadId) (tyenv : List IRType) :
    State Byte T :=
  ⟨freshTmps 0 tyenv, s.regs tid, s.mem, s.buf, s.tool⟩

/-- The state after a thread has executed a superblock. -/
def ProcessState.leave (s : ProcessState T) (tid : ThreadId) (s' : State Byte T) :
    ProcessState T :=
  ⟨Function.update s.regs tid s'.reg, s'.mem, s'.buf, s'.tool⟩

namespace RecordingContext

variable (c : RecordingContext)

/-- An action of a thread.  Superblocks are instrumented. -/
def step (s : ProcessState BarTool) : ThreadId × ClientAction → Option (ProcessState BarTool)
  | (tid, .block sb) => do
      let sb' ← dgInstrument c.options c.base.guestSize c.wordTy sb
      some (s.leave tid (execStmts (c.machine tid) sb'.tyenv sb'.stmts (s.enter tid sb'.tyenv)).1)
  | (tid, .request r) => some { s with tool := c.request tid r s.tool }
  | (tid, .disable plus minus) => some { s with tool := s.tool.disable tid plus minus }

/-- Actions of threads, in any order. -/
def run (acts : List (ThreadId × ClientAction)) (s : ProcessState BarTool) :
    Option (ProcessState BarTool) :=
  acts.foldlM c.step s

end RecordingContext

end Runs

end Derivgrind
