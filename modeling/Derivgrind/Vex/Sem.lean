import Derivgrind.Vex.Syntax
import Mathlib.Data.List.GetD
import Mathlib.Logic.Function.Basic

/-!
# The meaning of VEX superblocks

Values are lists of bytes, in little-endian order.  The type of bytes and the
meaning of constants, operations and helper functions are left open: an
`Interp` fixes them.  This allows running one block on machine bytes, on exact
numbers, or on bytes with additional information.

Emitted code accesses Derivgrind's buffer through the constant addresses
`IRConst.bufferAddr`; the buffer is kept apart from the memory of the client.

## Main definitions

* `Interp`, `Machine` — an interpretation, and what execution depends on.
* `State` — temporaries, guest state, memory, and the state of the tool.
* `evalExpr`, `execStmt`, `execStmts` — evaluation and execution.

## Main results

* `execStmts_append` — running two lists of statements one after the other.
-/

namespace Derivgrind

/-- The addresses of the client. -/
abbrev Addr := BitVec 64

/-! ### Interpretations and states -/

/-- The meaning of constants, operations and pure helper functions. -/
structure Interp (B : Type) where
  /-- The byte zero. -/
  zero : B
  const : IRConst → List B
  op : IROp → List (List B) → List B
  ccall : IRCallee → List (List B) → List B
  /-- Whether a value of type `I1` is true. -/
  isTrue : List B → Bool
  /-- A value used as an address. -/
  addr : List B → Addr
  /-- A value used as an index into a circular array of the guest state. -/
  index : List B → ℤ

/-- Everything execution depends on. -/
structure Machine (B T : Type) extends Interp B where
  /-- `total_sizeB`: the size of the guest state. -/
  guestSize : ℕ
  /-- Dirty calls to helper functions of the guest architecture, which act on the
  guest state and on memory. -/
  guestDirty : String → List (List B) → (ℕ → B) → (Addr → B) → List B × (ℕ → B) × (Addr → B)
  /-- Dirty calls to functions of the tool, which act on the buffer and on the
  state of the tool. -/
  toolDirty : ToolHelper → List (List B) → (ℕ → B) → T → List B × (ℕ → B) × T
  /-- The result of a dirty call whose guard is false. -/
  skipped : List B
  /-- Whether a store-conditional succeeds. -/
  storeSucceeds : Addr → List B → (Addr → B) → Bool
  /-- The flag that tells whether a store-conditional has succeeded. -/
  flag : Bool → List B

/-- The state of an execution. -/
structure State (B T : Type) where
  tmp : IRTemp → List B
  /-- The guest state, followed by the shadow guest states. -/
  reg : ℕ → B
  mem : Addr → B
  /-- The `shadow_mem_buffer` of the tool. -/
  buf : ℕ → B
  tool : T

variable {B T : Type}

/-! ### Accesses -/

/-- Read `n` bytes from the guest state. -/
def readReg (f : ℕ → B) (offset n : ℕ) : List B := (List.range n).map fun k => f (offset + k)

/-- Write bytes to the guest state. -/
def writeReg (f : ℕ → B) (offset : ℕ) (bytes : List B) : ℕ → B :=
  fun o => if offset ≤ o then bytes.getD (o - offset) (f o) else f o

/-- Read `n` bytes from memory. -/
def readMem (f : Addr → B) (a : Addr) (n : ℕ) : List B :=
  (List.range n).map fun k => f (a + BitVec.ofNat 64 k)

/-- Write bytes to memory. -/
def writeMem (f : Addr → B) (a : Addr) (bytes : List B) : Addr → B :=
  fun x => bytes.getD (x - a).toNat (f x)

section Maps

variable {C : Type} (f : B → C)

theorem map_readReg (r : ℕ → B) (offset n : ℕ) :
    (readReg r offset n).map f = readReg (fun o => f (r o)) offset n := by
  simp [readReg, Function.comp_def]

theorem map_readMem (m : Addr → B) (a : Addr) (n : ℕ) :
    (readMem m a n).map f = readMem (fun a => f (m a)) a n := by
  simp [readMem, Function.comp_def]

theorem apply_writeReg (r : ℕ → B) (offset : ℕ) (bytes : List B) (o : ℕ) :
    f (writeReg r offset bytes o) = writeReg (fun o => f (r o)) offset (bytes.map f) o := by
  unfold writeReg
  split
  · rw [List.getD_map]
  · rfl

theorem apply_writeMem (m : Addr → B) (a : Addr) (bytes : List B) (x : Addr) :
    f (writeMem m a bytes x) = writeMem (fun a => f (m a)) a (bytes.map f) x := by
  unfold writeMem
  rw [List.getD_map]

end Maps

/-- The bytes of a value in the order in which they are in memory. -/
def IREndness.order : IREndness → List B → List B
  | .le, bytes => bytes
  | .be, bytes => bytes.reverse

/-- The offset of an element of a circular array: the index is taken modulo the
number of elements. -/
def IRRegArray.offset (descr : IRRegArray) (ix bias : ℤ) : ℕ :=
  descr.base + ((ix + bias) % descr.nElems).toNat * sizeofIRType descr.elemTy

/-- Whether an address is the one of the tool's buffer. -/
def IRExpr.bufferOffset? : IRExpr → Option ℕ
  | .const (.bufferAddr _ k) => some k
  | _ => none

/-! ### Expressions -/

mutual

/-- The value of an expression. -/
def evalExpr (I : Interp B) (s : State B T) : IRExpr → List B
  | .get offset ty => readReg s.reg offset (sizeofIRType ty)
  | .getI descr ix bias =>
      readReg s.reg (descr.offset (I.index (evalExpr I s ix)) bias) (sizeofIRType descr.elemTy)
  | .rdTmp tmp => s.tmp tmp
  | .qop op a b c d => I.op op [evalExpr I s a, evalExpr I s b, evalExpr I s c, evalExpr I s d]
  | .triop op a b c => I.op op [evalExpr I s a, evalExpr I s b, evalExpr I s c]
  | .binop op a b => I.op op [evalExpr I s a, evalExpr I s b]
  | .unop op a => I.op op [evalExpr I s a]
  | .load endness ty addr =>
      match addr.bufferOffset? with
      | some k => endness.order (readReg s.buf k (sizeofIRType ty))
      | none => endness.order (readMem s.mem (I.addr (evalExpr I s addr)) (sizeofIRType ty))
  | .const con => I.const con
  | .ite cond iftrue iffalse =>
      if I.isTrue (evalExpr I s cond) then evalExpr I s iftrue else evalExpr I s iffalse
  | .ccall cee _ args => I.ccall cee (evalExprs I s args)
  | .vecret => []
  | .gsptr => []

/-- The values of several expressions. -/
def evalExprs (I : Interp B) (s : State B T) : List IRExpr → List (List B)
  | [] => []
  | e :: es => evalExpr I s e :: evalExprs I s es

end

/-! ### Statements -/

/-- A side exit that has been taken. -/
structure SideExit where
  jk : ℕ
  dst : BitVec 64
  offsIP : ℕ
  deriving DecidableEq, Repr

/-- Store a value in a temporary. -/
def State.setTmp (s : State B T) (tmp : IRTemp) (v : List B) : State B T :=
  { s with tmp := Function.update s.tmp tmp v }

/-- Store a value in a temporary, if there is one. -/
def State.setTmp? (s : State B T) (tmp : Option IRTemp) (v : List B) : State B T :=
  match tmp with
  | some t => s.setTmp t v
  | none => s

/-- Store a value in memory, or in the buffer of the tool. -/
def State.storeAt (s : State B T) (I : Interp B) (endness : IREndness) (addr : IRExpr)
    (v : List B) : State B T :=
  match addr.bufferOffset? with
  | some k => { s with buf := writeReg s.buf k (endness.order v) }
  | none => { s with mem := writeMem s.mem (I.addr (evalExpr I s addr)) (endness.order v) }

/-- The conversion of a guarded load, and the number of bytes loaded. -/
def IRLoadGOp.convert (I : Interp B) : IRLoadGOp → List B → List B
  | .identV128, v => v
  | .ident64, v => v
  | .ident32, v => v
  | .cvt16Uto32, v => I.op (.unMove .op16Uto32) [v]
  | .cvt16Sto32, v => I.op (.signWiden .op16Sto32) [v]
  | .cvt8Uto32, v => I.op (.unMove .op8Uto32) [v]
  | .cvt8Sto32, v => I.op (.signWiden .op8Sto32) [v]

@[inherit_doc IRLoadGOp.convert]
def IRLoadGOp.size : IRLoadGOp → ℕ
  | .identV128 => 16
  | .ident64 => 8
  | .ident32 => 4
  | .cvt16Uto32 => 2
  | .cvt16Sto32 => 2
  | .cvt8Uto32 => 1
  | .cvt8Sto32 => 1

/-- The comparison of integers of `n` bytes. -/
def cmpEQ (n : ℕ) : IROp :=
  if n = 1 then .helper .cmpEQ8 else if n = 2 then .helper .cmpEQ16
  else if n = 4 then .helper .cmpEQ32 else .helper .cmpEQ64

/-- The address `k` bytes behind another one.  Addresses of `n` bytes wrap around. -/
def addrAfter (n : ℕ) (a : Addr) (k : ℕ) : Addr := BitVec.ofNat 64 ((a.toNat + k) % 2 ^ (8 * n))

/-- Compare-and-swap: the temporaries get the previous contents of memory, which
are replaced if they are the expected ones. -/
def execCAS (I : Interp B) (d : IRCAS) (s : State B T) : State B T :=
  let expdLo := evalExpr I s d.expdLo
  let size := expdLo.length
  let dataLo := evalExpr I s d.dataLo
  let addr := I.addr (evalExpr I s d.addr)
  let next := addrAfter (evalExpr I s d.addr).length addr size
  match d.oldHi, d.expdHi, d.dataHi with
  | some oldHi, some expdHi, some dataHi =>
      let addrLo := if d.endness = .le then addr else next
      let addrHi := if d.endness = .le then next else addr
      let oldLoV := d.endness.order (readMem s.mem addrLo size)
      let oldHiV := d.endness.order (readMem s.mem addrHi size)
      let s' := (s.setTmp d.oldLo oldLoV).setTmp oldHi oldHiV
      if I.isTrue (I.op (cmpEQ size) [expdLo, oldLoV]) &&
          I.isTrue (I.op (cmpEQ size) [evalExpr I s expdHi, oldHiV]) then
        let mem := writeMem s.mem addrLo (d.endness.order dataLo)
        { s' with mem := writeMem mem addrHi (d.endness.order (evalExpr I s dataHi)) }
      else s'
  | _, _, _ =>
      let oldLoV := d.endness.order (readMem s.mem addr size)
      let s' := s.setTmp d.oldLo oldLoV
      if I.isTrue (I.op (cmpEQ size) [expdLo, oldLoV]) then
        { s' with mem := writeMem s.mem addr (d.endness.order dataLo) }
      else s'

/-- Dirty calls.  A call whose guard is false is not made. -/
def execDirty (M : Machine B T) (d : IRDirty) (s : State B T) : State B T :=
  if M.isTrue (evalExpr M.toInterp s d.guard) then
    let args := evalExprs M.toInterp s d.args
    match d.cee with
    | .guest name =>
        let r := M.guestDirty name args
          (fun o => if o < M.guestSize then s.reg o else M.zero) s.mem
        { s.setTmp? d.tmp r.1 with
          reg := fun o => if o < M.guestSize then r.2.1 o else s.reg o
          mem := r.2.2 }
    | .tool helper =>
        let r := M.toolDirty helper args s.buf s.tool
        { s.setTmp? d.tmp r.1 with buf := r.2.1, tool := r.2.2 }
  else s.setTmp? d.tmp M.skipped

/-- Execute a statement; a side exit may be taken. -/
def execStmt (M : Machine B T) (tyenv : List IRType) :
    IRStmt → State B T → State B T × Option SideExit
  | .noOp, s => (s, none)
  | .iMark .., s => (s, none)
  | .abiHint .., s => (s, none)
  | .put offset data, s =>
      ({ s with reg := writeReg s.reg offset (evalExpr M.toInterp s data) }, none)
  | .putI descr ix bias data, s =>
      let offset := descr.offset (M.index (evalExpr M.toInterp s ix)) bias
      ({ s with reg := writeReg s.reg offset (evalExpr M.toInterp s data) }, none)
  | .wrTmp tmp data, s => (s.setTmp tmp (evalExpr M.toInterp s data), none)
  | .store endness addr data, s =>
      (s.storeAt M.toInterp endness addr (evalExpr M.toInterp s data), none)
  | .storeG endness addr data guard, s =>
      if M.isTrue (evalExpr M.toInterp s guard) then
        (s.storeAt M.toInterp endness addr (evalExpr M.toInterp s data), none)
      else (s, none)
  | .loadG endness cvt dst addr alt guard, s =>
      if M.isTrue (evalExpr M.toInterp s guard) then
        (s.setTmp dst (cvt.convert M.toInterp (endness.order
          (readMem s.mem (M.addr (evalExpr M.toInterp s addr)) cvt.size))), none)
      else (s.setTmp dst (evalExpr M.toInterp s alt), none)
  | .cas details, s => (execCAS M.toInterp details s, none)
  | .llsc endness result addr none, s =>
      (s.setTmp result (endness.order (readMem s.mem (M.addr (evalExpr M.toInterp s addr))
        ((tyenv[result]?.map sizeofIRType).getD 0))), none)
  | .llsc endness result addr (some data), s =>
      let a := M.addr (evalExpr M.toInterp s addr)
      let v := evalExpr M.toInterp s data
      let ok := M.storeSucceeds a v s.mem
      let s' := s.setTmp result (M.flag ok)
      (if ok then { s' with mem := writeMem s.mem a (endness.order v) } else s', none)
  | .dirty details, s => (execDirty M details s, none)
  | .mbe, s => (s, none)
  | .exit guard jk dst offsIP, s =>
      if M.isTrue (evalExpr M.toInterp s guard) then (s, some ⟨jk, dst, offsIP⟩) else (s, none)

/-- Execute statements until a side exit is taken. -/
def execStmts (M : Machine B T) (tyenv : List IRType) :
    List IRStmt → State B T → State B T × Option SideExit
  | [], s => (s, none)
  | st :: sts, s =>
      match execStmt M tyenv st s with
      | (s', none) => execStmts M tyenv sts s'
      | (s', some e) => (s', some e)

/-- Running two lists of statements one after the other. -/
theorem execStmts_append (M : Machine B T) (tyenv : List IRType) :
    ∀ (sts sts' : List IRStmt) (s : State B T), execStmts M tyenv (sts ++ sts') s
      = match execStmts M tyenv sts s with
        | (s', none) => execStmts M tyenv sts' s'
        | (s', some e) => (s', some e) := by
  intro sts sts'
  induction sts with
  | nil => intro s; rfl
  | cons st sts ih =>
    intro s
    rw [List.cons_append, execStmts, execStmts]
    rcases execStmt M tyenv st s with ⟨s₁, _ | e⟩
    · exact ih s₁
    · rfl

end Derivgrind
