import Derivgrind.Instrument.Transparent
import Derivgrind.Lib.Lockstep
import Derivgrind.Tape.Record

/-!
# Processes under Derivgrind

The core of Valgrind runs one thread at a time, one superblock after the other.  The superblock
at an address is translated from the bytes in memory, and instrumented.  In between, the kernel
and the core act on what they see of the process, and the client makes requests.

## Main definitions

* `Process`, `ClientView` — a process, and what the client and the kernel see of it.
* `Core.run` — a process runs for some slices.

## Main results

* `process_transparent` — **a process under Derivgrind does what it does without.**
-/

namespace Derivgrind

/-- What the client and the kernel see of a process: the guest states of the threads, without
the shadow guest states, the address where each thread continues, and memory. -/
structure ClientView (g : ℕ) (B : Type) where
  regs : ThreadId → Fin g → B
  pc : ThreadId → Addr
  mem : Addr → B

/-- A process. -/
structure Process (B T : Type) where
  regs : ThreadId → ℕ → B
  pc : ThreadId → Addr
  mem : Addr → B
  buf : ℕ → B
  tool : T

/-- What happens next. -/
inductive Slice (g : ℕ) (B R : Type)
  /-- A thread executes a superblock. -/
  | block (tid : ThreadId)
  /-- The kernel or the core acts on what can be seen of the process, such as in a system call.
  (When the core starts a thread, delivers a signal or returns from it, it also copies, saves or
  restores shadow registers; this is left out.) -/
  | kernel (f : ClientView g B → ClientView g B)
  /-- A client request. -/
  | request (r : R)

/-- The core: the machine as each thread sees it, how superblocks are fetched and translated,
and what requests do. -/
structure Core (B T R : Type) where
  machine : ThreadId → Machine B T
  fetch : (Addr → B) → Addr → Option IRSB
  translate : IRSB → Option IRSB
  request : R → Process B T → Process B T

section Runs

variable {B T R : Type} {g : ℕ}

/-- What can be seen of a process. -/
def Process.view (g : ℕ) (p : Process B T) : ClientView g B :=
  ⟨fun tid o => p.regs tid o, p.pc, p.mem⟩

/-- Replace what can be seen of a process. -/
def Process.withView (p : Process B T) (v : ClientView g B) : Process B T :=
  { p with
    regs := fun tid o => if h : o < g then v.regs tid ⟨o, h⟩ else p.regs tid o
    pc := v.pc
    mem := v.mem }

/-- The values of temporaries before they are assigned. -/
def freshTmps (zero : B) (tyenv : List IRType) : IRTemp → List B := fun t =>
  List.replicate ((tyenv[t]?.map sizeofIRType).getD 0) zero

/-- The state in which a thread starts to execute a superblock. -/
def Process.enter (zero : B) (p : Process B T) (tid : ThreadId) (tyenv : List IRType) : State B T :=
  ⟨freshTmps zero tyenv, p.regs tid, p.mem, p.buf, p.tool⟩

/-- The process after a thread has executed a superblock. -/
def Process.leave (p : Process B T) (tid : ThreadId) (s : State B T) (pc : Addr) : Process B T :=
  ⟨Function.update p.regs tid s.reg, Function.update p.pc tid pc, s.mem, s.buf, s.tool⟩

/-- Execute a superblock. -/
def Core.runBlock (C : Core B T R) (tid : ThreadId) (sb : IRSB) (p : Process B T) : Process B T :=
  let M := C.machine tid
  match execStmts M sb.tyenv sb.stmts (p.enter M.zero tid sb.tyenv) with
  | (s, some e) => p.leave tid s e.dst
  | (s, none) => p.leave tid s (M.addr (evalExpr M.toInterp s sb.next))

/-- One slice. -/
def Core.step (C : Core B T R) (p : Process B T) : Slice g B R → Option (Process B T)
  | .block tid => do
      let sb ← C.fetch p.mem (p.pc tid)
      let sb' ← C.translate sb
      some (C.runBlock tid sb' p)
  | .kernel f => some (p.withView (f (p.view g)))
  | .request r => some (C.request r p)

/-- A process runs. -/
def Core.run (C : Core B T R) (slices : List (Slice g B R)) (p : Process B T) :
    Option (Process B T) :=
  slices.foldlM C.step p

/-- Without Derivgrind, superblocks are not instrumented, and requests have no effect. -/
def Core.native (C : Core B T R) : Core B T R :=
  { C with translate := some, request := fun _ p => p }

theorem view_withView (p : Process B T) (v : ClientView g B) : (p.withView v).view g = v := by
  unfold Process.view Process.withView
  congr 1
  funext tid o
  exact dif_pos o.isLt

/-- The temporaries of a superblock have the same values when more are declared. -/
theorem freshTmps_prefix (zero : B) {tyenv tyenv' : List IRType} (h : tyenv <+: tyenv') {t : IRTemp}
    (ht : t < tyenv.length) : freshTmps zero tyenv' t = freshTmps zero tyenv t := by
  obtain ⟨tys, rfl⟩ := h
  rw [freshTmps, freshTmps, List.getElem?_append_left ht]

/-- Two processes that look alike enter a superblock. -/
theorem primalEq_enter {p p' : Process B T} (h : p.view g = p'.view g) (zero : B) (tid : ThreadId)
    {tyenv tyenv' : List IRType} (htyenv : tyenv <+: tyenv') :
    PrimalEq tyenv.length g (p.enter zero tid tyenv') (p'.enter zero tid tyenv) := by
  refine ⟨fun t ht => freshTmps_prefix zero htyenv ht, fun o ho => ?_, congrArg ClientView.mem h⟩
  exact congrFun (congrFun (congrArg ClientView.regs h) tid) ⟨o, ho⟩

/-- They leave it. -/
theorem view_leave {n : ℕ} {p p' : Process B T} (h : p.view g = p'.view g) (tid : ThreadId)
    {s s' : State B T} (hs : PrimalEq n g s s') (pc : Addr) :
    (p.leave tid s pc).view g = (p'.leave tid s' pc).view g := by
  have hregs := congrArg ClientView.regs h
  have hpc : p.pc = p'.pc := congrArg ClientView.pc h
  unfold Process.view Process.leave
  rw [hs.mem, hpc]
  congr 1
  funext tid' o
  dsimp only
  by_cases htid : tid' = tid
  · rw [htid, Function.update_self, Function.update_self]
    exact hs.reg o o.isLt
  · rw [Function.update_of_ne htid, Function.update_of_ne htid]
    exact congrFun (congrFun hregs tid') o

/-- **An instrumented superblock** leaves a process that looks like the one after the original
superblock. -/
theorem view_runBlock (C : Core B T R) {o : Options} {wordTy : IRType} {sb sb' : IRSB}
    (tid : ThreadId) (hg : (C.machine tid).guestSize = g) (hbounds : sb.inBounds g = true)
    (hcas : ∀ st ∈ sb.stmts, st.isCAS = false) (hout : dgInstrument o g wordTy sb = some sb')
    {p p' : Process B T} (h : p.view g = p'.view g) :
    (C.runBlock tid sb' p).view g = (C.native.runBlock tid sb p').view g := by
  subst hg
  obtain ⟨us, tys, sts, -, hsb'⟩ := dgInstrument_eq_some hout
  have hnext : sb'.next = sb.next := by rw [hsb']
  have htyenv : sb.tyenv <+: sb'.tyenv := by
    rw [hsb', shadowedTyenv, List.append_assoc]
    exact List.prefix_append _ _
  have hnextBounds : sb.next.inBounds sb.tyenv.length (C.machine tid).guestSize = true := by
    rw [IRSB.inBounds, Bool.and_eq_true] at hbounds
    exact hbounds.2
  have hexec := execStmts_dgInstrument hbounds hcas hout
    (primalEq_enter h (C.machine tid).zero tid htyenv)
  unfold Core.runBlock
  dsimp only [Core.native]
  rcases h₁ : execStmts (C.machine tid) sb'.tyenv sb'.stmts
      (p.enter (C.machine tid).zero tid sb'.tyenv) with ⟨s₁, _ | e⟩ <;>
    rcases h₂ : execStmts (C.machine tid) sb.tyenv sb.stmts
      (p'.enter (C.machine tid).zero tid sb.tyenv) with ⟨s₂, _ | e'⟩ <;> rw [h₁, h₂] at hexec
  · dsimp only
    rw [hnext, evalExpr_primalEq hexec.1 sb.next hnextBounds]
    exact view_leave h tid hexec.1 _
  · exact absurd hexec.2 (by simp)
  · exact absurd hexec.2 (by simp)
  · obtain rfl := Option.some_inj.mp hexec.2
    exact view_leave h tid hexec.1 _

/-- **Each slice** keeps what can be seen the same. -/
theorem view_step (C : Core B T R) {o : Options} {wordTy : IRType}
    (hC : C.translate = dgInstrument o g wordTy) (hg : ∀ tid, (C.machine tid).guestSize = g)
    (hfetch : ∀ mem a sb, C.fetch mem a = some sb → sb.inBounds g = true ∧
      (∀ st ∈ sb.stmts, st.isCAS = false) ∧ (dgInstrument o g wordTy sb).isSome = true)
    (hrequest : ∀ r p, (C.request r p).view g = p.view g) (slice : Slice g B R)
    {p p' : Process B T} (h : p.view g = p'.view g) :
    (C.step p slice).map (Process.view g) = (C.native.step p' slice).map (Process.view g) := by
  cases slice with
  | block tid =>
    have hmem : p.mem = p'.mem := congrArg ClientView.mem h
    have hpc : p.pc = p'.pc := congrArg ClientView.pc h
    simp only [Core.step, hmem, hpc, hC]
    change _ = Option.map _ ((C.fetch p'.mem (p'.pc tid)).bind fun sb => some _)
    cases hsb : C.fetch p'.mem (p'.pc tid) with
    | none => rfl
    | some sb =>
      obtain ⟨hbounds, hcas, hsome⟩ := hfetch _ _ sb hsb
      obtain ⟨sb', hsb'⟩ := Option.isSome_iff_exists.mp hsome
      simp only [Option.bind_eq_bind, Option.bind_some, hsb', Option.map_some]
      exact congrArg some (view_runBlock C tid (hg tid) hbounds hcas hsb' h)
  | kernel f =>
    simp only [Core.step, Option.map_some, view_withView, h]
  | request r =>
    simp only [Core.step, Option.map_some]
    exact congrArg some ((hrequest r p).trans h)

/-- **A process under Derivgrind does what it does without**: in every mode, for any interleaving
of its threads, and whatever the kernel does, the registers, the memory and the addresses where
the threads continue are those of the uninstrumented process, after any number of slices.
Superblocks may not contain compare-and-swap, assertions of the tool may not fail, and requests
may only change the state of the tool. -/
theorem process_transparent (C : Core B T R) (o : Options) (wordTy : IRType)
    (hC : C.translate = dgInstrument o g wordTy) (hg : ∀ tid, (C.machine tid).guestSize = g)
    (hfetch : ∀ mem a sb, C.fetch mem a = some sb → sb.inBounds g = true ∧
      (∀ st ∈ sb.stmts, st.isCAS = false) ∧ (dgInstrument o g wordTy sb).isSome = true)
    (hrequest : ∀ r p, (C.request r p).view g = p.view g) (slices : List (Slice g B R))
    (p p' : Process B T) (h : p.view g = p'.view g) :
    (C.run slices p).map (Process.view g) = (C.native.run slices p').map (Process.view g) := by
  have hlockstep : (C.run slices p).map (Process.view g)
      = (C.native.run (slices.map id) p').map (Process.view g) := by
    refine Lockstep.foldlM_map ?_ h
    intro slice _ p p' h
    exact view_step C hC hg hfetch hrequest slice h
  rwa [List.map_id] at hlockstep

end Runs

/-- A program with one superblock, which is recorded; no request is made. -/
def moveCore : Core Byte Unit Empty where
  machine _ := Machine.idle (hostInterp FpSem.zeros Interp.silent) 32
  fetch _ a := if a = 0 then some moveBlock else none
  translate := dgInstrument ⟨.b, false, false⟩ 32 .i64
  request r := r.elim

/-- Two threads execute the superblock from processes with different shadow registers, and the
kernel clears memory in between. -/
theorem process_transparent_moveBlock :
    (moveCore.run (g := 32)
        [.block 1, .kernel fun v => { v with mem := fun _ => 0 }, .block 0]
        ⟨fun _ o => if o < 32 then 7 else 1, fun _ => 0, fun _ => 5, fun _ => 0, ()⟩).map
          (Process.view 32)
      = (moveCore.native.run (g := 32)
        [.block 1, .kernel fun v => { v with mem := fun _ => 0 }, .block 0]
        ⟨fun _ _ => 7, fun _ => 0, fun _ => 5, fun _ => 0, ()⟩).map (Process.view 32) := by
  refine process_transparent moveCore ⟨.b, false, false⟩ .i64 rfl (fun _ => rfl) ?_
    (fun r => r.elim) _ _ _ ?_
  · intro mem a sb hsb
    obtain ⟨-, rfl⟩ : a = 0 ∧ moveBlock = sb := by simpa [moveCore] using hsb
    exact ⟨by decide, by decide, rfl⟩
  · unfold Process.view
    congr 1
    funext tid o
    exact if_pos o.isLt

end Derivgrind
