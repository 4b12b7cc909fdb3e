import Derivgrind.Instrument.Discrete
import Derivgrind.Instrument.Process

/-!
# Processes in forward mode

A process under Derivgrind in forward mode, and a process that computes with dual numbers and is
not instrumented.  The requests `DG_SET_DOTVALUE` and `DG_GET_DOTVALUE` copy between the primal
parts of one range of memory and the epsilon parts of another one.  The kernel does not know of
the epsilon parts, and leaves them as they are.

## Main definitions

* `DotRequest` — the requests of forward mode, and what they do to both processes.
* `Core.dual` — the process that computes with dual numbers.
* `DualProcess` — the parts of its state are the state and the shadow of the other process.

## Main results

* `process_dual` — **forward mode computes with dual numbers**, in processes.
-/

namespace Derivgrind

variable {K B T T' : Type} [Field K] {g : ℕ}

/-! ### Requests -/

/-- The client requests of forward mode. -/
inductive DotRequest
  | getDotvalue (addr daddr : Addr) (size : ℕ)
  | setDotvalue (addr daddr : Addr) (size : ℕ)
  deriving DecidableEq, Repr

/-- The number of bytes that are copied. -/
def DotRequest.size : DotRequest → ℕ
  | getDotvalue _ _ size => size
  | setDotvalue _ _ size => size

/-- `dg_dot_shadowGet` and `dg_dot_shadowSet`, as the requests call them. -/
structure DotAccess (B T : Type) where
  get : T → Addr → ℕ → List B
  set : T → Addr → List B → T

/-- They act on a byte map, if the size fits into an `int`. -/
structure DotAccess.Lawful (A : DotAccess B T) (Shadows : T → (ℕ → Addr → B) → Prop) : Prop where
  get_eq : ∀ {t mem}, Shadows t mem → ∀ a n, n < 2 ^ 31 → A.get t a n = readMem (mem 0) a n
  set_shadows : ∀ {t mem}, Shadows t mem → ∀ a (v : List B), v.length < 2 ^ 31 →
    Shadows (A.set t a v) fun k => writeMem (mem k) a v

/-- `dg_handle_client_request`, for the requests of forward mode. -/
def DotAccess.request (A : DotAccess B T) : DotRequest → Process B T → Process B T
  | .getDotvalue addr daddr size, p => { p with mem := writeMem p.mem daddr (A.get p.tool addr size) }
  | .setDotvalue addr daddr size, p => { p with tool := A.set p.tool addr (readMem p.mem daddr size) }

/-- What the requests mean: dot values are epsilon parts. -/
def dualRequest : DotRequest → Process (B × B) T' → Process (B × B) T'
  | .getDotvalue addr daddr size, d =>
      { d with mem := fun x =>
          (writeMem (fun y => (d.mem y).1) daddr (readMem (fun y => (d.mem y).2) addr size) x,
            (d.mem x).2) }
  | .setDotvalue addr daddr size, d =>
      { d with mem := fun x =>
          ((d.mem x).1,
            writeMem (fun y => (d.mem y).2) addr (readMem (fun y => (d.mem y).1) daddr size) x) }

/-! ### The process that computes with dual numbers -/

/-- What the kernel sees of dual numbers. -/
def ClientView.primal (v : ClientView g (B × B)) : ClientView g B :=
  ⟨fun tid o => (v.regs tid o).1, v.pc, fun a => (v.mem a).1⟩

/-- The kernel replaces primal parts. -/
def ClientView.replacePrimal (v : ClientView g (B × B)) (u : ClientView g B) :
    ClientView g (B × B) :=
  ⟨fun tid o => (u.regs tid o, (v.regs tid o).2), u.pc, fun a => (u.mem a, (v.mem a).2)⟩

/-- The same slice, with dual numbers. -/
def Slice.dual : Slice g B DotRequest → Slice g (B × B) DotRequest
  | .block tid => .block tid
  | .kernel f => .kernel fun v => v.replacePrimal (f v.primal)
  | .request r => .request r

/-- The process that computes with dual numbers. -/
def Core.dual (C : Core B T DotRequest) (D : ThreadId → Machine (B × B) T') :
    Core (B × B) T' DotRequest where
  machine := D
  fetch mem a := C.fetch (fun x => (mem x).1) a
  translate := some
  request := dualRequest

/-- The primal parts are what can be seen of a process, and the epsilon parts are its shadow. -/
structure DualProcess (g : ℕ) (Shadows : T → (ℕ → Addr → B) → Prop) (p : Process B T)
    (d : Process (B × B) T') : Prop where
  regs : ∀ tid, ∀ o < g, p.regs tid o = (d.regs tid o).1
  pc : p.pc = d.pc
  mem : ∀ a, p.mem a = (d.mem a).1
  shadowRegs : ∀ tid, ∀ o < g, p.regs tid (o + g) = (d.regs tid o).2
  shadowMem : Shadows p.tool fun _ a => (d.mem a).2

section Steps

variable {N : Numbers K B} {I : Interp B} {F : FpSem B} {F' : FpSem (B × B)}
  {Shadows : T → (ℕ → Addr → B) → Prop} {A : DotAccess B T} {C : Core B T DotRequest}
  {D : ThreadId → Machine (B × B) T'} {returns : IRCallee → IRType} {w : IRType}
  {p : Process B T} {d : Process (B × B) T'}

theorem DualProcess.view (h : DualProcess g Shadows p d) : p.view g = (d.view g).primal := by
  unfold Process.view ClientView.primal
  rw [h.pc, funext h.mem]
  congr 1
  funext tid o
  exact h.regs tid o o.isLt

/-- **The kernel** keeps the parts. -/
theorem DualProcess.kernel (h : DualProcess g Shadows p d) (f : ClientView g B → ClientView g B) :
    DualProcess g Shadows (p.withView (f (p.view g)))
      (d.withView ((d.view g).replacePrimal (f (d.view g).primal))) := by
  rw [h.view]
  refine ⟨fun tid o ho => ?_, rfl, fun _ => rfl, fun tid o ho => ?_, h.shadowMem⟩
  · simp only [Process.withView, ClientView.replacePrimal, dif_pos ho]
  · simp only [Process.withView, ClientView.replacePrimal, dif_pos ho]
    rw [dif_neg (by omega), h.shadowRegs tid o ho]
    rfl

/-- **Requests** keep the parts. -/
theorem DualProcess.request (hA : A.Lawful Shadows)
    (hcongr : ∀ {t mem mem'}, Shadows t mem → mem 0 = mem' 0 → Shadows t mem')
    (h : DualProcess g Shadows p d) {r : DotRequest} (hr : r.size < 2 ^ 31) :
    DualProcess g Shadows (A.request r p) (dualRequest r d) := by
  cases r with
  | getDotvalue addr daddr size =>
    refine ⟨h.regs, h.pc, fun a => ?_, h.shadowRegs, h.shadowMem⟩
    show writeMem p.mem daddr (A.get p.tool addr size) a = _
    rw [hA.get_eq h.shadowMem addr size hr, funext h.mem]
    rfl
  | setDotvalue addr daddr size =>
    refine ⟨h.regs, h.pc, h.mem, h.shadowRegs, ?_⟩
    show Shadows (A.set p.tool addr (readMem p.mem daddr size)) _
    have hlen : (readMem p.mem daddr size).length < 2 ^ 31 := by
      rw [readMem, List.length_map, List.length_range]
      exact hr
    refine hcongr (hA.set_shadows h.shadowMem addr _ hlen) ?_
    rw [funext h.mem]
    rfl

/-- Entering a superblock. -/
theorem DualProcess.enter (h : DualProcess g Shadows p d) (z : B) (tid : ThreadId)
    (tyenv tys : List IRType) :
    PrimalPart tyenv.length g (p.enter z tid (shadowedTyenv 1 tyenv ++ tys))
        (d.enter (z, z) tid tyenv) ∧
      EpsilonPart tyenv.length g Shadows (p.enter z tid (shadowedTyenv 1 tyenv ++ tys))
        (d.enter (z, z) tid tyenv) ∧ (d.enter (z, z) tid tyenv).Typed tyenv := by
  have hshadowed : shadowedTyenv 1 tyenv ++ tys = tyenv ++ (tyenv ++ tys) := by
    simp [shadowedTyenv]
  rw [hshadowed]
  refine ⟨⟨fun t ht => ?_, h.regs tid, h.mem⟩, ⟨fun t ht => ?_, h.shadowRegs tid, h.shadowMem⟩,
    fun t ty hty => ?_⟩
  · simp only [Process.enter, freshTmps, List.map_replicate, List.getElem?_append_left ht]
  · simp only [Process.enter, freshTmps, List.map_replicate,
      List.getElem?_append_right (Nat.le_add_left _ t), Nat.add_sub_cancel,
      List.getElem?_append_left ht]
  · simp only [Process.enter, freshTmps, hty, Option.map_some, Option.getD_some,
      List.length_replicate]

/-- Leaving a superblock. -/
theorem DualProcess.leave {n : ℕ} (h : DualProcess g Shadows p d) (tid : ThreadId) {s : State B T}
    {e : State (B × B) T'} (hp : PrimalPart n g s e) (hε : EpsilonPart n g Shadows s e) (pc : Addr) :
    DualProcess g Shadows (p.leave tid s pc) (d.leave tid e pc) := by
  refine ⟨fun tid' o ho => ?_, ?_, hp.mem, fun tid' o ho => ?_, hε.mem⟩
  · simp only [Process.leave]
    by_cases htid : tid' = tid
    · rw [htid, Function.update_self, Function.update_self]
      exact hp.reg o ho
    · rw [Function.update_of_ne htid, Function.update_of_ne htid]
      exact h.regs tid' o ho
  · simp only [Process.leave, h.pc]
  · simp only [Process.leave]
    by_cases htid : tid' = tid
    · rw [htid, Function.update_self, Function.update_self]
      exact hε.reg o ho
    · rw [Function.update_of_ne htid, Function.update_of_ne htid]
      exact h.shadowRegs tid' o ho

/-- **Superblocks** keep the parts: the original one acts on dual numbers as the instrumented one
acts on the client and on the shadow, and both go on at the same address. -/
theorem DualProcess.runBlock (tid : ThreadId)
    (hM : DualMachines N I F F' (C.machine tid) (D tid) Shadows) (hI : I.Sized returns)
    {o : Options} (ho : o.mode = .d) {sb : IRSB} (hsb : sb.Covered returns g w)
    (h : DualProcess g Shadows p d) :
    ∃ sb', dgInstrument o g w sb = some sb' ∧
      DualProcess g Shadows (C.runBlock tid sb' p) ((C.dual D).runBlock tid sb d) := by
  have hzero : (C.machine tid).zero = N.zero := congrArg Interp.zero hM.primal
  have hzero' : (D tid).zero = (N.zero, N.zero) := congrArg Interp.zero hM.dual
  -- The instrumented superblock does not depend on the state.
  obtain ⟨hp₀, hε₀, hd₀⟩ := h.enter N.zero tid sb.tyenv []
  obtain ⟨tys, out, hemit, -⟩ := dgInstrument_covered hM hI ho hsb hp₀ hε₀ hd₀
  obtain ⟨hp, hε, hd⟩ := h.enter N.zero tid sb.tyenv tys
  obtain ⟨tys', out', hemit', hagrees⟩ := dgInstrument_covered hM hI ho hsb hp hε hd
  obtain ⟨-, rfl⟩ : tys = tys' ∧ out = out' := by
    simpa using Option.some_inj.mp (hemit.symm.trans hemit')
  refine ⟨_, hemit, ?_⟩
  have hexec := hagrees (shadowedTyenv 1 sb.tyenv ++ tys)
  have hnextBounds : sb.next.inBounds sb.tyenv.length g = true := by
    have hbounds := hsb.inBounds
    rw [IRSB.inBounds, Bool.and_eq_true] at hbounds
    exact hbounds.2
  unfold Core.runBlock
  simp only [Core.dual, hzero, hzero']
  rcases h₁ : execStmts (C.machine tid) (shadowedTyenv 1 sb.tyenv ++ tys) out
      (p.enter N.zero tid (shadowedTyenv 1 sb.tyenv ++ tys)) with ⟨s₁, _ | e⟩ <;>
    rcases h₂ : execStmts (D tid) sb.tyenv sb.stmts (d.enter (N.zero, N.zero) tid sb.tyenv)
      with ⟨d₁, _ | e'⟩ <;> rw [h₁, h₂] at hexec
  · have hnext : (C.machine tid).addr (evalExpr (C.machine tid).toInterp s₁ sb.next)
        = (D tid).addr (evalExpr (D tid).toInterp d₁ sb.next) := by
      rw [hM.primal, hM.dual, hexec.1.eval_atom F' hsb.next hnextBounds]
      rfl
    simp only [hnext]
    exact h.leave tid hexec.1 hexec.2.1 _
  · cases hexec.2.2
  · cases hexec.2.2
  · obtain rfl := Option.some_inj.mp hexec.2.2
    exact h.leave tid hexec.1 hexec.2.1 _

/-- **Each slice** keeps the parts. -/
theorem DualProcess.step (hM : ∀ tid, DualMachines N I F F' (C.machine tid) (D tid) Shadows)
    (hI : I.Sized returns) (hA : A.Lawful Shadows) (o : Options) (ho : o.mode = .d)
    (hC : C.translate = dgInstrument o g w) (hrequest : C.request = A.request)
    (hfetch : ∀ mem a sb, C.fetch mem a = some sb → sb.Covered returns g w)
    (slice : Slice g B DotRequest) (hsize : ∀ r, Slice.request r = slice → r.size < 2 ^ 31)
    (h : DualProcess g Shadows p d) :
    Option.Rel (DualProcess g Shadows) (C.step p slice) ((C.dual D).step d slice.dual) := by
  cases slice with
  | block tid =>
    simp only [Core.step, Slice.dual, h.pc, funext h.mem, hC]
    change Option.Rel _ _ (Option.bind (C.fetch _ _) fun sb => some _)
    cases hsb : C.fetch (fun a => (d.mem a).1) (d.pc tid) with
    | none => exact .none
    | some sb =>
      obtain ⟨sb', hsb', hrun⟩ := h.runBlock tid (hM tid) hI ho (hfetch _ _ sb hsb)
      simp only [Option.bind_eq_bind, Option.bind_some, hsb']
      exact .some hrun
  | kernel f => exact .some (h.kernel f)
  | request r =>
    simp only [Core.step, Slice.dual, hrequest]
    refine .some (h.request hA (fun ht hmem => (hM 0).shadow.congr ht fun k hk => ?_)
      (hsize r rfl))
    obtain rfl : k = 0 := Nat.lt_one_iff.mp hk
    exact hmem

/-- **Forward mode computes with dual numbers**: under Derivgrind, a process holds the primal and
epsilon parts of the same process on dual numbers, for any interleaving of its threads, whatever
the kernel does, and with requests that set and get dot values, after any number of slices.
Superblocks consist of covered statements. -/
theorem process_dual (hM : ∀ tid, DualMachines N I F F' (C.machine tid) (D tid) Shadows)
    (hI : I.Sized returns) (hA : A.Lawful Shadows) (o : Options) (ho : o.mode = .d)
    (hC : C.translate = dgInstrument o g w) (hrequest : C.request = A.request)
    (hfetch : ∀ mem a sb, C.fetch mem a = some sb → sb.Covered returns g w)
    (slices : List (Slice g B DotRequest))
    (hsize : ∀ r, Slice.request r ∈ slices → r.size < 2 ^ 31) (h : DualProcess g Shadows p d) :
    Option.Rel (DualProcess g Shadows) (C.run slices p)
      ((C.dual D).run (slices.map Slice.dual) d) := by
  refine Lockstep.foldlM_rel (fun slice hslice p d h => ?_) h
  refine h.step hM hI hA o ho hC hrequest hfetch slice fun r hr => hsize r ?_
  rwa [hr]

end Steps

/-- The interpretation of VEX on dual numbers. -/
def Numbers.dualInterp {K B : Type} [Field K] (N : Numbers K B) (I : Interp B) (F' : FpSem (B × B)) :
    Interp (B × B) :=
  (I.dual N.zero).exact N.dual F'

/-! ### Rational numbers -/

section Rational

/-- The first bytes of a value, filled with zeros. -/
def padBytes (n : ℕ) (v : List ℚ) : List ℚ := (List.range n).map fun i => v.getD i 0

/-- The results of discrete operations are given the right sizes. -/
def sizedInterp : Interp ℚ :=
  { ratInterp with
    op := fun op vs =>
      if op.isDiscrete then padBytes (sizeofIRType (typeOfPrimop op).dst) (ratOp op vs)
      else ratOp op vs
    ccall := fun _ _ => ratBytes 8 0 }

theorem sized_sizedInterp : sizedInterp.Sized fun _ => .i64 where
  op op vs h _ := by
    show (if op.isDiscrete = true then _ else _ : List ℚ).length = _
    rw [if_pos h, padBytes, List.length_map, List.length_range]
  ccall _ _ := rfl

theorem exact_sizedInterp : sizedInterp.Exact ratNumbers where
  length_const := exact_ratInterp.length_const
  const_zeroed := exact_ratInterp.const_zeroed
  two64 := rfl
  two32 := rfl
  isTrue_true := rfl
  isLess_zero l x hx := by
    rw [← exact_ratInterp.isLess_zero l x hx]
    cases l <;> rfl
  shifts left size a n := List.length_replicate

/-- A machine with exact arithmetic. -/
def sizedMachine : Machine ℚ (Addr → ℚ) :=
  { ratMachine with toInterp := sizedInterp.exact ratNumbers (FpSem.unused ℚ) }

/-- A machine with dual numbers. -/
def sizedDualMachine : Machine (ℚ × ℚ) Unit :=
  { ratDualMachine with
    toInterp := ratNumbers.dualInterp sizedInterp (FpSem.unused (ℚ × ℚ)) }

theorem dualMachines_sized : DualMachines ratNumbers sizedInterp (FpSem.unused ℚ)
    (FpSem.unused (ℚ × ℚ)) sizedMachine sizedDualMachine ratShadows where
  exact := exact_sizedInterp
  primal := rfl
  dual := rfl
  shadow := {
    isTrue_true := rfl
    layers_pos := Nat.one_pos
    congr := dualMachines_rat.shadow.congr
    store := dualMachines_rat.shadow.store
    load := dualMachines_rat.shadow.load }

/-- Shadow memory is a map. -/
def ratAccess : DotAccess ℚ (Addr → ℚ) where
  get t a n := readMem t a n
  set t a v := writeMem t a v

theorem lawful_ratAccess : ratAccess.Lawful ratShadows where
  get_eq := by
    rintro t mem rfl a n -
    rfl
  set_shadows := by
    rintro t mem rfl a v -
    rfl

/-- Load a number, compare it with zero, and store its square. -/
def loadSquareBlock : IRSB where
  tyenv := [.f64, .f64, .i32]
  stmts :=
    [.iMark 0 1 0, .wrTmp 0 (.load .le .f64 (.const (.u64 16))),
      .wrTmp 2 (.binop (.helper .cmpF64) (.rdTmp 0) (.const (.f64 0))),
      .wrTmp 1 (.triop (.arith .mul .f64) (.const (.u32 0)) (.rdTmp 0) (.rdTmp 0)),
      .store .le (.const (.u64 64)) (.rdTmp 1)]
  next := .const (.u64 0)

/-- A program with one superblock. -/
def squareCore : Core ℚ (Addr → ℚ) DotRequest where
  machine _ := sizedMachine
  fetch _ a := if a = 0 then some loadSquareBlock else none
  translate := dgInstrument dotOptions 16 .i64
  request := ratAccess.request

/-- The number three at address 16, and its dot value at address 32. -/
def squareMemory (a : Addr) : ℚ := if a = 16 then 3 else if a = 32 then 1 else 0

/-- The dot value is set, the square is computed by the second thread, the kernel does nothing,
and the dot value of the square is written to address 72. -/
def squareSlices : List (Slice 16 ℚ DotRequest) :=
  [.request (.setDotvalue 16 32 8), .block 1, .kernel id, .request (.getDotvalue 64 72 8)]

/-- The square of three has the derivative six. -/
theorem process_dual_square :
    ∃ p, squareCore.run squareSlices ⟨fun _ _ => 0, fun _ => 0, squareMemory, fun _ => 0, fun _ => 0⟩
        = some p ∧ p.mem 64 = 9 ∧ p.mem 72 = 6 := by
  have hdual : ((squareCore.dual fun _ => sizedDualMachine).run (squareSlices.map Slice.dual)
      ⟨fun _ _ => 0, fun _ => 0, fun a => (squareMemory a, 0), fun _ => 0, ()⟩).map
        (fun d => ((d.mem 64).1, (d.mem 72).1)) = some (9, 6) := by
    decide +kernel
  have hrel := process_dual (N := ratNumbers) (F := FpSem.unused ℚ) (C := squareCore)
    (D := fun _ => sizedDualMachine) (fun _ => dualMachines_sized) sized_sizedInterp
    lawful_ratAccess dotOptions rfl rfl rfl
    (by
      intro mem a sb hsb
      obtain ⟨-, rfl⟩ : a = 0 ∧ loadSquareBlock = sb := by simpa [squareCore] using hsb
      exact ⟨by decide, by decide, by decide, by decide, by decide, by decide⟩)
    squareSlices (by
      intro r hr
      simp only [squareSlices, List.mem_cons, Slice.request.injEq, reduceCtorEq,
        List.not_mem_nil, false_or, or_false] at hr
      rcases hr with rfl | rfl <;> decide)
    (p := ⟨fun _ _ => 0, fun _ => 0, squareMemory, fun _ => 0, fun _ => 0⟩)
    (d := ⟨fun _ _ => 0, fun _ => 0, fun a => (squareMemory a, 0), fun _ => 0, ()⟩)
    ⟨fun _ _ _ => rfl, rfl, fun _ => rfl, fun _ _ _ => rfl, rfl⟩
  obtain ⟨d, hd, hmem⟩ := Option.map_eq_some_iff.mp hdual
  rw [hd] at hrel
  cases hp : squareCore.run squareSlices
      ⟨fun _ _ => 0, fun _ => 0, squareMemory, fun _ => 0, fun _ => 0⟩ with
  | none =>
    rw [hp] at hrel
    cases hrel
  | some p =>
    rw [hp] at hrel
    cases hrel with
    | some h =>
      refine ⟨p, rfl, ?_, ?_⟩
      · rw [h.mem]
        exact congrArg Prod.fst hmem
      · rw [h.mem]
        exact congrArg Prod.snd hmem

end Rational

end Derivgrind
