import Derivgrind.Tape.Append
import Derivgrind.Vex.Host

/-!
# Wrappers of math functions

The functions of `math.h` are replaced by wrappers, whose C code is generated by
`gen_replace_math.py`.  A wrapper calls the original function, and evaluates partial
derivatives analytically.  Both may call wrapped functions again, and all of this
happens while `dg_disable` is incremented.  If the counter has been nonzero before, the
wrapper leaves the shadow of the result as the original function has computed it.

The code of a client is a tree of what is executed: operations, calls of wrapped
functions with what these execute, and brackets of `DG_DISABLE(1,0)` and
`DG_DISABLE(0,1)`.

## Main definitions

* `Code` — the code of a client.
* `wrapper` — the wrapper of a math function.
* `Code.run` — running the code.

## Main results

* `Code.run_balanced` — the counters have their initial values afterwards.
* `Code.run_disabled` — nothing is recorded while the counter is nonzero.
* `wrapper_recordsOnce` — **a call records one block at most.**
-/

namespace Derivgrind

/-! ### Client code -/

/-- The floating-point types of C. -/
inductive CType
  | double
  | float
  | longDouble
  deriving DecidableEq, Repr

/-- `size`, in bytes. -/
def CType.size : CType → ℕ
  | .double => 8
  | .float => 4
  | .longDouble => 10

/-- A variable of the client with its shadow; which part of the shadow is in use depends on the
mode. -/
structure Datum where
  value : List Byte
  /-- The dot value, in forward mode. -/
  dot : List Byte
  /-- The index, in recording mode. -/
  index : ULong
  /-- The activity and discreteness flags, in bit-trick-finding mode. -/
  activity : List Byte
  discreteness : List Byte
  deriving DecidableEq, Repr

/-- The parameters of the classes of `gen_replace_math.py`: the type, and whether there are two
floating-point arguments, as in `DERIVGRIND_MATH_FUNCTION2`.  The classes
`DERIVGRIND_MATH_FUNCTION` and `DERIVGRIND_MATH_FUNCTION2x` have one, the latter besides an extra
argument. -/
structure MathFunction where
  type : CType
  binary : Bool
  deriving DecidableEq, Repr

/-- How a call is embedded into the client, whose state has type `C`. -/
structure CallSite (C : Type) where
  x : C → Datum
  y : C → Datum
  /-- What the original function has returned. -/
  orig : C → Datum
  /-- The values of the partial derivatives, once they have been evaluated. -/
  derivX : C → List Byte
  derivY : C → List Byte
  /-- The result of the call is assigned. -/
  assign : Datum → C → C

/-- The code that a client executes. -/
inductive Code (C : Type)
  | skip
  | seq (p q : Code C)
  /-- An operation.  In recording mode, it may make a request to the tape, whose result is then
  used. -/
  | op (request : C → Option Request) (finish : ULong → C → C)
  /-- A call of a wrapped function, with the code of the original function and of the partial
  derivatives. -/
  | call (f : MathFunction) (site : CallSite C) (orig derivX derivY : Code C)
  /-- Code between `DG_DISABLE(1,0)` and `DG_DISABLE(0,1)`. -/
  | bracket (body : Code C)

/-- The arithmetic of C. -/
structure CArith where
  mul : CType → List Byte → List Byte → List Byte
  add : CType → List Byte → List Byte → List Byte
  /-- The conversion to `double`. -/
  toDouble : CType → List Byte → ULong

/-- The states of the client and of the tape. -/
structure Session (C : Type) where
  client : C
  tape : TapeState

/-- What a run depends on. -/
structure RunContext where
  mode : Mode
  o : TapeOptions
  tid : ThreadId
  A : CArith

section Run

variable {C : Type} (R : RunContext)

/-- `DG_DISABLE(plus,minus)`. -/
def Session.dgDisable (plus minus : ULong) (s : Session C) : Session C :=
  { s with tape := (dgDisableRequest R.tid plus minus s.tape).2 }

/-- Evaluate an expression, which does not change variables of the client. -/
def evalExpression (code : Session C → Option (Session C)) (value : C → List Byte)
    (s : Session C) : Option (List Byte × Session C) := do
  let s' ← code s
  some (value s'.client, { s with tape := s'.tape })

/-- Evaluate an expression that is there only in some wrappers. -/
def evalExpressionIf (present : Bool) (code : Session C → Option (Session C))
    (value : C → List Byte) (s : Session C) : Option (List Byte × Session C) :=
  if present then evalExpression code value s else some ([], s)

/-- Whether the call of `dg_trick_warn_clientcode` returns.  If there is something to warn about,
the loop that prints the flags counts an unsigned number down to zero and beyond, and does not
end; `TrickReport` has the function itself. -/
def warnsClientcode (fLo fHi : List Byte) (size : ℕ) : Option Unit :=
  if (List.range size).any fun i => fLo.getD i 0 &&& fHi.getD i 0 ≠ 0 then none else some ()

/-- Whether one of the activity flags is set. -/
def anyActive (fLo : List Byte) (size : ℕ) : Bool :=
  (List.range size).any fun i => fLo.getD i 0 ≠ 0

/-- The part of a wrapper for forward mode. -/
def wrapperForward (f : MathFunction) (site : CallSite C)
    (derivX derivY : Session C → Option (Session C)) (x y ret : Datum) (s : Session C) :
    Option (Datum × Session C) := do
  let xD := x.dot
  let yD := y.dot
  let (dx, s) ← evalExpression derivX site.derivX s
  let (dy, s) ← evalExpressionIf f.binary derivY site.derivY s
  let retD := if f.binary then R.A.add f.type (R.A.mul f.type dx xD) (R.A.mul f.type dy yD)
    else R.A.mul f.type dx xD
  some ({ ret with dot := retD }, s.dgDisable R 0 1)

/-- The part of a wrapper for recording mode. -/
def wrapperRecording (f : MathFunction) (site : CallSite C)
    (derivX derivY : Session C → Option (Session C)) (x y ret : Datum) (s : Session C) :
    Option (Datum × Session C) := do
  let xI := x.index
  let yI := if f.binary then y.index else 0
  let (dx, s) ← evalExpression derivX site.derivX s
  let (dy, s) ← evalExpressionIf f.binary derivY site.derivY s
  let xPdiff := R.A.toDouble f.type dx
  let yPdiff := if f.binary then R.A.toDouble f.type dy else 0
  let s := s.dgDisable R 0 1
  let (retI, tape) ← Request.perform R.o R.tid
    ⟨true, xI, yI, xPdiff, yPdiff, R.A.toDouble f.type ret.value⟩ s.tape
  some ({ ret with index := retI }, { s with tape := tape })

/-- The part of a wrapper for bit-trick-finding mode. -/
def wrapperTrick (f : MathFunction) (x y ret : Datum) (s : Session C) :
    Option (Datum × Session C) := do
  let s := s.dgDisable R 0 1
  warnsClientcode x.activity x.discreteness f.type.size
  warnsClientcode y.activity y.discreteness (if f.binary then f.type.size else 0)
  let active := anyActive x.activity f.type.size || (f.binary && anyActive y.activity f.type.size)
  let xA := List.replicate f.type.size (if active then 0xff else 0)
  some ({ ret with activity := xA, discreteness := List.replicate f.type.size 0 }, s)

/-- What a wrapper does after the call of the original function. -/
def wrapperShadow (f : MathFunction) (site : CallSite C)
    (derivX derivY : Session C → Option (Session C)) (alreadyDisabled : Bool) (x y ret : Datum)
    (s : Session C) : Option (Datum × Session C) :=
  if !alreadyDisabled then
    match R.mode with
    | .d => wrapperForward R f site derivX derivY x y ret s
    | .b => wrapperRecording R f site derivX derivY x y ret s
    | .t => wrapperTrick R f x y ret s
  else some (ret, s.dgDisable R 0 1)

/-- The wrapper of a math function. -/
def wrapper (f : MathFunction) (site : CallSite C)
    (orig derivX derivY : Session C → Option (Session C)) (s : Session C) :
    Option (Session C) := do
  let x := site.x s.client
  let y := site.y s.client
  let alreadyDisabled := (dgDisableRequest R.tid 1 0 s.tape).1 ≠ 0
  let s ← orig (s.dgDisable R 1 0)
  let ret := site.orig s.client
  let (ret, s) ← wrapperShadow R f site derivX derivY alreadyDisabled x y ret s
  some { s with client := site.assign ret s.client }

/-- Run code.  There is no result if the code does not end. -/
def Code.run : Code C → Session C → Option (Session C)
  | .skip, s => some s
  | .seq p q, s => (p.run s).bind q.run
  | .op request finish, s =>
      match if R.mode = .b then request s.client else none with
      | some r => do
          let (index, tape) ← r.perform R.o R.tid s.tape
          some ⟨finish index s.client, tape⟩
      | none => some { s with client := finish 0 s.client }
  | .call f site orig derivX derivY, s => wrapper R f site orig.run derivX.run derivY.run s
  | .bracket body, s => do
      let s ← body.run (s.dgDisable R 1 0)
      some (s.dgDisable R 0 1)

end Run

/-- How often the counter is incremented at the same time. -/
def Code.depth {C : Type} : Code C → ℕ
  | .skip => 0
  | .seq p q => max p.depth q.depth
  | .op _ _ => 0
  | .call _ _ orig derivX derivY => max orig.depth (max derivX.depth derivY.depth) + 1
  | .bracket body => body.depth + 1

/-! ### The counters -/

theorem flushTape_dgDisable {o : TapeOptions} {s s' : TapeState} (h : flushTape o s = some s') :
    s'.dgDisable = s.dgDisable := by
  unfold flushTape at h
  split at h
  · split at h
    · rw [← Option.some_inj.mp h]
    · obtain ⟨ws, -, h⟩ := Option.bind_eq_some_iff.mp h
      rw [← Option.some_inj.mp h]
  · rw [← Option.some_inj.mp h]

theorem tapeAddStatementNoActivityAnalysis_dgDisable {o : TapeOptions} {tid : ThreadId}
    {i1 i2 d1 d2 index : ULong} {s s' : TapeState}
    (h : tapeAddStatementNoActivityAnalysis o tid i1 i2 d1 d2 s = some (index, s')) :
    s'.dgDisable = s.dgDisable := by
  unfold tapeAddStatementNoActivityAnalysis at h
  split at h
  · rw [← (Prod.mk.inj (Option.some_inj.mp h)).2]
  · obtain ⟨b₁, -, h⟩ := Option.bind_eq_some_iff.mp h
    obtain ⟨b₂, -, h⟩ := Option.bind_eq_some_iff.mp h
    obtain ⟨b₃, -, h⟩ := Option.bind_eq_some_iff.mp h
    obtain ⟨b₄, -, h⟩ := Option.bind_eq_some_iff.mp h
    obtain ⟨s₁, hflush, h⟩ := Option.bind_eq_some_iff.mp h
    rw [← (Prod.mk.inj (Option.some_inj.mp h)).2]
    exact (flushTape_dgDisable hflush :)

theorem valuesAddStatement_dgDisable {value : ULong} {s s' : TapeState}
    (h : valuesAddStatement value s = some s') : s'.dgDisable = s.dgDisable := by
  unfold valuesAddStatement at h
  obtain ⟨b, -, h⟩ := Option.bind_eq_some_iff.mp h
  split at h
  · obtain ⟨ws, -, h⟩ := Option.bind_eq_some_iff.mp h
    rw [← Option.some_inj.mp h]
  · rw [← Option.some_inj.mp h]

/-- Requests to the tape leave the counters alone. -/
theorem Request.perform_dgDisable {o : TapeOptions} {tid : ThreadId} {r : Request}
    {index : ULong} {s s' : TapeState} (h : r.perform o tid s = some (index, s')) :
    s'.dgDisable = s.dgDisable := by
  obtain ⟨⟨i, s₁⟩, hadd, h⟩ := Option.bind_eq_some_iff.mp h
  have hs₁ : s₁.dgDisable = s.dgDisable := by
    unfold Request.add tapeAddStatement at hadd
    split at hadd
    · split at hadd
      · rw [← (Prod.mk.inj (Option.some_inj.mp hadd)).2]
      · exact tapeAddStatementNoActivityAnalysis_dgDisable hadd
    · exact tapeAddStatementNoActivityAnalysis_dgDisable hadd
  rw [← hs₁]
  simp only at h
  split at h
  · obtain ⟨s₂, hvalue, h⟩ := Option.bind_eq_some_iff.mp h
    rw [← (Prod.mk.inj (Option.some_inj.mp h)).2]
    exact valuesAddStatement_dgDisable hvalue
  · rw [← (Prod.mk.inj (Option.some_inj.mp h)).2]

/-- A request of a disabled thread has no effect. -/
theorem Request.perform_disabled {o : TapeOptions} (htype : o.typegrind = false) {tid : ThreadId}
    (r : Request) {s : TapeState} (h : s.dgDisable tid ≠ 0) :
    r.perform o tid s = some (0, s) := by
  have hadd : r.add o tid s = some (0, s) := by
    unfold Request.add tapeAddStatement tapeAddStatementNoActivityAnalysis
    rw [htype, if_pos h]
    split
    · split <;> rfl
    · rfl
  unfold Request.perform
  rw [hadd]
  show (if o.barRecordValues = true ∧ (0 : ULong) ≠ 0 then _ else _) = _
  rw [if_neg (by simp)]

section Balance

variable {C : Type} {R : RunContext} {s s' : Session C}

/-- The code leaves the counters alone. -/
def KeepsCounters (code : Session C → Option (Session C)) : Prop :=
  ∀ s s', code s = some s' → s'.tape.dgDisable = s.tape.dgDisable

/-- The end of a bracket. -/
theorem dgDisable_close (h : s'.tape.dgDisable = (s.dgDisable R 1 0).tape.dgDisable) :
    (s'.dgDisable R 0 1).tape.dgDisable = s.tape.dgDisable := by
  have hopen : (s.dgDisable R 1 0).tape.dgDisable
      = Function.update s.tape.dgDisable R.tid (s.tape.dgDisable R.tid + (1 - 0)) := rfl
  have hclose : (s'.dgDisable R 0 1).tape.dgDisable
      = Function.update s'.tape.dgDisable R.tid (s'.tape.dgDisable R.tid + (0 - 1)) := rfl
  have hcancel : s.tape.dgDisable R.tid + (1 - 0) + (0 - 1) = s.tape.dgDisable R.tid := by
    bv_omega
  rw [hclose, h, hopen, Function.update_self, Function.update_idem, hcancel,
    Function.update_eq_self]

theorem evalExpression_keeps {code : Session C → Option (Session C)} {value : C → List Byte}
    {v : List Byte} (hcode : KeepsCounters code) (h : evalExpression code value s = some (v, s')) :
    s'.tape.dgDisable = s.tape.dgDisable := by
  obtain ⟨s₁, hs₁, h⟩ := Option.bind_eq_some_iff.mp h
  rw [← (Prod.mk.inj (Option.some_inj.mp h)).2]
  exact hcode s s₁ hs₁

theorem evalExpressionIf_keeps {present : Bool} {code : Session C → Option (Session C)}
    {value : C → List Byte} {v : List Byte} (hcode : KeepsCounters code)
    (h : evalExpressionIf present code value s = some (v, s')) :
    s'.tape.dgDisable = s.tape.dgDisable := by
  unfold evalExpressionIf at h
  split at h
  · exact evalExpression_keeps hcode h
  · rw [← (Prod.mk.inj (Option.some_inj.mp h)).2]

variable {f : MathFunction} {site : CallSite C}
  {orig derivX derivY : Session C → Option (Session C)} {x y ret ret' : Datum}

theorem wrapperForward_keeps (hX : KeepsCounters derivX) (hY : KeepsCounters derivY)
    (h : wrapperForward R f site derivX derivY x y ret s = some (ret', s')) :
    ∃ s₁ : Session C, s₁.tape.dgDisable = s.tape.dgDisable ∧ s' = s₁.dgDisable R 0 1 := by
  obtain ⟨⟨dx, s₁⟩, hx, h⟩ := Option.bind_eq_some_iff.mp h
  obtain ⟨⟨dy, s₂⟩, hy, h⟩ := Option.bind_eq_some_iff.mp h
  exact ⟨s₂, (evalExpressionIf_keeps hY hy).trans (evalExpression_keeps hX hx),
    (Prod.mk.inj (Option.some_inj.mp h)).2.symm⟩

theorem wrapperRecording_keeps (hX : KeepsCounters derivX) (hY : KeepsCounters derivY)
    (h : wrapperRecording R f site derivX derivY x y ret s = some (ret', s')) :
    ∃ s₁ : Session C, s₁.tape.dgDisable = s.tape.dgDisable ∧
      s'.tape.dgDisable = (s₁.dgDisable R 0 1).tape.dgDisable := by
  obtain ⟨⟨dx, s₁⟩, hx, h⟩ := Option.bind_eq_some_iff.mp h
  obtain ⟨⟨dy, s₂⟩, hy, h⟩ := Option.bind_eq_some_iff.mp h
  obtain ⟨⟨retI, tape⟩, hperform, h⟩ := Option.bind_eq_some_iff.mp h
  refine ⟨s₂, (evalExpressionIf_keeps hY hy).trans (evalExpression_keeps hX hx), ?_⟩
  rw [← (Prod.mk.inj (Option.some_inj.mp h)).2]
  exact Request.perform_dgDisable hperform

theorem wrapperTrick_keeps (h : wrapperTrick R f x y ret s = some (ret', s')) :
    s' = s.dgDisable R 0 1 := by
  obtain ⟨-, -, h⟩ := Option.bind_eq_some_iff.mp h
  obtain ⟨-, -, h⟩ := Option.bind_eq_some_iff.mp h
  exact (Prod.mk.inj (Option.some_inj.mp h)).2.symm

/-- The bracket of a wrapper is closed on all paths. -/
theorem wrapper_keeps (hO : KeepsCounters orig) (hX : KeepsCounters derivX)
    (hY : KeepsCounters derivY) : KeepsCounters (wrapper R f site orig derivX derivY) := by
  intro s s' h
  obtain ⟨s₁, horig, h⟩ := Option.bind_eq_some_iff.mp h
  obtain ⟨⟨ret, s₂⟩, hpath, h⟩ := Option.bind_eq_some_iff.mp h
  have hs₁ := hO _ _ horig
  rw [← Option.some_inj.mp h]
  show s₂.tape.dgDisable = _
  unfold wrapperShadow at hpath
  split at hpath
  · cases hmode : R.mode with
    | d =>
      simp only [hmode] at hpath
      obtain ⟨s₃, hs₃, rfl⟩ := wrapperForward_keeps hX hY hpath
      exact dgDisable_close (hs₃.trans hs₁)
    | b =>
      simp only [hmode] at hpath
      obtain ⟨s₃, hs₃, hs₂⟩ := wrapperRecording_keeps hX hY hpath
      rw [hs₂]
      exact dgDisable_close (hs₃.trans hs₁)
    | t =>
      simp only [hmode] at hpath
      rw [wrapperTrick_keeps hpath]
      exact dgDisable_close hs₁
  · rw [← (Prod.mk.inj (Option.some_inj.mp hpath)).2]
    exact dgDisable_close hs₁

/-- **The counters have their initial values afterwards.** -/
theorem Code.run_balanced (R : RunContext) (p : Code C) : KeepsCounters (p.run R) := by
  induction p with
  | skip =>
    intro s s' h
    rw [← Option.some_inj.mp h]
  | seq p q ihp ihq =>
    intro s s' h
    obtain ⟨s₁, hp, hq⟩ := Option.bind_eq_some_iff.mp h
    exact (ihq s₁ s' hq).trans (ihp s s₁ hp)
  | op request finish =>
    intro s s' h
    rw [Code.run] at h
    split at h
    · obtain ⟨⟨index, tape⟩, hperform, h⟩ := Option.bind_eq_some_iff.mp h
      rw [← Option.some_inj.mp h]
      exact Request.perform_dgDisable hperform
    · rw [← Option.some_inj.mp h]
  | call f site orig derivX derivY ihO ihX ihY => exact wrapper_keeps ihO ihX ihY
  | bracket body ih =>
    intro s s' h
    obtain ⟨s₁, hbody, h⟩ := Option.bind_eq_some_iff.mp h
    rw [← Option.some_inj.mp h]
    exact dgDisable_close (ih _ _ hbody)

end Balance

/-! ### What is recorded -/

section Recording

variable {C : Type} {R : RunContext} {s s' : Session C}

/-- The counter is nonzero, and stays so while it is incremented up to `n` times. -/
def StaysDisabled (R : RunContext) (n : ℕ) (s : Session C) : Prop :=
  ∀ k ≤ n, s.tape.dgDisable R.tid + BitVec.ofNat 64 k ≠ 0

theorem StaysDisabled.mono {m n : ℕ} (h : StaysDisabled R n s) (hm : m ≤ n) :
    StaysDisabled R m s :=
  fun k hk => h k (le_trans hk hm)

theorem StaysDisabled.congr {n : ℕ} (h : StaysDisabled R n s) (hs : s'.tape = s.tape) :
    StaysDisabled R n s' := by
  intro k hk
  rw [hs]
  exact h k hk

theorem StaysDisabled.ne_zero {n : ℕ} (h : StaysDisabled R n s) :
    s.tape.dgDisable R.tid ≠ 0 := by
  simpa using h 0 (Nat.zero_le n)

theorem dgDisable_open_tid :
    (s.dgDisable R 1 0).tape.dgDisable R.tid = s.tape.dgDisable R.tid + 1 := by
  show Function.update s.tape.dgDisable R.tid (s.tape.dgDisable R.tid + (1 - 0)) R.tid = _
  rw [Function.update_self]
  rfl

theorem StaysDisabled.dgDisable {n : ℕ} (h : StaysDisabled R (n + 1) s) :
    StaysDisabled R n (s.dgDisable R 1 0) := by
  intro k hk
  have hstep := h (k + 1) (by omega)
  rw [dgDisable_open_tid]
  rw [BitVec.ofNat_add] at hstep
  rwa [BitVec.add_assoc, BitVec.add_comm 1]

/-- Between the increment and the decrement of the counter, the tape has not changed. -/
theorem dgDisable_close_tape (h : s'.tape = (s.dgDisable R 1 0).tape) :
    (s'.dgDisable R 0 1).tape = s.tape := by
  have hcounters : (s'.dgDisable R 0 1).tape.dgDisable = s.tape.dgDisable :=
    dgDisable_close (by rw [h])
  have hrest : (s'.dgDisable R 0 1).tape
      = { s'.tape with dgDisable := (s'.dgDisable R 0 1).tape.dgDisable } := rfl
  rw [hrest, hcounters, h]
  rfl

/-- Nothing is recorded while the code is run, which ends. -/
def Idle (code : Session C → Option (Session C)) (s : Session C) : Prop :=
  ∃ s', code s = some s' ∧ s'.tape = s.tape

/-- **Nothing is recorded while the counter is nonzero.** -/
theorem Code.run_disabled (htype : R.o.typegrind = false) (p : Code C) :
    ∀ s : Session C, StaysDisabled R p.depth s → Idle (p.run R) s := by
  induction p with
  | skip =>
    intro s _
    exact ⟨s, rfl, rfl⟩
  | seq p q ihp ihq =>
    intro s h
    obtain ⟨s₁, hp, ht₁⟩ := ihp s (h.mono (le_max_left _ _))
    obtain ⟨s₂, hq, ht₂⟩ := ihq s₁ ((h.mono (le_max_right _ _)).congr ht₁)
    exact ⟨s₂, Option.bind_eq_some_iff.mpr ⟨s₁, hp, hq⟩, ht₂.trans ht₁⟩
  | op request finish =>
    intro s h
    unfold Idle
    rw [Code.run]
    split
    · next r _ =>
      rw [r.perform_disabled htype h.ne_zero]
      exact ⟨_, rfl, rfl⟩
    · exact ⟨_, rfl, rfl⟩
  | call f site orig derivX derivY ihO _ _ =>
    intro s h
    have hdisabled : decide ((dgDisableRequest R.tid 1 0 s.tape).1 ≠ 0) = true :=
      decide_eq_true h.ne_zero
    obtain ⟨s₁, horig, ht₁⟩ := ihO (s.dgDisable R 1 0) (h.dgDisable.mono (le_max_left _ _))
    refine ⟨_, Option.bind_eq_some_iff.mpr ⟨s₁, horig, Option.bind_eq_some_iff.mpr
      ⟨(site.orig s₁.client, s₁.dgDisable R 0 1), ?_, rfl⟩⟩, dgDisable_close_tape ht₁⟩
    rw [hdisabled]
    rfl
  | bracket body ih =>
    intro s h
    obtain ⟨s₁, hbody, ht₁⟩ := ih (s.dgDisable R 1 0) h.dgDisable
    exact ⟨s₁.dgDisable R 0 1, Option.bind_eq_some_iff.mpr ⟨s₁, hbody, rfl⟩,
      dgDisable_close_tape ht₁⟩

/-- The partial derivatives that a wrapper evaluates after the call of the original function. -/
structure Evaluates (R : RunContext) (f : MathFunction) (site : CallSite C)
    (derivX derivY : Code C) (s : Session C) (dx dy : ULong) : Prop where
  x : ∃ s', derivX.run R s = some s' ∧ dx = R.A.toDouble f.type (site.derivX s'.client)
  y : if f.binary then
      ∃ s', derivY.run R s = some s' ∧ dy = R.A.toDouble f.type (site.derivY s'.client)
    else dy = 0

theorem evalExpression_idle {code : Session C → Option (Session C)} (value : C → List Byte)
    (h : Idle code s) :
    ∃ s', code s = some s' ∧ evalExpression code value s = some (value s'.client, s) := by
  obtain ⟨s', hcode, ht⟩ := h
  refine ⟨s', hcode, ?_⟩
  have hs : ({ s with tape := s'.tape } : Session C) = s := by rw [ht]
  unfold evalExpression
  rw [hcode]
  show some (value s'.client, ({ s with tape := s'.tape } : Session C)) = _
  rw [hs]

theorem evalExpressionIf_idle (present : Bool) {code : Session C → Option (Session C)}
    (value : C → List Byte) (h : Idle code s) :
    ∃ v, evalExpressionIf present code value s = some (v, s) ∧
      (present = true → ∃ s', code s = some s' ∧ v = value s'.client) := by
  obtain ⟨s', hcode, heval⟩ := evalExpression_idle value h
  cases present with
  | true => exact ⟨value s'.client, heval, fun _ => ⟨s', hcode, rfl⟩⟩
  | false => exact ⟨[], rfl, fun hfalse => absurd hfalse Bool.false_ne_true⟩

/-- The second index in the request of a wrapper. -/
def MathFunction.secondIndex (f : MathFunction) (y : Datum) : ULong :=
  if f.binary then y.index else 0

/-- The part of a wrapper for recording mode, with an enabled thread. -/
theorem wrapperRecording_enabled (htype : R.o.typegrind = false) (f : MathFunction)
    (site : CallSite C) {derivX derivY : Code C} (x y ret : Datum)
    (hX : Idle (derivX.run R) s) (hY : Idle (derivY.run R) s)
    (halloc : (s.dgDisable R 0 1).tape.Allocated)
    (hen : (s.dgDisable R 0 1).tape.dgDisable R.tid = 0) :
    ∃ dx dy tape, Evaluates R f site derivX derivY s dx dy ∧
      wrapperRecording R f site (derivX.run R) (derivY.run R) x y ret s
        = some ({ ret with index := if x.index = 0 ∧ f.secondIndex y = 0 then 0
            else s.tape.nextindex }, ⟨s.client, tape⟩) ∧
      (s.dgDisable R 0 1).tape.Appends R.o tape
        (if x.index = 0 ∧ f.secondIndex y = 0 then [] else [[x.index, f.secondIndex y, dx, dy]]) := by
  obtain ⟨s₁, hrunX, hevalX⟩ := evalExpression_idle site.derivX hX
  obtain ⟨v, hevalY, hrunY⟩ := evalExpressionIf_idle f.binary site.derivY hY
  set dx := R.A.toDouble f.type (site.derivX s₁.client) with hdx
  set dy := if f.binary then R.A.toDouble f.type v else 0 with hdy
  obtain ⟨tape, hperform, -, -, happ, -⟩ := Request.perform_enabled htype
    ⟨true, x.index, f.secondIndex y, dx, dy, R.A.toDouble f.type ret.value⟩ halloc hen
  refine ⟨dx, dy, tape, ⟨⟨s₁, hrunX, rfl⟩, ?_⟩, ?_, ?_⟩
  · split
    · next hbinary =>
      obtain ⟨s₂, hrun, rfl⟩ := hrunY hbinary
      exact ⟨s₂, hrun, by rw [hdy, if_pos hbinary]⟩
    · next hbinary => rw [hdy, if_neg hbinary]
  · refine Option.bind_eq_some_iff.mpr ⟨_, hevalX, Option.bind_eq_some_iff.mpr ⟨_, hevalY,
      Option.bind_eq_some_iff.mpr ⟨_, hperform, ?_⟩⟩⟩
    simp only [Request.newIndex, true_and]
    rfl
  · simpa only [Request.blocks, Request.block, true_and] using happ

/-- **A call records one block at most**, and leaves the counters alone. -/
theorem wrapper_recordsOnce (R : RunContext) (f : MathFunction) (site : CallSite C)
    (orig derivX derivY : Code C) (s : Session C) :
    (∀ s', (Code.call f site orig derivX derivY).run R s = some s' →
      s'.tape.dgDisable = s.tape.dgDisable) ∧
    (R.mode = .b → R.o.typegrind = false → s.tape.Allocated →
      (s.tape.dgDisable R.tid = 0 → (Code.call f site orig derivX derivY).depth < 2 ^ 64 →
        ∃ s₁ dx dy tape, orig.run R (s.dgDisable R 1 0) = some s₁ ∧
          Evaluates R f site derivX derivY s₁ dx dy ∧
          (Code.call f site orig derivX derivY).run R s = some
            ⟨site.assign { site.orig s₁.client with
                index := if (site.x s.client).index = 0 ∧ f.secondIndex (site.y s.client) = 0
                  then 0 else s.tape.nextindex } s₁.client, tape⟩ ∧
          s.tape.Appends R.o tape
            (if (site.x s.client).index = 0 ∧ f.secondIndex (site.y s.client) = 0 then []
              else [[(site.x s.client).index, f.secondIndex (site.y s.client), dx, dy]])) ∧
      (StaysDisabled R (Code.call f site orig derivX derivY).depth s →
        ∃ s', (Code.call f site orig derivX derivY).run R s = some s' ∧ s'.tape = s.tape)) := by
  refine ⟨Code.run_balanced R _ s, ?_⟩
  intro hmode htype halloc
  refine ⟨?_, Code.run_disabled htype _ s⟩
  intro hen hdepth
  rw [Code.depth] at hdepth
  -- inside, the counter is at least one
  have hinside : ∀ (p : Code C) (s' : Session C), p.depth ≤ max orig.depth
      (max derivX.depth derivY.depth) → s'.tape = (s.dgDisable R 1 0).tape → Idle (p.run R) s' := by
    intro p s' hp hs'
    refine Code.run_disabled htype p s' fun k hk => ?_
    rw [hs', dgDisable_open_tid, hen]
    intro hzero
    have hnat := congrArg BitVec.toNat hzero
    rw [BitVec.toNat_add, BitVec.toNat_add, BitVec.toNat_ofNat] at hnat
    simp at hnat
    omega
  obtain ⟨s₁, horig, ht₁⟩ := hinside orig (s.dgDisable R 1 0) (le_max_left _ _) rfl
  have hclose := dgDisable_close_tape ht₁
  obtain ⟨dx, dy, tape, heval, hrun, happ⟩ := wrapperRecording_enabled htype f site
    (site.x s.client) (site.y s.client) (site.orig s₁.client) (hinside derivX s₁ (by omega) ht₁) (hinside derivY s₁ (by omega) ht₁)
    (by rw [hclose]; exact halloc) (by rw [hclose]; exact hen)
  rw [hclose] at happ
  have hnext : s₁.tape.nextindex = s.tape.nextindex := by
    rw [ht₁]
    rfl
  rw [hnext] at hrun
  have henabled : decide ((dgDisableRequest R.tid 1 0 s.tape).1 ≠ 0) = false :=
    decide_eq_false (not_not.mpr hen)
  have hpath : wrapperShadow R f site (derivX.run R) (derivY.run R)
      (decide ((dgDisableRequest R.tid 1 0 s.tape).1 ≠ 0)) (site.x s.client) (site.y s.client)
      (site.orig s₁.client) s₁ = wrapperRecording R f site (derivX.run R) (derivY.run R)
        (site.x s.client) (site.y s.client) (site.orig s₁.client) s₁ := by
    rw [henabled, wrapperShadow, hmode]
    rfl
  exact ⟨s₁, dx, dy, tape, horig, heval, Option.bind_eq_some_iff.mpr ⟨s₁, horig,
    Option.bind_eq_some_iff.mpr ⟨_, hpath.trans hrun, rfl⟩⟩, happ⟩

end Recording

/-! ### Examples -/

/-- A thread in recording mode. -/
def recordingThread : RunContext where
  mode := .b
  o := ⟨false, false, false, none⟩
  tid := 1
  A := ⟨fun _ _ _ => [], fun _ _ _ => [], fun _ _ => 0⟩

/-- A variable with an index. -/
def activeDatum : Datum := ⟨List.replicate 8 0, [], 1, [], []⟩

/-- A call whose result is assigned to its argument. -/
def updateSite : CallSite Datum where
  x c := c
  y c := c
  orig c := c
  derivX _ := []
  derivY _ := []
  assign d _ := d

/-- An operation of the math library that is recorded if the thread is enabled. -/
def libraryOp : Code Datum := .op (fun c => some ⟨true, c.index, 0, 0, 0, 0⟩) fun _ c => c

theorem libraryOp_run (s : Session Datum) :
    libraryOp.run recordingThread s = (Request.perform recordingThread.o recordingThread.tid
      ⟨true, s.client.index, 0, 0, 0, 0⟩ s.tape).bind fun r => some ⟨s.client, r.2⟩ := rfl

/-- A new tape, with the given counter. -/
def newTape (counter : ULong) : TapeState := { dgBarTapeInitialize with dgDisable := fun _ => counter }

theorem wrapper_recordsOnce_sqrt :
    ∃ tape, (Code.call ⟨.double, false⟩ updateSite libraryOp .skip .skip).run recordingThread
        ⟨activeDatum, newTape 0⟩ = some ⟨activeDatum, tape⟩ ∧
      ∃ dx dy, (newTape 0).Appends recordingThread.o tape [[1, 0, dx, dy]] := by
  obtain ⟨s₁, dx, dy, tape, horig, -, hrun, happ⟩ :=
    ((wrapper_recordsOnce recordingThread ⟨.double, false⟩ updateSite libraryOp .skip .skip
      ⟨activeDatum, newTape 0⟩).2 rfl rfl ⟨rfl, rfl⟩).1 rfl (by decide)
  have hclient : s₁.client = activeDatum := by
    rw [libraryOp_run] at horig
    obtain ⟨⟨index, tape₁⟩, -, hs₁⟩ := Option.bind_eq_some_iff.mp horig
    rw [← Option.some_inj.mp hs₁]
    rfl
  rw [hclient] at hrun
  exact ⟨tape, hrun, dx, dy, happ⟩

/-- If the counter is minus one, it is zero while the math library is run. -/
theorem negative_counter_records :
    (newTape (-1)).dgDisable recordingThread.tid ≠ 0 ∧
      ∃ s', (Code.call ⟨.double, false⟩ updateSite libraryOp .skip .skip).run recordingThread
          ⟨activeDatum, newTape (-1)⟩ = some s' ∧
        s'.tape.nextindex = (newTape (-1)).nextindex + 1 := by
  refine ⟨by decide, ?_⟩
  set s : Session Datum := ⟨activeDatum, newTape (-1)⟩ with hs
  obtain ⟨tape, hperform, -, -, happ, -⟩ := Request.perform_enabled (o := recordingThread.o) rfl
    ⟨true, 1, 0, 0, 0, 0⟩ (s := (s.dgDisable recordingThread 1 0).tape) ⟨rfl, rfl⟩
    (show (s.dgDisable recordingThread 1 0).tape.dgDisable recordingThread.tid = 0 by decide)
  have horig : libraryOp.run recordingThread (s.dgDisable recordingThread 1 0)
      = some ⟨activeDatum, tape⟩ := by
    rw [libraryOp_run]
    exact Option.bind_eq_some_iff.mpr ⟨_, hperform, rfl⟩
  have hdisabled : decide ((dgDisableRequest recordingThread.tid 1 0 s.tape).1 ≠ 0) = true := by
    decide
  refine ⟨_, Option.bind_eq_some_iff.mpr ⟨_, horig, Option.bind_eq_some_iff.mpr
    ⟨(activeDatum, Session.dgDisable recordingThread 0 1 ⟨activeDatum, tape⟩), ?_, rfl⟩⟩, happ.1⟩
  rw [hdisabled]
  rfl

end Derivgrind
