import Derivgrind.Client.Wrapper

/-!
# Brackets in forward mode

According to `derivgrind.h`, a bracket of `DG_DISABLE(1,0)` and `DG_DISABLE(0,1)` has no
influence on dot values.  However, wrappers of math functions take the same counter to
tell whether they have been called by another wrapper.  Inside a bracket, they leave the
dot value of the result as the code of the math library has computed it.

## Main definitions

* `Program` — a program of a client, with brackets.
* `Meaning` — what its operations and the math library do.
* `DotsUnaffected` — dot values are the same as without brackets.

## Main results

* `Code.run_forward` — code ends in forward mode, and leaves the tape and the counters alone.
* `dotsUnaffected_iff` — **when brackets have no influence.**
-/

namespace Derivgrind

/-! ### Forward mode -/

section Forward

variable {C : Type} {R : RunContext}

theorem wrapperForward_idle (f : MathFunction) (site : CallSite C)
    {derivX derivY : Session C → Option (Session C)} (x y ret : Datum) {s : Session C}
    (hX : Idle derivX s) (hY : Idle derivY s) :
    ∃ ret', wrapperForward R f site derivX derivY x y ret s = some (ret', s.dgDisable R 0 1) := by
  obtain ⟨s₁, -, hevalX⟩ := evalExpression_idle site.derivX hX
  obtain ⟨v, hevalY, -⟩ := evalExpressionIf_idle f.binary site.derivY hY
  exact ⟨_, Option.bind_eq_some_iff.mpr ⟨_, hevalX, Option.bind_eq_some_iff.mpr
    ⟨_, hevalY, rfl⟩⟩⟩

/-- **Code ends in forward mode**, and leaves the tape and the counters alone. -/
theorem Code.run_forward (hmode : R.mode = .d) (p : Code C) :
    ∀ s : Session C, ∃ c, p.run R s = some ⟨c, s.tape⟩ := by
  induction p with
  | skip => exact fun s => ⟨s.client, rfl⟩
  | seq p q ihp ihq =>
    intro s
    obtain ⟨c₁, hp⟩ := ihp s
    obtain ⟨c₂, hq⟩ := ihq ⟨c₁, s.tape⟩
    exact ⟨c₂, Option.bind_eq_some_iff.mpr ⟨_, hp, hq⟩⟩
  | op request finish =>
    intro s
    refine ⟨finish 0 s.client, ?_⟩
    rw [Code.run, hmode]
    rfl
  | call f site orig derivX derivY ihO ihX ihY =>
    intro s
    obtain ⟨c₁, horig⟩ := ihO (s.dgDisable R 1 0)
    set s₁ : Session C := ⟨c₁, (s.dgDisable R 1 0).tape⟩ with hs₁
    -- Partial derivatives are computed while the thread is disabled, or not at all.
    have hshadow : ∀ disabled, ∃ ret, wrapperShadow R f site (derivX.run R) (derivY.run R) disabled
        (site.x s.client) (site.y s.client) (site.orig c₁) s₁ = some (ret, s₁.dgDisable R 0 1) := by
      intro disabled
      cases disabled with
      | true => exact ⟨_, rfl⟩
      | false =>
        obtain ⟨c₂, hX⟩ := ihX s₁
        obtain ⟨c₃, hY⟩ := ihY s₁
        rw [wrapperShadow, hmode]
        exact wrapperForward_idle f site _ _ _ ⟨_, hX, rfl⟩ ⟨_, hY, rfl⟩
    obtain ⟨ret, hret⟩ := hshadow (decide ((dgDisableRequest R.tid 1 0 s.tape).1 ≠ 0))
    have hclose : (s₁.dgDisable R 0 1).tape = s.tape := dgDisable_close_tape rfl
    refine ⟨site.assign ret c₁, Option.bind_eq_some_iff.mpr ⟨_, horig,
      Option.bind_eq_some_iff.mpr ⟨_, hret, ?_⟩⟩⟩
    rw [← hclose]
    rfl
  | bracket body ih =>
    intro s
    obtain ⟨c, hbody⟩ := ih (s.dgDisable R 1 0)
    have hclose : (Session.dgDisable R 0 1 ⟨c, (s.dgDisable R 1 0).tape⟩).tape = s.tape :=
      dgDisable_close_tape rfl
    refine ⟨c, Option.bind_eq_some_iff.mpr ⟨_, hbody, ?_⟩⟩
    rw [← hclose]
    rfl

end Forward

/-! ### Programs -/

/-- A program of a client: operations, calls of wrapped functions, and brackets. -/
inductive Program (Op Fn : Type)
  | skip
  | seq (p q : Program Op Fn)
  | op (a : Op)
  | call (f : Fn)
  | bracket (body : Program Op Fn)

/-- A call of a wrapped function, with the code of the math library. -/
structure WrappedCall (C : Type) where
  f : MathFunction
  site : CallSite C
  orig : Code C
  derivX : Code C
  derivY : Code C

/-- What operations and calls mean. -/
structure Program.Meaning (Op Fn : Type) where
  /-- The state of the client: variables and their dot values. -/
  C : Type
  Var : Type
  dot : C → Var → List Byte
  op : Op → C → C
  fn : Fn → WrappedCall C

namespace Program

variable {Op Fn : Type}

/-- The code of a program. -/
def code (I : Meaning Op Fn) : Program Op Fn → Code I.C
  | .skip => .skip
  | .seq p q => .seq (p.code I) (q.code I)
  | .op a => .op (fun _ => none) fun _ => I.op a
  | .call f => .call (I.fn f).f (I.fn f).site (I.fn f).orig (I.fn f).derivX (I.fn f).derivY
  | .bracket body => .bracket (body.code I)

/-- The program without brackets. -/
def withoutBrackets : Program Op Fn → Program Op Fn
  | .skip => .skip
  | .seq p q => .seq p.withoutBrackets q.withoutBrackets
  | .op a => .op a
  | .call f => .call f
  | .bracket body => body.withoutBrackets

/-- All calls are made while the counter is zero, where `n` brackets are open.  The counter has
64 bits. -/
def CallsEnabled : ℕ → Program Op Fn → Prop
  | _, .skip => True
  | n, .seq p q => p.CallsEnabled n ∧ q.CallsEnabled n
  | _, .op _ => True
  | n, .call _ => BitVec.ofNat 64 n = 0
  | n, .bracket body => body.CallsEnabled (n + 1)

end Program

/-- For any operations and any math library, the dot values of all variables are the same with
and without brackets. -/
def DotsUnaffected {Op Fn : Type} (o : TapeOptions) (tid : ThreadId) (A : CArith)
    (p : Program Op Fn) : Prop :=
  ∀ (I : Program.Meaning Op Fn) (c : I.C) (tape : TapeState), tape.dgDisable tid = 0 →
    ∃ s s', (p.code I).run ⟨.d, o, tid, A⟩ ⟨c, tape⟩ = some s ∧
      (p.withoutBrackets.code I).run ⟨.d, o, tid, A⟩ ⟨c, tape⟩ = some s' ∧
      I.dot s.client = I.dot s'.client

/-! ### Calls outside of brackets -/

section Unaffected

variable {Op Fn : Type} {R : RunContext}

/-- The counter of the thread is set to zero. -/
def TapeState.enabled (tid : ThreadId) (tape : TapeState) : TapeState :=
  { tape with dgDisable := Function.update tape.dgDisable tid 0 }

theorem TapeState.enabled_of_eq_zero {tid : ThreadId} {tape : TapeState}
    (h : tape.dgDisable tid = 0) : tape.enabled tid = tape := by
  have hupdate : Function.update tape.dgDisable tid 0 = tape.dgDisable := by
    rw [← h]
    exact Function.update_eq_self tid tape.dgDisable
  rw [TapeState.enabled, hupdate]

/-- The counter inside a bracket. -/
theorem enabled_dgDisable {C : Type} (s : Session C) :
    (s.dgDisable R 1 0).tape.enabled R.tid = s.tape.enabled R.tid := by
  unfold TapeState.enabled Session.dgDisable dgDisableRequest
  simp only [Function.update_idem]

/-- Code without calls inside of brackets does the same as without brackets. -/
theorem Program.run_withoutBrackets (hmode : R.mode = .d) (I : Program.Meaning Op Fn)
    (p : Program Op Fn) :
    ∀ (n : ℕ) (c : I.C) (tape : TapeState), p.CallsEnabled n →
      tape.dgDisable R.tid = BitVec.ofNat 64 n →
      ∃ c', (p.code I).run R ⟨c, tape⟩ = some ⟨c', tape⟩ ∧
        (p.withoutBrackets.code I).run R ⟨c, tape.enabled R.tid⟩
          = some ⟨c', tape.enabled R.tid⟩ := by
  induction p with
  | skip => exact fun n c tape _ _ => ⟨c, rfl, rfl⟩
  | seq p q ihp ihq =>
    intro n c tape hcalls hn
    obtain ⟨c₁, hp, hp'⟩ := ihp n c tape hcalls.1 hn
    obtain ⟨c₂, hq, hq'⟩ := ihq n c₁ tape hcalls.2 hn
    exact ⟨c₂, Option.bind_eq_some_iff.mpr ⟨_, hp, hq⟩, Option.bind_eq_some_iff.mpr ⟨_, hp', hq'⟩⟩
  | op a =>
    intro n c tape _ _
    refine ⟨I.op a c, ?_, ?_⟩
    · rw [code, Code.run, hmode]
      rfl
    · rw [withoutBrackets, code, Code.run, hmode]
      rfl
  | call f =>
    intro n c tape hcalls hn
    obtain ⟨c', hrun⟩ := Code.run_forward hmode ((Program.call f).code I) ⟨c, tape⟩
    -- Calls are made outside of brackets, where the thread is enabled anyway.
    rw [TapeState.enabled_of_eq_zero (hn.trans hcalls)]
    exact ⟨c', hrun, hrun⟩
  | bracket body ih =>
    intro n c tape hcalls hn
    set s : Session I.C := ⟨c, tape⟩ with hs
    have hopen : (s.dgDisable R 1 0).tape.dgDisable R.tid = BitVec.ofNat 64 (n + 1) := by
      rw [dgDisable_open_tid, BitVec.ofNat_add]
      exact congrArg (· + 1) hn
    obtain ⟨c', hbody, hbody'⟩ := ih (n + 1) c (s.dgDisable R 1 0).tape hcalls hopen
    rw [enabled_dgDisable] at hbody'
    have hclose : (Session.dgDisable R 0 1 ⟨c', (s.dgDisable R 1 0).tape⟩).tape = tape :=
      dgDisable_close_tape (s := s) rfl
    refine ⟨c', Option.bind_eq_some_iff.mpr ⟨_, hbody, ?_⟩, hbody'⟩
    exact congrArg (fun t => some (Session.mk c' t)) hclose

end Unaffected

/-! ### Calls inside of brackets -/

section Affected

variable (Op Fn : Type) (A : CArith)

/-- A variable of type `double`, whose value and dot value have these bytes. -/
def doubleOf (b : Byte) : Datum := ⟨List.replicate 8 b, List.replicate 8 b, 0, [], []⟩

/-- The dot value that is set by the wrapper in the following meaning. -/
def wrapperDot : List Byte := A.mul .double (List.replicate 8 1) (doubleOf 1).dot

/-- A dot value that the math library may compute instead. -/
def libraryDot : List Byte :=
  if wrapperDot A = (doubleOf 0).dot then (doubleOf 1).dot else (doubleOf 0).dot

/-- A call that assigns its result to a new variable.  The code of the math library computes
another dot value than the wrapper. -/
def newVariableCall : WrappedCall (List (List Byte)) where
  f := ⟨.double, false⟩
  site := {
    x := fun _ => doubleOf 1
    y := fun _ => doubleOf 1
    orig := fun _ => { doubleOf 1 with dot := libraryDot A }
    derivX := fun _ => List.replicate 8 1
    derivY := fun _ => []
    assign := fun d c => c ++ [d.dot] }
  orig := .skip
  derivX := .skip
  derivY := .skip

/-- The meaning where all calls are such calls. -/
def newVariables : Program.Meaning Op Fn where
  C := List (List Byte)
  Var := ℕ
  dot c v := c.getD v []
  op _ c := c
  fn _ := newVariableCall A

variable {Op Fn}

/-- The dot values of the new variables, where `n` brackets are open. -/
def Program.newDots : ℕ → Program Op Fn → List (List Byte)
  | _, .skip => []
  | n, .seq p q => p.newDots n ++ q.newDots n
  | _, .op _ => []
  | n, .call _ => [if BitVec.ofNat 64 n = 0 then wrapperDot A else libraryDot A]
  | n, .bracket body => body.newDots (n + 1)

theorem Program.run_newVariables (o : TapeOptions) (tid : ThreadId) (p : Program Op Fn) :
    ∀ (n : ℕ) (c : List (List Byte)) (tape : TapeState), tape.dgDisable tid = BitVec.ofNat 64 n →
      (p.code (newVariables Op Fn A)).run ⟨.d, o, tid, A⟩ ⟨c, tape⟩
        = some ⟨c ++ p.newDots A n, tape⟩ := by
  induction p with
  | skip =>
    intro n c tape _
    rw [newDots, List.append_nil]
    rfl
  | seq p q ihp ihq =>
    intro n c tape hn
    rw [newDots, ← List.append_assoc]
    exact Option.bind_eq_some_iff.mpr ⟨_, ihp n c tape hn, ihq n _ tape hn⟩
  | op a =>
    intro n c tape _
    rw [newDots, List.append_nil]
    rfl
  | call f =>
    intro n c tape hn
    set s : Session (List (List Byte)) := ⟨c, tape⟩ with hs
    have hclose : (Session.dgDisable ⟨.d, o, tid, A⟩ 0 1 (s.dgDisable ⟨.d, o, tid, A⟩ 1 0)).tape
        = tape := dgDisable_close_tape (s := s) rfl
    have hcounter : (dgDisableRequest tid 1 0 tape).1 = BitVec.ofNat 64 n := hn
    have hdots : (Program.call f : Program Op Fn).newDots A n
        = [bif decide ((dgDisableRequest tid 1 0 tape).1 ≠ 0) then libraryDot A
            else wrapperDot A] := by
      rw [newDots, hcounter]
      by_cases h0 : BitVec.ofNat 64 n = 0
      · rw [h0]
        rfl
      · rw [if_neg h0, decide_eq_true h0]
        rfl
    -- the two paths of the wrapper
    have hwrapper : ∀ disabled : Bool,
        (wrapperShadow ⟨.d, o, tid, A⟩ (newVariableCall A).f (newVariableCall A).site some some
          disabled (doubleOf 1) (doubleOf 1) { doubleOf 1 with dot := libraryDot A }
          (s.dgDisable ⟨.d, o, tid, A⟩ 1 0)).bind
            (fun r => some (Session.mk (r.2.client ++ [r.1.dot]) r.2.tape))
          = some ⟨c ++ [bif disabled then libraryDot A else wrapperDot A],
            (Session.dgDisable ⟨.d, o, tid, A⟩ 0 1 (s.dgDisable ⟨.d, o, tid, A⟩ 1 0)).tape⟩ := by
      intro disabled
      cases disabled with
      | false => rfl
      | true => rfl
    rw [hdots]
    exact (hwrapper (decide ((dgDisableRequest tid 1 0 tape).1 ≠ 0))).trans
      (congrArg (fun t => some (Session.mk _ t)) hclose)
  | bracket body ih =>
    intro n c tape hn
    set R : RunContext := ⟨.d, o, tid, A⟩ with hR
    set s : Session (List (List Byte)) := ⟨c, tape⟩ with hs
    have hopen : (s.dgDisable R 1 0).tape.dgDisable tid = BitVec.ofNat 64 (n + 1) := by
      rw [BitVec.ofNat_add]
      exact (dgDisable_open_tid (R := R) (s := s)).trans (congrArg (· + 1) hn)
    have hbody := ih (n + 1) c (s.dgDisable R 1 0).tape hopen
    have hclose : (Session.dgDisable R 0 1
        ⟨c ++ body.newDots A (n + 1), (s.dgDisable R 1 0).tape⟩).tape = tape :=
      dgDisable_close_tape (s := s) rfl
    exact Option.bind_eq_some_iff.mpr ⟨_, hbody,
      congrArg (fun t => some (Session.mk (c ++ body.newDots A (n + 1)) t)) hclose⟩

theorem libraryDot_ne_wrapperDot : libraryDot A ≠ wrapperDot A := by
  unfold libraryDot
  by_cases h : wrapperDot A = (doubleOf 0).dot
  · rw [if_pos h, h]
    decide
  · rw [if_neg h]
    exact fun h' => h h'.symm

/-- Without brackets, dot values are set by the wrapper. -/
theorem Program.newDots_withoutBrackets (p : Program Op Fn) :
    ∀ n, p.withoutBrackets.newDots A 0 = List.replicate (p.newDots A n).length (wrapperDot A) := by
  induction p with
  | skip => exact fun _ => rfl
  | seq p q ihp ihq =>
    intro n
    rw [withoutBrackets, newDots, newDots, ihp n, ihq n, List.length_append, List.replicate_add]
  | op a => exact fun _ => rfl
  | call f => exact fun _ => rfl
  | bracket body ih => exact fun n => ih (n + 1)

/-- A call inside of a bracket leaves the dot value of the math library. -/
theorem Program.libraryDot_mem_newDots (p : Program Op Fn) :
    ∀ n, ¬p.CallsEnabled n → libraryDot A ∈ p.newDots A n := by
  induction p with
  | skip => exact fun _ h => absurd trivial h
  | seq p q ihp ihq =>
    intro n h
    rw [newDots, List.mem_append]
    by_cases hp : p.CallsEnabled n
    · exact Or.inr (ihq n fun hq => h ⟨hp, hq⟩)
    · exact Or.inl (ihp n hp)
  | op a => exact fun _ h => absurd trivial h
  | call f =>
    intro n h
    have h0 : BitVec.ofNat 64 n ≠ 0 := h
    rw [newDots, if_neg h0]
    exact List.mem_singleton_self _
  | bracket body ih => exact fun n => ih (n + 1)

/-- If brackets have no influence in this meaning, all dot values are set by the wrapper. -/
theorem Program.newDots_eq_of_dotsUnaffected {o : TapeOptions} {tid : ThreadId}
    {p : Program Op Fn} (h : DotsUnaffected o tid A p) :
    ∀ v, (p.newDots A 0).getD v [] = (p.withoutBrackets.newDots A 0).getD v [] := by
  set tape : TapeState := newTape 0
  have h0 : tape.dgDisable tid = BitVec.ofNat 64 0 := rfl
  obtain ⟨s, s', hs, hs', hdot⟩ := h (newVariables Op Fn A) [] tape h0
  rw [p.run_newVariables A o tid 0 [] tape h0] at hs
  rw [p.withoutBrackets.run_newVariables A o tid 0 [] tape h0] at hs'
  rw [← Option.some_inj.mp hs, ← Option.some_inj.mp hs'] at hdot
  exact fun v => congrFun hdot v

theorem Program.callsEnabled_of_dotsUnaffected {o : TapeOptions} {tid : ThreadId}
    {p : Program Op Fn} (h : DotsUnaffected o tid A p) : p.CallsEnabled 0 := by
  by_contra hcalls
  obtain ⟨v, hv, hlibrary⟩ := List.getElem_of_mem (p.libraryDot_mem_newDots A 0 hcalls)
  have hdots := p.newDots_eq_of_dotsUnaffected A h v
  rw [p.newDots_withoutBrackets A 0, List.getD_eq_getElem?_getD, List.getD_eq_getElem?_getD,
    List.getElem?_replicate_of_lt hv, List.getElem?_eq_getElem hv, Option.getD_some,
    Option.getD_some, hlibrary] at hdots
  exact libraryDot_ne_wrapperDot A hdots

/-- **When brackets have no influence.**  For any operations and any math library, the dot values
of all variables are the same as without brackets if and only if no wrapped function is called
inside of a bracket. -/
theorem dotsUnaffected_iff (o : TapeOptions) (tid : ThreadId) (p : Program Op Fn) :
    DotsUnaffected o tid A p ↔ p.CallsEnabled 0 := by
  constructor
  · exact p.callsEnabled_of_dotsUnaffected A
  · intro hcalls I c tape h0
    obtain ⟨c', hrun, hrun'⟩ := p.run_withoutBrackets (R := ⟨.d, o, tid, A⟩) rfl I 0 c tape hcalls h0
    rw [TapeState.enabled_of_eq_zero h0] at hrun'
    exact ⟨_, _, hrun, hrun', rfl⟩

/-- Any arithmetic does. -/
def someArith : CArith := ⟨fun _ a _ => a, fun _ a _ => a, fun _ _ => 0⟩

/-- A bracket around one call. -/
def bracketedCall : Program Unit Unit := .bracket (.call ())

/-- The bracket around the call leaves the dot value of the math library. -/
theorem not_dotsUnaffected_bracketedCall :
    ((bracketedCall.code (newVariables Unit Unit someArith)).run
        ⟨.d, recordingThread.o, recordingThread.tid, someArith⟩ ⟨[], newTape 0⟩).map Session.client
      = some [(doubleOf 0).dot] ∧
    ((bracketedCall.withoutBrackets.code (newVariables Unit Unit someArith)).run
        ⟨.d, recordingThread.o, recordingThread.tid, someArith⟩ ⟨[], newTape 0⟩).map Session.client
      = some [(doubleOf 1).dot] ∧
    ¬DotsUnaffected recordingThread.o recordingThread.tid someArith bracketedCall := by
  refine ⟨?_, ?_, ?_⟩
  · exact congrArg (Option.map Session.client)
      (bracketedCall.run_newVariables someArith recordingThread.o recordingThread.tid 0 []
        (newTape 0) rfl)
  · exact congrArg (Option.map Session.client)
      (bracketedCall.withoutBrackets.run_newVariables someArith recordingThread.o
        recordingThread.tid 0 [] (newTape 0) rfl)
  · intro h
    have hcalls : BitVec.ofNat 64 1 = 0 := bracketedCall.callsEnabled_of_dotsUnaffected _ h
    exact absurd hcalls (by decide)

end Affected

end Derivgrind
