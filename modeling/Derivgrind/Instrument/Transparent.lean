import Derivgrind.Instrument.Handle
import Derivgrind.Vex.Host

/-!
# Instrumentation is transparent

The code that Derivgrind inserts assigns only shadow temporaries and shadow
registers, stores only to Derivgrind's buffer, and calls only functions of
Derivgrind.  An instrumented superblock therefore does to the temporaries,
registers and memory of the client what the original superblock does.

## Main definitions

* `IRSB.inBounds` — a superblock uses only its own temporaries and registers.
* `ShadowOnly` — statements that do not act on the client.
* `PrimalEq` — two states that the client cannot distinguish.

## Main results

* `shadowOnly_addStatementModified` — inserted code does not act on the client.
* `execStmt_primalEq` — original statements do not depend on the shadow state.
* `dgInstrument_transparent` — **instrumentation is transparent.**
-/

namespace Derivgrind

/-! ### Superblocks of the client -/

/-- Whether a constant is an address of Derivgrind's buffer. -/
def IRConst.isBufferAddr : IRConst → Bool
  | .bufferAddr _ _ => true
  | _ => false

mutual

/-- An expression reads only temporaries below `n`, and the first `g` bytes of the guest
state. -/
def IRExpr.inBounds (n g : ℕ) : IRExpr → Bool
  | .get offset ty => offset + sizeofIRType ty ≤ g
  | .getI descr ix _ =>
      0 < descr.nElems && descr.base + descr.nElems * sizeofIRType descr.elemTy ≤ g &&
        ix.inBounds n g
  | .rdTmp tmp => tmp < n
  | .qop _ a b c d => a.inBounds n g && b.inBounds n g && c.inBounds n g && d.inBounds n g
  | .triop _ a b c => a.inBounds n g && b.inBounds n g && c.inBounds n g
  | .binop _ a b => a.inBounds n g && b.inBounds n g
  | .unop _ a => a.inBounds n g
  | .load _ _ addr => addr.inBounds n g
  | .const con => !con.isBufferAddr
  | .ite cond iftrue iffalse =>
      cond.inBounds n g && iftrue.inBounds n g && iffalse.inBounds n g
  | .ccall _ _ args => IRExpr.allInBounds n g args
  | .vecret => true
  | .gsptr => true

/-- The expressions in a list are in bounds. -/
def IRExpr.allInBounds (n g : ℕ) : List IRExpr → Bool
  | [] => true
  | e :: es => e.inBounds n g && IRExpr.allInBounds n g es

end

/-- An optional expression is in bounds. -/
def optInBounds (n g : ℕ) (e : Option IRExpr) : Bool := e.all (IRExpr.inBounds n g)

/-- A statement of the client: its expressions are in bounds, it assigns temporaries
below `n`, and it calls only functions of the guest architecture. -/
def IRStmt.inBounds (n g : ℕ) : IRStmt → Bool
  | .noOp => true
  | .iMark _ _ _ => true
  | .abiHint base _ nia => base.inBounds n g && nia.inBounds n g
  | .put _ data => data.inBounds n g
  | .putI _ ix _ data => ix.inBounds n g && data.inBounds n g
  | .wrTmp tmp data => tmp < n && data.inBounds n g
  | .store _ addr data => addr.inBounds n g && data.inBounds n g
  | .storeG _ addr data guard => addr.inBounds n g && data.inBounds n g && guard.inBounds n g
  | .loadG _ _ dst addr alt guard =>
      dst < n && addr.inBounds n g && alt.inBounds n g && guard.inBounds n g
  | .cas d => d.oldLo < n && d.oldHi.all (· < n) && d.addr.inBounds n g &&
      d.expdLo.inBounds n g && d.dataLo.inBounds n g && optInBounds n g d.expdHi &&
      optInBounds n g d.dataHi
  | .llsc _ result addr data => result < n && addr.inBounds n g && optInBounds n g data
  | .dirty d => d.guard.inBounds n g && IRExpr.allInBounds n g d.args && d.tmp.all (· < n) &&
      match d.cee with
      | .guest _ => true
      | .tool _ => false
  | .mbe => true
  | .exit guard _ _ _ => guard.inBounds n g

/-- A superblock of the client, for a guest state of `g` bytes. -/
def IRSB.inBounds (g : ℕ) (sb : IRSB) : Bool :=
  sb.stmts.all (IRStmt.inBounds sb.tyenv.length g) && sb.next.inBounds sb.tyenv.length g

/-- Whether a statement is a compare-and-swap. -/
def IRStmt.isCAS : IRStmt → Bool
  | .cas _ => true
  | _ => false

/-! ### What the client can see -/

variable {B T : Type}

/-- Two states agree on the first `n` temporaries, on the first `g` bytes of the guest
state, and on memory. -/
structure PrimalEq (n g : ℕ) (s s' : State B T) : Prop where
  tmp : ∀ t < n, s.tmp t = s'.tmp t
  reg : ∀ o < g, s.reg o = s'.reg o
  mem : s.mem = s'.mem

theorem PrimalEq.refl (n g : ℕ) (s : State B T) : PrimalEq n g s s :=
  ⟨fun _ _ => rfl, fun _ _ => rfl, rfl⟩

theorem PrimalEq.trans {n g : ℕ} {s s' s'' : State B T} (h : PrimalEq n g s s')
    (h' : PrimalEq n g s' s'') : PrimalEq n g s s'' :=
  ⟨fun t ht => (h.tmp t ht).trans (h'.tmp t ht), fun o ho => (h.reg o ho).trans (h'.reg o ho),
    h.mem.trans h'.mem⟩

/-- A statement that does not act on the client. -/
def ShadowOnly (n g : ℕ) : IRStmt → Prop
  | .wrTmp tmp _ => n ≤ tmp
  | .put offset _ => g ≤ offset
  | .putI descr _ _ _ => g ≤ descr.base
  | .store _ addr _ => addr.bufferOffset?.isSome = true
  | .dirty d => (∃ helper, d.cee = .tool helper) ∧ ∀ tmp, d.tmp = some tmp → n ≤ tmp
  | _ => False

theorem primalEq_setTmp {n g : ℕ} {s : State B T} {tmp : IRTemp} (v : List B) (h : n ≤ tmp) :
    PrimalEq n g (s.setTmp tmp v) s := by
  refine ⟨?_, fun _ _ => rfl, rfl⟩
  intro t ht
  have hne : t ≠ tmp := by omega
  exact Function.update_of_ne hne v s.tmp

theorem primalEq_setTmp? {n g : ℕ} {s : State B T} {tmp : Option IRTemp} (v : List B)
    (h : ∀ t, tmp = some t → n ≤ t) : PrimalEq n g (s.setTmp? tmp v) s := by
  cases tmp with
  | none => exact PrimalEq.refl n g s
  | some t => exact primalEq_setTmp v (h t rfl)

theorem writeReg_of_lt {f : ℕ → B} {offset o : ℕ} (bytes : List B) (h : o < offset) :
    writeReg f offset bytes o = f o := by
  rw [writeReg, if_neg (by omega)]

/-- Statements that do not act on the client do not act on it. -/
theorem execStmt_shadowOnly (M : Machine B T) (tyenv : List IRType) {n g : ℕ} {st : IRStmt}
    (h : ShadowOnly n g st) (s : State B T) :
    ∃ s', execStmt M tyenv st s = (s', none) ∧ PrimalEq n g s' s := by
  cases st with
  | wrTmp tmp data => exact ⟨_, rfl, primalEq_setTmp _ h⟩
  | put offset data =>
    refine ⟨_, rfl, fun _ _ => rfl, ?_, rfl⟩
    intro o ho
    exact writeReg_of_lt _ (lt_of_lt_of_le ho h)
  | putI descr ix bias data =>
    refine ⟨_, rfl, fun _ _ => rfl, ?_, rfl⟩
    intro o ho
    have hbase : g ≤ descr.base := h
    exact writeReg_of_lt _ (by rw [IRRegArray.offset]; omega)
  | store endness addr data =>
    obtain ⟨k, hk⟩ := Option.isSome_iff_exists.mp h
    refine ⟨_, rfl, ?_⟩
    rw [State.storeAt, hk]
    exact ⟨fun _ _ => rfl, fun _ _ => rfl, rfl⟩
  | dirty d =>
    obtain ⟨⟨helper, hcee⟩, htmp⟩ := h
    refine ⟨_, rfl, ?_⟩
    rw [execDirty, hcee]
    split
    · have hset : PrimalEq n g (s.setTmp? d.tmp
          (M.toolDirty helper (evalExprs M.toInterp s d.args) s.buf s.tool).1) s :=
        primalEq_setTmp? _ htmp
      exact ⟨hset.tmp, hset.reg, hset.mem⟩
    · exact primalEq_setTmp? _ htmp
  | _ => exact absurd h id

/-- Code that does not act on the client does not act on it. -/
theorem execStmts_shadowOnly (M : Machine B T) (tyenv : List IRType) {n g : ℕ} :
    ∀ (sts : List IRStmt), (∀ st ∈ sts, ShadowOnly n g st) → ∀ s : State B T,
    ∃ s', execStmts M tyenv sts s = (s', none) ∧ PrimalEq n g s' s := by
  intro sts
  induction sts with
  | nil => intro _ s; exact ⟨s, rfl, PrimalEq.refl n g s⟩
  | cons st sts ih =>
    intro h s
    obtain ⟨s₁, hst, heq₁⟩ := execStmt_shadowOnly M tyenv (h st List.mem_cons_self) s
    obtain ⟨s₂, hsts, heq₂⟩ := ih (fun st' hst' => h st' (List.mem_cons_of_mem st hst')) s₁
    refine ⟨s₂, ?_, heq₂.trans heq₁⟩
    rw [execStmts, hst]
    exact hsts

/-! ### Original statements -/

theorem readReg_congr {f f' : ℕ → B} {g offset n : ℕ} (h : ∀ o < g, f o = f' o)
    (hle : offset + n ≤ g) : readReg f offset n = readReg f' offset n := by
  apply List.map_congr_left
  intro k hk
  have hk : k < n := List.mem_range.mp hk
  exact h (offset + k) (by omega)

theorem IRRegArray.offset_add_le {descr : IRRegArray} {g : ℕ} (hpos : 0 < descr.nElems)
    (h : descr.base + descr.nElems * sizeofIRType descr.elemTy ≤ g) (ix bias : ℤ) :
    descr.offset ix bias + sizeofIRType descr.elemTy ≤ g := by
  have hlt : ((ix + bias) % descr.nElems).toNat < descr.nElems := by
    have hlt := Int.emod_lt_of_pos (ix + bias) (show (0 : ℤ) < descr.nElems by omega)
    have hnonneg := Int.emod_nonneg (ix + bias) (show (descr.nElems : ℤ) ≠ 0 by omega)
    omega
  have hmul := Nat.mul_le_mul_right (sizeofIRType descr.elemTy) hlt
  rw [Nat.succ_mul] at hmul
  rw [IRRegArray.offset]
  omega

theorem bufferOffset?_of_inBounds {n g : ℕ} {e : IRExpr} (h : e.inBounds n g = true) :
    e.bufferOffset? = none := by
  cases e with
  | const con =>
    cases con with
    | bufferAddr ty offset => simp [IRExpr.inBounds, IRConst.isBufferAddr] at h
    | _ => rfl
  | _ => rfl

section Congr

variable {I : Interp B} {n g : ℕ} {s s' : State B T}

mutual

/-- Expressions of the client do not depend on the shadow state. -/
theorem evalExpr_primalEq (heq : PrimalEq n g s s') :
    ∀ e : IRExpr, e.inBounds n g = true → evalExpr I s e = evalExpr I s' e
  | .get offset ty, h => by
      rw [IRExpr.inBounds, decide_eq_true_eq] at h
      rw [evalExpr, evalExpr, readReg_congr heq.reg h]
  | .getI descr ix bias, h => by
      simp only [IRExpr.inBounds, Bool.and_eq_true, decide_eq_true_eq] at h
      rw [evalExpr, evalExpr, evalExpr_primalEq heq ix h.2]
      exact readReg_congr heq.reg (IRRegArray.offset_add_le h.1.1 h.1.2 _ bias)
  | .rdTmp tmp, h => by
      rw [IRExpr.inBounds, decide_eq_true_eq] at h
      rw [evalExpr, evalExpr, heq.tmp tmp h]
  | .qop op a b c d, h => by
      simp only [IRExpr.inBounds, Bool.and_eq_true] at h
      rw [evalExpr, evalExpr, evalExpr_primalEq heq a h.1.1.1, evalExpr_primalEq heq b h.1.1.2,
        evalExpr_primalEq heq c h.1.2, evalExpr_primalEq heq d h.2]
  | .triop op a b c, h => by
      simp only [IRExpr.inBounds, Bool.and_eq_true] at h
      rw [evalExpr, evalExpr, evalExpr_primalEq heq a h.1.1, evalExpr_primalEq heq b h.1.2,
        evalExpr_primalEq heq c h.2]
  | .binop op a b, h => by
      simp only [IRExpr.inBounds, Bool.and_eq_true] at h
      rw [evalExpr, evalExpr, evalExpr_primalEq heq a h.1, evalExpr_primalEq heq b h.2]
  | .unop op a, h => by
      rw [IRExpr.inBounds] at h
      rw [evalExpr, evalExpr, evalExpr_primalEq heq a h]
  | .load endness ty addr, h => by
      rw [IRExpr.inBounds] at h
      rw [evalExpr, evalExpr, bufferOffset?_of_inBounds h]
      simp only [heq.mem, evalExpr_primalEq heq addr h]
  | .const con, _ => by rw [evalExpr, evalExpr]
  | .ite cond iftrue iffalse, h => by
      simp only [IRExpr.inBounds, Bool.and_eq_true] at h
      rw [evalExpr, evalExpr, evalExpr_primalEq heq cond h.1.1,
        evalExpr_primalEq heq iftrue h.1.2, evalExpr_primalEq heq iffalse h.2]
  | .ccall cee retty args, h => by
      rw [IRExpr.inBounds] at h
      rw [evalExpr, evalExpr, evalExprs_primalEq heq args h]
  | .vecret, _ => by rw [evalExpr, evalExpr]
  | .gsptr, _ => by rw [evalExpr, evalExpr]

@[inherit_doc evalExpr_primalEq]
theorem evalExprs_primalEq (heq : PrimalEq n g s s') :
    ∀ es : List IRExpr, IRExpr.allInBounds n g es = true → evalExprs I s es = evalExprs I s' es
  | [], _ => by rw [evalExprs, evalExprs]
  | e :: es, h => by
      simp only [IRExpr.allInBounds, Bool.and_eq_true] at h
      rw [evalExprs, evalExprs, evalExpr_primalEq heq e h.1, evalExprs_primalEq heq es h.2]

end

theorem PrimalEq.setTmp (heq : PrimalEq n g s s') (tmp : IRTemp) (v : List B) :
    PrimalEq n g (s.setTmp tmp v) (s'.setTmp tmp v) := by
  refine ⟨?_, heq.reg, heq.mem⟩
  intro t ht
  simp only [State.setTmp, Function.update_apply, heq.tmp t ht]

theorem PrimalEq.setTmp? (heq : PrimalEq n g s s') (tmp : Option IRTemp) (v : List B) :
    PrimalEq n g (s.setTmp? tmp v) (s'.setTmp? tmp v) := by
  cases tmp with
  | none => exact heq
  | some tmp => exact heq.setTmp tmp v

theorem PrimalEq.storeAt (heq : PrimalEq n g s s') {addr : IRExpr}
    (h : addr.inBounds n g = true) (endness : IREndness) (v : List B) :
    PrimalEq n g (s.storeAt I endness addr v) (s'.storeAt I endness addr v) := by
  rw [State.storeAt, State.storeAt, bufferOffset?_of_inBounds h]
  refine ⟨heq.tmp, heq.reg, ?_⟩
  simp only [heq.mem, evalExpr_primalEq heq addr h]

theorem PrimalEq.writeReg (heq : PrimalEq n g s s') (offset : ℕ) (v : List B) :
    PrimalEq n g { s with reg := Derivgrind.writeReg s.reg offset v }
      { s' with reg := Derivgrind.writeReg s'.reg offset v } := by
  refine ⟨heq.tmp, ?_, heq.mem⟩
  intro o ho
  simp only [Derivgrind.writeReg, heq.reg o ho]

end Congr

/-- Dirty calls of the client do not depend on the shadow state. -/
theorem execDirty_primalEq {M : Machine B T} {n : ℕ} {d : IRDirty} {s s' : State B T}
    (heq : PrimalEq n M.guestSize s s')
    (h : IRStmt.inBounds n M.guestSize (.dirty d) = true) :
    PrimalEq n M.guestSize (execDirty M d s) (execDirty M d s') := by
  simp only [IRStmt.inBounds, Bool.and_eq_true] at h
  obtain ⟨⟨⟨hguard, hargs⟩, -⟩, hcee⟩ := h
  rw [execDirty, execDirty, evalExpr_primalEq heq d.guard hguard]
  split
  · rw [evalExprs_primalEq heq d.args hargs]
    cases hc : d.cee with
    | tool helper => simp [hc] at hcee
    | guest name =>
      have hreg : (fun o => if o < M.guestSize then s.reg o else M.zero)
          = fun o => if o < M.guestSize then s'.reg o else M.zero := by
        funext o
        split
        · rename_i ho; exact heq.reg o ho
        · rfl
      simp only [hreg, heq.mem]
      refine ⟨fun t ht => ?_, fun o ho => ?_, rfl⟩
      · exact (heq.setTmp? d.tmp _).tmp t ht
      · simp only [if_pos ho]
  · exact heq.setTmp? d.tmp _

/-- **Statements of the client do not depend on the shadow state.** -/
theorem execStmt_primalEq {M : Machine B T} {tyenv tyenv' : List IRType} {st : IRStmt}
    {s s' : State B T} (htyenv : tyenv <+: tyenv')
    (h : st.inBounds tyenv.length M.guestSize = true) (hcas : st.isCAS = false)
    (heq : PrimalEq tyenv.length M.guestSize s s') :
    PrimalEq tyenv.length M.guestSize (execStmt M tyenv' st s).1 (execStmt M tyenv st s').1 ∧
      (execStmt M tyenv' st s).2 = (execStmt M tyenv st s').2 := by
  cases st with
  | noOp => exact ⟨heq, rfl⟩
  | iMark addr len delta => exact ⟨heq, rfl⟩
  | abiHint base len nia => exact ⟨heq, rfl⟩
  | mbe => exact ⟨heq, rfl⟩
  | put offset data =>
    rw [IRStmt.inBounds] at h
    simp only [execStmt, evalExpr_primalEq heq data h]
    exact ⟨heq.writeReg offset _, trivial⟩
  | putI descr ix bias data =>
    simp only [IRStmt.inBounds, Bool.and_eq_true] at h
    simp only [execStmt, evalExpr_primalEq heq ix h.1, evalExpr_primalEq heq data h.2]
    exact ⟨heq.writeReg _ _, trivial⟩
  | wrTmp tmp data =>
    simp only [IRStmt.inBounds, Bool.and_eq_true] at h
    simp only [execStmt, evalExpr_primalEq heq data h.2]
    exact ⟨heq.setTmp tmp _, trivial⟩
  | store endness addr data =>
    simp only [IRStmt.inBounds, Bool.and_eq_true] at h
    simp only [execStmt, evalExpr_primalEq heq data h.2]
    exact ⟨heq.storeAt h.1 endness _, trivial⟩
  | storeG endness addr data guard =>
    simp only [IRStmt.inBounds, Bool.and_eq_true] at h
    simp only [execStmt, evalExpr_primalEq heq data h.1.2, evalExpr_primalEq heq guard h.2]
    split
    · exact ⟨heq.storeAt h.1.1 endness _, rfl⟩
    · exact ⟨heq, rfl⟩
  | loadG endness cvt dst addr alt guard =>
    simp only [IRStmt.inBounds, Bool.and_eq_true] at h
    simp only [execStmt, evalExpr_primalEq heq addr h.1.1.2, evalExpr_primalEq heq alt h.1.2,
      evalExpr_primalEq heq guard h.2, heq.mem]
    split
    · exact ⟨heq.setTmp dst _, rfl⟩
    · exact ⟨heq.setTmp dst _, rfl⟩
  | cas details => exact absurd hcas (by simp [IRStmt.isCAS])
  | llsc endness result addr data =>
    simp only [IRStmt.inBounds, Bool.and_eq_true, decide_eq_true_eq] at h
    cases data with
    | none =>
      -- The number of bytes loaded is the size of the result, which the longer list knows too.
      have hresult : tyenv'[result]? = tyenv[result]? := by
        obtain ⟨tys, rfl⟩ := htyenv
        exact List.getElem?_append_left h.1.1
      simp only [execStmt, evalExpr_primalEq heq addr h.1.2, heq.mem, hresult]
      exact ⟨heq.setTmp result _, trivial⟩
    | some data =>
      have hdata : data.inBounds tyenv.length M.guestSize = true := h.2
      simp only [execStmt, evalExpr_primalEq heq addr h.1.2, evalExpr_primalEq heq data hdata,
        heq.mem]
      split
      · exact ⟨⟨(heq.setTmp result _).tmp, heq.reg, rfl⟩, trivial⟩
      · exact ⟨heq.setTmp result _, trivial⟩
  | dirty details => exact ⟨execDirty_primalEq heq h, rfl⟩
  | exit guard jk dst offsIP =>
    rw [IRStmt.inBounds] at h
    simp only [execStmt, evalExpr_primalEq heq guard h]
    split
    · exact ⟨heq, rfl⟩
    · exact ⟨heq, rfl⟩

/-! ### Inserted code -/

/-- The meaning of code as code that does not act on the client. -/
def shadowOnlyMeaning (n g : ℕ) : Emitter.Meaning IRType IRStmt Unit where
  total := false
  rel _ sts _ _ := ∀ st ∈ sts, ShadowOnly n g st
  nil _ _ := by simp
  append h h' := by
    intro st hst
    rcases List.mem_append.mp hst with hst | hst
    · exact h st hst
    · exact h' st hst
  mono h := h

/-- All code that is emitted does not act on the client, and the result satisfies `Q`. -/
def Silent {α : Type} (n g : ℕ) (m : Emit α) (Q : α → Prop) : Prop :=
  ∀ env : List IRType, n ≤ env.length →
    (shadowOnlyMeaning n g).wp m env () fun a env' _ => n ≤ env'.length ∧ Q a

section Silent

open Emitter.Meaning

variable {α β : Type} {n g : ℕ} {Q : α → Prop} {Q' : β → Prop}

theorem silent_pure {a : α} (h : Q a) : Silent n g (pure a) Q := by
  intro env henv
  exact wp_pure ⟨henv, h⟩

theorem silent_bind {m : Emit α} {f : α → Emit β} (hm : Silent n g m Q)
    (hf : ∀ a, Q a → Silent n g (f a) Q') : Silent n g (m >>= f) Q' := by
  intro env henv
  apply wp_bind
  apply wp_mono (hm env henv)
  rintro a env' _ ⟨henv', ha⟩
  exact hf a ha env' henv'

theorem silent_query {f : List IRType → Option α} :
    Silent n g (Emitter.query f) fun _ => True := by
  intro env henv
  apply wp_query (fun htotal => by cases htotal)
  intro a _
  exact ⟨henv, trivial⟩

theorem silent_newIRTemps (k : ℕ) (ty : IRType) :
    Silent n g (newIRTemps k ty) fun tmps => ∀ tmp ∈ tmps, n ≤ tmp := by
  intro env henv
  apply wp_declare
  refine ⟨by rw [List.length_append]; omega, ?_⟩
  intro tmp htmp
  obtain ⟨i, -, rfl⟩ := List.mem_map.mp htmp
  omega

theorem silent_addStmts {sts : List IRStmt} (h : ∀ st ∈ sts, ShadowOnly n g st) :
    Silent n g (addStmts sts) fun _ => True := by
  intro env henv
  have hrel : (shadowOnlyMeaning n g).rel env sts () () := h
  exact wp_emit hrel ⟨henv, trivial⟩

theorem silent_addStmt {st : IRStmt} (h : ShadowOnly n g st) :
    Silent n g (addStmt st) fun _ => True := by
  apply silent_addStmts
  intro st' hst'
  rwa [List.mem_singleton.mp hst']

/-- All code that is emitted does not act on the client. -/
def Quiet (n g : ℕ) (m : Emit α) : Prop := Silent n g m fun _ => True

@[simp] theorem quiet_pure (a : α) : Quiet n g (pure a) := silent_pure trivial

@[simp] theorem quiet_bind {m : Emit α} {f : α → Emit β} (hm : Quiet n g m)
    (hf : ∀ a, Quiet n g (f a)) : Quiet n g (m >>= f) :=
  silent_bind hm fun a _ => hf a

theorem quiet_newIRTemp_bind {ty : IRType} {f : IRTemp → Emit β}
    (hf : ∀ tmp, n ≤ tmp → Quiet n g (f tmp)) : Quiet n g (newIRTemp ty >>= f) := by
  apply silent_bind (Q := fun tmp => n ≤ tmp)
  · intro env henv
    exact wp_bind (wp_declare (wp_pure ⟨by rw [List.length_append]; omega, henv⟩))
  · exact hf

@[simp] theorem quiet_typeOf (e : IRExpr) : Quiet n g (typeOf e) := silent_query

@[simp] theorem quiet_ofOption (a : Option α) : Quiet n g (ofOption a) := silent_query

@[simp] theorem quiet_tlAssert (cond : Bool) : Quiet n g (tlAssert cond) := silent_query

@[simp] theorem quiet_addDirty (helper : ToolHelper) (args : List IRExpr) :
    Quiet n g (addDirty helper args) :=
  silent_addStmt ⟨⟨helper, rfl⟩, fun _ h => by cases h⟩

theorem quiet_addDirtyTmp {tmp : IRTemp} (h : n ≤ tmp) (helper : ToolHelper)
    (args : List IRExpr) : Quiet n g (addDirtyTmp tmp helper args) :=
  silent_addStmt ⟨⟨helper, rfl⟩, fun _ htmp => by cases htmp; exact h⟩

@[simp] theorem quiet_mapList {f : α → Emit β} (h : ∀ a, Quiet n g (f a)) (l : List α) :
    Quiet n g (Emitter.mapList f l) := by
  induction l with
  | nil => exact silent_pure trivial
  | cons a l ih => exact quiet_bind (h a) fun b => quiet_bind ih fun bs => quiet_pure _

@[simp] theorem quiet_mkIRConstOnes (ty : IRType) : Quiet n g (mkIRConstOnes ty) := by
  cases ty <;> simp [mkIRConstOnes]

@[simp] theorem quiet_getSIMDComponent (e : IRExpr) (fpsize simdsize component : ℕ) :
    Quiet n g (getSIMDComponent e fpsize simdsize component) := by
  apply quiet_bind (quiet_typeOf e)
  intro ty
  apply quiet_bind (quiet_typeOf _)
  simp

@[simp] theorem quiet_assembleSIMDVector (es : List IRExpr) (fpsize : ℕ) :
    Quiet n g (assembleSIMDVector es fpsize) := by
  apply quiet_bind (quiet_typeOf _)
  intro ty
  apply quiet_bind
  · apply quiet_mapList
    simp
  · simp

@[simp] theorem quiet_reinterpretType (e : IRExpr) (ty : IRType) :
    Quiet n g (reinterpretType e ty) := by
  apply quiet_bind (quiet_typeOf e)
  intro origtype
  apply quiet_bind (quiet_tlAssert _)
  intro _
  split
  · exact quiet_pure e
  · split <;> simp

@[simp] theorem quiet_applyComponentwisely {body : ℕ → List IRExpr → Emit (List IRExpr)}
    (h : ∀ component parts, Quiet n g (body component parts)) (inputs : List IRExpr)
    (nOutputs fpsize simdsize : ℕ) :
    Quiet n g (applyComponentwisely inputs nOutputs fpsize simdsize body) := by
  apply quiet_bind
  · apply quiet_mapList
    intro component
    apply quiet_bind
    · simp
    · simp [h]
  · simp

@[simp] theorem quiet_dgBarWriteToTape (o : Options)
    (index1Lo index1Hi index2Lo index2Hi diff1 diff2 value : IRExpr) :
    Quiet n g (dgBarWriteToTape o index1Lo index1Hi index2Lo index2Hi diff1 diff2 value) := by
  apply quiet_newIRTemp_bind
  intro returnindex h
  apply quiet_bind (quiet_addDirtyTmp h _ _)
  intro _
  split <;> simp

@[simp] theorem quiet_dgTrickWarn (fpsize : ℕ) (flagsLo flagsHi : IRExpr) :
    Quiet n g (dgTrickWarn fpsize flagsLo flagsHi) := quiet_addDirty _ _

@[simp] theorem quiet_createBarCode (o : Options) (op : IROp) (inputs : List ℕ)
    (partials : (ℕ → IRExpr) → List IRExpr) (value : (ℕ → IRExpr) → IRExpr) (l : Simd)
    (arg iLo iHi : ℕ → IRExpr) :
    Quiet n g (createBarCode o op inputs partials value l arg iLo iHi) := by
  have hbody : ∀ parts, Quiet n g (barBody o inputs.length l.fpsize partials value parts) := by
    intro parts
    simp only [barBody]
    split <;> simp
  apply quiet_bind
  · apply quiet_applyComponentwisely
    intro component parts
    split
    · simp [copyBody]
    · exact hbody parts
  · simp [reinterpretLayers]

@[simp] theorem quiet_createTrickCode (op : IROp) (inputs floatinputs : List ℕ)
    (resultIsDiscrete : Bool) (l : Simd) (arg fLo fHi : ℕ → IRExpr) :
    Quiet n g (createTrickCode op inputs floatinputs resultIsDiscrete l arg fLo fHi) := by
  apply quiet_bind
  · apply quiet_applyComponentwisely
    intro component parts
    split
    · simp [copyBody]
    · simp [trickBody]
  · simp [reinterpretLayers]

@[simp] theorem quiet_bitwiseDirtyBody (handler getLower getHigher : ToolHelper)
    (parts : List IRExpr) : Quiet n g (bitwiseDirtyBody handler getLower getHigher parts) := by
  apply quiet_bind (quiet_addDirty handler parts)
  intro _
  apply quiet_newIRTemp_bind
  intro lo hlo
  apply quiet_newIRTemp_bind
  intro hi hhi
  apply quiet_bind (quiet_addDirtyTmp hlo _ _)
  intro _
  apply quiet_bind (quiet_addDirtyTmp hhi _ _)
  intro _
  exact quiet_pure _

@[simp] theorem quiet_minMaxDotBody (op : MinMaxOp) (fpsize : ℕ) (parts : List IRExpr) :
    Quiet n g (minMaxDotBody op fpsize parts) := quiet_pure _

@[simp] theorem quiet_bitwiseDotBody (op : BitwiseOp) (parts : List IRExpr) :
    Quiet n g (bitwiseDotBody op parts) := quiet_pure _

@[simp] theorem quiet_zeroDerivFlags (ty argTy : IRType) (f : IRExpr) :
    Quiet n g (zeroDerivFlags ty argTy f) := by
  simp [zeroDerivFlags]

@[simp] theorem quiet_zeroDerivTrick (op : ZeroDerivOp) (fLo fHi : ℕ → IRExpr) :
    Quiet n g (zeroDerivTrick op fLo fHi) := by
  rw [zeroDerivTrick]
  split
  · simp
  · split <;> simp

/-- The code of the table does not act on the client. -/
theorem quiet_irOpInfo {op : IROp} {info : IROpInfo} (h : irOpInfo? op = some info) (o : Options)
    (arg lo hi : ℕ → IRExpr) : Quiet n g (info.dotcode arg lo) ∧
      Quiet n g (info.barcode o arg lo hi) ∧ Quiet n g (info.trickcode arg lo hi) := by
  cases op with
  | arith op l => obtain rfl := Option.some_inj.mp h; simp [arithInfo]
  | sqrt l => obtain rfl := Option.some_inj.mp h; simp [sqrtInfo]
  | neg l => obtain rfl := Option.some_inj.mp h; simp [negInfo]
  | abs l => obtain rfl := Option.some_inj.mp h; simp [absInfo]
  | minMax op l => obtain rfl := Option.some_inj.mp h; simp [minMaxInfo]
  | fma sub l => obtain rfl := Option.some_inj.mp h; simp [fmaInfo]
  | scaleF64 => obtain rfl := Option.some_inj.mp h; simp [scaleInfo]
  | yl2xF64 => obtain rfl := Option.some_inj.mp h; simp [yl2xInfo]
  | yl2xp1F64 => obtain rfl := Option.some_inj.mp h; simp [yl2xInfo]
  | bitwise op size => obtain rfl := Option.some_inj.mp h; simp [bitwiseInfo]
  | unMove m => obtain rfl := Option.some_inj.mp h; simp [unaryMoveInfo]
  | signWiden m => obtain rfl := Option.some_inj.mp h; simp [unaryMoveInfo]
  | f32toF64 => obtain rfl := Option.some_inj.mp h; simp [f32toF64Info]
  | f64toF32 => obtain rfl := Option.some_inj.mp h; simp [f64toF32Info]
  | zeroDeriv op => obtain rfl := Option.some_inj.mp h; simp [zeroDerivInfo]
  | binMove m => obtain rfl := Option.some_inj.mp h; simp [binaryMoveInfo]
  | shift left size => obtain rfl := Option.some_inj.mp h; simp [shiftInfo]
  | op64x4toV256 => obtain rfl := Option.some_inj.mp h; simp [op64x4toV256Info]
  | helperMove m => cases h
  | helper op => cases h
  | other args dst k => cases h

end Silent

section Handle

variable {n g : ℕ} {eh : ExpressionHandling} {env : DiffEnv}

/-- What the mode-dependent functions emit does not act on the client. -/
structure ExpressionHandling.Transparent (eh : ExpressionHandling) (env : DiffEnv) (n g : ℕ) :
    Prop where
  dirtyStoreF80le : ∀ addr shadow, Quiet n g (eh.dirtyStoreF80le addr shadow)
  dirtyLoadF80le : ∀ addr tmp, Quiet n g (eh.dirtyLoadF80le env addr tmp)
  default_ : ∀ ty, Quiet n g (eh.default_ ty)
  operation : ∀ op arg shadow, Quiet n g (eh.operation op arg shadow)
  ccall : ∀ retty args shadows, Quiet n g (eh.ccall retty args shadows)
  tmpOffset : env.tmpOffset = n
  gsOffset : env.gsOffset = g

theorem transparent_dot (hn : env.tmpOffset = n) (hg : env.gsOffset = g) :
    dgDotExpressionhandling.Transparent env n g where
  dirtyStoreF80le addr shadow := quiet_addDirty _ _
  dirtyLoadF80le addr tmp := quiet_addDirtyTmp (by omega) _ _
  default_ ty := quiet_pure _
  operation op arg shadow := by
    show Quiet n g (dgDotOperation op arg shadow)
    rw [dgDotOperation]
    split
    · exact quiet_pure _
    · rename_i info hinfo
      split
      · have hcode : Quiet n g (info.dotcode arg (argLayer shadow 0)) :=
          (quiet_irOpInfo hinfo ⟨.d, false, false⟩ arg (argLayer shadow 0) arg).1
        exact quiet_bind hcode fun _ => quiet_pure _
      · exact quiet_pure _
  ccall retty args shadows := quiet_pure _
  tmpOffset := hn
  gsOffset := hg

theorem quiet_dgBarDefault (ty : IRType) : Quiet n g (dgBarDefault ty) := by
  simp [dgBarDefault]

theorem transparent_bar (o : Options) (hn : env.tmpOffset = n) (hg : env.gsOffset = g) :
    (dgBarExpressionhandling o).Transparent env n g where
  dirtyStoreF80le addr shadow := quiet_bind (quiet_addDirty _ _) fun _ => quiet_addDirty _ _
  dirtyLoadF80le addr tmp :=
    quiet_bind (quiet_addDirtyTmp (by omega) _ _) fun _ => quiet_addDirtyTmp (by omega) _ _
  default_ ty := quiet_dgBarDefault ty
  operation op arg shadow := by
    show Quiet n g (dgBarOperation o op arg shadow)
    rw [dgBarOperation]
    split
    · split
      · simp
      · exact quiet_pure _
    · rename_i info hinfo
      split
      · have hcode := (quiet_irOpInfo (n := n) (g := g) hinfo o arg (argLayer shadow 0)
          (argLayer shadow 1)).2.1
        exact quiet_bind hcode fun _ => quiet_pure _
      · exact quiet_pure _
  ccall retty args shadows := quiet_pure _
  tmpOffset := hn
  gsOffset := hg

theorem quiet_unhandledFlags (ty : IRType) (notActive : IRExpr) :
    Quiet n g (unhandledFlags ty notActive) := by
  rw [unhandledFlags.eq_def]
  split <;> simp

theorem quiet_dgTrickCcall (retty : IRType) (args : List IRExpr) (flags : List (Option Shadow)) :
    Quiet n g (dgTrickCcall retty args flags) := by
  apply quiet_bind
  · apply quiet_mapList
    rintro ⟨arg, shadow⟩
    apply quiet_bind (quiet_typeOf arg)
    simp
  · simp

theorem transparent_trick (hn : env.tmpOffset = n) (hg : env.gsOffset = g) :
    dgTrickExpressionhandling.Transparent env n g where
  dirtyStoreF80le addr shadow := quiet_addDirty _ _
  dirtyLoadF80le addr tmp :=
    quiet_bind (quiet_addDirtyTmp (by omega) _ _) fun _ => quiet_addDirtyTmp (by omega) _ _
  default_ ty := quiet_dgBarDefault ty
  operation op arg shadow := by
    show Quiet n g (dgTrickOperation op arg shadow)
    rw [dgTrickOperation]
    split
    · apply quiet_bind (quiet_unhandledFlags _ _)
      simp
    · rename_i info hinfo
      split
      · have hcode := (quiet_irOpInfo (n := n) (g := g) hinfo ⟨.t, false, false⟩ arg
          (argLayer shadow 0) (argLayer shadow 1)).2.2
        exact quiet_bind (quiet_tlAssert _) fun _ => quiet_bind hcode fun _ => quiet_pure _
      · exact quiet_pure _
  ccall retty args shadows := quiet_dgTrickCcall retty args shadows
  tmpOffset := hn
  gsOffset := hg

/-- In all modes, what is emitted does not act on the client. -/
theorem transparent_expressionhandling (o : Options) (hn : env.tmpOffset = n)
    (hg : env.gsOffset = g) : o.expressionhandling.Transparent env n g := by
  rw [Options.expressionhandling]
  cases o.mode with
  | d => exact transparent_dot hn hg
  | b => exact transparent_bar o hn hg
  | t => exact transparent_trick hn hg

theorem quiet_wrtmp (h : eh.Transparent env n g) (tmp : IRTemp) (shadow : Shadow) :
    Quiet n g (eh.wrtmp env tmp shadow) := by
  apply silent_addStmts
  intro st hst
  obtain ⟨k, -, rfl⟩ := List.mem_map.mp hst
  show n ≤ tmp + (k + 1) * env.tmpOffset
  rw [h.tmpOffset, Nat.succ_mul]
  omega

theorem quiet_put (h : eh.Transparent env n g) (offset : ℕ) (shadow : Shadow) :
    Quiet n g (eh.put env offset shadow) := by
  apply silent_addStmts
  intro st hst
  obtain ⟨k, -, rfl⟩ := List.mem_map.mp hst
  show g ≤ offset + (k + 1) * env.gsOffset
  rw [h.gsOffset, Nat.succ_mul]
  omega

theorem quiet_putI (h : eh.Transparent env n g) (descr : IRRegArray) (ix : IRExpr) (bias : ℤ)
    (shadow : Shadow) : Quiet n g (eh.putI env descr ix bias shadow) := by
  apply silent_addStmts
  intro st hst
  obtain ⟨k, -, rfl⟩ := List.mem_map.mp hst
  show g ≤ descr.base + (k + 1) * env.gsOffset
  rw [h.gsOffset, Nat.succ_mul]
  omega

theorem quiet_store (addr : IRExpr) (shadow : Shadow) (guard : Option IRExpr) :
    Quiet n g (eh.store env addr shadow guard) := by
  apply quiet_bind
  · apply silent_addStmts
    intro st hst
    obtain ⟨k, -, rfl⟩ := List.mem_map.mp hst
    rfl
  intro _
  apply quiet_bind (quiet_typeOf _)
  intro ty
  apply quiet_bind
  · simp
  intro tys
  apply quiet_bind (quiet_tlAssert _)
  intro _
  exact silent_addStmt ⟨⟨eh.storeHelper, rfl⟩, fun _ htmp => by cases htmp⟩

theorem quiet_load (addr : IRExpr) (ty : IRType) : Quiet n g (eh.load env addr ty) := by
  apply quiet_bind (quiet_addDirty _ _)
  intro _
  apply silent_bind (silent_newIRTemps eh.layers ty)
  intro tmps htmps
  apply silent_bind
  · apply silent_addStmts
    intro st hst
    obtain ⟨⟨tmp, k⟩, hmem, rfl⟩ := List.mem_map.mp hst
    exact htmps tmp (List.fst_mem_of_mem_zipIdx hmem)
  intro _ _
  exact silent_pure trivial

mutual

/-- The code that computes shadows of expressions does not act on the client. -/
theorem quiet_dgModifyExpression (h : eh.Transparent env n g) :
    ∀ e : IRExpr, Quiet n g (dgModifyExpression eh env e)
  | .qop op a b c d => by
      rw [dgModifyExpression]
      -- The code for the operands, one after the other, and the code for the operation.
      apply quiet_bind (quiet_dgModifyExpression h a)
      intro a'
      apply quiet_bind (quiet_dgModifyExpression h b)
      intro b'
      apply quiet_bind (quiet_dgModifyExpression h c)
      intro c'
      apply quiet_bind (quiet_dgModifyExpression h d)
      intro d'
      exact h.operation op _ _
  | .triop op a b c => by
      rw [dgModifyExpression]
      apply quiet_bind (quiet_dgModifyExpression h a)
      intro a'
      apply quiet_bind (quiet_dgModifyExpression h b)
      intro b'
      apply quiet_bind (quiet_dgModifyExpression h c)
      intro c'
      exact h.operation op _ _
  | .binop op a b => by
      rw [dgModifyExpression]
      apply quiet_bind (quiet_dgModifyExpression h a)
      intro a'
      apply quiet_bind (quiet_dgModifyExpression h b)
      intro b'
      exact h.operation op _ _
  | .unop op a => by
      rw [dgModifyExpression]
      apply quiet_bind (quiet_dgModifyExpression h a)
      intro a'
      exact h.operation op _ _
  | .const con => by rw [dgModifyExpression]; exact quiet_pure _
  | .ite cond iftrue iffalse => by
      rw [dgModifyExpression]
      apply quiet_bind (quiet_dgModifyExpression h iftrue)
      intro dtrue
      apply quiet_bind (quiet_dgModifyExpression h iffalse)
      intro dfalse
      cases dtrue <;> cases dfalse <;> exact quiet_pure _
  | .rdTmp tmp => by rw [dgModifyExpression]; exact quiet_pure _
  | .get offset ty => by rw [dgModifyExpression]; exact quiet_pure _
  | .getI descr ix bias => by rw [dgModifyExpression]; exact quiet_pure _
  | .load endness ty addr => by
      rw [dgModifyExpression]
      exact quiet_bind (quiet_load addr ty) fun _ => quiet_pure _
  | .ccall cee retty args => by
      rw [dgModifyExpression]
      apply quiet_bind (quiet_dgModifyExpressions h args)
      intro modifiedArgs
      exact h.ccall retty args modifiedArgs
  | .vecret => by rw [dgModifyExpression]; exact quiet_pure _
  | .gsptr => by rw [dgModifyExpression]; exact quiet_pure _

@[inherit_doc quiet_dgModifyExpression]
theorem quiet_dgModifyExpressions (h : eh.Transparent env n g) :
    ∀ es : List IRExpr, Quiet n g (dgModifyExpressions eh env es)
  | [] => by rw [dgModifyExpressions]; exact quiet_pure _
  | e :: es => by
      rw [dgModifyExpressions]
      apply quiet_bind (quiet_dgModifyExpression h e)
      intro e'
      apply quiet_bind (quiet_dgModifyExpressions h es)
      intro es'
      exact quiet_pure _

end

theorem quiet_dgModifyExpressionOrDefault (h : eh.Transparent env n g) (e : IRExpr) :
    Quiet n g (dgModifyExpressionOrDefault eh env e) := by
  apply quiet_bind (quiet_dgModifyExpression h e)
  intro shadow
  cases shadow with
  | some shadow => exact quiet_pure shadow
  | none => exact quiet_bind (quiet_typeOf e) fun ty => h.default_ ty

theorem quiet_addDirtyModified (h : eh.Transparent env n g) (d : IRDirty) :
    Quiet n g (addDirtyModified eh env d) := by
  rw [addDirtyModified]
  split
  · apply quiet_bind (quiet_ofOption _)
    intro addr
    apply quiet_bind (quiet_ofOption _)
    intro expr
    apply quiet_bind (quiet_dgModifyExpressionOrDefault h expr)
    intro modifiedExpr
    exact h.dirtyStoreF80le addr modifiedExpr
  split
  · apply quiet_bind (quiet_ofOption _)
    intro addr
    apply quiet_bind (quiet_ofOption _)
    intro tmp
    exact h.dirtyLoadF80le addr tmp
  cases d.tmp with
  | none => exact quiet_pure ()
  | some tmp =>
    apply quiet_bind (quiet_typeOf _)
    intro ty
    apply quiet_bind (h.default_ ty)
    intro shadow
    exact quiet_wrtmp h tmp shadow

/-- **The code inserted in front of a statement does not act on the client.** -/
theorem shadowOnly_addStatementModified (h : eh.Transparent env n g) {st : IRStmt}
    (hcas : st.isCAS = false) :
    Silent n g (addStatementModified eh env st) fun casSucceeded => casSucceeded = none := by
  cases st with
  | wrTmp tmp data =>
    apply silent_bind (quiet_dgModifyExpressionOrDefault h data)
    intro shadow _
    exact silent_bind (quiet_wrtmp h tmp shadow) fun _ _ => silent_pure rfl
  | put offset data =>
    apply silent_bind (quiet_dgModifyExpressionOrDefault h data)
    intro shadow _
    exact silent_bind (quiet_put h offset shadow) fun _ _ => silent_pure rfl
  | putI descr ix bias data =>
    apply silent_bind (quiet_dgModifyExpressionOrDefault h data)
    intro shadow _
    exact silent_bind (quiet_putI h descr ix bias shadow) fun _ _ => silent_pure rfl
  | store endness addr data =>
    apply silent_bind (quiet_dgModifyExpressionOrDefault h data)
    intro shadow _
    exact silent_bind (quiet_store addr shadow none) fun _ _ => silent_pure rfl
  | storeG endness addr data guard =>
    apply silent_bind (quiet_dgModifyExpressionOrDefault h data)
    intro shadow _
    exact silent_bind (quiet_store addr shadow (some guard)) fun _ _ => silent_pure rfl
  | loadG endness cvt dst addr alt guard =>
    apply silent_bind (quiet_typeOf _)
    intro ty _
    apply silent_bind (quiet_load addr ty)
    intro dataRead _
    apply silent_bind (quiet_dgModifyExpressionOrDefault h alt)
    intro shadowAlt _
    exact silent_bind (quiet_wrtmp h dst _) fun _ _ => silent_pure rfl
  | cas details => exact absurd hcas (by simp [IRStmt.isCAS])
  | dirty details => exact silent_bind (quiet_addDirtyModified h details) fun _ _ => silent_pure rfl
  | _ => exact silent_pure rfl

/-- Except for compare-and-swap statements, the code that replaces a statement is code
that does not act on the client, followed by the statement. -/
theorem dgInstrumentStmt_eq (h : eh.Transparent env n g) {st : IRStmt} (hcas : st.isCAS = false)
    {tyenv tys : List IRType} {u : Unit} {out : List IRStmt} (hlen : n ≤ tyenv.length)
    (hout : dgInstrumentStmt eh env st tyenv = some (u, tys, out)) :
    ∃ pre, out = pre ++ [st] ∧ ∀ st' ∈ pre, ShadowOnly n g st' := by
  obtain ⟨cas, tys₁, pre, tys₂, post, hpre, hpost, -, rfl⟩ := Emitter.bind_eq_some hout
  obtain ⟨_, hsilent, -, rfl⟩ :=
    (shadowOnly_addStatementModified h hcas tyenv hlen).ends cas tys₁ pre hpre
  refine ⟨pre, ?_, hsilent⟩
  have horig : dgOriginalStatement st none = addStmt st := by
    cases st <;> rfl
  rw [horig] at hpost
  obtain ⟨-, -, rfl⟩ : () = u ∧ [] = tys₂ ∧ [st] = post := by
    simpa only [Prod.mk.injEq] using Option.some_inj.mp hpost
  rfl

/-- Running the code that replaces statements of the client does to the client what
the statements do. -/
theorem execStmts_mapList {M : Machine B T} {tyenv tyenv' : List IRType}
    (h : eh.Transparent env tyenv.length M.guestSize) (htyenv : tyenv <+: tyenv') :
    ∀ (sts : List IRStmt), (∀ st ∈ sts, st.isCAS = false) →
    (∀ st ∈ sts, st.inBounds tyenv.length M.guestSize = true) →
    ∀ (env₁ tys : List IRType) (us : List Unit) (out : List IRStmt) (s s' : State B T),
    tyenv.length ≤ env₁.length →
    Emitter.mapList (dgInstrumentStmt eh env) sts env₁ = some (us, tys, out) →
    PrimalEq tyenv.length M.guestSize s s' →
    PrimalEq tyenv.length M.guestSize (execStmts M tyenv' out s).1 (execStmts M tyenv sts s').1 ∧
      (execStmts M tyenv' out s).2 = (execStmts M tyenv sts s').2 := by
  intro sts
  induction sts with
  | nil =>
    intro _ _ env₁ tys us out s s' _ hout heq
    obtain ⟨-, -, rfl⟩ : [] = us ∧ [] = tys ∧ [] = out := by
      simpa only [Prod.mk.injEq] using Option.some_inj.mp hout
    exact ⟨heq, rfl⟩
  | cons st sts ih =>
    intro hcas hbounds env₁ tys us out s s' hlen hout heq
    obtain ⟨u, tys₁, out₁, tys₂, out₂, hst, hrest, -, rfl⟩ := Emitter.bind_eq_some hout
    obtain ⟨us', tys₃, out₃, tys₄, out₄, hsts, hpure, -, rfl⟩ := Emitter.bind_eq_some hrest
    obtain ⟨-, -, rfl⟩ : u :: us' = us ∧ [] = tys₄ ∧ [] = out₄ := by
      simpa only [Prod.mk.injEq] using Option.some_inj.mp hpure
    obtain ⟨pre, rfl, hpre⟩ := dgInstrumentStmt_eq h (hcas st List.mem_cons_self) hlen hst
    obtain ⟨s₁, hexec, heq₁⟩ := execStmts_shadowOnly M tyenv' pre hpre s
    have hstep := execStmt_primalEq htyenv (hbounds st List.mem_cons_self)
      (hcas st List.mem_cons_self) (heq₁.trans heq)
    rw [List.append_nil, List.append_assoc, execStmts_append, hexec, List.singleton_append]
    simp only [execStmts]
    rcases h₁ : execStmt M tyenv' st s₁ with ⟨s₂, _ | e⟩ <;>
      rcases h₂ : execStmt M tyenv st s' with ⟨s₃, _ | e'⟩ <;> rw [h₁, h₂] at hstep
    · exact ih (fun st' hst' => hcas st' (List.mem_cons_of_mem st hst'))
        (fun st' hst' => hbounds st' (List.mem_cons_of_mem st hst')) _ tys₃ us' out₃ s₂ s₃
        (by rw [List.length_append]; omega) hsts hstep.1
    · exact absurd hstep.2 (by simp)
    · exact absurd hstep.2 (by simp)
    · exact hstep

end Handle

/-! ### Superblocks -/

/-- Statements that are only copied. -/
theorem execStmts_primalEq {M : Machine B T} {tyenv tyenv' : List IRType}
    (htyenv : tyenv <+: tyenv') : ∀ (sts : List IRStmt), (∀ st ∈ sts, st.isCAS = false) →
    (∀ st ∈ sts, st.inBounds tyenv.length M.guestSize = true) →
    ∀ s s' : State B T, PrimalEq tyenv.length M.guestSize s s' →
    PrimalEq tyenv.length M.guestSize (execStmts M tyenv' sts s).1 (execStmts M tyenv sts s').1 ∧
      (execStmts M tyenv' sts s).2 = (execStmts M tyenv sts s').2 := by
  intro sts
  induction sts with
  | nil => intro _ _ s s' heq; exact ⟨heq, rfl⟩
  | cons st sts ih =>
    intro hcas hbounds s s' heq
    have hstep := execStmt_primalEq htyenv (hbounds st List.mem_cons_self)
      (hcas st List.mem_cons_self) heq
    simp only [execStmts]
    rcases h₁ : execStmt M tyenv' st s with ⟨s₂, _ | e⟩ <;>
      rcases h₂ : execStmt M tyenv st s' with ⟨s₃, _ | e'⟩ <;> rw [h₁, h₂] at hstep
    · exact ih (fun st' hst' => hcas st' (List.mem_cons_of_mem st hst'))
        (fun st' hst' => hbounds st' (List.mem_cons_of_mem st hst')) s₂ s₃ hstep.1
    · exact absurd hstep.2 (by simp)
    · exact absurd hstep.2 (by simp)
    · exact hstep

/-- Running a superblock: the state at its end, the side exit if one is taken, and
otherwise the address of the next superblock. -/
def runIRSB (M : Machine B T) (sb : IRSB) (s : State B T) :
    State B T × Option SideExit × Option (List B) :=
  match execStmts M sb.tyenv sb.stmts s with
  | (s', some e) => (s', some e, none)
  | (s', none) => (s', none, some (evalExpr M.toInterp s' sb.next))

theorem IRSB.preamble_append_marked (sb : IRSB) : sb.preamble ++ sb.marked = sb.stmts :=
  List.takeWhile_append_dropWhile

/-- Everything `dgInstrument` can return. -/
theorem dgInstrument_eq_some {o : Options} {gsOffset : ℕ} {wordTy : IRType} {sb sb' : IRSB}
    (h : dgInstrument o gsOffset wordTy sb = some sb') : ∃ us tys sts,
      Emitter.mapList (dgInstrumentStmt o.expressionhandling ⟨sb.tyenv.length, gsOffset, wordTy⟩)
        sb.marked (shadowedTyenv o.expressionhandling.layers sb.tyenv) = some (us, tys, sts) ∧
      sb' = ⟨shadowedTyenv o.expressionhandling.layers sb.tyenv ++ tys, sb.preamble ++ sts,
        sb.next⟩ := by
  obtain ⟨⟨us, tys, sts⟩, hmap, heq⟩ := Option.bind_eq_some_iff.mp h
  exact ⟨us, tys, sts, hmap, (Option.some_inj.mp heq).symm⟩

/-- The statements of an instrumented superblock do to the client what the original
statements do. -/
theorem execStmts_dgInstrument {M : Machine B T} {o : Options} {wordTy : IRType} {sb sb' : IRSB}
    (hbounds : sb.inBounds M.guestSize = true) (hcas : ∀ st ∈ sb.stmts, st.isCAS = false)
    (hout : dgInstrument o M.guestSize wordTy sb = some sb') {s s' : State B T}
    (heq : PrimalEq sb.tyenv.length M.guestSize s s') :
    PrimalEq sb.tyenv.length M.guestSize (execStmts M sb'.tyenv sb'.stmts s).1
        (execStmts M sb.tyenv sb.stmts s').1 ∧
      (execStmts M sb'.tyenv sb'.stmts s).2 = (execStmts M sb.tyenv sb.stmts s').2 := by
  obtain ⟨us, tys, sts, hmap, rfl⟩ := dgInstrument_eq_some hout
  rw [IRSB.inBounds, Bool.and_eq_true, List.all_eq_true] at hbounds
  have hpre : ∀ st ∈ sb.preamble, st ∈ sb.stmts := fun st hst =>
    (List.takeWhile_prefix _).subset hst
  have hmarked : ∀ st ∈ sb.marked, st ∈ sb.stmts := fun st hst =>
    (List.dropWhile_suffix _).subset hst
  have htyenv : sb.tyenv <+: shadowedTyenv o.expressionhandling.layers sb.tyenv ++ tys := by
    rw [shadowedTyenv, List.append_assoc]
    exact List.prefix_append _ _
  have hfirst := execStmts_primalEq htyenv sb.preamble (fun st hst => hcas st (hpre st hst))
    (fun st hst => hbounds.1 st (hpre st hst)) s s' heq
  rw [← sb.preamble_append_marked, execStmts_append, execStmts_append]
  rcases h₁ : execStmts M (shadowedTyenv o.expressionhandling.layers sb.tyenv ++ tys) sb.preamble s
    with ⟨s₁, _ | e⟩ <;>
    rcases h₂ : execStmts M sb.tyenv sb.preamble s' with ⟨s₂, _ | e'⟩ <;>
    rw [h₁, h₂] at hfirst
  · exact execStmts_mapList (transparent_expressionhandling o rfl rfl) htyenv sb.marked
      (fun st hst => hcas st (hmarked st hst)) (fun st hst => hbounds.1 st (hmarked st hst)) _ tys
      us sts s₁ s₂ (by rw [shadowedTyenv, List.length_append]; omega) hmap hfirst.1
  · exact absurd hfirst.2 (by simp)
  · exact absurd hfirst.2 (by simp)
  · exact hfirst

/-- **Instrumentation is transparent.**  From states that the client cannot
distinguish, an instrumented superblock without compare-and-swap takes the same
exit as the original one, to states that the client cannot distinguish. -/
theorem dgInstrument_transparent (M : Machine B T) (o : Options) (wordTy : IRType) (sb sb' : IRSB)
    (hbounds : sb.inBounds M.guestSize = true) (hcas : ∀ st ∈ sb.stmts, st.isCAS = false)
    (hout : dgInstrument o M.guestSize wordTy sb = some sb') (s s' : State B T)
    (heq : PrimalEq sb.tyenv.length M.guestSize s s') :
    PrimalEq sb.tyenv.length M.guestSize (runIRSB M sb' s).1 (runIRSB M sb s').1 ∧
      (runIRSB M sb' s).2 = (runIRSB M sb s').2 := by
  have hexec := execStmts_dgInstrument hbounds hcas hout heq
  have hnext : sb'.next = sb.next := by
    obtain ⟨us, tys, sts, -, rfl⟩ := dgInstrument_eq_some hout
    rfl
  have hnextBounds : sb.next.inBounds sb.tyenv.length M.guestSize = true := by
    rw [IRSB.inBounds, Bool.and_eq_true] at hbounds
    exact hbounds.2
  rw [runIRSB, runIRSB]
  rcases h₁ : execStmts M sb'.tyenv sb'.stmts s with ⟨s₁, _ | e⟩ <;>
    rcases h₂ : execStmts M sb.tyenv sb.stmts s' with ⟨s₂, _ | e'⟩ <;> rw [h₁, h₂] at hexec
  · refine ⟨hexec.1, ?_⟩
    show (none, some (evalExpr M.toInterp s₁ sb'.next)) = (none, some (evalExpr M.toInterp s₂ sb.next))
    rw [hnext, evalExpr_primalEq hexec.1 sb.next hnextBounds]
  · exact absurd hexec.2 (by simp)
  · exact absurd hexec.2 (by simp)
  · refine ⟨hexec.1, ?_⟩
    show (some e, none) = (some e', none)
    rw [Option.some_inj.mp hexec.2]

/-- A superblock that copies a register to another one and to memory, and leaves. -/
def moveBlock : IRSB where
  tyenv := [.i64]
  stmts := [.iMark 0 4 0, .wrTmp 0 (.get 16 .i64), .put 24 (.rdTmp 0),
    .store .le (.const (.u64 64)) (.rdTmp 0), .exit (.const (.u1 true)) 0 0 0]
  next := .const (.u64 0)

/-- The superblock can be instrumented for recording mode, and is run from two states with
different shadow registers. -/
theorem dgInstrument_transparent_moveBlock :
    ∃ sb', dgInstrument ⟨.b, false, false⟩ 32 .i64 moveBlock = some sb' ∧
      PrimalEq 1 32
        (runIRSB (Machine.idle (hostInterp FpSem.zeros Interp.silent) 32) sb'
          { State.ofTmps () [] with reg := fun o => if o < 32 then 7 else 1 }).1
        (runIRSB (Machine.idle (hostInterp FpSem.zeros Interp.silent) 32) moveBlock
          { State.ofTmps () [] with reg := fun _ => 7 }).1 ∧
      (runIRSB (Machine.idle (hostInterp FpSem.zeros Interp.silent) 32) sb'
          { State.ofTmps () [] with reg := fun o => if o < 32 then 7 else 1 }).2
        = (runIRSB (Machine.idle (hostInterp FpSem.zeros Interp.silent) 32) moveBlock
          { State.ofTmps () [] with reg := fun _ => 7 }).2 :=
  ⟨_, rfl, dgInstrument_transparent (Machine.idle (hostInterp FpSem.zeros Interp.silent) 32)
    ⟨.b, false, false⟩ .i64 moveBlock _ (by decide) (by decide) rfl _ _
    ⟨fun _ _ => rfl, fun _ ho => if_pos ho, rfl⟩⟩

end Derivgrind
