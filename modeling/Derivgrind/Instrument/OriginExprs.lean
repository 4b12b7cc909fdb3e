import Derivgrind.Instrument.Discrete
import Derivgrind.Instrument.OriginTable
import Derivgrind.Instrument.ShadowRegs

/-!
# Origins in expressions

A superblock of the client is run together with the origins of its bytes, and the superblock that
recording mode makes of it is run alongside.  The shadows of temporaries, registers and memory follow
the origins.  Then so does the shadow of every expression, once the code that computes it has been
run.

## Main definitions

* `ShadowHolds`, `OriginsHold` — the shadow of the client follows the origins of its bytes.
* `OriginState` — an instrumented superblock alongside the one of the client.
* `IRExpr.isTracked` — the expressions that are covered.

## Main results

* `RecordingContext.shadowMaps` — loads and stores of recording mode.
* `OriginState.index_atom` — atoms.
* `wp_modifyOrDefault_origins` — **the shadow of an expression follows its origins.**
-/

namespace Derivgrind

open Emitter.Meaning

/-! ### States without the tool -/

section Client

variable {B T : Type}

/-- A state without the state of the tool. -/
def State.client (s : State B T) : State B Unit := ⟨s.tmp, s.reg, s.mem, s.buf, ()⟩

mutual

/-- Expressions do not depend on the tool. -/
theorem evalExpr_client (I : Interp B) (s : State B T) :
    ∀ e : IRExpr, evalExpr I s.client e = evalExpr I s e
  | .get offset ty => rfl
  | .getI descr ix bias => by
      rw [evalExpr, evalExpr, evalExpr_client I s ix]
      rfl
  | .rdTmp tmp => rfl
  | .qop op a b c d => by
      rw [evalExpr, evalExpr, evalExpr_client I s a, evalExpr_client I s b, evalExpr_client I s c,
        evalExpr_client I s d]
  | .triop op a b c => by
      rw [evalExpr, evalExpr, evalExpr_client I s a, evalExpr_client I s b, evalExpr_client I s c]
  | .binop op a b => by
      rw [evalExpr, evalExpr, evalExpr_client I s a, evalExpr_client I s b]
  | .unop op a => by rw [evalExpr, evalExpr, evalExpr_client I s a]
  | .load endness ty addr => by
      rw [evalExpr, evalExpr, evalExpr_client I s addr]
      rfl
  | .const con => rfl
  | .ite cond iftrue iffalse => by
      rw [evalExpr, evalExpr, evalExpr_client I s cond, evalExpr_client I s iftrue,
        evalExpr_client I s iffalse]
  | .ccall cee retty args => by rw [evalExpr, evalExpr, evalExprs_client I s args]
  | .vecret => rfl
  | .gsptr => rfl

@[inherit_doc evalExpr_client]
theorem evalExprs_client (I : Interp B) (s : State B T) :
    ∀ es : List IRExpr, evalExprs I s.client es = evalExprs I s es
  | [] => rfl
  | e :: es => by rw [evalExprs, evalExprs, evalExpr_client I s e, evalExprs_client I s es]

end

end Client

/-! ### Shadow memory -/

/-- Both layers of shadow memory; the tape and the buffer of bitwise operations are the given
ones. -/
structure BarShadows (bar : BarState) (t : BarTool) (mem : ℕ → Addr → Byte) : Prop where
  bar_eq : t.bar = bar
  lo : t.memory.layer .lo = mem 0
  hi : t.memory.layer .hi = mem 1

theorem barShadows_self (t : BarTool) : BarShadows t.bar t fun k =>
    if k = 0 then t.memory.layer .lo else t.memory.layer .hi :=
  ⟨rfl, rfl, rfl⟩

section Memory

variable (c : RecordingContext) {F : FpSem Byte} {J : Interp Byte}
  (hbase : c.base.toInterp = hostInterp F J) (tid : ThreadId)

include hbase

theorem RecordingContext.addr_eq : c.base.addr = bitsOf 64 := by
  rw [hbase]
  rfl

theorem RecordingContext.const_u64 (x : ULong) : (c.machine tid).const (.u64 x) = bytesOf x := by
  show c.base.toInterp.const (.u64 x) = bytesOf x
  rw [hbase]
  rfl

theorem RecordingContext.toNat_size (ty : IRType) :
    (bitsOf 64 ((c.machine tid).const (.u64 (BitVec.ofNat 64 (sizeofIRType ty))))).toNat
      = sizeofIRType ty := by
  have hsize := sizeofIRType_le ty
  rw [c.const_u64 hbase tid, bitsOf_bytesOf (by decide), BitVec.toNat_ofNat,
    Nat.mod_eq_of_lt (by omega)]

/-- **Loads and stores** of recording mode act on both layers of shadow memory, and on nothing
else. -/
theorem RecordingContext.shadowMaps (bar : BarState) :
    (c.machine tid).ShadowMaps (dgBarExpressionhandling c.options) (bitsOf 64)
      (BarShadows bar) where
  isTrue_true := c.isTrue_true hbase tid
  layers_pos := Nat.two_pos
  congr := by
    rintro t mem mem' ⟨hbar, hlo, hhi⟩ heq
    exact ⟨hbar, hlo.trans (heq 0 Nat.two_pos), hhi.trans (heq 1 Nat.one_lt_two)⟩
  store := by
    rintro t mem ⟨hbar, hlo, hhi⟩ addr ty buf
    refine ⟨_, rfl, hbar, ?_, ?_⟩
    · show writeMem (t.memory.layer .lo) (bitsOf 64 addr) (readReg buf 0 _) = _
      rw [hlo]
      exact congrArg (fun n => writeMem (mem 0) (bitsOf 64 addr) (readReg buf 0 n))
        (c.toNat_size hbase tid ty)
    · show writeMem (t.memory.layer .hi) (bitsOf 64 addr) (readReg buf 32 _) = _
      rw [hhi]
      exact congrArg (fun n => writeMem (mem 1) (bitsOf 64 addr) (readReg buf 32 n))
        (c.toNat_size hbase tid ty)
  load := by
    rintro t mem ⟨-, hlo, hhi⟩ addr ty buf
    refine ⟨_, rfl, fun k hk => ?_⟩
    have hsize := sizeofIRType_le ty
    have hlen : ∀ (f : Addr → Byte) a n, (readMem f a n).length = n := fun f a n => by
      simp [readMem]
    rw [BarMemory.load]
    simp only [List.getD_cons_zero, List.getD_cons_succ, c.toNat_size hbase tid ty]
    obtain rfl | rfl : k = 0 ∨ k = 1 := by
      have hlt : k < 2 := hk
      omega
    · rw [Nat.mul_zero, readReg_writeReg_of_le _ _ (by omega), hlo]
      exact readReg_writeReg_of_length _ _ (hlen _ _ _)
    · rw [hhi]
      exact readReg_writeReg_of_length _ _ (hlen _ _ _)

end Memory

/-! ### Shadows and origins -/

/-- Both layers of the shadow of temporaries, registers and memory follow their origins. -/
structure ShadowHolds (W : Numbering) (n g : ℕ) (s : State Byte BarTool) (d : Origins) : Prop where
  tmp : ∀ t < n, W.HoldsAll (s.tmp (t + n)) (s.tmp (t + 2 * n)) (d.tmp t)
  reg : ∀ o < g, W.Holds (s.reg (o + g)) (s.reg (o + 2 * g)) (d.reg o)
  mem : ∀ a, W.Holds (s.tool.memory.layer .lo a) (s.tool.memory.layer .hi a) (d.mem a)

/-- The shadow follows the origins, and all numbers are on the tape. -/
structure OriginsHold (W : Numbering) (tyenv : List IRType) (g : ℕ) (s : State Byte BarTool)
    (d : Origins) : Prop where
  shadow : ShadowHolds W tyenv.length g s d
  valid : W.Valid d.count 0 d.upper s.tool
  sized : ∀ t ty, tyenv[t]? = some ty → (d.tmp t).length = sizeofIRType ty

/-- An instrumented superblock is executed alongside the one of the client. -/
structure OriginState (W : Numbering) (tyenv : List IRType) (g : ℕ) (env : List IRType)
    (s : State Byte BarTool) (p : State Byte Unit) (d : Origins) : Prop
    extends OriginsHold W tyenv g s d where
  declared : shadowedTyenv 2 tyenv <+: env
  client : PrimalEq tyenv.length g s.client p
  typed : p.Typed tyenv

section Holds

variable {W W' : Numbering} {n g : ℕ} {env env' : List IRType} {s s' : State Byte BarTool}
  {d : Origins} {lo hi : List Byte} {o : List Origin}

theorem Numbering.HoldsAll.forget (h : W.HoldsAll lo hi o) : W.HoldsAll lo hi (unknownOrigins o) :=
  HoldsAll.unknown W h.length_lo h.length_hi

theorem Numbering.HoldsAll.order (h : W.HoldsAll lo hi o) (endness : IREndness) :
    W.HoldsAll lo hi (endness.origins o) := by
  cases endness with
  | le => exact h
  | be => exact h.forget

theorem length_origins (endness : IREndness) (o : List Origin) :
    (endness.origins o).length = o.length := by
  cases endness with
  | le => rfl
  | be => exact List.length_replicate

namespace ShadowHolds

/-- The shadow of the client is kept while code is run that records. -/
theorem mono (h : ShadowHolds W n g s d) (hext : Extends env s env' s')
    (hmem : s'.tool.memory = s.tool.memory) (hW : W.Grows W') (hn : 3 * n ≤ env.length) :
    ShadowHolds W' n g s' d := by
  refine ⟨fun t ht => ?_, fun o ho => ?_, fun a => ?_⟩
  · rw [hext.tmp (t + n) (by omega), hext.tmp (t + 2 * n) (by omega)]
    exact (h.tmp t ht).mono hW
  · rw [hext.reg]
    exact (h.reg o ho).mono hW
  · rw [hmem]
    exact (h.mem a).mono hW

theorem readReg (h : ShadowHolds W n g s d) {offset k : ℕ} (hle : offset + k ≤ g) :
    W.HoldsAll (Derivgrind.readReg s.reg (offset + g) k)
      (Derivgrind.readReg s.reg (offset + 2 * g) k) (Derivgrind.readReg d.reg offset k) := by
  refine Numbering.HoldsAll.of_range fun j hj => ?_
  rw [show offset + g + j = offset + j + g by omega,
    show offset + 2 * g + j = offset + j + 2 * g by omega]
  exact h.reg (offset + j) (by omega)

theorem readMem (h : ShadowHolds W n g s d) (a : Addr) (k : ℕ) :
    W.HoldsAll (Derivgrind.readMem (s.tool.memory.layer .lo) a k)
      (Derivgrind.readMem (s.tool.memory.layer .hi) a k) (Derivgrind.readMem d.mem a k) :=
  Numbering.HoldsAll.of_range fun _ _ => h.mem _

end ShadowHolds

end Holds

/-! ### Atoms -/

section Atoms

variable {I : Interp Byte} {F : FpSem Byte} {J : Interp Byte} {W : Numbering}
  {tyenv env : List IRType} {g : ℕ} {s : State Byte BarTool} {p : State Byte Unit} {d : Origins}
  {w ty : IRType} {e : IRExpr} {o : Options}

namespace OriginState

theorem three_mul_le (h : OriginState W tyenv g env s p d) : 3 * tyenv.length ≤ env.length := by
  have hle := h.declared.length_le
  rw [length_shadowedTyenv] at hle
  omega

theorem prefixed (h : OriginState W tyenv g env s p d) : tyenv <+: env :=
  (List.prefix_append _ _).trans h.declared

/-- Expressions of the client. -/
theorem eval_eq (h : OriginState W tyenv g env s p d) (I : Interp Byte)
    (hfits : e.inBounds tyenv.length g = true) : evalExpr I s e = evalExpr I p e := by
  rw [← evalExpr_client I s e]
  exact evalExpr_primalEq h.client e hfits

/-- Code that extends a state does not change what atoms are. -/
theorem eval_extends (h : OriginState W tyenv g env s p d) (I : Interp Byte)
    (hatom : e.isAtom = true) (hfits : e.inBounds tyenv.length g = true) {env' : List IRType}
    {s' : State Byte BarTool} (hext : Extends env s env' s') :
    evalExpr I s' e = evalExpr I p e := by
  rw [← h.eval_eq I hfits]
  exact (evalExpr_primalEq (hext.primalEq 0) e
    (inBounds_atom hatom hfits h.prefixed.length_le)).symm

/-- The values of atoms. -/
theorem hasValue_atom (h : OriginState W tyenv g env s p d) (hV : I.IsVex F)
    (hatom : e.isAtom = true) (hfits : e.inBounds tyenv.length g = true)
    (hty : typeOfIRExpr tyenv e = some ty) : HasValue I env s e ty (evalExpr I p e) := by
  obtain ⟨tys, htys⟩ := h.prefixed
  refine ⟨inBounds_atom hatom hfits h.prefixed.length_le, ?_, h.eval_eq I hfits, ?_⟩
  · rw [← htys]
    exact typeOfIRExpr_append tys e hty
  · cases e with
    | rdTmp t => exact h.typed t ty hty
    | const con =>
      obtain rfl := Option.some_inj.mp hty
      exact hV.length_const con (by simpa [IRExpr.inBounds] using hfits)
    | _ => cases hatom

end OriginState

/-- Constants have no index. -/
theorem exists_dgBarConstant {T : Type} {con : IRConst} (hcon : con.isBufferAddr = false)
    (env : List IRType) (s : State Byte T) : ∃ zero, dgBarConstant con = [zero, zero] ∧
      HasValue (hostInterp F J) env s zero (typeOfIRConst con)
        (List.replicate (sizeofIRType (typeOfIRConst con)) 0) := by
  cases con with
  | bufferAddr ty offset => cases hcon
  | _ => exact ⟨_, rfl, rfl, rfl, rfl, List.length_replicate⟩

/-- **The shadows of atoms** follow their origins. -/
theorem OriginState.index_atom (h : OriginState W tyenv g env s p d) (hI : I = hostInterp F J)
    (hatom : e.isAtom = true) (hfits : e.inBounds tyenv.length g = true)
    (hty : typeOfIRExpr tyenv e = some ty) (w : IRType) : ∃ eLo eHi lo hi,
      atomShadow (dgBarExpressionhandling o) ⟨tyenv.length, g, w⟩ e = [eLo, eHi] ∧
      HasValue I env s eLo ty lo ∧ HasValue I env s eHi ty hi ∧ W.HoldsAll lo hi (d.atom e) := by
  cases e with
  | rdTmp t =>
    have ht : t < tyenv.length := by simpa [IRExpr.inBounds] using hfits
    have hholds := h.shadow.tmp t ht
    have hlen := h.sized t ty hty
    have hlayer : ∀ k < 2, env[t + (k + 1) * tyenv.length]? = some ty := fun k hk =>
      getElem?_of_prefixed h.declared ((getElem?_shadowedTyenv hk ht).trans hty)
    have hlo := hlayer 0 Nat.two_pos
    rw [Nat.zero_add, Nat.one_mul] at hlo
    refine ⟨.rdTmp (t + tyenv.length), .rdTmp (t + 2 * tyenv.length), _, _, ?_,
      HasValue.rdTmp hlo (hholds.length_lo.trans hlen),
      HasValue.rdTmp (hlayer 1 Nat.one_lt_two) (hholds.length_hi.trans hlen), hholds⟩
    show [IRExpr.rdTmp (t + (0 + 1) * tyenv.length), .rdTmp (t + (1 + 1) * tyenv.length)] = _
    rw [Nat.zero_add, Nat.one_mul]
  | const con =>
    obtain rfl := Option.some_inj.mp hty
    obtain ⟨zero, hshadow, hvalue⟩ := exists_dgBarConstant (F := F) (J := J)
      (by simpa [IRExpr.inBounds] using hfits) env s
    rw [← hI] at hvalue
    exact ⟨zero, zero, _, _, hshadow, hvalue, hvalue, Numbering.HoldsAll.zeros W _⟩
  | _ => cases hatom

end Atoms

/-! ### Expressions -/

/-- Operations that are in the table, or have a default. -/
def IROp.isTracked (op : IROp) : Bool :=
  (irOpInfo? op).isSome || (barZero? (typeOfPrimop op).dst).isSome

/-- Flat expressions. -/
def IRExpr.isTracked : IRExpr → Bool
  | .rdTmp _ => true
  | .const _ => true
  | .get _ _ => true
  | .getI _ ix _ => ix.isAtom
  | .load _ _ addr => addr.isAtom
  | .unop op a => op.isTracked && a.isAtom
  | .binop op a b => op.isTracked && a.isAtom && b.isAtom
  | .triop op a b c => op.isTracked && a.isAtom && b.isAtom && c.isAtom
  | .qop op a b c d => op.isTracked && a.isAtom && b.isAtom && c.isAtom && d.isAtom
  | .ite cond iftrue iffalse => cond.isAtom && iftrue.isAtom && iffalse.isAtom
  | .ccall _ retty args => (barZero? retty).isSome && args.all IRExpr.isAtom
  | _ => false

section Operations

variable {e : IRExpr} {op : IROp} {es : List IRExpr}

theorem operands_tracked (h : e.operation? = some (op, es)) (he : e.isTracked = true) :
    op.isTracked = true ∧ ∀ a ∈ es, a.isAtom = true := by
  cases e <;> simp only [IRExpr.operation?, Option.some.injEq, Prod.mk.injEq, reduceCtorEq] at h <;>
    (obtain ⟨rfl, rfl⟩ := h; simpa [IRExpr.isTracked, and_assoc] using he)

/-- The origins of the result of an operation. -/
theorem Origins.eval_operation (h : e.operation? = some (op, es)) (I : Interp Byte)
    (p : State Byte Unit) (d : Origins) : d.eval I p e
      = op.origins d.count (es.map (evalExpr I p)) (es.map d.atom) d.upper := by
  cases e <;> simp only [IRExpr.operation?, Option.some.injEq, Prod.mk.injEq, reduceCtorEq] at h <;>
    (obtain ⟨rfl, rfl⟩ := h; rfl)

/-- The results of operations that are not in the table have no index. -/
theorem IROp.origins_untabled (h : irOpInfo? op = none) (n : ℕ) (vs : List (List Byte))
    (os : List (List Origin)) (upper : Bool) :
    op.origins n vs os upper = some (zeroOrigins (sizeofIRType (typeOfPrimop op).dst), upper) := by
  cases op with
  | helperMove m => rfl
  | helper op => rfl
  | other args dst k => rfl
  | _ => cases h

end Operations

/-- Both layers of the shadow of an expression follow its origins, when the code that computes them
has been run. -/
def ExprHolds (I : Interp Byte) (W : Numbering) (n : ℕ) (upper : Bool) (ty : IRType)
    (o : List Origin) (env : List IRType) (s : State Byte BarTool) (shadow : Shadow)
    (env' : List IRType) (s' : State Byte BarTool) : Prop :=
  Extends env s env' s' ∧ s'.tool.memory = s.tool.memory ∧ o.length = sizeofIRType ty ∧
    ∃ W' k, W.Grows W' ∧ W'.Valid n k upper s'.tool ∧
      W'.HoldsAll (evalExpr I s' (shadow.layer 0)) (evalExpr I s' (shadow.layer 1)) o

section Exprs

variable {c : RecordingContext} {F : FpSem Byte} {J : Interp Byte}
  (hbase : c.base.toInterp = hostInterp F J) (hI : c.base.toInterp.Integers)
  (htype : c.tape.typegrind = false) (hram : c.tape.tapeInRam = false) {tid : ThreadId}
  {W : Numbering} {tyenv env : List IRType} {g : ℕ} {s : State Byte BarTool}
  {p : State Byte Unit} {d : Origins} {w ty : IRType} {e : IRExpr} {o : List Origin} {upper : Bool}
  {shadow : Shadow}

/-- An expression for which no code is needed. -/
theorem OriginState.exprHolds (h : OriginState W tyenv g env s p d) {I : Interp Byte}
    (hlen : o.length = sizeofIRType ty)
    (hholds : W.HoldsAll (evalExpr I s (shadow.layer 0)) (evalExpr I s (shadow.layer 1)) o) :
    ExprHolds I W d.count d.upper ty o env s shadow env s :=
  ⟨Extends.refl env s, rfl, hlen, W, 0, Numbering.Grows.refl W, h.valid, hholds⟩

include hbase in
theorem OriginState.exprHolds_atom (h : OriginState W tyenv g env s p d) (hatom : e.isAtom = true)
    (hfits : e.inBounds tyenv.length g = true) (hty : typeOfIRExpr tyenv e = some ty) (w : IRType) :
    ExprHolds c.base.toInterp W d.count d.upper ty (d.atom e) env s
      (atomShadow (dgBarExpressionhandling c.options) ⟨tyenv.length, g, w⟩ e) env s := by
  obtain ⟨eLo, eHi, lo, hi, hshadow, hlo, hhi, hholds⟩ := h.index_atom hbase hatom hfits hty w
  refine h.exprHolds (hholds.length_lo.symm.trans hlo.length) ?_
  rw [hshadow]
  show W.HoldsAll (evalExpr c.base.toInterp s eLo) (evalExpr c.base.toInterp s eHi) _
  rwa [hlo.eval, hhi.eval]

include hbase in
/-- The operands of an operation on atoms. -/
theorem OriginState.operands_atoms (h : OriginState W tyenv g env s p d) {es : List IRExpr}
    (hatoms : ∀ a ∈ es, a.isAtom = true) (hfits : ∀ a ∈ es, a.inBounds tyenv.length g = true)
    {tys : List IRType} (htys : tys.map some = es.map (typeOfIRExpr tyenv)) (w : IRType) :
    OriginOperands (c.machine tid) W env s (numbered .vecret es)
      (argLayer (numbered none (es.map fun a =>
        some (atomShadow (dgBarExpressionhandling c.options) ⟨tyenv.length, g, w⟩ a))) 0)
      (argLayer (numbered none (es.map fun a =>
        some (atomShadow (dgBarExpressionhandling c.options) ⟨tyenv.length, g, w⟩ a))) 1)
      tys (es.map (evalExpr c.base.toInterp p)) (es.map d.atom) := by
  have hV := c.isVex hbase tid
  -- the operand with a given number
  have hoperand : ∀ (i : ℕ) (ty : IRType), tys[i]? = some ty →
      ∃ a ∈ es, es[i]? = some a ∧ typeOfIRExpr tyenv a = some ty := by
    intro i ty hty
    have hi := congrArg (fun l => l[i]?) htys
    simp only [List.getElem?_map, hty, Option.map_some] at hi
    obtain ⟨a, ha, heq⟩ := Option.map_eq_some_iff.mp hi.symm
    exact ⟨a, List.mem_of_getElem? ha, ha, heq⟩
  refine ⟨?_, fun i ty hty => ?_, fun i ty hty => ?_⟩
  · simpa only [List.length_map] using (congrArg List.length htys).symm
  · obtain ⟨a, hmem, ha, hatype⟩ := hoperand i ty hty
    simp only [numbered, Nat.add_sub_cancel, List.getD_eq_getElem?_getD, List.getElem?_map, ha,
      Option.map_some, Option.getD_some]
    exact h.hasValue_atom hV (hatoms a hmem) (hfits a hmem) hatype
  · obtain ⟨a, hmem, ha, hatype⟩ := hoperand i ty hty
    obtain ⟨eLo, eHi, lo, hi, hshadow, hlo, hhi, hholds⟩ :=
      h.index_atom hbase (hatoms a hmem) (hfits a hmem) hatype w (o := c.options)
    simp only [argLayer, numbered, Nat.add_sub_cancel, List.getD_eq_getElem?_getD,
      List.getElem?_map, ha, Option.map_some, Option.getD_some, hshadow]
    exact ⟨lo, hi, hlo, hhi, hholds⟩

include hbase in
/-- An expression without a shadow gets the default. -/
theorem OriginState.wp_default (h : OriginState W tyenv g env s p d)
    (hty : typeOfIRExpr tyenv e = some ty) (hzero : (barZero? ty).isSome = true) :
    (execMeaning (c.machine tid)).wp (do
      let ty ← typeOf e
      (dgBarExpressionhandling c.options).default_ ty) env s
      (ExprHolds c.base.toInterp W d.count d.upper ty (zeroOrigins (sizeofIRType ty)) env s) := by
  obtain ⟨zero, hbar⟩ := Option.isSome_iff_exists.mp hzero
  obtain ⟨tys, htys⟩ := h.prefixed
  apply wp_bind
  apply wp_typeOf (htys ▸ typeOfIRExpr_append tys e hty)
  show (execMeaning (c.machine tid)).wp (dgBarDefault ty) env s _
  unfold dgBarDefault
  rw [hbar]
  refine wp_bind (wp_ofOption (wp_pure (h.exprHolds List.length_replicate ?_)))
  show W.HoldsAll (evalExpr c.base.toInterp s zero) (evalExpr c.base.toInterp s zero) _
  rw [hbase, eval_barZero hbar]
  exact Numbering.HoldsAll.zeros W _

include hbase in
/-- **Loading a shadow** loads both layers. -/
theorem OriginState.wp_load (h : OriginState W tyenv g env s p d) {addr : IRExpr}
    (haddr : addr.isAtom = true) (hfits : addr.inBounds tyenv.length g = true)
    (haddrTy : typeOfIRExpr tyenv addr = some w) (ty : IRType) :
    (execMeaning (c.machine tid)).wp
      ((dgBarExpressionhandling c.options).load ⟨tyenv.length, g, w⟩ addr ty) env s
      fun shadow env' s' => Extends env s env' s' ∧ s'.tool = s.tool ∧
        shadow.layer 1 = .rdTmp (env.length + 1) ∧
        let a := c.base.addr (evalExpr c.base.toInterp p addr)
        evalExpr c.base.toInterp s' (shadow.layer 0)
            = Derivgrind.readMem (s.tool.memory.layer .lo) a (sizeofIRType ty) ∧
          evalExpr c.base.toInterp s' (shadow.layer 1)
            = Derivgrind.readMem (s.tool.memory.layer .hi) a (sizeofIRType ty) := by
  rw [c.addr_eq hbase]
  apply wp_mono (wp_shadowLoad (c.shadowMaps hbase tid s.tool.bar) (barShadows_self s.tool)
    ⟨tyenv.length, g, w⟩ (h.hasValue_atom (c.isVex hbase tid) haddr hfits haddrTy) ty)
  rintro shadow env' s' ⟨hext, htool, hlayers, hshadow⟩
  refine ⟨hext, htool, ?_, (hshadow.layer 0 Nat.two_pos).eval,
    (hshadow.layer 1 Nat.one_lt_two).eval⟩
  rw [hlayers]
  rfl

include hbase hI htype hram

/-- Operations on atoms. -/
theorem OriginState.wp_operation (h : OriginState W tyenv g env s p d) {op : IROp}
    {es : List IRExpr} (heq : e.operation? = some (op, es)) (he : e.isTracked = true)
    (hfits : e.inBounds tyenv.length g = true) (htc : tcExpr tyenv w e = true)
    (ho : d.eval c.base.toInterp p e = some (o, upper)) :
    (execMeaning (c.machine tid)).wp (dgModifyExpressionOrDefault
      (dgBarExpressionhandling c.options) ⟨tyenv.length, g, w⟩ e) env s
      (ExprHolds c.base.toInterp W d.count upper (typeOfPrimop op).dst o env s) := by
  obtain ⟨hop, hatoms⟩ := operands_tracked heq he
  obtain ⟨htys, hdst⟩ := operands_typed heq htc
  rw [Origins.eval_operation heq] at ho
  apply wp_bind
  apply wp_modify_operation heq hatoms
  show (execMeaning (c.machine tid)).wp (dgBarOperation c.options op _ _) env s _
  unfold dgBarOperation
  cases hinfo : irOpInfo? op with
  | none =>
    rw [show c.options.typegrind = false from htype]
    rw [IROp.isTracked, hinfo] at hop
    rw [IROp.origins_untabled hinfo] at ho
    obtain ⟨rfl, rfl⟩ := Prod.mk.inj (Option.some.inj ho)
    exact wp_pure (h.wp_default hbase hdst hop)
  | some info =>
    -- the operands are atoms, which always have a shadow
    have hformed : allFormed (numbered none (es.map fun a => some (atomShadow
        (dgBarExpressionhandling c.options) ⟨tyenv.length, g, w⟩ a))) info.diffinputs = true := by
      have hlen : (typeOfPrimop op).args.length = es.length := by
        simpa only [List.length_map] using congrArg List.length htys
      unfold allFormed
      rw [List.all_eq_true]
      intro i hi
      obtain ⟨hpos, hle⟩ := diffinputs_le hinfo i hi
      have hlt : i - 1 < es.length := by omega
      rw [numbered, List.getD_eq_getElem?_getD, List.getElem?_map, List.getElem?_eq_getElem hlt]
      rfl
    have hoperands : OriginOperands (c.machine tid) W env s _ _ _ _ _ _ :=
      h.operands_atoms hbase hatoms (operands_inBounds heq hfits) htys w
    simp only [hformed, if_true]
    apply wp_bind
    apply wp_mono (wp_barcode_origins hbase hI htype hram hinfo hoperands h.valid ho)
    rintro outs env' s' ⟨hext, hmem, W', k, hgrows, hW', eLo, eHi, lo, hi, rfl, hlo, hhi, hholds⟩
    refine wp_pure (wp_pure ⟨hext, hmem, hholds.length_lo.symm.trans hlo.length, W', k, hgrows, hW',
      ?_⟩)
    have hloEval : evalExpr c.base.toInterp s' eLo = lo := hlo.eval
    have hhiEval : evalExpr c.base.toInterp s' eHi = hi := hhi.eval
    show W'.HoldsAll (evalExpr c.base.toInterp s' eLo) (evalExpr c.base.toInterp s' eHi) o
    rwa [hloEval, hhiEval]

/-- **The shadow of an expression follows its origins.** -/
theorem wp_modifyOrDefault_origins (h : OriginState W tyenv g env s p d) (he : e.isTracked = true)
    (hfits : e.inBounds tyenv.length g = true) (htc : tcExpr tyenv w e = true)
    (hty : typeOfIRExpr tyenv e = some ty)
    (hregs : ∀ descr ix bias, e = .getI descr ix bias → descr.divides g = true)
    (ho : d.eval c.base.toInterp p e = some (o, upper)) :
    (execMeaning (c.machine tid)).wp (dgModifyExpressionOrDefault
      (dgBarExpressionhandling c.options) ⟨tyenv.length, g, w⟩ e) env s
      (ExprHolds c.base.toInterp W d.count upper ty o env s) := by
  have hop : ∀ {op es}, e.operation? = some (op, es) → (execMeaning (c.machine tid)).wp
      (dgModifyExpressionOrDefault (dgBarExpressionhandling c.options) ⟨tyenv.length, g, w⟩ e) env s
      (ExprHolds c.base.toInterp W d.count upper ty o env s) := by
    intro op es heq
    obtain rfl := Option.some_inj.mp (hty.symm.trans (operands_typed heq htc).2)
    exact h.wp_operation hbase hI htype hram heq he hfits htc ho
  have hatom : ∀ {a : IRExpr}, a.isAtom = true → a.inBounds tyenv.length g = true →
      typeOfIRExpr tyenv a = some ty → ExprHolds c.base.toInterp W d.count d.upper ty (d.atom a) env s
        (atomShadow (dgBarExpressionhandling c.options) ⟨tyenv.length, g, w⟩ a) env s :=
    fun hatom hfits hty => h.exprHolds_atom hbase hatom hfits hty w
  cases e with
  | rdTmp t =>
    obtain ⟨rfl, rfl⟩ := Prod.mk.inj (Option.some.inj ho)
    rw [dgModifyExpressionOrDefault_atom _ _ rfl]
    exact wp_pure (hatom rfl hfits hty)
  | const con =>
    obtain ⟨rfl, rfl⟩ := Prod.mk.inj (Option.some.inj ho)
    rw [dgModifyExpressionOrDefault_atom _ _ rfl]
    exact wp_pure (hatom rfl hfits hty)
  | get offset ty' =>
    obtain ⟨rfl, rfl⟩ := Prod.mk.inj (Option.some.inj ho)
    obtain rfl := Option.some_inj.mp hty
    have hfits : offset + sizeofIRType ty' ≤ g := by simpa [IRExpr.inBounds] using hfits
    have hholds := h.shadow.readReg hfits
    refine wp_bind (wp_pure (wp_pure (h.exprHolds (by simp [readReg]) ?_)))
    show W.HoldsAll (readReg s.reg (offset + (0 + 1) * g) _)
      (readReg s.reg (offset + (1 + 1) * g) _) _
    rwa [Nat.zero_add, Nat.one_mul]
  | getI descr ix bias =>
    obtain ⟨rfl, rfl⟩ := Prod.mk.inj (Option.some.inj ho)
    obtain rfl := Option.some_inj.mp hty
    simp only [IRExpr.inBounds, Bool.and_eq_true, decide_eq_true_eq] at hfits
    have hdivides := hregs descr ix bias rfl
    have hindex := h.eval_eq c.base.toInterp hfits.2
    have hholds := h.shadow.readReg (IRRegArray.offset_add_le hfits.1.1 hfits.1.2
      (c.base.index (evalExpr c.base.toInterp p ix)) bias)
    refine wp_bind (wp_pure (wp_pure (h.exprHolds (by simp [readReg]) ?_)))
    -- the bias grows by a multiple of the number of elements, so the rotation is the same
    have hdisp₁ := IRRegArray.offset_displaced hdivides
    have hdisp₂ := IRRegArray.offset_displaced (IRRegArray.divides_mul hdivides 1)
    show W.HoldsAll
      (readReg s.reg (IRRegArray.offset { descr with base := descr.base + (0 + 1) * g }
        (c.base.index (evalExpr c.base.toInterp s ix)) (bias + ((0 + 1) * g : ℕ))) _)
      (readReg s.reg (IRRegArray.offset { descr with base := descr.base + (1 + 1) * g }
        (c.base.index (evalExpr c.base.toInterp s ix)) (bias + ((1 + 1) * g : ℕ))) _) _
    rwa [Nat.zero_add, Nat.one_mul, hdisp₁, hdisp₂, hindex]
  | load endness ty' addr =>
    obtain ⟨rfl, rfl⟩ := Prod.mk.inj (Option.some.inj ho)
    obtain rfl := Option.some_inj.mp hty
    rw [IRExpr.inBounds] at hfits
    have haddrTy : typeOfIRExpr tyenv addr = some w := by
      simp only [tcExpr, Bool.and_eq_true, decide_eq_true_eq] at htc
      exact htc.2
    apply wp_bind
    rw [dgModifyExpression]
    apply wp_bind
    apply wp_mono (h.wp_load hbase he hfits haddrTy ty')
    rintro shadow env' s' ⟨hext, htool, -, hlo, hhi⟩
    have hholds := (h.shadow.readMem (c.base.addr (evalExpr c.base.toInterp p addr))
      (sizeofIRType ty')).order endness
    refine wp_pure (wp_pure ⟨hext, by rw [htool], ?_, W, 0, Numbering.Grows.refl W,
      by rw [htool]; exact h.valid, ?_⟩)
    · rw [length_origins, length_readMem]
    · rw [hlo, hhi]
      exact hholds
  | ite cond iftrue iffalse =>
    obtain ⟨rfl, rfl⟩ := Prod.mk.inj (Option.some.inj ho)
    simp only [IRExpr.isTracked, IRExpr.inBounds, tcExpr, Bool.and_eq_true, decide_eq_true_eq]
      at he hfits htc
    rw [typeOfIRExpr] at hty
    -- both branches are atoms, so there is no code for them
    apply wp_bind
    rw [dgModifyExpression, dgModifyExpression_atom _ _ he.1.2, dgModifyExpression_atom _ _ he.2]
    apply wp_bind
    apply wp_pure
    apply wp_bind
    apply wp_pure
    have hcond := h.eval_eq c.base.toInterp hfits.1.1
    by_cases hb : c.base.isTrue (evalExpr c.base.toInterp p cond) = true
    · obtain ⟨hext, hmem, hlen, W', k, hgrows, hW', hholds⟩ :=
        hatom he.1.2 hfits.1.2 (htc.2.trans hty)
      rw [if_pos hb]
      refine wp_pure (wp_pure ⟨hext, hmem, hlen, W', k, hgrows, hW', ?_⟩)
      show W'.HoldsAll (evalExpr c.base.toInterp s (.ite cond _ _))
        (evalExpr c.base.toInterp s (.ite cond _ _)) _
      rwa [evalExpr, evalExpr, hcond, if_pos hb, if_pos hb]
    · obtain ⟨hext, hmem, hlen, W', k, hgrows, hW', hholds⟩ := hatom he.2 hfits.2 hty
      rw [if_neg hb]
      refine wp_pure (wp_pure ⟨hext, hmem, hlen, W', k, hgrows, hW', ?_⟩)
      show W'.HoldsAll (evalExpr c.base.toInterp s (.ite cond _ _))
        (evalExpr c.base.toInterp s (.ite cond _ _)) _
      rwa [evalExpr, evalExpr, hcond, if_neg hb, if_neg hb]
  | ccall cee retty args =>
    obtain ⟨rfl, rfl⟩ := Prod.mk.inj (Option.some.inj ho)
    simp only [IRExpr.isTracked, Bool.and_eq_true, List.all_eq_true] at he
    apply wp_bind
    rw [dgModifyExpression, dgModifyExpressions_atoms _ _ he.2]
    apply wp_bind
    apply wp_pure
    obtain rfl := Option.some_inj.mp hty
    exact wp_pure (h.wp_default hbase rfl he.1)
  | unop op a => exact hop rfl
  | binop op a b => exact hop rfl
  | triop op a b c => exact hop rfl
  | qop op a b c e => exact hop rfl
  | _ => cases he

end Exprs

end Derivgrind
