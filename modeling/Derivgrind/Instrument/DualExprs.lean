import Derivgrind.Instrument.DualCode
import Derivgrind.Instrument.SwapParts

/-!
# Epsilon parts of expressions

A superblock is run over dual numbers by running it on pairs of bytes.  The instrumented
superblock is run on bytes: its temporaries, registers and memory hold the primal
parts, and the shadow of them holds the epsilon parts.

## Main definitions

* `IRExpr.isDual`, `IRStmt.isDual` — the expressions and statements that are covered.
* `PrimalPart`, `EpsilonPart` — the parts of a state on pairs of bytes.
* `DualMachines` — a machine with exact arithmetic, and one with dual numbers.

## Main results

* `PrimalPart.eval` — expressions have the same value as the primal parts.
* `wp_modify_dual` — **the shadow of an expression is the epsilon part of its value.**
-/

namespace Derivgrind

open Emitter.Meaning

/-! ### Superblocks -/

/-- Flat expressions that are covered. -/
def IRExpr.isDual : IRExpr → Bool
  | .get _ _ => true
  | .getI _ ix _ => ix.isAtom
  | .rdTmp _ => true
  | .qop op a b c d => op.isDual && a.isAtom && b.isAtom && c.isAtom && d.isAtom
  | .triop op a b c => op.isDual && a.isAtom && b.isAtom && c.isAtom
  | .binop op a b => op.isDual && a.isAtom && b.isAtom
  | .unop op a => op.isDual && a.isAtom
  | .load endness _ addr => endness = .le && addr.isAtom
  | .const _ => true
  | .ite cond iftrue iffalse => cond.isAtom && iftrue.isAtom && iffalse.isAtom
  | _ => false

/-- Guarded loads without a conversion. -/
def IRLoadGOp.isIdentity : IRLoadGOp → Bool
  | .identV128 => true
  | .ident64 => true
  | .ident32 => true
  | _ => false

/-- Flat statements that are covered. -/
def IRStmt.isDual : IRStmt → Bool
  | .noOp => true
  | .iMark _ _ _ => true
  | .abiHint _ _ _ => true
  | .put _ data => data.isAtom
  | .putI _ ix _ data => ix.isAtom && data.isAtom
  | .wrTmp _ data => data.isDual
  | .store endness addr data => endness = .le && addr.isAtom && data.isAtom
  | .storeG endness addr data guard =>
      endness = .le && addr.isAtom && data.isAtom && guard.isAtom
  | .loadG endness cvt _ addr alt guard =>
      endness = .le && cvt.isIdentity && addr.isAtom && alt.isAtom && guard.isAtom
  | .mbe => true
  | .exit guard _ _ _ => guard.isAtom
  | _ => false

/-- An array of registers in a guest state of `g` bytes, whose number of elements divides `g`. -/
def IRRegArray.divides (descr : IRRegArray) (g : ℕ) : Bool :=
  0 < descr.nElems && descr.base + descr.nElems * sizeofIRType descr.elemTy ≤ g &&
    g % descr.nElems = 0

/-- The registers that are accessed exist, and arrays divide the guest state. -/
def IRStmt.regsFit (tyenv : List IRType) (g : ℕ) : IRStmt → Bool
  | .put offset data => (typeOfIRExpr tyenv data).all fun ty => offset + sizeofIRType ty ≤ g
  | .putI descr _ _ _ => descr.divides g
  | .wrTmp _ (.getI descr _ _) => descr.divides g
  | _ => true

/-! ### The parts of a state -/

variable {K B T T' : Type} [Field K]

/-- A state agrees with the primal part of a state on pairs of bytes. -/
structure PrimalPart (n g : ℕ) (s : State B T) (d : State (B × B) T') : Prop where
  tmp : ∀ t < n, s.tmp t = (d.tmp t).map Prod.fst
  reg : ∀ o < g, s.reg o = (d.reg o).1
  mem : ∀ a, s.mem a = (d.mem a).1

/-- The shadow in a state agrees with the epsilon part of a state on pairs of bytes. -/
structure EpsilonPart (n g : ℕ) (Shadows : T → (ℕ → Addr → B) → Prop) (s : State B T)
    (d : State (B × B) T') : Prop where
  tmp : ∀ t < n, s.tmp (t + n) = (d.tmp t).map Prod.snd
  reg : ∀ o < g, s.reg (o + g) = (d.reg o).2
  mem : Shadows s.tool fun _ a => (d.mem a).2

/-- A machine with exact arithmetic, whose helper functions act on shadow memory, and a machine
with dual numbers. -/
structure DualMachines (N : Numbers K B) (I : Interp B) (F : FpSem B) (F' : FpSem (B × B))
    (M : Machine B T) (D : Machine (B × B) T') (Shadows : T → (ℕ → Addr → B) → Prop) : Prop where
  exact : I.Exact N
  primal : M.toInterp = I.exact N F
  dual : D.toInterp = (I.dual N.zero).exact N.dual F'
  shadow : M.ShadowMaps dgDotExpressionhandling M.addr Shadows

theorem PrimalPart.of_primalEq {n g : ℕ} {s s' : State B T} {d : State (B × B) T'}
    (h : PrimalPart n g s d) (heq : PrimalEq n g s' s) : PrimalPart n g s' d :=
  ⟨fun t ht => (heq.tmp t ht).trans (h.tmp t ht), fun o ho => (heq.reg o ho).trans (h.reg o ho),
    fun a => by rw [heq.mem, h.mem]⟩

/-! ### Accesses -/

section Accesses

/-- Bytes behind a write are not changed, if the bytes that are written end in front of them. -/
theorem writeReg_of_ge (r : ℕ → B) {offset o : ℕ} {bytes : List B}
    (h : offset + bytes.length ≤ o) : writeReg r offset bytes o = r o := by
  unfold writeReg
  split
  · exact List.getD_eq_default _ _ (by omega)
  · rfl

/-- Reading and writing displaced bytes. -/
theorem readReg_displaced {r r' : ℕ → B} {g k offset n : ℕ} (h : ∀ o < g, r (o + k) = r' o)
    (hle : offset + n ≤ g) : readReg r (offset + k) n = readReg r' offset n := by
  apply List.map_congr_left
  intro j hj
  have hj : j < n := List.mem_range.mp hj
  rw [show offset + k + j = offset + j + k by omega]
  exact h (offset + j) (by omega)

theorem writeReg_displaced {r r' : ℕ → B} {k offset : ℕ} (bytes : List B) {o : ℕ}
    (h : r (o + k) = r' o) :
    writeReg r (offset + k) bytes (o + k) = writeReg r' offset bytes o := by
  unfold writeReg
  by_cases hle : offset ≤ o
  · rw [if_pos hle, if_pos (by omega), h, Nat.add_sub_add_right]
  · rw [if_neg hle, if_neg (by omega), h]

/-- The element of the shadow of an array that is accessed is the displaced one, because the
displacement is a multiple of the number of elements. -/
theorem IRRegArray.offset_displaced {descr : IRRegArray} {g : ℕ} (h : descr.divides g = true)
    (ix bias : ℤ) : IRRegArray.offset { descr with base := descr.base + g } ix (bias + (g : ℕ))
      = descr.offset ix bias + g := by
  simp only [IRRegArray.divides, Bool.and_eq_true, decide_eq_true_eq] at h
  have hdvd : (descr.nElems : ℤ) ∣ (g : ℤ) := Int.natCast_dvd_natCast.mpr (Nat.dvd_of_mod_eq_zero h.2)
  have hmod : (ix + (bias + (g : ℤ))) % descr.nElems = (ix + bias) % descr.nElems := by
    rw [← Int.add_assoc, Int.add_emod, Int.emod_eq_zero_of_dvd hdvd, Int.add_zero, Int.emod_emod]
  simp only [IRRegArray.offset, hmod]
  omega

end Accesses

/-! ### Operations in expressions -/

/-- The operation at the root of an expression, and its operands. -/
def IRExpr.operation? : IRExpr → Option (IROp × List IRExpr)
  | .qop op a b c d => some (op, [a, b, c, d])
  | .triop op a b c => some (op, [a, b, c])
  | .binop op a b => some (op, [a, b])
  | .unop op a => some (op, [a])
  | _ => none

section Operations

variable {e : IRExpr} {op : IROp} {es : List IRExpr}

theorem eval_operation (h : e.operation? = some (op, es)) (J : Interp B) (s : State B T) :
    evalExpr J s e = J.op op (es.map (evalExpr J s)) := by
  cases e <;> simp only [IRExpr.operation?, Option.some.injEq, Prod.mk.injEq, reduceCtorEq] at h <;>
    (obtain ⟨rfl, rfl⟩ := h; rw [evalExpr]; rfl)

theorem operands_isAtom (h : e.operation? = some (op, es)) (he : e.isDual = true) :
    op.isDual = true ∧ ∀ a ∈ es, a.isAtom = true := by
  cases e <;> simp only [IRExpr.operation?, Option.some.injEq, Prod.mk.injEq, reduceCtorEq] at h <;>
    (obtain ⟨rfl, rfl⟩ := h; simpa [IRExpr.isDual, and_assoc] using he)

theorem operands_inBounds (h : e.operation? = some (op, es)) {n g : ℕ}
    (hfits : e.inBounds n g = true) : ∀ a ∈ es, a.inBounds n g = true := by
  cases e <;> simp only [IRExpr.operation?, Option.some.injEq, Prod.mk.injEq, reduceCtorEq] at h <;>
    (obtain ⟨rfl, rfl⟩ := h; simpa [IRExpr.inBounds, and_assoc] using hfits)

theorem operands_typed (h : e.operation? = some (op, es)) {env : List IRType} {w : IRType}
    (htc : tcExpr env w e = true) :
    (typeOfPrimop op).args.map some = es.map (typeOfIRExpr env) ∧
      typeOfIRExpr env e = some (typeOfPrimop op).dst := by
  cases e <;> simp only [IRExpr.operation?, Option.some.injEq, Prod.mk.injEq, reduceCtorEq] at h <;>
    (obtain ⟨rfl, rfl⟩ := h; simp only [tcExpr, Bool.and_eq_true, decide_eq_true_eq] at htc;
      exact ⟨htc.2, rfl⟩)

theorem dgModifyExpression_atom (eh : ExpressionHandling) (denv : DiffEnv) {a : IRExpr}
    (h : a.isAtom = true) : dgModifyExpression eh denv a = pure (some (atomShadow eh denv a)) := by
  cases a with
  | rdTmp t => rfl
  | const con => rfl
  | _ => cases h

/-- The shadow of an operation on atoms. -/
theorem wp_modify_operation {M : Machine B T} {eh : ExpressionHandling} {denv : DiffEnv}
    (h : e.operation? = some (op, es)) (hatoms : ∀ a ∈ es, a.isAtom = true) {env : List IRType}
    {s : State B T} {Q : Option Shadow → List IRType → State B T → Prop}
    (hop : (execMeaning M).wp (eh.operation op (numbered .vecret es)
      (numbered none (es.map fun a => some (atomShadow eh denv a)))) env s Q) :
    (execMeaning M).wp (dgModifyExpression eh denv e) env s Q := by
  have hatom : ∀ a ∈ es, dgModifyExpression eh denv a = pure (some (atomShadow eh denv a)) :=
    fun a ha => dgModifyExpression_atom eh denv (hatoms a ha)
  cases e <;> simp only [IRExpr.operation?, Option.some.injEq, Prod.mk.injEq, reduceCtorEq] at h
  all_goals
    obtain ⟨rfl, rfl⟩ := h
    simp only [List.forall_mem_cons] at hatom
    rw [dgModifyExpression]
    simp only [hatom]
    repeat' apply wp_bind; apply wp_pure
    exact hop

end Operations

/-! ### Expressions -/

section Exprs

variable {N : Numbers K B} {I : Interp B} {F : FpSem B} {F' : FpSem (B × B)} {n g : ℕ}
  {s : State B T} {d : State (B × B) T'}

variable (F') in
/-- The primal parts of atoms. -/
theorem PrimalPart.eval_atom (h : PrimalPart n g s d) {e : IRExpr} (hatom : e.isAtom = true)
    (hfits : e.inBounds n g = true) : evalExpr (I.exact N F) s e
      = (evalExpr ((I.dual N.zero).exact N.dual F') d e).map Prod.fst := by
  cases e with
  | rdTmp t => exact h.tmp t (by simpa [IRExpr.inBounds] using hfits)
  | const con => exact (map_fst_constantBytes _ _).symm
  | _ => cases hatom

/-- **The primal parts of values.** -/
theorem PrimalPart.eval (h : PrimalPart n g s d) (hI : I.ShiftsSized) {e : IRExpr}
    (he : e.isDual = true) (hfits : e.inBounds n g = true) : evalExpr (I.exact N F) s e
      = (evalExpr ((I.dual N.zero).exact N.dual F') d e).map Prod.fst := by
  have hop : ∀ {op es}, e.operation? = some (op, es) → evalExpr (I.exact N F) s e
      = (evalExpr ((I.dual N.zero).exact N.dual F') d e).map Prod.fst := by
    intro op es heq
    obtain ⟨hdual, hatoms⟩ := operands_isAtom heq he
    rw [eval_operation heq, eval_operation heq, map_fst_dual_op hI F F' hdual, List.map_map]
    congr 1
    refine List.map_congr_left fun a ha => ?_
    exact h.eval_atom F' (hatoms a ha) (operands_inBounds heq hfits a ha)
  cases e with
  | rdTmp t => exact h.eval_atom F' rfl hfits
  | const con => exact h.eval_atom F' rfl hfits
  | get offset ty =>
    have hfits : offset + sizeofIRType ty ≤ g := by simpa [IRExpr.inBounds] using hfits
    rw [evalExpr, evalExpr, map_readReg]
    exact readReg_congr h.reg hfits
  | getI descr ix bias =>
    simp only [IRExpr.inBounds, Bool.and_eq_true, decide_eq_true_eq] at hfits
    rw [evalExpr, evalExpr, map_readReg, h.eval_atom F' he hfits.2]
    exact readReg_congr h.reg (IRRegArray.offset_add_le hfits.1.1 hfits.1.2 _ bias)
  | load endness ty addr =>
    simp only [IRExpr.isDual, Bool.and_eq_true, decide_eq_true_eq] at he
    obtain ⟨rfl, he⟩ := he
    rw [IRExpr.inBounds] at hfits
    rw [evalExpr, evalExpr, bufferOffset?_of_inBounds hfits, h.eval_atom F' he hfits]
    show readMem s.mem _ _ = List.map Prod.fst (readMem d.mem _ _)
    rw [map_readMem, funext h.mem]
    rfl
  | ite cond iftrue iffalse =>
    simp only [IRExpr.isDual, IRExpr.inBounds, Bool.and_eq_true] at he hfits
    rw [evalExpr, evalExpr, h.eval_atom F' he.1.1 hfits.1.1,
      h.eval_atom F' he.1.2 hfits.1.2, h.eval_atom F' he.2 hfits.2]
    exact (apply_ite (List.map Prod.fst) _ _ _).symm
  | unop op a => exact hop rfl
  | binop op a b => exact hop rfl
  | triop op a b c => exact hop rfl
  | qop op a b c e => exact hop rfl
  | _ => cases he

section Length

variable {tyenv : List IRType} {w ty : IRType}

theorem length_dual_const (hI : I.Exact N) {con : IRConst} (hcon : con.isBufferAddr = false)
    (d : State (B × B) T') :
    (evalExpr ((I.dual N.zero).exact N.dual F') d (.const con)).length
      = sizeofIRType (typeOfIRConst con) := by
  show (constantBytes N.zero (I.const con)).length = _
  rw [constantBytes, List.length_map, hI.length_const con hcon]

theorem length_eval_atom (hI : I.Exact N) (hd : d.Typed tyenv) {e : IRExpr}
    (hatom : e.isAtom = true) (hfits : e.inBounds n g = true)
    (hty : typeOfIRExpr tyenv e = some ty) :
    (evalExpr ((I.dual N.zero).exact N.dual F') d e).length = sizeofIRType ty := by
  cases e with
  | rdTmp t => exact hd t ty hty
  | const con =>
    obtain rfl := Option.some_inj.mp hty
    exact length_dual_const hI (by simpa [IRExpr.inBounds] using hfits) d
  | _ => cases hatom

variable (F') in
/-- The operands of an operation have the right sizes. -/
theorem sizes_of_atoms (hI : I.Exact N) (hd : d.Typed tyenv) {tys : List IRType} :
    ∀ {es : List IRExpr}, (∀ a ∈ es, a.isAtom = true) → (∀ a ∈ es, a.inBounds n g = true) →
      tys.map some = es.map (typeOfIRExpr tyenv) →
      (es.map (evalExpr ((I.dual N.zero).exact N.dual F') d)).map List.length
        = tys.map sizeofIRType := by
  induction tys with
  | nil =>
    intro es _ _ h
    obtain rfl := List.map_eq_nil_iff.mp h.symm
    rfl
  | cons ty tys ih =>
    intro es hatoms hfits h
    cases es with
    | nil => cases h
    | cons e es =>
      obtain ⟨hty, htys⟩ := List.cons.inj h
      rw [List.map_cons, List.map_cons, List.map_cons,
        length_eval_atom hI hd (hatoms e List.mem_cons_self) (hfits e List.mem_cons_self) hty.symm,
        ih (fun a ha => hatoms a (List.mem_cons_of_mem e ha))
          (fun a ha => hfits a (List.mem_cons_of_mem e ha)) htys]

/-- **The sizes of values.** -/
theorem length_eval_dual (hI : I.Exact N) (hd : d.Typed tyenv) {e : IRExpr} (he : e.isDual = true)
    (hfits : e.inBounds n g = true) (htc : tcExpr tyenv w e = true)
    (hty : typeOfIRExpr tyenv e = some ty) :
    (evalExpr ((I.dual N.zero).exact N.dual F') d e).length = sizeofIRType ty := by
  have hop : ∀ {op es}, e.operation? = some (op, es) →
      (evalExpr ((I.dual N.zero).exact N.dual F') d e).length = sizeofIRType ty := by
    intro op es heq
    obtain ⟨hdual, hatoms⟩ := operands_isAtom heq he
    obtain ⟨htys, hdst⟩ := operands_typed heq htc
    obtain rfl := Option.some_inj.mp (hdst.symm.trans hty)
    rw [eval_operation heq]
    exact length_exact_op (shiftsSized_dual hI.shifts N.zero) hdual
      (sizes_of_atoms F' hI hd hatoms (operands_inBounds heq hfits) htys)
  cases e with
  | rdTmp t => exact length_eval_atom hI hd rfl hfits hty
  | const con => exact length_eval_atom hI hd rfl hfits hty
  | get offset ty' =>
    obtain rfl := Option.some_inj.mp hty
    rw [evalExpr, readReg, List.length_map, List.length_range]
  | getI descr ix bias =>
    obtain rfl := Option.some_inj.mp hty
    rw [evalExpr, readReg, List.length_map, List.length_range]
  | load endness ty' addr =>
    obtain rfl := Option.some_inj.mp hty
    simp only [IRExpr.isDual, Bool.and_eq_true, decide_eq_true_eq] at he
    obtain ⟨rfl, -⟩ := he
    rw [IRExpr.inBounds] at hfits
    rw [evalExpr, bufferOffset?_of_inBounds hfits]
    show (readMem d.mem _ _).length = _
    rw [readMem, List.length_map, List.length_range]
  | ite cond iftrue iffalse =>
    simp only [IRExpr.isDual, IRExpr.inBounds, tcExpr, Bool.and_eq_true, decide_eq_true_eq] at he hfits htc
    rw [typeOfIRExpr] at hty
    rw [evalExpr]
    split
    · exact length_eval_atom hI hd he.1.2 hfits.1.2 (htc.2.trans hty)
    · exact length_eval_atom hI hd he.2 hfits.2 hty
  | unop op a => exact hop rfl
  | binop op a b => exact hop rfl
  | triop op a b c => exact hop rfl
  | qop op a b c e => exact hop rfl
  | _ => cases he

end Length

end Exprs

/-! ### Epsilon parts of expressions -/

section Epsilon

variable {N : Numbers K B} {I : Interp B} {F : FpSem B} {F' : FpSem (B × B)} {M : Machine B T}
  {D : Machine (B × B) T'} {Shadows : T → (ℕ → Addr → B) → Prop} {tyenv env env' : List IRType}
  {g : ℕ} {s s' : State B T} {d : State (B × B) T'} {w ty : IRType}

/-- Running emitted code keeps both parts. -/
theorem PrimalPart.mono {n : ℕ} (h : PrimalPart n g s d) (hext : Extends env s env' s')
    (hn : n ≤ env.length) : PrimalPart n g s' d :=
  ⟨fun t ht => (hext.tmp t (by omega)).trans (h.tmp t ht), fun o ho => by rw [hext.reg, h.reg o ho],
    fun a => by rw [hext.mem, h.mem]⟩

theorem EpsilonPart.mono {n : ℕ} (h : EpsilonPart n g Shadows s d) (hext : Extends env s env' s')
    (htool : s'.tool = s.tool) (hn : 2 * n ≤ env.length) : EpsilonPart n g Shadows s' d :=
  ⟨fun t ht => (hext.tmp (t + n) (by omega)).trans (h.tmp t ht),
    fun o ho => by rw [hext.reg, h.reg o ho], by rw [htool]; exact h.mem⟩

/-- The epsilon parts of atoms. -/
theorem EpsilonPart.eval_atom {n : ℕ} (h : EpsilonPart n g Shadows s d) (hI : I.Exact N)
    {e : IRExpr} (hatom : e.isAtom = true) (hfits : e.inBounds n g = true) (wordTy : IRType) :
    evalExpr (I.exact N F) s ((atomShadow dgDotExpressionhandling ⟨n, g, wordTy⟩ e).layer 0)
      = (evalExpr ((I.dual N.zero).exact N.dual F') d e).map Prod.snd := by
  cases e with
  | rdTmp t =>
    show s.tmp (t + (0 + 1) * n) = _
    rw [Nat.zero_add, Nat.one_mul]
    exact h.tmp t (by simpa [IRExpr.inBounds] using hfits)
  | const con =>
    have hcon : con.isBufferAddr = false := by simpa [IRExpr.inBounds] using hfits
    have hshadow : atomShadow dgDotExpressionhandling ⟨n, g, wordTy⟩ (.const con)
        = [.const con.zeroed] := dgDotConstant_eq hcon
    rw [hshadow]
    show I.const con.zeroed = (constantBytes N.zero (I.const con)).map Prod.snd
    rw [hI.const_zeroed con hcon, map_snd_constantBytes, hI.length_const con hcon]
  | _ => cases hatom

/-- The operands of an operation, and their shadows. -/
theorem dualOperands_atoms {n : ℕ} (hp : PrimalPart n g s d) (hε : EpsilonPart n g Shadows s d)
    (hI : I.Exact N) {es : List IRExpr} (hatoms : ∀ a ∈ es, a.isAtom = true)
    (hfits : ∀ a ∈ es, a.inBounds n g = true) {tys : List IRType}
    (hsizes : (es.map (evalExpr ((I.dual N.zero).exact N.dual F') d)).map List.length
      = tys.map sizeofIRType) :
    DualOperands (I.exact N F) s (numbered .vecret es)
      (argLayer (numbered none (es.map fun a =>
        some (atomShadow dgDotExpressionhandling ⟨n, g, w⟩ a))) 0)
      tys (es.map (evalExpr ((I.dual N.zero).exact N.dual F') d)) where
  sizes := hsizes
  primal i v hv := by
    rw [List.getElem?_map, Option.map_eq_some_iff] at hv
    obtain ⟨a, ha, rfl⟩ := hv
    have hmem := List.mem_of_getElem? ha
    rw [numbered, Nat.add_sub_cancel, List.getD_eq_getElem?_getD, ha]
    exact hp.eval_atom F' (hatoms a hmem) (hfits a hmem)
  dot i v hv := by
    rw [List.getElem?_map, Option.map_eq_some_iff] at hv
    obtain ⟨a, ha, rfl⟩ := hv
    have hmem := List.mem_of_getElem? ha
    rw [argLayer, numbered, Nat.add_sub_cancel, List.getD_eq_getElem?_getD, List.getElem?_map, ha]
    exact hε.eval_atom hI (hatoms a hmem) (hfits a hmem) w

/-- The table only refers to operands that exist. -/
theorem diffinputs_le {op : IROp} {info : IROpInfo} (hinfo : irOpInfo? op = some info) :
    ∀ i ∈ info.diffinputs, 1 ≤ i ∧ i ≤ (typeOfPrimop op).args.length := by
  cases op with
  | arith op l =>
    obtain rfl := Option.some_inj.mp hinfo
    cases l <;> simp [arithInfo, typeOfPrimop, ArithLayout.firstOperand, ArithLayout.simd]
  | sqrt l =>
    obtain rfl := Option.some_inj.mp hinfo
    cases l <;> simp [sqrtInfo, typeOfPrimop, ArithLayout.sqrtOperand,
      ArithLayout.sqrtNoRoundingMode, ArithLayout.simd]
  | neg l => obtain rfl := Option.some_inj.mp hinfo; simp [negInfo, typeOfPrimop]
  | abs l => obtain rfl := Option.some_inj.mp hinfo; simp [absInfo, typeOfPrimop]
  | minMax op l => obtain rfl := Option.some_inj.mp hinfo; simp [minMaxInfo, typeOfPrimop]
  | fma sub l => obtain rfl := Option.some_inj.mp hinfo; simp [fmaInfo, typeOfPrimop]
  | scaleF64 => obtain rfl := Option.some_inj.mp hinfo; simp [scaleInfo, typeOfPrimop]
  | yl2xF64 => obtain rfl := Option.some_inj.mp hinfo; simp [yl2xInfo, typeOfPrimop]
  | yl2xp1F64 => obtain rfl := Option.some_inj.mp hinfo; simp [yl2xInfo, typeOfPrimop]
  | bitwise op size => obtain rfl := Option.some_inj.mp hinfo; simp [bitwiseInfo, typeOfPrimop]
  | f32toF64 => obtain rfl := Option.some_inj.mp hinfo; simp [f32toF64Info, typeOfPrimop]
  | f64toF32 => obtain rfl := Option.some_inj.mp hinfo; simp [f64toF32Info, typeOfPrimop]
  | unMove m =>
    obtain rfl := Option.some_inj.mp hinfo
    cases m <;> simp [unaryMoveInfo, typeOfPrimop, UnMove.sig]
  | signWiden m =>
    obtain rfl := Option.some_inj.mp hinfo
    cases m <;> simp [unaryMoveInfo, typeOfPrimop, SignWiden.sig]
  | binMove m =>
    obtain rfl := Option.some_inj.mp hinfo
    cases m <;> simp [binaryMoveInfo, typeOfPrimop, BinMove.sig]
  | op64x4toV256 =>
    obtain rfl := Option.some_inj.mp hinfo
    simp [op64x4toV256Info, typeOfPrimop]
  | shift left size => obtain rfl := Option.some_inj.mp hinfo; simp [shiftInfo, typeOfPrimop]
  | zeroDeriv op => obtain rfl := Option.some_inj.mp hinfo; simp [zeroDerivInfo]
  | helperMove m => cases hinfo
  | helper op => cases hinfo
  | other args dst k => cases hinfo

theorem exists_irOpInfo {op : IROp} (hop : op.isDual = true) : ∃ info, irOpInfo? op = some info := by
  cases op with
  | helperMove m => cases hop
  | helper op => cases hop
  | other args dst k => cases hop
  | _ => exact ⟨_, rfl⟩

/-- The shadow of an expression evaluates to the epsilon part, when the code that computes it
has been run. -/
def EpsilonOf (M : Machine B T) (D : Machine (B × B) T') (env : List IRType) (s : State B T)
    (d : State (B × B) T') (e : IRExpr) (shadow : Shadow) (env' : List IRType) (s' : State B T) :
    Prop :=
  Extends env s env' s' ∧ s'.tool = s.tool ∧
    evalExpr M.toInterp s' (shadow.layer 0) = (evalExpr D.toInterp d e).map Prod.snd

/-- What is assumed about the state and its parts. -/
structure DualState (tyenv : List IRType) (g : ℕ) (Shadows : T → (ℕ → Addr → B) → Prop)
    (env : List IRType) (s : State B T) (d : State (B × B) T') : Prop where
  declared : shadowedTyenv 1 tyenv <+: env
  primal : PrimalPart tyenv.length g s d
  epsilon : EpsilonPart tyenv.length g Shadows s d
  typed : d.Typed tyenv

theorem DualState.two_mul_le (h : DualState tyenv g Shadows env s d) :
    2 * tyenv.length ≤ env.length := by
  have hle := h.declared.length_le
  simp only [shadowedTyenv, List.replicate_one, List.flatten_singleton, List.length_append] at hle
  omega

theorem DualState.prefixed (h : DualState tyenv g Shadows env s d) : tyenv <+: env :=
  (List.prefix_append _ _).trans h.declared

theorem inBounds_atom {n n' : ℕ} {e : IRExpr} (hatom : e.isAtom = true)
    (hfits : e.inBounds n g = true) (hle : n ≤ n') : e.inBounds n' 0 = true := by
  cases e with
  | rdTmp t =>
    have ht : t < n := by simpa [IRExpr.inBounds] using hfits
    simp only [IRExpr.inBounds, decide_eq_true_eq]
    exact Nat.lt_of_lt_of_le ht hle
  | const con => rwa [IRExpr.inBounds] at hfits ⊢
  | _ => cases hatom

theorem DualState.eval_atom (h : DualState tyenv g Shadows env s d)
    (hM : DualMachines N I F F' M D Shadows) {e : IRExpr} (hatom : e.isAtom = true)
    (hfits : e.inBounds tyenv.length g = true) :
    evalExpr M.toInterp s e = (evalExpr D.toInterp d e).map Prod.fst := by
  rw [hM.primal, hM.dual]
  exact h.primal.eval_atom F' hatom hfits

theorem DualState.isTrue_atom (h : DualState tyenv g Shadows env s d)
    (hM : DualMachines N I F F' M D Shadows) {e : IRExpr} (hatom : e.isAtom = true)
    (hfits : e.inBounds tyenv.length g = true) :
    M.isTrue (evalExpr M.toInterp s e) = D.isTrue (evalExpr D.toInterp d e) := by
  rw [h.eval_atom hM hatom hfits, hM.primal, hM.dual]
  rfl

/-- The epsilon parts of the atoms of the client. -/
theorem DualState.eval_shadow (h : DualState tyenv g Shadows env s d)
    (hM : DualMachines N I F F' M D Shadows) {e : IRExpr} (hatom : e.isAtom = true)
    (hfits : e.inBounds tyenv.length g = true) (w : IRType) :
    evalExpr M.toInterp s ((atomShadow dgDotExpressionhandling ⟨tyenv.length, g, w⟩ e).layer 0)
      = (evalExpr D.toInterp d e).map Prod.snd := by
  rw [hM.primal, hM.dual]
  exact h.epsilon.eval_atom hM.exact hatom hfits w

/-- The values of the atoms of the client. -/
theorem DualState.hasValue_atom (h : DualState tyenv g Shadows env s d)
    (hM : DualMachines N I F F' M D Shadows) {e : IRExpr} (hatom : e.isAtom = true)
    (hfits : e.inBounds tyenv.length g = true) (hty : typeOfIRExpr tyenv e = some ty) :
    HasValue M.toInterp env s e ty ((evalExpr D.toInterp d e).map Prod.fst) := by
  obtain ⟨tys, htys⟩ := h.prefixed
  refine ⟨inBounds_atom hatom hfits h.prefixed.length_le, ?_, h.eval_atom hM hatom hfits, ?_⟩
  · rw [← htys]
    exact typeOfIRExpr_append tys e hty
  · rw [hM.dual, List.length_map]
    exact length_eval_atom hM.exact h.typed hatom hfits hty

/-- **The shadows of expressions.** -/
theorem wp_modify_dual (hM : DualMachines N I F F' M D Shadows)
    (h : DualState tyenv g Shadows env s d) {e : IRExpr} (he : e.isDual = true)
    (hfits : e.inBounds tyenv.length g = true) (htc : tcExpr tyenv w e = true)
    (hregs : ∀ descr ix bias, e = .getI descr ix bias → descr.divides g = true) :
    (execMeaning M).wp (dgModifyExpression dgDotExpressionhandling ⟨tyenv.length, g, w⟩ e) env s
      fun shadow env' s' => ∃ sh, shadow = some sh ∧ EpsilonOf M D env s d e sh env' s' := by
  -- All operations are handled alike: the entry of the table computes the epsilon part.
  have hop : ∀ {op es}, e.operation? = some (op, es) →
      (execMeaning M).wp (dgModifyExpression dgDotExpressionhandling ⟨tyenv.length, g, w⟩ e) env s
        fun shadow env' s' => ∃ sh, shadow = some sh ∧ EpsilonOf M D env s d e sh env' s' := by
    intro op es heq
    obtain ⟨hdual, hatoms⟩ := operands_isAtom heq he
    obtain ⟨htys, -⟩ := operands_typed heq htc
    have hfitsAll := operands_inBounds heq hfits
    obtain ⟨info, hinfo⟩ := exists_irOpInfo hdual
    have hsizes := sizes_of_atoms F' hM.exact h.typed hatoms hfitsAll htys
    obtain ⟨x, hx, hval⟩ := eval_dotcode hM.exact hdual hinfo
      (dualOperands_atoms (w := w) h.primal h.epsilon hM.exact hatoms hfitsAll hsizes)
    apply wp_modify_operation heq hatoms
    show (execMeaning M).wp (dgDotOperation op _ _) env s _
    unfold dgDotOperation
    rw [hinfo]
    -- The operands are atoms, which always have a shadow.
    have hformed : allFormed (numbered none (es.map fun a =>
        some (atomShadow dgDotExpressionhandling ⟨tyenv.length, g, w⟩ a))) info.diffinputs = true := by
      have hlen : (typeOfPrimop op).args.length = es.length := by
        simpa only [List.length_map] using congrArg List.length htys
      unfold allFormed
      rw [List.all_eq_true]
      intro i hi
      obtain ⟨hpos, hle⟩ := diffinputs_le hinfo i hi
      have hlt : i - 1 < es.length := by omega
      rw [numbered, List.getD_eq_getElem?_getD, List.getElem?_map, List.getElem?_eq_getElem hlt]
      rfl
    simp only [hformed, if_true]
    rw [hx]
    apply wp_bind
    apply wp_pure
    apply wp_pure
    refine ⟨_, rfl, Extends.refl env s, rfl, ?_⟩
    rw [hM.primal, hM.dual, eval_operation heq]
    exact hval
  cases e with
  | rdTmp t =>
    rw [dgModifyExpression]
    exact wp_pure ⟨_, rfl, Extends.refl env s, rfl, h.eval_shadow hM rfl hfits w⟩
  | const con =>
    rw [dgModifyExpression]
    exact wp_pure ⟨_, rfl, Extends.refl env s, rfl, h.eval_shadow hM rfl hfits w⟩
  | get offset ty =>
    rw [dgModifyExpression]
    have hfits : offset + sizeofIRType ty ≤ g := by simpa [IRExpr.inBounds] using hfits
    refine wp_pure ⟨_, rfl, Extends.refl env s, rfl, ?_⟩
    show readReg s.reg (offset + (0 + 1) * g) _ = List.map Prod.snd (readReg d.reg offset _)
    rw [map_readReg, Nat.zero_add, Nat.one_mul]
    exact readReg_displaced h.epsilon.reg hfits
  | getI descr ix bias =>
    rw [dgModifyExpression]
    simp only [IRExpr.inBounds, Bool.and_eq_true, decide_eq_true_eq] at hfits
    -- The bias grows by a multiple of the number of elements, so the rotation is the same.
    have hdisp := IRRegArray.offset_displaced (hregs descr ix bias rfl)
    refine wp_pure ⟨_, rfl, Extends.refl env s, rfl, ?_⟩
    have hindex : M.index (evalExpr M.toInterp s ix) = D.index (evalExpr D.toInterp d ix) := by
      rw [h.eval_atom hM he hfits.2, hM.primal, hM.dual]
      rfl
    show readReg s.reg (IRRegArray.offset { descr with base := descr.base + (0 + 1) * g }
        (M.index (evalExpr M.toInterp s ix)) (bias + ((0 + 1) * g : ℕ))) _
      = List.map Prod.snd (readReg d.reg (descr.offset (D.index (evalExpr D.toInterp d ix)) bias) _)
    rw [map_readReg, Nat.zero_add, Nat.one_mul, hdisp, hindex]
    exact readReg_displaced h.epsilon.reg
      (IRRegArray.offset_add_le hfits.1.1 hfits.1.2 _ bias)
  | load endness ty addr =>
    simp only [IRExpr.isDual, Bool.and_eq_true, decide_eq_true_eq] at he
    obtain ⟨rfl, he⟩ := he
    rw [IRExpr.inBounds] at hfits
    have hty : typeOfIRExpr tyenv addr = some w := by
      simp only [tcExpr, Bool.and_eq_true, decide_eq_true_eq] at htc
      exact htc.2
    rw [dgModifyExpression]
    apply wp_bind
    apply wp_mono (wp_shadowLoad hM.shadow h.epsilon.mem ⟨tyenv.length, g, w⟩
      (h.hasValue_atom hM he hfits hty) ty)
    rintro shadow env' s' ⟨hext, htool, -, hshadow⟩
    refine wp_pure ⟨_, rfl, hext, htool, ?_⟩
    rw [(hshadow.layer 0 (by decide)).eval, evalExpr, bufferOffset?_of_inBounds hfits]
    show _ = List.map Prod.snd (readMem d.mem (D.addr (evalExpr D.toInterp d addr)) _)
    rw [map_readMem, hM.primal, hM.dual]
    rfl
  | ite cond iftrue iffalse =>
    simp only [IRExpr.isDual, IRExpr.inBounds, Bool.and_eq_true] at he hfits
    -- Both branches are atoms, so there is no code for them.
    have htrue : dgModifyExpression dgDotExpressionhandling ⟨tyenv.length, g, w⟩ iftrue
        = pure (some (atomShadow dgDotExpressionhandling ⟨tyenv.length, g, w⟩ iftrue)) :=
      dgModifyExpression_atom _ _ he.1.2
    have hfalse : dgModifyExpression dgDotExpressionhandling ⟨tyenv.length, g, w⟩ iffalse
        = pure (some (atomShadow dgDotExpressionhandling ⟨tyenv.length, g, w⟩ iffalse)) :=
      dgModifyExpression_atom _ _ he.2
    rw [dgModifyExpression, htrue, hfalse]
    apply wp_bind
    apply wp_pure
    apply wp_bind
    apply wp_pure
    refine wp_pure ⟨_, rfl, Extends.refl env s, rfl, ?_⟩
    show evalExpr M.toInterp s (.ite cond _ _) = _
    rw [evalExpr, evalExpr, h.eval_shadow hM he.1.2 hfits.1.2, h.eval_shadow hM he.2 hfits.2,
      h.isTrue_atom hM he.1.1 hfits.1.1]
    exact (apply_ite (List.map Prod.snd) _ _ _).symm
  | unop op a => exact hop rfl
  | binop op a b => exact hop rfl
  | triop op a b c => exact hop rfl
  | qop op a b c e => exact hop rfl
  | _ => cases he

theorem wp_modifyOrDefault_dual (hM : DualMachines N I F F' M D Shadows)
    (h : DualState tyenv g Shadows env s d) {e : IRExpr} (he : e.isDual = true)
    (hfits : e.inBounds tyenv.length g = true) (htc : tcExpr tyenv w e = true)
    (hregs : ∀ descr ix bias, e = .getI descr ix bias → descr.divides g = true) :
    (execMeaning M).wp (dgModifyExpressionOrDefault dgDotExpressionhandling ⟨tyenv.length, g, w⟩ e)
      env s fun sh env' s' => EpsilonOf M D env s d e sh env' s' := by
  apply wp_bind
  apply wp_mono (wp_modify_dual hM h he hfits htc hregs)
  rintro _ env' s' ⟨sh, rfl, hsh⟩
  exact wp_pure hsh

theorem DualState.mono (h : DualState tyenv g Shadows env s d) (hext : Extends env s env' s')
    (htool : s'.tool = s.tool) : DualState tyenv g Shadows env' s' d :=
  ⟨h.declared.trans hext.tyenv, h.primal.mono hext (by have := h.two_mul_le; omega),
    h.epsilon.mono hext htool h.two_mul_le, h.typed⟩

/-- The shadows of the atoms of the client. -/
theorem DualState.hasShadow_atom (h : DualState tyenv g Shadows env s d)
    (hM : DualMachines N I F F' M D Shadows) {e : IRExpr} (hatom : e.isAtom = true)
    (hfits : e.inBounds tyenv.length g = true) (hty : typeOfIRExpr tyenv e = some ty) :
    HasShadow M.toInterp env s 1 (atomShadow dgDotExpressionhandling ⟨tyenv.length, g, w⟩ e) ty
      fun _ => (evalExpr D.toInterp d e).map Prod.snd := by
  have heval := h.eval_shadow hM hatom hfits w
  have hlen : ((evalExpr D.toInterp d e).map Prod.snd).length = sizeofIRType ty := by
    rw [List.length_map, hM.dual]
    exact length_eval_atom hM.exact h.typed hatom hfits hty
  cases e with
  | rdTmp t =>
    have ht : t < tyenv.length := by simpa [IRExpr.inBounds] using hfits
    refine ⟨rfl, fun k hk => ?_⟩
    obtain rfl : k = 0 := Nat.lt_one_iff.mp hk
    refine HasValue.ofTmp (getElem?_of_prefixed h.declared ?_) heval hlen
    rw [getElem?_shadowedTyenv (by decide) ht]
    exact hty
  | const con =>
    have hcon : con.isBufferAddr = false := by simpa [IRExpr.inBounds] using hfits
    have hshadow : atomShadow dgDotExpressionhandling ⟨tyenv.length, g, w⟩ (.const con)
        = [.const con.zeroed] := dgDotConstant_eq hcon
    rw [hshadow] at heval ⊢
    refine ⟨rfl, fun k hk => ?_⟩
    obtain rfl : k = 0 := Nat.lt_one_iff.mp hk
    refine ⟨?_, ?_, heval, hlen⟩
    · cases con with
      | bufferAddr ty offset => cases hcon
      | _ => rfl
    · rw [← hty]
      cases con with
      | bufferAddr ty offset => cases hcon
      | _ => rfl
  | _ => cases hatom

end Epsilon

end Derivgrind
