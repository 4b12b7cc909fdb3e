import Derivgrind.Instrument.DualRun

/-!
# Results without a derivative

Comparisons, operations on integers, conversions of integers and helper functions of the guest
architecture have results without a derivative.  In forward mode, their shadow is zero.

## Main definitions

* `IRExpr.isDiscrete` — flat expressions with such results.
* `IRStmt.Covered` — statements that forward mode runs over dual numbers.

## Main results

* `evalDiscrete` — the parts of the value of such an expression.
* `execStmts_covered` — **forward mode computes dual numbers**, for covered statements.
* `dgInstrument_covered` — the same for superblocks.
-/

namespace Derivgrind

open Emitter.Meaning

/-! ### Expressions -/

/-- Types whose zero is made of zero bytes. -/
def IRType.hasZeroBytes : IRType → Bool
  | .f16 => false
  | .d32 => false
  | .d64 => false
  | .d128 => false
  | .f128 => false
  | _ => true

/-- Operations whose results have no derivative. -/
def IROp.isDiscrete (op : IROp) : Bool :=
  (match op with
    | .zeroDeriv _ => true
    | .helper _ => true
    | .other _ _ _ => true
    | _ => false) && (typeOfPrimop op).dst.hasZeroBytes

/-- Flat expressions whose values have no derivative.  Functions return values of given types. -/
def IRExpr.isDiscrete (returns : IRCallee → IRType) : IRExpr → Bool
  | .qop op a b c d => op.isDiscrete && a.isAtom && b.isAtom && c.isAtom && d.isAtom
  | .triop op a b c => op.isDiscrete && a.isAtom && b.isAtom && c.isAtom
  | .binop op a b => op.isDiscrete && a.isAtom && b.isAtom
  | .unop op a => op.isDiscrete && a.isAtom
  | .ccall cee retty args => returns cee = retty && retty.hasZeroBytes && args.all IRExpr.isAtom
  | _ => false

variable {K B T T' : Type} [Field K]

/-- The results of discrete operations and of functions have the right sizes. -/
structure Interp.Sized (I : Interp B) (returns : IRCallee → IRType) : Prop where
  op : ∀ op vs, op.isDiscrete = true → vs.map List.length = (typeOfPrimop op).args.map sizeofIRType →
    (I.op op vs).length = sizeofIRType (typeOfPrimop op).dst
  ccall : ∀ cee vs, (I.ccall cee vs).length = sizeofIRType (returns cee)

section Exprs

variable {N : Numbers K B} {I : Interp B} {F : FpSem B} {F' : FpSem (B × B)} {M : Machine B T}
  {D : Machine (B × B) T'} {Shadows : T → (ℕ → Addr → B) → Prop} {tyenv env : List IRType} {g : ℕ}
  {w ty : IRType} {s s' : State B T} {d d' : State (B × B) T'} {returns : IRCallee → IRType}
  {op : IROp} {e : IRExpr}

/-- Discrete operations are not floating-point arithmetic. -/
theorem exact_op_discrete {R C : Type} [Ring R] [Inv R] (N : Numbers R C) (F : FpSem C)
    (I : Interp C) (h : op.isDiscrete = true) (vs : List (List C)) :
    (I.exact N F).op op vs = I.op op vs := by
  cases op <;> first | rfl | cases h

theorem dual_op_discrete (I : Interp B) (z : B) (h : op.isDiscrete = true)
    (vs : List (List (B × B))) :
    (I.dual z).op op vs = constantBytes z (I.op op (vs.map (List.map Prod.fst))) := by
  cases op <;> first | rfl | cases h

theorem operands_discrete {es : List IRExpr} (heq : e.operation? = some (op, es))
    (he : e.isDiscrete returns = true) : op.isDiscrete = true ∧ ∀ a ∈ es, a.isAtom = true := by
  cases e <;> simp only [IRExpr.operation?, Option.some.injEq, Prod.mk.injEq, reduceCtorEq] at heq <;>
    (obtain ⟨rfl, rfl⟩ := heq; simpa [IRExpr.isDiscrete, and_assoc] using he)

/-- The values of arguments, and their primal parts. -/
theorem evalExprs_atoms (hM : DualMachines N I F F' M D Shadows)
    (h : PrimalPart tyenv.length g s d) {es : List IRExpr} (hatoms : ∀ a ∈ es, a.isAtom = true)
    (hfits : ∀ a ∈ es, a.inBounds tyenv.length g = true) :
    evalExprs M.toInterp s es = (evalExprs D.toInterp d es).map (List.map Prod.fst) := by
  induction es with
  | nil => rw [evalExprs, evalExprs, List.map_nil]
  | cons a es ih =>
    have hatom : evalExpr M.toInterp s a = (evalExpr D.toInterp d a).map Prod.fst := by
      rw [hM.primal, hM.dual]
      exact h.eval_atom F' (hatoms a List.mem_cons_self) (hfits a List.mem_cons_self)
    rw [evalExprs, evalExprs, List.map_cons, hatom,
      ih (fun b hb => hatoms b (List.mem_cons_of_mem a hb))
        fun b hb => hfits b (List.mem_cons_of_mem a hb)]

theorem allInBounds_iff {n : ℕ} {es : List IRExpr} :
    IRExpr.allInBounds n g es = true ↔ ∀ a ∈ es, a.inBounds n g = true := by
  induction es with
  | nil => simp [IRExpr.allInBounds]
  | cons a es ih => rw [IRExpr.allInBounds, Bool.and_eq_true, ih, List.forall_mem_cons]

/-- **The value of a discrete expression**: its primal part is the value for the client, its
epsilon part is zero. -/
theorem evalDiscrete (hM : DualMachines N I F F' M D Shadows) (hI : I.Sized returns)
    (h : PrimalPart tyenv.length g s d) (hd : d.Typed tyenv) (he : e.isDiscrete returns = true)
    (hfits : e.inBounds tyenv.length g = true) (htc : tcExpr tyenv w e = true) :
    ∃ ty, typeOfIRExpr tyenv e = some ty ∧ ty.hasZeroBytes = true ∧
      evalExpr M.toInterp s e = (evalExpr D.toInterp d e).map Prod.fst ∧
      (evalExpr D.toInterp d e).map Prod.snd = List.replicate (sizeofIRType ty) N.zero := by
  have hop : ∀ {op es}, e.operation? = some (op, es) →
      ∃ ty, typeOfIRExpr tyenv e = some ty ∧ ty.hasZeroBytes = true ∧
        evalExpr M.toInterp s e = (evalExpr D.toInterp d e).map Prod.fst ∧
        (evalExpr D.toInterp d e).map Prod.snd = List.replicate (sizeofIRType ty) N.zero := by
    intro op es heq
    obtain ⟨hdisc, hatoms⟩ := operands_discrete heq he
    obtain ⟨htys, hty⟩ := operands_typed heq htc
    have hbounds := operands_inBounds heq hfits
    have hsizes := sizes_of_atoms F' hM.exact hd hatoms hbounds htys
    rw [← hM.dual] at hsizes
    have hargs : es.map (evalExpr M.toInterp s)
        = (es.map (evalExpr D.toInterp d)).map (List.map Prod.fst) := by
      rw [List.map_map]
      refine List.map_congr_left fun a ha => ?_
      rw [hM.primal, hM.dual]
      exact h.eval_atom F' (hatoms a ha) (hbounds a ha)
    have hvalue : evalExpr D.toInterp d e
        = constantBytes N.zero (I.op op (es.map (evalExpr M.toInterp s))) := by
      rw [eval_operation heq, hargs, hM.dual, exact_op_discrete _ _ _ hdisc,
        dual_op_discrete _ _ hdisc]
    have hlen : (I.op op (es.map (evalExpr M.toInterp s))).length
        = sizeofIRType (typeOfPrimop op).dst := by
      refine hI.op op _ hdisc ?_
      rw [hargs, List.map_map, ← hsizes]
      exact List.map_congr_left fun v _ => List.length_map _
    refine ⟨_, hty, (Bool.and_eq_true _ _ ▸ hdisc).2, ?_, ?_⟩
    · rw [hvalue, map_fst_constantBytes, eval_operation heq]
      conv_lhs => rw [hM.primal, exact_op_discrete _ _ _ hdisc, ← hM.primal]
    · rw [hvalue, map_snd_constantBytes, hlen]
  cases e with
  | ccall cee retty args =>
    simp only [IRExpr.isDiscrete, Bool.and_eq_true, decide_eq_true_eq, List.all_eq_true] at he
    obtain ⟨⟨rfl, hzero⟩, hatoms⟩ := he
    rw [IRExpr.inBounds, allInBounds_iff] at hfits
    have hargs := evalExprs_atoms hM h hatoms hfits
    have hvalue : evalExpr D.toInterp d (.ccall cee (returns cee) args)
        = constantBytes N.zero (I.ccall cee (evalExprs M.toInterp s args)) := by
      rw [evalExpr, hargs, hM.dual]
      rfl
    refine ⟨_, rfl, hzero, ?_, ?_⟩
    · rw [hvalue, map_fst_constantBytes, evalExpr]
      conv_lhs => rw [hM.primal]
      conv_rhs => rw [hM.primal]
      rfl
    · rw [hvalue, map_snd_constantBytes, hI.ccall]
  | unop op a => exact hop rfl
  | binop op a b => exact hop rfl
  | triop op a b c => exact hop rfl
  | qop op a b c e => exact hop rfl
  | _ => cases he

/-- The constant zero. -/
theorem eval_mkIRConstZero (hI : I.Exact N) {ty : IRType} (h : ty.hasZeroBytes = true)
    (s : State B T) :
    evalExpr (I.exact N F) s (mkIRConstZero ty) = List.replicate (sizeofIRType ty) N.zero := by
  have hu64 : I.const (.u64 0) = List.replicate 8 N.zero := hI.const_zeroed (.u64 0) rfl
  cases ty with
  | i1 => exact hI.const_zeroed (.u1 false) rfl
  | i8 => exact hI.const_zeroed (.u8 0) rfl
  | i16 => exact hI.const_zeroed (.u16 0) rfl
  | i32 => exact hI.const_zeroed (.u32 0) rfl
  | i64 => exact hI.const_zeroed (.u64 0) rfl
  | i128 => exact hI.const_zeroed (.u128 0) rfl
  | f32 => exact hI.const_zeroed (.f32 0) rfl
  | f64 =>
    show moveBytes N.zero _ [I.const (.u64 0)] = _
    rw [hu64]
    rfl
  | v128 =>
    show moveBytes N.zero _ [I.const (.u64 0), I.const (.u64 0)] = _
    rw [hu64]
    rfl
  | v256 =>
    show moveBytes N.zero _ [I.const (.u64 0), I.const (.u64 0), I.const (.u64 0),
      I.const (.u64 0)] = _
    rw [hu64]
    rfl
  | _ => cases h

/-! ### Inserted code -/

theorem dgModifyExpressions_atoms (eh : ExpressionHandling) (denv : DiffEnv) {es : List IRExpr}
    (h : ∀ a ∈ es, a.isAtom = true) :
    dgModifyExpressions eh denv es = pure (es.map fun a => some (atomShadow eh denv a)) := by
  induction es with
  | nil => rw [dgModifyExpressions, List.map_nil]
  | cons a es ih =>
    rw [dgModifyExpressions, dgModifyExpression_atom eh denv (h a List.mem_cons_self),
      ih fun b hb => h b (List.mem_cons_of_mem a hb)]
    rfl

/-- **The shadow of a discrete expression** is zero: by the table, or by default. -/
theorem wp_modifyOrDefault_discrete (hM : DualMachines N I F F' M D Shadows)
    (hI : I.Sized returns) (h : DualState tyenv g Shadows env s d)
    (he : e.isDiscrete returns = true) (hfits : e.inBounds tyenv.length g = true)
    (htc : tcExpr tyenv w e = true) :
    (execMeaning M).wp (dgModifyExpressionOrDefault dgDotExpressionhandling ⟨tyenv.length, g, w⟩ e)
      env s fun sh env' s' => EpsilonOf M D env s d e sh env' s' := by
  obtain ⟨ty, hty, hzero, -, hε⟩ := evalDiscrete hM hI h.primal h.typed he hfits htc
  obtain ⟨tys, htys⟩ := h.prefixed
  have htyEnv : typeOfIRExpr env e = some ty := by
    rw [← htys]
    exact typeOfIRExpr_append tys e hty
  -- without a shadow, the default is taken
  have hnone : (execMeaning M).wp (do
      let ty ← typeOf e
      dgDotExpressionhandling.default_ ty) env s
        fun sh env' s' => EpsilonOf M D env s d e sh env' s' := by
    apply wp_bind
    apply wp_typeOf htyEnv
    refine wp_pure ⟨Extends.refl env s, rfl, ?_⟩
    show evalExpr M.toInterp s (mkIRConstZero ty) = _
    rw [hε, hM.primal, eval_mkIRConstZero hM.exact hzero]
  have hop : ∀ {op es}, e.operation? = some (op, es) →
      (execMeaning M).wp (dgModifyExpressionOrDefault dgDotExpressionhandling ⟨tyenv.length, g, w⟩ e)
        env s fun sh env' s' => EpsilonOf M D env s d e sh env' s' := by
    intro op es heq
    obtain ⟨hdisc, hatoms⟩ := operands_discrete heq he
    apply wp_bind
    apply wp_modify_operation heq hatoms
    show (execMeaning M).wp (dgDotOperation op _ _) env s _
    cases op with
    | zeroDeriv op =>
      -- this shadow comes from the table
      refine wp_pure (wp_pure ⟨Extends.refl env s, rfl, ?_⟩)
      obtain rfl := Option.some_inj.mp ((operands_typed heq htc).2.symm.trans hty)
      show evalExpr M.toInterp s (zeroDerivDot op) = _
      rw [hε, hM.primal]
      cases op <;> first
        | exact hM.exact.const_zeroed (.f64i 0) rfl
        | exact hM.exact.const_zeroed (.f32i 0) rfl
    | helper op => exact wp_pure hnone
    | other args dst k => exact wp_pure hnone
    | _ => cases hdisc
  cases e with
  | ccall cee retty args =>
    simp only [IRExpr.isDiscrete, Bool.and_eq_true, decide_eq_true_eq, List.all_eq_true] at he
    apply wp_bind
    rw [dgModifyExpression, dgModifyExpressions_atoms _ _ he.2]
    apply wp_bind
    apply wp_pure
    exact wp_pure hnone
  | unop op a => exact hop rfl
  | binop op a b => exact hop rfl
  | triop op a b c => exact hop rfl
  | qop op a b c e => exact hop rfl
  | _ => cases he

/-! ### Statements -/

/-- Assignments of discrete expressions. -/
def IRStmt.isDiscrete (returns : IRCallee → IRType) : IRStmt → Bool
  | .wrTmp _ data => data.isDiscrete returns
  | _ => false

/-- A statement that is covered, in a superblock that passes the sanity check. -/
structure IRStmt.Covered (returns : IRCallee → IRType) (tyenv : List IRType) (g : ℕ) (w : IRType)
    (st : IRStmt) : Prop where
  covered : st.isDual = true ∨ st.isDiscrete returns = true
  inBounds : st.inBounds tyenv.length g = true
  tc : tcStmt tyenv w st = true
  regsFit : st.regsFit tyenv g = true

/-- The code for a statement, and the statement itself, keep the parts of the state. -/
theorem dgInstrumentStmt_covered (hM : DualMachines N I F F' M D Shadows) (hI : I.Sized returns)
    (h : DualState tyenv g Shadows env s d) {st : IRStmt} (hst : st.Covered returns tyenv g w) :
    ∃ tys pre s₁, dgInstrumentStmt dgDotExpressionhandling ⟨tyenv.length, g, w⟩ st env
        = some ((), tys, pre ++ [st]) ∧
      (∀ tyenv', execStmts M tyenv' pre s = (s₁, none)) ∧
      (∀ tyenv', DualState tyenv g Shadows (env ++ tys) (execStmt M tyenv' st s₁).1
          (execStmt D tyenv st d).1 ∧
        (execStmt M tyenv' st s₁).2 = (execStmt D tyenv st d).2) := by
  rcases hst.covered with hdual | hdisc
  · obtain ⟨tys, pre, s₁, hemit, hrun, hp, hε⟩ :=
      dgInstrumentStmt_dual hM h ⟨hdual, hst.inBounds, hst.tc, hst.regsFit⟩
    refine ⟨tys, pre, s₁, hemit, hrun, fun tyenv' => ?_⟩
    obtain ⟨hp', hexit⟩ := hp.execStmt hM hdual hst.inBounds tyenv tyenv'
    exact ⟨⟨h.declared.trans (List.prefix_append env tys), hp',
      hε.execStmt hM hp h.typed hdual hst.inBounds hst.tc hst.regsFit tyenv',
      h.typed.execStmt hM hdual hst.inBounds hst.tc⟩, hexit⟩
  · cases st with
    | wrTmp tmp data =>
      have hbounds := hst.inBounds
      have htc := hst.tc
      simp only [IRStmt.inBounds, tcStmt, Bool.and_eq_true, decide_eq_true_eq] at hbounds htc
      have hwp : (execMeaning M).wp
          (addStatementModified dgDotExpressionhandling ⟨tyenv.length, g, w⟩ (.wrTmp tmp data)) env s
          fun cas env' s' => cas = none ∧ env <+: env' ∧
            EpsilonPart tyenv.length g Shadows s' (execStmt D tyenv (.wrTmp tmp data) d).1 := by
        apply wp_bind
        apply wp_mono (wp_modifyOrDefault_discrete hM hI h hdisc hbounds.2 htc.1.1)
        rintro sh env' s' ⟨hext, htool, heval⟩
        apply wp_bind
        refine wp_emit (fun _ => rfl) (wp_pure ⟨rfl, hext.tyenv, ?_⟩)
        rw [heval, Nat.zero_add, Nat.one_mul]
        exact (h.epsilon.mono hext htool h.two_mul_le).setTmp tmp _
      obtain ⟨⟨cas, tys, pre⟩, hpre⟩ := Option.isSome_iff_exists.mp (hwp.succeeds rfl)
      obtain ⟨s₁, hrun, rfl, -, hε⟩ := hwp.ends cas tys pre hpre
      -- The inserted code leaves the primal part alone.
      have htransparent : dgDotExpressionhandling.Transparent ⟨tyenv.length, g, w⟩ tyenv.length g :=
        transparent_dot rfl rfl
      have hcas : (IRStmt.wrTmp tmp data).isCAS = false := rfl
      obtain ⟨_, hsilent, -, -⟩ := (shadowOnly_addStatementModified htransparent hcas env
        h.prefixed.length_le).ends _ tys pre hpre
      obtain ⟨s₂, hexec, heq⟩ := execStmts_shadowOnly M env pre hsilent s
      obtain rfl : s₁ = s₂ := congrArg Prod.fst ((hrun env).symm.trans hexec)
      have hp := h.primal.of_primalEq heq
      obtain ⟨ty, hty, -, hvalue, hzero⟩ := evalDiscrete hM hI hp h.typed hdisc hbounds.2 htc.1.1
      refine ⟨tys, pre, s₁, ?_, hrun, fun tyenv' => ⟨⟨?_, ?_, ?_, ?_⟩, rfl⟩⟩
      · unfold dgInstrumentStmt
        rw [Emitter.bind_eq_of_eq_some hpre]
        show some ((), tys ++ [], pre ++ [.wrTmp tmp data]) = _
        rw [List.append_nil]
      · exact h.declared.trans (List.prefix_append env tys)
      · rw [execStmt, execStmt, hvalue]
        exact hp.setTmp tmp _
      · exact hε.of_frame (setTmp_frame hbounds.1 _) (fun _ _ => rfl) rfl
      · refine h.typed.setTmp fun ty' hty' => ?_
        obtain rfl := Option.some_inj.mp (hty.symm.trans (htc.2.symm.trans hty'))
        rw [← List.length_map Prod.snd, hzero, List.length_replicate]
    | _ => cases hdisc

theorem execStmt_tyenv_covered {st : IRStmt} (hst : st.Covered returns tyenv g w)
    (tyenv₁ tyenv₂ : List IRType) : execStmt M tyenv₁ st s = execStmt M tyenv₂ st s := by
  rcases hst.covered with hdual | hdisc
  · exact execStmt_tyenv hdual tyenv₁ tyenv₂
  · cases st <;> first | rfl | cases hdisc

/-- **Running the code for covered statements**: both parts agree after each of them. -/
theorem execStmts_covered (hM : DualMachines N I F F' M D Shadows) (hI : I.Sized returns) :
    ∀ {sts : List IRStmt} {env : List IRType} {s : State B T} {d : State (B × B) T'},
    DualState tyenv g Shadows env s d → (∀ st ∈ sts, st.Covered returns tyenv g w) →
    ∃ us tys out, Emitter.mapList (dgInstrumentStmt dgDotExpressionhandling ⟨tyenv.length, g, w⟩)
        sts env = some (us, tys, out) ∧
      ∀ tyenv', PartsAgree tyenv.length g Shadows (execStmts M tyenv' out s)
        (execStmts D tyenv sts d) := by
  intro sts
  induction sts with
  | nil =>
    intro env s d h _
    exact ⟨[], [], [], rfl, fun _ => ⟨h.primal, h.epsilon, rfl⟩⟩
  | cons st sts ih =>
    intro env s d h hsts
    have hst := hsts st List.mem_cons_self
    obtain ⟨tys, pre, s₁, hemit, hrun, hstep⟩ := dgInstrumentStmt_covered hM hI h hst
    obtain ⟨hnext, hexit⟩ := hstep []
    obtain ⟨us, tys', out, hrest, hagrees⟩ :=
      ih hnext fun st' hst' => hsts st' (List.mem_cons_of_mem st hst')
    refine ⟨() :: us, tys ++ tys', pre ++ [st] ++ out, ?_, fun tyenv' => ?_⟩
    · show (dgInstrumentStmt _ _ st >>= fun b => Emitter.mapList _ sts >>= fun bs =>
        pure (b :: bs)) env = _
      rw [Emitter.bind_eq_of_eq_some hemit, Emitter.bind_eq_of_eq_some hrest]
      show some (() :: us, tys ++ (tys' ++ []), pre ++ [st] ++ (out ++ [])) = _
      rw [List.append_nil, List.append_nil]
    · rw [List.append_assoc, execStmts_append, hrun tyenv', List.singleton_append]
      simp only [execStmts]
      rw [execStmt_tyenv_covered hst tyenv' []]
      rcases h₁ : execStmt M [] st s₁ with ⟨s₂, _ | e⟩ <;>
        rcases h₂ : execStmt D tyenv st d with ⟨d₂, _ | e'⟩ <;>
        rw [h₁, h₂] at hexit hnext hagrees
      · exact hagrees tyenv'
      · cases hexit
      · cases hexit
      · exact ⟨hnext.primal, hnext.epsilon, hexit⟩

/-! ### Superblocks -/

/-- A flat superblock of covered statements, which begins with an instruction mark. -/
structure IRSB.Covered (returns : IRCallee → IRType) (sb : IRSB) (g : ℕ) (w : IRType) : Prop where
  wellFormed : sb.wellFormed w = true
  inBounds : sb.inBounds g = true
  flat : ∀ st ∈ sb.stmts, st.isDual = true ∨ st.isDiscrete returns = true
  regsFit : ∀ st ∈ sb.stmts, st.regsFit sb.tyenv g = true
  preamble : sb.preamble = []
  next : sb.next.isAtom = true

theorem IRSB.Covered.stmt {sb : IRSB} (h : sb.Covered returns g w) :
    ∀ st ∈ sb.stmts, st.Covered returns sb.tyenv g w := by
  intro st hst
  obtain ⟨D₁, hcheck, -⟩ := IRSB.wellFormed_inv h.wellFormed
  have hbounds := h.inBounds
  rw [IRSB.inBounds, Bool.and_eq_true, List.all_eq_true] at hbounds
  exact ⟨h.flat st hst, hbounds.1 st hst, ((checkStmts_mem hcheck (by simp [Bounded])).2 st hst).1,
    h.regsFit st hst⟩

/-- **An instrumented superblock computes dual numbers.** -/
theorem dgInstrument_covered (hM : DualMachines N I F F' M D Shadows) (hI : I.Sized returns)
    {o : Options} (ho : o.mode = .d) {sb : IRSB} (hsb : sb.Covered returns g w)
    (hp : PrimalPart sb.tyenv.length g s d) (hε : EpsilonPart sb.tyenv.length g Shadows s d)
    (hd : d.Typed sb.tyenv) :
    ∃ tys out, dgInstrument o g w sb = some ⟨shadowedTyenv 1 sb.tyenv ++ tys, out, sb.next⟩ ∧
      ∀ tyenv', PartsAgree sb.tyenv.length g Shadows (execStmts M tyenv' out s)
        (execStmts D sb.tyenv sb.stmts d) := by
  have heh : o.expressionhandling = dgDotExpressionhandling := by
    rw [Options.expressionhandling, ho]
  have hmarked : sb.marked = sb.stmts := by
    have happend := sb.preamble_append_marked
    rwa [hsb.preamble, List.nil_append] at happend
  obtain ⟨us, tys, out, hemit, hagrees⟩ := execStmts_covered hM hI
    ⟨List.prefix_refl (shadowedTyenv 1 sb.tyenv), hp, hε, hd⟩ hsb.stmt
  refine ⟨tys, out, ?_, hagrees⟩
  unfold dgInstrument
  rw [heh, hmarked, hsb.preamble]
  exact Option.bind_eq_some_iff.mpr ⟨_, hemit, rfl⟩

end Exprs

end Derivgrind
