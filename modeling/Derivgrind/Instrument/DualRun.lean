import Derivgrind.Instrument.DualExprs
import Derivgrind.Instrument.WellFormed
import Mathlib.Algebra.Field.Rat
import Mathlib.Data.Rat.Sqrt

/-!
# Forward mode computes dual numbers

A superblock of covered statements and its instrumented version are run, starting from the two
parts of a state on pairs of bytes.  Afterwards, the client and the shadow still hold
the two parts.

Statements in front of the first instruction mark are only copied.  Shadow memory is
accessed in little-endian order, whatever the order of the original access is.

## Main definitions

* `IRStmt.Dual`, `IRSB.Dual` — statements and superblocks that are covered.
* `PartsAgree` — both parts agree after a run.
* `ratNumbers`, `ratInterp` — rational numbers, as an example.

## Main results

* `wp_addStatementDual` — what the inserted code does to the shadow.
* `dgInstrument_dual` — **forward mode computes dual numbers.**
* `not_shadowAgrees` — what is not covered.
-/

namespace Derivgrind

open Emitter.Meaning

variable {K B T T' : Type} [Field K]

/-! ### Inserted code -/

section Updates

variable {Shadows : T → (ℕ → Addr → B) → Prop} {n g : ℕ} {s : State B T} {d : State (B × B) T'}

theorem EpsilonPart.setTmp (h : EpsilonPart n g Shadows s d) (tmp : IRTemp) (v : List (B × B)) :
    EpsilonPart n g Shadows (s.setTmp (tmp + n) (v.map Prod.snd)) (d.setTmp tmp v) := by
  refine ⟨fun t ht => ?_, h.reg, h.mem⟩
  by_cases hne : t = tmp
  · rw [hne]
    simp only [State.setTmp, Function.update_self]
  · have hne' : t + n ≠ tmp + n := fun heq => hne (Nat.add_right_cancel heq)
    simp only [State.setTmp, Function.update_of_ne hne, Function.update_of_ne hne', h.tmp t ht]

theorem EpsilonPart.put (h : EpsilonPart n g Shadows s d) (offset : ℕ) (v : List (B × B)) :
    EpsilonPart n g Shadows { s with reg := writeReg s.reg (offset + g) (v.map Prod.snd) }
      { d with reg := writeReg d.reg offset v } := by
  refine ⟨h.tmp, fun o ho => ?_, h.mem⟩
  show writeReg s.reg (offset + g) _ (o + g) = (writeReg d.reg offset v o).2
  rw [apply_writeReg Prod.snd]
  exact writeReg_displaced _ (h.reg o ho)

end Updates

section Statements

variable {N : Numbers K B} {I : Interp B} {F : FpSem B} {F' : FpSem (B × B)} {M : Machine B T}
  {D : Machine (B × B) T'} {Shadows : T → (ℕ → Addr → B) → Prop} {tyenv env env' : List IRType}
  {g : ℕ} {s s' : State B T} {d : State (B × B) T'} {w ty : IRType}

/-- Storing the shadow of an atom. -/
theorem wp_store_dual (hM : DualMachines N I F F' M D Shadows)
    (h : DualState tyenv g Shadows env s d) {addr data guard : IRExpr}
    (haddr : addr.isAtom = true) (haddrFits : addr.inBounds tyenv.length g = true)
    (haddrTy : typeOfIRExpr tyenv addr = some w) (hdata : data.isAtom = true)
    (hdataFits : data.inBounds tyenv.length g = true) (hdataTy : typeOfIRExpr tyenv data = some ty)
    (hguard : guard.isAtom = true) (hguardFits : guard.inBounds tyenv.length g = true) :
    (execMeaning M).wp (dgDotExpressionhandling.store ⟨tyenv.length, g, w⟩ addr
        (atomShadow dgDotExpressionhandling ⟨tyenv.length, g, w⟩ data) (some guard)) env s
      fun _ env' s' => env' = env ∧ EpsilonPart tyenv.length g Shadows s'
        (if D.isTrue (evalExpr D.toInterp d guard) then
          d.storeAt D.toInterp .le addr (evalExpr D.toInterp d data) else d) := by
  have hcond := h.isTrue_atom hM hguard hguardFits
  apply wp_mono (wp_shadowStore hM.shadow h.epsilon.mem ⟨tyenv.length, g, w⟩
    (h.hasValue_atom hM haddr haddrFits haddrTy) (h.hasShadow_atom hM hdata hdataFits hdataTy)
    (inBounds_atom hguard hguardFits h.prefixed.length_le))
  rintro _ env' s' ⟨rfl, ⟨r, rfl⟩, hmem⟩
  refine ⟨rfl, ?_⟩
  rw [hcond] at hmem
  by_cases hb : D.isTrue (evalExpr D.toInterp d guard) = true
  · simp only [if_pos hb] at hmem ⊢
    rw [State.storeAt, bufferOffset?_of_inBounds haddrFits]
    refine ⟨h.epsilon.tmp, h.epsilon.reg, ?_⟩
    have haddrEq : M.addr ((evalExpr D.toInterp d addr).map Prod.fst)
        = D.addr (evalExpr D.toInterp d addr) := by
      rw [hM.primal, hM.dual]
      rfl
    rw [haddrEq] at hmem
    refine hM.shadow.congr hmem fun _ _ => ?_
    funext x
    exact (apply_writeMem Prod.snd d.mem _ _ x).symm
  · simp only [if_neg hb] at hmem ⊢
    exact ⟨h.epsilon.tmp, h.epsilon.reg, hmem⟩

theorem exists_type_of_isData {e : IRExpr} (h : isData tyenv w e = true) :
    ∃ ty, typeOfIRExpr tyenv e = some ty := by
  simp only [isData, Bool.and_eq_true] at h
  exact Option.isSome_iff_exists.mp h.1.2

theorem type_of_hasTy {e : IRExpr} (h : hasTy tyenv w e ty = true) :
    typeOfIRExpr tyenv e = some ty := by
  simp only [hasTy, Bool.and_eq_true, decide_eq_true_eq] at h
  exact h.2

/-- **What the inserted code does to the shadow.** -/
theorem wp_addStatementDual (hM : DualMachines N I F F' M D Shadows)
    (h : DualState tyenv g Shadows env s d) {st : IRStmt} (hst : st.isDual = true)
    (hfits : st.inBounds tyenv.length g = true) (htc : tcStmt tyenv w st = true)
    (hregs : st.regsFit tyenv g = true) :
    (execMeaning M).wp (addStatementModified dgDotExpressionhandling ⟨tyenv.length, g, w⟩ st) env s
      fun cas env' s' => cas = none ∧ env <+: env' ∧
        EpsilonPart tyenv.length g Shadows s' (execStmt D tyenv st d).1 := by
  -- Unconditional stores are guarded by the constant true.
  have htrue : D.isTrue (evalExpr D.toInterp d (.const (.u1 true))) = true := by
    rw [hM.dual]
    show I.isTrue ((constantBytes N.zero (I.const (.u1 true))).map Prod.fst) = true
    rw [map_fst_constantBytes, hM.exact.isTrue_true]
  cases st with
  | noOp => exact wp_pure ⟨rfl, List.prefix_refl env, h.epsilon⟩
  | iMark addr len delta => exact wp_pure ⟨rfl, List.prefix_refl env, h.epsilon⟩
  | abiHint base len nia => exact wp_pure ⟨rfl, List.prefix_refl env, h.epsilon⟩
  | mbe => exact wp_pure ⟨rfl, List.prefix_refl env, h.epsilon⟩
  | exit guard jk dst offsIP =>
    refine wp_pure ⟨rfl, List.prefix_refl env, ?_⟩
    rw [execStmt]
    split
    · exact h.epsilon
    · exact h.epsilon
  | wrTmp tmp data =>
    simp only [IRStmt.inBounds, tcStmt, Bool.and_eq_true] at hfits htc
    apply wp_bind
    apply wp_mono (wp_modifyOrDefault_dual hM h hst hfits.2 htc.1.1 ?_)
    · rintro sh env' s' ⟨hext, htool, heval⟩
      apply wp_bind
      refine wp_emit (fun _ => rfl) (wp_pure ⟨rfl, hext.tyenv, ?_⟩)
      rw [heval, Nat.zero_add, Nat.one_mul]
      exact (h.epsilon.mono hext htool h.two_mul_le).setTmp tmp _
    · rintro descr ix bias rfl
      exact hregs
  | put offset data =>
    rw [IRStmt.inBounds] at hfits
    rw [addStatementModified, dgModifyExpressionOrDefault_atom _ _ hst]
    apply wp_bind
    apply wp_pure
    apply wp_bind
    refine wp_emit (fun _ => rfl) (wp_pure ⟨rfl, List.prefix_refl env, ?_⟩)
    rw [h.eval_shadow hM hst hfits, Nat.zero_add, Nat.one_mul]
    exact h.epsilon.put offset _
  | putI descr ix bias data =>
    simp only [IRStmt.isDual, IRStmt.inBounds, Bool.and_eq_true] at hst hfits
    rw [addStatementModified, dgModifyExpressionOrDefault_atom _ _ hst.2]
    apply wp_bind
    apply wp_pure
    apply wp_bind
    refine wp_emit (fun _ => rfl) (wp_pure ⟨rfl, List.prefix_refl env, ?_⟩)
    -- Indices are integers, which are not affected by epsilon parts.
    have hindex : M.index (evalExpr M.toInterp s ix) = D.index (evalExpr D.toInterp d ix) := by
      rw [h.eval_atom hM hst.1 hfits.1, hM.primal, hM.dual]
      rfl
    simp only [ExpressionHandling.shadowDescr, Nat.zero_add, Nat.one_mul,
      h.eval_shadow hM hst.2 hfits.2, hindex]
    rw [IRRegArray.offset_displaced hregs]
    exact h.epsilon.put _ _
  | store endness addr data =>
    simp only [IRStmt.isDual, IRStmt.inBounds, tcStmt, Bool.and_eq_true, decide_eq_true_eq]
      at hst hfits htc
    obtain ⟨⟨rfl, haddr⟩, hdata⟩ := hst
    obtain ⟨ty, hty⟩ := exists_type_of_isData htc.2
    rw [addStatementModified, dgModifyExpressionOrDefault_atom _ _ hdata]
    apply wp_bind
    apply wp_pure
    apply wp_bind
    apply wp_mono (wp_store_dual hM h haddr hfits.1 (type_of_hasTy htc.1) hdata hfits.2 hty
      (show (IRExpr.const (.u1 true)).isAtom = true from rfl) rfl)
    rintro _ env' s' ⟨rfl, hs'⟩
    rw [if_pos htrue] at hs'
    exact wp_pure ⟨rfl, List.prefix_refl env', hs'⟩
  | storeG endness addr data guard =>
    simp only [IRStmt.isDual, IRStmt.inBounds, tcStmt, Bool.and_eq_true, decide_eq_true_eq]
      at hst hfits htc
    obtain ⟨⟨⟨rfl, haddr⟩, hdata⟩, hguard⟩ := hst
    obtain ⟨ty, hty⟩ := exists_type_of_isData htc.1.2
    rw [addStatementModified, dgModifyExpressionOrDefault_atom _ _ hdata]
    apply wp_bind
    apply wp_pure
    apply wp_bind
    apply wp_mono (wp_store_dual hM h haddr hfits.1.1 (type_of_hasTy htc.1.1) hdata hfits.1.2 hty
      hguard hfits.2)
    rintro _ env' s' ⟨rfl, hs'⟩
    refine wp_pure ⟨rfl, List.prefix_refl env', ?_⟩
    rw [execStmt]
    split <;> rename_i hb
    · rwa [if_pos hb] at hs'
    · rwa [if_neg hb] at hs'
  | loadG endness cvt dst addr alt guard =>
    simp only [IRStmt.isDual, IRStmt.inBounds, tcStmt, Bool.and_eq_true, decide_eq_true_eq]
      at hst hfits htc
    obtain ⟨⟨⟨⟨rfl, hcvt⟩, haddr⟩, halt⟩, hguard⟩ := hst
    obtain ⟨⟨⟨hdst, haddrTy⟩, -⟩, -⟩ := htc
    apply wp_bind
    -- The shadow is read with the type of the destination, then selected by the guard.
    have hdstTy : typeOfIRExpr env (.rdTmp dst) = some cvt.type :=
      getElem?_of_prefixed h.prefixed hdst
    apply wp_typeOf hdstTy
    apply wp_bind
    apply wp_mono (wp_shadowLoad hM.shadow h.epsilon.mem ⟨tyenv.length, g, w⟩
      (h.hasValue_atom hM haddr hfits.1.1.2 (type_of_hasTy haddrTy)) cvt.type)
    rintro dataRead env' s' ⟨hext, htool, -, hread⟩
    have h' := h.mono hext htool
    rw [dgModifyExpressionOrDefault_atom _ _ halt]
    apply wp_bind
    apply wp_pure
    apply wp_bind
    refine wp_emit (fun _ => rfl) (wp_pure ⟨rfl, hext.tyenv, ?_⟩)
    have hload : evalExpr M.toInterp s' (dataRead.layer 0) = (readMem d.mem
        (D.addr (evalExpr D.toInterp d addr)) cvt.size).map Prod.snd := by
      rw [(hread.layer 0 (by decide)).eval, map_readMem, hM.primal, hM.dual]
      cases cvt <;> first | rfl | cases hcvt
    have heval : evalExpr M.toInterp s' (((dgDotExpressionhandling.ite guard dataRead
        (atomShadow dgDotExpressionhandling ⟨tyenv.length, g, w⟩ alt))).layer 0)
        = (if D.isTrue (evalExpr D.toInterp d guard) then
            readMem d.mem (D.addr (evalExpr D.toInterp d addr)) cvt.size
          else evalExpr D.toInterp d alt).map Prod.snd := by
      show evalExpr M.toInterp s' (.ite guard _ _) = _
      rw [evalExpr, hload, h'.eval_shadow hM halt hfits.1.2, h'.isTrue_atom hM hguard hfits.2]
      exact (apply_ite (List.map Prod.snd) _ _ _).symm
    -- Only identity conversions are covered.
    have hconvert : ∀ v, cvt.convert D.toInterp v = v := by
      intro v
      cases cvt <;> first | rfl | cases hcvt
    rw [heval, Nat.zero_add, Nat.one_mul, execStmt]
    split
    · rw [hconvert]
      exact h'.epsilon.setTmp dst _
    · exact h'.epsilon.setTmp dst _
  | _ => cases hst

/-! ### Original statements -/

theorem PrimalPart.setTmp {n : ℕ} (h : PrimalPart n g s d) (tmp : IRTemp) (v : List (B × B)) :
    PrimalPart n g (s.setTmp tmp (v.map Prod.fst)) (d.setTmp tmp v) := by
  refine ⟨fun t ht => ?_, h.reg, h.mem⟩
  by_cases hne : t = tmp
  · rw [hne]
    simp only [State.setTmp, Function.update_self]
  · simp only [State.setTmp, Function.update_of_ne hne, h.tmp t ht]

theorem PrimalPart.put {n : ℕ} (h : PrimalPart n g s d) (offset : ℕ) (v : List (B × B)) :
    PrimalPart n g { s with reg := writeReg s.reg offset (v.map Prod.fst) }
      { d with reg := writeReg d.reg offset v } := by
  refine ⟨h.tmp, fun o ho => ?_, h.mem⟩
  show writeReg s.reg offset _ o = (writeReg d.reg offset v o).1
  rw [apply_writeReg Prod.fst]
  exact writeReg_displaced (k := 0) _ (h.reg o ho)

theorem PrimalPart.store {n : ℕ} (h : PrimalPart n g s d) (a : Addr) (v : List (B × B)) :
    PrimalPart n g { s with mem := writeMem s.mem a (v.map Prod.fst) }
      { d with mem := writeMem d.mem a v } := by
  refine ⟨h.tmp, h.reg, fun x => ?_⟩
  show writeMem s.mem a _ x = (writeMem d.mem a v x).1
  rw [apply_writeMem Prod.fst, funext h.mem]

/-- The epsilon part is kept if the shadow is left alone. -/
theorem EpsilonPart.of_frame {n : ℕ} (h : EpsilonPart n g Shadows s d)
    (htmp : ∀ t, n ≤ t → s'.tmp t = s.tmp t) (hreg : ∀ o, g ≤ o → s'.reg o = s.reg o)
    (htool : s'.tool = s.tool) : EpsilonPart n g Shadows s' d :=
  ⟨fun t ht => (htmp (t + n) (by omega)).trans (h.tmp t ht),
    fun o ho => (hreg (o + g) (by omega)).trans (h.reg o ho), by rw [htool]; exact h.mem⟩

theorem setTmp_frame {n : ℕ} {tmp : IRTemp} (htmp : tmp < n) (v : List B) (t : IRTemp) (ht : n ≤ t) :
    (s.setTmp tmp v).tmp t = s.tmp t := by
  have hne : t ≠ tmp := Nat.ne_of_gt (Nat.lt_of_lt_of_le htmp ht)
  exact Function.update_of_ne hne v s.tmp

/-- The shadow is the same in two states. -/
structure ShadowFrame (n g : ℕ) (s s' : State B T) : Prop where
  tmp : ∀ t, n ≤ t → s'.tmp t = s.tmp t
  reg : ∀ o, g ≤ o → s'.reg o = s.reg o
  tool : s'.tool = s.tool

/-- **Statements of the client do not act on the shadow.**  What is written to the guest state does
not reach the shadow guest state behind it. -/
theorem execStmt_shadowFrame {st : IRStmt}
    (hguest : ∀ details, st = .dirty details → M.guestSize ≤ g)
    (hfits : st.inBounds tyenv.length g = true) (htc : tcStmt tyenv w st = true)
    (hregs : st.regsFit tyenv g = true) (hcas : st.isCAS = false)
    (hput : ∀ offset data, st = .put offset data → data.isAtom = true)
    (hputI : ∀ descr ix bias data, st = .putI descr ix bias data → data.isAtom = true)
    (hlen : ∀ {e : IRExpr} {ty : IRType}, e.isAtom = true → e.inBounds tyenv.length g = true →
      typeOfIRExpr tyenv e = some ty → (evalExpr M.toInterp s e).length = sizeofIRType ty)
    (tyenv' : List IRType) :
    ShadowFrame tyenv.length g s (Derivgrind.execStmt M tyenv' st s).1 := by
  have hsame : ShadowFrame tyenv.length g s s := ⟨fun _ _ => rfl, fun _ _ => rfl, rfl⟩
  have hset : ∀ {tmp : IRTemp} {v : List B}, tmp < tyenv.length →
      ShadowFrame tyenv.length g s (s.setTmp tmp v) := fun htmp =>
    ⟨setTmp_frame htmp _, fun _ _ => rfl, rfl⟩
  cases st with
  | noOp => exact hsame
  | iMark addr len delta => exact hsame
  | abiHint base len nia => exact hsame
  | mbe => exact hsame
  | exit guard jk dst offsIP =>
    rw [Derivgrind.execStmt]
    split
    · exact hsame
    · exact hsame
  | wrTmp tmp data =>
    simp only [IRStmt.inBounds, Bool.and_eq_true, decide_eq_true_eq] at hfits
    exact hset hfits.1
  | put offset data =>
    obtain ⟨ty, hty⟩ := exists_type_of_isData htc
    have hle : offset + sizeofIRType ty ≤ g := by simpa [IRStmt.regsFit, hty] using hregs
    refine ⟨fun _ _ => rfl, fun o ho => writeReg_of_ge _ ?_, rfl⟩
    rw [hlen (hput offset data rfl) hfits hty]
    omega
  | putI descr ix bias data =>
    simp only [IRStmt.inBounds, IRStmt.regsFit, IRRegArray.divides, tcStmt, Bool.and_eq_true,
      decide_eq_true_eq] at hfits hregs htc
    refine ⟨fun _ _ => rfl, fun o ho => writeReg_of_ge _ ?_, rfl⟩
    rw [hlen (hputI descr ix bias data rfl) hfits.2 (type_of_hasTy htc.1.2)]
    exact Nat.le_trans (IRRegArray.offset_add_le hregs.1.1 hregs.1.2 _ bias) ho
  | store endness addr data =>
    simp only [IRStmt.inBounds, Bool.and_eq_true] at hfits
    -- Client code has no access to the buffer: only the memory of the client changes.
    rw [Derivgrind.execStmt, State.storeAt, bufferOffset?_of_inBounds hfits.1]
    exact ⟨fun _ _ => rfl, fun _ _ => rfl, rfl⟩
  | storeG endness addr data guard =>
    simp only [IRStmt.inBounds, Bool.and_eq_true] at hfits
    rw [Derivgrind.execStmt, State.storeAt, bufferOffset?_of_inBounds hfits.1.1]
    split
    · exact ⟨fun _ _ => rfl, fun _ _ => rfl, rfl⟩
    · exact hsame
  | loadG endness cvt dst addr alt guard =>
    simp only [IRStmt.inBounds, Bool.and_eq_true, decide_eq_true_eq] at hfits
    rw [Derivgrind.execStmt]
    split
    · exact hset hfits.1.1.1
    · exact hset hfits.1.1.1
  | llsc endness result addr data =>
    simp only [IRStmt.inBounds, Bool.and_eq_true, decide_eq_true_eq] at hfits
    cases data with
    | none => exact hset hfits.1.1
    | some data =>
      rw [Derivgrind.execStmt]
      dsimp only
      split
      · exact ⟨setTmp_frame hfits.1.1 _, fun _ _ => rfl, rfl⟩
      · exact hset hfits.1.1
  | dirty details =>
    simp only [IRStmt.inBounds, Bool.and_eq_true] at hfits
    have htmp : ∀ v : List B, ShadowFrame tyenv.length g s (s.setTmp? details.tmp v) := by
      intro v
      cases hd : details.tmp with
      | none => exact hsame
      | some tmp =>
        rw [hd] at hfits
        exact hset (by simpa using hfits.1.2)
    rw [Derivgrind.execStmt, execDirty]
    split
    · cases hcee : details.cee with
      | guest name =>
        refine ⟨(htmp _).tmp, fun o ho => ?_, (htmp _).tool⟩
        exact if_neg (Nat.not_lt.mpr ((hguest details rfl).trans ho))
      | tool helper =>
        rw [hcee] at hfits
        exact absurd hfits.2 Bool.false_ne_true
    · exact htmp _
  | cas details => cases hcas

/-- **Original statements do not act on the shadow.** -/
theorem execStmt_frame (hM : DualMachines N I F F' M D Shadows)
    (hp : PrimalPart tyenv.length g s d) (hd : d.Typed tyenv) {st : IRStmt}
    (hst : st.isDual = true) (hfits : st.inBounds tyenv.length g = true)
    (htc : tcStmt tyenv w st = true) (hregs : st.regsFit tyenv g = true) (tyenv' : List IRType) :
    ShadowFrame tyenv.length g s (Derivgrind.execStmt M tyenv' st s).1 := by
  refine execStmt_shadowFrame ?_ hfits htc hregs ?_ ?_ ?_ (fun hatom hfits hty => ?_) tyenv'
  · rintro details rfl
    cases hst
  · cases st <;> first | rfl | cases hst
  · rintro offset data rfl
    exact hst
  · rintro descr ix bias data rfl
    exact ((Bool.and_eq_true _ _).mp hst).2
  · rw [hM.primal, hp.eval_atom F' hatom hfits, List.length_map]
    exact length_eval_atom hM.exact hd hatom hfits hty

theorem EpsilonPart.execStmt (hM : DualMachines N I F F' M D Shadows) {d' : State (B × B) T'}
    (hε : EpsilonPart tyenv.length g Shadows s d') (hp : PrimalPart tyenv.length g s d)
    (hd : d.Typed tyenv) {st : IRStmt} (hst : st.isDual = true)
    (hfits : st.inBounds tyenv.length g = true) (htc : tcStmt tyenv w st = true)
    (hregs : st.regsFit tyenv g = true) (tyenv' : List IRType) :
    EpsilonPart tyenv.length g Shadows (Derivgrind.execStmt M tyenv' st s).1 d' := by
  have hframe := execStmt_frame hM hp hd hst hfits htc hregs tyenv'
  exact hε.of_frame hframe.tmp hframe.reg hframe.tool

theorem State.Typed.setTmp {C : Type} {d : State C T'} (h : d.Typed tyenv) {tmp : IRTemp}
    {v : List C} (hv : ∀ ty, tyenv[tmp]? = some ty → v.length = sizeofIRType ty) :
    (d.setTmp tmp v).Typed tyenv := by
  intro t ty hty
  by_cases hne : t = tmp
  · subst hne
    simpa only [State.setTmp, Function.update_self] using hv ty hty
  · simpa only [State.setTmp, Function.update_of_ne hne] using h t ty hty

/-- Statements keep the sizes of temporaries. -/
theorem State.Typed.execStmt (hM : DualMachines N I F F' M D Shadows) (hd : d.Typed tyenv)
    {st : IRStmt} (hst : st.isDual = true) (hfits : st.inBounds tyenv.length g = true)
    (htc : tcStmt tyenv w st = true) : (Derivgrind.execStmt D tyenv st d).1.Typed tyenv := by
  cases st with
  | wrTmp tmp data =>
    simp only [IRStmt.inBounds, tcStmt, Bool.and_eq_true, decide_eq_true_eq] at hfits htc
    refine hd.setTmp fun ty hty => ?_
    rw [hM.dual]
    exact length_eval_dual hM.exact hd hst hfits.2 htc.1.1 (htc.2.symm.trans hty)
  | storeG endness addr data guard =>
    simp only [IRStmt.inBounds, Bool.and_eq_true] at hfits
    rw [Derivgrind.execStmt, State.storeAt, bufferOffset?_of_inBounds hfits.1.1]
    split
    · exact hd
    · exact hd
  | store endness addr data =>
    simp only [IRStmt.inBounds, Bool.and_eq_true] at hfits
    rw [Derivgrind.execStmt, State.storeAt, bufferOffset?_of_inBounds hfits.1]
    exact hd
  | loadG endness cvt dst addr alt guard =>
    simp only [IRStmt.isDual, IRStmt.inBounds, tcStmt, Bool.and_eq_true, decide_eq_true_eq]
      at hst hfits htc
    obtain ⟨⟨⟨⟨rfl, hcvt⟩, -⟩, halt⟩, -⟩ := hst
    obtain ⟨⟨⟨hdst, -⟩, haltTy⟩, -⟩ := htc
    rw [Derivgrind.execStmt]
    split
    · refine hd.setTmp fun ty hty => ?_
      obtain rfl := Option.some_inj.mp (hdst.symm.trans hty)
      cases cvt <;> first
        | exact (List.length_map _).trans List.length_range
        | cases hcvt
    · refine hd.setTmp fun ty hty => ?_
      obtain rfl := Option.some_inj.mp (hdst.symm.trans hty)
      rw [hM.dual]
      exact length_eval_atom hM.exact hd halt hfits.1.2 (type_of_hasTy haltTy)
  | exit guard jk dst offsIP =>
    rw [Derivgrind.execStmt]
    split
    · exact hd
    · exact hd
  | noOp => exact hd
  | iMark addr len delta => exact hd
  | abiHint base len nia => exact hd
  | mbe => exact hd
  | put offset data => exact hd
  | putI descr ix bias data => exact hd
  | _ => cases hst

/-- **Original statements act on the primal parts.** -/
theorem PrimalPart.execStmt (hM : DualMachines N I F F' M D Shadows) {n : ℕ}
    (h : PrimalPart n g s d) {st : IRStmt} (hst : st.isDual = true)
    (hfits : st.inBounds n g = true) (tyenv tyenv' : List IRType) :
    PrimalPart n g (Derivgrind.execStmt M tyenv' st s).1 (Derivgrind.execStmt D tyenv st d).1 ∧
      (Derivgrind.execStmt M tyenv' st s).2 = (Derivgrind.execStmt D tyenv st d).2 := by
  -- Whatever a statement looks at depends on primal parts only.
  have heval : ∀ e : IRExpr, e.isDual = true → e.inBounds n g = true →
      evalExpr M.toInterp s e = (evalExpr D.toInterp d e).map Prod.fst := fun e he hfits => by
    rw [hM.primal, hM.dual]
    exact h.eval hM.exact.shifts he hfits
  have hatom : ∀ e : IRExpr, e.isAtom = true → e.isDual = true := by
    intro e he
    cases e <;> first | rfl | cases he
  have htrue : ∀ v : List (B × B), M.isTrue (v.map Prod.fst) = D.isTrue v := fun v => by
    rw [hM.primal, hM.dual]
    rfl
  have haddr : ∀ v : List (B × B), M.addr (v.map Prod.fst) = D.addr v := fun v => by
    rw [hM.primal, hM.dual]
    rfl
  have hindex : ∀ v : List (B × B), M.index (v.map Prod.fst) = D.index v := fun v => by
    rw [hM.primal, hM.dual]
    rfl
  cases st with
  | noOp => exact ⟨h, rfl⟩
  | iMark addr len delta => exact ⟨h, rfl⟩
  | abiHint base len nia => exact ⟨h, rfl⟩
  | mbe => exact ⟨h, rfl⟩
  | exit guard jk dst offsIP =>
    rw [IRStmt.inBounds] at hfits
    rw [Derivgrind.execStmt, Derivgrind.execStmt, heval guard (hatom guard hst) hfits, htrue]
    split
    · exact ⟨h, rfl⟩
    · exact ⟨h, rfl⟩
  | wrTmp tmp data =>
    simp only [IRStmt.inBounds, Bool.and_eq_true] at hfits
    rw [Derivgrind.execStmt, Derivgrind.execStmt, heval data hst hfits.2]
    exact ⟨h.setTmp tmp _, rfl⟩
  | put offset data =>
    rw [IRStmt.inBounds] at hfits
    rw [Derivgrind.execStmt, Derivgrind.execStmt, heval data (hatom data hst) hfits]
    exact ⟨h.put offset _, rfl⟩
  | putI descr ix bias data =>
    simp only [IRStmt.isDual, IRStmt.inBounds, Bool.and_eq_true] at hst hfits
    rw [Derivgrind.execStmt, Derivgrind.execStmt, heval data (hatom data hst.2) hfits.2,
      heval ix (hatom ix hst.1) hfits.1, hindex]
    exact ⟨h.put _ _, rfl⟩
  | store endness addr data =>
    simp only [IRStmt.isDual, IRStmt.inBounds, Bool.and_eq_true, decide_eq_true_eq] at hst hfits
    obtain ⟨⟨rfl, ha⟩, hdata⟩ := hst
    rw [Derivgrind.execStmt, Derivgrind.execStmt, heval data (hatom data hdata) hfits.2,
      State.storeAt, State.storeAt, bufferOffset?_of_inBounds hfits.1]
    simp only [heval addr (hatom addr ha) hfits.1, haddr]
    exact ⟨h.store _ _, trivial⟩
  | storeG endness addr data guard =>
    simp only [IRStmt.isDual, IRStmt.inBounds, Bool.and_eq_true, decide_eq_true_eq] at hst hfits
    obtain ⟨⟨⟨rfl, ha⟩, hdata⟩, hguard⟩ := hst
    rw [Derivgrind.execStmt, Derivgrind.execStmt, heval guard (hatom guard hguard) hfits.2, htrue]
    split
    · rw [heval data (hatom data hdata) hfits.1.2, State.storeAt, State.storeAt,
        bufferOffset?_of_inBounds hfits.1.1]
      simp only [heval addr (hatom addr ha) hfits.1.1, haddr]
      exact ⟨h.store _ _, trivial⟩
    · exact ⟨h, rfl⟩
  | loadG endness cvt dst addr alt guard =>
    simp only [IRStmt.isDual, IRStmt.inBounds, Bool.and_eq_true, decide_eq_true_eq] at hst hfits
    obtain ⟨⟨⟨⟨rfl, hcvt⟩, ha⟩, halt⟩, hguard⟩ := hst
    rw [Derivgrind.execStmt, Derivgrind.execStmt, heval guard (hatom guard hguard) hfits.2, htrue]
    split
    -- Only identity conversions are covered.
    · have hload : cvt.convert M.toInterp (IREndness.le.order
          (readMem s.mem (M.addr (evalExpr M.toInterp s addr)) cvt.size))
          = (cvt.convert D.toInterp (IREndness.le.order
            (readMem d.mem (D.addr (evalExpr D.toInterp d addr)) cvt.size))).map Prod.fst := by
        rw [heval addr (hatom addr ha) hfits.1.1.2, haddr]
        cases cvt <;> first
          | exact (congrArg (readMem · _ _) (funext h.mem)).trans (map_readMem _ _ _ _).symm
          | cases hcvt
      rw [hload]
      exact ⟨h.setTmp dst _, rfl⟩
    · rw [heval alt (hatom alt halt) hfits.1.2]
      exact ⟨h.setTmp dst _, rfl⟩
  | _ => cases hst

/-! ### Runs -/

/-- A statement that is covered, in a superblock that passes the sanity check. -/
structure IRStmt.Dual (tyenv : List IRType) (g : ℕ) (w : IRType) (st : IRStmt) : Prop where
  isDual : st.isDual = true
  inBounds : st.inBounds tyenv.length g = true
  tc : tcStmt tyenv w st = true
  regsFit : st.regsFit tyenv g = true

/-- Both parts of the state after a run, and the exit that has been taken. -/
def PartsAgree (n g : ℕ) (Shadows : T → (ℕ → Addr → B) → Prop)
    (r : State B T × Option SideExit) (r' : State (B × B) T' × Option SideExit) : Prop :=
  PrimalPart n g r.1 r'.1 ∧ EpsilonPart n g Shadows r.1 r'.1 ∧ r.2 = r'.2

theorem execStmt_tyenv {st : IRStmt} (hst : st.isDual = true) (tyenv tyenv' : List IRType) :
    execStmt M tyenv st s = execStmt M tyenv' st s := by
  cases st <;> first | rfl | cases hst

theorem execStmts_tyenv {sts : List IRStmt} (h : ∀ st ∈ sts, st.isDual = true)
    (tyenv tyenv' : List IRType) (s : State B T) :
    execStmts M tyenv sts s = execStmts M tyenv' sts s := by
  induction sts generalizing s with
  | nil => rfl
  | cons st sts ih =>
    have htail := ih fun st' hst' => h st' (List.mem_cons_of_mem st hst')
    simp only [execStmts, execStmt_tyenv (h st List.mem_cons_self) tyenv tyenv', htail]

/-- The code for a statement: the statement itself comes last. -/
theorem dgInstrumentStmt_dual (hM : DualMachines N I F F' M D Shadows)
    (h : DualState tyenv g Shadows env s d) {st : IRStmt} (hst : st.Dual tyenv g w) :
    ∃ tys pre s₁, dgInstrumentStmt dgDotExpressionhandling ⟨tyenv.length, g, w⟩ st env
        = some ((), tys, pre ++ [st]) ∧
      (∀ tyenv', execStmts M tyenv' pre s = (s₁, none)) ∧ PrimalPart tyenv.length g s₁ d ∧
      EpsilonPart tyenv.length g Shadows s₁ (execStmt D tyenv st d).1 := by
  have hcas : st.isCAS = false := by
    have hdual := hst.isDual
    cases st <;> first | rfl | cases hdual
  have hlen : tyenv.length ≤ env.length := h.prefixed.length_le
  have hwp := wp_addStatementDual hM h hst.isDual hst.inBounds hst.tc hst.regsFit
  obtain ⟨⟨cas, tys, pre⟩, hpre⟩ := Option.isSome_iff_exists.mp (hwp.succeeds rfl)
  obtain ⟨s₁, hrun, rfl, -, hε⟩ := hwp.ends cas tys pre hpre
  have htransparent : dgDotExpressionhandling.Transparent ⟨tyenv.length, g, w⟩ tyenv.length g :=
    transparent_dot rfl rfl
  obtain ⟨_, hsilent, -, -⟩ :=
    (shadowOnly_addStatementModified htransparent hcas env hlen).ends _ tys pre hpre
  obtain ⟨s₂, hexec, heq⟩ := execStmts_shadowOnly M env pre hsilent s
  obtain rfl : s₁ = s₂ := congrArg Prod.fst ((hrun env).symm.trans hexec)
  refine ⟨tys, pre, s₁, ?_, hrun, h.primal.of_primalEq heq, hε⟩
  have horig : dgOriginalStatement st none = addStmt st := by
    cases st <;> rfl
  unfold dgInstrumentStmt
  rw [Emitter.bind_eq_of_eq_some hpre, horig]
  show some ((), tys ++ [], pre ++ [st]) = _
  rw [List.append_nil]

/-- **Running the code for statements**, by induction on the statements: both parts agree after
each of them. -/
theorem execStmts_dual (hM : DualMachines N I F F' M D Shadows) :
    ∀ {sts : List IRStmt} {env : List IRType} {s : State B T} {d : State (B × B) T'},
    DualState tyenv g Shadows env s d → (∀ st ∈ sts, st.Dual tyenv g w) →
    ∃ us tys out, Emitter.mapList (dgInstrumentStmt dgDotExpressionhandling ⟨tyenv.length, g, w⟩)
        sts env = some (us, tys, out) ∧
      ∀ tyenv', PartsAgree tyenv.length g Shadows (execStmts M tyenv' out s)
        (execStmts D tyenv sts d) := by
  intro sts
  induction sts with
  | nil =>
    intro env s d h _
    exact ⟨[], [], [], rfl, fun _ => ⟨h.primal, h.epsilon, rfl⟩⟩
  | cons st sts ih =>
    intro env s d h hsts
    have hst := hsts st List.mem_cons_self
    obtain ⟨tys, pre, s₁, hemit, hrun, hp, hε⟩ := dgInstrumentStmt_dual hM h hst
    obtain ⟨hp', hexit⟩ := hp.execStmt hM hst.isDual hst.inBounds tyenv []
    have hε' := hε.execStmt hM hp h.typed hst.isDual hst.inBounds hst.tc hst.regsFit []
    have htyped := h.typed.execStmt hM hst.isDual hst.inBounds hst.tc
    have hnext : DualState tyenv g Shadows (env ++ tys) (execStmt M [] st s₁).1
        (execStmt D tyenv st d).1 :=
      ⟨h.declared.trans (List.prefix_append env tys), hp', hε', htyped⟩
    obtain ⟨us, tys', out, hrest, hagrees⟩ :=
      ih hnext fun st' hst' => hsts st' (List.mem_cons_of_mem st hst')
    refine ⟨() :: us, tys ++ tys', pre ++ [st] ++ out, ?_, fun tyenv' => ?_⟩
    · show (dgInstrumentStmt _ _ st >>= fun b => Emitter.mapList _ sts >>= fun bs =>
        pure (b :: bs)) env = _
      rw [Emitter.bind_eq_of_eq_some hemit, Emitter.bind_eq_of_eq_some hrest]
      show some (() :: us, tys ++ (tys' ++ []), pre ++ [st] ++ (out ++ [])) = _
      rw [List.append_nil, List.append_nil]
    · rw [List.append_assoc, execStmts_append, hrun tyenv', List.singleton_append]
      simp only [execStmts]
      rw [execStmt_tyenv hst.isDual tyenv' []]
      rcases h₁ : execStmt M [] st s₁ with ⟨s₂, _ | e⟩ <;>
        rcases h₂ : execStmt D tyenv st d with ⟨d₂, _ | e'⟩ <;>
        rw [h₁, h₂] at hexit hp' hagrees <;> rw [h₁, h₂] at hε'
      · exact hagrees tyenv'
      · cases hexit
      · cases hexit
      · exact ⟨hp', hε', hexit⟩

/-! ### Superblocks -/

/-- A flat superblock of covered statements, for a guest state of `g` bytes. -/
structure IRSB.Dual (sb : IRSB) (g : ℕ) (w : IRType) : Prop where
  wellFormed : sb.wellFormed w = true
  inBounds : sb.inBounds g = true
  flat : ∀ st ∈ sb.stmts, st.isDual = true
  regsFit : ∀ st ∈ sb.stmts, st.regsFit sb.tyenv g = true

theorem IRSB.Dual.stmt {sb : IRSB} (h : sb.Dual g w) : ∀ st ∈ sb.stmts, st.Dual sb.tyenv g w := by
  intro st hst
  obtain ⟨D₁, hcheck, -⟩ := IRSB.wellFormed_inv h.wellFormed
  have hbounds := h.inBounds
  rw [IRSB.inBounds, Bool.and_eq_true, List.all_eq_true] at hbounds
  exact ⟨h.flat st hst, hbounds.1 st hst, ((checkStmts_mem hcheck (by simp [Bounded])).2 st hst).1,
    h.regsFit st hst⟩

end Statements

/-- **Forward mode computes dual numbers.**  When the preamble has been run, let the primal parts
and the epsilon parts of a state on pairs of bytes be given by the client and by the shadow.
Then they still are, when the instrumented superblock and the original one have been run. -/
theorem dgInstrument_dual (N : Numbers K B) (I : Interp B) (F : FpSem B) (F' : FpSem (B × B))
    (M : Machine B T) (D : Machine (B × B) T') (Shadows : T → (ℕ → Addr → B) → Prop)
    (hM : DualMachines N I F F' M D Shadows) (o : Options) (ho : o.mode = .d) (w : IRType)
    (sb : IRSB) (hsb : sb.Dual M.guestSize w) (s s₀ : State B T) (d : State (B × B) T')
    (hpre : execStmts M sb.tyenv sb.preamble s = (s₀, none))
    (hp : PrimalPart sb.tyenv.length M.guestSize s₀ d)
    (hε : EpsilonPart sb.tyenv.length M.guestSize Shadows s₀ d) (hd : d.Typed sb.tyenv) :
    ∃ sb', dgInstrument o M.guestSize w sb = some sb' ∧
      PartsAgree sb.tyenv.length M.guestSize Shadows (execStmts M sb'.tyenv sb'.stmts s)
        (execStmts D sb.tyenv sb.marked d) := by
  have heh : o.expressionhandling = dgDotExpressionhandling := by
    rw [Options.expressionhandling, ho]
  have hmarked : ∀ st ∈ sb.marked, st.Dual sb.tyenv M.guestSize w := fun st hst =>
    hsb.stmt st ((List.dropWhile_suffix _).subset hst)
  have hpreamble : ∀ st ∈ sb.preamble, st.isDual = true := fun st hst =>
    hsb.flat st ((List.takeWhile_prefix _).subset hst)
  obtain ⟨us, tys, out, hemit, hagrees⟩ := execStmts_dual hM
    ⟨List.prefix_refl (shadowedTyenv 1 sb.tyenv), hp, hε, hd⟩ hmarked
  refine ⟨⟨shadowedTyenv 1 sb.tyenv ++ tys, sb.preamble ++ out, sb.next⟩, ?_, ?_⟩
  · unfold dgInstrument
    rw [heh]
    exact Option.bind_eq_some_iff.mpr ⟨_, hemit, rfl⟩
  · rw [execStmts_append, execStmts_tyenv hpreamble _ sb.tyenv, hpre]
    exact hagrees _

/-! ### Rational numbers -/

section Rational

/-- A rational number as the first one of several bytes. -/
def ratBytes (n : ℕ) (x : ℚ) : List ℚ := (List.range n).map fun i => if i = 0 then x else 0

/-- Rational numbers, where a byte can be any rational number. -/
def ratNumbers : Numbers ℚ ℚ where
  zero := 0
  decode v := v.headD 0
  encode := ratBytes
  sqrt := Rat.sqrt
  isNeg x := x < 0
  length_encode n x := by rw [ratBytes, List.length_map, List.length_range]
  decode_encode n x hn := by
    obtain ⟨k, rfl⟩ : ∃ k, n = k + 1 := ⟨n - 1, by omega⟩
    rw [ratBytes, List.range_succ_eq_map]
    rfl
  decode_zero n := by cases n <;> rfl

/-- Operations that are not exact are not needed. -/
def FpSem.unused (B : Type) : FpSem B where
  arith _ _ _ x _ := x
  sqrt _ _ x := x
  neg _ x := x
  abs _ x := x
  minMax _ _ x _ := x
  fma _ _ _ x _ _ := x
  f32toF64 x := x
  f64toF32 _ x := x
  scaleF64 _ x _ := x
  yl2xF64 _ x _ := x
  yl2xp1F64 _ x _ := x

/-- Constants; of floating-point constants, only the number two is needed. -/
def ratConst : IRConst → List ℚ
  | .u1 x => [if x then 1 else 0]
  | .u8 x => ratBytes 1 x.toNat
  | .u16 x => ratBytes 2 x.toNat
  | .u32 x => ratBytes 4 x.toNat
  | .u64 x => ratBytes 8 x.toNat
  | .u128 x => ratBytes 16 x.toNat
  | .f32 x => ratBytes 4 (if x = f32Two then 2 else 0)
  | .f32i x => ratBytes 4 (if x = f32Two then 2 else 0)
  | .f64 x => ratBytes 8 (if x = f64Two then 2 else 0)
  | .f64i x => ratBytes 8 (if x = f64Two then 2 else 0)
  | .v128 x => ratBytes 16 x.toNat
  | .v256 x => ratBytes 32 x.toNat
  | .bufferAddr _ _ => []

/-- Comparisons, and shifts that discard everything. -/
def ratOp : IROp → List (List ℚ) → List ℚ
  | .helper .cmpF64, [x, y] => ratBytes 4 (if x.headD 0 < y.headD 0 then 1 else 0)
  | .helper .cmpF32, [x, y] => ratBytes 4 (if x.headD 0 < y.headD 0 then 1 else 0)
  | .helper .op32to1, [x] => [x.headD 0]
  | .shift _ size, _ => List.replicate (sizeofIRType size.type) 0
  | _, _ => []

def ratInterp : Interp ℚ where
  zero := 0
  const := ratConst
  op := ratOp
  ccall _ _ := []
  isTrue v := v.headD 0 ≠ 0
  addr v := BitVec.ofNat 64 (v.headD 0).num.toNat
  index v := (v.headD 0).num

theorem exact_ratInterp : ratInterp.Exact ratNumbers where
  length_const con hcon := by
    cases con with
    | bufferAddr ty offset => cases hcon
    | _ => rfl
  const_zeroed con hcon := by
    cases con with
    | bufferAddr ty offset => cases hcon
    | _ => rfl
  two64 := rfl
  two32 := rfl
  isTrue_true := rfl
  isLess_zero l x _ := by
    have hlt : ∀ n, ratInterp.isTrue (ratOp (.helper .op32to1)
        [ratBytes 4 (if x.headD 0 < (List.replicate (n + 1) (0 : ℚ)).headD 0 then 1 else 0)])
        = decide (x.headD 0 < 0) := fun n => by
      show decide ((if x.headD 0 < 0 then (1 : ℚ) else 0) ≠ 0) = _
      split
      · next h =>
        rw [decide_eq_true h]
        rfl
      · next h =>
        rw [decide_eq_false h]
        rfl
    cases l with
    | f64 => exact hlt 7
    | f32 => exact hlt 3
  shifts left size a n := List.length_replicate

/-- Helper functions that access shadow memory, which is one map. -/
def ratDirty :
    ToolHelper → List (List ℚ) → (ℕ → ℚ) → (Addr → ℚ) → List ℚ × (ℕ → ℚ) × (Addr → ℚ)
  | .dotStore, [addr, size], buf, t =>
      ([], buf, writeMem t (ratInterp.addr addr) (readReg buf 0 (ratInterp.index size).toNat))
  | .dotLoad, [addr, size], buf, t =>
      ([], writeReg buf 0 (readMem t (ratInterp.addr addr) (ratInterp.index size).toNat), t)
  | _, _, buf, t => ([], buf, t)

/-- A machine with exact arithmetic. -/
def ratMachine : Machine ℚ (Addr → ℚ) where
  toInterp := ratInterp.exact ratNumbers (FpSem.unused ℚ)
  guestSize := 16
  guestDirty _ _ r m := ([], r, m)
  toolDirty := ratDirty
  skipped := []
  storeSucceeds _ _ _ := true
  flag ok := [if ok then 1 else 0]

/-- A machine with dual numbers. -/
def ratDualMachine : Machine (ℚ × ℚ) Unit where
  toInterp := (ratInterp.dual 0).exact ratNumbers.dual (FpSem.unused (ℚ × ℚ))
  guestSize := 16
  guestDirty _ _ r m := ([], r, m)
  toolDirty _ _ buf t := ([], buf, t)
  skipped := []
  storeSucceeds _ _ _ := true
  flag ok := [if ok then (1, 0) else (0, 0)]

/-- Shadow memory is the given map. -/
def ratShadows (t : Addr → ℚ) (mem : ℕ → Addr → ℚ) : Prop := mem 0 = t

theorem dualMachines_rat : DualMachines ratNumbers ratInterp (FpSem.unused ℚ)
    (FpSem.unused (ℚ × ℚ)) ratMachine ratDualMachine ratShadows where
  exact := exact_ratInterp
  primal := rfl
  dual := rfl
  shadow := {
    isTrue_true := rfl
    layers_pos := Nat.one_pos
    congr := fun h heq => (heq 0 Nat.one_pos).symm.trans h
    store := by
      rintro t mem rfl addr ty buf
      refine ⟨writeMem (mem 0) (ratInterp.addr addr) (readReg buf 0 (sizeofIRType ty)), ?_, rfl⟩
      cases ty <;> rfl
    load := by
      rintro t mem rfl addr ty buf
      have hlen : (readMem (mem 0) (ratInterp.addr addr) (sizeofIRType ty)).length
          = sizeofIRType ty := by simp [readMem]
      refine ⟨writeReg buf 0 (readMem (mem 0) (ratInterp.addr addr) (sizeofIRType ty)), ?_, ?_⟩
      · cases ty <;> rfl
      · intro k hk
        obtain rfl : k = 0 := Nat.lt_one_iff.mp hk
        exact readReg_writeReg_of_length buf 0 hlen }

/-- A state in which the client and the shadow hold the parts of a state on pairs of bytes. -/
def ratState (n : ℕ) (d : State (ℚ × ℚ) Unit) : State ℚ (Addr → ℚ) where
  tmp t := if t < n then (d.tmp t).map Prod.fst else (d.tmp (t - n)).map Prod.snd
  reg o := if o < 16 then (d.reg o).1 else (d.reg (o - 16)).2
  mem a := (d.mem a).1
  buf _ := 0
  tool a := (d.mem a).2

theorem primalPart_ratState (n : ℕ) (d : State (ℚ × ℚ) Unit) :
    PrimalPart n 16 (ratState n d) d :=
  ⟨fun _ ht => if_pos ht, fun _ ho => if_pos ho, fun _ => rfl⟩

theorem epsilonPart_ratState (n : ℕ) (d : State (ℚ × ℚ) Unit) :
    EpsilonPart n 16 ratShadows (ratState n d) d where
  tmp t _ := by
    show ite (t + n < n) _ ((d.tmp (t + n - n)).map Prod.snd) = _
    rw [if_neg (by omega), Nat.add_sub_cancel]
  reg o _ := by
    show ite (o + 16 < 16) (d.reg (o + 16)).1 (d.reg (o + 16 - 16)).2 = _
    rw [if_neg (by omega), Nat.add_sub_cancel]
  mem := rfl

/-- Forward mode. -/
def dotOptions : Options := ⟨.d, false, false⟩

/-- The first register holds the number three, with epsilon part one. -/
def ratInput : State (ℚ × ℚ) Unit where
  tmp _ := List.replicate 8 (0, 0)
  reg o := if o = 0 then (3, 1) else (0, 0)
  mem _ := (0, 0)
  buf _ := (0, 0)
  tool := ()

/-- Square a register, and store the square in memory and in another register. -/
def squareBlock : IRSB where
  tyenv := [.f64, .f64]
  stmts :=
    [.iMark 0 1 0, .wrTmp 0 (.get 0 .f64),
      .wrTmp 1 (.triop (.arith .mul .f64) (.const (.u32 0)) (.rdTmp 0) (.rdTmp 0)),
      .store .le (.const (.u64 64)) (.rdTmp 1), .put 8 (.rdTmp 1)]
  next := .const (.u64 0)

/-- The square of three is stored with the derivative six. -/
theorem dgInstrument_dual_square :
    ∃ sb', dgInstrument dotOptions 16 .i64 squareBlock = some sb' ∧
    (execStmts ratMachine sb'.tyenv sb'.stmts (ratState 2 ratInput)).1.reg (8 + 16) = 6 ∧
    (execStmts ratMachine sb'.tyenv sb'.stmts (ratState 2 ratInput)).1.tool 64 = 6 := by
  have hsized : ratInput.Typed squareBlock.tyenv := by
    rintro (_ | _ | t) ty hty
    · cases hty
      rfl
    · cases hty
      rfl
    · cases hty
  obtain ⟨sb', hsb', -, hε, -⟩ := dgInstrument_dual ratNumbers ratInterp (FpSem.unused ℚ)
    (FpSem.unused (ℚ × ℚ)) ratMachine ratDualMachine ratShadows dualMachines_rat dotOptions rfl
    .i64 squareBlock ⟨by decide, by decide, by decide, by decide⟩ (ratState 2 ratInput) _ ratInput
    rfl (primalPart_ratState 2 ratInput) (epsilonPart_ratState 2 ratInput) hsized
  refine ⟨sb', hsb', (hε.reg 8 (by decide)).trans ?_, (congrFun hε.mem 64).symm.trans ?_⟩
  · decide +kernel
  · decide +kernel

/-- The shadow agrees with the epsilon part after running the whole superblock, the statements
in front of the first instruction mark included. -/
def ShadowAgrees (sb : IRSB) (d : State (ℚ × ℚ) Unit) : Prop :=
  ∃ sb', dgInstrument dotOptions 16 .i64 sb = some sb' ∧
    EpsilonPart sb.tyenv.length 16 ratShadows
      (execStmts ratMachine sb'.tyenv sb'.stmts (ratState sb.tyenv.length d)).1
      (execStmts ratDualMachine sb.tyenv sb.stmts d).1

/-- A statement without an instruction mark. -/
def unmarkedBlock : IRSB where
  tyenv := [.f64]
  stmts := [.wrTmp 0 (.get 0 .f64)]
  next := .const (.u64 0)

/-- A store in big-endian order. -/
def bigEndianBlock : IRSB where
  tyenv := [.f64]
  stmts := [.iMark 0 1 0, .wrTmp 0 (.get 0 .f64), .store .be (.const (.u64 64)) (.rdTmp 0)]
  next := .const (.u64 0)

/-- Statements in front of the first instruction mark do not change the shadow, and shadow memory
is accessed in little-endian order only. -/
theorem not_shadowAgrees : unmarkedBlock.Dual 16 .i64 ∧
    bigEndianBlock.wellFormed .i64 = true ∧ bigEndianBlock.inBounds 16 = true ∧
    ¬ ShadowAgrees unmarkedBlock ratInput ∧ ¬ ShadowAgrees bigEndianBlock ratInput := by
  refine ⟨⟨by decide, by decide, by decide, by decide⟩, by decide, by decide, ?_, ?_⟩
  · rintro ⟨sb', hsb', hε⟩
    have hcopied : dgInstrument dotOptions 16 .i64 unmarkedBlock
        = some ⟨[.f64, .f64], unmarkedBlock.stmts, unmarkedBlock.next⟩ := rfl
    obtain rfl := Option.some_inj.mp (hcopied.symm.trans hsb')
    exact absurd (congrArg (List.headD · 0) (hε.tmp 0 (by decide))) (by decide +kernel)
  · rintro ⟨sb', hsb', hε⟩
    have hshadow : (dgInstrument dotOptions 16 .i64 bigEndianBlock).map (fun sb' =>
        (execStmts ratMachine sb'.tyenv sb'.stmts (ratState 1 ratInput)).1.tool 64) = some 1 := by
      decide +kernel
    rw [hsb'] at hshadow
    have hmem : ((execStmts ratDualMachine [.f64] bigEndianBlock.stmts ratInput).1.mem 64).2
        = 0 := by
      decide +kernel
    exact absurd (hmem.symm.trans ((congrFun hε.mem 64).trans (Option.some_inj.mp hshadow)))
      (by decide)

end Rational

end Derivgrind
