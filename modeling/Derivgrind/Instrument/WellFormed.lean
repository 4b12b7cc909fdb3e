import Derivgrind.Instrument.IllTyped
import Derivgrind.Instrument.Transparent

/-!
# Instrumentation preserves well-formedness

If a superblock passes the sanity check, then so does the instrumented superblock, and
all layers of the shadow of an expression have the type of the expression, unless there is
an expression for which recording mode emits ill-typed code.

## Main definitions

* `IRSB.fromFrontend` — what is assumed about superblocks.
* `IRSB.reachesIllTyped` — there is an expression for which ill-typed code is emitted.

## Main results

* `dgInstrument_wellFormed_iff` — **exactly then well-formedness is preserved.**
-/

namespace Derivgrind

open Emitter.Meaning

/-- The temporaries that are assigned before the first instruction mark. -/
def IRSB.preambleDefs (sb : IRSB) : List IRTemp := sb.preamble.flatMap IRStmt.defs

/-- Superblocks as they come from the front ends: statements of other kinds do not occur, and
no temporary of the preamble is read after it. -/
def IRSB.fromFrontend (sb : IRSB) : Prop :=
  ∀ st ∈ sb.marked, st.emitted = true ∧ ∀ t ∈ st.reads, t ∉ sb.preambleDefs

/-- There is an expression for which ill-typed code is emitted. -/
def IRSB.reachesIllTyped (o : Options) (sb : IRSB) : Prop :=
  ∃ st ∈ sb.marked, ∃ e ∈ st.modified, e.reachesIllTyped o = true

/-- The layers of the shadows of all expressions have the type of the expression, wherever
the code for the shadow is inserted. -/
def IRSB.shadowsTyped (o : Options) (gsOffset : ℕ) (wordTy : IRType) (sb : IRSB) : Prop :=
  ∀ st ∈ sb.marked, ∀ e ∈ st.modified, ∀ ty, typeOfIRExpr sb.tyenv e = some ty →
    ∀ env shadow tys sts, shadowedTyenv o.expressionhandling.layers sb.tyenv <+: env →
      dgModifyExpressionOrDefault o.expressionhandling ⟨sb.tyenv.length, gsOffset, wordTy⟩ e env =
        some (shadow, tys, sts) →
      shadow.length = o.expressionhandling.layers ∧
        ∀ layer ∈ shadow, typeOfIRExpr (env ++ tys) layer = some ty

section Check

variable {env : List IRType} {w : IRType}

/-! ### Everything a successful check of a superblock tells -/

theorem checkStmts_cons {D D' : List IRTemp} {st : IRStmt} {sts : List IRStmt}
    (h : checkStmts env w D (st :: sts) = some D') :
    ∃ D₁, checkStmt env w D st = some D₁ ∧ checkStmts env w D₁ sts = some D' := by
  unfold checkStmts at h ⊢
  rw [List.foldlM_cons] at h
  exact Option.bind_eq_some_iff.mp h

theorem checkStmts_eq_append {sts : List IRStmt} : ∀ {D D' : List IRTemp},
    checkStmts env w D sts = some D' → D' = D ++ sts.flatMap IRStmt.defs := by
  induction sts with
  | nil =>
    intro D D' h
    rw [List.flatMap_nil, List.append_nil]
    exact (Option.some_inj.mp h).symm
  | cons st sts ih =>
    intro D D' h
    obtain ⟨D₁, hst, hsts⟩ := checkStmts_cons h
    obtain ⟨-, -, -, -, rfl⟩ := checkStmt_eq_some hst
    rw [ih hsts, List.flatMap_cons, List.append_assoc]

/-- All statements pass the type check, and read temporaries that exist. -/
theorem checkStmts_mem {sts : List IRStmt} : ∀ {D D' : List IRTemp},
    checkStmts env w D sts = some D' → Bounded env D →
      Bounded env D' ∧ ∀ st ∈ sts, tcStmt env w st = true ∧ ∀ t : ℕ, t ∈ st.reads → t < env.length := by
  induction sts with
  | nil =>
    intro D D' h hb
    rw [← Option.some_inj.mp h]
    exact ⟨hb, by simp⟩
  | cons st sts ih =>
    intro D D' h hb
    obtain ⟨D₁, hst, hsts⟩ := checkStmts_cons h
    obtain ⟨htc, hreads, -, -, rfl⟩ := checkStmt_eq_some hst
    have hb₁ : Bounded env (D ++ st.defs) := by
      intro t ht
      exact (List.mem_append.mp ht).elim (hb t) (lt_of_mem_defs htc t)
    obtain ⟨hb', hrest⟩ := ih hsts hb₁
    refine ⟨hb', ?_⟩
    intro st' hst'
    rcases List.mem_cons.mp hst' with rfl | hst'
    · exact ⟨htc, fun t ht => hb t (hreads t ht)⟩
    · exact hrest st' hst'

/-- The expressions whose shadow is formed pass the type check. -/
theorem hasTy_of_mem_modified {st : IRStmt} (htc : tcStmt env w st = true) {e : IRExpr}
    (he : e ∈ st.modified) {ty : IRType} (hty : typeOfIRExpr env e = some ty) :
    e ∈ st.exprs ∧ hasTy env w e ty = true := by
  have hexpr : ∀ {e : IRExpr} {ty' : IRType}, hasTy env w e ty' = true → tcExpr env w e = true := by
    intro e ty' h
    unfold hasTy at h
    exact (Bool.and_eq_true _ _ ▸ h).1
  have hdata : ∀ {e : IRExpr}, isData env w e = true → tcExpr env w e = true := by
    intro e h
    simp only [isData, Bool.and_eq_true] at h
    exact h.1.1
  -- The type is the one that the expression has, so only `tcExpr` is left.
  suffices h : e ∈ st.exprs ∧ tcExpr env w e = true by
    exact ⟨h.1, by simp [hasTy, h.2, hty]⟩
  cases st with
  | wrTmp tmp data =>
    simp only [tcStmt, Bool.and_eq_true] at htc
    rw [List.mem_singleton.mp he]
    exact ⟨by simp [IRStmt.exprs], htc.1.1⟩
  | put offset data =>
    rw [List.mem_singleton.mp he]
    exact ⟨by simp [IRStmt.exprs], hdata htc⟩
  | putI descr ix bias data =>
    simp only [tcStmt, Bool.and_eq_true] at htc
    rw [List.mem_singleton.mp he]
    exact ⟨by simp [IRStmt.exprs], hdata htc.1.1⟩
  | store endness addr data =>
    simp only [tcStmt, Bool.and_eq_true] at htc
    rw [List.mem_singleton.mp he]
    exact ⟨by simp [IRStmt.exprs], hdata htc.2⟩
  | storeG endness addr data guard =>
    simp only [tcStmt, Bool.and_eq_true] at htc
    rw [List.mem_singleton.mp he]
    exact ⟨by simp [IRStmt.exprs], hdata htc.1.2⟩
  | loadG endness cvt dst addr alt guard =>
    simp only [tcStmt, Bool.and_eq_true] at htc
    rw [List.mem_singleton.mp he]
    exact ⟨by simp [IRStmt.exprs], hexpr htc.1.2⟩
  | cas d =>
    simp only [tcStmt, Bool.and_eq_true, List.any_eq_true] at htc
    obtain ⟨-, ty', -, hlo, hhi⟩ := htc
    simp only [tcCAS, Bool.and_eq_true] at hlo
    simp only [IRStmt.modified, List.cons_append, List.nil_append, List.mem_cons, List.mem_append,
      Option.mem_toList] at he
    -- Expected values and data, for one or two elements.
    rcases he with rfl | rfl | he | he
    · exact ⟨by simp [IRStmt.exprs], hexpr hlo.1.2⟩
    · exact ⟨by simp [IRStmt.exprs], hexpr hlo.2⟩
    · refine ⟨by simp [IRStmt.exprs, Option.mem_def.mp he], ?_⟩
      split at hhi
      · rename_i hexpd _
        rw [hexpd] at he
        cases he
      · rename_i hold hexpd hdata
        simp only [tcCAS, Bool.and_eq_true] at hhi
        rw [hexpd] at he
        obtain rfl := Option.some_inj.mp he
        exact hexpr hhi.1.2
      · cases hhi
    · refine ⟨by simp [IRStmt.exprs, Option.mem_def.mp he], ?_⟩
      split at hhi
      · rename_i _ hdata
        rw [hdata] at he
        cases he
      · rename_i hold hexpd hdata
        simp only [tcCAS, Bool.and_eq_true] at hhi
        rw [hdata] at he
        obtain rfl := Option.some_inj.mp he
        exact hexpr hhi.2
      · cases hhi
  | dirty d =>
    simp only [tcStmt, Bool.and_eq_true, List.all_eq_true] at htc
    -- Only the number stored by `storeF80le` is looked at.
    have hmem : e ∈ d.args := by
      simp only [IRStmt.modified] at he
      split at he
      · exact List.mem_of_getElem? (Option.mem_toList.mp he)
      · cases he
    refine ⟨List.mem_cons_of_mem _ hmem, ?_⟩
    have harg := htc.1.2 e hmem
    cases e with
    | vecret => cases hty
    | gsptr => cases hty
    | _ => exact hdata harg
  | _ => cases he

end Check

/-! ### Superblocks -/

section Blocks

variable {o : Options} {gsOffset : ℕ} {wordTy : IRType} {sb sb' : IRSB}

/-- What a well-formed superblock consists of. -/
theorem IRSB.wellFormed_inv (h : sb.wellFormed wordTy = true) : ∃ D,
    checkStmts sb.tyenv wordTy [] sb.stmts = some D ∧ Typed sb.tyenv wordTy D sb.next wordTy := by
  unfold IRSB.wellFormed at h
  split at h
  · rename_i D hcheck
    rw [Bool.and_eq_true, List.all_eq_true] at h
    exact ⟨D, hcheck, Typed.of_hasTy h.1 fun t ht => of_decide_eq_true (h.2 t ht)⟩
  · cases h

theorem IRSB.wellFormed_of {D : List IRTemp} (h : checkStmts sb.tyenv wordTy [] sb.stmts = some D)
    (hnext : Typed sb.tyenv wordTy D sb.next wordTy) : sb.wellFormed wordTy = true := by
  unfold IRSB.wellFormed
  rw [h]
  simp only [Bool.and_eq_true, List.all_eq_true, decide_eq_true_eq]
  exact ⟨hnext.hasTy, hnext.reads⟩

theorem context_expressionhandling (o : Options) (gsOffset : ℕ) (tyenv : List IRType)
    (hw : wordTy = .i32 ∨ wordTy = .i64) :
    Context o.expressionhandling ⟨tyenv.length, gsOffset, wordTy⟩ o tyenv wordTy :=
  ⟨wellTyped_expressionhandling o, rfl, rfl, hw⟩

/-- The invariant holds when the preamble has been copied. -/
theorem tracks_preamble {layers : ℕ} {D : List IRTemp}
    (h : Bounded sb.tyenv D) : Tracks layers sb.tyenv D D (shadowedTyenv layers sb.tyenv) D := by
  have hle : sb.tyenv.length ≤ (shadowedTyenv layers sb.tyenv).length := by
    rw [length_shadowedTyenv]
    exact Nat.le_mul_of_pos_left _ (by omega)
  refine ⟨List.prefix_refl _, fun t ht => Nat.lt_of_lt_of_le (h t ht) hle, fun _ ht => ht,
    fun t ht hpre => absurd ht hpre, fun t ht _ => ht, ?_⟩
  intro t hlt t' ht' hD
  have := (bound_shadowTmps hlt ht').1
  have := h t' hD
  omega

/-- All statements keep the invariant. -/
theorem wpt_instrumentStmts {eh : ExpressionHandling} {denv : DiffEnv} {tyenv : List IRType}
    {w : IRType} (c : Context eh denv o tyenv w) (pre : List IRTemp) :
    ∀ (sts : List IRStmt) {D₀ D₁ D : List IRTemp} {env : List IRType},
      checkStmts tyenv w D₀ sts = some D₁ →
      (∀ st ∈ sts, st.emitted = true ∧ (∀ t ∈ st.reads, t ∉ pre) ∧
        ∀ e ∈ st.modified, e.reachesIllTyped o = false) →
      Tracks eh.layers tyenv pre D₀ env D →
      (checkMeaning w).wp (Emitter.mapList (dgInstrumentStmt eh denv) sts) env D fun _ env' D' =>
        Tracks eh.layers tyenv pre D₁ env' D' := by
  intro sts
  induction sts with
  | nil =>
    intro D₀ D₁ D env hcheck _ ht
    obtain rfl := Option.some_inj.mp hcheck
    exact wp_pure ht
  | cons st sts ih =>
    intro D₀ D₁ D env hcheck hok ht
    obtain ⟨D₂, hst, hsts⟩ := checkStmts_cons hcheck
    obtain ⟨htc, hreads, hdefs, hnodup, rfl⟩ := checkStmt_eq_some hst
    obtain ⟨hemitted, hmarked, hlegal⟩ := hok st List.mem_cons_self
    apply wp_bind
    apply wp_mono (wpt_dgInstrumentStmt c ht ⟨htc, hreads, hdefs, hnodup, hmarked, hemitted, hlegal⟩)
    intro _ env' D' ht'
    apply wp_bind
    apply wp_mono (ih hsts (fun st' hst' => hok st' (List.mem_cons_of_mem st hst')) ht')
    intro _ env'' D'' ht''
    exact wp_pure ht''

/-- Well-formedness is preserved. -/
theorem wellFormed_dgInstrument (hw : wordTy = .i32 ∨ wordTy = .i64)
    (hwf : sb.wellFormed wordTy = true) (hsb : sb.fromFrontend)
    (hout : dgInstrument o gsOffset wordTy sb = some sb') (hill : ¬sb.reachesIllTyped o) :
    sb'.wellFormed wordTy = true := by
  obtain ⟨us, tys, sts, hmap, rfl⟩ := dgInstrument_eq_some hout
  obtain ⟨D₁, hcheck, hnext⟩ := IRSB.wellFormed_inv hwf
  rw [← sb.preamble_append_marked, checkStmts_append] at hcheck
  obtain ⟨D₀, hpre, hmarked⟩ := Option.bind_eq_some_iff.mp hcheck
  have hdefs : D₀ = sb.preambleDefs := checkStmts_eq_append hpre
  have hb := (checkStmts_mem hpre (by simp [Bounded])).1
  have hrun := wpt_instrumentStmts (context_expressionhandling o gsOffset sb.tyenv hw) D₀
    sb.marked hmarked ?_ (tracks_preamble hb)
  · obtain ⟨D', hrel, ht⟩ := hrun.ends us tys sts hmap
    obtain ⟨tys', htys'⟩ : sb.tyenv <+: shadowedTyenv o.expressionhandling.layers sb.tyenv ++ tys :=
      (List.prefix_append _ _).trans ht.declared
    have hpre' := checkStmts_mono tys' hpre
    have hnext' := hnext.mono tys' ht.assigned
    rw [htys'] at hpre' hnext'
    apply IRSB.wellFormed_of (D := D') _ hnext'
    show checkStmts _ wordTy [] (sb.preamble ++ sts) = some D'
    rw [checkStmts_append]
    exact Option.bind_eq_some_iff.mpr ⟨D₀, hpre', hrel⟩
  · intro st hst
    obtain ⟨hemitted, hreads⟩ := hsb st hst
    refine ⟨hemitted, by rwa [hdefs], ?_⟩
    intro e he
    by_contra hne
    exact hill ⟨st, hst, e, he, by simpa using hne⟩

/-- The layers of shadows have the right type. -/
theorem shadowsTyped_of_wellFormed (hw : wordTy = .i32 ∨ wordTy = .i64)
    (hwf : sb.wellFormed wordTy = true) (hill : ¬sb.reachesIllTyped o) :
    sb.shadowsTyped o gsOffset wordTy := by
  intro st hst e he ty hty env shadow tys sts henv hout
  obtain ⟨D₁, hcheck, -⟩ := IRSB.wellFormed_inv hwf
  have hst' : st ∈ sb.stmts := (List.dropWhile_suffix _).subset hst
  obtain ⟨htc, hreads⟩ := (checkStmts_mem hcheck (by simp [Bounded])).2 st hst'
  obtain ⟨hexprs, hasty⟩ := hasTy_of_mem_modified htc he hty
  have hlt : ∀ t ∈ e.reads, t < sb.tyenv.length := fun t ht =>
    hreads t (IRExpr.mem_allReads hexprs t ht)
  have hlen := henv.length_le
  rw [length_shadowedTyenv] at hlen
  have hle : sb.tyenv.length ≤ (o.expressionhandling.layers + 1) * sb.tyenv.length :=
    Nat.le_mul_of_pos_left _ (by omega)
  -- all temporaries have been assigned
  have hread : Readable o.expressionhandling.layers sb.tyenv wordTy (List.range env.length) e ty := by
    refine ⟨Typed.of_hasTy hasty fun t ht => ?_, fun t ht k hk => ?_⟩
    · exact List.mem_range.mpr (Nat.lt_of_lt_of_le (hlt t ht) (Nat.le_trans hle hlen))
    · exact List.mem_range.mpr (Nat.lt_of_lt_of_le
        (bound_shadowTmps (hlt t ht) (mem_shadowTmps.mpr ⟨k, hk, rfl⟩)).2 hlen)
  have hlegal : e.reachesIllTyped o = false := by
    by_contra hne
    exact hill ⟨st, hst, e, he, by simpa using hne⟩
  have hwp := wpt_dgModifyExpressionOrDefault
    (context_expressionhandling o gsOffset sb.tyenv hw) henv (fun t ht => List.mem_range.mp ht) hread
    hlegal
  obtain ⟨D', -, -, hlen', htyped⟩ := hwp.ends shadow tys sts hout
  exact ⟨hlen', fun layer hlayer => (htyped layer hlayer).type⟩

/-- An ill-typed statement is emitted. -/
theorem not_wellFormed_dgInstrument (hwf : sb.wellFormed wordTy = true)
    (hout : dgInstrument o gsOffset wordTy sb = some sb') (hill : sb.reachesIllTyped o) :
    ¬sb'.wellFormed wordTy = true := by
  obtain ⟨st, hst, e, he, hill⟩ := hill
  have hmode : o.mode = .b := by
    by_contra hne
    rw [reachesIllTyped_of_ne hne e] at hill
    cases hill
  have heh : o.expressionhandling = dgBarExpressionhandling o := by
    rw [Options.expressionhandling, hmode]
  obtain ⟨us, tys, sts, hmap, rfl⟩ := dgInstrument_eq_some hout
  obtain ⟨D₁, hcheck, -⟩ := IRSB.wellFormed_inv hwf
  have htc := ((checkStmts_mem hcheck (by simp [Bounded])).2 st
    ((List.dropWhile_suffix _).subset hst)).1
  rw [heh] at hmap
  obtain ⟨-, hemits⟩ := reaches_mapList hst (reaches_dgInstrumentStmt htc) _ us tys sts hmap
  obtain ⟨st', hst', hill'⟩ := hemits ⟨e, he, hill⟩
  intro hwf'
  obtain ⟨D', hcheck', -⟩ := IRSB.wellFormed_inv hwf'
  have htc' := ((checkStmts_mem hcheck' (by simp [Bounded])).2 st'
    (List.mem_append_right sb.preamble hst')).1
  rw [hill'] at htc'
  cases htc'

/-- **Well-formedness is preserved exactly if** there is no expression for which ill-typed
code is emitted. -/
theorem dgInstrument_wellFormed_iff (o : Options) (gsOffset : ℕ) (wordTy : IRType) (sb sb' : IRSB)
    (hw : wordTy = .i32 ∨ wordTy = .i64) (hwf : sb.wellFormed wordTy = true)
    (hsb : sb.fromFrontend) (hout : dgInstrument o gsOffset wordTy sb = some sb') :
    (sb'.wellFormed wordTy = true ∧ sb.shadowsTyped o gsOffset wordTy) ↔
      ¬sb.reachesIllTyped o := by
  constructor
  · rintro ⟨hwf', -⟩ hill
    exact not_wellFormed_dgInstrument hwf hout hill hwf'
  · intro hill
    exact ⟨wellFormed_dgInstrument hw hwf hsb hout hill, shadowsTyped_of_wellFormed hw hwf hill⟩

/-- `Iop_MAddF32` as it is emitted for `vfmadd213ss`. -/
def fmaBlock : IRSB where
  tyenv := [.f32, .f32]
  stmts := [.iMark 0 5 0, .wrTmp 0 (.get 224 .f32),
    .wrTmp 1 (.qop (.fma false .f32) (.const (.u32 0)) (.rdTmp 0) (.rdTmp 0) (.rdTmp 0)),
    .put 224 (.rdTmp 1)]
  next := .const (.u64 5)

/-- Without values, the superblock is instrumented correctly. -/
theorem dgInstrument_wellFormed_iff_fmaBlock :
    ∃ sb', dgInstrument ⟨.b, false, false⟩ 1024 .i64 fmaBlock = some sb' ∧
      ((sb'.wellFormed .i64 = true ∧ fmaBlock.shadowsTyped ⟨.b, false, false⟩ 1024 .i64) ↔
        ¬fmaBlock.reachesIllTyped ⟨.b, false, false⟩) ∧
      ¬fmaBlock.reachesIllTyped ⟨.b, false, false⟩ :=
  ⟨_, rfl, dgInstrument_wellFormed_iff ⟨.b, false, false⟩ 1024 .i64 fmaBlock _ (Or.inr rfl)
    (by decide) (by unfold IRSB.fromFrontend; decide) rfl, by unfold IRSB.reachesIllTyped; decide⟩

/-- With `--record-values=yes`, the instrumented superblock is ill-typed. -/
theorem not_wellFormed_fmaBlock : fmaBlock.wellFormed .i64 = true ∧ fmaBlock.fromFrontend ∧
    ∃ sb', dgInstrument ⟨.b, false, true⟩ 1024 .i64 fmaBlock = some sb' ∧
      sb'.wellFormed .i64 = false :=
  ⟨by decide, by unfold IRSB.fromFrontend; decide, _, rfl, by decide⟩

end Blocks

end Derivgrind
