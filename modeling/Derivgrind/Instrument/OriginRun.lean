import Derivgrind.Instrument.OriginStmts
import Derivgrind.Instrument.WellFormed

/-!
# Origins in superblocks

The superblock that recording mode makes of a superblock of the client is run alongside the one of
the client.  After each statement, the shadow follows the origins of the bytes.

## Main definitions

* `IRSB.Tracked` — the superblocks that are covered.
* `RunHolds` — both runs have ended, and the shadow follows the origins.

## Main results

* `execStmt_client` — original statements do the same as without Derivgrind.
* `dgInstrumentStmt_origins` — one statement, and the code in front of it.
* `execStmts_origins` — the statements of a superblock.
* `dgInstrument_origins` — **the shadow follows the origins in instrumented superblocks.**
-/

namespace Derivgrind

open Emitter.Meaning

/-! ### Superblocks that are covered -/

/-- A flat superblock without compare-and-swap, which begins with an instruction mark, and for which
no ill-typed code is emitted. -/
structure IRSB.Tracked (o : Options) (sb : IRSB) (g : ℕ) (w : IRType) : Prop where
  wellFormed : sb.wellFormed w = true
  inBounds : sb.inBounds g = true
  tracked : ∀ st ∈ sb.stmts, st.isTracked sb.tyenv = true
  regsFit : ∀ st ∈ sb.stmts, st.regsFit sb.tyenv g = true
  legal : ∀ st ∈ sb.stmts, ∀ e ∈ st.modified, e.reachesIllTyped o = false
  preamble : sb.preamble = []

/-- Statements do not read the temporaries that they assign. -/
theorem checkStmts_fresh {tyenv : List IRType} {w : IRType} {sts : List IRStmt} :
    ∀ {D₁ D₂ : List IRTemp}, checkStmts tyenv w D₁ sts = some D₂ →
      ∀ st ∈ sts, ∀ t ∈ st.defs, t ∉ st.reads := by
  induction sts with
  | nil => exact fun _ _ hst => absurd hst List.not_mem_nil
  | cons st sts ih =>
    intro D₁ D₂ h st' hst' t hdef hread
    obtain ⟨D', hst, hsts⟩ := checkStmts_cons h
    rcases List.mem_cons.mp hst' with rfl | hrest
    · obtain ⟨-, hreads, hfresh, -, -⟩ := checkStmt_eq_some hst
      exact hfresh t hdef (hreads t hread)
    · exact ih hsts st' hrest t hdef hread

theorem IRSB.Tracked.stmt {o : Options} {sb : IRSB} {g : ℕ} {w : IRType} (h : sb.Tracked o g w) :
    ∀ st ∈ sb.stmts, st.Tracked o sb.tyenv g w := by
  intro st hst
  obtain ⟨D₁, hcheck, -⟩ := IRSB.wellFormed_inv h.wellFormed
  have hbounds := h.inBounds
  rw [IRSB.inBounds, Bool.and_eq_true, List.all_eq_true] at hbounds
  obtain ⟨htc, hreads⟩ := (checkStmts_mem hcheck (by simp [Bounded])).2 st hst
  exact ⟨h.tracked st hst, hbounds.1 st hst, htc, h.regsFit st hst, hreads,
    checkStmts_fresh hcheck st hst, h.legal st hst⟩

section Run

variable {c : RecordingContext} {F : FpSem Byte} {J : Interp Byte} {tid : ThreadId}
  {W : Numbering} {tyenv tyenv' env tys : List IRType} {g : ℕ} {s : State Byte BarTool}
  {p p' : State Byte Unit} {d d' : Origins} {w : IRType} {st : IRStmt} {out : List IRStmt}

theorem isCAS_of_tracked (h : st.isTracked tyenv = true) : st.isCAS = false := by
  cases st <;> first | rfl | cases h

/-! ### Original statements -/

/-- **Original statements** do the same as without Derivgrind: they do not call functions of the
tool. -/
theorem execStmt_client (tid : ThreadId) (hfits : st.inBounds tyenv.length g = true) (hcas : st.isCAS = false)
    (tyenv' : List IRType) (s : State Byte BarTool) : execStmt c.base tyenv' st s.client
      = ((execStmt (c.machine tid) tyenv' st s).1.client,
        (execStmt (c.machine tid) tyenv' st s).2) := by
  have heval : ∀ e, evalExpr c.base.toInterp s.client e = evalExpr (c.machine tid).toInterp s e :=
    evalExpr_client c.base.toInterp s
  have htrue : (c.machine tid).isTrue = c.base.isTrue := rfl
  cases st with
  | noOp => rfl
  | iMark addr len delta => rfl
  | abiHint base len nia => rfl
  | mbe => rfl
  | put offset data =>
    rw [execStmt, execStmt, heval]
    rfl
  | putI descr ix bias data =>
    rw [execStmt, execStmt, heval, heval]
    rfl
  | wrTmp tmp data =>
    rw [execStmt, execStmt, heval]
    rfl
  | store endness addr data =>
    rw [execStmt, execStmt, State.storeAt, State.storeAt, heval, heval]
    split <;> rfl
  | storeG endness addr data guard =>
    rw [execStmt, execStmt, State.storeAt, State.storeAt, heval, heval, heval, htrue]
    split
    · split <;> rfl
    · rfl
  | loadG endness cvt dst addr alt guard =>
    rw [execStmt, execStmt, heval, heval, heval, htrue]
    split
    · cases cvt <;> rfl
    · rfl
  | llsc endness result addr data =>
    cases data with
    | none =>
      rw [execStmt, execStmt, heval]
      rfl
    | some data =>
      have haddr : (c.machine tid).addr = c.base.addr := rfl
      have hsucceeds : (c.machine tid).storeSucceeds = c.base.storeSucceeds := rfl
      rw [execStmt, execStmt, heval, heval, haddr, hsucceeds, show s.client.mem = s.mem from rfl]
      dsimp only
      split <;> rfl
  | dirty details =>
    simp only [IRStmt.inBounds, Bool.and_eq_true] at hfits
    rw [execStmt, execStmt, execDirty, execDirty, heval, htrue]
    split
    · cases hcee : details.cee with
      | guest name =>
        rw [evalExprs_client]
        cases details.tmp <;> rfl
      | tool helper =>
        rw [hcee] at hfits
        exact absurd hfits.2 Bool.false_ne_true
    · cases details.tmp <;> rfl
  | exit guard jk dst offsIP =>
    rw [execStmt, execStmt, heval, htrue]
    split <;> rfl
  | cas details => cases hcas

/-- Only the temporaries that a statement assigns change. -/
theorem execStmt_tmp {M : Machine Byte Unit} {p : State Byte Unit} (hcas : st.isCAS = false)
    {t : IRTemp} (ht : t ∉ st.defs) : (execStmt M tyenv st p).1.tmp t = p.tmp t := by
  have hset : ∀ {tmp : IRTemp} {v : List Byte}, t ≠ tmp → (p.setTmp tmp v).tmp t = p.tmp t :=
    fun hne => Function.update_of_ne hne _ _
  cases st with
  | wrTmp tmp data => exact hset (by simpa [IRStmt.defs] using ht)
  | loadG endness cvt dst addr alt guard =>
    rw [execStmt]
    split
    · exact hset (by simpa [IRStmt.defs] using ht)
    · exact hset (by simpa [IRStmt.defs] using ht)
  | llsc endness result addr data =>
    have hne : t ≠ result := by simpa [IRStmt.defs] using ht
    cases data with
    | none => exact hset hne
    | some data =>
      rw [execStmt]
      dsimp only
      split
      · exact hset hne
      · exact hset hne
  | dirty details =>
    have hset? : ∀ v : List Byte, (p.setTmp? details.tmp v).tmp t = p.tmp t := by
      intro v
      cases hd : details.tmp with
      | none => rfl
      | some tmp => exact hset (by simpa [IRStmt.defs, hd, eq_comm] using ht)
    rw [execStmt, execDirty]
    split
    · cases details.cee with
      | guest name => exact hset? _
      | tool helper => exact hset? _
    · exact hset? _
  | store endness addr data =>
    rw [execStmt, State.storeAt]
    split <;> rfl
  | storeG endness addr data guard =>
    rw [execStmt, State.storeAt]
    split
    · split <;> rfl
    · rfl
  | exit guard jk dst offsIP =>
    rw [execStmt]
    split <;> rfl
  | cas details => cases hcas
  | _ => rfl

theorem typed_of_sized {M : Machine Byte Unit} (htyped : p.Typed tyenv) (hcas : st.isCAS = false)
    (hsized : st.sized tyenv (execStmt M tyenv st p).1 = true) :
    (execStmt M tyenv st p).1.Typed tyenv := by
  intro t ty hty
  by_cases ht : t ∈ st.defs
  · have hlen := of_decide_eq_true (List.all_eq_true.mp hsized t ht)
    rwa [hty] at hlen
  · rw [execStmt_tmp hcas ht]
    exact htyped t ty hty

/-- Both runs have ended, and the shadow follows the origins. -/
structure RunHolds (W : Numbering) (tyenv : List IRType) (g : ℕ) (s : State Byte BarTool)
    (p : State Byte Unit) (d : Origins) : Prop where
  origins : OriginsHold W tyenv g s d
  client : PrimalEq tyenv.length g s.client p

/-- **The original statement**, when the code for it has been run. -/
theorem OriginState.execStmt (h : OriginState W tyenv c.base.guestSize env s p d)
    (hV : c.base.toInterp.IsVex F) (hst : st.Tracked c.options tyenv c.base.guestSize w)
    (htyenv : tyenv <+: tyenv') :
    RunHolds W tyenv c.base.guestSize (Derivgrind.execStmt (c.machine tid) tyenv' st s).1
        (Derivgrind.execStmt c.base tyenv st p).1 d ∧
      (Derivgrind.execStmt (c.machine tid) tyenv' st s).2
        = (Derivgrind.execStmt c.base tyenv st p).2 := by
  have hcas := isCAS_of_tracked hst.tracked
  obtain ⟨hclient, hexit⟩ := execStmt_primalEq htyenv hst.inBounds hcas h.client
  rw [execStmt_client tid hst.inBounds hcas] at hclient hexit
  have hguest : (c.machine tid).guestSize ≤ c.base.guestSize := le_rfl
  have hframe : ShadowFrame tyenv.length c.base.guestSize s
      (Derivgrind.execStmt (c.machine tid) tyenv' st s).1 := by
    refine execStmt_shadowFrame (fun _ _ => hguest) hst.inBounds hst.tc hst.regsFit hcas ?_ ?_ ?_
      tyenv'
    · rintro offset data rfl
      exact hst.tracked
    · rintro descr ix bias data rfl
      exact ((Bool.and_eq_true _ _).mp hst.tracked).2
    · intro e ty hatom hfits hty
      have hvalue := h.hasValue_atom hV hatom hfits hty
      have heval : evalExpr (c.machine tid).toInterp s e = evalExpr c.base.toInterp p e :=
        hvalue.eval
      rw [heval]
      exact hvalue.length
  exact ⟨⟨h.toOriginsHold.of_frame hframe, hclient⟩, hexit⟩

/-! ### Statements -/

section Statements

variable (hbase : c.base.toInterp = hostInterp F J) (hI : c.base.toInterp.Integers)
  (htype : c.tape.typegrind = false) (hram : c.tape.tapeInRam = false) (tid)

include hbase hI htype hram

/-- **One statement**, and the code in front of it. -/
theorem dgInstrumentStmt_origins (hw : w = .i32 ∨ w = .i64)
    (h : OriginState W tyenv c.base.guestSize env s p d)
    (hst : st.Tracked c.options tyenv c.base.guestSize w)
    (hd : st.origins c.base.toInterp tyenv p d = some d') {u : Unit}
    (hout : dgInstrumentStmt (dgBarExpressionhandling c.options)
      ⟨tyenv.length, c.base.guestSize, w⟩ st env = some (u, tys, out))
    (htyenv : tyenv <+: tyenv') :
    ∃ pre s₁ W', out = pre ++ [st] ∧ execStmts (c.machine tid) tyenv' pre s = (s₁, none) ∧
      W.Grows W' ∧
      RunHolds W' tyenv c.base.guestSize (Derivgrind.execStmt (c.machine tid) tyenv' st s₁).1
        (Derivgrind.execStmt c.base tyenv st p).1 d' ∧
      (Derivgrind.execStmt (c.machine tid) tyenv' st s₁).2
        = (Derivgrind.execStmt c.base tyenv st p).2 := by
  have hcas := isCAS_of_tracked hst.tracked
  obtain ⟨cas, tys₁, pre, tys₂, post, hpre, hpost, rfl, rfl⟩ := Emitter.bind_eq_some hout
  have hwp : (execMeaning (c.machine tid)).wp (addStatementModified
      (dgBarExpressionhandling c.options) ⟨tyenv.length, c.base.guestSize, w⟩ st) env s
      (StatementHolds W tyenv c.base.guestSize d' env) :=
    wp_addStatement_origins hbase hI htype hram hw h hst hd
  obtain ⟨s₁, hrun, rfl, -, W', hgrows, hholds⟩ := hwp.ends cas tys₁ pre hpre
  -- the inserted code leaves the client alone
  have htransparent : (dgBarExpressionhandling c.options).Transparent
      ⟨tyenv.length, c.base.guestSize, w⟩ tyenv.length c.base.guestSize :=
    transparent_bar c.options rfl rfl
  obtain ⟨_, hsilent, -, -⟩ := (shadowOnly_addStatementModified htransparent hcas env
    h.prefixed.length_le).ends _ tys₁ pre hpre
  obtain ⟨s₂, hexec, heq⟩ := execStmts_shadowOnly (c.machine tid) env pre hsilent s
  obtain rfl : s₁ = s₂ := congrArg Prod.fst ((hrun env).symm.trans hexec)
  have hsame : PrimalEq tyenv.length c.base.guestSize s₁.client s.client :=
    ⟨heq.tmp, heq.reg, heq.mem⟩
  have horig : dgOriginalStatement st none = addStmt st := by
    cases st <;> rfl
  rw [horig] at hpost
  obtain ⟨-, -, rfl⟩ : () = u ∧ [] = tys₂ ∧ [st] = post := by
    simpa only [Prod.mk.injEq] using Option.some_inj.mp hpost
  have hnext : OriginState W' tyenv c.base.guestSize env s₁ p d' :=
    ⟨hholds, h.declared, hsame.trans h.client, h.typed⟩
  exact ⟨pre, s₁, W', rfl, hrun tyenv', hgrows, hnext.execStmt (c.isVex hbase tid) hst htyenv⟩

/-- **The statements of a superblock**, by induction on the statements: after each of them, the shadow
follows the origins. -/
theorem execStmts_origins (hw : w = .i32 ∨ w = .i64) (htyenv : tyenv <+: tyenv') :
    ∀ {sts out : List IRStmt} {env tys : List IRType} {us : List Unit} {W : Numbering}
      {s : State Byte BarTool} {p p' : State Byte Unit} {d d' : Origins},
    OriginState W tyenv c.base.guestSize env s p d →
    (∀ st ∈ sts, st.Tracked c.options tyenv c.base.guestSize w) →
    runOrigins c.base tyenv sts p d = some (p', d') →
    Emitter.mapList (dgInstrumentStmt (dgBarExpressionhandling c.options)
      ⟨tyenv.length, c.base.guestSize, w⟩) sts env = some (us, tys, out) →
    ∃ W', W.Grows W' ∧
      RunHolds W' tyenv c.base.guestSize (execStmts (c.machine tid) tyenv' out s).1 p' d' := by
  intro sts
  induction sts with
  | nil =>
    intro out env tys us W s p p' d d' h _ hd hout
    obtain ⟨rfl, rfl⟩ := Prod.mk.inj (Option.some.inj hd)
    obtain ⟨-, -, rfl⟩ : [] = us ∧ [] = tys ∧ [] = out := by
      simpa only [Prod.mk.injEq] using Option.some_inj.mp hout
    exact ⟨W, Numbering.Grows.refl W, h.toOriginsHold, h.client⟩
  | cons st sts ih =>
    intro out env tys us W s p p' d d' h hsts hd hout
    have hst := hsts st List.mem_cons_self
    obtain ⟨u, tys₁, out₁, tys₂, out₂, hemit, hrest, rfl, rfl⟩ := Emitter.bind_eq_some hout
    obtain ⟨us', tys₃, out₃, tys₄, out₄, hemits, hpure, rfl, rfl⟩ := Emitter.bind_eq_some hrest
    obtain ⟨-, -, rfl⟩ : u :: us' = us ∧ [] = tys₄ ∧ [] = out₄ := by
      simpa only [Prod.mk.injEq] using Option.some_inj.mp hpure
    obtain ⟨d₁, hd₁, hd⟩ := Option.bind_eq_some_iff.mp hd
    obtain ⟨pre, s₁, W₁, rfl, hpre, hgrows, hholds, hexit⟩ :=
      dgInstrumentStmt_origins tid hbase hI htype hram hw h hst hd₁ hemit htyenv
    rw [List.append_nil, List.append_assoc, execStmts_append, hpre, List.singleton_append]
    simp only [execStmts]
    rcases h₁ : execStmt (c.machine tid) tyenv' st s₁ with ⟨s₂, _ | e⟩ <;>
      rcases h₂ : execStmt c.base tyenv st p with ⟨p₂, _ | e'⟩ <;>
      rw [h₁, h₂] at hexit hholds <;> rw [h₂] at hd
    · -- the statements behind it
      dsimp only at hd
      split at hd
      · next hsized =>
        have htyped : p₂.Typed tyenv := by
          have htyped := typed_of_sized (M := c.base) h.typed (isCAS_of_tracked hst.tracked)
          rw [h₂] at htyped
          exact htyped hsized
        have hnext : OriginState W₁ tyenv c.base.guestSize (env ++ tys₁) s₂ p₂ d₁ :=
          ⟨hholds.origins, h.declared.trans (List.prefix_append env tys₁), hholds.client, htyped⟩
        obtain ⟨W', hgrows', hholds'⟩ :=
          ih hnext (fun st' hst' => hsts st' (List.mem_cons_of_mem st hst')) hd hemits
        exact ⟨W', hgrows.trans hgrows', hholds'⟩
      · cases hd
    · cases hexit
    · cases hexit
    · -- a side exit is taken
      obtain ⟨rfl, rfl⟩ := Prod.mk.inj (Option.some.inj hd)
      exact ⟨W₁, hgrows, hholds⟩

/-- **The shadow follows the origins** in instrumented superblocks. -/
theorem dgInstrument_origins (hw : w = .i32 ∨ w = .i64) {sb sb' : IRSB}
    (hsb : sb.Tracked c.options c.base.guestSize w)
    (hout : dgInstrument c.options c.base.guestSize w sb = some sb')
    (h : OriginState W sb.tyenv c.base.guestSize (shadowedTyenv 2 sb.tyenv) s p d)
    (hd : runOrigins c.base sb.tyenv sb.stmts p d = some (p', d')) :
    ∃ W', W.Grows W' ∧ RunHolds W' sb.tyenv c.base.guestSize
      (execStmts (c.machine tid) sb'.tyenv sb'.stmts s).1 p' d' := by
  obtain ⟨us, tys, out, hmap, rfl⟩ := dgInstrument_eq_some hout
  have hmarked : sb.marked = sb.stmts := by
    have happend := sb.preamble_append_marked
    rwa [hsb.preamble, List.nil_append] at happend
  rw [hmarked] at hmap
  simp only [hsb.preamble, List.nil_append]
  have htyenv : sb.tyenv <+: shadowedTyenv 2 sb.tyenv ++ tys :=
    h.prefixed.trans (List.prefix_append _ tys)
  exact execStmts_origins tid hbase hI htype hram hw htyenv h hsb.stmt hd hmap

end Statements

end Run

end Derivgrind
