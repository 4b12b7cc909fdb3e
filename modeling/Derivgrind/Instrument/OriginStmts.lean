import Derivgrind.Instrument.DualRun
import Derivgrind.Instrument.OriginExprs

/-!
# Origins in statements

In front of a statement, code is inserted that computes its shadow.  If the shadow of the client
follows the origins of its bytes, then after this code it follows the origins after the statement.

## Main definitions

* `IRStmt.isTracked`, `IRStmt.Tracked` — the statements that are covered.
* `StatementHolds` — the shadow follows the origins after the statement.

## Main results

* `OriginsHold.setTmp`, `OriginsHold.put`, `OriginsHold.store` — updates of the shadow.
* `reads_second_layer` — the second layer of a shadow does not read the first one.
* `wp_addStatement_origins` — **what the inserted code does to the shadow.**
-/

namespace Derivgrind

open Emitter.Meaning

/-! ### Statements that are covered -/

/-- Dirty calls with atoms as arguments, if the arguments matter. -/
def IRDirty.isTracked (tyenv : List IRType) (d : IRDirty) : Bool :=
  if d.cee.name ∈ storeF80leNames then
    match d.args with
    | addr :: data :: _ => addr.isAtom && data.isAtom
    | _ => false
  else if d.cee.name ∈ loadF80leNames then
    match d.args, d.tmp with
    | addr :: _, some tmp => addr.isAtom && tyenv[tmp]? = some .i64
    | _, _ => false
  else d.tmp.all fun tmp => (tyenv[tmp]?.bind barZero?).isSome

/-- Flat statements, except for compare-and-swap. -/
def IRStmt.isTracked (tyenv : List IRType) : IRStmt → Bool
  | .put _ data => data.isAtom
  | .putI _ ix _ data => ix.isAtom && data.isAtom
  | .wrTmp _ data => data.isTracked
  | .store _ addr data => addr.isAtom && data.isAtom
  | .storeG _ addr data guard => addr.isAtom && data.isAtom && guard.isAtom
  | .loadG _ _ _ addr alt guard => addr.isAtom && alt.isAtom && guard.isAtom
  | .llsc _ _ addr data => addr.isAtom && data.all IRExpr.isAtom
  | .dirty details => details.isTracked tyenv
  | .cas _ => false
  | _ => true

/-- A statement that is covered, in a superblock that passes the sanity check.  No ill-typed code
is emitted for it. -/
structure IRStmt.Tracked (o : Options) (tyenv : List IRType) (g : ℕ) (w : IRType) (st : IRStmt) :
    Prop where
  tracked : st.isTracked tyenv = true
  inBounds : st.inBounds tyenv.length g = true
  tc : tcStmt tyenv w st = true
  regsFit : st.regsFit tyenv g = true
  reads : ∀ t ∈ st.reads, t < tyenv.length
  fresh : ∀ t ∈ st.defs, t ∉ st.reads
  legal : ∀ e ∈ st.modified, e.reachesIllTyped o = false

/-! ### Updates -/

theorem take_readMem {B : Type} {f : Addr → B} {a : Addr} {k n : ℕ} (h : k ≤ n) :
    (readMem f a n).take k = readMem f a k := by
  rw [readMem, readMem, ← List.map_take, List.take_range, Nat.min_eq_left h]

section Updates

variable {W : Numbering} {tyenv : List IRType} {g tmp offset : ℕ} {s : State Byte BarTool}
  {d : Origins} {lo hi : List Byte} {o : List Origin}

namespace Numbering

theorem holds_writeReg (h : W.HoldsAll lo hi o) {r r' : ℕ → Byte} {r'' : ℕ → Origin} {k k' j : ℕ}
    (hbyte : W.Holds (r (j + k)) (r' (j + k')) (r'' j)) :
    W.Holds (writeReg r (offset + k) lo (j + k)) (writeReg r' (offset + k') hi (j + k'))
      (writeReg r'' offset o j) := by
  unfold writeReg
  by_cases hle : offset ≤ j
  · rw [if_pos hle, if_pos (by omega), if_pos (by omega), Nat.add_sub_add_right,
      Nat.add_sub_add_right]
    exact h.getD hbyte (j - offset)
  · rw [if_neg hle, if_neg (by omega), if_neg (by omega)]
    exact hbyte

/-- The bytes from position `k` on are forgotten. -/
theorem HoldsAll.forgetFrom (h : W.HoldsAll lo hi o) (endness : IREndness) (k : ℕ) :
    W.HoldsAll lo hi (endness.origins (o.take k) ++ unknownOrigins (o.drop k)) := by
  have hdrop : W.HoldsAll (lo.drop k) (hi.drop k) (unknownOrigins (o.drop k)) :=
    HoldsAll.unknown W (by simp [h.length_lo]) (by simp [h.length_hi])
  have happend := ((h.take k).order endness).append hdrop
  rwa [List.take_append_drop, List.take_append_drop] at happend

end Numbering

namespace OriginsHold

/-- Both layers of the shadow of a temporary. -/
theorem setTmp (h : OriginsHold W tyenv g s d) (ht : tmp < tyenv.length)
    (hlen : ∀ ty, tyenv[tmp]? = some ty → o.length = sizeofIRType ty) (hholds : W.HoldsAll lo hi o) :
    OriginsHold W tyenv g ((s.setTmp (tmp + tyenv.length) lo).setTmp (tmp + 2 * tyenv.length) hi)
      (d.setTmp tmp o) := by
  refine ⟨⟨fun t ht' => ?_, h.shadow.reg, h.shadow.mem⟩, h.valid, fun t ty hty => ?_⟩
  · have hlayers : tmp + tyenv.length ≠ tmp + 2 * tyenv.length := by omega
    by_cases hne : t = tmp
    · subst hne
      simp only [State.setTmp, Origins.setTmp, Function.update_self, Function.update_of_ne hlayers]
      exact hholds
    · have h₁ : t + tyenv.length ≠ tmp + tyenv.length := by omega
      have h₂ : t + tyenv.length ≠ tmp + 2 * tyenv.length := by omega
      have h₃ : t + 2 * tyenv.length ≠ tmp + tyenv.length := by omega
      have h₄ : t + 2 * tyenv.length ≠ tmp + 2 * tyenv.length := by omega
      simp only [State.setTmp, Origins.setTmp, Function.update_of_ne h₁, Function.update_of_ne h₂,
        Function.update_of_ne h₃, Function.update_of_ne h₄, Function.update_of_ne hne]
      exact h.shadow.tmp t ht'
  · by_cases hne : t = tmp
    · subst hne
      simpa only [Origins.setTmp, Function.update_self] using hlen ty hty
    · simpa only [Origins.setTmp, Function.update_of_ne hne] using h.sized t ty hty

/-- Both layers of the shadow of registers.  The layers do not overlap. -/
theorem put (h : OriginsHold W tyenv g s d) (hle : offset + o.length ≤ g)
    (hholds : W.HoldsAll lo hi o) :
    OriginsHold W tyenv g
      { s with reg := writeReg (writeReg s.reg (offset + g) lo) (offset + 2 * g) hi }
      { d with reg := writeReg d.reg offset o } := by
  refine ⟨⟨h.shadow.tmp, fun j hj => ?_, h.shadow.mem⟩, h.valid, h.sized⟩
  have hlo := hholds.length_lo
  -- the first layer ends in front of the second one
  have hfirst : writeReg (writeReg s.reg (offset + g) lo) (offset + 2 * g) hi (j + g)
      = writeReg s.reg (offset + g) lo (j + g) := writeReg_of_lt _ (by omega)
  have hsecond : writeReg (writeReg s.reg (offset + g) lo) (offset + 2 * g) hi (j + 2 * g)
      = writeReg s.reg (offset + 2 * g) hi (j + 2 * g) := by
    have hbehind : writeReg s.reg (offset + g) lo (j + 2 * g) = s.reg (j + 2 * g) :=
      writeReg_of_ge s.reg (by omega)
    exact writeReg_congr _ _ hbehind
  show W.Holds (writeReg _ _ hi (j + g)) (writeReg _ _ hi (j + 2 * g)) (writeReg d.reg offset o j)
  rw [hfirst, hsecond]
  exact Numbering.holds_writeReg hholds (h.shadow.reg j hj)

/-- The shadow of memory has changed, and the tape is the same. -/
theorem withTool (h : OriginsHold W tyenv g s d) {r : (ℕ → Byte) × BarTool}
    (hbar : r.2.bar = s.tool.bar) {mem : Addr → Origin}
    (hmem : ∀ a, W.Holds (r.2.memory.layer .lo a) (r.2.memory.layer .hi a) (mem a)) :
    OriginsHold W tyenv g (s.withTool r) { d with mem := mem } := by
  have hvalid := h.valid
  refine ⟨⟨h.shadow.tmp, h.shadow.reg, hmem⟩, ⟨?_, ?_, hvalid.fresh, ?_⟩, h.sized⟩
  · show r.2.bar.tape.Sound
    rw [hbar]
    exact hvalid.sound
  · show ∀ id i, W.index id = some i → r.2.bar.tape.Issued i
    rw [hbar]
    exact hvalid.issued
  · show d.upper = true → r.2.bar.tape.Issued r.2.bar.upperIndex
    rw [hbar]
    exact hvalid.upper

/-- Both layers of the shadow of memory. -/
theorem store (h : OriginsHold W tyenv g s d) {r : (ℕ → Byte) × BarTool}
    (hbar : r.2.bar = s.tool.bar) (a : Addr)
    (hlo : r.2.memory.layer .lo = writeMem (s.tool.memory.layer .lo) a lo)
    (hhi : r.2.memory.layer .hi = writeMem (s.tool.memory.layer .hi) a hi)
    (hholds : W.HoldsAll lo hi o) :
    OriginsHold W tyenv g (s.withTool r) { d with mem := writeMem d.mem a o } := by
  refine h.withTool hbar fun x => ?_
  rw [hlo, hhi]
  exact hholds.getD (h.shadow.mem x) _

/-- The shadow of the client is left alone. -/
theorem of_frame {s' : State Byte BarTool} (h : OriginsHold W tyenv g s d)
    (hframe : ShadowFrame tyenv.length g s s') : OriginsHold W tyenv g s' d := by
  refine ⟨⟨fun t ht => ?_, fun j hj => ?_, ?_⟩, ?_, h.sized⟩
  · rw [hframe.tmp (t + tyenv.length) (by omega), hframe.tmp (t + 2 * tyenv.length) (by omega)]
    exact h.shadow.tmp t ht
  · rw [hframe.reg (j + g) (by omega), hframe.reg (j + 2 * g) (by omega)]
    exact h.shadow.reg j hj
  · rw [hframe.tool]
    exact h.shadow.mem
  · rw [hframe.tool]
    exact h.valid

end OriginsHold

end Updates

/-! ### The second layer -/

section Reads

variable {B T : Type} {o : Options} {tyenv env : List IRType} {g : ℕ} {w ty : IRType}

mutual

/-- Temporaries that an expression does not read. -/
theorem evalExpr_setTmp {J : Interp B} (s : State B T) (tmp : IRTemp) (v : List B) :
    ∀ e : IRExpr, tmp ∉ e.reads → evalExpr J (s.setTmp tmp v) e = evalExpr J s e
  | .get offset ty, _ => rfl
  | .getI descr ix bias, h => by
      rw [evalExpr, evalExpr, evalExpr_setTmp s tmp v ix (by simpa using h)]
      rfl
  | .rdTmp t, h => by
      have hne : t ≠ tmp := by simpa [eq_comm] using h
      exact Function.update_of_ne hne v s.tmp
  | .qop op a b c e, h => by
      simp only [IRExpr.reads, List.mem_append, not_or] at h
      rw [evalExpr, evalExpr, evalExpr_setTmp s tmp v a h.1.1.1, evalExpr_setTmp s tmp v b h.1.1.2,
        evalExpr_setTmp s tmp v c h.1.2, evalExpr_setTmp s tmp v e h.2]
  | .triop op a b c, h => by
      simp only [IRExpr.reads, List.mem_append, not_or] at h
      rw [evalExpr, evalExpr, evalExpr_setTmp s tmp v a h.1.1, evalExpr_setTmp s tmp v b h.1.2,
        evalExpr_setTmp s tmp v c h.2]
  | .binop op a b, h => by
      simp only [IRExpr.reads, List.mem_append, not_or] at h
      rw [evalExpr, evalExpr, evalExpr_setTmp s tmp v a h.1, evalExpr_setTmp s tmp v b h.2]
  | .unop op a, h => by
      rw [evalExpr, evalExpr, evalExpr_setTmp s tmp v a (by simpa using h)]
  | .load endness ty addr, h => by
      rw [evalExpr, evalExpr, evalExpr_setTmp s tmp v addr (by simpa using h)]
      rfl
  | .const con, _ => rfl
  | .ite cond a b, h => by
      simp only [IRExpr.reads, List.mem_append, not_or] at h
      rw [evalExpr, evalExpr, evalExpr_setTmp s tmp v cond h.1.1, evalExpr_setTmp s tmp v a h.1.2,
        evalExpr_setTmp s tmp v b h.2]
  | .ccall cee retty args, h => by
      rw [evalExpr, evalExpr, evalExprs_setTmp s tmp v args (by simpa using h)]
  | .vecret, _ => rfl
  | .gsptr, _ => rfl

theorem evalExprs_setTmp {J : Interp B} (s : State B T) (tmp : IRTemp) (v : List B) :
    ∀ es : List IRExpr, tmp ∉ IRExpr.allReads es →
      evalExprs J (s.setTmp tmp v) es = evalExprs J s es
  | [], _ => rfl
  | e :: es, h => by
      simp only [IRExpr.allReads, List.mem_append, not_or] at h
      rw [evalExprs, evalExprs, evalExpr_setTmp s tmp v e h.1, evalExprs_setTmp s tmp v es h.2]

end

/-- The temporaries in an environment, except for one. -/
def tmpsBut (tmp : IRTemp) (env : List IRType) : List IRTemp :=
  (List.range env.length).filter fun t => t ≠ tmp

theorem mem_tmpsBut {tmp t : ℕ} : t ∈ tmpsBut tmp env ↔ t < env.length ∧ t ≠ tmp := by
  rw [tmpsBut, List.mem_filter, List.mem_range, decide_eq_true_eq]

/-- **The second layer** of what is assigned to a temporary does not read the first layer of this
temporary: without it, the code would still pass the sanity check. -/
theorem reads_second_layer (ho : o.mode = .b) (hw : w = .i32 ∨ w = .i64)
    (hdecl : shadowedTyenv 2 tyenv <+: env) {tmp : ℕ} {data : IRExpr}
    (hst : (IRStmt.wrTmp tmp data).Tracked o tyenv g w) {shadow : Shadow}
    {tys : List IRType} {sts : List IRStmt}
    (hemit : dgModifyExpressionOrDefault (dgBarExpressionhandling o) ⟨tyenv.length, g, w⟩ data env
      = some (shadow, tys, sts)) : tmp + tyenv.length ∉ (shadow.layer 1).reads := by
  have heh : o.expressionhandling = dgBarExpressionhandling o := by
    rw [Options.expressionhandling, ho]
  have hcontext := context_expressionhandling o g tyenv hw
  rw [heh] at hcontext
  have htc := hst.tc
  have hbounds := hst.inBounds
  simp only [tcStmt, IRStmt.inBounds, Bool.and_eq_true, decide_eq_true_eq] at htc hbounds
  have hlt : tmp < tyenv.length := hbounds.1
  have hlen : 3 * tyenv.length ≤ env.length := by
    have hle := hdecl.length_le
    rw [length_shadowedTyenv] at hle
    omega
  -- All other temporaries may be read.
  have hreads : ∀ t : ℕ, t ∈ data.reads → t < tyenv.length ∧ t ≠ tmp := by
    intro t ht
    have hmem : t ∈ (IRStmt.wrTmp tmp data).reads := by
      simpa [IRStmt.reads, IRStmt.exprs] using ht
    refine ⟨hst.reads t hmem, ?_⟩
    rintro rfl
    exact hst.fresh t (by simp [IRStmt.defs]) hmem
  obtain ⟨ty, hty⟩ : ∃ ty, typeOfIRExpr tyenv data = some ty :=
    ⟨_, htc.2.symm.trans (List.getElem?_eq_getElem hlt)⟩
  have hreadable : Readable 2 tyenv w (tmpsBut (tmp + tyenv.length) env) data ty := by
    refine ⟨⟨htc.1.1, hty, fun (t : ℕ) ht => ?_⟩, fun (t : ℕ) ht k hk => ?_⟩
    · obtain ⟨hlt', -⟩ := hreads t ht
      exact mem_tmpsBut.mpr ⟨by omega, by omega⟩
    · obtain ⟨hlt', hne⟩ := hreads t ht
      obtain rfl | rfl : k = 0 ∨ k = 1 := by omega
      · exact mem_tmpsBut.mpr ⟨by omega, by omega⟩
      · exact mem_tmpsBut.mpr ⟨by omega, by omega⟩
  have hbounded : Bounded env (tmpsBut (tmp + tyenv.length) env) := fun t ht =>
    (mem_tmpsBut.mp ht).1
  have hcheck := wpt_dgModifyExpressionOrDefault hcontext hdecl hbounded hreadable
    (hst.legal data (by simp [IRStmt.modified]))
  obtain ⟨D', -, hadds, htyped⟩ := hcheck.ends shadow tys sts hemit
  intro hmem
  rcases hadds.fresh _ ((htyped.getD (j := 1) Nat.one_lt_two).reads _ hmem) with hold | ⟨hge, -⟩
  · exact (mem_tmpsBut.mp hold).2 rfl
  · omega

/-- The second layer of an atom does not read the first layer of a temporary. -/
theorem atom_second_layer {e : IRExpr} (hatom : e.isAtom = true)
    (hfits : e.inBounds tyenv.length g = true) {tmp : ℕ} (ht : tmp < tyenv.length) :
    tmp + tyenv.length ∉
      ((atomShadow (dgBarExpressionhandling o) ⟨tyenv.length, g, w⟩ e).layer 1).reads := by
  cases e with
  | rdTmp t =>
    intro hmem
    have heq : tmp + tyenv.length = t + (1 + 1) * tyenv.length := List.mem_singleton.mp hmem
    omega
  | const con =>
    have hnone : ((dgBarConstant con).layer 1).reads = [] := by
      cases con with
      | bufferAddr ty offset => simp [IRExpr.inBounds, IRConst.isBufferAddr] at hfits
      | _ => rfl
    show tmp + tyenv.length ∉ ((dgBarConstant con).layer 1).reads
    rw [hnone]
    exact List.not_mem_nil
  | _ => cases hatom

/-- The temporaries that atoms read. -/
theorem atom_reads_lt {e : IRExpr} (hatom : e.isAtom = true) {n : ℕ} (hfits : e.inBounds n g = true) :
    ∀ t ∈ e.reads, t < n := by
  cases e with
  | rdTmp t =>
    intro t' ht'
    obtain rfl := List.mem_singleton.mp ht'
    exact of_decide_eq_true hfits
  | const con => exact fun _ h => absurd h List.not_mem_nil
  | _ => cases hatom

/-- Atoms do not read registers. -/
theorem eval_atom_reg {J : Interp B} {e : IRExpr} (hatom : e.isAtom = true) (s : State B T)
    (r : ℕ → B) : evalExpr J { s with reg := r } e = evalExpr J s e := by
  cases e <;> first | rfl | cases hatom

end Reads

/-! ### Inserted code -/

/-- The shadow follows the origins `d'`, when the code for a statement has been run. -/
def StatementHolds (W : Numbering) (tyenv : List IRType) (g : ℕ) (d' : Origins) (env : List IRType)
    (cas : Option IRTemp) (env' : List IRType) (s' : State Byte BarTool) : Prop :=
  cas = none ∧ env <+: env' ∧ ∃ W', W.Grows W' ∧ OriginsHold W' tyenv g s' d'

section Inserted

variable {c : RecordingContext} {F : FpSem Byte} {J : Interp Byte}
  (hbase : c.base.toInterp = hostInterp F J) {tid : ThreadId} {W : Numbering}
  {tyenv env : List IRType} {g : ℕ} {s : State Byte BarTool} {p : State Byte Unit} {d : Origins}
  {w ty : IRType} {tmp : ℕ} {o : List Origin} {addr data guard : IRExpr}

/-- Assigning both layers of a temporary. -/
theorem OriginsHold.wp_wrtmp (h : OriginsHold W tyenv g s d) (ht : tmp < tyenv.length)
    (hlen : ∀ ty, tyenv[tmp]? = some ty → o.length = sizeofIRType ty) {shadow : Shadow}
    (hholds : W.HoldsAll (evalExpr c.base.toInterp s (shadow.layer 0))
      (evalExpr c.base.toInterp s (shadow.layer 1)) o)
    (hreads : tmp + tyenv.length ∉ (shadow.layer 1).reads) :
    (execMeaning (c.machine tid)).wp
      ((dgBarExpressionhandling c.options).wrtmp ⟨tyenv.length, g, w⟩ tmp shadow) env s
      fun _ env' s' => env' = env ∧ OriginsHold W tyenv g s' (d.setTmp tmp o) := by
  set s₁ := s.setTmp (tmp + tyenv.length) (evalExpr c.base.toInterp s (shadow.layer 0)) with hs₁
  have hsecond : evalExpr c.base.toInterp s₁ (shadow.layer 1)
      = evalExpr c.base.toInterp s (shadow.layer 1) := evalExpr_setTmp s _ _ _ hreads
  have hexec : ∀ env, execStmts (c.machine tid) env
      [.wrTmp (tmp + (0 + 1) * tyenv.length) (shadow.layer 0),
        .wrTmp (tmp + (1 + 1) * tyenv.length) (shadow.layer 1)] s
      = (s₁.setTmp (tmp + 2 * tyenv.length) (evalExpr c.base.toInterp s (shadow.layer 1)), none) := by
    intro env
    rw [Nat.zero_add, Nat.one_mul, ← hsecond]
    rfl
  exact wp_emit hexec ⟨rfl, h.setTmp ht hlen hholds⟩

include hbase

/-- Writing both layers of an atom to registers. -/
theorem OriginState.put_atom (h : OriginState W tyenv g env s p d) (hdata : data.isAtom = true)
    (hfits : data.inBounds tyenv.length g = true) (hty : typeOfIRExpr tyenv data = some ty)
    {offset : ℕ} (hle : offset + sizeofIRType ty ≤ g) {shadow : Shadow}
    (hshadow : shadow = atomShadow (dgBarExpressionhandling c.options) ⟨tyenv.length, g, w⟩ data)
    {r : ℕ → Byte}
    (hr : r = writeReg s.reg (offset + g) (evalExpr c.base.toInterp s (shadow.layer 0))) :
    OriginsHold W tyenv g
      { s with
        reg := writeReg r (offset + 2 * g)
          (evalExpr c.base.toInterp { s with reg := r } (shadow.layer 1)) }
      { d with reg := writeReg d.reg offset (d.atom data) } := by
  obtain ⟨eLo, eHi, lo, hi, hlayers, hlo, hhi, hholds⟩ := h.index_atom hbase hdata hfits hty w
  rw [hlayers] at hshadow
  subst hshadow hr
  have hlen : offset + (d.atom data).length ≤ g := by
    rw [← hholds.length_lo, hlo.length]
    exact hle
  -- atoms do not read registers
  have hsecond : ∀ r : ℕ → Byte, evalExpr c.base.toInterp { s with reg := r } eHi = hi := by
    intro r
    have heq : PrimalEq env.length 0 { s with reg := r } s :=
      ⟨fun _ _ => rfl, fun _ h => absurd h (Nat.not_lt_zero _), rfl⟩
    rw [← hhi.eval]
    exact evalExpr_primalEq heq eHi hhi.fits
  simp only [Shadow.layer, List.getD_cons_zero, List.getD_cons_succ, hsecond, hlo.eval]
  exact h.toOriginsHold.put hlen hholds

/-- Storing both layers of an atom if the guard is true. -/
theorem OriginState.wp_store (h : OriginState W tyenv g env s p d) (haddr : addr.isAtom = true)
    (haddrFits : addr.inBounds tyenv.length g = true) (haddrTy : typeOfIRExpr tyenv addr = some w)
    (hdata : data.isAtom = true) (hdataFits : data.inBounds tyenv.length g = true)
    (hdataTy : typeOfIRExpr tyenv data = some ty) (hguard : guard.isAtom = true)
    (hguardFits : guard.inBounds tyenv.length g = true) (endness : IREndness) :
    (execMeaning (c.machine tid)).wp
      ((dgBarExpressionhandling c.options).store ⟨tyenv.length, g, w⟩ addr
        (atomShadow (dgBarExpressionhandling c.options) ⟨tyenv.length, g, w⟩ data) (some guard)) env s
      fun _ env' s' => env' = env ∧ OriginsHold W tyenv g s'
        (if c.base.isTrue (evalExpr c.base.toInterp p guard) then
          d.store c.base.toInterp p endness addr (d.atom data) else d) := by
  have hcond : evalExpr (c.machine tid).toInterp s guard = evalExpr c.base.toInterp p guard :=
    h.eval_eq c.base.toInterp hguardFits
  obtain ⟨eLo, eHi, lo, hi, hshadow, hlo, hhi, hholds⟩ := h.index_atom hbase hdata hdataFits hdataTy w
  have hlayers : HasShadow (c.machine tid).toInterp env s 2 [eLo, eHi] ty
      fun k => if k = 0 then lo else hi := by
    refine ⟨rfl, fun k hk => ?_⟩
    match k, hk with
    | 0, _ => exact hlo
    | 1, _ => exact hhi
  rw [hshadow]
  apply wp_mono (wp_shadowStore (c.shadowMaps hbase tid s.tool.bar) (barShadows_self s.tool)
    ⟨tyenv.length, g, w⟩ (h.hasValue_atom (c.isVex hbase tid) haddr haddrFits haddrTy) hlayers
    (inBounds_atom hguard hguardFits h.prefixed.length_le))
  rintro _ env' s' ⟨rfl, ⟨r, rfl⟩, hbar, hlo', hhi'⟩
  rw [hcond] at hlo' hhi'
  refine ⟨rfl, ?_⟩
  by_cases hb : c.base.isTrue (evalExpr c.base.toInterp p guard) = true
  · have hb' : (c.machine tid).isTrue (evalExpr c.base.toInterp p guard) = true := hb
    simp only [if_pos hb', if_pos hb] at hlo' hhi' ⊢
    rw [Origins.store, c.addr_eq hbase]
    exact h.toOriginsHold.store hbar _ hlo' hhi' (hholds.order endness)
  · have hb' : ¬(c.machine tid).isTrue (evalExpr c.base.toInterp p guard) = true := hb
    simp only [if_neg hb', if_neg hb] at hlo' hhi' ⊢
    refine h.toOriginsHold.withTool hbar fun a => ?_
    have hold := h.shadow.mem a
    rwa [← show r.2.memory.layer .lo = s.tool.memory.layer .lo from hlo',
      ← show r.2.memory.layer .hi = s.tool.memory.layer .hi from hhi'] at hold

/-- Storing the index of a number in extended precision. -/
theorem OriginState.wp_storeF80le (h : OriginState W tyenv g env s p d) (haddr : addr.isAtom = true)
    (haddrFits : addr.inBounds tyenv.length g = true) (hdata : data.isAtom = true)
    (hdataFits : data.inBounds tyenv.length g = true)
    (hdataTy : typeOfIRExpr tyenv data = some ty) :
    (execMeaning (c.machine tid)).wp (dgBarDirtyStoreF80le addr
      (atomShadow (dgBarExpressionhandling c.options) ⟨tyenv.length, g, w⟩ data)) env s
      fun _ env' s' => env' = env ∧ OriginsHold W tyenv g s'
        { d with
          mem := writeMem d.mem (c.base.addr (evalExpr c.base.toInterp p addr))
            ((d.atom data).take 4) } := by
  have haddrEval := h.eval_eq c.base.toInterp haddrFits
  obtain ⟨eLo, eHi, lo, hi, hshadow, hlo, hhi, hholds⟩ := h.index_atom hbase hdata hdataFits hdataTy w
  have htrue := c.isTrue_true hbase tid
  rw [hshadow, c.addr_eq hbase]
  set a := evalExpr c.base.toInterp p addr with ha
  apply wp_bind
  have hargs : evalExprs (c.machine tid).toInterp s [addr, eLo] = [a, lo] := by
    show [evalExpr c.base.toInterp s addr, evalExpr c.base.toInterp s eLo] = _
    rw [haddrEval, hlo.eval]
  refine wp_addDirty_snd htrue hargs rfl ?_
  -- the first call does not change what atoms are
  set s₁ := s.withTool ((c.machine tid).toolDirty .barStoreF80leLo [a, lo] s.buf s.tool).2 with hs₁
  have hext : Extends env s env s₁ := (Extends.refl env s).withTool _
  have haddrEval₁ : evalExpr c.base.toInterp s₁ addr = a :=
    h.eval_extends c.base.toInterp haddr haddrFits hext
  have hargs₁ : evalExprs (c.machine tid).toInterp s₁ [addr, eHi] = [a, hi] := by
    show [evalExpr c.base.toInterp s₁ addr, evalExpr c.base.toInterp s₁ eHi] = _
    rw [haddrEval₁, (hhi.mono hext).eval]
  exact wp_addDirty_snd htrue hargs₁ rfl
    ⟨rfl, h.toOriginsHold.store rfl (bitsOf 64 a) rfl rfl (hholds.take 4)⟩

/-- Loading the index of a number in extended precision.  The upper halves are not initialised. -/
theorem OriginState.wp_loadF80le (h : OriginState W tyenv g env s p d) (haddr : addr.isAtom = true)
    (haddrFits : addr.inBounds tyenv.length g = true) (htmp : tyenv[tmp]? = some .i64) :
    (execMeaning (c.machine tid)).wp (dgBarDirtyLoadF80le ⟨tyenv.length, g, w⟩ addr tmp) env s
      fun _ env' s' => env' = env ∧ OriginsHold W tyenv g s'
        (d.setTmp tmp (readMem d.mem (c.base.addr (evalExpr c.base.toInterp p addr)) 4 ++
          List.replicate 4 .unknown)) := by
  have haddrEval := h.eval_eq c.base.toInterp haddrFits
  have ht : tmp < tyenv.length := (List.getElem?_eq_some_iff.mp htmp).1
  have htrue := c.isTrue_true hbase tid
  rw [c.addr_eq hbase]
  set a := evalExpr c.base.toInterp p addr with ha
  have hargs : ∀ s' : State Byte BarTool, evalExpr c.base.toInterp s' addr = a →
      evalExprs (c.machine tid).toInterp s' [addr] = [a] := fun s' heval => by
    show [evalExpr c.base.toInterp s' addr] = [a]
    rw [heval]
  -- the layers of the result, of which four bytes are not initialised
  set lo := readMem (s.tool.memory.layer .lo) (bitsOf 64 a) 4 ++
    bytesOf (c.uninitialised s.tool.memory.loads) with hlo
  set t₁ : BarTool := { s.tool with memory := ⟨s.tool.memory.layer, s.tool.memory.loads + 1⟩ } with ht₁
  set hi := readMem (s.tool.memory.layer .hi) (bitsOf 64 a) 4 ++
    bytesOf (c.uninitialised t₁.memory.loads) with hhi
  have hcall₁ : (c.machine tid).toolDirty .barLoadF80leLo
      (evalExprs (c.machine tid).toInterp s [addr]) s.buf s.tool = (lo, s.buf, t₁) := by
    rw [hargs s haddrEval]
    rfl
  apply wp_bind
  refine wp_addDirtyTmp htrue hcall₁ ?_
  set s₁ := (s.setTmp (tmp + tyenv.length) lo).withTool (s.buf, t₁) with hs₁
  have hcall₂ : (c.machine tid).toolDirty .barLoadF80leHi
      (evalExprs (c.machine tid).toInterp s₁ [addr]) s₁.buf s₁.tool
      = (hi, s.buf, { s.tool with memory := ⟨s.tool.memory.layer, t₁.memory.loads + 1⟩ }) := by
    have htmps : ∀ t < tyenv.length, s₁.tmp t = s.tmp t := fun t ht => by
      have hne : t ≠ tmp + tyenv.length := by omega
      exact Function.update_of_ne hne _ _
    rw [hargs s₁ ((evalExpr_atom_congr haddr haddrFits htmps).trans haddrEval)]
    rfl
  refine wp_addDirtyTmp htrue hcall₂ ⟨rfl, ?_⟩
  have hlen : ∀ x : BitVec 32, (bytesOf x).length = 4 := fun x => length_natToBytes _ _
  have hholds : W.HoldsAll lo hi
      (readMem d.mem (bitsOf 64 a) 4 ++ List.replicate 4 .unknown) :=
    (h.shadow.readMem (bitsOf 64 a) 4).append (Numbering.HoldsAll.unknown W (hlen _) (hlen _))
  have hset := h.toOriginsHold.setTmp ht (fun ty hty => ?_) hholds
  · exact hset.withTool rfl h.shadow.mem
  · obtain rfl := Option.some_inj.mp (htmp.symm.trans hty)
    simp [readMem, sizeofIRType]

end Inserted

/-! ### Bytes of which nothing is known -/

section Forget

variable {W : Numbering} {tyenv : List IRType} {g : ℕ} {s : State Byte BarTool} {d : Origins}

theorem OriginsHold.forgetTmp (h : OriginsHold W tyenv g s d) (tmp : IRTemp) :
    OriginsHold W tyenv g s (d.setTmp tmp (unknownOrigins (d.tmp tmp))) := by
  refine ⟨⟨fun t ht => ?_, h.shadow.reg, h.shadow.mem⟩, h.valid, fun t ty hty => ?_⟩
  · by_cases hne : t = tmp
    · subst hne
      simp only [Origins.setTmp, Function.update_self]
      exact (h.shadow.tmp t ht).forget
    · simp only [Origins.setTmp, Function.update_of_ne hne]
      exact h.shadow.tmp t ht
  · by_cases hne : t = tmp
    · subst hne
      simp only [Origins.setTmp, Function.update_self, unknownOrigins, List.length_replicate]
      exact h.sized t ty hty
    · simpa only [Origins.setTmp, Function.update_of_ne hne] using h.sized t ty hty

theorem OriginsHold.forgetMem (h : OriginsHold W tyenv g s d) (a : Addr) (o : List Origin) :
    OriginsHold W tyenv g s { d with mem := writeMem d.mem a (unknownOrigins o) } := by
  refine ⟨⟨h.shadow.tmp, h.shadow.reg, fun x => ?_⟩, h.valid, h.sized⟩
  by_cases hx : (x - a).toNat < o.length
  · have hget : (unknownOrigins o).getD (x - a).toNat (d.mem x) = .unknown := by
      rw [List.getD_eq_getElem _ _ (by simpa [unknownOrigins] using hx)]
      exact List.getElem_replicate _
    show W.Holds _ _ ((unknownOrigins o).getD (x - a).toNat (d.mem x))
    rw [hget]
    trivial
  · show W.Holds _ _ ((unknownOrigins o).getD (x - a).toNat (d.mem x))
    rw [List.getD_eq_default _ _ (by simpa [unknownOrigins] using hx)]
    exact h.shadow.mem x

end Forget

/-! ### Statements -/

theorem reads_barZero {ty : IRType} {zero : IRExpr} (h : barZero? ty = some zero) :
    zero.reads = [] := by
  cases ty <;> cases h <;> rfl

section Statements

variable {c : RecordingContext} {F : FpSem Byte} {J : Interp Byte}
  (hbase : c.base.toInterp = hostInterp F J) (hI : c.base.toInterp.Integers)
  (htype : c.tape.typegrind = false) (hram : c.tape.tapeInRam = false) {tid : ThreadId}
  {W : Numbering} {tyenv env : List IRType} {g : ℕ} {s : State Byte BarTool}
  {p : State Byte Unit} {d d' : Origins} {w ty : IRType}

include hbase

/-- Dirty calls. -/
theorem OriginState.wp_dirty (h : OriginState W tyenv g env s p d) {details : IRDirty}
    (hst : (IRStmt.dirty details).Tracked c.options tyenv g w)
    (hd : d.dirty c.base.toInterp p tyenv details = some d') :
    (execMeaning (c.machine tid)).wp
      (addDirtyModified (dgBarExpressionhandling c.options) ⟨tyenv.length, g, w⟩ details) env s
      fun _ env' s' => env' = env ∧ OriginsHold W tyenv g s' d' := by
  have htracked : details.isTracked tyenv = true := hst.tracked
  have hfits := hst.inBounds
  have htc := hst.tc
  simp only [IRStmt.inBounds, tcStmt, Bool.and_eq_true] at hfits htc
  unfold IRDirty.isTracked at htracked
  unfold Origins.dirty at hd
  unfold addDirtyModified
  by_cases hstore : details.cee.name ∈ storeF80leNames
  · simp only [if_pos hstore] at htracked hd ⊢
    split at htracked
    · next addr data args hargs =>
      simp only [hargs, List.getD_cons_zero, List.getD_cons_succ, IRExpr.allInBounds,
        List.all_cons, Bool.and_eq_true] at htracked hd hfits htc ⊢
      split at hd
      · obtain rfl := Option.some.inj hd
        obtain ⟨ty, hty⟩ : ∃ ty, typeOfIRExpr tyenv data = some ty := by
          have harg := htc.1.2.2.1
          have hatom := htracked.2
          cases data with
          | rdTmp t => exact exists_type_of_isData harg
          | const con => exact exists_type_of_isData harg
          | _ => cases hatom
        refine wp_bind (wp_ofOption (wp_bind (wp_ofOption ?_)))
        rw [dgModifyExpressionOrDefault_atom _ _ htracked.2]
        exact wp_bind (wp_pure (h.wp_storeF80le hbase htracked.1 hfits.1.1.2.1 htracked.2
          hfits.1.1.2.2.1 hty))
      · cases hd
    · cases htracked
  · simp only [if_neg hstore] at htracked hd ⊢
    by_cases hload : details.cee.name ∈ loadF80leNames
    · simp only [if_pos hload] at htracked hd ⊢
      split at htracked
      · next addr args tmp hargs htmp =>
        simp only [hargs, htmp, List.getD_cons_zero, IRExpr.allInBounds, Bool.and_eq_true,
          decide_eq_true_eq] at htracked hd hfits ⊢
        split at hd
        · obtain rfl := Option.some.inj hd
          exact wp_bind (wp_ofOption (wp_bind (wp_ofOption
            (h.wp_loadF80le hbase htracked.1 hfits.1.1.2.1 htracked.2))))
        · cases hd
      · cases htracked
    · simp only [if_neg hload] at htracked hd ⊢
      cases htmp : details.tmp with
      | none =>
        rw [htmp] at hd
        obtain rfl := Option.some.inj hd
        exact wp_pure ⟨rfl, h.toOriginsHold⟩
      | some tmp =>
        simp only [htmp, Option.all_some] at htracked hd hfits
        obtain rfl := Option.some.inj hd
        -- the result has no index
        obtain ⟨zero, hzero⟩ := Option.isSome_iff_exists.mp htracked
        obtain ⟨ty, hty, hbar⟩ := Option.bind_eq_some_iff.mp hzero
        have hlt : tmp < tyenv.length := (List.getElem?_eq_some_iff.mp hty).1
        rw [hty, Option.map_some, Option.getD_some]
        apply wp_bind
        apply wp_typeOf (show typeOfIRExpr env (.rdTmp tmp) = some ty from
          getElem?_of_prefixed h.prefixed hty)
        apply wp_bind
        show (execMeaning (c.machine tid)).wp (dgBarDefault ty) env s _
        unfold dgBarDefault
        rw [hbar]
        refine wp_bind (wp_ofOption (wp_pure (h.toOriginsHold.wp_wrtmp hlt (fun ty' hty' => ?_) ?_ ?_)))
        · obtain rfl := Option.some_inj.mp (hty.symm.trans hty')
          exact List.length_replicate
        · show W.HoldsAll (evalExpr c.base.toInterp s zero) (evalExpr c.base.toInterp s zero) _
          rw [hbase, eval_barZero hbar]
          exact Numbering.HoldsAll.zeros W _
        · show _ ∉ zero.reads
          rw [reads_barZero hbar]
          exact List.not_mem_nil

/-- Guarded loads.  The indices are read with the type of the destination, so they are not
converted. -/
theorem OriginState.wp_loadG (h : OriginState W tyenv g env s p d) {endness : IREndness}
    {cvt : IRLoadGOp} {dst : IRTemp} {addr alt guard : IRExpr}
    (hst : (IRStmt.loadG endness cvt dst addr alt guard).Tracked c.options tyenv g w) :
    (execMeaning (c.machine tid)).wp (addStatementModified (dgBarExpressionhandling c.options)
      ⟨tyenv.length, g, w⟩ (.loadG endness cvt dst addr alt guard)) env s
      (StatementHolds W tyenv g
        (d.setTmp dst (if c.base.isTrue (evalExpr c.base.toInterp p guard) then
          endness.origins (readMem d.mem (c.base.addr (evalExpr c.base.toInterp p addr)) cvt.size) ++
            List.replicate (sizeofIRType cvt.type - cvt.size) .unknown
        else d.atom alt)) env) := by
  have htracked := hst.tracked
  have hfits := hst.inBounds
  have htc := hst.tc
  simp only [IRStmt.isTracked, IRStmt.inBounds, tcStmt, Bool.and_eq_true, decide_eq_true_eq]
    at htracked hfits htc
  obtain ⟨⟨haddr, halt⟩, hguard⟩ := htracked
  obtain ⟨⟨⟨hdst, haddrTy⟩, haltTy⟩, -⟩ := htc
  have hdstTy : typeOfIRExpr env (.rdTmp dst) = some cvt.type :=
    getElem?_of_prefixed h.prefixed hdst
  apply wp_bind
  apply wp_typeOf hdstTy
  apply wp_bind
  apply wp_mono (h.wp_load hbase haddr hfits.1.1.2 (type_of_hasTy haddrTy) cvt.type)
  rintro dataRead env' s' ⟨hext, htool, hlayer, hreadLo, hreadHi⟩
  rw [dgModifyExpressionOrDefault_atom _ _ halt]
  apply wp_bind
  apply wp_pure
  apply wp_bind
  obtain ⟨altLo, altHi, lo, hi, hshadow, hlo, hhi, hholds⟩ :=
    h.index_atom (o := c.options) hbase halt hfits.1.2 (type_of_hasTy haltTy) w
  have hnext : OriginsHold W tyenv g s' d :=
    ⟨h.shadow.mono hext (congrArg _ htool) (Numbering.Grows.refl W) h.three_mul_le,
      by rw [htool]; exact h.valid, h.sized⟩
  have hguardEval : evalExpr c.base.toInterp s' guard = evalExpr c.base.toInterp p guard :=
    h.eval_extends c.base.toInterp hguard hfits.2 hext
  have hsize : cvt.size ≤ sizeofIRType cvt.type := by cases cvt <;> decide
  have hselect : W.HoldsAll
      (evalExpr c.base.toInterp s' (((dgBarExpressionhandling c.options).ite guard dataRead
        (atomShadow (dgBarExpressionhandling c.options) ⟨tyenv.length, g, w⟩ alt)).layer 0))
      (evalExpr c.base.toInterp s' (((dgBarExpressionhandling c.options).ite guard dataRead
        (atomShadow (dgBarExpressionhandling c.options) ⟨tyenv.length, g, w⟩ alt)).layer 1))
      (if c.base.isTrue (evalExpr c.base.toInterp p guard) then
        endness.origins (readMem d.mem (c.base.addr (evalExpr c.base.toInterp p addr)) cvt.size) ++
          List.replicate (sizeofIRType cvt.type - cvt.size) .unknown
      else d.atom alt) := by
    rw [hshadow]
    show W.HoldsAll (evalExpr c.base.toInterp s' (.ite guard _ altLo))
      (evalExpr c.base.toInterp s' (.ite guard _ altHi)) _
    rw [evalExpr, evalExpr, hguardEval]
    split
    · rw [hreadLo, hreadHi]
      have hforget := (h.shadow.readMem (c.base.addr (evalExpr c.base.toInterp p addr))
        (sizeofIRType cvt.type)).forgetFrom endness cvt.size
      rwa [take_readMem hsize, unknownOrigins, List.length_drop, length_readMem] at hforget
    · have hloEval : evalExpr c.base.toInterp s' altLo = lo := (hlo.mono hext).eval
      have hhiEval : evalExpr c.base.toInterp s' altHi = hi := (hhi.mono hext).eval
      rwa [hloEval, hhiEval]
  have hlen : (d.atom alt).length = sizeofIRType cvt.type :=
    hholds.length_lo.symm.trans hlo.length
  have hreads : dst + tyenv.length ∉ (((dgBarExpressionhandling c.options).ite guard dataRead
      (atomShadow (dgBarExpressionhandling c.options) ⟨tyenv.length, g, w⟩ alt)).layer 1).reads := by
    have hle := h.three_mul_le
    have hlt := hfits.1.1.1
    have hsecond := atom_second_layer (o := c.options) (w := w) halt hfits.1.2 hfits.1.1.1
    show _ ∉ (IRExpr.ite guard (dataRead.layer 1) _).reads
    rw [hlayer]
    simp only [IRExpr.reads, List.mem_append, List.mem_singleton, not_or]
    refine ⟨⟨fun hmem => ?_, ?_⟩, hsecond⟩
    · exact Nat.not_lt.mpr (Nat.le_add_left _ dst) (atom_reads_lt hguard hfits.2 _ hmem)
    · have hne : ∀ a b : ℕ, a < b → 3 * b ≤ env.length → a + b ≠ env.length + 1 := by omega
      exact hne dst tyenv.length hlt hle
  apply wp_mono (hnext.wp_wrtmp hfits.1.1.1 (fun ty hty => ?_) hselect hreads)
  · rintro _ _ s'' ⟨rfl, hs''⟩
    exact wp_pure ⟨rfl, hext.tyenv, W, Numbering.Grows.refl W, hs''⟩
  · obtain rfl := Option.some_inj.mp (hdst.symm.trans hty)
    split
    · rw [List.length_append, length_origins, length_readMem, List.length_replicate]
      omega
    · exact hlen

include hI htype hram

/-- **What the inserted code does to the shadow.** -/
theorem wp_addStatement_origins (hw : w = .i32 ∨ w = .i64) (h : OriginState W tyenv g env s p d)
    {st : IRStmt} (hst : st.Tracked c.options tyenv g w)
    (hd : st.origins c.base.toInterp tyenv p d = some d') :
    (execMeaning (c.machine tid)).wp
      (addStatementModified (dgBarExpressionhandling c.options) ⟨tyenv.length, g, w⟩ st) env s
      (StatementHolds W tyenv g d' env) := by
  have htracked := hst.tracked
  have hfits := hst.inBounds
  have htc := hst.tc
  have hregs := hst.regsFit
  have hsame : ∀ d', OriginsHold W tyenv g s d' → StatementHolds W tyenv g d' env none env s :=
    fun d' h => ⟨rfl, List.prefix_refl env, W, Numbering.Grows.refl W, h⟩
  -- Unconditional stores are guarded by the constant true.
  have htrue : c.base.isTrue (evalExpr c.base.toInterp p (.const (.u1 true))) = true :=
    c.isTrue_true hbase tid
  cases st with
  | noOp =>
    obtain rfl := Option.some.inj hd
    exact wp_pure (hsame d h.toOriginsHold)
  | iMark addr len delta =>
    obtain rfl := Option.some.inj hd
    exact wp_pure (hsame d h.toOriginsHold)
  | abiHint base len nia =>
    obtain rfl := Option.some.inj hd
    exact wp_pure (hsame d h.toOriginsHold)
  | mbe =>
    obtain rfl := Option.some.inj hd
    exact wp_pure (hsame d h.toOriginsHold)
  | exit guard jk dst offsIP =>
    obtain rfl := Option.some.inj hd
    exact wp_pure (hsame d h.toOriginsHold)
  | wrTmp tmp data =>
    obtain ⟨⟨o, upper⟩, ho, hd⟩ := Option.bind_eq_some_iff.mp hd
    obtain rfl := Option.some.inj hd
    simp only [IRStmt.inBounds, tcStmt, Bool.and_eq_true, decide_eq_true_eq] at hfits htc
    have hty := htc.2.symm.trans (List.getElem?_eq_getElem hfits.1)
    have hread : ∀ descr ix bias, data = .getI descr ix bias → descr.divides g = true := by
      rintro descr ix bias rfl
      exact hregs
    apply wp_bind
    apply wp_mono (wp_and_result (wp_modifyOrDefault_origins hbase hI htype hram h htracked hfits.2
      htc.1.1 hty hread ho) fun sh tys sts hemit => reads_second_layer rfl hw h.declared hst hemit)
    rintro sh env' s' ⟨hreads, hext, hmem, hlen, W', k, hgrows, hvalid, hholds⟩
    have hnext : OriginsHold W' tyenv g s' { d with upper := upper, count := d.count + 1 } := by
      have hshadow := h.shadow.mono hext hmem hgrows h.three_mul_le
      exact ⟨⟨hshadow.tmp, hshadow.reg, hshadow.mem⟩, hvalid.next, h.sized⟩
    apply wp_bind
    refine wp_mono (hnext.wp_wrtmp hfits.1 (fun ty' hty' => ?_) hholds hreads) ?_
    · obtain rfl := Option.some_inj.mp ((List.getElem?_eq_getElem hfits.1).symm.trans hty')
      exact hlen
    · rintro _ _ s'' ⟨rfl, hs''⟩
      exact wp_pure ⟨rfl, hext.tyenv, W', hgrows, hs''⟩
  | put offset data =>
    obtain rfl := Option.some.inj hd
    rw [IRStmt.inBounds] at hfits
    obtain ⟨ty, hty⟩ := exists_type_of_isData htc
    have hle : offset + sizeofIRType ty ≤ g := by simpa [IRStmt.regsFit, hty] using hregs
    have hput := h.put_atom hbase htracked hfits hty hle (w := w) rfl rfl
    rw [addStatementModified, dgModifyExpressionOrDefault_atom _ _ htracked]
    apply wp_bind
    apply wp_pure
    apply wp_bind
    refine wp_emit (fun _ => rfl)
      (wp_pure ⟨rfl, List.prefix_refl env, W, Numbering.Grows.refl W, ?_⟩)
    simp only [Nat.zero_add, Nat.one_mul, Nat.reduceAdd]
    exact hput
  | putI descr ix bias data =>
    obtain rfl := Option.some.inj hd
    simp only [IRStmt.isTracked, IRStmt.inBounds, tcStmt, Bool.and_eq_true] at htracked hfits htc
    have hbounds := hregs
    simp only [IRStmt.regsFit, IRRegArray.divides, Bool.and_eq_true, decide_eq_true_eq] at hbounds
    rw [addStatementModified, dgModifyExpressionOrDefault_atom _ _ htracked.2]
    apply wp_bind
    apply wp_pure
    apply wp_bind
    refine wp_emit (fun _ => rfl)
      (wp_pure ⟨rfl, List.prefix_refl env, W, Numbering.Grows.refl W, ?_⟩)
    have hindex : (c.machine tid).index (evalExpr (c.machine tid).toInterp s ix)
        = c.base.index (evalExpr c.base.toInterp p ix) :=
      congrArg c.base.index (h.eval_eq c.base.toInterp hfits.1)
    simp only [ExpressionHandling.shadowDescr, Nat.zero_add, Nat.one_mul, Nat.reduceAdd,
      eval_atom_reg htracked.1, hindex]
    rw [IRRegArray.offset_displaced hregs,
      IRRegArray.offset_displaced (IRRegArray.divides_mul hregs 1)]
    exact h.put_atom hbase htracked.2 hfits.2 (type_of_hasTy htc.1.2)
      (IRRegArray.offset_add_le hbounds.1.1 hbounds.1.2 _ bias) rfl rfl
  | store endness addr data =>
    obtain rfl := Option.some.inj hd
    simp only [IRStmt.isTracked, IRStmt.inBounds, tcStmt, Bool.and_eq_true] at htracked hfits htc
    obtain ⟨ty, hty⟩ := exists_type_of_isData htc.2
    rw [addStatementModified, dgModifyExpressionOrDefault_atom _ _ htracked.2]
    apply wp_bind
    apply wp_pure
    apply wp_bind
    apply wp_mono (h.wp_store hbase htracked.1 hfits.1 (type_of_hasTy htc.1) htracked.2 hfits.2 hty
      (show (IRExpr.const (.u1 true)).isAtom = true from rfl) rfl endness)
    rintro _ env' s' ⟨rfl, hs'⟩
    rw [if_pos htrue] at hs'
    exact wp_pure ⟨rfl, List.prefix_refl env', W, Numbering.Grows.refl W, hs'⟩
  | storeG endness addr data guard =>
    obtain rfl := Option.some.inj hd
    simp only [IRStmt.isTracked, IRStmt.inBounds, tcStmt, Bool.and_eq_true] at htracked hfits htc
    obtain ⟨ty, hty⟩ := exists_type_of_isData htc.1.2
    rw [addStatementModified, dgModifyExpressionOrDefault_atom _ _ htracked.1.2]
    apply wp_bind
    apply wp_pure
    apply wp_bind
    apply wp_mono (h.wp_store hbase htracked.1.1 hfits.1.1 (type_of_hasTy htc.1.1) htracked.1.2
      hfits.1.2 hty htracked.2 hfits.2 endness)
    rintro _ env' s' ⟨rfl, hs'⟩
    exact wp_pure ⟨rfl, List.prefix_refl env', W, Numbering.Grows.refl W, hs'⟩
  | loadG endness cvt dst addr alt guard =>
    obtain rfl := Option.some.inj hd
    exact h.wp_loadG hbase hst
  | llsc endness result addr data =>
    have hforget := h.toOriginsHold.forgetTmp result
    cases data with
    | none =>
      obtain rfl := Option.some.inj hd
      exact wp_pure (hsame _ hforget)
    | some data =>
      obtain rfl := Option.some.inj hd
      exact wp_pure (hsame _ (hforget.forgetMem _ _))
  | dirty details =>
    apply wp_bind
    apply wp_mono (h.wp_dirty hbase hst hd)
    rintro _ env' s' ⟨rfl, hs'⟩
    exact wp_pure ⟨rfl, List.prefix_refl env', W, Numbering.Grows.refl W, hs'⟩
  | cas details => cases htracked

end Statements

end Derivgrind
