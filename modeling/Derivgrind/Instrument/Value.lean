import Derivgrind.Instrument.Transparent
import Derivgrind.Vex.Lanes

/-!
# The values of emitted expressions

Emitted expressions read temporaries and constants only.  `HasValue` says that such
an expression has a certain type and value; this is kept while further code is
emitted and run, which assigns new temporaries only.

## Main definitions

* `Interp.IsVex` — an interpretation in which byte moves and lanes are as in VEX.
* `Extends` — what running emitted code may change.
* `HasValue` — the type and the value of an expression.
* `execMeaning`, `runEmit` — emitted code means what it does when it is run.

## Main results

* `HasValue.mono` — values of expressions are kept.
* `HasValue.move` — the values of operations that move bytes.
-/

namespace Derivgrind

variable {B T : Type}

/-- Byte moves and operations on lanes are as in VEX, and zero constants have zero bytes. -/
structure Interp.IsVex (I : Interp B) (F : FpSem B) : Prop where
  op : ∃ rest, I.op = vexOp F I.zero rest
  length_const : ∀ con : IRConst, con.isBufferAddr = false →
    (I.const con).length = sizeofIRType (typeOfIRConst con)
  const_u32 : I.const (.u32 0) = List.replicate 4 I.zero
  const_u64 : I.const (.u64 0) = List.replicate 8 I.zero

theorem Interp.IsVex.move {I : Interp B} {F : FpSem B} (hI : I.IsVex F) {op : IROp}
    {route : List Source} (h : op.route? = some route) (args : List (List B)) :
    I.op op args = moveBytes I.zero route args := by
  obtain ⟨rest, hop⟩ := hI.op
  rw [hop]
  cases op with
  | unMove m => obtain rfl := Option.some_inj.mp h; rfl
  | binMove m => obtain rfl := Option.some_inj.mp h; rfl
  | op64x4toV256 => obtain rfl := Option.some_inj.mp h; rfl
  | helperMove m => obtain rfl := Option.some_inj.mp h; rfl
  | _ => cases h

/-- The floating-point operations on lanes, with exact widening. -/
def FpSem.host (F : FpSem Byte) : FpSem Byte := { F with f32toF64 := hostF32toF64 }

theorem isVex_hostInterp (F : FpSem Byte) (rest : Interp Byte) :
    (hostInterp F rest).IsVex F.host where
  op := ⟨_, rfl⟩
  length_const con h := by
    cases con with
    | bufferAddr ty offset => cases h
    | u128 x => exact List.length_map _
    | v128 x => exact List.length_map _
    | v256 x => exact List.length_map _
    | _ => rfl
  const_u32 := by
    show hostConst (.u32 0) = List.replicate 4 (0 : Byte)
    decide
  const_u64 := by
    show hostConst (.u64 0) = List.replicate 8 (0 : Byte)
    decide

/-! ### Extensions -/

/-- The buffer and the state of the tool after a call. -/
def State.withTool (s : State B T) (r : (ℕ → B) × T) : State B T :=
  { s with buf := r.1, tool := r.2 }

/-- New temporaries may have been added and assigned, and the state of the tool may have
changed. -/
structure Extends (env : List IRType) (s : State B T) (env' : List IRType) (s' : State B T) :
    Prop where
  tyenv : env <+: env'
  tmp : ∀ t < env.length, s'.tmp t = s.tmp t
  reg : s'.reg = s.reg
  mem : s'.mem = s.mem

namespace Extends

variable {env env' env'' : List IRType} {s s' s'' : State B T}

theorem refl (env : List IRType) (s : State B T) : Extends env s env s :=
  ⟨List.prefix_refl env, fun _ _ => rfl, rfl, rfl⟩

theorem trans (h : Extends env s env' s') (h' : Extends env' s' env'' s'') :
    Extends env s env'' s'' := by
  refine ⟨h.tyenv.trans h'.tyenv, ?_, h'.reg.trans h.reg, h'.mem.trans h.mem⟩
  intro t ht
  have ht' : t < env'.length := lt_of_lt_of_le ht h.tyenv.length_le
  rw [h'.tmp t ht', h.tmp t ht]

theorem primalEq (h : Extends env s env' s') (g : ℕ) : PrimalEq env.length g s s' :=
  ⟨fun t ht => (h.tmp t ht).symm, fun o _ => by rw [h.reg], h.mem.symm⟩

/-- A new temporary is assigned. -/
theorem setTmp (h : Extends env s env' s') {tmp : IRTemp} (htmp : env.length ≤ tmp)
    (v : List B) : Extends env s env' (s'.setTmp tmp v) := by
  refine ⟨h.tyenv, ?_, h.reg, h.mem⟩
  intro t ht
  have hne : t ≠ tmp := by omega
  rw [← h.tmp t ht]
  exact Function.update_of_ne hne v s'.tmp

/-- A function of the tool is called. -/
theorem withTool (h : Extends env s env' s') (r : (ℕ → B) × T) :
    Extends env s env' (s'.withTool r) :=
  ⟨h.tyenv, h.tmp, h.reg, h.mem⟩

end Extends

/-! ### Values -/

/-- An expression that reads only temporaries and constants has a type and a value. -/
structure HasValue (I : Interp B) (env : List IRType) (s : State B T) (e : IRExpr) (ty : IRType)
    (v : List B) : Prop where
  fits : e.inBounds env.length 0 = true
  type : typeOfIRExpr env e = some ty
  eval : evalExpr I s e = v
  length : v.length = sizeofIRType ty

mutual

theorem IRExpr.inBounds_mono {n n' g : ℕ} (hn : n ≤ n') :
    ∀ e : IRExpr, e.inBounds n g = true → e.inBounds n' g = true
  | .get offset ty, h => by rwa [IRExpr.inBounds] at h ⊢
  | .getI descr ix bias, h => by
      simp only [IRExpr.inBounds, Bool.and_eq_true] at h ⊢
      exact ⟨h.1, IRExpr.inBounds_mono hn ix h.2⟩
  | .rdTmp tmp, h => by
      rw [IRExpr.inBounds, decide_eq_true_eq] at h ⊢
      exact lt_of_lt_of_le h hn
  | .qop op a b c d, h => by
      simp only [IRExpr.inBounds, Bool.and_eq_true] at h ⊢
      exact ⟨⟨⟨a.inBounds_mono hn h.1.1.1, b.inBounds_mono hn h.1.1.2⟩,
        c.inBounds_mono hn h.1.2⟩, d.inBounds_mono hn h.2⟩
  | .triop op a b c, h => by
      simp only [IRExpr.inBounds, Bool.and_eq_true] at h ⊢
      exact ⟨⟨a.inBounds_mono hn h.1.1, b.inBounds_mono hn h.1.2⟩, c.inBounds_mono hn h.2⟩
  | .binop op a b, h => by
      simp only [IRExpr.inBounds, Bool.and_eq_true] at h ⊢
      exact ⟨a.inBounds_mono hn h.1, b.inBounds_mono hn h.2⟩
  | .unop op a, h => by
      rw [IRExpr.inBounds] at h ⊢
      exact a.inBounds_mono hn h
  | .load endness ty addr, h => by
      rw [IRExpr.inBounds] at h ⊢
      exact addr.inBounds_mono hn h
  | .const con, h => by rwa [IRExpr.inBounds] at h ⊢
  | .ite cond iftrue iffalse, h => by
      simp only [IRExpr.inBounds, Bool.and_eq_true] at h ⊢
      exact ⟨⟨cond.inBounds_mono hn h.1.1, iftrue.inBounds_mono hn h.1.2⟩,
        iffalse.inBounds_mono hn h.2⟩
  | .ccall cee retty args, h => by
      rw [IRExpr.inBounds] at h ⊢
      exact IRExpr.allInBounds_mono hn args h
  | .vecret, _ => by rw [IRExpr.inBounds]
  | .gsptr, _ => by rw [IRExpr.inBounds]

theorem IRExpr.allInBounds_mono {n n' g : ℕ} (hn : n ≤ n') :
    ∀ es : List IRExpr, IRExpr.allInBounds n g es = true → IRExpr.allInBounds n' g es = true
  | [], _ => by rw [IRExpr.allInBounds]
  | e :: es, h => by
      simp only [IRExpr.allInBounds, Bool.and_eq_true] at h ⊢
      exact ⟨e.inBounds_mono hn h.1, IRExpr.allInBounds_mono hn es h.2⟩

end

namespace HasValue

variable {I : Interp B} {F : FpSem B} {env env' : List IRType} {s s' : State B T}
  {e a b c d : IRExpr} {ty : IRType} {v va vb vc vd : List B}

/-- Values of expressions are kept while further code is emitted and run. -/
theorem mono (h : HasValue I env s e ty v) (hext : Extends env s env' s') :
    HasValue I env' s' e ty v := by
  refine ⟨e.inBounds_mono hext.tyenv.length_le h.fits, ?_, ?_, h.length⟩
  · obtain ⟨tys, rfl⟩ := hext.tyenv
    exact typeOfIRExpr_append tys e h.type
  · rw [← evalExpr_primalEq (hext.primalEq 0) e h.fits, h.eval]

theorem const (hI : I.IsVex F) (env : List IRType) (s : State B T) (con : IRConst)
    (hcon : con.isBufferAddr = false) :
    HasValue I env s (.const con) (typeOfIRConst con) (I.const con) :=
  ⟨by rw [IRExpr.inBounds, hcon]; rfl, rfl, rfl, hI.length_const con hcon⟩

theorem const_u32 (hI : I.IsVex F) (env : List IRType) (s : State B T) :
    HasValue I env s (.const (.u32 0)) .i32 (List.replicate 4 I.zero) :=
  ⟨rfl, rfl, hI.const_u32, List.length_replicate⟩

theorem const_u64 (hI : I.IsVex F) (env : List IRType) (s : State B T) :
    HasValue I env s (.const (.u64 0)) .i64 (List.replicate 8 I.zero) :=
  ⟨rfl, rfl, hI.const_u64, List.length_replicate⟩

theorem rdTmp {tmp : IRTemp} (hty : env[tmp]? = some ty) (hlen : (s.tmp tmp).length = sizeofIRType ty) :
    HasValue I env s (.rdTmp tmp) ty (s.tmp tmp) := by
  obtain ⟨hlt, -⟩ := List.getElem?_eq_some_iff.mp hty
  exact ⟨by rw [IRExpr.inBounds, decide_eq_true hlt], hty, rfl, hlen⟩

/-- The value of a conditional. -/
theorem ite {cond : IRExpr} (hcond : cond.inBounds env.length 0 = true)
    (h : HasValue I env s a ty va) (h' : HasValue I env s b ty vb) :
    HasValue I env s (.ite cond a b) ty
      (if I.isTrue (evalExpr I s cond) then va else vb) := by
  refine ⟨by rw [IRExpr.inBounds, hcond, h.fits, h'.fits]; rfl, h'.type, ?_, ?_⟩
  · rw [evalExpr, h.eval, h'.eval]
  · split
    · exact h.length
    · exact h'.length

/-- The value of a unary operation that moves bytes. -/
theorem unopMove (hI : I.IsVex F) (h : HasValue I env s a ty va) {op : IROp}
    {route : List Source} (hop : op.route? = some route) :
    HasValue I env s (.unop op a) (typeOfPrimop op).dst (moveBytes I.zero route [va]) := by
  refine ⟨by rw [IRExpr.inBounds]; exact h.fits, rfl, ?_, ?_⟩
  · rw [evalExpr, h.eval, hI.move hop]
  · rw [length_moveBytes, length_route hop]

/-- The value of a binary operation that moves bytes. -/
theorem binopMove (hI : I.IsVex F) {ty' : IRType} (h : HasValue I env s a ty va)
    (h' : HasValue I env s b ty' vb) {op : IROp} {route : List Source}
    (hop : op.route? = some route) :
    HasValue I env s (.binop op a b) (typeOfPrimop op).dst
      (moveBytes I.zero route [va, vb]) := by
  refine ⟨by rw [IRExpr.inBounds, h.fits, h'.fits]; rfl, rfl, ?_, ?_⟩
  · rw [evalExpr, h.eval, h'.eval, hI.move hop]
  · rw [length_moveBytes, length_route hop]

/-- A unary operation that moves consecutive bytes. -/
theorem slice (hI : I.IsVex F) (h : HasValue I env s a ty va) (op : IROp) (start n : ℕ)
    (hop : op.route? = some (fromArg 0 start n)) (hle : start + n ≤ sizeofIRType ty) :
    HasValue I env s (.unop op a) (typeOfPrimop op).dst ((va.drop start).take n) := by
  have hmove := h.unopMove hI hop
  rwa [moveBytes_fromArg rfl (by rw [h.length]; exact hle)] at hmove

/-- A unary operation that does not change the bytes. -/
theorem reinterpret (hI : I.IsVex F) (h : HasValue I env s a ty va) (op : IROp)
    (hop : op.route? = some (fromArg 0 0 (sizeofIRType ty))) :
    HasValue I env s (.unop op a) (typeOfPrimop op).dst va := by
  have hslice := h.slice hI op 0 _ hop (by omega)
  rwa [List.drop_zero, List.take_of_length_le (by rw [h.length])] at hslice

/-- A binary operation that joins its operands, the second one being less significant. -/
theorem join (hI : I.IsVex F) (h : HasValue I env s a ty va) (h' : HasValue I env s b ty vb)
    (op : IROp) (hop : op.route? = some (joinHalves (sizeofIRType ty))) :
    HasValue I env s (.binop op a b) (typeOfPrimop op).dst (vb ++ va) := by
  have hmove := h.binopMove hI h' hop
  rwa [moveBytes_joinHalves h.length h'.length] at hmove

/-- `Iop_64x4toV256` joins its operands. -/
theorem join4 (hI : I.IsVex F) (ha : HasValue I env s a .i64 va) (hb : HasValue I env s b .i64 vb)
    (hc : HasValue I env s c .i64 vc) (hd : HasValue I env s d .i64 vd) :
    HasValue I env s (.qop .op64x4toV256 a b c d) .v256 (vd ++ vc ++ vb ++ va) := by
  have hmove : I.op .op64x4toV256 [va, vb, vc, vd] = vd ++ vc ++ vb ++ va := by
    rw [hI.move rfl]
    exact moveBytes_join4 ha.length hb.length hc.length hd.length
  refine ⟨by rw [IRExpr.inBounds, ha.fits, hb.fits, hc.fits, hd.fits]; rfl, rfl, ?_, ?_⟩
  · rw [evalExpr, ha.eval, hb.eval, hc.eval, hd.eval, hmove]
  · simp only [List.length_append, ha.length, hb.length, hc.length, hd.length]
    rfl

end HasValue

/-! ### Running emitted code -/

/-- Emitted code means what it does when it is run; it takes no side exit. -/
def execMeaning (M : Machine B T) : Emitter.Meaning IRType IRStmt (State B T) where
  total := true
  rel _ sts s s' := ∀ tyenv, execStmts M tyenv sts s = (s', none)
  nil _ _ _ := rfl
  append h h' tyenv := by rw [execStmts_append, h tyenv]; exact h' tyenv
  mono h := h

/-- Emit code, and run it. -/
def runEmit {α : Type} (M : Machine B T) (m : Emit α) (env : List IRType) (s : State B T) :
    Option (α × State B T) :=
  (m env).map fun (a, tys, sts) => (a, (execStmts M (env ++ tys) sts s).1)

theorem runEmit_bind_pure {α β : Type} (M : Machine B T) (m : Emit α) (f : α → β)
    (env : List IRType) (s : State B T) :
    runEmit M (m >>= fun a => pure (f a)) env s
      = (runEmit M m env s).map fun (a, s') => (f a, s') := by
  rw [runEmit, runEmit]
  cases hm : m env with
  | none =>
    show ((m env).bind _).map _ = _
    rw [hm]
    rfl
  | some r =>
    obtain ⟨a, tys, sts⟩ := r
    rw [Emitter.bind_eq_of_eq_some hm]
    show some (f a, (execStmts M (env ++ (tys ++ [])) (sts ++ []) s).1) = _
    rw [List.append_nil, List.append_nil]
    rfl

/-- An assertion that holds has no effect. -/
theorem tlAssert_true_bind {α : Type} (f : Unit → Emit α) : (tlAssert true >>= f) = f () := by
  funext env
  show ((f () (env ++ [])).map fun (b, tys, items) => (b, [] ++ tys, [] ++ items)) = f () env
  rw [List.append_nil]
  cases f () env <;> rfl

theorem exists_runEmit {α : Type} {M : Machine B T} {m : Emit α} {env : List IRType}
    {s : State B T} {Q : α → List IRType → State B T → Prop} (h : (execMeaning M).wp m env s Q) :
    ∃ a env' s', runEmit M m env s = some (a, s') ∧ Q a env' s' := by
  obtain ⟨⟨a, tys, sts⟩, hm⟩ := Option.isSome_iff_exists.mp (h.succeeds rfl)
  obtain ⟨s', hrun, hQ⟩ := h.ends a tys sts hm
  refine ⟨a, env ++ tys, s', ?_, hQ⟩
  rw [runEmit, hm, Option.map_some]
  show some (a, (execStmts M (env ++ tys) sts s).1) = _
  rw [hrun (env ++ tys)]

section Rules

open Emitter.Meaning

variable {M : Machine B T} {env : List IRType} {s : State B T}

/-- Call a function of Derivgrind. -/
theorem wp_addDirty {helper : ToolHelper} {args : List IRExpr}
    {Q : Unit → List IRType → State B T → Prop} (htrue : M.isTrue (M.const (.u1 true)) = true)
    {r : List B × (ℕ → B) × T}
    (hr : M.toolDirty helper (evalExprs M.toInterp s args) s.buf s.tool = r)
    (h : Q () env (s.withTool r.2)) :
    (execMeaning M).wp (addDirty helper args) env s Q := by
  refine wp_emit ?_ h
  intro tyenv
  simp only [execStmts, execStmt, execDirty, evalExpr, htrue, if_pos, hr, State.setTmp?,
    State.withTool]

/-- Call a function of Derivgrind, and assign its result. -/
theorem wp_addDirtyTmp {tmp : IRTemp} {helper : ToolHelper} {args : List IRExpr}
    {Q : Unit → List IRType → State B T → Prop} (htrue : M.isTrue (M.const (.u1 true)) = true)
    {r : List B × (ℕ → B) × T}
    (hr : M.toolDirty helper (evalExprs M.toInterp s args) s.buf s.tool = r)
    (h : Q () env ((s.setTmp tmp r.1).withTool r.2)) :
    (execMeaning M).wp (addDirtyTmp tmp helper args) env s Q := by
  refine wp_emit ?_ h
  intro tyenv
  simp only [execStmts, execStmt, execDirty, evalExpr, htrue, if_pos, hr, State.setTmp?,
    State.withTool]

end Rules

end Derivgrind
