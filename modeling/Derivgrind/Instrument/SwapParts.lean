import Derivgrind.Instrument.TypedHandle
import Derivgrind.Shadow.Layers

/-!
# The code for compare-and-swap statements

A compare-and-swap statement is replaced by loads, comparisons and stores, which are emitted
by several functions.  This file says what each part of the emitted code does.

## Main definitions

* `Interp.IntegerOps` — the integer operations in emitted code.
* `IRCAS.Valid` — a compare-and-swap statement in a superblock of the client.
* `ValuesAgree`, `ShadowsAgree` — the two conditions that are tested.
* `CASElement`, `CASProgress` — an element of the statement, and the state after the comparison.

## Main results

* `wp_casSingle`, `wp_casDouble` — the code in front of the statement.
* `wp_originalSingle`, `wp_originalDouble` — the code in place of the statement.
-/

namespace Derivgrind

open Emitter.Meaning

variable {T : Type}

/-! ### Integer operations -/

/-- The integer operations that are used in the code for compare-and-swap statements. -/
structure Interp.IntegerOps (I : Interp Byte) : Prop where
  const : ∀ con : IRConst, con.isBufferAddr = false → I.const con = hostConst con
  addr : ∀ v, I.addr v = bitsOf 64 v
  and1 : ∀ a b, I.isTrue (I.op (.helper .and1) [a, b]) = (I.isTrue a && I.isTrue b)
  cmpEQ : ∀ {ty cmp}, cmpOfType? ty = some cmp → ∀ {v v'}, v.length = sizeofIRType ty →
    v'.length = sizeofIRType ty → I.isTrue (I.op cmp [v, v']) = decide (v = v')
  add32 : ∀ {v}, v.length = 4 → ∀ x : BitVec 32,
    I.op (.helper .add32) [v, bytesOf x] = bytesOf (bitsOf 32 v + x)
  add64 : ∀ {v}, v.length = 8 → ∀ x : BitVec 64,
    I.op (.helper .add64) [v, bytesOf x] = bytesOf (bitsOf 64 v + x)
  isTrue_true : I.isTrue (I.const (.u1 true)) = true

/-- These operations on machine bytes; other operations have no result. -/
def integerOp : IROp → List (List Byte) → List Byte
  | .helper .and1, [a, b] => [(a.getD 0 0) &&& (b.getD 0 0)]
  | .helper .cmpEQ8, [a, b] => [if a = b then 1 else 0]
  | .helper .cmpEQ16, [a, b] => [if a = b then 1 else 0]
  | .helper .cmpEQ32, [a, b] => [if a = b then 1 else 0]
  | .helper .cmpEQ64, [a, b] => [if a = b then 1 else 0]
  | .helper .add32, [a, b] => bytesOf (bitsOf 32 a + bitsOf 32 b)
  | .helper .add64, [a, b] => bytesOf (bitsOf 64 a + bitsOf 64 b)
  | _, _ => []

theorem integerOps_hostInterp (F : FpSem Byte) :
    (hostInterp F { Interp.silent with op := integerOp }).IntegerOps where
  const _ _ := rfl
  addr _ := rfl
  and1 a b := by
    show ((a.getD 0 0) &&& (b.getD 0 0)).getLsbD 0 = _
    exact BitVec.getLsbD_and
  cmpEQ := by
    intro ty cmp hcmp v v' _ _
    have htest : (hostInterp F { Interp.silent with op := integerOp }).isTrue
        [if v = v' then (1 : Byte) else 0] = decide (v = v') := by
      by_cases h : v = v'
      · simp only [hostInterp, h]
        decide
      · simp only [hostInterp, h]
        decide
    cases ty with
    | i8 => obtain rfl := Option.some_inj.mp hcmp; exact htest
    | i16 => obtain rfl := Option.some_inj.mp hcmp; exact htest
    | i32 => obtain rfl := Option.some_inj.mp hcmp; exact htest
    | i64 => obtain rfl := Option.some_inj.mp hcmp; exact htest
    | _ => cases hcmp
  add32 := by
    intro v _ x
    show bytesOf (bitsOf 32 v + bitsOf 32 (bytesOf x)) = _
    rw [bitsOf_bytesOf (by decide)]
  add64 := by
    intro v _ x
    show bytesOf (bitsOf 64 v + bitsOf 64 (bytesOf x)) = _
    rw [bitsOf_bytesOf (by decide)]
  isTrue_true := by
    show (hostInterp F { Interp.silent with op := integerOp }).isTrue (hostConst (.u1 true)) = true
    simp only [hostInterp]
    decide

/-! ### Statements of the client -/

/-- `isIRAtom`. -/
def IRExpr.isAtom : IRExpr → Bool
  | .rdTmp _ => true
  | .const _ => true
  | _ => false

/-- `isFlatIRStmt`, for compare-and-swap statements. -/
def IRCAS.isFlat (d : IRCAS) : Bool :=
  d.addr.isAtom && d.expdLo.isAtom && d.dataLo.isAtom && d.expdHi.all IRExpr.isAtom &&
    d.dataHi.all IRExpr.isAtom

/-- A compare-and-swap statement in a flat superblock of the client, which passes the sanity
check after some temporaries have been assigned. -/
structure IRCAS.Valid (d : IRCAS) (tyenv : List IRType) (wordTy : IRType) : Prop where
  checked : ∃ assigned, (checkStmt tyenv wordTy assigned (.cas d)).isSome = true
  inBounds : (IRStmt.cas d).inBounds tyenv.length 0 = true
  flat : d.isFlat = true

/-- The values of temporaries have the sizes of their types. -/
def State.Typed {B : Type} (env : List IRType) (s : State B T) : Prop :=
  ∀ t ty, env[t]? = some ty → (s.tmp t).length = sizeofIRType ty

/-! ### What it should do -/

/-- One of the elements: its address, the expected value and the new data. -/
structure SwapHalf where
  addr : Addr
  expd : IRExpr
  data : IRExpr

section Spec

variable (I : Interp Byte) (n : ℕ) (s : State Byte T) (d : IRCAS)

/-- The elements of a compare-and-swap statement. -/
def IRCAS.halves : List SwapHalf :=
  let addr := I.addr (evalExpr I s d.addr)
  let next := addrAfter (evalExpr I s d.addr).length addr (evalExpr I s d.expdLo).length
  match d.expdHi, d.dataHi with
  | some expdHi, some dataHi =>
      match d.endness with
      | .le => [⟨addr, d.expdLo, d.dataLo⟩, ⟨next, expdHi, dataHi⟩]
      | .be => [⟨next, d.expdLo, d.dataLo⟩, ⟨addr, expdHi, dataHi⟩]
  | _, _ => [⟨addr, d.expdLo, d.dataLo⟩]

/-- The shadow of an atom, for the given layer: constants have zero shadows. -/
def shadowOfAtom (e : IRExpr) (k : ℕ) : List Byte :=
  match e with
  | .rdTmp t => s.tmp (t + (k + 1) * n)
  | e => List.replicate (evalExpr I s e).length 0

/-- The previous contents of memory are the expected values. -/
def ValuesAgree : Prop :=
  ∀ h ∈ d.halves I s, evalExpr I s h.expd
    = d.endness.order (readMem s.mem h.addr (evalExpr I s d.expdLo).length)

/-- The previous contents of shadow memory are the shadows of the expected values. -/
def ShadowsAgree (L : ℕ) (mem : ℕ → Addr → Byte) : Prop :=
  ∀ h ∈ d.halves I s, ∀ k < L, shadowOfAtom I n s h.expd k
    = readMem (mem k) h.addr (evalExpr I s d.expdLo).length

/-- Memory with the new data. -/
def swapped : Addr → Byte :=
  (d.halves I s).foldl (fun f h => writeMem f h.addr (d.endness.order (evalExpr I s h.data))) s.mem

/-- Shadow memory with the shadow of the new data. -/
def shadowSwapped (mem : ℕ → Addr → Byte) (k : ℕ) : Addr → Byte :=
  (d.halves I s).foldl (fun f h => writeMem f h.addr (shadowOfAtom I n s h.data k)) (mem k)

end Spec

/-! ### Shadows of atoms -/

section Atoms

variable {I : Interp Byte} {tyenv env : List IRType} {s : State Byte T} {e : IRExpr} {ty : IRType}

/-- The shadow of an atom. -/
def atomShadow (eh : ExpressionHandling) (denv : DiffEnv) : IRExpr → Shadow
  | .rdTmp t => eh.rdtmp denv t
  | .const con => eh.constant con
  | _ => []

/-- No code is emitted for the shadow of an atom. -/
theorem dgModifyExpressionOrDefault_atom (eh : ExpressionHandling) (denv : DiffEnv)
    (h : e.isAtom = true) :
    dgModifyExpressionOrDefault eh denv e = return atomShadow eh denv e := by
  funext env
  cases e with
  | rdTmp t => rfl
  | const con => rfl
  | _ => cases h

/-- Integer constants have zero shadows. -/
theorem hasShadow_constant (hI : I.IntegerOps) (o : Options) (env : List IRType)
    (s : State Byte T) {con : IRConst} (hcon : con.isBufferAddr = false) {cmp : IROp}
    (hcmp : cmpOfType? (typeOfIRConst con) = some cmp) :
    HasShadow I env s o.expressionhandling.layers (o.expressionhandling.constant con)
      (typeOfIRConst con) fun _ => List.replicate (I.const con).length 0 := by
  have hzero : ∀ zero : IRConst, zero.isBufferAddr = false → typeOfIRConst zero = typeOfIRConst con →
      hostConst zero = List.replicate (hostConst con).length 0 →
      (hostConst con).length = sizeofIRType (typeOfIRConst con) →
      HasValue I env s (.const zero) (typeOfIRConst con) (List.replicate (I.const con).length 0) := by
    intro zero hbuffer htype hvalue hlength
    refine ⟨by rw [IRExpr.inBounds, hbuffer]; rfl, by rw [typeOfIRExpr, htype], ?_, ?_⟩
    · rw [evalExpr, hI.const zero hbuffer, hI.const con hcon, hvalue]
    · rw [List.length_replicate, hI.const con hcon, hlength]
  have hlayers : ∀ zero, o.expressionhandling.constant con
        = List.replicate o.expressionhandling.layers (.const zero) →
      HasValue I env s (.const zero) (typeOfIRConst con) (List.replicate (I.const con).length 0) →
      HasShadow I env s o.expressionhandling.layers (o.expressionhandling.constant con)
        (typeOfIRConst con) fun _ => List.replicate (I.const con).length 0 := by
    intro zero hconst hvalue
    rw [hconst]
    refine ⟨List.length_replicate, fun k hk => ?_⟩
    rwa [Shadow.layer, List.getD_eq_getElem _ _ (by simpa using hk), List.getElem_replicate]
  obtain ⟨mode, typegrind⟩ := o
  cases con with
  | u8 x =>
    refine hlayers (.u8 0) ?_ (hzero _ rfl rfl rfl rfl)
    cases mode <;> rfl
  | u16 x =>
    refine hlayers (.u16 0) ?_ (hzero _ rfl rfl rfl rfl)
    cases mode <;> rfl
  | u32 x =>
    refine hlayers (.u32 0) ?_ (hzero _ rfl rfl rfl rfl)
    cases mode <;> rfl
  | u64 x =>
    refine hlayers (.u64 0) ?_ (hzero _ rfl rfl rfl rfl)
    cases mode <;> rfl
  | bufferAddr ty k => cases hcon
  | _ => cases hcmp

/-- The values of the shadow of an atom. -/
theorem hasShadow_atom (hI : I.IntegerOps) (o : Options) {denv : DiffEnv}
    (hn : denv.tmpOffset = tyenv.length)
    (henv : shadowedTyenv o.expressionhandling.layers tyenv <+: env) (hatom : e.isAtom = true)
    (hfits : e.inBounds tyenv.length 0 = true) (hty : typeOfIRExpr tyenv e = some ty) {cmp : IROp}
    (hcmp : cmpOfType? ty = some cmp)
    (hlen : ∀ k < o.expressionhandling.layers,
      (shadowOfAtom I tyenv.length s e k).length = sizeofIRType ty) :
    HasShadow I env s o.expressionhandling.layers (atomShadow o.expressionhandling denv e) ty
      (shadowOfAtom I tyenv.length s e) := by
  cases e with
  | rdTmp t =>
    have ht : t < tyenv.length := by simpa [IRExpr.inBounds] using hfits
    refine ⟨by simp [atomShadow, ExpressionHandling.rdtmp], fun k hk => ?_⟩
    rw [atomShadow, ExpressionHandling.rdtmp, layer_map_range hk, hn]
    refine HasValue.ofTmp (getElem?_of_prefixed henv ?_) rfl (hlen k hk)
    rw [getElem?_shadowedTyenv hk ht]
    exact hty
  | const con =>
    have hcon : con.isBufferAddr = false := by simpa [IRExpr.inBounds] using hfits
    obtain rfl : typeOfIRConst con = ty := Option.some_inj.mp hty
    exact hasShadow_constant hI o env s hcon hcmp
  | _ => cases hatom

end Atoms

/-! ### Parts of the emitted code -/

section Parts

variable {M : Machine Byte T} {o : Options} {Shadows : T → (ℕ → Addr → Byte) → Prop}
  {env : List IRType} {s : State Byte T} {mem : ℕ → Addr → Byte} {denv : DiffEnv}
  {addr expd : IRExpr} {wordTy ty : IRType} {va ve : List Byte} {cmp : IROp}

theorem isTrue_and1 {I : Interp Byte} (hI : I.IntegerOps) (s : State Byte T) (a b : IRExpr) :
    I.isTrue (evalExpr I s (and1 a b)) = true
      ↔ I.isTrue (evalExpr I s a) = true ∧ I.isTrue (evalExpr I s b) = true := by
  rw [and1, evalExpr, hI.and1, Bool.and_eq_true]

/-- The conjunction of the comparisons of all layers. -/
theorem isTrue_foldl_and1 {I : Interp Byte} (hI : I.IntegerOps) (s : State Byte T)
    (equal : ℕ → IRExpr) : ∀ m,
    I.isTrue (evalExpr I s
        ((List.range m).foldl (fun e k => and1 e (equal (k + 1))) (equal 0))) = true
      ↔ ∀ k < m + 1, I.isTrue (evalExpr I s (equal k)) = true := by
  intro m
  induction m with
  | zero =>
    refine ⟨fun h k hk => ?_, fun h => h 0 (Nat.zero_lt_one)⟩
    obtain rfl : k = 0 := Nat.lt_one_iff.mp hk
    exact h
  | succ m ih =>
    rw [List.range_succ, List.foldl_append, List.foldl_cons, List.foldl_nil, isTrue_and1 hI, ih]
    constructor
    · rintro ⟨h, hm⟩ k hk
      by_cases hkm : k = m + 1
      · rw [hkm]
        exact hm
      · exact h k (by omega)
    · exact fun h => ⟨fun k hk => h k (by omega), h (m + 1) (by omega)⟩

theorem inBounds_foldl_and1 {n : ℕ} {equal : ℕ → IRExpr} : ∀ {m : ℕ},
    (∀ k < m + 1, (equal k).inBounds n 0 = true) →
    ((List.range m).foldl (fun e k => and1 e (equal (k + 1))) (equal 0)).inBounds n 0 = true := by
  intro m
  induction m with
  | zero => exact fun h => h 0 Nat.zero_lt_one
  | succ m ih =>
    intro h
    rw [List.range_succ, List.foldl_append, List.foldl_cons, List.foldl_nil, and1,
      IRExpr.inBounds, ih fun k hk => h k (by omega), h (m + 1) (by omega)]
    rfl

/-- Loading from memory. -/
theorem evalExpr_load {I : Interp Byte} (hI : I.IntegerOps) (haddr : HasValue I env s addr wordTy va)
    (endness : IREndness) (ty : IRType) : evalExpr I s (.load endness ty addr)
      = endness.order (readMem s.mem (bitsOf 64 va) (sizeofIRType ty)) := by
  rw [evalExpr, bufferOffset?_of_inBounds haddr.fits, haddr.eval, hI.addr]

theorem length_order {B : Type} (endness : IREndness) (v : List B) :
    (endness.order v).length = v.length := by
  cases endness with
  | le => rfl
  | be => exact List.length_reverse

theorem length_readMem {B : Type} (f : Addr → B) (a : Addr) (n : ℕ) :
    (readMem f a n).length = n := by
  simp [readMem]

/-- Expected values and their shadows are compared with memory and shadow memory. -/
theorem wp_equalCAS (hI : M.toInterp.IntegerOps) (hM : M.ShadowCalls o.expressionhandling Shadows)
    (hmem : Shadows s.tool mem) (endness : IREndness)
    (haddr : HasValue M.toInterp env s addr wordTy va)
    (hexpd : HasValue M.toInterp env s expd ty ve) (hatom : expd.isAtom = true)
    {vs : ℕ → List Byte} (hshadow : HasShadow M.toInterp env s o.expressionhandling.layers
      (atomShadow o.expressionhandling denv expd) ty vs) (hcmp : cmpOfType? ty = some cmp) :
    (execMeaning M).wp (equalCAS o.expressionhandling denv endness ty addr expd) env s
      fun e env' s' => Extends env s env' s' ∧ s'.tool = s.tool ∧
        e.inBounds env'.length 0 = true ∧
        (M.isTrue (evalExpr M.toInterp s' e) = true ↔
          ve = endness.order (readMem s.mem (bitsOf 64 va) (sizeofIRType ty)) ∧
          ∀ k < o.expressionhandling.layers,
            vs k = readMem (mem k) (bitsOf 64 va) (sizeofIRType ty)) := by
  have hpos := hM.layers_pos
  unfold equalCAS
  rw [hcmp, dgModifyExpressionOrDefault_atom _ _ hatom]
  apply wp_bind
  apply wp_ofOption
  apply wp_bind
  apply wp_pure
  apply wp_bind
  refine wp_mono (wp_shadowLoad hM.maps hmem denv haddr ty) ?_
  rintro loaded env₁ s₁ ⟨hext, htool, -, hloaded⟩
  have hshadow₁ := hshadow.mono hext
  have hexpd₁ := hexpd.mono hext
  have haddr₁ := haddr.mono hext
  apply wp_bind
  apply wp_bind
  apply wp_typeOf (hshadow₁.layer 0 hpos).type
  apply wp_bind
  apply wp_typeOf (hloaded.layer 0 hpos).type
  apply wp_bind
  refine wp_tlAssert (decide_eq_true rfl) ?_
  rw [hcmp]
  apply wp_bind
  apply wp_ofOption
  apply wp_pure
  apply wp_pure
  have hlayers : o.expressionhandling.layers - 1 + 1 = o.expressionhandling.layers := by omega
  -- the comparison of a layer
  set equal : ℕ → IRExpr := fun k =>
    .binop cmp ((atomShadow o.expressionhandling denv expd).layer k) (loaded.layer k) with hequal
  have hfits : ∀ k < o.expressionhandling.layers - 1 + 1,
      (equal k).inBounds env₁.length 0 = true := by
    intro k hk
    rw [hlayers] at hk
    rw [hequal, IRExpr.inBounds, (hshadow₁.layer k hk).fits, (hloaded.layer k hk).fits]
    rfl
  have htrue : ∀ k < o.expressionhandling.layers,
      (M.isTrue (evalExpr M.toInterp s₁ (equal k)) = true ↔
        vs k = readMem (mem k) (bitsOf 64 va) (sizeofIRType ty)) := by
    intro k hk
    rw [hequal, evalExpr, (hshadow₁.layer k hk).eval, (hloaded.layer k hk).eval,
      hI.cmpEQ hcmp (hshadow.layer k hk).length (length_readMem _ _ _), decide_eq_true_eq]
  have hfold := isTrue_foldl_and1 hI s₁ equal (o.expressionhandling.layers - 1)
  rw [hlayers] at hfold
  refine ⟨hext, htool, ?_, ?_⟩
  · rw [and1, IRExpr.inBounds, IRExpr.inBounds, hexpd₁.fits, IRExpr.inBounds, haddr₁.fits]
    exact inBounds_foldl_and1 hfits
  · rw [isTrue_and1 hI, evalExpr, evalExpr_load hI haddr₁, hexpd₁.eval, hext.mem,
      hI.cmpEQ hcmp hexpd.length (by rw [length_order, length_readMem]), decide_eq_true_eq]
    refine and_congr_right fun _ => hfold.trans ?_
    exact forall₂_congr htrue

/-- As `Extends`, but some temporaries may have been assigned. -/
structure ExtendsBut (X : Set IRTemp) (env : List IRType) (s : State Byte T) (env' : List IRType)
    (s' : State Byte T) : Prop where
  tyenv : env <+: env'
  tmp : ∀ t < env.length, t ∉ X → s'.tmp t = s.tmp t
  reg : s'.reg = s.reg
  mem : s'.mem = s.mem

namespace ExtendsBut

variable {X : Set IRTemp} {env' env'' : List IRType} {s' s'' : State Byte T}

theorem of_extends (h : Extends env s env' s') : ExtendsBut X env s env' s' :=
  ⟨h.tyenv, fun t ht _ => h.tmp t ht, h.reg, h.mem⟩

theorem trans (h : ExtendsBut X env s env' s') (h' : ExtendsBut X env' s' env'' s'') :
    ExtendsBut X env s env'' s'' := by
  refine ⟨h.tyenv.trans h'.tyenv, ?_, h'.reg.trans h.reg, h'.mem.trans h.mem⟩
  intro t ht htX
  rw [h'.tmp t (lt_of_lt_of_le ht h.tyenv.length_le) htX, h.tmp t ht htX]

/-- The value of an expression of the client. -/
theorem hasValue {I : Interp Byte} {n : ℕ} {e : IRExpr} {v : List Byte}
    (h : ExtendsBut X env s env' s') (hX : ∀ t ∈ X, n ≤ t) (hn : n ≤ env.length)
    (hfits : e.inBounds n 0 = true) (hv : HasValue I env s e ty v) :
    HasValue I env' s' e ty v := by
  have hprimal : PrimalEq n 0 s s' := by
    refine ⟨fun t ht => (h.tmp t (by omega) fun htX => ?_).symm, fun o ho => by omega, h.mem.symm⟩
    exact absurd (hX t htX) (by omega)
  refine ⟨e.inBounds_mono h.tyenv.length_le hv.fits, ?_, ?_, hv.length⟩
  · obtain ⟨tys, rfl⟩ := h.tyenv
    exact typeOfIRExpr_append tys e hv.type
  · rw [← evalExpr_primalEq hprimal e hfits, hv.eval]

end ExtendsBut

/-- The shadow of a temporary is assigned. -/
theorem wp_shadowOldCAS (hM : M.ShadowCalls o.expressionhandling Shadows)
    (hmem : Shadows s.tool mem) (haddr : HasValue M.toInterp env s addr wordTy va) (ty : IRType)
    (old : IRTemp) {X : Set IRTemp} (hX : ∀ k < o.expressionhandling.layers, old + (k + 1) * denv.tmpOffset ∈ X)
    (hold : ∀ k < o.expressionhandling.layers, old + (k + 1) * denv.tmpOffset < env.length) :
    (execMeaning M).wp (shadowOldCAS o.expressionhandling denv ty addr old) env s
      fun _ env' s' => ExtendsBut X env s env' s' ∧ s'.tool = s.tool := by
  apply wp_bind
  refine wp_mono (wp_shadowLoad hM.maps hmem denv haddr ty) ?_
  rintro loaded env₁ s₁ ⟨hext, htool, hfresh, hloaded⟩
  set v : ℕ → List Byte := fun k => readMem (mem k) (bitsOf 64 va) (sizeofIRType ty)
  set f : ℕ → IRTemp := fun k => old + (k + 1) * denv.tmpOffset with hf
  have hrun : ∀ tyenv, execStmts M tyenv ((List.range o.expressionhandling.layers).map fun k =>
      .wrTmp (f k) (loaded.layer k)) s₁ = (s₁.setTmps f v o.expressionhandling.layers, none) := by
    intro tyenv
    refine execStmts_wrTmps M tyenv fun k hk => ?_
    have hvalue : s₁.tmp (env.length + k) = v k := by
      have heval := (hloaded.layer k hk).eval
      rwa [hfresh, layer_map_range hk] at heval
    rw [hfresh, layer_map_range hk, evalExpr, ← hvalue]
    -- the temporaries that have been loaded are new
    refine s₁.setTmps_tmp_of_ne v fun j hj => ?_
    have hlt := hold j (by omega)
    exact Nat.ne_of_gt (Nat.lt_of_lt_of_le hlt (Nat.le_add_right _ k))
  refine wp_emit hrun ⟨?_, ?_⟩
  · obtain ⟨tmp, htmp⟩ := s₁.setTmps_eq f v o.expressionhandling.layers
    refine (ExtendsBut.of_extends hext).trans ⟨List.prefix_refl _, fun t _ htX => ?_, ?_, ?_⟩
    · refine s₁.setTmps_tmp_of_ne v fun k hk h => htX ?_
      rw [h]
      exact hX k hk
    · rw [htmp]
    · rw [htmp]
  · obtain ⟨tmp, htmp⟩ := s₁.setTmps_eq f v o.expressionhandling.layers
    rw [htmp]
    exact htool

/-- The shadow of the new data is stored if the comparison succeeded. -/
theorem wp_shadowStoreCAS (hM : M.ShadowCalls o.expressionhandling Shadows)
    (hmem : Shadows s.tool mem) (haddr : HasValue M.toInterp env s addr wordTy va) {data : IRExpr}
    (hatom : data.isAtom = true) {vs : ℕ → List Byte}
    (hshadow : HasShadow M.toInterp env s o.expressionhandling.layers
      (atomShadow o.expressionhandling denv data) ty vs) {c : IRTemp} (hc : c < env.length)
    (X : Set IRTemp) :
    (execMeaning M).wp (shadowStoreCAS o.expressionhandling denv addr data c) env s
      fun _ env' s' => ExtendsBut X env s env' s' ∧ s'.tmp = s.tmp ∧ Shadows s'.tool fun k =>
        if M.isTrue (s.tmp c) then writeMem (mem k) (bitsOf 64 va) (vs k) else mem k := by
  have hguard : (IRExpr.rdTmp c).inBounds env.length 0 = true := by
    rw [IRExpr.inBounds, decide_eq_true hc]
  unfold shadowStoreCAS
  rw [dgModifyExpressionOrDefault_atom _ _ hatom]
  apply wp_bind
  apply wp_pure
  refine wp_mono (wp_shadowStore hM.maps hmem denv haddr hshadow hguard) ?_
  rintro _ env' s' ⟨rfl, ⟨r, rfl⟩, hmem'⟩
  exact ⟨ExtendsBut.of_extends ((Extends.refl _ s).withTool r), rfl, hmem'⟩

end Parts

/-! ### Expressions of the statement -/

section Expressions

variable {I : Interp Byte} {L : ℕ} {tyenv env env' : List IRType} {X : Set IRTemp}
  {s s' : State Byte T} {e addr next : IRExpr} {wordTy ty : IRType} {v va : List Byte}
  {vs : ℕ → List Byte}

/-- An atom with its value and its shadow.  The shadow is not in temporaries that are going to
be assigned. -/
structure AtomValue (I : Interp Byte) (L : ℕ) (tyenv : List IRType) (X : Set IRTemp)
    (env : List IRType) (s : State Byte T) (e : IRExpr) (ty : IRType) (v : List Byte)
    (vs : ℕ → List Byte) : Prop where
  declared : shadowedTyenv L tyenv <+: env
  atom : e.isAtom = true
  fits : e.inBounds tyenv.length 0 = true
  type : typeOfIRExpr tyenv e = some ty
  value : HasValue I env s e ty v
  shadow : ∀ k < L, shadowOfAtom I tyenv.length s e k = vs k
  length : ∀ k < L, (vs k).length = sizeofIRType ty
  apart : ∀ t ∈ e.reads, ∀ k, t + (k + 1) * tyenv.length ∉ X

theorem length_le_of_declared (h : shadowedTyenv L tyenv <+: env) : tyenv.length ≤ env.length := by
  have hle := h.length_le
  unfold shadowedTyenv at hle
  rw [List.length_append] at hle
  omega

namespace AtomValue

theorem mono (h : AtomValue I L tyenv X env s e ty v vs) (hX : ∀ t ∈ X, tyenv.length ≤ t)
    (hext : ExtendsBut X env s env' s') : AtomValue I L tyenv X env' s' e ty v vs := by
  have hn := length_le_of_declared h.declared
  have hvalue := hext.hasValue hX hn h.fits h.value
  refine ⟨h.declared.trans hext.tyenv, h.atom, h.fits, h.type, hvalue, ?_, h.length, h.apart⟩
  intro k hk
  rw [← h.shadow k hk]
  cases e with
  | rdTmp t =>
    have ht : t < tyenv.length := by simpa [IRExpr.inBounds] using h.fits
    obtain ⟨ty', hty'⟩ : ∃ ty', tyenv[t]? = some ty' := ⟨_, List.getElem?_eq_getElem ht⟩
    have hlookup := getElem?_of_prefixed h.declared
      ((getElem?_shadowedTyenv hk ht).trans hty')
    obtain ⟨hlt, -⟩ := List.getElem?_eq_some_iff.mp hlookup
    exact hext.tmp _ hlt (h.apart t (by simp) k)
  | const con => rfl
  | _ => cases h.atom

theorem hasShadow {o : Options} (h : AtomValue I o.expressionhandling.layers tyenv X env s e ty v vs)
    (hI : I.IntegerOps) {denv : DiffEnv} (hn : denv.tmpOffset = tyenv.length) {cmp : IROp}
    (hcmp : cmpOfType? ty = some cmp) :
    HasShadow I env s o.expressionhandling.layers (atomShadow o.expressionhandling denv e) ty vs := by
  have hshadow := hasShadow_atom (s := s) hI o hn h.declared h.atom h.fits h.type hcmp fun k hk => by
    rw [h.shadow k hk, h.length k hk]
  refine ⟨hshadow.length, fun k hk => ?_⟩
  rw [← h.shadow k hk]
  exact hshadow.layer k hk

end AtomValue

/-! ### Addresses -/

/-- The address of the element at the higher address. -/
theorem hasValue_next (hI : I.IntegerOps) (haddr : HasValue I env s addr wordTy va)
    {k : ℕ} (hk : k < 2 ^ 32) (hnext : addToAddr? wordTy addr k = some next) :
    ∃ vn, HasValue I env s next wordTy vn ∧ bitsOf 64 vn = addrAfter va.length (bitsOf 64 va) k := by
  have hbits : ∀ {w : ℕ} (x : BitVec w) (m : ℕ), 8 * m = w → w ≤ 64 →
      va.length = m → x = bitsOf w va + BitVec.ofNat w k → k < 2 ^ w →
      bitsOf 64 (bytesOf x) = addrAfter va.length (bitsOf 64 va) k := by
    rintro w x m rfl hw hlen rfl hk
    have hlt : bytesToNat va < 2 ^ (8 * m) := by
      have hlt := bytesToNat_lt va
      rwa [hlen, show (256 : ℕ) = 2 ^ 8 from rfl, ← Nat.pow_mul] at hlt
    have hle : 2 ^ (8 * m) ≤ 2 ^ 64 := Nat.pow_le_pow_right (by decide) hw
    have hsum : (bitsOf (8 * m) va + BitVec.ofNat (8 * m) k).toNat
        = (bytesToNat va + k) % 2 ^ (8 * m) := by
      rw [BitVec.toNat_add, bitsOf, BitVec.toNat_ofNat, BitVec.toNat_ofNat,
        Nat.mod_eq_of_lt hlt, Nat.mod_eq_of_lt hk]
    have hpow : 256 ^ (8 * m / 8) = 2 ^ (8 * m) := by
      rw [Nat.mul_div_cancel_left m (by decide), Nat.pow_mul]
    rw [bitsOf, bytesOf, bytesToNat_natToBytes, hsum, hpow, Nat.mod_mod, addrAfter, hlen, bitsOf,
      BitVec.toNat_ofNat, Nat.mod_eq_of_lt (lt_of_lt_of_le hlt hle)]
  cases wordTy with
  | i32 =>
    obtain rfl := Option.some_inj.mp hnext
    have hlen : va.length = 4 := haddr.length
    refine ⟨bytesOf (bitsOf 32 va + BitVec.ofNat 32 k), ⟨?_, rfl, ?_, rfl⟩,
      hbits _ 4 rfl (by decide) hlen rfl hk⟩
    · rw [IRExpr.inBounds, haddr.fits]
      rfl
    · rw [evalExpr, haddr.eval, evalExpr, hI.const _ rfl]
      exact hI.add32 hlen _
  | i64 =>
    obtain rfl := Option.some_inj.mp hnext
    have hlen : va.length = 8 := haddr.length
    refine ⟨bytesOf (bitsOf 64 va + BitVec.ofNat 64 k), ⟨?_, rfl, ?_, rfl⟩,
      hbits _ 8 rfl (by decide) hlen rfl (by omega)⟩
    · rw [IRExpr.inBounds, haddr.fits]
      rfl
    · rw [evalExpr, haddr.eval, evalExpr, hI.const _ rfl]
      exact hI.add64 hlen _
  | _ => cases hnext

theorem next_inBounds {n k : ℕ} (hfits : addr.inBounds n 0 = true)
    (hnext : addToAddr? wordTy addr k = some next) : next.inBounds n 0 = true := by
  cases wordTy with
  | i32 =>
    obtain rfl := Option.some_inj.mp hnext
    rw [IRExpr.inBounds, hfits]
    rfl
  | i64 =>
    obtain rfl := Option.some_inj.mp hnext
    rw [IRExpr.inBounds, hfits]
    rfl
  | _ => cases hnext

end Expressions

/-! ### The inserted code -/

section Modified

variable {M : Machine Byte T} {o : Options} {Shadows : T → (ℕ → Addr → Byte) → Prop}
  {tyenv env : List IRType} {X : Set IRTemp} {s : State Byte T} {mem : ℕ → Addr → Byte}
  {denv : DiffEnv} {wordTy ty : IRType} {cmp : IROp}

/-- An element of the statement: its address, the temporary for the previous contents, the
expected value and the new data. -/
structure CASElement (I : Interp Byte) (L : ℕ) (tyenv : List IRType) (X : Set IRTemp)
    (wordTy ty : IRType) (env : List IRType) (s : State Byte T) (addr : IRExpr) (old : IRTemp)
    (expd data : IRExpr) (va ve vd : List Byte) (ves vds : ℕ → List Byte) : Prop where
  addr_fits : addr.inBounds tyenv.length 0 = true
  addr : HasValue I env s addr wordTy va
  expd : AtomValue I L tyenv X env s expd ty ve ves
  data : AtomValue I L tyenv X env s data ty vd vds
  old_lt : old < tyenv.length
  old_mem : ∀ k < L, old + (k + 1) * tyenv.length ∈ X

/-- The temporaries for the shadows of previous contents. -/
structure OldShadows (L : ℕ) (tyenv : List IRType) (X : Set IRTemp) : Prop where
  le : ∀ t ∈ X, tyenv.length ≤ t
  lt : ∀ t ∈ X, t < (shadowedTyenv L tyenv).length

namespace CASElement

variable {I : Interp Byte} {L : ℕ} {env' : List IRType} {s' : State Byte T} {addr : IRExpr}
  {old : IRTemp} {expd data : IRExpr} {va ve vd : List Byte} {ves vds : ℕ → List Byte}

theorem mono (h : CASElement I L tyenv X wordTy ty env s addr old expd data va ve vd ves vds)
    (hX : OldShadows L tyenv X) (hext : ExtendsBut X env s env' s') :
    CASElement I L tyenv X wordTy ty env' s' addr old expd data va ve vd ves vds :=
  ⟨h.addr_fits, hext.hasValue hX.le (length_le_of_declared h.expd.declared) h.addr_fits h.addr,
    h.expd.mono hX.le hext, h.data.mono hX.le hext, h.old_lt, h.old_mem⟩

end CASElement

variable {aLo aHi : IRExpr} {oldLo oldHi : IRTemp} {expdLo expdHi dataLo dataHi : IRExpr}
  {vaLo vaHi veLo veHi vdLo vdHi : List Byte} {vesLo vesHi vdsLo vdsHi : ℕ → List Byte}

/-- An expected value and its shadow agree with memory and shadow memory. -/
def ElementAgrees (s : State Byte T) (mem : ℕ → Addr → Byte) (L size : ℕ) (endness : IREndness)
    (va ve : List Byte) (ves : ℕ → List Byte) : Prop :=
  ve = endness.order (readMem s.mem (bitsOf 64 va) size) ∧
    ∀ k < L, ves k = readMem (mem k) (bitsOf 64 va) size

/-- The result of the comparison is stored in a new temporary. -/
theorem wp_wrCAS (hI : M.toInterp.IntegerOps) {a b : IRExpr} {β : Type} {f : IRTemp → Emit β}
    {Q : β → List IRType → State Byte T → Prop}
    (h : ∀ s', Extends env s (env ++ [.i1]) s' → s'.tool = s.tool →
      (M.isTrue (s'.tmp env.length) = true ↔ M.isTrue (evalExpr M.toInterp s a) = true ∧
        M.isTrue (evalExpr M.toInterp s b) = true) →
      (execMeaning M).wp (f env.length) (env ++ [.i1]) s' Q) :
    (execMeaning M).wp (do
      let c ← newIRTemp .i1
      addStmt (.wrTmp c (and1 a b))
      f c) env s Q := by
  apply wp_bind
  apply wp_newIRTemp
  apply wp_bind
  set s' := s.setTmp env.length (evalExpr M.toInterp s (and1 a b)) with hs'
  refine wp_emit (fun tyenv => rfl) (h s' ?_ rfl ?_)
  · exact Extends.setTmp ⟨List.prefix_append env _, fun _ _ => rfl, rfl, rfl⟩ le_rfl _
  · have hvalue : s'.tmp env.length = evalExpr M.toInterp s (and1 a b) :=
      Function.update_self _ _ _
    rw [hvalue, isTrue_and1 hI]

/-- The state after the comparison: its result is in the temporary `c`, and shadow memory has been
changed to `mem'`. -/
structure CASProgress (M : Machine Byte T) (Shadows : T → (ℕ → Addr → Byte) → Prop)
    (X : Set IRTemp) (env : List IRType) (s : State Byte T) (c : IRTemp) (b : Bool)
    (mem' : ℕ → Addr → Byte) (env' : List IRType) (s' : State Byte T) : Prop where
  ext : ExtendsBut X env s env' s'
  le : env.length ≤ c
  lt : c < env'.length
  isTrue : M.isTrue (s'.tmp c) = b
  shadows : Shadows s'.tool mem'

section Progress

variable {env₁ : List IRType} {s₁ : State Byte T} {c : IRTemp} {b : Bool}
  {mem' : ℕ → Addr → Byte}

/-- The shadow of a temporary for previous contents is assigned. -/
theorem wp_oldElement (hM : M.ShadowCalls o.expressionhandling Shadows)
    (hn : denv.tmpOffset = tyenv.length) (hX : OldShadows o.expressionhandling.layers tyenv X)
    (helem : CASElement M.toInterp o.expressionhandling.layers tyenv X wordTy ty env s aLo oldLo
      expdLo dataLo vaLo veLo vdLo vesLo vdsLo)
    (h : CASProgress M Shadows X env s c b mem' env₁ s₁) :
    (execMeaning M).wp (shadowOldCAS o.expressionhandling denv ty aLo oldLo) env₁ s₁
      fun _ env₂ s₂ => CASProgress M Shadows X env s c b mem' env₂ s₂ := by
  have hle : (shadowedTyenv o.expressionhandling.layers tyenv).length ≤ env.length :=
    helem.expd.declared.length_le
  have hcX : c ∉ X := fun hc => Nat.not_lt_of_le (hle.trans h.le) (hX.lt c hc)
  have helem₁ := helem.mono hX h.ext
  have hlt : ∀ k < o.expressionhandling.layers, oldLo + (k + 1) * tyenv.length < env₁.length :=
    fun k hk => (hX.lt _ (helem.old_mem k hk)).trans_le (hle.trans h.ext.tyenv.length_le)
  refine wp_mono (wp_shadowOldCAS hM h.shadows helem₁.addr ty oldLo (X := X)
    (by rw [hn]; exact helem.old_mem) (by rw [hn]; exact hlt)) ?_
  rintro _ env₂ s₂ ⟨hext, htool⟩
  refine ⟨h.ext.trans hext, h.le, h.lt.trans_le hext.tyenv.length_le, ?_, ?_⟩
  · rw [hext.tmp c h.lt hcX, h.isTrue]
  · rw [htool]
    exact h.shadows

/-- The shadow of new data is stored. -/
theorem wp_storeElement (hI : M.toInterp.IntegerOps)
    (hM : M.ShadowCalls o.expressionhandling Shadows) (hn : denv.tmpOffset = tyenv.length)
    (hcmp : cmpOfType? ty = some cmp) (hX : OldShadows o.expressionhandling.layers tyenv X)
    (helem : CASElement M.toInterp o.expressionhandling.layers tyenv X wordTy ty env s aLo oldLo
      expdLo dataLo vaLo veLo vdLo vesLo vdsLo)
    (h : CASProgress M Shadows X env s c b mem' env₁ s₁) :
    (execMeaning M).wp (shadowStoreCAS o.expressionhandling denv aLo dataLo c) env₁ s₁
      fun _ env₂ s₂ => CASProgress M Shadows X env s c b
        (fun k => if b then writeMem (mem' k) (bitsOf 64 vaLo) (vdsLo k) else mem' k) env₂ s₂ := by
  have helem₁ := helem.mono hX h.ext
  refine wp_mono (wp_shadowStoreCAS hM h.shadows helem₁.addr helem₁.data.atom
    (helem₁.data.hasShadow hI hn hcmp) h.lt X) ?_
  rintro _ env₂ s₂ ⟨hext, htmp, hshadows⟩
  rw [h.isTrue] at hshadows
  refine ⟨h.ext.trans hext, h.le, h.lt.trans_le hext.tyenv.length_le, ?_, hshadows⟩
  rw [htmp, h.isTrue]

end Progress

/-- The comparison of one element. -/
theorem wp_equalElement (hI : M.toInterp.IntegerOps)
    (hM : M.ShadowCalls o.expressionhandling Shadows) (hmem : Shadows s.tool mem)
    (hn : denv.tmpOffset = tyenv.length) (hcmp : cmpOfType? ty = some cmp) (endness : IREndness)
    (helem : CASElement M.toInterp o.expressionhandling.layers tyenv X wordTy ty env s aLo oldLo
      expdLo dataLo vaLo veLo vdLo vesLo vdsLo) :
    (execMeaning M).wp (equalCAS o.expressionhandling denv endness ty aLo expdLo) env s
      fun e env' s' => Extends env s env' s' ∧ s'.tool = s.tool ∧
        e.inBounds env'.length 0 = true ∧
        (M.isTrue (evalExpr M.toInterp s' e) = true ↔
          ElementAgrees s mem o.expressionhandling.layers (sizeofIRType ty) endness vaLo veLo
            vesLo) :=
  wp_equalCAS hI hM hmem endness helem.addr helem.expd.value helem.expd.atom
    (helem.expd.hasShadow hI hn hcmp) hcmp

/-- The code in front of the statement with one element. -/
theorem wp_casSingle (hI : M.toInterp.IntegerOps) (hM : M.ShadowCalls o.expressionhandling Shadows)
    (hmem : Shadows s.tool mem) (hn : denv.tmpOffset = tyenv.length)
    (hcmp : cmpOfType? ty = some cmp) (hX : OldShadows o.expressionhandling.layers tyenv X)
    (endness : IREndness)
    (hLo : CASElement M.toInterp o.expressionhandling.layers tyenv X wordTy ty env s aLo oldLo
      expdLo dataLo vaLo veLo vdLo vesLo vdsLo) :
    (execMeaning M).wp (do
      let equalLo ← equalCAS o.expressionhandling denv endness ty aLo expdLo
      let equalHi ← pure (.const (.u1 true))
      let casSucceeded ← newIRTemp .i1
      addStmt (.wrTmp casSucceeded (and1 equalLo equalHi))
      shadowOldCAS o.expressionhandling denv ty aLo oldLo
      shadowStoreCAS o.expressionhandling denv aLo dataLo casSucceeded
      return casSucceeded) env s fun c env' s' => ∃ b : Bool,
        (b = true ↔ ElementAgrees s mem o.expressionhandling.layers (sizeofIRType ty) endness vaLo
          veLo vesLo) ∧
        CASProgress M Shadows X env s c b (fun k => if b then
          writeMem (mem k) (bitsOf 64 vaLo) (vdsLo k) else mem k) env' s' := by
  apply wp_bind
  refine wp_mono (wp_equalElement hI hM hmem hn hcmp endness hLo) ?_
  rintro eLo env₁ s₁ ⟨hext₁, htool₁, hfits₁, htrue₁⟩
  apply wp_bind
  apply wp_pure
  refine wp_wrCAS hI fun s₂ hext₂ htool₂ htrue₂ => ?_
  have hconst : M.isTrue (evalExpr M.toInterp s₁ (.const (.u1 true))) = true := hI.isTrue_true
  rw [htrue₁, and_iff_left hconst] at htrue₂
  have hext := hext₁.trans hext₂
  have hprogress : CASProgress M Shadows X env s env₁.length (M.isTrue (s₂.tmp env₁.length)) mem
      (env₁ ++ [.i1]) s₂ := by
    refine ⟨ExtendsBut.of_extends hext, hext₁.tyenv.length_le, by simp, rfl, ?_⟩
    rw [htool₂, htool₁]
    exact hmem
  apply wp_bind
  refine wp_mono (wp_oldElement hM hn hX hLo hprogress) fun _ env₃ s₃ hprogress => ?_
  apply wp_bind
  refine wp_mono (wp_storeElement hI hM hn hcmp hX hLo hprogress) fun _ env₄ s₄ hprogress => ?_
  exact wp_pure ⟨_, htrue₂, hprogress⟩

/-- The code in front of the statement with two elements. -/
theorem wp_casDouble (hI : M.toInterp.IntegerOps) (hM : M.ShadowCalls o.expressionhandling Shadows)
    (hmem : Shadows s.tool mem) (hn : denv.tmpOffset = tyenv.length)
    (hcmp : cmpOfType? ty = some cmp) (hX : OldShadows o.expressionhandling.layers tyenv X)
    (endness : IREndness)
    (hLo : CASElement M.toInterp o.expressionhandling.layers tyenv X wordTy ty env s aLo oldLo
      expdLo dataLo vaLo veLo vdLo vesLo vdsLo)
    (hHi : CASElement M.toInterp o.expressionhandling.layers tyenv X wordTy ty env s aHi oldHi
      expdHi dataHi vaHi veHi vdHi vesHi vdsHi) :
    (execMeaning M).wp (do
      let equalLo ← equalCAS o.expressionhandling denv endness ty aLo expdLo
      let equalHi ← equalCAS o.expressionhandling denv endness ty aHi expdHi
      let casSucceeded ← newIRTemp .i1
      addStmt (.wrTmp casSucceeded (and1 equalLo equalHi))
      shadowOldCAS o.expressionhandling denv ty aLo oldLo
      shadowOldCAS o.expressionhandling denv ty aHi oldHi
      shadowStoreCAS o.expressionhandling denv aLo dataLo casSucceeded
      shadowStoreCAS o.expressionhandling denv aHi dataHi casSucceeded
      return casSucceeded) env s fun c env' s' => ∃ b : Bool,
        (b = true ↔
          ElementAgrees s mem o.expressionhandling.layers (sizeofIRType ty) endness vaLo veLo vesLo ∧
          ElementAgrees s mem o.expressionhandling.layers (sizeofIRType ty) endness vaHi veHi
            vesHi) ∧
        CASProgress M Shadows X env s c b (fun k => if b then
          writeMem (writeMem (mem k) (bitsOf 64 vaLo) (vdsLo k)) (bitsOf 64 vaHi) (vdsHi k)
          else mem k) env' s' := by
  apply wp_bind
  refine wp_mono (wp_equalElement hI hM hmem hn hcmp endness hLo) ?_
  rintro eLo env₁ s₁ ⟨hext₁, htool₁, hfits₁, htrue₁⟩
  rw [← htool₁] at hmem
  apply wp_bind
  refine wp_mono (wp_equalElement hI hM hmem hn hcmp endness
    (hHi.mono hX (ExtendsBut.of_extends hext₁))) ?_
  rintro eHi env₂ s₂ ⟨hext₂, htool₂, hfits₂, htrue₂⟩
  -- The code for the second comparison does not change the outcome of the first one.
  have hLo₂ : evalExpr M.toInterp s₂ eLo = evalExpr M.toInterp s₁ eLo :=
    (evalExpr_primalEq (hext₂.primalEq 0) eLo hfits₁).symm
  rw [ElementAgrees, hext₁.mem, ← ElementAgrees] at htrue₂
  refine wp_wrCAS hI fun s₃ hext₃ htool₃ htrue₃ => ?_
  rw [hLo₂, htrue₁, htrue₂] at htrue₃
  have hext := hext₁.trans hext₂
  -- From here on, every step extends what has been done under the outcome `b`.
  have hprogress : CASProgress M Shadows X env s env₂.length (M.isTrue (s₃.tmp env₂.length)) mem
      (env₂ ++ [.i1]) s₃ := by
    refine ⟨ExtendsBut.of_extends (hext.trans hext₃), hext.tyenv.length_le, by simp, rfl, ?_⟩
    rw [htool₃, htool₂]
    exact hmem
  apply wp_bind
  refine wp_mono (wp_oldElement hM hn hX hLo hprogress) fun _ env₄ s₄ hprogress => ?_
  apply wp_bind
  refine wp_mono (wp_oldElement hM hn hX hHi hprogress) fun _ env₅ s₅ hprogress => ?_
  apply wp_bind
  refine wp_mono (wp_storeElement hI hM hn hcmp hX hLo hprogress) fun _ env₆ s₆ hprogress => ?_
  apply wp_bind
  refine wp_mono (wp_storeElement hI hM hn hcmp hX hHi hprogress) fun _ env₇ s₇ hprogress => ?_
  refine wp_pure ⟨_, htrue₃, ?_⟩
  convert hprogress using 2 with k
  cases M.isTrue (s₃.tmp env₂.length) <;> rfl

end Modified

/-! ### The statement itself -/

section Original

variable {M : Machine Byte T} {env : List IRType} {s : State Byte T} {d : IRCAS}
  {wordTy ty : IRType} {addr data aLo aHi dataLo dataHi : IRExpr} {va vd vaLo vaHi vdLo vdHi : List Byte}
  {c : IRTemp} {b : Bool}

/-- The state with another memory. -/
def State.withMem (s : State Byte T) (f : Addr → Byte) : State Byte T := { s with mem := f }

/-- The value of an expression does not depend on a temporary, and on memory. -/
def Ignores (I : Interp Byte) (T : Type) (e : IRExpr) (tmp : IRTemp) : Prop :=
  ∀ (s : State Byte T) (v : List Byte) (f : Addr → Byte),
    evalExpr I ((s.setTmp tmp v).withMem f) e = evalExpr I s e

theorem ignores_atom {I : Interp Byte} {e : IRExpr} {tmp : IRTemp} (hatom : e.isAtom = true)
    (h : tmp ∉ e.reads) : Ignores I T e tmp := by
  intro s v f
  cases e with
  | rdTmp t =>
    have hne : t ≠ tmp := fun heq => h (by rw [heq]; exact List.mem_singleton_self _)
    exact Function.update_of_ne hne _ _
  | const con => rfl
  | _ => cases hatom

theorem ignores_next {I : Interp Byte} {next : IRExpr} {tmp : IRTemp} {k : ℕ}
    (h : Ignores I T addr tmp) (hnext : addToAddr? wordTy addr k = some next) :
    Ignores I T next tmp := by
  intro s v f
  cases wordTy with
  | i32 =>
    obtain rfl := Option.some_inj.mp hnext
    rw [evalExpr, h s v f]
    rfl
  | i64 =>
    obtain rfl := Option.some_inj.mp hnext
    rw [evalExpr, h s v f]
    rfl
  | _ => cases hnext

theorem HasValue.setTmp {I : Interp Byte} {e : IRExpr} {v v' : List Byte} {tmp : IRTemp}
    (h : HasValue I env s e ty v) (hignores : Ignores I T e tmp) :
    HasValue I env (s.setTmp tmp v') e ty v :=
  ⟨h.fits, h.type, (hignores s v' s.mem).trans h.eval, h.length⟩

theorem order_order {B : Type} (endness : IREndness) (v : List B) :
    endness.order (endness.order v) = v := by
  cases endness with
  | le => rfl
  | be => exact List.reverse_reverse v

/-- Writing back what has been read changes nothing. -/
theorem writeMem_readMem {B : Type} (f : Addr → B) (a : Addr) (n : ℕ) :
    writeMem f a (readMem f a n) = f := by
  funext x
  unfold writeMem readMem
  by_cases hx : (x - a).toNat < n
  · rw [List.getD_eq_getElem _ _ (by simpa using hx), List.getElem_map, List.getElem_range,
      BitVec.ofNat_toNat, BitVec.setWidth_eq, BitVec.add_comm, BitVec.sub_add_cancel]
  · rw [List.getD_eq_default _ _ (by simpa using hx)]

/-- The new data, or the previous contents, are stored. -/
theorem wp_originalStore (hI : M.toInterp.IntegerOps)
    (haddr : HasValue M.toInterp env s addr wordTy va) (hdata : evalExpr M.toInterp s data = vd)
    (hb : M.isTrue (s.tmp c) = b) {Q : Unit → List IRType → State Byte T → Prop}
    (h : Q () env (s.withMem
      (if b then writeMem s.mem (bitsOf 64 va) (d.endness.order vd) else s.mem))) :
    (execMeaning M).wp (addStmt (originalStoreCAS d ty addr data c)) env s Q := by
  refine wp_emit (fun tyenv => ?_) h
  simp only [originalStoreCAS, execStmts, execStmt, State.storeAt,
    bufferOffset?_of_inBounds haddr.fits, haddr.eval, hI.addr]
  rw [evalExpr, evalExpr_load hI haddr, hdata, evalExpr, hb]
  cases b with
  | true => rfl
  | false =>
    simp only [Bool.false_eq_true, if_false, order_order, writeMem_readMem]
    rfl

/-- The previous contents are loaded. -/
theorem wp_originalLoad (hI : M.toInterp.IntegerOps)
    (haddr : HasValue M.toInterp env s addr wordTy va) (endness : IREndness) {old : IRTemp}
    {Q : Unit → List IRType → State Byte T → Prop}
    (h : Q () env (s.setTmp old
      (endness.order (readMem s.mem (bitsOf 64 va) (sizeofIRType ty))))) :
    (execMeaning M).wp (addStmt (.wrTmp old (.load endness ty addr))) env s Q := by
  refine wp_emit (fun tyenv => ?_) h
  simp only [execStmts, execStmt, evalExpr_load hI haddr]

/-- The code for the statement with one element. -/
theorem wp_originalSingle (hI : M.toInterp.IntegerOps) {oldLo : IRTemp}
    (haddr : HasValue M.toInterp env s aLo wordTy vaLo)
    (hdata : HasValue M.toInterp env s dataLo ty vdLo) (hb : M.isTrue (s.tmp c) = b)
    (hc : c ≠ oldLo) (haddr_old : Ignores M.toInterp T aLo oldLo)
    (hdata_old : Ignores M.toInterp T dataLo oldLo) :
    (execMeaning M).wp (do
      addStmt (.wrTmp oldLo (.load d.endness ty aLo))
      addStmt (originalStoreCAS d ty aLo dataLo c)) env s fun _ _ s' =>
        s' = (s.setTmp oldLo (d.endness.order
            (readMem s.mem (bitsOf 64 vaLo) (sizeofIRType ty)))).withMem
          (if b then writeMem s.mem (bitsOf 64 vaLo) (d.endness.order vdLo) else s.mem) := by
  have hc' : ∀ v, (s.setTmp oldLo v).tmp c = s.tmp c := fun v => Function.update_of_ne hc _ _
  apply wp_bind
  refine wp_originalLoad hI haddr d.endness ?_
  exact wp_originalStore hI (haddr.setTmp haddr_old) (hdata.setTmp hdata_old).eval
    (by rw [hc', hb]) rfl

/-- The code for the statement with two elements. -/
theorem wp_originalDouble (hI : M.toInterp.IntegerOps) {oldLo oldHi : IRTemp}
    (haddrLo : HasValue M.toInterp env s aLo wordTy vaLo)
    (haddrHi : HasValue M.toInterp env s aHi wordTy vaHi)
    (hdataLo : HasValue M.toInterp env s dataLo ty vdLo)
    (hdataHi : HasValue M.toInterp env s dataHi ty vdHi) (hb : M.isTrue (s.tmp c) = b)
    (hcLo : c ≠ oldLo) (hcHi : c ≠ oldHi)
    (hold : ∀ e ∈ [aLo, aHi, dataLo, dataHi],
      Ignores M.toInterp T e oldLo ∧ Ignores M.toInterp T e oldHi) :
    (execMeaning M).wp (do
      addStmt (.wrTmp oldLo (.load d.endness ty aLo))
      addStmt (.wrTmp oldHi (.load d.endness ty aHi))
      addStmt (originalStoreCAS d ty aLo dataLo c)
      addStmt (originalStoreCAS d ty aHi dataHi c)) env s fun _ _ s' =>
        s' = ((s.setTmp oldLo (d.endness.order (readMem s.mem (bitsOf 64 vaLo)
            (sizeofIRType ty)))).setTmp oldHi (d.endness.order (readMem s.mem (bitsOf 64 vaHi)
            (sizeofIRType ty)))).withMem
          (if b then writeMem (writeMem s.mem (bitsOf 64 vaLo) (d.endness.order vdLo))
            (bitsOf 64 vaHi) (d.endness.order vdHi) else s.mem) := by
  have hkeep : ∀ {e ty v}, e ∈ [aLo, aHi, dataLo, dataHi] → HasValue M.toInterp env s e ty v →
      ∀ v₁ v₂ f, HasValue M.toInterp env (((s.setTmp oldLo v₁).setTmp oldHi v₂).withMem f)
        e ty v := by
    intro e ty v he hv v₁ v₂ f
    refine ⟨hv.fits, hv.type, ?_, hv.length⟩
    rw [(hold e he).2 (s.setTmp oldLo v₁) v₂ f, ← hv.eval]
    exact (hold e he).1 s v₁ s.mem
  have hc : ∀ v₁ v₂, ((s.setTmp oldLo v₁).setTmp oldHi v₂).tmp c = s.tmp c := fun v₁ v₂ =>
    (Function.update_of_ne hcHi _ _).trans (Function.update_of_ne hcLo _ _)
  apply wp_bind
  refine wp_originalLoad hI haddrLo d.endness ?_
  apply wp_bind
  refine wp_originalLoad hI (haddrHi.setTmp (hold aHi (by simp)).1) d.endness ?_
  set vLo := d.endness.order (readMem s.mem (bitsOf 64 vaLo) (sizeofIRType ty))
  set vHi := d.endness.order (readMem s.mem (bitsOf 64 vaHi) (sizeofIRType ty))
  set s₂ := (s.setTmp oldLo vLo).setTmp oldHi vHi with hs₂
  have hb₂ : M.isTrue (s₂.tmp c) = b := by rw [hc, hb]
  apply wp_bind
  refine wp_originalStore (s := s₂) hI (hkeep (by simp) haddrLo vLo vHi s.mem)
    (hkeep (by simp) hdataLo vLo vHi s.mem).eval hb₂ ?_
  set f : Addr → Byte :=
    if b then writeMem s₂.mem (bitsOf 64 vaLo) (d.endness.order vdLo) else s₂.mem with hf
  refine wp_originalStore (s := s₂.withMem f) hI (hkeep (by simp) haddrHi vLo vHi f)
    (hkeep (by simp) hdataHi vLo vHi f).eval hb₂ ?_
  cases b <;> rfl

end Original

end Derivgrind
