import Derivgrind.Instrument.Table

/-!
# Instrumentation of superblocks

In front of each statement, Derivgrind inserts code that does to the shadow
locations what the statement does to the original ones.  There is one layer of
shadow locations in forward mode (dot values), and two layers in recording mode
(indices) and in bit-trick-finding mode (flags).

The functions `dg_dot_wrtmp` and `dg_bar_wrtmp` differ only in the number of
layers, and likewise for registers, memory, comparisons and conditionals.  They
are given once, for any number of layers.  The order in which C evaluates the
arguments of a call is not specified; arguments are handled from left to right
here.

## Main definitions

* `ExpressionHandling` — what depends on the mode.
* `dgModifyExpression` — the shadow of an expression.
* `addStatementModified` — the code inserted in front of a statement.
* `dgInstrument` — the instrumented superblock.
-/

namespace Derivgrind

/-- The shadow of an expression: one expression for each layer. -/
abbrev Shadow := List IRExpr

/-- `DiffEnv`: the distances between layers of shadow temporaries and registers,
and the type of addresses. -/
structure DiffEnv where
  tmpOffset : ℕ
  gsOffset : ℕ
  wordTy : IRType
  deriving Repr

/-- A layer of a shadow. -/
def Shadow.layer (shadow : Shadow) (k : ℕ) : IRExpr := shadow.getD k .vecret

/-- The address of a layer of the buffer through which shadow data are copied to and
from shadow memory; layers have the size of a `V256`. -/
def bufferAddr (env : DiffEnv) (k : ℕ) : IRExpr := .const (.bufferAddr env.wordTy (32 * k))

/-- The size of a type, as an argument of a dirty call. -/
def sizeConst (ty : IRType) : IRExpr := .const (.u64 (BitVec.ofNat 64 (sizeofIRType ty)))

/-- Comparisons in `dg_dot_compare`, `dg_bar_compare` and in the translation of
compare-and-swap statements. -/
def cmpOfType? : IRType → Option IROp
  | .i8 => some (.helper .cmpEQ8)
  | .i16 => some (.helper .cmpEQ16)
  | .i32 => some (.helper .cmpEQ32)
  | .i64 => some (.helper .cmpEQ64)
  | _ => none

/-! ### Expression handling -/

/-- What depends on the mode.  Shadows that could not be formed are `none`. -/
structure ExpressionHandling where
  layers : ℕ
  storeHelper : ToolHelper
  loadHelper : ToolHelper
  dirtyStoreF80le : IRExpr → Shadow → Emit Unit
  dirtyLoadF80le : DiffEnv → IRExpr → IRTemp → Emit Unit
  constant : IRConst → Shadow
  default_ : IRType → Emit Shadow
  /-- The functions give the arguments and their shadows, numbered from one. -/
  operation : IROp → (ℕ → IRExpr) → (ℕ → Option Shadow) → Emit (Option Shadow)
  ccall : IRType → List IRExpr → List (Option Shadow) → Emit (Option Shadow)

namespace ExpressionHandling

variable (eh : ExpressionHandling) (env : DiffEnv)

/-- `dg_dot_wrtmp` and `dg_bar_wrtmp`; similarly below. -/
def wrtmp (tmp : IRTemp) (shadow : Shadow) : Emit Unit :=
  addStmts ((List.range eh.layers).map fun k =>
    .wrTmp (tmp + (k + 1) * env.tmpOffset) (shadow.layer k))

def rdtmp (tmp : IRTemp) : Shadow :=
  (List.range eh.layers).map fun k => .rdTmp (tmp + (k + 1) * env.tmpOffset)

/-- `IRRegArray` of a shadow layer. -/
def shadowDescr (descr : IRRegArray) (k : ℕ) : IRRegArray :=
  { descr with base := descr.base + (k + 1) * env.gsOffset }

def put (offset : ℕ) (shadow : Shadow) : Emit Unit :=
  addStmts ((List.range eh.layers).map fun k =>
    .put (offset + (k + 1) * env.gsOffset) (shadow.layer k))

/-- In arrays, the offset is added to the bias, too. -/
def putI (descr : IRRegArray) (ix : IRExpr) (bias : ℤ) (shadow : Shadow) : Emit Unit :=
  addStmts ((List.range eh.layers).map fun k =>
    .putI (shadowDescr env descr k) ix (bias + ((k + 1) * env.gsOffset : ℕ)) (shadow.layer k))

def get (offset : ℕ) (ty : IRType) : Shadow :=
  (List.range eh.layers).map fun k => .get (offset + (k + 1) * env.gsOffset) ty

@[inherit_doc putI]
def getI (descr : IRRegArray) (ix : IRExpr) (bias : ℤ) : Shadow :=
  (List.range eh.layers).map fun k =>
    .getI (shadowDescr env descr k) ix (bias + ((k + 1) * env.gsOffset : ℕ))

/-- Write to the buffer, and copy from there to shadow memory. -/
def store (addr : IRExpr) (shadow : Shadow) (guard : Option IRExpr) : Emit Unit := do
  addStmts ((List.range eh.layers).map fun k => .store .le (bufferAddr env k) (shadow.layer k))
  let ty ← typeOf (shadow.layer 0)
  let tys ← Emitter.mapList typeOf shadow
  tlAssert (tys.all fun ty' => ty' = ty)
  addStmt (.dirty ⟨.tool eh.storeHelper, guard.getD (.const (.u1 true)), [addr, sizeConst ty],
    none⟩)

/-- Copy from shadow memory to the buffer, and read the buffer. -/
def load (addr : IRExpr) (ty : IRType) : Emit Shadow := do
  addDirty eh.loadHelper [addr, sizeConst ty]
  let tmps ← newIRTemps eh.layers ty
  addStmts (tmps.zipIdx.map fun (tmp, k) => .wrTmp tmp (.load .le ty (bufferAddr env k)))
  return tmps.map .rdTmp

def compare (arg1 arg2 : Shadow) : Emit IRExpr := do
  let ty ← typeOf (arg1.layer 0)
  let ty' ← typeOf (arg2.layer 0)
  tlAssert (ty = ty')
  let cmp ← ofOption (cmpOfType? ty)
  let equal := fun k => .binop cmp (arg1.layer k) (arg2.layer k)
  return (List.range (eh.layers - 1)).foldl (fun e k => and1 e (equal (k + 1))) (equal 0)

def ite (cond : IRExpr) (dtrue dfalse : Shadow) : Shadow :=
  (List.range eh.layers).map fun k => .ite cond (dtrue.layer k) (dfalse.layer k)

end ExpressionHandling

/-! ### Forward mode -/

/-- `dg_dot_constant`.  Only the tag of the constant is used. -/
def dgDotConstant : IRConst → Shadow
  | .f64 _ => [.const (.f64 0)]
  | .f64i _ => [.const (.f64i 0)]
  | .f32 _ => [.const (.f32 0)]
  | .f32i _ => [.const (.f32i 0)]
  | .u1 _ => [.const (.u1 false)]
  | .u8 _ => [.const (.u8 0)]
  | .u16 _ => [.const (.u16 0)]
  | .u32 _ => [.const (.u32 0)]
  | .u64 _ => [.const (.u64 0)]
  | .u128 _ => [.const (.u128 0)]
  | .v128 _ => [.const (.v128 0)]
  | .v256 _ => [.const (.v256 0)]
  | .bufferAddr ty _ => if ty = .i32 then [.const (.u32 0)] else [.const (.u64 0)]

/-- A layer of the shadows of the arguments. -/
def argLayer (shadow : ℕ → Option Shadow) (k i : ℕ) : IRExpr := ((shadow i).getD []).layer k

/-- Whether all shadows of the given arguments could be formed. -/
def allFormed (shadow : ℕ → Option Shadow) (inputs : List ℕ) : Bool :=
  inputs.all fun i => (shadow i).isSome

/-- `dg_dot_operation`, see `makeCaseDot`. -/
def dgDotOperation (op : IROp) (arg : ℕ → IRExpr) (d : ℕ → Option Shadow) :
    Emit (Option Shadow) :=
  match irOpInfo? op with
  | none => return none
  | some info =>
      if allFormed d info.diffinputs then do
        let dotvalue ← info.dotcode arg (argLayer d 0)
        return some [dotvalue]
      else return none

/-- `dg_dot_expressionhandling`. -/
def dgDotExpressionhandling : ExpressionHandling where
  layers := 1
  storeHelper := .dotStore
  loadHelper := .dotLoad
  dirtyStoreF80le addr shadow := addDirty .dotStoreF80le [addr, shadow.layer 0]
  dirtyLoadF80le env addr tmp := addDirtyTmp (tmp + env.tmpOffset) .dotLoadF80le [addr]
  constant := dgDotConstant
  default_ ty := return [mkIRConstZero ty]
  operation := dgDotOperation
  ccall _ _ _ := return none

/-! ### Recording mode -/

/-- `dg_bar_constant`. -/
def dgBarConstant (con : IRConst) : Shadow :=
  let zero : IRExpr := match con with
    | .f64 _ => .unop (.unMove .reinterpI64asF64) (.const (.u64 0))
    | .f64i _ => .const (.f64i 0)
    | .f32 _ => .unop (.unMove .reinterpI32asF32) (.const (.u32 0))
    | .f32i _ => .unop (.unMove .reinterpI32asF32) (.const (.u32 0))
    | .u1 _ => .const (.u1 false)
    | .u8 _ => .const (.u8 0)
    | .u16 _ => .const (.u16 0)
    | .u32 _ => .const (.u32 0)
    | .u64 _ => .const (.u64 0)
    | .u128 _ => .const (.u128 0)
    | .v128 _ => .const (.v128 0)
    | .v256 _ => .const (.v256 0)
    | .bufferAddr ty _ => if ty = .i32 then .const (.u32 0) else .const (.u64 0)
  [zero, zero]

/-- The zero constants of `dg_bar_default_`. -/
def barZero? : IRType → Option IRExpr
  | .i1 => some (.const (.u1 false))
  | .i8 => some (.const (.u8 0))
  | .i16 => some (.const (.u16 0))
  | .i32 => some (.const (.u32 0))
  | .i64 => some (.const (.u64 0))
  | .i128 => some (.const (.u128 0))
  | .f32 => some (.unop (.unMove .reinterpI32asF32) (.const (.u32 0)))
  | .f64 => some (.const (.f64i 0))
  | .d64 => some (.unop (.helperMove .reinterpI64asD64) (.const (.u64 0)))
  | .f128 => some (.unop (.helperMove .reinterpI128asF128) (.const (.u128 0)))
  | .v128 => some (.binop (.binMove .op64HLtoV128) (.const (.u64 0)) (.const (.u64 0)))
  | .v256 => some (.qop .op64x4toV256 (.const (.u64 0)) (.const (.u64 0)) (.const (.u64 0))
      (.const (.u64 0)))
  | _ => none

/-- `dg_bar_default_`. -/
def dgBarDefault (ty : IRType) : Emit Shadow := do
  let zero ← ofOption (barZero? ty)
  return [zero, zero]

/-- `dg_bar_operation`, see `makeCaseBar`. -/
def dgBarOperation (o : Options) (op : IROp) (arg : ℕ → IRExpr) (index : ℕ → Option Shadow) :
    Emit (Option Shadow) :=
  match irOpInfo? op with
  | none =>
      if o.typegrind then do
        let ones ← mkIRConstOnes (typeOfPrimop op).dst
        return some [ones, ones]
      else return none
  | some info =>
      if allFormed index info.diffinputs then do
        let layers ← info.barcode o arg (argLayer index 0) (argLayer index 1)
        return some layers
      else return none

/-- `dg_bar_dirty_storeF80le`. -/
def dgBarDirtyStoreF80le (addr : IRExpr) (shadow : Shadow) : Emit Unit := do
  addDirty .barStoreF80leLo [addr, shadow.layer 0]
  addDirty .barStoreF80leHi [addr, shadow.layer 1]

/-- `dg_bar_dirty_loadF80le`. -/
def dgBarDirtyLoadF80le (env : DiffEnv) (addr : IRExpr) (tmp : IRTemp) : Emit Unit := do
  addDirtyTmp (tmp + env.tmpOffset) .barLoadF80leLo [addr]
  addDirtyTmp (tmp + 2 * env.tmpOffset) .barLoadF80leHi [addr]

/-- `dg_bar_expressionhandling`. -/
def dgBarExpressionhandling (o : Options) : ExpressionHandling where
  layers := 2
  storeHelper := .barStore
  loadHelper := .barLoad
  dirtyStoreF80le := dgBarDirtyStoreF80le
  dirtyLoadF80le := dgBarDirtyLoadF80le
  constant := dgBarConstant
  default_ := dgBarDefault
  operation := dgBarOperation o
  ccall _ _ _ := return none

/-! ### Bit-trick-finding mode -/

/-- The activity flags of the result of an operation that is not in the table; `I128`
and `I1` are treated specially. -/
def unhandledFlags (ty : IRType) (notActive : IRExpr) : Emit IRExpr :=
  match ty with
  | .i128 => do
      let ones ← mkIRConstOnes .i64
      let i64 := .ite notActive (mkIRConstZero .i64) ones
      return .binop (.binMove .op64HLto128) i64 i64
  | .i1 => return .unop (.helper .not1) notActive
  | _ => do
      let ones ← mkIRConstOnes ty
      return .ite notActive (mkIRConstZero ty) ones

/-- `dg_trick_operation`, see `makeCaseTrick`.  The code of zero-derivative operations
does not check whether the shadow could be formed. -/
def dgTrickOperation (op : IROp) (arg : ℕ → IRExpr) (flags : ℕ → Option Shadow) :
    Emit (Option Shadow) :=
  match irOpInfo? op with
  | none => do
      let sig := typeOfPrimop op
      let notActive := [1, 2, 3, 4].foldl (fun e i =>
        if (flags i).isSome then and1 e (isZero (argLayer flags 0 i) sig.args[i - 1]?) else e)
        (.const (.u1 true))
      let flagsLo ← unhandledFlags sig.dst notActive
      let flagsHi ← mkIRConstOnes sig.dst
      return some [flagsLo, flagsHi]
  | some info =>
      if allFormed flags info.diffinputs then do
        tlAssert (allFormed flags info.trickinputs)
        let layers ← info.trickcode arg (argLayer flags 0) (argLayer flags 1)
        return some layers
      else return none

/-- `dg_trick_ccall`: a result is active if an argument is, and always discrete. -/
def dgTrickCcall (retty : IRType) (args : List IRExpr) (flags : List (Option Shadow)) :
    Emit (Option Shadow) := do
  let tests ← Emitter.mapList (fun (arg, shadow) => do
    let ty ← typeOf arg
    let shadow ← ofOption shadow
    return isZero (Shadow.layer shadow 0) (some ty)) (args.zip flags)
  let notActive := tests.foldl and1 (.const (.u1 true))
  let ones ← mkIRConstOnes retty
  return some [.ite notActive (mkIRConstZero retty) ones, ones]

/-- `dg_trick_dirty_loadF80le`. -/
def dgTrickDirtyLoadF80le (env : DiffEnv) (addr : IRExpr) (tmp : IRTemp) : Emit Unit := do
  addDirtyTmp (tmp + env.tmpOffset) .trickLoadF80leLo [addr]
  addDirtyTmp (tmp + 2 * env.tmpOffset) .trickLoadF80leHi [addr]

/-- `dg_trick_expressionhandling`.  Much of it is the one of recording mode. -/
def dgTrickExpressionhandling : ExpressionHandling where
  layers := 2
  storeHelper := .barStore
  loadHelper := .barLoad
  dirtyStoreF80le addr shadow :=
    addDirty .trickStoreF80le [addr, shadow.layer 0, shadow.layer 1]
  dirtyLoadF80le := dgTrickDirtyLoadF80le
  constant := dgBarConstant
  default_ := dgBarDefault
  operation := dgTrickOperation
  ccall := dgTrickCcall

/-- The expression handling of a mode. -/
def Options.expressionhandling (o : Options) : ExpressionHandling :=
  match o.mode with
  | .d => dgDotExpressionhandling
  | .b => dgBarExpressionhandling o
  | .t => dgTrickExpressionhandling

/-! ### Expressions -/

/-- Operands or their shadows, numbered from one. -/
def numbered {α : Type} (default : α) (operands : List α) (i : ℕ) : α :=
  operands.getD (i - 1) default

section Modify

variable (eh : ExpressionHandling) (env : DiffEnv)

mutual

/-- `dg_modify_expression`. -/
def dgModifyExpression : IRExpr → Emit (Option Shadow)
  | .qop op a b c d => do
      let a' ← dgModifyExpression a
      let b' ← dgModifyExpression b
      let c' ← dgModifyExpression c
      let d' ← dgModifyExpression d
      eh.operation op (numbered .vecret [a, b, c, d]) (numbered none [a', b', c', d'])
  | .triop op a b c => do
      let a' ← dgModifyExpression a
      let b' ← dgModifyExpression b
      let c' ← dgModifyExpression c
      eh.operation op (numbered .vecret [a, b, c]) (numbered none [a', b', c'])
  | .binop op a b => do
      let a' ← dgModifyExpression a
      let b' ← dgModifyExpression b
      eh.operation op (numbered .vecret [a, b]) (numbered none [a', b'])
  | .unop op a => do
      let a' ← dgModifyExpression a
      eh.operation op (numbered .vecret [a]) (numbered none [a'])
  | .const con => return some (eh.constant con)
  | .ite cond iftrue iffalse => do
      let dtrue ← dgModifyExpression iftrue
      let dfalse ← dgModifyExpression iffalse
      match dtrue, dfalse with
      | some dtrue, some dfalse => return some (eh.ite cond dtrue dfalse)
      | _, _ => return none
  | .rdTmp tmp => return some (eh.rdtmp env tmp)
  | .get offset ty => return some (eh.get env offset ty)
  | .getI descr ix bias => return some (eh.getI env descr ix bias)
  | .load _ ty addr => do
      let shadow ← eh.load env addr ty
      return some shadow
  | .ccall _ retty args => do
      let modifiedArgs ← dgModifyExpressions args
      eh.ccall retty args modifiedArgs
  | .vecret => return none
  | .gsptr => return none

/-- `dg_modify_expression`, for the arguments of a call. -/
def dgModifyExpressions : List IRExpr → Emit (List (Option Shadow))
  | [] => return []
  | e :: es => do
      let e' ← dgModifyExpression e
      let es' ← dgModifyExpressions es
      return e' :: es'

end

/-- `dg_modify_expression_or_default`. -/
def dgModifyExpressionOrDefault (e : IRExpr) : Emit Shadow := do
  match ← dgModifyExpression eh env e with
  | some shadow => return shadow
  | none =>
      let ty ← typeOf e
      eh.default_ ty

/-! ### Statements -/

/-- An address plus an offset. -/
def addToAddr? (addrTy : IRType) (addr : IRExpr) (offset : ℕ) : Option IRExpr :=
  match addrTy with
  | .i32 => some (.binop (.helper .add32) addr (.const (.u32 (BitVec.ofNat 32 offset))))
  | .i64 => some (.binop (.helper .add64) addr (.const (.u64 (BitVec.ofNat 64 offset))))
  | _ => none

/-- `addressesOfCAS`. -/
def addressesOfCAS (d : IRCAS) : Emit (IRExpr × Option IRExpr) := do
  let ty ← typeOf d.expdLo
  let addrTy ← typeOf d.addr
  let next ← ofOption (addToAddr? addrTy d.addr (sizeofIRType ty))
  return match d.expdHi, d.endness with
    | none, _ => (d.addr, none)
    | some _, .le => (d.addr, some next)
    | some _, .be => (next, some d.addr)

/-- Whether an expected value and its shadow agree with memory. -/
def equalCAS (endness : IREndness) (ty : IRType) (addr expd : IRExpr) : Emit IRExpr := do
  let cmp ← ofOption (cmpOfType? ty)
  let equalValues := .binop cmp expd (.load endness ty addr)
  let modifiedExpd ← dgModifyExpressionOrDefault eh env expd
  let loaded ← eh.load env addr ty
  let equalModified ← eh.compare modifiedExpd loaded
  return and1 equalValues equalModified

/-- The shadow of a temporary gets the previous contents of shadow memory. -/
def shadowOldCAS (ty : IRType) (addr : IRExpr) (old : IRTemp) : Emit Unit := do
  let loaded ← eh.load env addr ty
  eh.wrtmp env old loaded

/-- The shadow of the new data is stored if the comparison succeeded. -/
def shadowStoreCAS (addr data : IRExpr) (casSucceeded : IRTemp) : Emit Unit := do
  let modifiedData ← dgModifyExpressionOrDefault eh env data
  eh.store env addr modifiedData (some (.rdTmp casSucceeded))

/-- The part of `add_statement_modified` for compare-and-swap statements.  The result
is the temporary that tells whether the comparison succeeded. -/
def addCASModified (d : IRCAS) : Emit IRTemp := do
  let ty ← typeOf d.expdLo
  let (addrLo, addrHi) ← addressesOfCAS d
  let equalLo ← equalCAS eh env d.endness ty addrLo d.expdLo
  let equalHi ← match d.expdHi, addrHi with
    | some expdHi, some addrHi => equalCAS eh env d.endness ty addrHi expdHi
    | _, _ => pure (.const (.u1 true))
  let casSucceeded ← newIRTemp .i1
  addStmt (.wrTmp casSucceeded (and1 equalLo equalHi))
  shadowOldCAS eh env ty addrLo d.oldLo
  match addrHi, d.oldHi with
  | some addrHi, some oldHi => shadowOldCAS eh env ty addrHi oldHi
  | some _, none => ofOption none
  | none, _ => pure ()
  shadowStoreCAS eh env addrLo d.dataLo casSucceeded
  match addrHi, d.dataHi with
  | some addrHi, some dataHi => shadowStoreCAS eh env addrHi dataHi casSucceeded
  | some _, none => ofOption none
  | none, _ => pure ()
  return casSucceeded

/-- Names of the dirty calls that store and load 80-bit numbers. -/
def storeF80leNames : List String :=
  ["x86g_dirtyhelper_storeF80le", "amd64g_dirtyhelper_storeF80le"]

@[inherit_doc storeF80leNames]
def loadF80leNames : List String :=
  ["x86g_dirtyhelper_loadF80le", "amd64g_dirtyhelper_loadF80le"]

/-- The name of a function. -/
def IRCallee.name : IRCallee → String
  | .guest name => name
  | .tool _ => ""

/-- The part of `add_statement_modified` for dirty calls. -/
def addDirtyModified (d : IRDirty) : Emit Unit :=
  if d.cee.name ∈ storeF80leNames then do
    let addr ← ofOption d.args[0]?
    let expr ← ofOption d.args[1]?
    let modifiedExpr ← dgModifyExpressionOrDefault eh env expr
    eh.dirtyStoreF80le addr modifiedExpr
  else if d.cee.name ∈ loadF80leNames then do
    let addr ← ofOption d.args[0]?
    let tmp ← ofOption d.tmp
    eh.dirtyLoadF80le env addr tmp
  else match d.tmp with
    | some tmp => do
        let ty ← typeOf (.rdTmp tmp)
        let shadow ← eh.default_ ty
        eh.wrtmp env tmp shadow
    | none => return ()

/-- `add_statement_modified`.  The result is the temporary for the success of a
compare-and-swap statement. -/
def addStatementModified : IRStmt → Emit (Option IRTemp)
  | .wrTmp tmp data => do
      let shadow ← dgModifyExpressionOrDefault eh env data
      eh.wrtmp env tmp shadow
      return none
  | .put offset data => do
      let shadow ← dgModifyExpressionOrDefault eh env data
      eh.put env offset shadow
      return none
  | .putI descr ix bias data => do
      let shadow ← dgModifyExpressionOrDefault eh env data
      eh.putI env descr ix bias shadow
      return none
  | .store _ addr data => do
      let shadow ← dgModifyExpressionOrDefault eh env data
      eh.store env addr shadow none
      return none
  | .storeG _ addr data guard => do
      let shadow ← dgModifyExpressionOrDefault eh env data
      eh.store env addr shadow (some guard)
      return none
  | .loadG _ _ dst addr alt guard => do
      -- the conversion is discarded
      let ty ← typeOf (.rdTmp dst)
      let dataRead ← eh.load env addr ty
      let shadowAlt ← dgModifyExpressionOrDefault eh env alt
      eh.wrtmp env dst (eh.ite guard dataRead shadowAlt)
      return none
  | .cas details => do
      let casSucceeded ← addCASModified eh env details
      return some casSucceeded
  | .dirty details => do
      addDirtyModified eh env details
      return none
  | .llsc _ _ _ _ => return none
  | .noOp => return none
  | .iMark _ _ _ => return none
  | .abiHint _ _ _ => return none
  | .exit _ _ _ _ => return none
  | .mbe => return none

end Modify

/-- The part of `dg_original_statement` for one element of a compare-and-swap. -/
def originalStoreCAS (d : IRCAS) (ty : IRType) (addr data : IRExpr) (casSucceeded : IRTemp) :
    IRStmt :=
  .store d.endness addr (.ite (.rdTmp casSucceeded) data (.load d.endness ty addr))

/-- The part of `dg_original_statement` for compare-and-swap statements. -/
def originalCAS (d : IRCAS) (casSucceeded : IRTemp) : Emit Unit := do
  let ty ← typeOf d.expdLo
  let (addrLo, addrHi) ← addressesOfCAS d
  addStmt (.wrTmp d.oldLo (.load d.endness ty addrLo))
  match addrHi, d.oldHi with
  | some addrHi, some oldHi => addStmt (.wrTmp oldHi (.load d.endness ty addrHi))
  | _, _ => pure ()
  addStmt (originalStoreCAS d ty addrLo d.dataLo casSucceeded)
  match addrHi, d.dataHi with
  | some addrHi, some dataHi => addStmt (originalStoreCAS d ty addrHi dataHi casSucceeded)
  | _, _ => return ()

/-- `dg_original_statement`. -/
def dgOriginalStatement (st : IRStmt) (casSucceeded : Option IRTemp) : Emit Unit :=
  match st, casSucceeded with
  | .cas details, some tmp => originalCAS details tmp
  | st, _ => addStmt st

/-! ### Superblocks -/

/-- Whether a statement is a mark of an instruction. -/
def IRStmt.isIMark : IRStmt → Bool
  | .iMark _ _ _ => true
  | _ => false

/-- The instrumentation of one statement, followed by the statement itself. -/
def dgInstrumentStmt (eh : ExpressionHandling) (env : DiffEnv) (st : IRStmt) : Emit Unit := do
  let casSucceeded ← addStatementModified eh env st
  dgOriginalStatement st casSucceeded

/-- The statements in front of the first instruction mark, which are only copied. -/
def IRSB.preamble (sb : IRSB) : List IRStmt := sb.stmts.takeWhile fun st => !st.isIMark

/-- The statements from the first instruction mark on. -/
def IRSB.marked (sb : IRSB) : List IRStmt := sb.stmts.dropWhile fun st => !st.isIMark

/-- The temporaries of a superblock, and shadow temporaries for all layers. -/
def shadowedTyenv (layers : ℕ) (tyenv : List IRType) : List IRType :=
  tyenv ++ (List.replicate layers tyenv).flatten

/-- `dg_instrument`, for a guest state of `gsOffset` bytes.  There is no result if an
assertion fails. -/
def dgInstrument (o : Options) (gsOffset : ℕ) (wordTy : IRType) (sb : IRSB) : Option IRSB := do
  let eh := o.expressionhandling
  let env : DiffEnv := ⟨sb.tyenv.length, gsOffset, wordTy⟩
  let tyenv := shadowedTyenv eh.layers sb.tyenv
  let (_, tys, sts) ← Emitter.mapList (dgInstrumentStmt eh env) sb.marked tyenv
  return ⟨tyenv ++ tys, sb.preamble ++ sts, sb.next⟩

end Derivgrind
