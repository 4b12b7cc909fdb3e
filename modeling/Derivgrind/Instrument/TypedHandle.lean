import Derivgrind.Instrument.Handle
import Derivgrind.Instrument.TypedTable
import Mathlib.Data.List.Nodup

/-!
# Shadows are well-typed

The code that computes the shadow of an expression passes the sanity check, and all
layers have the type of the expression, provided that the shadows of the temporaries
have been assigned, and that no operation is reached for which ill-typed code is
emitted.

## Main definitions

* `IRExpr.formed` — whether the shadow of an expression can be formed in recording mode.
* `IRExpr.reachesIllTyped` — whether ill-typed code is emitted for an expression.
* `Readable` — the temporaries of an expression and their shadows have been assigned.

## Main results

* `wellTyped_expressionhandling` — what the modes have in common.
* `wpt_dgModifyExpression` — **shadows are well-typed.**
-/

namespace Derivgrind

open Emitter.Meaning

/-! ### Expressions for which ill-typed code is emitted -/

/-- Whether the shadow of the result of an operation can be formed in recording mode. -/
def IROp.formedFrom (o : Options) (op : IROp) (inputs : List Bool) : Bool :=
  match irOpInfo? op with
  | none => o.typegrind
  | some info => info.diffinputs.all (numbered false inputs)

/-- Whether the shadow of an expression can be formed in recording mode. -/
@[simp] def IRExpr.formed (o : Options) : IRExpr → Bool
  | .qop op a b c d => op.formedFrom o [a.formed o, b.formed o, c.formed o, d.formed o]
  | .triop op a b c => op.formedFrom o [a.formed o, b.formed o, c.formed o]
  | .binop op a b => op.formedFrom o [a.formed o, b.formed o]
  | .unop op a => op.formedFrom o [a.formed o]
  | .ite _ iftrue iffalse => iftrue.formed o && iffalse.formed o
  | .const _ => true
  | .rdTmp _ => true
  | .get _ _ => true
  | .getI _ _ _ => true
  | .load _ _ _ => true
  | .ccall _ _ _ => false
  | .vecret => false
  | .gsptr => false

/-- Whether ill-typed code is emitted for an operation, given which of the shadows of its
arguments could be formed. -/
def IROp.emitsIllTyped (o : Options) (op : IROp) (inputs : List Bool) : Bool :=
  op.illTyped o && op.formedFrom o inputs

mutual

/-- Whether ill-typed code is emitted for an expression.  The expressions for addresses,
indices of arrays and conditions have no shadow. -/
@[simp] def IRExpr.reachesIllTyped (o : Options) : IRExpr → Bool
  | .qop op a b c d =>
      a.reachesIllTyped o || b.reachesIllTyped o || c.reachesIllTyped o || d.reachesIllTyped o ||
        op.emitsIllTyped o [a.formed o, b.formed o, c.formed o, d.formed o]
  | .triop op a b c =>
      a.reachesIllTyped o || b.reachesIllTyped o || c.reachesIllTyped o ||
        op.emitsIllTyped o [a.formed o, b.formed o, c.formed o]
  | .binop op a b =>
      a.reachesIllTyped o || b.reachesIllTyped o || op.emitsIllTyped o [a.formed o, b.formed o]
  | .unop op a => a.reachesIllTyped o || op.emitsIllTyped o [a.formed o]
  | .ite _ iftrue iffalse => iftrue.reachesIllTyped o || iffalse.reachesIllTyped o
  | .ccall _ _ args => IRExpr.anyReachesIllTyped o args
  | .const _ => false
  | .rdTmp _ => false
  | .get _ _ => false
  | .getI _ _ _ => false
  | .load _ _ _ => false
  | .vecret => false
  | .gsptr => false

/-- Whether ill-typed code is emitted for one of several expressions. -/
@[simp] def IRExpr.anyReachesIllTyped (o : Options) : List IRExpr → Bool
  | [] => false
  | e :: es => e.reachesIllTyped o || IRExpr.anyReachesIllTyped o es

end

section Rules

variable {w : IRType} {env : List IRType} {D : List IRTemp}

/-! ### Expression handling -/

/-- A shadow, if it could be formed, consists of layers of the given type. -/
def ShadowTyped (env : List IRType) (w : IRType) (D : List IRTemp) (layers : ℕ) (ty : IRType)
    (shadow : Option Shadow) : Prop :=
  ∀ sh, shadow = some sh → TypedAll env w D layers ty sh

theorem ShadowTyped.adds {env' : List IRType} {D' : List IRTemp} {layers : ℕ} {ty : IRType}
    {shadow : Option Shadow} (h : ShadowTyped env w D layers ty shadow)
    (hadds : Adds env D env' D') : ShadowTyped env' w D' layers ty shadow :=
  fun sh hsh => (h sh hsh).adds hadds

/-- An argument of an operation or a call, and its shadow. -/
def ArgTyped (env : List IRType) (w : IRType) (D : List IRTemp) (layers : ℕ) (ty : IRType)
    (arg : IRExpr × Option Shadow) : Prop :=
  Typed env w D arg.1 ty ∧ ShadowTyped env w D layers ty arg.2

theorem ArgTyped.adds {env' : List IRType} {D' : List IRTemp} {layers : ℕ} {ty : IRType}
    {arg : IRExpr × Option Shadow} (h : ArgTyped env w D layers ty arg)
    (hadds : Adds env D env' D') : ArgTyped env' w D' layers ty arg :=
  ⟨h.1.adds hadds, h.2.adds hadds⟩

theorem numbered_map {α β : Type} (f : α → β) (d : α) (l : List α) (i : ℕ) :
    numbered (f d) (l.map f) i = f (numbered d l i) := by
  unfold numbered
  rw [List.getD_eq_getElem?_getD, List.getD_eq_getElem?_getD, List.getElem?_map]
  cases l[i - 1]? <;> rfl

theorem ArgTyped.numbered {layers : ℕ} {tys : List IRType} {args : List (IRExpr × Option Shadow)}
    (h : List.Forall₂ (ArgTyped env w D layers) tys args) (i : ℕ) {ty : IRType}
    (hty : tys[i - 1]? = some ty) :
    Typed env w D (numbered .vecret (args.map Prod.fst) i) ty ∧
      ShadowTyped env w D layers ty (numbered none (args.map Prod.snd) i) := by
  obtain ⟨hlt, rfl⟩ := List.getElem?_eq_some_iff.mp hty
  have hlt' : i - 1 < args.length := by rw [← h.length_eq]; exact hlt
  have harg := List.Forall₂.get h hlt hlt'
  simp only [Derivgrind.numbered, List.getD_eq_getElem?_getD, List.getElem?_map,
    List.getElem?_eq_getElem hlt', Option.map_some, Option.getD_some]
  exact harg

theorem allFormed_eq (args : List (IRExpr × Option Shadow)) (inputs : List ℕ) :
    allFormed (numbered none (args.map Prod.snd)) inputs =
      inputs.all (numbered false (args.map fun arg => arg.2.isSome)) := by
  have hsome : ∀ i, (numbered none (args.map Prod.snd) i).isSome =
      numbered false (args.map fun arg => arg.2.isSome) i := by
    intro i
    rw [← numbered_map Option.isSome none (args.map Prod.snd) i, List.map_map]
    rfl
  unfold allFormed
  simp only [hsome]

/-- A layer of the shadows that could be formed. -/
theorem typedArg_argLayer {op : IROp} {layers k : ℕ} {args : List (IRExpr × Option Shadow)}
    {inputs : List ℕ} (hk : k < layers)
    (h : List.Forall₂ (ArgTyped env w D layers) (typeOfPrimop op).args args)
    (hformed : allFormed (numbered none (args.map Prod.snd)) inputs = true) :
    ∀ i ∈ inputs, TypedArg env w D op (argLayer (numbered none (args.map Prod.snd)) k) i := by
  intro i hi ty hty
  have hsome := List.all_eq_true.mp hformed i hi
  obtain ⟨sh, hsh⟩ := Option.isSome_iff_exists.mp hsome
  unfold argLayer
  rw [hsh]
  exact ((ArgTyped.numbered h i hty).2 sh hsh).getD hk

theorem operands_of_argTyped {op : IROp} {layers j k : ℕ} {args : List (IRExpr × Option Shadow)}
    {inputs : List ℕ} (hb : Bounded env D) (hj : j < layers) (hk : k < layers)
    (h : List.Forall₂ (ArgTyped env w D layers) (typeOfPrimop op).args args)
    (hformed : allFormed (numbered none (args.map Prod.snd)) inputs = true) :
    Operands env w D op inputs (numbered .vecret (args.map Prod.fst))
      (argLayer (numbered none (args.map Prod.snd)) j)
      (argLayer (numbered none (args.map Prod.snd)) k) where
  bounded := hb
  arg i _ hty := (ArgTyped.numbered h i hty).1
  lo := typedArg_argLayer hj h hformed
  hi := typedArg_argLayer hk h hformed

/-- The shadow temporaries of a temporary. -/
def shadowTmps (layers tmpOffset tmp : ℕ) : List IRTemp :=
  (List.range layers).map fun k => tmp + (k + 1) * tmpOffset

/-- What the check of emitted code needs to know about a mode. -/
structure ExpressionHandling.WellTyped (eh : ExpressionHandling) (o : Options) : Prop where
  layers_pos : 0 < eh.layers
  constant : ∀ {w env D con}, tcConst con = true →
    TypedAll env w D eh.layers (typeOfIRConst con) (eh.constant con)
  default_ : ∀ {w env D ty}, (checkMeaning w).wp (eh.default_ ty) env D fun shadow env' D' =>
    env' = env ∧ D' = D ∧ TypedAll env' w D' eh.layers ty shadow
  operation : ∀ {w env D op} {args : List (IRExpr × Option Shadow)}, Bounded env D →
    List.Forall₂ (ArgTyped env w D eh.layers) (typeOfPrimop op).args args →
    op.emitsIllTyped o (args.map fun arg => arg.2.isSome) = false →
    (checkMeaning w).wp (eh.operation op (numbered .vecret (args.map Prod.fst))
      (numbered none (args.map Prod.snd))) env D fun shadow env' D' =>
        Adds env D env' D' ∧ ShadowTyped env' w D' eh.layers (typeOfPrimop op).dst shadow ∧
          (o.mode = .b → shadow.isSome = op.formedFrom o (args.map fun arg => arg.2.isSome))
  ccall : ∀ {w env D} (retty : IRType) {args : List (IRExpr × Option Shadow)}, Bounded env D →
    (∀ arg ∈ args, ∃ ty, ArgTyped env w D eh.layers ty arg) →
    (checkMeaning w).wp (eh.ccall retty (args.map Prod.fst) (args.map Prod.snd)) env D
      fun shadow env' D' => Adds env D env' D' ∧ ShadowTyped env' w D' eh.layers retty shadow ∧
        (o.mode = .b → shadow = none)
  dirtyStoreF80le : ∀ {w env D addr sh ty}, TypedArgs env w D [addr] →
    TypedAll env w D eh.layers ty sh → ty ≠ .i1 →
    (checkMeaning w).wp (eh.dirtyStoreF80le addr sh) env D fun _ env' D' => env' = env ∧ D' = D
  dirtyLoadF80le : ∀ {w env D denv addr tmp ty}, TypedArgs env w D [addr] →
    (∀ t ∈ shadowTmps eh.layers denv.tmpOffset tmp, env[t]? = some ty ∧ t ∉ D) →
    (shadowTmps eh.layers denv.tmpOffset tmp).Nodup → ty ≠ .i1 →
    (checkMeaning w).wp (eh.dirtyLoadF80le denv addr tmp) env D fun _ env' D' =>
      env' = env ∧ D' = D ++ shadowTmps eh.layers denv.tmpOffset tmp

/-! ### Dirty calls for 80-bit numbers -/

theorem typedArgs_pair {addr e : IRExpr} {ty : IRType} (haddr : TypedArgs env w D [addr])
    (he : Typed env w D e ty) (hty : ty ≠ .i1) : TypedArgs env w D [addr, e] :=
  haddr.append (typedArgs_of_typed fun e' he' => by
    rw [List.mem_singleton.mp he']
    exact ⟨ty, he, hty⟩)

/-- Two dirty calls assign two shadow temporaries. -/
theorem wpt_twoDirtyTmps {helper helper' : ToolHelper} {addr : IRExpr} {t t' : IRTemp} {ty : IRType}
    (haddr : TypedArgs env w D [addr]) (h : ∀ t₀ ∈ [t, t'], env[t₀]? = some ty ∧ t₀ ∉ D)
    (hnodup : [t, t'].Nodup) (hty : ty ≠ .i1) :
    (checkMeaning w).wp (do
      addDirtyTmp t helper [addr]
      addDirtyTmp t' helper' [addr]) env D fun _ env' D' => env' = env ∧ D' = D ++ [t, t'] := by
  have hne : t ≠ t' := by simpa using hnodup
  obtain ⟨ht, htD⟩ := h t (by simp)
  obtain ⟨ht', htD'⟩ := h t' (by simp)
  apply wp_bind
  apply wpt_addDirtyTmp ty haddr ht hty htD
  apply wpt_addDirtyTmp ty (fun e he => ⟨(haddr e he).1, fun t ht =>
    List.mem_append_left _ ((haddr e he).2 t ht)⟩) ht' hty (by simpa [htD'] using hne.symm)
  exact ⟨rfl, by simp⟩

/-! ### Forward mode -/

/-- No shadow is formed. -/
theorem wpt_none {o : Options} {layers : ℕ} {ty : IRType} {formed : Bool}
    (h : o.mode = .b → formed = false) :
    (checkMeaning w).wp (pure none) env D fun shadow env' D' =>
      Adds env D env' D' ∧ ShadowTyped env' w D' layers ty shadow ∧
        (o.mode = .b → Option.isSome shadow = formed) :=
  wp_pure ⟨Adds.refl env D, by simp [ShadowTyped], fun hmode => (h hmode).symm⟩

/-- A shadow is formed without code. -/
theorem wpt_some {o : Options} {layers : ℕ} {ty : IRType} {sh : Shadow} {formed : Bool}
    (hsh : TypedAll env w D layers ty sh) (h : o.mode = .b → formed = true) :
    (checkMeaning w).wp (pure (some sh)) env D fun shadow env' D' =>
      Adds env D env' D' ∧ ShadowTyped env' w D' layers ty shadow ∧
        (o.mode = .b → Option.isSome shadow = formed) := by
  refine wp_pure ⟨Adds.refl env D, ?_, fun hmode => (h hmode).symm⟩
  rintro sh' ⟨⟩
  exact hsh

theorem wellTyped_dot {o : Options} (ho : o.mode ≠ .b) :
    dgDotExpressionhandling.WellTyped o where
  layers_pos := by decide
  constant {w env D con} hcon := by
    cases con with
    | bufferAddr ty offset =>
      have hty : ty = .i32 ∨ ty = .i64 := by simpa [tcConst] using hcon
      rcases hty with rfl | rfl <;> exact .cons (Typed.const _ rfl) (.nil _)
    | _ => exact .cons (Typed.const _ rfl) (.nil _)
  default_ {w env D ty} := wp_pure ⟨rfl, rfl, .cons (typed_mkIRConstZero ty) (.nil _)⟩
  operation {w env D op args} hb h _ := by
    show (checkMeaning w).wp (dgDotOperation op _ _) env D _
    unfold dgDotOperation
    split
    · exact wpt_none fun hmode => absurd hmode ho
    · rename_i info hinfo
      split
      · rename_i hformed
        have hops := operands_of_argTyped (w := w) hb (show 0 < 1 by decide)
          (show 0 < 1 by decide) h hformed
        apply wp_bind
        apply wp_mono ((entryTyped_of_irOpInfo hinfo).dotcode hops)
        rintro e env' D' ⟨hadds, he⟩
        refine wp_pure ⟨hadds, ?_, fun hmode => absurd hmode ho⟩
        rintro sh ⟨⟩
        exact .cons he (.nil _)
      · exact wpt_none fun hmode => absurd hmode ho
  ccall {w env D} retty {args} _ _ :=
    wp_pure ⟨Adds.refl env D, by simp [ShadowTyped], fun hmode => absurd hmode ho⟩
  dirtyStoreF80le {w env D addr sh ty} haddr hsh hty :=
    wpt_addDirty (typedArgs_pair haddr (hsh.getD (by decide)) hty) ⟨rfl, rfl⟩
  dirtyLoadF80le {w env D denv addr tmp ty} haddr h _ hty := by
    have htmps : shadowTmps 1 denv.tmpOffset tmp = [tmp + denv.tmpOffset] := by simp [shadowTmps]
    change ∀ t ∈ shadowTmps 1 denv.tmpOffset tmp, _ at h
    change (checkMeaning w).wp _ env D fun _ env' D' =>
      env' = env ∧ D' = D ++ shadowTmps 1 denv.tmpOffset tmp
    rw [htmps] at h ⊢
    obtain ⟨ht, htD⟩ := h _ List.mem_cons_self
    exact wpt_addDirtyTmp ty haddr ht hty htD ⟨rfl, rfl⟩

/-! ### Recording mode -/

theorem typedAll_dgBarConstant {con : IRConst} (hcon : tcConst con = true) :
    TypedAll env w D 2 (typeOfIRConst con) (dgBarConstant con) := by
  have htwice : ∀ {e : IRExpr} {ty : IRType}, Typed env w D e ty → TypedAll env w D 2 ty [e, e] :=
    fun he => .cons he (.cons he (.nil _))
  cases con with
  | bufferAddr ty offset =>
    have hty : ty = .i32 ∨ ty = .i64 := by simpa [tcConst] using hcon
    rcases hty with rfl | rfl <;> exact htwice (Typed.const _ rfl)
  | f64 x => exact htwice ((Typed.const (.u64 0) rfl).unop rfl)
  | f32 x => exact htwice ((Typed.const (.u32 0) rfl).unop rfl)
  | f32i x => exact htwice ((Typed.const (.u32 0) rfl).unop rfl)
  | _ => exact htwice (Typed.const _ rfl)

theorem wpt_dgBarDefault (ty : IRType) :
    (checkMeaning w).wp (dgBarDefault ty) env D fun shadow env' D' =>
      env' = env ∧ D' = D ∧ TypedAll env' w D' 2 ty shadow := by
  have hu64 : Typed env w D (.const (.u64 0)) .i64 := Typed.const (.u64 0) rfl
  apply wp_bind
  apply wpt_ofOption
  intro zero hzero
  have hty : Typed env w D zero ty := by
    cases ty with
    | f32 => exact Option.some_inj.mp hzero ▸ (Typed.const (.u32 0) rfl).unop rfl
    | d64 => exact Option.some_inj.mp hzero ▸ hu64.unop rfl
    | f128 => exact Option.some_inj.mp hzero ▸ (Typed.const (.u128 0) rfl).unop rfl
    | v128 => exact Option.some_inj.mp hzero ▸ Typed.binop rfl hu64 hu64
    | v256 => exact Option.some_inj.mp hzero ▸ Typed.qop rfl hu64 hu64 hu64 hu64
    | f16 => cases hzero
    | d32 => cases hzero
    | d128 => cases hzero
    | _ => exact Option.some_inj.mp hzero ▸ Typed.const _ rfl
  exact wp_pure ⟨rfl, rfl, .cons hty (.cons hty (.nil _))⟩

/-- Both layers are computed by the code in the table. -/
theorem wpt_layers {o : Options} {ty : IRType} {m : Emit (List IRExpr)} {formed : Bool}
    (h : LayersTyped w env D 2 ty m) (hformed : o.mode = .b → formed = true) :
    (checkMeaning w).wp (do
      let layers ← m
      return some layers) env D fun shadow env' D' =>
        Adds env D env' D' ∧ ShadowTyped env' w D' 2 ty shadow ∧
          (o.mode = .b → Option.isSome shadow = formed) := by
  apply wp_bind
  apply wp_mono h
  rintro layers env' D' ⟨hadds, hlayers⟩
  refine wp_pure ⟨hadds, ?_, fun hmode => (hformed hmode).symm⟩
  rintro sh ⟨⟩
  exact hlayers

theorem shadowTmps_two (tmpOffset tmp : ℕ) :
    shadowTmps 2 tmpOffset tmp = [tmp + tmpOffset, tmp + 2 * tmpOffset] := by
  simp [shadowTmps, List.range_succ]

theorem wellTyped_bar {o : Options} (ho : o.mode = .b) :
    (dgBarExpressionhandling o).WellTyped o where
  layers_pos := by show 0 < 2; decide
  constant := typedAll_dgBarConstant
  default_ {w env D ty} := wpt_dgBarDefault ty
  operation {w env D op args} hb h hill := by
    show (checkMeaning w).wp (dgBarOperation o op _ _) env D _
    unfold dgBarOperation
    split
    · rename_i hinfo
      split
      · rename_i htype
        apply wp_bind
        apply wpt_mkIRConstOnes
        intro ones hones
        exact wpt_some (.cons hones (.cons hones (.nil _)))
          fun _ => by simp [IROp.formedFrom, hinfo, htype]
      · rename_i htype
        exact wpt_none fun _ => by simp [IROp.formedFrom, hinfo, htype]
    · rename_i info hinfo
      -- `formedFrom` says in terms of the arguments which operands have shadows.
      have hall : op.formedFrom o (args.map fun arg => arg.2.isSome) =
          allFormed (numbered none (args.map Prod.snd)) info.diffinputs := by
        rw [allFormed_eq, IROp.formedFrom, hinfo]
      split
      · rename_i hformed
        have hill' : op.illTyped o = false := by
          rw [IROp.emitsIllTyped, hall, hformed, Bool.and_true] at hill
          exact hill
        have hops := operands_of_argTyped (w := w) hb (show 0 < 2 by decide)
          (show 1 < 2 by decide) h hformed
        exact wpt_layers ((entryTyped_of_irOpInfo hinfo).barcode hops ho hill')
          fun _ => hall.trans hformed
      · rename_i hformed
        exact wpt_none fun _ => hall.trans (by simpa using hformed)
  ccall {w env D} retty {args} _ _ :=
    wp_pure ⟨Adds.refl env D, by simp [ShadowTyped], fun _ => rfl⟩
  dirtyStoreF80le {w env D addr sh ty} haddr hsh hty := by
    change TypedAll env w D 2 ty sh at hsh
    apply wp_bind
    apply wpt_addDirty (typedArgs_pair haddr (hsh.getD (by decide)) hty)
    exact wpt_addDirty (typedArgs_pair haddr (hsh.getD (by decide)) hty) ⟨rfl, rfl⟩
  dirtyLoadF80le {w env D denv addr tmp ty} haddr h hnodup hty := by
    have htmps := shadowTmps_two denv.tmpOffset tmp
    change ∀ t ∈ shadowTmps 2 denv.tmpOffset tmp, _ at h
    change (shadowTmps 2 denv.tmpOffset tmp).Nodup at hnodup
    change (checkMeaning w).wp _ env D fun _ env' D' =>
      env' = env ∧ D' = D ++ shadowTmps 2 denv.tmpOffset tmp
    rw [htmps] at h hnodup ⊢
    exact wpt_twoDirtyTmps haddr h hnodup hty

/-! ### Bit-trick-finding mode -/

theorem wpt_unhandledFlags {ty : IRType} {notActive : IRExpr} (h : Typed env w D notActive .i1)
    {Q : IRExpr → List IRType → List IRTemp → Prop} (hQ : ∀ e, Typed env w D e ty → Q e env D) :
    (checkMeaning w).wp (unhandledFlags ty notActive) env D Q := by
  unfold unhandledFlags
  split
  · apply wp_bind
    apply wpt_mkIRConstOnes
    intro ones hones
    have hflags := Typed.ite h (typed_mkIRConstZero .i64) hones
    exact wp_pure (hQ _ (Typed.binop rfl hflags hflags))
  · exact wp_pure (hQ _ (h.unop rfl))
  · apply wp_bind
    apply wpt_mkIRConstOnes
    intro ones hones
    exact wp_pure (hQ _ (Typed.ite h (typed_mkIRConstZero ty) hones))

/-- The test whether no argument of an operation is active. -/
theorem typed_notActive {op : IROp} {layers : ℕ} {args : List (IRExpr × Option Shadow)}
    (hpos : 0 < layers) (h : List.Forall₂ (ArgTyped env w D layers) (typeOfPrimop op).args args)
    (is : List ℕ) : ∀ {e : IRExpr}, Typed env w D e .i1 →
      Typed env w D (is.foldl (fun e i =>
        if (numbered none (args.map Prod.snd) i).isSome then
          and1 e (isZero (argLayer (numbered none (args.map Prod.snd)) 0 i)
            (typeOfPrimop op).args[i - 1]?)
        else e) e) .i1 := by
  induction is with
  | nil => exact fun he => he
  | cons i is ih =>
    intro e he
    rw [List.foldl_cons]
    apply ih
    split
    · rename_i hsome
      apply typed_and1 he
      cases hty : (typeOfPrimop op).args[i - 1]? with
      | none => exact Typed.const (.u1 true) rfl
      | some ty =>
        have hformed : allFormed (numbered none (args.map Prod.snd)) [i] = true := by
          simpa [allFormed] using hsome
        exact typed_isZero (typedArg_argLayer hpos h hformed i List.mem_cons_self ty hty)
    · exact he

theorem typed_foldl_and1 {tests : List IRExpr} (h : ∀ e ∈ tests, Typed env w D e .i1) :
    ∀ {e : IRExpr}, Typed env w D e .i1 → Typed env w D (tests.foldl and1 e) .i1 := by
  induction tests with
  | nil => exact fun he => he
  | cons test tests ih =>
    intro e he
    exact ih (fun e' he' => h e' (List.mem_cons_of_mem test he'))
      (typed_and1 he (h test List.mem_cons_self))

theorem wellTyped_trick {o : Options} (ho : o.mode ≠ .b) :
    dgTrickExpressionhandling.WellTyped o where
  layers_pos := by show 0 < 2; decide
  constant := typedAll_dgBarConstant
  default_ {w env D ty} := wpt_dgBarDefault ty
  operation {w env D op args} hb h _ := by
    show (checkMeaning w).wp (dgTrickOperation op _ _) env D _
    unfold dgTrickOperation
    split
    · apply wp_bind
      -- The result of an unhandled operation is active if some argument is.
      apply wpt_unhandledFlags (typed_notActive (by decide) h [1, 2, 3, 4] (Typed.const (.u1 true) rfl))
      intro flagsLo hlo
      apply wp_bind
      apply wpt_mkIRConstOnes
      intro flagsHi hhi
      exact wpt_some (.cons hlo (.cons hhi (.nil _))) fun hmode => absurd hmode ho
    · rename_i info hinfo
      split
      · apply wp_bind
        apply wpt_tlAssert
        intro hformed
        have hops := operands_of_argTyped (w := w) hb (show 0 < 2 by decide)
          (show 1 < 2 by decide) h hformed
        exact wpt_layers ((entryTyped_of_irOpInfo hinfo).trickcode hops)
          fun hmode => absurd hmode ho
      · exact wpt_none fun hmode => absurd hmode ho
  ccall {w env D} retty {args} _ h := by
    show (checkMeaning w).wp (dgTrickCcall retty _ _) env D _
    have hzip : (args.map Prod.fst).zip (args.map Prod.snd) = args := by
      have hunzip := List.zip_unzip args
      rwa [List.unzip_eq_map] at hunzip
    unfold dgTrickCcall
    rw [hzip]
    apply wp_bind
    -- One test for each argument; the result is active unless all tests say zero.
    apply wp_mapList_pure (P := fun _ test => Typed env w D test .i1)
    · rintro ⟨arg, shadow⟩ harg
      obtain ⟨ty, hty, hshadow⟩ := h _ harg
      apply wp_bind
      apply wp_typeOf hty.type
      apply wp_bind
      apply wpt_ofOption
      intro sh hsh
      exact wp_pure ⟨rfl, rfl, typed_isZero ((hshadow sh hsh).getD (by decide))⟩
    · intro tests htests
      have hactive := typed_foldl_and1 (forall_mem_of_forall₂ htests) (Typed.const (.u1 true) rfl)
      apply wp_bind
      apply wpt_mkIRConstOnes
      intro ones hones
      refine wp_pure ⟨Adds.refl env D, ?_, fun hmode => absurd hmode ho⟩
      rintro sh ⟨⟩
      exact .cons (Typed.ite hactive (typed_mkIRConstZero retty) hones) (.cons hones (.nil _))
  dirtyStoreF80le {w env D addr sh ty} haddr hsh hty := by
    apply wpt_addDirty ?_ ⟨rfl, rfl⟩
    apply (typedArgs_pair haddr (hsh.getD (by decide)) hty).append
    apply typedArgs_of_typed
    intro e he
    rw [List.mem_singleton.mp he]
    exact ⟨ty, hsh.getD (by decide), hty⟩
  dirtyLoadF80le {w env D denv addr tmp ty} haddr h hnodup hty := by
    have htmps := shadowTmps_two denv.tmpOffset tmp
    change ∀ t ∈ shadowTmps 2 denv.tmpOffset tmp, _ at h
    change (shadowTmps 2 denv.tmpOffset tmp).Nodup at hnodup
    change (checkMeaning w).wp _ env D fun _ env' D' =>
      env' = env ∧ D' = D ++ shadowTmps 2 denv.tmpOffset tmp
    rw [htmps] at h hnodup ⊢
    exact wpt_twoDirtyTmps haddr h hnodup hty

/-- What the modes have in common. -/
theorem wellTyped_expressionhandling (o : Options) : o.expressionhandling.WellTyped o := by
  unfold Options.expressionhandling
  cases hmode : o.mode with
  | d => exact wellTyped_dot (by simp [hmode])
  | b => exact wellTyped_bar hmode
  | t => exact wellTyped_trick (by simp [hmode])

/-! ### Several statements -/

/-- Statements that assign nothing. -/
theorem checkStmts_of_noDefs {sts : List IRStmt} (h : ∀ st ∈ sts, tcStmt env w st = true ∧
    (∀ t ∈ st.reads, t ∈ D) ∧ st.defs = []) : checkStmts env w D sts = some D := by
  induction sts with
  | nil => rfl
  | cons st sts ih =>
    obtain ⟨htc, hreads, hdefs⟩ := h st List.mem_cons_self
    have hst := checkStmt_of htc hreads (by simp [hdefs]) (by simp [hdefs])
    rw [hdefs, List.append_nil] at hst
    rw [checkStmts, List.foldlM_cons, hst]
    exact ih fun st' hst' => h st' (List.mem_cons_of_mem st hst')

/-- Assignments of new temporaries. -/
theorem checkStmts_wrTmps {l : List (IRTemp × IRExpr)}
    (hl : ∀ p ∈ l, ∃ ty, env[p.1]? = some ty ∧ Typed env w D p.2 ty) (hnodup : (l.map Prod.fst).Nodup)
    (hnew : ∀ p ∈ l, p.1 ∉ D) :
    checkStmts env w D (l.map fun p => .wrTmp p.1 p.2) = some (D ++ l.map Prod.fst) := by
  induction l generalizing D with
  | nil => rw [List.map_nil, List.map_nil, List.append_nil]; rfl
  | cons p l ih =>
    obtain ⟨ty, hty, he⟩ := hl p List.mem_cons_self
    rw [List.map_cons, List.nodup_cons] at hnodup
    have htc : tcStmt env w (.wrTmp p.1 p.2) = true := by simp [tcStmt, he.tc, he.type, hty]
    have hreads : ∀ t ∈ (IRStmt.wrTmp p.1 p.2).reads, t ∈ D := by
      intro t ht
      exact he.reads t (by simpa [IRStmt.reads, IRStmt.exprs] using ht)
    have hst := checkStmt_of htc hreads (by simpa [IRStmt.defs] using hnew p List.mem_cons_self)
      (by simp [IRStmt.defs])
    rw [List.map_cons, checkStmts, List.foldlM_cons, hst]
    show checkStmts env w (D ++ [p.1]) _ = _
    rw [ih ?_ hnodup.2 ?_]
    · simp
    · intro q hq
      obtain ⟨ty', hty', he'⟩ := hl q (List.mem_cons_of_mem p hq)
      exact ⟨ty', hty', he'.tc, he'.type, fun t ht => List.mem_append_left _ (he'.reads t ht)⟩
    · intro q hq hmem
      rcases List.mem_append.mp hmem with hD | hp
      · exact hnew q (List.mem_cons_of_mem p hq) hD
      · rw [List.mem_singleton] at hp
        exact hnodup.1 (hp ▸ List.mem_map_of_mem hq)

/-! ### Loading a shadow -/

/-- What the check of emitted code needs to know about the instrumentation of a superblock
with the given temporaries. -/
structure Context (eh : ExpressionHandling) (denv : DiffEnv) (o : Options) (tyenv : List IRType)
    (w : IRType) : Prop where
  handling : eh.WellTyped o
  tmpOffset : denv.tmpOffset = tyenv.length
  wordTy : denv.wordTy = w
  word : w = .i32 ∨ w = .i64

section Expressions

variable {eh : ExpressionHandling} {denv : DiffEnv} {o : Options} {tyenv : List IRType}

theorem Context.typed_bufferAddr (c : Context eh denv o tyenv w) (k : ℕ) :
    Typed env w D (bufferAddr denv k) w := by
  unfold bufferAddr
  rw [c.wordTy]
  exact Typed.const (.bufferAddr w (32 * k)) (by simpa [tcConst] using c.word)

theorem Context.word_ne (c : Context eh denv o tyenv w) : w ≠ .i1 := by
  rcases c.word with rfl | rfl <;> decide

theorem typed_sizeConst (ty : IRType) : Typed env w D (sizeConst ty) .i64 := Typed.const (.u64 _) rfl

theorem Context.typedArgs_access (c : Context eh denv o tyenv w) {addr : IRExpr}
    (haddr : Typed env w D addr w) (ty : IRType) : TypedArgs env w D [addr, sizeConst ty] := by
  apply typedArgs_of_typed
  intro e he
  rcases List.mem_cons.mp he with rfl | he
  · exact ⟨w, haddr, c.word_ne⟩
  · rw [List.mem_singleton.mp he]
    exact ⟨.i64, typed_sizeConst ty, by decide⟩

/-- The temporaries that are declared for a loaded shadow. -/
theorem mem_newTemps {n t : ℕ} :
    t ∈ (List.range n).map (env.length + ·) ↔ env.length ≤ t ∧ t < env.length + n := by
  rw [List.mem_map]
  constructor
  · rintro ⟨k, hk, rfl⟩
    have := List.mem_range.mp hk
    omega
  · rintro ⟨hge, hlt⟩
    exact ⟨t - env.length, List.mem_range.mpr (by omega), by omega⟩

theorem wpt_load (c : Context eh denv o tyenv w) (hb : Bounded env D) {addr : IRExpr} {ty : IRType}
    (haddr : Typed env w D addr w) :
    (checkMeaning w).wp (eh.load denv addr ty) env D fun shadow env' D' =>
      Adds env D env' D' ∧ TypedAll env' w D' eh.layers ty shadow := by
  obtain ⟨tmps, htmps⟩ : ∃ tmps, (List.range eh.layers).map (env.length + ·) = tmps := ⟨_, rfl⟩
  have hmem : ∀ t : ℕ, t ∈ tmps ↔ env.length ≤ t ∧ t < env.length + eh.layers := by
    intro t
    rw [← htmps]
    exact mem_newTemps
  have hty : ∀ t ∈ tmps, (env ++ List.replicate eh.layers ty)[t]? = some ty := by
    intro t ht
    have := (hmem t).mp ht
    rw [List.getElem?_append_right this.1, List.getElem?_replicate, if_pos (by omega)]
  have hadds : Adds env D (env ++ List.replicate eh.layers ty) (D ++ tmps) := by
    refine ⟨List.prefix_append env _, List.subset_append_left D tmps, ?_⟩
    intro t ht
    rcases List.mem_append.mp ht with hD | hnew
    · exact Or.inl hD
    · rw [List.length_append, List.length_replicate]
      exact Or.inr ((hmem t).mp hnew)
  obtain ⟨loads, hloads⟩ : ∃ loads : List (IRTemp × IRExpr),
      tmps.zipIdx.map (fun (tmp, k) => (tmp, .load .le ty (bufferAddr denv k))) = loads := ⟨_, rfl⟩
  have hfst : loads.map Prod.fst = tmps := by
    rw [← hloads, List.map_map]
    exact List.zipIdx_map_fst 0 tmps
  have hnodup : tmps.Nodup := by
    rw [← htmps]
    exact List.Nodup.map (fun _ _ hab => Nat.add_left_cancel hab) List.nodup_range
  have hcheck : checkStmts (env ++ List.replicate eh.layers ty) w D
      (loads.map fun p => .wrTmp p.1 p.2) = some (D ++ tmps) := by
    rw [← hfst]
    apply checkStmts_wrTmps
    · intro p hp
      rw [← hloads] at hp
      obtain ⟨⟨t, k⟩, ht, rfl⟩ := List.mem_map.mp hp
      exact ⟨ty, hty t (List.fst_mem_of_mem_zipIdx ht), (c.typed_bufferAddr k).load .le ty⟩
    · rwa [hfst]
    · intro p hp hD
      have hp' : p.1 ∈ tmps := hfst ▸ List.mem_map_of_mem hp
      exact Nat.lt_irrefl _ (Nat.lt_of_lt_of_le (hb _ hD) ((hmem p.1).mp hp').1)
  apply wp_bind
  apply wpt_addDirty (c.typedArgs_access haddr ty)
  apply wp_bind
  apply wp_declare
  rw [htmps]
  apply wp_bind
  rw [← hloads, List.map_map] at hcheck
  refine wp_emit hcheck ?_
  refine wp_pure ⟨hadds, by rw [List.length_map, ← htmps, List.length_map, List.length_range], ?_⟩
  intro e he
  obtain ⟨t, ht, rfl⟩ := List.mem_map.mp he
  exact Typed.rdTmp (hty t ht) (List.mem_append_right D ht)

/-! ### Shadows of expressions -/

theorem getElem?_flatten_replicate (tys : List IRType) {t : ℕ} (ht : t < tys.length) :
    ∀ (m k : ℕ), k < m → (List.replicate m tys).flatten[t + k * tys.length]? = tys[t]? := by
  intro m
  induction m with
  | zero => intro k hk; omega
  | succ m ih =>
    intro k hk
    rw [List.replicate_succ, List.flatten_cons]
    cases k with
    | zero => rw [Nat.zero_mul, Nat.add_zero, List.getElem?_append_left ht]
    | succ k =>
      rw [Nat.succ_mul, ← Nat.add_assoc, List.getElem?_append_right (by omega), Nat.add_sub_cancel]
      exact ih k (by omega)

/-- The types of shadow temporaries. -/
theorem getElem?_shadowedTyenv {layers k t : ℕ} (hk : k < layers) (ht : t < tyenv.length) :
    (shadowedTyenv layers tyenv)[t + (k + 1) * tyenv.length]? = tyenv[t]? := by
  unfold shadowedTyenv
  rw [Nat.succ_mul, ← Nat.add_assoc, List.getElem?_append_right (by omega), Nat.add_sub_cancel]
  exact getElem?_flatten_replicate tyenv ht layers k hk

theorem getElem?_of_prefixed {l l' : List IRType} (h : l <+: l') {t : ℕ} {ty : IRType}
    (ht : l[t]? = some ty) : l'[t]? = some ty := by
  obtain ⟨l'', rfl⟩ := h
  obtain ⟨hlt, -⟩ := List.getElem?_eq_some_iff.mp ht
  rwa [List.getElem?_append_left hlt]

/-- An expression of the original superblock: its temporaries and their shadows have been
assigned. -/
structure Readable (layers : ℕ) (tyenv : List IRType) (w : IRType) (D : List IRTemp) (e : IRExpr)
    (ty : IRType) : Prop where
  typed : Typed tyenv w D e ty
  shadow : ∀ t ∈ e.reads, ∀ k < layers, t + (k + 1) * tyenv.length ∈ D

namespace Readable

variable {layers : ℕ} {a e : IRExpr} {ta ty : IRType}

theorem subset (h : Readable layers tyenv w D e ty) {D' : List IRTemp} (hD : D ⊆ D') :
    Readable layers tyenv w D' e ty :=
  ⟨⟨h.typed.tc, h.typed.type, fun t ht => hD (h.typed.reads t ht)⟩,
    fun t ht k hk => hD (h.shadow t ht k hk)⟩

theorem part (h : Readable layers tyenv w D e ty) (hreads : ∀ t ∈ a.reads, t ∈ e.reads)
    (ha : Typed tyenv w D a ta) : Readable layers tyenv w D a ta :=
  ⟨ha, fun t ht => h.shadow t (hreads t ht)⟩

/-- Temporaries have been added to those of the original superblock. -/
theorem extend (h : Readable layers tyenv w D e ty) (henv : shadowedTyenv layers tyenv <+: env) :
    Typed env w D e ty := by
  obtain ⟨tys, rfl⟩ := henv
  unfold shadowedTyenv
  rw [List.append_assoc]
  exact h.typed.mono _ fun _ ht => ht

end Readable

/-- What the code for a shadow achieves. -/
def ShadowFormed (w : IRType) (env : List IRType) (D : List IRTemp) (o : Options) (layers : ℕ)
    (ty : IRType) (formed : Bool) (m : Emit (Option Shadow)) : Prop :=
  (checkMeaning w).wp m env D fun shadow env' D' =>
    Adds env D env' D' ∧ ShadowTyped env' w D' layers ty shadow ∧
      (o.mode = .b → shadow.isSome = formed)

theorem typedAll_map {n : ℕ} {ty : IRType} {f : ℕ → IRExpr} (h : ∀ k < n, Typed env w D (f k) ty) :
    TypedAll env w D n ty ((List.range n).map f) := by
  refine ⟨by simp, ?_⟩
  intro e he
  obtain ⟨k, hk, rfl⟩ := List.mem_map.mp he
  exact h k (List.mem_range.mp hk)

theorem typedAll_rdtmp (c : Context eh denv o tyenv w)
    (henv : shadowedTyenv eh.layers tyenv <+: env) {tmp : IRTemp} {ty : IRType}
    (h : Readable eh.layers tyenv w D (.rdTmp tmp) ty) :
    TypedAll env w D eh.layers ty (eh.rdtmp denv tmp) := by
  apply typedAll_map
  intro k hk
  obtain ⟨hty, -⟩ := h.typed.rdTmp_inv
  obtain ⟨hlt, -⟩ := List.getElem?_eq_some_iff.mp hty
  rw [c.tmpOffset]
  apply Typed.rdTmp
  · apply getElem?_of_prefixed henv
    rw [getElem?_shadowedTyenv hk hlt, hty]
  · exact h.shadow tmp (by simp) k hk

theorem illTyped_of_ne {op : IROp} (h : o.mode ≠ .b) : op.illTyped o = false := by
  unfold IROp.illTyped
  split
  · simpa using h
  · simp [h]
  · simp [h]
  · rfl

theorem wpt_operation (c : Context eh denv o tyenv w) {op : IROp}
    (args : List (IRExpr × Option Shadow)) {formed : List Bool} (hb : Bounded env D)
    (hargs : List.Forall₂ (ArgTyped env w D eh.layers) (typeOfPrimop op).args args)
    (hformed : o.mode = .b → (args.map fun arg => arg.2.isSome) = formed)
    (hill : op.emitsIllTyped o formed = false) :
    ShadowFormed w env D o eh.layers (typeOfPrimop op).dst (op.formedFrom o formed)
      (eh.operation op (numbered .vecret (args.map Prod.fst))
        (numbered none (args.map Prod.snd))) := by
  by_cases hmode : o.mode = .b
  · rw [← hformed hmode] at hill ⊢
    exact c.handling.operation hb hargs hill
  · have hill' : op.emitsIllTyped o (args.map fun arg => arg.2.isSome) = false := by
      rw [IROp.emitsIllTyped, illTyped_of_ne hmode, Bool.false_and]
    apply wp_mono (c.handling.operation hb hargs hill')
    rintro shadow env' D' ⟨hadds, hshadow, -⟩
    exact ⟨hadds, hshadow, fun h => absurd h hmode⟩

theorem ShadowFormed.after {env' : List IRType} {D' : List IRTemp} {layers : ℕ} {ty : IRType}
    {formed : Bool} {m : Emit (Option Shadow)} (hadds : Adds env D env' D')
    (h : ShadowFormed w env' D' o layers ty formed m) :
    (checkMeaning w).wp m env' D' fun shadow env'' D'' =>
      Adds env D env'' D'' ∧ ShadowTyped env'' w D'' layers ty shadow ∧
        (o.mode = .b → shadow.isSome = formed) := by
  apply wp_mono h
  rintro shadow env'' D'' ⟨hadds', hrest⟩
  exact ⟨hadds.trans hadds', hrest⟩

/-- The code for the shadow of an expression passes the check, whenever it can be read. -/
def Checks (w : IRType) (o : Options) (eh : ExpressionHandling) (denv : DiffEnv)
    (tyenv : List IRType) (e : IRExpr) : Prop :=
  ∀ {env : List IRType} {D : List IRTemp} {ty : IRType},
    shadowedTyenv eh.layers tyenv <+: env → Bounded env D → Readable eh.layers tyenv w D e ty →
    e.reachesIllTyped o = false →
    ShadowFormed w env D o eh.layers ty (e.formed o) (dgModifyExpression eh denv e)

/-- The shadows of some operands have been handled. -/
structure Handled (w : IRType) (o : Options) (layers : ℕ) (env : List IRType) (D : List IRTemp)
    (tys : List IRType) (args : List (IRExpr × Option Shadow)) (formed : List Bool)
    (env' : List IRType) (D' : List IRTemp) : Prop where
  adds : Adds env D env' D'
  typed : List.Forall₂ (ArgTyped env' w D' layers) tys args
  isFormed : o.mode = .b → (args.map fun arg => arg.2.isSome) = formed

namespace Handled

variable {tys : List IRType} {args : List (IRExpr × Option Shadow)} {formed : List Bool}
  {env' : List IRType} {D' : List IRTemp}

theorem start (w : IRType) (o : Options) (layers : ℕ) (env : List IRType) (D : List IRTemp) :
    Handled w o layers env D [] [] [] env D :=
  ⟨Adds.refl env D, .nil, fun _ => rfl⟩

/-- Handle the next operand. -/
theorem next (h : Handled w o eh.layers env D tys args formed env' D') {x : IRExpr} {tx : IRType}
    (ih : Checks w o eh denv tyenv x) (henv : shadowedTyenv eh.layers tyenv <+: env)
    (hb : Bounded env D) (hx : Readable eh.layers tyenv w D x tx)
    (hill : x.reachesIllTyped o = false) :
    (checkMeaning w).wp (dgModifyExpression eh denv x) env' D' fun x' env'' D'' =>
      Handled w o eh.layers env D (tys ++ [tx]) (args ++ [(x, x')]) (formed ++ [x.formed o])
        env'' D'' := by
  apply wp_mono (ih (henv.trans h.adds.tyenv) (h.adds.bounded hb) (hx.subset h.adds.subset) hill)
  rintro x' env'' D'' ⟨hadds, hx', hfx⟩
  have hadds' := h.adds.trans hadds
  refine ⟨hadds', ?_, ?_⟩
  · apply List.rel_append
    · exact h.typed.imp fun _ _ harg => harg.adds hadds
    · exact .cons ⟨(hx.extend henv).adds hadds', hx'⟩ .nil
  · intro hmode
    rw [List.map_append, h.isFormed hmode, List.map_singleton, hfx hmode]

/-- Apply the operation after its operands have been handled. -/
theorem finish (h : Handled w o eh.layers env D tys args formed env' D')
    (c : Context eh denv o tyenv w) {op : IROp} {ty : IRType} (hop : typeOfPrimop op = ⟨tys, ty⟩)
    (hb : Bounded env D) (hill : op.emitsIllTyped o formed = false) :
    (checkMeaning w).wp (eh.operation op (numbered .vecret (args.map Prod.fst))
      (numbered none (args.map Prod.snd))) env' D' fun shadow env'' D'' =>
        Adds env D env'' D'' ∧ ShadowTyped env'' w D'' eh.layers ty shadow ∧
          (o.mode = .b → shadow.isSome = op.formedFrom o formed) := by
  have hargs := h.typed
  have hdst : (typeOfPrimop op).dst = ty := by rw [hop]
  rw [← hdst]
  refine ShadowFormed.after h.adds (wpt_operation c args (h.adds.bounded hb) ?_ h.isFormed hill)
  rwa [hop]

end Handled

mutual

/-- **Shadows are well-typed.** -/
theorem wpt_dgModifyExpression (c : Context eh denv o tyenv w) :
    ∀ e : IRExpr, Checks w o eh denv tyenv e
  | .unop op x, env, D, ty, henv, hb, h, hill => by
      simp only [IRExpr.reachesIllTyped, Bool.or_eq_false_iff] at hill
      -- The operands are handled from left to right; `Handled` collects their shadows, and
      -- `Handled.finish` is the operation itself.
      obtain ⟨tx, hop, hx⟩ := h.typed.unop_inv
      have hx := h.part (by simp) hx
      unfold dgModifyExpression
      apply wp_bind
      apply wp_mono ((Handled.start w o eh.layers env D).next (wpt_dgModifyExpression c x) henv hb
        hx hill.1)
      intro x' env₁ D₁ h₁
      exact h₁.finish c hop hb hill.2
  | .binop op x y, env, D, ty, henv, hb, h, hill => by
      simp only [IRExpr.reachesIllTyped, Bool.or_eq_false_iff] at hill
      obtain ⟨⟨hillx, hilly⟩, hill⟩ := hill
      obtain ⟨tx, ty', hop, hx, hy⟩ := h.typed.binop_inv
      have hx := h.part (fun t ht => by simp [ht]) hx
      have hy := h.part (fun t ht => by simp [ht]) hy
      unfold dgModifyExpression
      apply wp_bind
      apply wp_mono ((Handled.start w o eh.layers env D).next (wpt_dgModifyExpression c x) henv hb
        hx hillx)
      intro x' env₁ D₁ h₁
      apply wp_bind
      apply wp_mono (h₁.next (wpt_dgModifyExpression c y) henv hb hy hilly)
      intro y' env₂ D₂ h₂
      exact h₂.finish c hop hb hill
  | .triop op x y z, env, D, ty, henv, hb, h, hill => by
      simp only [IRExpr.reachesIllTyped, Bool.or_eq_false_iff] at hill
      obtain ⟨⟨⟨hillx, hilly⟩, hillz⟩, hill⟩ := hill
      obtain ⟨tx, ty', tz, hop, hx, hy, hz⟩ := h.typed.triop_inv
      have hx := h.part (fun t ht => by simp [ht]) hx
      have hy := h.part (fun t ht => by simp [ht]) hy
      have hz := h.part (fun t ht => by simp [ht]) hz
      unfold dgModifyExpression
      apply wp_bind
      apply wp_mono ((Handled.start w o eh.layers env D).next (wpt_dgModifyExpression c x) henv hb
        hx hillx)
      intro x' env₁ D₁ h₁
      apply wp_bind
      apply wp_mono (h₁.next (wpt_dgModifyExpression c y) henv hb hy hilly)
      intro y' env₂ D₂ h₂
      apply wp_bind
      apply wp_mono (h₂.next (wpt_dgModifyExpression c z) henv hb hz hillz)
      intro z' env₃ D₃ h₃
      exact h₃.finish c hop hb hill
  | .qop op x y z u, env, D, ty, henv, hb, h, hill => by
      simp only [IRExpr.reachesIllTyped, Bool.or_eq_false_iff] at hill
      obtain ⟨⟨⟨⟨hillx, hilly⟩, hillz⟩, hillu⟩, hill⟩ := hill
      obtain ⟨tx, ty', tz, tu, hop, hx, hy, hz, hu⟩ := h.typed.qop_inv
      have hx := h.part (fun t ht => by simp [ht]) hx
      have hy := h.part (fun t ht => by simp [ht]) hy
      have hz := h.part (fun t ht => by simp [ht]) hz
      have hu := h.part (fun t ht => by simp [ht]) hu
      unfold dgModifyExpression
      apply wp_bind
      apply wp_mono ((Handled.start w o eh.layers env D).next (wpt_dgModifyExpression c x) henv hb
        hx hillx)
      intro x' env₁ D₁ h₁
      apply wp_bind
      apply wp_mono (h₁.next (wpt_dgModifyExpression c y) henv hb hy hilly)
      intro y' env₂ D₂ h₂
      apply wp_bind
      apply wp_mono (h₂.next (wpt_dgModifyExpression c z) henv hb hz hillz)
      intro z' env₃ D₃ h₃
      apply wp_bind
      apply wp_mono (h₃.next (wpt_dgModifyExpression c u) henv hb hu hillu)
      intro u' env₄ D₄ h₄
      exact h₄.finish c hop hb hill
  | .const con, env, D, ty, henv, hb, h, hill => by
      obtain rfl := Option.some_inj.mp h.typed.type
      exact wpt_some (c.handling.constant h.typed.tc) fun _ => rfl
  | .rdTmp tmp, env, D, ty, henv, hb, h, hill => wpt_some (typedAll_rdtmp c henv h) fun _ => rfl
  | .get offset ty', env, D, ty, henv, hb, h, hill => by
      obtain rfl := Option.some_inj.mp h.typed.type
      exact wpt_some (typedAll_map fun k _ => Typed.get _ _) fun _ => rfl
  | .getI descr ix bias, env, D, ty, henv, hb, h, hill => by
      obtain ⟨rfl, hix⟩ := h.typed.getI_inv
      have hix := (h.part (by simp) hix).extend henv
      exact wpt_some (typedAll_map fun k _ => hix.getI _ _) fun _ => rfl
  | .load endness ty' addr, env, D, ty, henv, hb, h, hill => by
      obtain ⟨rfl, haddr⟩ := h.typed.load_inv
      have haddr := (h.part (by simp) haddr).extend henv
      unfold dgModifyExpression
      apply wp_bind
      apply wp_mono (wpt_load c hb haddr)
      -- A load gets new temporaries for the shadow, so the rest is checked after these.
      rintro shadow env' D' ⟨hadds, hshadow⟩
      exact ShadowFormed.after hadds (wpt_some hshadow fun _ => rfl)
  | .ite cond x y, env, D, ty, henv, hb, h, hill => by
      simp only [IRExpr.reachesIllTyped, Bool.or_eq_false_iff] at hill
      obtain ⟨hcond, hx, hy⟩ := h.typed.ite_inv
      have hcond := (h.part (fun t ht => by simp [ht]) hcond).extend henv
      have hx := h.part (fun t ht => by simp [ht]) hx
      have hy := h.part (fun t ht => by simp [ht]) hy
      unfold dgModifyExpression
      apply wp_bind
      apply wp_mono ((Handled.start w o eh.layers env D).next (wpt_dgModifyExpression c x) henv hb
        hx hill.1)
      intro x' env₁ D₁ h₁
      apply wp_bind
      apply wp_mono (h₁.next (wpt_dgModifyExpression c y) henv hb hy hill.2)
      intro y' env₂ D₂ h₂
      -- Unlike operations, a selection has no shadow unless both branches have one.
      have hformed : o.mode = .b → [x'.isSome, y'.isSome] = [x.formed o, y.formed o] := h₂.isFormed
      obtain _ | ⟨⟨-, hx'⟩, _ | ⟨⟨-, hy'⟩, _⟩⟩ := h₂.typed
      cases x' with
      | none =>
        refine ShadowFormed.after h₂.adds (wpt_none fun hmode => ?_)
        rw [IRExpr.formed, ← (List.cons_eq_cons.mp (hformed hmode)).1]
        rfl
      | some dtrue =>
        cases y' with
        | none =>
          refine ShadowFormed.after h₂.adds (wpt_none fun hmode => ?_)
          rw [IRExpr.formed, ← (List.cons_eq_cons.mp (List.cons_eq_cons.mp (hformed hmode)).2).1]
          exact Bool.and_false _
        | some dfalse =>
          refine ShadowFormed.after h₂.adds (wpt_some (typedAll_map fun k hk => ?_) fun hmode => ?_)
          · exact Typed.ite (hcond.adds h₂.adds) ((hx' dtrue rfl).getD hk) ((hy' dfalse rfl).getD hk)
          · obtain ⟨hfx, hfy⟩ := List.cons_eq_cons.mp (hformed hmode)
            rw [IRExpr.formed, ← hfx, ← (List.cons_eq_cons.mp hfy).1]
            rfl
  | .ccall cee retty es, env, D, ty, henv, hb, h, hill => by
      obtain rfl := Option.some_inj.mp h.typed.type
      have htc := h.typed.tc
      simp only [tcExpr, Bool.and_eq_true] at htc
      have hes : ∀ e ∈ es, ∃ ty, Readable eh.layers tyenv w D e ty := by
        intro e he
        obtain ⟨te, hte⟩ := Typed.exprs_inv htc.1 h.typed.reads e he
        exact ⟨te, h.part (IRExpr.mem_allReads he) hte⟩
      unfold dgModifyExpression
      apply wp_bind
      apply wp_mono (wpt_dgModifyExpressions c es henv hb hes hill)
      rintro es' env' D' ⟨hadds, hlen, hargs⟩
      have hcall := c.handling.ccall retty (hadds.bounded hb) hargs
      -- Some arguments may have no shadow; the call is handled with all of them.
      rw [List.map_fst_zip (by omega), List.map_snd_zip (by omega)] at hcall
      apply wp_mono hcall
      rintro shadow env'' D'' ⟨hadds', hshadow, hnone⟩
      exact ⟨hadds.trans hadds', hshadow, fun hmode => by rw [hnone hmode]; rfl⟩
  | .vecret, env, D, ty, henv, hb, h, hill => by cases h.typed.type
  | .gsptr, env, D, ty, henv, hb, h, hill => by cases h.typed.type

theorem wpt_dgModifyExpressions (c : Context eh denv o tyenv w) :
    ∀ (es : List IRExpr) {env : List IRType} {D : List IRTemp},
      shadowedTyenv eh.layers tyenv <+: env → Bounded env D →
      (∀ e ∈ es, ∃ ty, Readable eh.layers tyenv w D e ty) → IRExpr.anyReachesIllTyped o es = false →
      (checkMeaning w).wp (dgModifyExpressions eh denv es) env D fun es' env' D' =>
        Adds env D env' D' ∧ es.length = es'.length ∧
          ∀ arg ∈ es.zip es', ∃ ty, ArgTyped env' w D' eh.layers ty arg
  | [], env, D, henv, hb, h, hill => wp_pure ⟨Adds.refl env D, rfl, by simp⟩
  | e :: es, env, D, henv, hb, h, hill => by
      simp only [IRExpr.anyReachesIllTyped, Bool.or_eq_false_iff] at hill
      obtain ⟨ty, he⟩ := h e List.mem_cons_self
      unfold dgModifyExpressions
      apply wp_bind
      apply wp_mono (wpt_dgModifyExpression c e henv hb he hill.1)
      rintro e' env₁ D₁ ⟨hadds₁, he', -⟩
      have hes : ∀ e ∈ es, ∃ ty, Readable eh.layers tyenv w D₁ e ty := by
        intro e₂ he₂
        obtain ⟨ty₂, hty₂⟩ := h e₂ (List.mem_cons_of_mem e he₂)
        exact ⟨ty₂, hty₂.subset hadds₁.subset⟩
      apply wp_bind
      apply wp_mono (wpt_dgModifyExpressions c es (henv.trans hadds₁.tyenv) (hadds₁.bounded hb) hes
        hill.2)
      rintro es' env₂ D₂ ⟨hadds₂, hlen, hargs⟩
      refine wp_pure ⟨hadds₁.trans hadds₂, by rw [List.length_cons, List.length_cons, hlen], ?_⟩
      intro arg harg
      rw [List.zip_cons_cons] at harg
      rcases List.mem_cons.mp harg with rfl | harg
      · exact ⟨ty, (he.extend henv).adds (hadds₁.trans hadds₂), he'.adds hadds₂⟩
      · exact hargs arg harg

end

end Expressions

end Rules

end Derivgrind
