import Derivgrind.Instrument.TypedHandle
import Derivgrind.Instrument.TypedStmt

/-!
# Ill-typed code

For some operations, recording mode emits statements that fail the type check whatever the
temporaries are.  These operations are reached whenever the shadows of their operands can be
formed.

## Main definitions

* `Reaches` — an emitter that emits an ill-typed statement under some condition.

## Main results

* `reaches_dgInstrumentStmt` — **an ill-typed statement is emitted** if there is an
  expression with such an operation.
-/

namespace Derivgrind

/-- A statement that fails the type check. -/
def IllTypedStmt (w : IRType) (st : IRStmt) : Prop := ∀ env, tcStmt env w st = false

/-- Results satisfy `P`, and an ill-typed statement is emitted if `ill` holds. -/
def Reaches {α : Type} (w : IRType) (m : Emit α) (P : α → Prop) (ill : Prop) : Prop :=
  ∀ env a tys sts, m env = some (a, tys, sts) → P a ∧ (ill → ∃ st ∈ sts, IllTypedStmt w st)

section Rules

variable {α β : Type} {w : IRType} {P : α → Prop} {Q : β → Prop} {ill ill' : Prop}

theorem reaches_pure {a : α} (h : P a) : Reaches w (pure a) P False := by
  intro env b tys sts hm
  obtain ⟨rfl, -, -⟩ : a = b ∧ [] = tys ∧ [] = sts := by
    simpa only [Prod.mk.injEq] using Option.some_inj.mp hm
  exact ⟨h, False.elim⟩

theorem reaches_pure_of {a : α} (h : P a) (hill : ¬ill) : Reaches w (pure a) P ill :=
  fun env b tys sts hm => ⟨(reaches_pure (w := w) h env b tys sts hm).1, fun h' => absurd h' hill⟩

/-- Nothing is known about the statements. -/
theorem reaches_any (m : Emit α) : Reaches w m (fun _ => True) False :=
  fun _ _ _ _ _ => ⟨trivial, False.elim⟩

theorem Reaches.imp {m : Emit α} (h : Reaches w m P ill) {P' : α → Prop} (hP : ∀ a, P a → P' a)
    (hill : ill' → ill) : Reaches w m P' ill' := by
  intro env a tys sts hm
  obtain ⟨ha, hst⟩ := h env a tys sts hm
  exact ⟨hP a ha, fun h' => hst (hill h')⟩

theorem reaches_bind {m : Emit α} {f : α → Emit β} (hm : Reaches w m P ill)
    (hf : ∀ a, P a → Reaches w (f a) Q ill') : Reaches w (m >>= f) Q (ill ∨ ill') := by
  intro env b tys sts hbind
  obtain ⟨a, tys₁, sts₁, tys₂, sts₂, hm', hf', -, rfl⟩ := Emitter.bind_eq_some hbind
  obtain ⟨ha, hst⟩ := hm env a tys₁ sts₁ hm'
  obtain ⟨hb, hst'⟩ := hf a ha (env ++ tys₁) b tys₂ sts₂ hf'
  refine ⟨hb, ?_⟩
  rintro (h | h)
  · obtain ⟨st, hmem, hill⟩ := hst h
    exact ⟨st, List.mem_append_left sts₂ hmem, hill⟩
  · obtain ⟨st, hmem, hill⟩ := hst' h
    exact ⟨st, List.mem_append_right sts₁ hmem, hill⟩

/-- The statement is emitted by the second computation. -/
theorem reaches_then (m : Emit α) {f : α → Emit β} (hf : ∀ a, Reaches w (f a) Q ill) :
    Reaches w (m >>= f) Q ill :=
  (reaches_bind (reaches_any m) fun a _ => hf a).imp (fun _ h => h) Or.inr

/-- The statement is emitted by the first computation. -/
theorem Reaches.andThen {m : Emit α} (h : Reaches w m P ill) (f : α → Emit β) :
    Reaches w (m >>= f) (fun _ => True) ill :=
  (reaches_bind h fun a _ => reaches_any (f a)).imp (fun _ h => h) Or.inl

theorem reaches_ofOption {a : Option α} (h : ∀ x, a = some x → P x) :
    Reaches w (ofOption a) P False := by
  intro env x tys sts hm
  obtain ⟨y, hy, heq⟩ := Option.map_eq_some_iff.mp hm
  obtain rfl : y = x := (Prod.mk.injEq .. ▸ heq).1
  exact ⟨h y hy, False.elim⟩

theorem reaches_addStmt {st : IRStmt} (h : ill → IllTypedStmt w st) :
    Reaches w (addStmt st) (fun _ => True) ill := by
  intro env a tys sts hm
  obtain ⟨-, -, rfl⟩ : () = a ∧ [] = tys ∧ [st] = sts := by
    simpa only [Prod.mk.injEq] using Option.some_inj.mp hm
  exact ⟨trivial, fun hill => ⟨st, List.mem_cons_self, h hill⟩⟩

theorem reaches_mapList {f : α → Emit β} {a : α} {l : List α} (ha : a ∈ l)
    (h : Reaches w (f a) Q ill) : Reaches w (Emitter.mapList f l) (fun _ => True) ill := by
  induction l with
  | nil => cases ha
  | cons a' l ih =>
    rcases List.mem_cons.mp ha with rfl | ha
    · exact h.andThen _
    · exact reaches_then _ fun _ => (ih ha).andThen _

/-! ### Operations -/

/-- An argument that fails the check. -/
theorem illTypedStmt_addDirty {helper : ToolHelper} {args : List IRExpr} {tmp : Option IRTemp}
    {e : IRExpr} (he : .unop (.unMove .reinterpF64asI64) e ∈ args)
    (h : ∀ env, tcExpr env w e = false) :
    IllTypedStmt w (.dirty ⟨.tool helper, .const (.u1 true), args, tmp⟩) := by
  intro env
  have harg : tcArg env w (.unop (.unMove .reinterpF64asI64) e) = false := by
    simp [tcArg, isData, h env]
  have hargs : args.all (tcArg env w) = false := by
    rw [List.all_eq_false]
    exact ⟨_, he, by rw [harg]; exact Bool.false_ne_true⟩
  simp [tcStmt, hargs]

theorem reaches_dgBarWriteToTape {o : Options} {a b c d p q v : IRExpr}
    (h : ill → (∀ env, tcExpr env w p = false) ∨
      (o.barRecordValues = true ∧ ∀ env, tcExpr env w v = false)) :
    Reaches w (dgBarWriteToTape o a b c d p q v) (fun _ => True) ill := by
  by_cases hp : ∀ env, tcExpr env w p = false
  · apply reaches_then
    intro tmp
    apply Reaches.andThen
    exact reaches_addStmt fun _ => illTypedStmt_addDirty (by simp) hp
  · apply reaches_then
    intro tmp
    apply reaches_then
    intro _
    by_cases hvalues : o.barRecordValues = true
    · rw [if_pos hvalues]
      apply Reaches.andThen
      exact reaches_addStmt fun hill =>
        illTypedStmt_addDirty (by simp) ((h hill).resolve_left hp).2
    · rw [if_neg hvalues]
      exact (reaches_any _).imp (fun _ h => h)
        fun hill => hvalues ((h hill).resolve_left hp).1

theorem typeOfIRExpr_partAsF64 (env : List IRType) (fpsize : ℕ) (part : IRExpr) :
    typeOfIRExpr env (partAsF64 fpsize part) = some .f64 := by
  unfold partAsF64
  split <;> rfl

theorem reaches_createBarCode {o : Options} {op : IROp} {inputs : List ℕ}
    {partials : (ℕ → IRExpr) → List IRExpr} {value : (ℕ → IRExpr) → IRExpr} {l : Simd}
    {arg iLo iHi : ℕ → IRExpr} (hpos : 0 < l.simdsize)
    (h : ∀ parts, Reaches w (barBody o inputs.length l.fpsize partials value parts)
      (fun _ => True) ill) :
    Reaches w (createBarCode o op inputs partials value l arg iLo iHi) (fun _ => True) ill := by
  have hcomponent : Reaches w (applyToComponent (layeredInputs inputs arg iLo iHi) l.fpsize
      l.simdsize (fun component => if l.llo && component ≠ 0 then copyBody
        else barBody o inputs.length l.fpsize partials value) 0) (fun _ => True) ill := by
    apply reaches_then
    intro parts
    apply Reaches.andThen
    simpa using h parts
  apply Reaches.andThen
  apply Reaches.andThen
  exact reaches_mapList (List.mem_range.mpr hpos) hcomponent

/-- The partial derivative of `Iop_AbsF32` compares numbers of different precision. -/
theorem reaches_barcode_abs {o : Options} {arg iLo iHi : ℕ → IRExpr} :
    Reaches w ((absInfo .f32).barcode o arg iLo iHi) (fun _ => True) True := by
  apply reaches_createBarCode (by decide)
  intro parts
  rw [show [1].length = 1 from rfl, barBody_one rfl]
  apply reaches_dgBarWriteToTape
  intro _
  left
  intro env
  simp [isLess, typeOfIRExpr_partAsF64, typeOfPrimop, HelperOp.sig, typeOfIRExpr, ScalarLayout.zero,
    typeOfIRConst]

/-- The recorded value of a negation is computed by an operation of another type. -/
theorem reaches_barcode_neg {o : Options} {l : NegLayout} {arg iLo iHi : ℕ → IRExpr}
    (hvalues : o.barRecordValues = true) (hl : l ≠ .f64) :
    Reaches w ((negInfo l).barcode o arg iLo iHi) (fun _ => True) True := by
  apply reaches_createBarCode (by cases l <;> decide)
  intro parts
  rw [show [1].length = 1 from rfl, barBody_one rfl]
  apply reaches_dgBarWriteToTape
  intro _
  refine Or.inr ⟨hvalues, fun env => ?_⟩
  have hty : l.simd.type ≠ .f64 := by
    cases l with
    | f64 => exact absurd rfl hl
    | _ => decide
  simp [typeOfIRExpr_partAsF64, typeOfPrimop, hty]

/-- The recorded value of a fused operation is computed in single precision, from numbers of
double precision. -/
theorem reaches_barcode_fma {o : Options} {sub : Bool} {arg iLo iHi : ℕ → IRExpr}
    (hvalues : o.barRecordValues = true) :
    Reaches w ((fmaInfo sub .f32).barcode o arg iLo iHi) (fun _ => True) True := by
  apply reaches_createBarCode (by decide)
  intro parts
  rw [show [2, 3, 4].length = 3 from rfl, barBody_three rfl]
  apply reaches_then
  intro intermediate
  apply reaches_dgBarWriteToTape
  intro _
  refine Or.inr ⟨hvalues, fun env => ?_⟩
  simp [typeOfIRExpr_partAsF64, typeOfPrimop, ScalarLayout.simd, Simd.type]

theorem reaches_barcode {o : Options} {op : IROp} {info : IROpInfo} {arg iLo iHi : ℕ → IRExpr}
    (h : irOpInfo? op = some info) :
    Reaches w (info.barcode o arg iLo iHi) (fun _ => True) (op.illTyped o = true) := by
  have hnone : op.illTyped o = false →
      Reaches w (info.barcode o arg iLo iHi) (fun _ => True) (op.illTyped o = true) := fun hill =>
    (reaches_any _).imp (fun _ h => h) fun h' => by simp [hill] at h'
  cases op with
  | abs l =>
    cases l with
    | f64 => exact hnone rfl
    | f32 =>
      obtain rfl := Option.some_inj.mp h
      exact reaches_barcode_abs.imp (fun _ h => h) fun _ => trivial
  | neg l =>
    obtain rfl := Option.some_inj.mp h
    by_cases hill : (IROp.neg l).illTyped o = true
    · have hill' : (o.mode = .b ∧ o.barRecordValues = true) ∧ l ≠ .f64 := by
        simpa [IROp.illTyped] using hill
      exact (reaches_barcode_neg hill'.1.2 hill'.2).imp (fun _ h => h) fun _ => trivial
    · exact hnone (by simpa using hill)
  | fma sub l =>
    cases l with
    | f64 => exact hnone rfl
    | f32 =>
      obtain rfl := Option.some_inj.mp h
      by_cases hill : (IROp.fma sub .f32).illTyped o = true
      · have hill' : o.mode = .b ∧ o.barRecordValues = true := by
          simpa [IROp.illTyped] using hill
        exact (reaches_barcode_fma hill'.2).imp (fun _ h => h) fun _ => trivial
      · exact hnone (by simpa using hill)
  | _ => exact hnone rfl

/-! ### Expressions -/

mutual

/-- Only recording mode emits ill-typed code. -/
theorem reachesIllTyped_of_ne {o : Options} (h : o.mode ≠ .b) :
    ∀ e : IRExpr, e.reachesIllTyped o = false
  | .unop op x => by
      simp [reachesIllTyped_of_ne h x, IROp.emitsIllTyped, illTyped_of_ne h]
  | .binop op x y => by
      simp [reachesIllTyped_of_ne h x, reachesIllTyped_of_ne h y, IROp.emitsIllTyped,
        illTyped_of_ne h]
  | .triop op x y z => by
      simp [reachesIllTyped_of_ne h x, reachesIllTyped_of_ne h y, reachesIllTyped_of_ne h z,
        IROp.emitsIllTyped, illTyped_of_ne h]
  | .qop op x y z u => by
      simp [reachesIllTyped_of_ne h x, reachesIllTyped_of_ne h y, reachesIllTyped_of_ne h z,
        reachesIllTyped_of_ne h u, IROp.emitsIllTyped, illTyped_of_ne h]
  | .ite cond x y => by simp [reachesIllTyped_of_ne h x, reachesIllTyped_of_ne h y]
  | .ccall cee retty es => by simp [anyReachesIllTyped_of_ne h es]
  | .const _ => rfl
  | .rdTmp _ => rfl
  | .get _ _ => rfl
  | .getI _ _ _ => rfl
  | .load _ _ _ => rfl
  | .vecret => rfl
  | .gsptr => rfl

theorem anyReachesIllTyped_of_ne {o : Options} (h : o.mode ≠ .b) :
    ∀ es : List IRExpr, IRExpr.anyReachesIllTyped o es = false
  | [] => rfl
  | e :: es => by simp [reachesIllTyped_of_ne h e, anyReachesIllTyped_of_ne h es]

end

variable {o : Options} {denv : DiffEnv}

/-- The result tells whether the shadow could be formed. -/
theorem reaches_operation {op : IROp} (arg : ℕ → IRExpr) (shadows : List (Option Shadow)) :
    Reaches w (dgBarOperation o op arg (numbered none shadows))
      (fun shadow => shadow.isSome = op.formedFrom o (shadows.map Option.isSome))
      (op.emitsIllTyped o (shadows.map Option.isSome) = true) := by
  unfold dgBarOperation IROp.emitsIllTyped IROp.formedFrom
  cases hinfo : irOpInfo? op with
  | none =>
    have hill : op.illTyped o = false := by
      cases op with
      | abs l => cases hinfo
      | neg l => cases hinfo
      | fma sub l => cases hinfo
      | _ => rfl
    rw [hill]
    dsimp only
    split
    · rename_i htype
      refine (reaches_bind (reaches_any _) fun ones _ => reaches_pure ?_).imp (fun _ h => h)
        (by simp)
      simp [htype]
    · rename_i htype
      exact reaches_pure_of (by simpa using htype) (by simp)
  | some info =>
    have hall : allFormed (numbered none shadows) info.diffinputs =
        info.diffinputs.all (numbered false (shadows.map Option.isSome)) := by
      unfold allFormed
      congr 1
      funext i
      exact (numbered_map Option.isSome none shadows i).symm
    dsimp only
    rw [← hall]
    split
    · rename_i hformed
      have hcode : Reaches w (info.barcode o arg (argLayer (numbered none shadows) 0)
          (argLayer (numbered none shadows) 1)) (fun _ => True) (op.illTyped o = true) :=
        reaches_barcode hinfo
      refine (reaches_bind hcode fun layers _ => reaches_pure ?_).imp (fun _ h => h) ?_
      · simp [hformed]
      · intro h
        rw [hformed, Bool.and_true] at h
        exact Or.inl h
    · rename_i hformed
      exact reaches_pure_of (by simpa using hformed) (by simp [hformed])

theorem reaches_operation_of (o : Options) (op : IROp) (arg : ℕ → IRExpr) (shadows : List (Option Shadow))
    (formed : List Bool) (h : shadows.map Option.isSome = formed) :
    Reaches w (dgBarOperation o op arg (numbered none shadows))
      (fun shadow => shadow.isSome = op.formedFrom o formed)
      (op.emitsIllTyped o formed = true) := by
  rw [← h]
  exact reaches_operation arg shadows

mutual

/-- Ill-typed code is emitted for an expression. -/
theorem reaches_dgModifyExpression : ∀ e : IRExpr,
    Reaches w (dgModifyExpression (dgBarExpressionhandling o) denv e)
      (fun shadow => shadow.isSome = e.formed o) (e.reachesIllTyped o = true)
  | .unop op x => by
      have h := reaches_bind (reaches_dgModifyExpression x) fun x' hx =>
        -- By induction: ill-typed code for an operand is emitted before the code of the operation.
        reaches_operation_of o op (numbered .vecret [x]) [x'] [x.formed o] (by simp [hx])
      unfold dgModifyExpression
      exact h.imp (fun _ h => h) (by simp)
  | .binop op x y => by
      have h := reaches_bind (reaches_dgModifyExpression x) fun x' hx =>
        reaches_bind (reaches_dgModifyExpression y) fun y' hy =>
          reaches_operation_of o op (numbered .vecret [x, y]) [x', y'] [x.formed o, y.formed o]
            (by simp [hx, hy])
      unfold dgModifyExpression
      exact h.imp (fun _ h => h) (by simp [or_assoc])
  | .triop op x y z => by
      have h := reaches_bind (reaches_dgModifyExpression x) fun x' hx =>
        reaches_bind (reaches_dgModifyExpression y) fun y' hy =>
          reaches_bind (reaches_dgModifyExpression z) fun z' hz =>
            reaches_operation_of o op (numbered .vecret [x, y, z]) [x', y', z']
              [x.formed o, y.formed o, z.formed o] (by simp [hx, hy, hz])
      unfold dgModifyExpression
      exact h.imp (fun _ h => h) (by simp [or_assoc])
  | .qop op x y z u => by
      have h := reaches_bind (reaches_dgModifyExpression x) fun x' hx =>
        reaches_bind (reaches_dgModifyExpression y) fun y' hy =>
          reaches_bind (reaches_dgModifyExpression z) fun z' hz =>
            reaches_bind (reaches_dgModifyExpression u) fun u' hu =>
              reaches_operation_of o op (numbered .vecret [x, y, z, u]) [x', y', z', u']
                [x.formed o, y.formed o, z.formed o, u.formed o] (by simp [hx, hy, hz, hu])
      unfold dgModifyExpression
      exact h.imp (fun _ h => h) (by simp [or_assoc])
  | .const con => by
      unfold dgModifyExpression
      exact reaches_pure_of rfl (by simp)
  | .rdTmp tmp => by
      unfold dgModifyExpression
      exact reaches_pure_of rfl (by simp)
  | .get offset ty => by
      unfold dgModifyExpression
      exact reaches_pure_of rfl (by simp)
  | .getI descr ix bias => by
      unfold dgModifyExpression
      exact reaches_pure_of rfl (by simp)
  | .load endness ty addr => by
      unfold dgModifyExpression
      exact reaches_then _ fun shadow => reaches_pure_of rfl (by simp)
  | .ite cond x y => by
      have h := reaches_bind (reaches_dgModifyExpression x) fun x' hx =>
        reaches_bind (reaches_dgModifyExpression y) fun y' hy =>
          show Reaches w (match x', y' with
            | some dtrue, some dfalse =>
              (pure (some ((dgBarExpressionhandling o).ite cond dtrue dfalse)) : Emit (Option Shadow))
            | _, _ => pure none) (fun shadow => shadow.isSome = (x.formed o && y.formed o)) False by
              rw [← hx, ← hy]
              cases x' with
              | none => exact reaches_pure rfl
              | some dtrue =>
                cases y' with
                | none => exact reaches_pure rfl
                | some dfalse => exact reaches_pure rfl
      unfold dgModifyExpression
      exact h.imp (fun _ h => h) (by simp)
  | .ccall cee retty es => by
      have h := reaches_bind (reaches_dgModifyExpressions es) fun es' _ =>
        show Reaches w ((dgBarExpressionhandling o).ccall retty es es')
          (fun shadow => shadow.isSome = false) False from reaches_pure rfl
      unfold dgModifyExpression
      exact h.imp (fun _ h => h) (by simp)
  | .vecret => by
      unfold dgModifyExpression
      exact reaches_pure_of rfl (by simp)
  | .gsptr => by
      unfold dgModifyExpression
      exact reaches_pure_of rfl (by simp)

theorem reaches_dgModifyExpressions : ∀ es : List IRExpr,
    Reaches w (dgModifyExpressions (dgBarExpressionhandling o) denv es) (fun _ => True)
      (IRExpr.anyReachesIllTyped o es = true)
  | [] => by
      unfold dgModifyExpressions
      exact reaches_pure_of trivial (by simp)
  | e :: es => by
      have h := reaches_bind (reaches_dgModifyExpression e) fun e' _ =>
        (reaches_dgModifyExpressions es).andThen fun es' => pure (e' :: es')
      unfold dgModifyExpressions
      exact h.imp (fun _ h => h) (by simp)

end

theorem reaches_dgModifyExpressionOrDefault (e : IRExpr) :
    Reaches w (dgModifyExpressionOrDefault (dgBarExpressionhandling o) denv e) (fun _ => True)
      (e.reachesIllTyped o = true) :=
  (reaches_dgModifyExpression e).andThen _

/-! ### Statements -/

theorem reaches_equalCAS {endness : IREndness} {ty : IRType} {addr expd : IRExpr} :
    Reaches w (equalCAS (dgBarExpressionhandling o) denv endness ty addr expd) (fun _ => True)
      (expd.reachesIllTyped o = true) :=
  reaches_then _ fun _ => (reaches_dgModifyExpressionOrDefault expd).andThen _

theorem reaches_shadowStoreCAS {addr data : IRExpr} {tmp : IRTemp} :
    Reaches w (shadowStoreCAS (dgBarExpressionhandling o) denv addr data tmp) (fun _ => True)
      (data.reachesIllTyped o = true) :=
  (reaches_dgModifyExpressionOrDefault data).andThen _

theorem reaches_addressesOfCAS {d : IRCAS} :
    Reaches w (addressesOfCAS d) (fun r => r.2.isSome = d.expdHi.isSome) False := by
  apply reaches_then
  intro ty
  apply reaches_then
  intro addrTy
  apply reaches_then
  intro next
  apply reaches_pure
  split
  · rename_i hexpd
    simp [hexpd]
  · rename_i hexpd _
    simp [hexpd]
  · rename_i hexpd _
    simp [hexpd]

theorem reaches_addCASModified {tyenv : List IRType} {d : IRCAS}
    (htc : tcStmt tyenv w (.cas d) = true) :
    Reaches w (addCASModified (dgBarExpressionhandling o) denv d) (fun _ => True)
      (∃ e ∈ (IRStmt.cas d).modified, e.reachesIllTyped o = true) := by
  -- In a well-typed statement, either all parts of the second element are there or none.
  have hhi : (d.expdHi = none ∧ d.dataHi = none) ∨ ∃ oldHi expdHi dataHi, d.oldHi = some oldHi ∧
      d.expdHi = some expdHi ∧ d.dataHi = some dataHi := by
    simp only [tcStmt, Bool.and_eq_true, List.any_eq_true] at htc
    obtain ⟨-, ty, -, -, hhi⟩ := htc
    split at hhi
    · rename_i _ hexpd hdata
      exact Or.inl ⟨hexpd, hdata⟩
    · rename_i oldHi expdHi dataHi hold hexpd hdata
      exact Or.inr ⟨oldHi, expdHi, dataHi, hold, hexpd, hdata⟩
    · cases hhi
  rcases hhi with ⟨hexpd, hdata⟩ | ⟨oldHi, expdHi, dataHi, hold, hexpd, hdata⟩
  · have hill : (∃ e ∈ (IRStmt.cas d).modified, e.reachesIllTyped o = true) →
        d.expdLo.reachesIllTyped o = true ∨ d.dataLo.reachesIllTyped o = true := by
      simp [IRStmt.modified, hexpd, hdata]
    refine Reaches.imp ?_ (fun _ h => h) hill
    -- The values to compare with are handled first, the data in the end.
    apply reaches_then
    intro ty
    refine (reaches_bind reaches_addressesOfCAS fun r hr => ?_).imp (fun _ h => h) Or.inr
    obtain ⟨addrLo, addrHi⟩ := r
    obtain rfl : addrHi = none := by simpa [hexpd] using hr
    rw [hexpd, hdata]
    apply reaches_bind reaches_equalCAS
    intro equalLo _
    apply reaches_then
    intro equalHi
    apply reaches_then
    intro casSucceeded
    apply reaches_then
    intro _
    apply reaches_then
    intro _
    exact reaches_shadowStoreCAS.andThen _
  · have hill : (∃ e ∈ (IRStmt.cas d).modified, e.reachesIllTyped o = true) →
        d.expdLo.reachesIllTyped o = true ∨ expdHi.reachesIllTyped o = true ∨
          d.dataLo.reachesIllTyped o = true ∨ dataHi.reachesIllTyped o = true := by
      simp only [IRStmt.modified, hexpd, hdata, Option.toList_some, List.cons_append,
        List.nil_append, List.mem_cons, List.not_mem_nil, or_false]
      rintro ⟨e, rfl | rfl | rfl | rfl, he⟩
      · exact Or.inl he
      · exact Or.inr (Or.inr (Or.inl he))
      · exact Or.inr (Or.inl he)
      · exact Or.inr (Or.inr (Or.inr he))
    refine Reaches.imp ?_ (fun _ h => h) hill
    apply reaches_then
    intro ty
    refine (reaches_bind reaches_addressesOfCAS fun r hr => ?_).imp (fun _ h => h) Or.inr
    obtain ⟨addrLo, addrHi⟩ := r
    obtain ⟨addrHi, rfl⟩ : ∃ a, addrHi = some a :=
      Option.isSome_iff_exists.mp (by rw [hr, hexpd]; rfl)
    rw [hold, hexpd, hdata]
    apply reaches_bind reaches_equalCAS
    intro equalLo _
    apply reaches_bind reaches_equalCAS
    intro equalHi _
    apply reaches_then
    intro casSucceeded
    apply reaches_then
    intro _
    apply reaches_then
    intro _
    apply reaches_then
    intro _
    apply reaches_bind reaches_shadowStoreCAS
    intro _ _
    exact reaches_shadowStoreCAS.andThen _

theorem reaches_addDirtyModified {d : IRDirty} :
    Reaches w (addDirtyModified (dgBarExpressionhandling o) denv d) (fun _ => True)
      (∃ e ∈ (IRStmt.dirty d).modified, e.reachesIllTyped o = true) := by
  unfold addDirtyModified
  split
  · rename_i hname
    apply reaches_then
    intro addr
    refine (reaches_bind (reaches_ofOption (P := fun e => d.args[1]? = some e) fun _ h => h)
      fun expr hexpr => ?_).imp (fun _ h => h) Or.inr
    refine ((reaches_dgModifyExpressionOrDefault expr).andThen _).imp (fun _ h => h) ?_
    simp [IRStmt.modified, hname, hexpr]
  · rename_i hname
    exact (reaches_any _).imp (fun _ h => h) (by simp [IRStmt.modified, hname])

/-- The code in front of a statement. -/
theorem reaches_addStatementModified {tyenv : List IRType} {st : IRStmt}
    (htc : tcStmt tyenv w st = true) :
    Reaches w (addStatementModified (dgBarExpressionhandling o) denv st) (fun _ => True)
      (∃ e ∈ st.modified, e.reachesIllTyped o = true) := by
  have hone : ∀ {e : IRExpr} {f : Shadow → Emit (Option IRTemp)}, st.modified = [e] →
      Reaches w (do
        let shadow ← dgModifyExpressionOrDefault (dgBarExpressionhandling o) denv e
        f shadow) (fun _ => True) (∃ e ∈ st.modified, e.reachesIllTyped o = true) := by
    intro e f hst
    rw [hst]
    exact ((reaches_dgModifyExpressionOrDefault e).andThen f).imp (fun _ h => h) (by simp)
  have hnone : ∀ {m : Emit (Option IRTemp)}, st.modified = [] →
      Reaches w m (fun _ => True) (∃ e ∈ st.modified, e.reachesIllTyped o = true) := by
    intro m hst
    rw [hst]
    exact (reaches_any m).imp (fun _ h => h) (by simp)
  cases st with
  | wrTmp tmp data => exact hone rfl
  | put offset data => exact hone rfl
  | putI descr ix bias data => exact hone rfl
  | store endness addr data => exact hone rfl
  | storeG endness addr data guard => exact hone rfl
  | loadG endness cvt dst addr alt guard =>
    apply reaches_then
    intro ty
    apply reaches_then
    intro dataRead
    exact ((reaches_dgModifyExpressionOrDefault alt).andThen _).imp (fun _ h => h)
      (by simp [IRStmt.modified])
  | cas d => exact (reaches_addCASModified htc).andThen _
  | dirty d => exact reaches_addDirtyModified.andThen _
  | _ => exact hnone rfl

/-- **An ill-typed statement is emitted** if there is an expression for which one is emitted. -/
theorem reaches_dgInstrumentStmt {tyenv : List IRType} {st : IRStmt}
    (htc : tcStmt tyenv w st = true) :
    Reaches w (dgInstrumentStmt (dgBarExpressionhandling o) denv st) (fun _ => True)
      (∃ e ∈ st.modified, e.reachesIllTyped o = true) :=
  (reaches_addStatementModified htc).andThen _

end Rules

end Derivgrind
