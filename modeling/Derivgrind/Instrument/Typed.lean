import Derivgrind.Instrument.Components
import Derivgrind.Vex.Check

/-!
# Emitted code is well-typed

Code for all components, given code for one component that passes the sanity check.
Emitted code assigns only temporaries that it has declared itself.

## Main definitions

* `checkMeaning` — emitted code means what it does to the list of temporaries that have
  been assigned, if it passes the check.
* `Adds` — what emitted code may add.

## Main results

* `wpt_applyComponentwisely` — the rule for code for one component.
-/

namespace Derivgrind

open Emitter.Meaning

/-- Emitted code passes the check, and assigns temporaries. -/
def checkMeaning (w : IRType) : Emitter.Meaning IRType IRStmt (List IRTemp) where
  total := false
  rel env sts D D' := checkStmts env w D sts = some D'
  nil _ _ := rfl
  append h h' := by rw [checkStmts_append, h]; exact h'
  mono h := checkStmts_mono _ h

/-- Temporaries may have been declared, and some of these have been assigned. -/
structure Adds (env : List IRType) (D : List IRTemp) (env' : List IRType) (D' : List IRTemp) :
    Prop where
  tyenv : env <+: env'
  subset : D ⊆ D'
  fresh : ∀ t : ℕ, t ∈ D' → t ∈ D ∨ (env.length ≤ t ∧ t < env'.length)

/-- Only temporaries that have been declared have been assigned. -/
def Bounded (env : List IRType) (D : List IRTemp) : Prop := ∀ t : ℕ, t ∈ D → t < env.length

namespace Adds

variable {env env' env'' : List IRType} {D D' D'' : List IRTemp}

theorem refl (env : List IRType) (D : List IRTemp) : Adds env D env D :=
  ⟨List.prefix_refl env, fun _ h => h, fun _ h => Or.inl h⟩

theorem trans (h : Adds env D env' D') (h' : Adds env' D' env'' D'') : Adds env D env'' D'' := by
  have hlen := h.tyenv.length_le
  have hlen' := h'.tyenv.length_le
  refine ⟨h.tyenv.trans h'.tyenv, fun t ht => h'.subset (h.subset ht), ?_⟩
  intro t ht
  rcases h'.fresh t ht with ht' | ⟨hge, hlt⟩
  · rcases h.fresh t ht' with hD | ⟨hge, hlt⟩
    · exact Or.inl hD
    · exact Or.inr ⟨hge, Nat.lt_of_lt_of_le hlt hlen'⟩
  · exact Or.inr ⟨Nat.le_trans hlen hge, hlt⟩

theorem bounded (h : Adds env D env' D') (hb : Bounded env D) : Bounded env' D' := by
  intro t ht
  rcases h.fresh t ht with hD | ⟨-, hlt⟩
  · exact Nat.lt_of_lt_of_le (hb t hD) h.tyenv.length_le
  · exact hlt

/-- A temporary is declared. -/
theorem declare (env : List IRType) (D : List IRTemp) (tys : List IRType) :
    Adds env D (env ++ tys) D :=
  ⟨List.prefix_append env tys, fun _ h => h, fun _ h => Or.inl h⟩

/-- A temporary that has been declared meanwhile is assigned. -/
theorem assign (h : Adds env D env' D') {t : ℕ} (hge : env.length ≤ t) (hlt : t < env'.length) :
    Adds env D env' (D' ++ [t]) := by
  refine ⟨h.tyenv, fun t' ht' => List.mem_append_left _ (h.subset ht'), ?_⟩
  intro t' ht'
  rcases List.mem_append.mp ht' with hD | hnew
  · exact h.fresh t' hD
  · rw [List.mem_singleton] at hnew
    subst hnew
    exact Or.inr ⟨hge, hlt⟩

end Adds

/-- Expressions that pass the check still do so later. -/
theorem Typed.adds {w : IRType} {env env' : List IRType} {D D' : List IRTemp} {e : IRExpr}
    {ty : IRType} (h : Typed env w D e ty) (hadds : Adds env D env' D') :
    Typed env' w D' e ty := by
  obtain ⟨tys, rfl⟩ := hadds.tyenv
  exact h.mono tys hadds.subset

section Rules

variable {w : IRType} {env : List IRType} {D : List IRTemp}

/-- An assertion may fail. -/
theorem wpt_tlAssert {cond : Bool} {Q : Unit → List IRType → List IRTemp → Prop}
    (h : cond = true → Q () env D) : (checkMeaning w).wp (tlAssert cond) env D Q := by
  apply wp_query (fun h => by cases h)
  intro _ hcond
  by_cases hc : cond = true
  · exact h hc
  · rw [if_neg hc] at hcond
    cases hcond

/-- There may be no result. -/
theorem wpt_ofOption {α : Type} {a : Option α} {Q : α → List IRType → List IRTemp → Prop}
    (h : ∀ x, a = some x → Q x env D) : (checkMeaning w).wp (ofOption a) env D Q :=
  wp_query (fun h => by cases h) h

/-- Add a statement that passes the check. -/
theorem wpt_addStmt {st : IRStmt} {Q : Unit → List IRType → List IRTemp → Prop}
    (htc : tcStmt env w st = true) (hreads : ∀ t ∈ st.reads, t ∈ D)
    (hdefs : ∀ t ∈ st.defs, t ∉ D) (hnodup : st.defs.Nodup) (h : Q () env (D ++ st.defs)) :
    (checkMeaning w).wp (addStmt st) env D Q := by
  refine wp_emit ?_ h
  show (checkStmt env w D st).bind _ = _
  rw [checkStmt_of htc hreads hdefs hnodup]
  rfl

theorem Typed.tcArg {e : IRExpr} {ty : IRType} (h : Typed env w D e ty) (hty : ty ≠ .i1) :
    tcArg env w e = true := by
  cases e with
  | vecret => rfl
  | gsptr => rfl
  | _ => exact h.isData hty

/-- Arguments of dirty calls that pass the check. -/
def TypedArgs (env : List IRType) (w : IRType) (D : List IRTemp) (args : List IRExpr) : Prop :=
  ∀ e ∈ args, tcArg env w e = true ∧ ∀ t ∈ e.reads, t ∈ D

theorem typedArgs_of_typed {args : List IRExpr}
    (h : ∀ e ∈ args, ∃ ty, Typed env w D e ty ∧ ty ≠ .i1) : TypedArgs env w D args := by
  intro e he
  obtain ⟨ty, hty, hne⟩ := h e he
  exact ⟨hty.tcArg hne, hty.reads⟩

theorem typedArgs_of_i64 {args : List IRExpr} (h : ∀ e ∈ args, Typed env w D e .i64) :
    TypedArgs env w D args := typedArgs_of_typed fun e he => ⟨.i64, h e he, by decide⟩

theorem TypedArgs.append {args args' : List IRExpr} (h : TypedArgs env w D args)
    (h' : TypedArgs env w D args') : TypedArgs env w D (args ++ args') := by
  intro e he
  exact (List.mem_append.mp he).elim (h e) (h' e)

theorem TypedArgs.adds {args : List IRExpr} {env' : List IRType} {D' : List IRTemp}
    (h : TypedArgs env w D args) (hadds : Adds env D env' D') : TypedArgs env' w D' args := by
  obtain ⟨tys, rfl⟩ := hadds.tyenv
  exact fun e he => ⟨tcArg_append tys (h e he).1, fun t ht => hadds.subset ((h e he).2 t ht)⟩

theorem TypedArgs.allReads {args : List IRExpr} (h : TypedArgs env w D args) :
    ∀ t ∈ IRExpr.allReads args, t ∈ D := by
  induction args with
  | nil => simp
  | cons e es ih =>
    intro t ht
    rw [IRExpr.allReads, List.mem_append] at ht
    rcases ht with ht | ht
    · exact (h e List.mem_cons_self).2 t ht
    · exact ih (fun e' he' => h e' (List.mem_cons_of_mem e he')) t ht

/-- The check of calls of Derivgrind's functions. -/
theorem tcStmt_dirty (helper : ToolHelper) {guard : IRExpr} {args : List IRExpr}
    (tmp : Option IRTemp) (hguard : Typed env w D guard .i1) (hargs : TypedArgs env w D args)
    (htmp : ∀ t ∈ tmp, ∃ ty, env[t]? = some ty ∧ ty ≠ .i1) :
    tcStmt env w (.dirty ⟨.tool helper, guard, args, tmp⟩) = true ∧
      ∀ t ∈ (IRStmt.dirty ⟨.tool helper, guard, args, tmp⟩).reads, t ∈ D := by
  constructor
  · simp only [tcStmt, Bool.and_eq_true, List.all_eq_true]
    refine ⟨⟨hguard.hasTy, fun e he => (hargs e he).1⟩, ?_⟩
    intro t ht
    obtain ⟨ty, hty, hne⟩ := htmp t (by simpa using ht)
    rw [hty]
    simpa using hne
  · intro t ht
    rw [IRStmt.reads, IRStmt.exprs, IRExpr.allReads, List.mem_append] at ht
    exact ht.elim (hguard.reads t) (hargs.allReads t)

/-- Call a function of Derivgrind. -/
theorem wpt_addDirty {helper : ToolHelper} {args : List IRExpr}
    {Q : Unit → List IRType → List IRTemp → Prop} (hargs : TypedArgs env w D args)
    (h : Q () env D) : (checkMeaning w).wp (addDirty helper args) env D Q := by
  obtain ⟨htc, hreads⟩ := tcStmt_dirty helper none
    (Typed.const (.u1 true) rfl) hargs (by simp)
  refine wpt_addStmt htc hreads (by simp [IRStmt.defs]) (by simp [IRStmt.defs]) ?_
  simpa [IRStmt.defs] using h

/-- Call a function of Derivgrind, and assign its result. -/
theorem wpt_addDirtyTmp {helper : ToolHelper} {args : List IRExpr} {tmp : IRTemp} (ty : IRType)
    {Q : Unit → List IRType → List IRTemp → Prop} (hargs : TypedArgs env w D args)
    (hty : env[tmp]? = some ty) (hne : ty ≠ .i1) (htmp : tmp ∉ D) (h : Q () env (D ++ [tmp])) :
    (checkMeaning w).wp (addDirtyTmp tmp helper args) env D Q := by
  obtain ⟨htc, hreads⟩ := tcStmt_dirty helper (some tmp)
    (Typed.const (.u1 true) rfl) hargs (by simpa using ⟨ty, hty, hne⟩)
  exact wpt_addStmt htc hreads (by simpa [IRStmt.defs] using htmp) (by simp [IRStmt.defs]) h

/-- Declare a temporary, and assign the result of a call to it. -/
theorem wpt_newDirtyTmp {α : Type} {helper : ToolHelper} {args : List IRExpr}
    {f : IRTemp → Emit α} {Q : α → List IRType → List IRTemp → Prop} (hb : Bounded env D)
    (hargs : TypedArgs env w D args)
    (h : ∀ env' D' tmp, Adds env D env' D' → Typed env' w D' (.rdTmp tmp) .i64 →
      (checkMeaning w).wp (f tmp) env' D' Q) :
    (checkMeaning w).wp (do
      let tmp ← newIRTemp .i64
      addDirtyTmp tmp helper args
      f tmp) env D Q := by
  have hadds : Adds env D (env ++ [.i64]) (D ++ [env.length]) :=
    (Adds.declare env D [.i64]).assign (le_refl _) (by simp)
  have htmp : env.length ∉ D := fun hD => Nat.lt_irrefl _ (hb _ hD)
  apply wp_bind
  apply wp_newIRTemp
  apply wp_bind
  apply wpt_addDirtyTmp .i64
  · exact hargs.adds (Adds.declare env D [.i64])
  · simp
  · decide
  · exact htmp
  · exact h _ _ _ hadds (Typed.rdTmp (by simp) (by simp))

/-! ### SIMD vectors -/

theorem typed_arr64to32 {e : IRExpr} (c : ℕ) (h : Typed env w D e .i64) :
    Typed env w D (.unop (arr64to32 c) e) .i32 := by
  unfold arr64to32
  split
  · exact h.unop rfl
  · exact h.unop rfl

theorem typed_arr128to64 {e : IRExpr} (c : ℕ) (h : Typed env w D e .v128) :
    Typed env w D (.unop (arr128to64 c) e) .i64 := by
  unfold arr128to64
  split
  · exact h.unop rfl
  · exact h.unop rfl

theorem typed_arr256to64 {e : IRExpr} (c : ℕ) (h : Typed env w D e .v256) :
    Typed env w D (.unop (arr256to64 c) e) .i64 := h.unop rfl

theorem typed_extractComponent {fpsize simdsize : ℕ} {e : IRExpr}
    (hl : Simd.valid ⟨fpsize, simdsize, false⟩ = true) (c : ℕ)
    (h : Typed env w D e (vecTy (fpsize * simdsize))) :
    Typed env w D (extractComponent fpsize simdsize c e) (intTy fpsize) := by
  rcases Simd.valid_cases hl with ⟨rfl, rfl | rfl | rfl | rfl⟩ | ⟨rfl, rfl | rfl | rfl⟩
  · exact h
  · exact typed_arr64to32 c h
  · exact typed_arr64to32 _ (typed_arr128to64 _ h)
  · exact typed_arr64to32 _ (typed_arr256to64 _ h)
  · exact h
  · exact typed_arr128to64 c h
  · exact typed_arr256to64 c h

theorem typed_reinterpretAsInt {e : IRExpr} {ty : IRType} (h : Typed env w D e ty)
    (hty : ty.isVector = true) :
    Typed env w D (reinterpretAsInt ty e) (vecTy (sizeofIRType ty)) := by
  cases ty with
  | i32 => exact h
  | i64 => exact h
  | v128 => exact h
  | v256 => exact h
  | f64 => exact h.unop rfl
  | f32 => exact h.unop rfl
  | i128 => exact h.unop rfl
  | _ => cases hty

theorem typed_widenComponent {fpsize : ℕ} {e : IRExpr} (h : Typed env w D e (intTy fpsize)) :
    Typed env w D (widenComponent fpsize e) .i64 := by
  unfold widenComponent
  unfold intTy at h
  split
  · rename_i h4
    rw [if_pos h4] at h
    exact Typed.binop rfl (Typed.const (.u32 0) rfl) h
  · rename_i h4
    rwa [if_neg h4] at h

theorem typed_narrowComponent {fpsize : ℕ} {e : IRExpr} (h : Typed env w D e .i64) :
    Typed env w D (narrowComponent fpsize e) (intTy fpsize) := by
  unfold narrowComponent intTy
  split
  · exact h.unop rfl
  · exact h

/-- A vector of the given size. -/
def TypedVector (env : List IRType) (w : IRType) (D : List IRTemp) (size : ℕ) (e : IRExpr) : Prop :=
  ∃ ty, Typed env w D e ty ∧ ty.isVector = true ∧ sizeofIRType ty = size

theorem TypedVector.adds {env' : List IRType} {D' : List IRTemp} {size : ℕ} {e : IRExpr}
    (h : TypedVector env w D size e) (hadds : Adds env D env' D') :
    TypedVector env' w D' size e := by
  obtain ⟨ty, hty, hvec, hsize⟩ := h
  exact ⟨ty, hty.adds hadds, hvec, hsize⟩

theorem wpt_getSIMDComponent {fpsize simdsize : ℕ} {e : IRExpr}
    (hl : Simd.valid ⟨fpsize, simdsize, false⟩ = true) (c : ℕ)
    (hv : TypedVector env w D (fpsize * simdsize) e)
    {Q : IRExpr → List IRType → List IRTemp → Prop}
    (h : ∀ e', Typed env w D e' (intTy fpsize) → Q e' env D) :
    (checkMeaning w).wp (getSIMDComponent e fpsize simdsize c) env D Q := by
  obtain ⟨ty, hty, hvec, hsize⟩ := hv
  have hint := typed_reinterpretAsInt hty hvec
  rw [hsize] at hint
  apply wp_bind
  apply wp_typeOf hty.type
  apply wp_bind
  apply wp_typeOf hint.type
  apply wp_bind
  apply wpt_tlAssert
  intro _
  exact wp_pure (h _ (typed_extractComponent hl c hint))

theorem typed_assemble {fpsize simdsize : ℕ} {es : List IRExpr} {e : IRExpr}
    (hl : Simd.valid ⟨fpsize, simdsize, false⟩ = true) (hlen : es.length = simdsize)
    (hes : ∀ e ∈ es, Typed env w D e (intTy fpsize)) (h : assemble (intTy fpsize) es = some e) :
    Typed env w D e (vecTy (fpsize * simdsize)) := by
  have hpair : ∀ {a b : IRExpr}, Typed env w D a .i32 → Typed env w D b .i32 →
      Typed env w D (.binop (.binMove .op32HLto64) b a) .i64 := fun ha hb => Typed.binop rfl hb ha
  rcases Simd.valid_cases hl with ⟨rfl, rfl | rfl | rfl | rfl⟩ | ⟨rfl, rfl | rfl | rfl⟩
  · match es, hlen, h with
    | [e₀], _, h =>
      obtain rfl := Option.some_inj.mp h
      exact hes e₀ (by simp)
  · match es, hlen, h with
    | [e₀, e₁], _, h =>
      obtain rfl := Option.some_inj.mp h
      exact hpair (hes e₀ (by simp)) (hes e₁ (by simp))
  · match es, hlen, h with
    | [e₀, e₁, e₂, e₃], _, h =>
      obtain rfl := Option.some_inj.mp h
      exact Typed.binop rfl (hpair (hes e₂ (by simp)) (hes e₃ (by simp)))
        (hpair (hes e₀ (by simp)) (hes e₁ (by simp)))
  · match es, hlen, h with
    | [e₀, e₁, e₂, e₃, e₄, e₅, e₆, e₇], _, h =>
      obtain rfl := Option.some_inj.mp h
      exact Typed.qop rfl (hpair (hes e₆ (by simp)) (hes e₇ (by simp)))
        (hpair (hes e₄ (by simp)) (hes e₅ (by simp)))
        (hpair (hes e₂ (by simp)) (hes e₃ (by simp)))
        (hpair (hes e₀ (by simp)) (hes e₁ (by simp)))
  · match es, hlen, h with
    | [e₀], _, h =>
      obtain rfl := Option.some_inj.mp h
      exact hes e₀ (by simp)
  · match es, hlen, h with
    | [e₀, e₁], _, h =>
      obtain rfl := Option.some_inj.mp h
      exact Typed.binop rfl (hes e₁ (by simp)) (hes e₀ (by simp))
  · match es, hlen, h with
    | [e₀, e₁, e₂, e₃], _, h =>
      obtain rfl := Option.some_inj.mp h
      exact Typed.qop rfl (hes e₃ (by simp)) (hes e₂ (by simp)) (hes e₁ (by simp))
        (hes e₀ (by simp))

theorem wpt_assembleSIMDVector {fpsize simdsize : ℕ} {es : List IRExpr}
    (hl : Simd.valid ⟨fpsize, simdsize, false⟩ = true) (hlen : es.length = simdsize)
    (hes : ∀ e ∈ es, Typed env w D e (intTy fpsize))
    {Q : IRExpr → List IRType → List IRTemp → Prop}
    (h : ∀ e', Typed env w D e' (vecTy (fpsize * simdsize)) → Q e' env D) :
    (checkMeaning w).wp (assembleSIMDVector es fpsize) env D Q := by
  have hprepare : ∀ e, prepareComponent fpsize (intTy fpsize) e = e := by
    intro e
    rcases Simd.valid_cases hl with ⟨rfl, -⟩ | ⟨rfl, -⟩ <;> rfl
  have hhead : typeOfIRExpr env (es.headD .vecret) = some (intTy fpsize) := by
    cases es with
    | nil => simp [Simd.valid, ← hlen] at hl
    | cons e es => exact (hes e List.mem_cons_self).type
  apply wp_bind
  apply wp_typeOf hhead
  apply wp_bind
  apply wp_mapList_pure (P := (· = ·))
  · intro e he
    apply wp_bind
    apply wp_typeOf (hes e he).type
    apply wp_bind
    apply wpt_tlAssert
    intro _
    exact wp_pure ⟨rfl, rfl, (hprepare e).symm⟩
  · intro es' hes'
    rw [List.forall₂_eq_eq_eq] at hes'
    subst hes'
    apply wpt_ofOption
    intro e he
    exact h e (typed_assemble hl hlen hes he)

/-- Casting an integer vector to a type of the same size. -/
theorem wpt_reinterpretType {e : IRExpr} {ty : IRType} (hvec : ty.isVector = true)
    (he : Typed env w D e (vecTy (sizeofIRType ty)))
    {Q : IRExpr → List IRType → List IRTemp → Prop} (h : ∀ e', Typed env w D e' ty → Q e' env D) :
    (checkMeaning w).wp (reinterpretType e ty) env D Q := by
  apply wp_bind
  apply wp_typeOf he.type
  apply wp_bind
  apply wpt_tlAssert
  intro _
  cases ty with
  | i32 => exact wp_pure (h e he)
  | i64 => exact wp_pure (h e he)
  | v128 => exact wp_pure (h e he)
  | v256 => exact wp_pure (h e he)
  | f32 => exact wp_pure (h _ (he.unop rfl))
  | f64 => exact wp_pure (h _ (he.unop rfl))
  | i128 => exact wp_pure (h _ (he.unop rfl))
  | _ => cases hvec

/-! ### Code for all components -/

/-- What holds of the results of a loop, whatever the elements are. -/
theorem forall_mem_of_forall₂ {α β : Type} {P : β → Prop} {l : List α} {l' : List β}
    (h : List.Forall₂ (fun _ b => P b) l l') : ∀ b ∈ l', P b := by
  induction h with
  | nil => simp
  | cons hb _ ih =>
    intro b' hb'
    rcases List.mem_cons.mp hb' with rfl | hb'
    · exact hb
    · exact ih b' hb'

/-- Expressions of the same type. -/
def TypedAll (env : List IRType) (w : IRType) (D : List IRTemp) (n : ℕ) (ty : IRType)
    (es : List IRExpr) : Prop :=
  es.length = n ∧ ∀ e ∈ es, Typed env w D e ty

theorem TypedAll.nil (ty : IRType) : TypedAll env w D 0 ty [] := ⟨rfl, by simp⟩

theorem TypedAll.cons {n : ℕ} {ty : IRType} {e : IRExpr} {es : List IRExpr}
    (he : Typed env w D e ty) (h : TypedAll env w D n ty es) :
    TypedAll env w D (n + 1) ty (e :: es) := by
  refine ⟨by rw [List.length_cons, h.1], ?_⟩
  intro e' he'
  rcases List.mem_cons.mp he' with rfl | he'
  · exact he
  · exact h.2 e' he'

theorem TypedAll.adds {env' : List IRType} {D' : List IRTemp} {n : ℕ} {ty : IRType}
    {es : List IRExpr} (h : TypedAll env w D n ty es) (hadds : Adds env D env' D') :
    TypedAll env' w D' n ty es := ⟨h.1, fun e he => (h.2 e he).adds hadds⟩

theorem TypedAll.getD {n : ℕ} {ty : IRType} {es : List IRExpr} (h : TypedAll env w D n ty es) {j : ℕ}
    (hj : j < n) : Typed env w D (es.getD j .vecret) ty := by
  have hlt : j < es.length := by rw [h.1]; exact hj
  rw [List.getD_eq_getElem?_getD, List.getElem?_eq_getElem hlt]
  exact h.2 _ (List.getElem_mem hlt)

/-- What code for one component has to do: it passes the check, and computes outputs. -/
def BodyTyped (w : IRType) (env : List IRType) (D : List IRTemp) (nInputs nOutputs : ℕ)
    (body : List IRExpr → Emit (List IRExpr)) : Prop :=
  ∀ env' D' parts, Adds env D env' D' → TypedAll env' w D' nInputs .i64 parts →
    (checkMeaning w).wp (body parts) env' D' fun outs env'' D'' => Adds env' D' env'' D'' ∧
      TypedAll env'' w D'' nOutputs .i64 outs

theorem wpt_splitInputs {fpsize simdsize : ℕ} {inputs : List IRExpr}
    (hl : Simd.valid ⟨fpsize, simdsize, false⟩ = true) (c : ℕ)
    (hin : ∀ e ∈ inputs, TypedVector env w D (fpsize * simdsize) e)
    {Q : List IRExpr → List IRType → List IRTemp → Prop}
    (h : ∀ parts, TypedAll env w D inputs.length .i64 parts → Q parts env D) :
    (checkMeaning w).wp (Emitter.mapList (fun e => do
      let part ← getSIMDComponent e fpsize simdsize c
      return widenComponent fpsize part) inputs) env D Q := by
  apply wp_mapList_pure (P := fun _ part => Typed env w D part .i64)
  · intro e he
    apply wp_bind
    apply wpt_getSIMDComponent hl c (hin e he)
    intro e' he'
    exact wp_pure ⟨rfl, rfl, typed_widenComponent he'⟩
  · intro parts hparts
    exact h parts ⟨hparts.length_eq.symm, forall_mem_of_forall₂ hparts⟩

theorem wpt_applyToComponent {fpsize simdsize c nOutputs : ℕ} {inputs : List IRExpr}
    {body : ℕ → List IRExpr → Emit (List IRExpr)}
    (hl : Simd.valid ⟨fpsize, simdsize, false⟩ = true)
    (hin : ∀ e ∈ inputs, TypedVector env w D (fpsize * simdsize) e)
    (hbody : BodyTyped w env D inputs.length nOutputs (body c)) :
    (checkMeaning w).wp (applyToComponent inputs fpsize simdsize body c) env D
      fun outs env' D' => Adds env D env' D' ∧
        TypedAll env' w D' nOutputs (intTy fpsize) outs := by
  apply wp_bind
  apply wpt_splitInputs hl c hin
  intro parts hparts
  apply wp_bind
  apply wp_mono (hbody env D parts (Adds.refl env D) hparts)
  rintro outs env' D' ⟨hadds, hlen, houts⟩
  refine wp_pure ⟨hadds, by rw [List.length_map, hlen], ?_⟩
  intro e he
  obtain ⟨e', he', rfl⟩ := List.mem_map.mp he
  exact typed_narrowComponent (houts e' he')

/-- **The rule for code for one component.** -/
theorem wpt_applyComponentwisely {fpsize simdsize nOutputs : ℕ} {inputs : List IRExpr}
    {body : ℕ → List IRExpr → Emit (List IRExpr)}
    (hl : Simd.valid ⟨fpsize, simdsize, false⟩ = true)
    (hin : ∀ e ∈ inputs, TypedVector env w D (fpsize * simdsize) e)
    (hbody : ∀ c, BodyTyped w env D inputs.length nOutputs (body c)) :
    (checkMeaning w).wp (applyComponentwisely inputs nOutputs fpsize simdsize body) env D
      fun outs env' D' => Adds env D env' D' ∧
        TypedAll env' w D' nOutputs (vecTy (fpsize * simdsize)) outs := by
  apply wp_bind
  apply wp_mono (wp_mapList_forall₂ Adds
    (fun _ outs env' D' => TypedAll env' w D' nOutputs (intTy fpsize) outs) Adds.refl
    (fun h h' => h.trans h') (fun hadds h => h.adds hadds) ?_)
  · rintro outs env' D' ⟨hadds, houts⟩
    have hmem : ∀ parts ∈ outs, TypedAll env' w D' nOutputs (intTy fpsize) parts :=
      forall_mem_of_forall₂ houts
    apply wp_mapList_pure (P := fun _ e => Typed env' w D' e (vecTy (fpsize * simdsize)))
    · intro j hj
      have hj : j < nOutputs := List.mem_range.mp hj
      apply wpt_assembleSIMDVector hl
      · rw [List.length_map, ← houts.length_eq, List.length_range]
      · intro e he
        obtain ⟨parts, hparts, rfl⟩ := List.mem_map.mp he
        exact (hmem parts hparts).getD hj
      · intro e' he'
        exact ⟨rfl, rfl, he'⟩
    · intro es hes
      exact ⟨hadds, by rw [← hes.length_eq, List.length_range], forall_mem_of_forall₂ hes⟩
  · intro c _ env' D' hadds
    apply wpt_applyToComponent hl (fun e he => (hin e he).adds hadds)
    intro env'' D'' parts hadds' hparts
    exact hbody c env'' D'' parts (hadds.trans hadds') hparts

end Rules

end Derivgrind
