import Derivgrind.Instrument.Value

/-!
# Code for all components

Splitting SIMD vectors into their components and assembling them again, and what
`applyComponentwisely` does with code for one component.

## Main definitions

* `Simd.valid` — the layouts that occur.
* `widenBytes` — a component, as an `I64` expression.
* `KeptByMoves` — a property that is kept by operations that move bytes.

## Main results

* `wp_getSIMDComponent`, `wp_assembleSIMDVector` — components are lanes.
* `wp_applyComponentwisely` — the rule for code for one component.
-/

namespace Derivgrind

open Emitter.Meaning

variable {B T : Type}

/-- The layouts that occur: up to 32 bytes of 32-bit or 64-bit components. -/
def Simd.valid (l : Simd) : Bool :=
  (l.fpsize = 4 && (l.simdsize = 1 || l.simdsize = 2 || l.simdsize = 4 || l.simdsize = 8)) ||
    (l.fpsize = 8 && (l.simdsize = 1 || l.simdsize = 2 || l.simdsize = 4))

/-- The type of a component. -/
def intTy (fpsize : ℕ) : IRType := if fpsize = 4 then .i32 else .i64

/-- The type of a vector with the given size. -/
def vecTy (size : ℕ) : IRType :=
  if size = 4 then .i32 else if size = 8 then .i64 else if size = 16 then .v128 else .v256

/-- The types of scalars and vectors that have components. -/
def IRType.isVector (ty : IRType) : Bool :=
  ty = .i32 || ty = .i64 || ty = .v128 || ty = .v256 || ty = .f32 || ty = .f64 || ty = .i128

/-- The possible layouts. -/
theorem Simd.valid_cases {fpsize simdsize : ℕ} {llo : Bool}
    (h : Simd.valid ⟨fpsize, simdsize, llo⟩ = true) :
    (fpsize = 4 ∧ (simdsize = 1 ∨ simdsize = 2 ∨ simdsize = 4 ∨ simdsize = 8)) ∨
      (fpsize = 8 ∧ (simdsize = 1 ∨ simdsize = 2 ∨ simdsize = 4)) := by
  simpa [Simd.valid, or_assoc] using h

/-- A component, as the bytes of an `I64` expression. -/
def widenBytes (z : B) (fpsize : ℕ) (x : List B) : List B :=
  if fpsize = 4 then x ++ List.replicate 4 z else x

theorem take_widenBytes {z : B} {fpsize : ℕ} {x : List B} (hx : x.length = fpsize) :
    (widenBytes z fpsize x).take fpsize = x := by
  rw [widenBytes]
  split
  · exact List.take_left' hx
  · exact List.take_of_length_le (le_of_eq hx)

/-- A 32-bit lane is a lane of a 64-bit lane. -/
theorem lane_lane (c : ℕ) (v : List B) : lane 4 (c % 2) (lane 8 (c / 2) v) = lane 4 c v := by
  rw [lane, lane, lane, List.drop_take, List.take_take, List.drop_drop]
  congr 1
  · omega
  · congr 1
    omega

/-! ### Operations that move bytes -/

/-- A property of the type and the value of an expression that is kept by operations that move
bytes. -/
structure KeptByMoves (P : IRExpr → IRType → List B → Prop) : Prop where
  length : ∀ {e : IRExpr} {ty : IRType} {v : List B}, P e ty v → v.length = sizeofIRType ty
  slice : ∀ {e : IRExpr} {ty : IRType} {v : List B}, P e ty v → ∀ (op : IROp) (start n : ℕ),
    op.route? = some (fromArg 0 start n) → (typeOfPrimop op).args = [ty] →
    start + n ≤ sizeofIRType ty →
    P (.unop op e) (typeOfPrimop op).dst ((v.drop start).take n)
  join : ∀ {a b : IRExpr} {ty : IRType} {va vb : List B}, P a ty va → P b ty vb → ∀ op : IROp,
    op.route? = some (joinHalves (sizeofIRType ty)) → (typeOfPrimop op).args = [ty, ty] →
    P (.binop op a b) (typeOfPrimop op).dst (vb ++ va)
  join4 : ∀ {a b c d : IRExpr} {va vb vc vd : List B}, P a .i64 va → P b .i64 vb →
    P c .i64 vc → P d .i64 vd → P (.qop .op64x4toV256 a b c d) .v256 (vd ++ vc ++ vb ++ va)

namespace KeptByMoves

variable {P : IRExpr → IRType → List B → Prop} {e : IRExpr} {ty : IRType} {v : List B} {c : ℕ}

/-- A unary operation that does not change the bytes. -/
theorem reinterpret (hP : KeptByMoves P) (h : P e ty v) (op : IROp)
    (hop : op.route? = some (fromArg 0 0 (sizeofIRType ty)))
    (hargs : (typeOfPrimop op).args = [ty]) : P (.unop op e) (typeOfPrimop op).dst v := by
  have hslice := hP.slice h op 0 _ hop hargs (by omega)
  rwa [List.drop_zero, List.take_of_length_le (by rw [hP.length h])] at hslice

theorem arr64to32 (hP : KeptByMoves P) (h : P e .i64 v) (hc : c < 2) :
    P (.unop (arr64to32 c) e) .i32 (lane 4 c v) := by
  rcases Nat.lt_succ_iff_lt_or_eq.mp hc with h0 | rfl
  · obtain rfl : c = 0 := by omega
    exact hP.slice h (.unMove .op64to32) 0 4 rfl rfl (by decide)
  · exact hP.slice h (.unMove .op64HIto32) 4 4 rfl rfl (by decide)

theorem arr128to64 (hP : KeptByMoves P) (h : P e .v128 v) (hc : c < 2) :
    P (.unop (arr128to64 c) e) .i64 (lane 8 c v) := by
  rcases Nat.lt_succ_iff_lt_or_eq.mp hc with h0 | rfl
  · obtain rfl : c = 0 := by omega
    exact hP.slice h (.unMove .opV128to64) 0 8 rfl rfl (by decide)
  · exact hP.slice h (.unMove .opV128HIto64) 8 8 rfl rfl (by decide)

theorem arr256to64 (hP : KeptByMoves P) (h : P e .v256 v) (hc : c < 4) :
    P (.unop (arr256to64 c) e) .i64 (lane 8 c v) := by
  have hval : (Fin.ofNat 4 c : Fin 4).val = c := Nat.mod_eq_of_lt hc
  have hroute : (Derivgrind.arr256to64 c).route? = some (fromArg 0 (8 * c) 8) := by
    show some (fromArg 0 (8 * (Fin.ofNat 4 c : Fin 4).val) 8) = _
    rw [hval]
  refine hP.slice h _ (8 * c) 8 hroute rfl ?_
  show 8 * c + 8 ≤ 32
  omega

/-- The components of a vector are its lanes. -/
theorem extractComponent (hP : KeptByMoves P) {fpsize simdsize : ℕ}
    (hl : Simd.valid ⟨fpsize, simdsize, false⟩ = true) (hc : c < simdsize)
    (h : P e (vecTy (fpsize * simdsize)) v) :
    P (extractComponent fpsize simdsize c e) (intTy fpsize) (lane fpsize c v) := by
  have hwhole : ∀ w, v.length = w → lane w 0 v = v := by
    intro w hw
    rw [lane, Nat.mul_zero, List.drop_zero, List.take_of_length_le (by omega)]
  rcases Simd.valid_cases hl with ⟨rfl, rfl | rfl | rfl | rfl⟩ | ⟨rfl, rfl | rfl | rfl⟩
  · obtain rfl : c = 0 := by omega
    rw [hwhole 4 (hP.length h)]
    exact h
  · exact hP.arr64to32 h hc
  · rw [← lane_lane]
    exact hP.arr64to32 (hP.arr128to64 h (by omega)) (by omega)
  · rw [← lane_lane]
    exact hP.arr64to32 (hP.arr256to64 h (by omega)) (by omega)
  · obtain rfl : c = 0 := by omega
    rw [hwhole 8 (hP.length h)]
    exact h
  · exact hP.arr128to64 h hc
  · exact hP.arr256to64 h hc

/-- The reinterpretation in `getSIMDComponent` does not change bytes. -/
theorem reinterpretAsInt (hP : KeptByMoves P) (h : P e ty v) (hty : ty.isVector = true) :
    P (reinterpretAsInt ty e) (vecTy (sizeofIRType ty)) v := by
  cases ty with
  | i32 => exact h
  | i64 => exact h
  | v128 => exact h
  | v256 => exact h
  | f64 => exact hP.reinterpret h (.unMove .reinterpF64asI64) rfl rfl
  | f32 => exact hP.reinterpret h (.unMove .reinterpF32asI32) rfl rfl
  | i128 => exact hP.reinterpret h (.helperMove .reinterpI128asV128) rfl rfl
  | _ => cases hty

/-- Assembled vectors consist of the bytes of their components. -/
theorem assemble (hP : KeptByMoves P) {fpsize simdsize : ℕ}
    (hl : Simd.valid ⟨fpsize, simdsize, false⟩ = true) {es : List IRExpr} {vs : List (List B)}
    (hlen : es.length = simdsize) (h : List.Forall₂ (fun e v => P e (intTy fpsize) v) es vs) :
    ∃ e', assemble (intTy fpsize) es = some e' ∧ P e' (vecTy (fpsize * simdsize)) vs.flatten := by
  have hpair : ∀ {e e' : IRExpr} {v v' : List B}, P e .i32 v → P e' .i32 v' →
      P (.binop (.binMove .op32HLto64) e' e) .i64 (v ++ v') :=
    fun h h' => hP.join h' h (.binMove .op32HLto64) rfl rfl
  have hquad : ∀ {e e' : IRExpr} {v v' : List B}, P e .i64 v → P e' .i64 v' →
      P (.binop (.binMove .op64HLtoV128) e' e) .v128 (v ++ v') :=
    fun h h' => hP.join h' h (.binMove .op64HLtoV128) rfl rfl
  rcases Simd.valid_cases hl with ⟨rfl, rfl | rfl | rfl | rfl⟩ | ⟨rfl, rfl | rfl | rfl⟩
  · match es, hlen, h with
    | [_], _, .cons h0 .nil => exact ⟨_, rfl, by simpa [vecTy, intTy] using h0⟩
  · match es, hlen, h with
    | [_, _], _, .cons h0 (.cons h1 .nil) => exact ⟨_, rfl, by simpa [vecTy] using hpair h0 h1⟩
  · match es, hlen, h with
    | [_, _, _, _], _, .cons h0 (.cons h1 (.cons h2 (.cons h3 .nil))) =>
      exact ⟨_, rfl, by simpa [vecTy] using hquad (hpair h0 h1) (hpair h2 h3)⟩
  · match es, hlen, h with
    | [_, _, _, _, _, _, _, _], _, .cons h0 (.cons h1 (.cons h2 (.cons h3 (.cons h4
        (.cons h5 (.cons h6 (.cons h7 .nil))))))) =>
      have hv := hP.join4 (hpair h6 h7) (hpair h4 h5) (hpair h2 h3) (hpair h0 h1)
      exact ⟨_, rfl, by simpa [vecTy] using hv⟩
  · match es, hlen, h with
    | [_], _, .cons h0 .nil => exact ⟨_, rfl, by simpa [vecTy, intTy] using h0⟩
  · match es, hlen, h with
    | [_, _], _, .cons h0 (.cons h1 .nil) => exact ⟨_, rfl, by simpa [vecTy] using hquad h0 h1⟩
  · match es, hlen, h with
    | [_, _, _, _], _, .cons h0 (.cons h1 (.cons h2 (.cons h3 .nil))) =>
      exact ⟨_, rfl, by simpa [vecTy] using hP.join4 h3 h2 h1 h0⟩

end KeptByMoves

section Values

variable {I : Interp B} {F : FpSem B} {env : List IRType} {s : State B T} {e : IRExpr}
  {v : List B} {c : ℕ}

theorem keptByMoves_hasValue (hI : I.IsVex F) (env : List IRType) (s : State B T) :
    KeptByMoves (HasValue I env s) where
  length h := h.length
  slice h op start n hop _ hle := h.slice hI op start n hop hle
  join h h' op hop _ := h.join hI h' op hop
  join4 ha hb hc hd := ha.join4 hI hb hc hd

theorem hasValue_widenComponent (hI : I.IsVex F) {fpsize : ℕ}
    (h : HasValue I env s e (intTy fpsize) v) :
    HasValue I env s (widenComponent fpsize e) .i64 (widenBytes I.zero fpsize v) := by
  rw [widenComponent, widenBytes]
  rw [intTy] at h
  split
  · rename_i h4
    rw [if_pos h4] at h
    exact (HasValue.const_u32 hI env s).join hI h (.binMove .op32HLto64) rfl
  · rename_i h4
    rwa [if_neg h4] at h

theorem hasValue_narrowComponent (hI : I.IsVex F) {fpsize : ℕ} (hfp : fpsize = 4 ∨ fpsize = 8)
    (h : HasValue I env s e .i64 v) :
    HasValue I env s (narrowComponent fpsize e) (intTy fpsize) (v.take fpsize) := by
  rcases hfp with rfl | rfl
  · exact h.slice hI (.unMove .op64to32) 0 4 rfl (by decide)
  · have hlen : v.length = 8 := h.length
    rw [List.take_of_length_le (by omega)]
    exact h

end Values

/-! ### Splitting and assembling -/

section Rules

variable {M : Machine B T} {F : FpSem B} {env : List IRType} {s : State B T}

theorem wp_getSIMDComponent (hI : M.toInterp.IsVex F) {e : IRExpr} {ty : IRType} {v : List B}
    {fpsize simdsize c : ℕ} {Q : IRExpr → List IRType → State B T → Prop}
    (hl : Simd.valid ⟨fpsize, simdsize, false⟩ = true) (hc : c < simdsize)
    (hv : HasValue M.toInterp env s e ty v) (hty : ty.isVector = true)
    (hsize : sizeofIRType ty = fpsize * simdsize)
    (h : ∀ e', HasValue M.toInterp env s e' (intTy fpsize) (lane fpsize c v) → Q e' env s) :
    (execMeaning M).wp (getSIMDComponent e fpsize simdsize c) env s Q := by
  have hP := keptByMoves_hasValue hI env s
  have hv' := hP.reinterpretAsInt hv hty
  rw [hsize] at hv'
  apply wp_bind
  apply wp_typeOf hv.type
  apply wp_bind
  apply wp_typeOf hv'.type
  apply wp_bind
  apply wp_tlAssert
  · rcases Simd.valid_cases hl with ⟨rfl, rfl | rfl | rfl | rfl⟩ | ⟨rfl, rfl | rfl | rfl⟩ <;> rfl
  · exact wp_pure (h _ (hP.extractComponent hl hc hv'))

theorem wp_assembleSIMDVector (hI : M.toInterp.IsVex F) {fpsize simdsize : ℕ}
    (hl : Simd.valid ⟨fpsize, simdsize, false⟩ = true) {es : List IRExpr} (vs : List (List B))
    {Q : IRExpr → List IRType → State B T → Prop} (hlen : es.length = simdsize)
    (hes : List.Forall₂ (fun e v => HasValue M.toInterp env s e (intTy fpsize) v) es vs)
    (h : ∀ e', HasValue M.toInterp env s e' (vecTy (fpsize * simdsize)) vs.flatten → Q e' env s) :
    (execMeaning M).wp (assembleSIMDVector es fpsize) env s Q := by
  have hprepare : ∀ e, prepareComponent fpsize (intTy fpsize) e = e := by
    intro e
    rcases Simd.valid_cases hl with ⟨rfl, -⟩ | ⟨rfl, -⟩ <;> rfl
  have htype : ∀ e ∈ es, typeOfIRExpr env e = some (intTy fpsize) := by
    clear hlen h
    induction hes with
    | nil => simp
    | cons hv _ ih => exact List.forall_mem_cons.mpr ⟨hv.type, ih⟩
  have hhead : typeOfIRExpr env (es.headD .vecret) = some (intTy fpsize) := by
    cases es with
    | nil => simp [Simd.valid, ← hlen] at hl
    | cons e es => exact htype e List.mem_cons_self
  apply wp_bind
  apply wp_typeOf hhead
  apply wp_bind
  apply wp_mapList_pure (P := (· = ·))
  · intro e he
    apply wp_bind
    apply wp_typeOf (htype e he)
    apply wp_bind
    apply wp_tlAssert (decide_eq_true rfl)
    exact wp_pure ⟨rfl, rfl, (hprepare e).symm⟩
  · intro es' hes'
    rw [List.forall₂_eq_eq_eq] at hes'
    subst hes'
    obtain ⟨e', he', hv⟩ := (keptByMoves_hasValue hI env s).assemble hl hlen hes
    rw [he']
    exact wp_ofOption (h e' hv)

/-- Casting an integer vector to a type of the same size does not change its bytes. -/
theorem wp_reinterpretType (hI : M.toInterp.IsVex F) {e : IRExpr} {ty : IRType} {v : List B}
    {Q : IRExpr → List IRType → State B T → Prop} (hty : ty.isVector = true)
    (hv : HasValue M.toInterp env s e (vecTy (sizeofIRType ty)) v)
    (h : ∀ e', HasValue M.toInterp env s e' ty v → Q e' env s) :
    (execMeaning M).wp (reinterpretType e ty) env s Q := by
  apply wp_bind
  apply wp_typeOf hv.type
  apply wp_bind
  cases ty with
  | i32 => exact wp_tlAssert rfl (wp_pure (h e hv))
  | i64 => exact wp_tlAssert rfl (wp_pure (h e hv))
  | v128 => exact wp_tlAssert rfl (wp_pure (h e hv))
  | v256 => exact wp_tlAssert rfl (wp_pure (h e hv))
  | f32 =>
    exact wp_tlAssert rfl (wp_pure (h _ (hv.reinterpret hI (.unMove .reinterpI32asF32) rfl)))
  | f64 =>
    exact wp_tlAssert rfl (wp_pure (h _ (hv.reinterpret hI (.unMove .reinterpI64asF64) rfl)))
  | i128 =>
    exact wp_tlAssert rfl (wp_pure (h _ (hv.reinterpret hI (.helperMove .reinterpV128asI128) rfl)))
  | _ => cases hty

/-- Input vectors of the given size, and their values. -/
def HasVectors (I : Interp B) (env : List IRType) (s : State B T) (size : ℕ) (es : List IRExpr)
    (vs : List (List B)) : Prop :=
  List.Forall₂ (fun e v => ∃ ty, HasValue I env s e ty v ∧ ty.isVector = true ∧
    sizeofIRType ty = size) es vs

/-- `I64` expressions, and their values. -/
def HasParts (I : Interp B) (env : List IRType) (s : State B T) (es : List IRExpr)
    (vs : List (List B)) : Prop :=
  List.Forall₂ (fun e v => HasValue I env s e .i64 v) es vs

theorem HasVectors.mono {I : Interp B} {env' : List IRType} {s' : State B T} {size : ℕ}
    {es : List IRExpr} {vs : List (List B)} (h : HasVectors I env s size es vs)
    (hext : Extends env s env' s') : HasVectors I env' s' size es vs :=
  h.imp fun _ _ ⟨ty, hv, hty, hsize⟩ => ⟨ty, hv.mono hext, hty, hsize⟩

theorem HasParts.mono {I : Interp B} {env' : List IRType} {s' : State B T}
    {es : List IRExpr} {vs : List (List B)} (h : HasParts I env s es vs)
    (hext : Extends env s env' s') : HasParts I env' s' es vs :=
  h.imp fun _ _ hv => hv.mono hext

/-- Splitting the inputs into components, and widening these. -/
theorem wp_splitInputs (hI : M.toInterp.IsVex F) {fpsize simdsize c : ℕ}
    (hl : Simd.valid ⟨fpsize, simdsize, false⟩ = true) (hc : c < simdsize) {inputs : List IRExpr}
    {vs : List (List B)} (hv : HasVectors M.toInterp env s (fpsize * simdsize) inputs vs)
    {Q : List IRExpr → List IRType → State B T → Prop}
    (h : ∀ parts, HasParts M.toInterp env s parts
      (vs.map fun v => widenBytes M.zero fpsize (lane fpsize c v)) → Q parts env s) :
    (execMeaning M).wp (Emitter.mapList (fun e => do
      let part ← getSIMDComponent e fpsize simdsize c
      return widenComponent fpsize part) inputs) env s Q := by
  have hloop : ∀ (inputs : List IRExpr) (vs : List (List B)),
      HasVectors M.toInterp env s (fpsize * simdsize) inputs vs →
      (execMeaning M).wp (Emitter.mapList (fun e => do
        let part ← getSIMDComponent e fpsize simdsize c
        return widenComponent fpsize part) inputs) env s fun parts env' s' =>
          env' = env ∧ s' = s ∧ HasParts M.toInterp env s parts
            (vs.map fun v => widenBytes M.zero fpsize (lane fpsize c v)) := by
    intro inputs vs hv
    induction hv with
    | nil => exact wp_pure ⟨rfl, rfl, List.Forall₂.nil⟩
    | cons hv _ ih =>
      obtain ⟨ty, hv, hty, hsize⟩ := hv
      apply wp_bind
      apply wp_bind
      apply wp_getSIMDComponent hI hl hc hv hty hsize
      intro e' he'
      apply wp_pure
      apply wp_bind
      apply wp_mono ih
      rintro parts env' s' ⟨rfl, rfl, hparts⟩
      exact wp_pure ⟨rfl, rfl, List.Forall₂.cons (hasValue_widenComponent hI he') hparts⟩
  apply wp_mono (hloop inputs vs hv)
  rintro parts env' s' ⟨rfl, rfl, hparts⟩
  exact h parts hparts

/-- What code for one component has to do: given the components of the inputs, it
computes components of the outputs, and takes the invariant for the components
handled so far to the one for one more component. -/
def BodySpec (M : Machine B T) (env : List IRType) (s : State B T) (nOutputs fpsize : ℕ)
    (vs : List (List B)) (Inv : List (List (List B)) → State B T → Prop)
    (body : ℕ → List IRExpr → Emit (List IRExpr)) (c : ℕ) : Prop :=
  ∀ env' s' parts us, Extends env s env' s' → us.length = c → Inv us s' →
    HasParts M.toInterp env' s' parts (vs.map fun v => widenBytes M.zero fpsize (lane fpsize c v)) →
    (execMeaning M).wp (body c parts) env' s' fun outs env'' s'' => Extends env' s' env'' s'' ∧
      ∃ ws, ws.length = nOutputs ∧ HasParts M.toInterp env'' s'' outs ws ∧ Inv (us ++ [ws]) s''

/-- The lanes of the outputs, as computed for the single components. -/
def assembled (fpsize : ℕ) (us : List (List (List B))) (j : ℕ) : List B :=
  (us.map fun ws => (ws.getD j []).take fpsize).flatten

/-- The rule for one component. -/
theorem wp_applyToComponent (hI : M.toInterp.IsVex F) {fpsize simdsize c nOutputs : ℕ}
    (hl : Simd.valid ⟨fpsize, simdsize, false⟩ = true) (hc : c < simdsize) {inputs : List IRExpr}
    {vs : List (List B)} {Inv : List (List (List B)) → State B T → Prop}
    {body : ℕ → List IRExpr → Emit (List IRExpr)} {env' : List IRType} {s' : State B T}
    {us : List (List (List B))}
    (hv : HasVectors M.toInterp env' s' (fpsize * simdsize) inputs vs)
    (hbody : BodySpec M env s nOutputs fpsize vs Inv body c) (hext : Extends env s env' s')
    (hus : us.length = c) (hInv : Inv us s') :
    (execMeaning M).wp (applyToComponent inputs fpsize simdsize body c) env' s'
      fun outs env'' s'' => Extends env' s' env'' s'' ∧ ∃ ws, ws.length = nOutputs ∧
        List.Forall₂ (fun e w => HasValue M.toInterp env'' s'' e (intTy fpsize) (w.take fpsize))
          outs ws ∧ Inv (us ++ [ws]) s'' := by
  have hfp : fpsize = 4 ∨ fpsize = 8 := by
    rcases Simd.valid_cases hl with ⟨rfl, -⟩ | ⟨rfl, -⟩
    · exact Or.inl rfl
    · exact Or.inr rfl
  apply wp_bind
  apply wp_splitInputs hI hl hc hv
  intro parts hparts
  apply wp_bind
  apply wp_mono (hbody env' s' parts us hext hus hInv hparts)
  rintro outs env'' s'' ⟨hext', ws, hws, houts, hInv'⟩
  apply wp_pure
  refine ⟨hext', ws, hws, ?_, hInv'⟩
  rw [List.forall₂_map_left_iff]
  exact houts.imp fun _ _ hv => hasValue_narrowComponent hI hfp hv

/-- The outputs for the components handled so far. -/
def ComponentOutputs (I : Interp B) (env : List IRType) (s : State B T) (nOutputs fpsize : ℕ)
    (outs : List (List IRExpr)) (us : List (List (List B))) : Prop :=
  List.Forall₂ (fun es ws => ws.length = nOutputs ∧
    List.Forall₂ (fun e w => HasValue I env s e (intTy fpsize) (w.take fpsize)) es ws) outs us

/-- Handling all components, before the outputs are assembled. -/
theorem wp_applyToComponents (hI : M.toInterp.IsVex F) {fpsize simdsize nOutputs : ℕ}
    (hl : Simd.valid ⟨fpsize, simdsize, false⟩ = true) {inputs : List IRExpr}
    {vs : List (List B)} {Inv : List (List (List B)) → State B T → Prop}
    {body : ℕ → List IRExpr → Emit (List IRExpr)}
    (hv : HasVectors M.toInterp env s (fpsize * simdsize) inputs vs)
    (hbody : ∀ c < simdsize, BodySpec M env s nOutputs fpsize vs Inv body c) (hInv : Inv [] s) :
    (execMeaning M).wp (Emitter.mapList (applyToComponent inputs fpsize simdsize body)
      (List.range simdsize)) env s fun outs env' s' => Extends env s env' s' ∧
        ∃ us, us.length = simdsize ∧ Inv us s' ∧
          ComponentOutputs M.toInterp env' s' nOutputs fpsize outs us := by
  have hloop := wp_mapList (R := execMeaning M)
    (f := applyToComponent inputs fpsize simdsize body)
    (fun pre outs env' s' => Extends env s env' s' ∧ ∃ us, us.length = pre.length ∧ Inv us s' ∧
      ComponentOutputs M.toInterp env' s' nOutputs fpsize outs us)
    (List.range simdsize) [] [] env s ⟨Extends.refl env s, [], rfl, hInv, List.Forall₂.nil⟩ ?_
  · simpa only [List.nil_append, List.length_range] using hloop
  · rintro pre c post outs env' s' heq ⟨hext, us, hus, hInv', houts⟩
    have hpre : pre.length < simdsize := by
      have hlen := congrArg List.length heq
      simp only [List.nil_append, List.length_range, List.length_append, List.length_cons] at hlen
      omega
    have hc : pre.length = c := by
      have hget := congrArg (·[pre.length]?) heq
      simpa [List.getElem?_range, hpre] using hget
    subst hc
    apply wp_mono (wp_applyToComponent hI hl hpre (hv.mono hext) (hbody _ hpre) hext hus hInv')
    rintro outs' env'' s'' ⟨hext', ws, hws, houts', hInv''⟩
    refine ⟨hext.trans hext', us ++ [ws], ?_, hInv'', ?_⟩
    · rw [List.length_append, List.length_append, hus]
      rfl
    · apply List.rel_append
      · exact houts.imp fun _ _ h => ⟨h.1, h.2.imp fun _ _ hv => hv.mono hext'⟩
      · exact List.Forall₂.cons ⟨hws, houts'⟩ List.Forall₂.nil

/-- What is known about the outputs for all components: there are `simdsize` many, each
with `nOutputs` lanes. -/
structure Complete (nOutputs fpsize simdsize : ℕ) (us : List (List (List B))) : Prop where
  length_eq : us.length = simdsize
  length_lane : ∀ ws ∈ us, ∀ j < nOutputs, ((ws.getD j []).take fpsize).length = fpsize

/-- The lanes of the outputs. -/
theorem Complete.lane_assembled {nOutputs fpsize simdsize : ℕ} {us : List (List (List B))}
    (h : Complete nOutputs fpsize simdsize us) {j c : ℕ} (hj : j < nOutputs) (hc : c < simdsize) :
    lane fpsize c (assembled fpsize us j) = ((us.getD c []).getD j []).take fpsize := by
  have hc' : c < us.length := by rw [h.length_eq]; exact hc
  rw [assembled, lane_flatten _ (by rw [List.length_map]; exact hc'), List.getElem_map]
  · simp only [List.getD_eq_getElem?_getD, List.getElem?_eq_getElem hc', Option.getD_some]
  · intro x hx
    obtain ⟨ws, hws, rfl⟩ := List.mem_map.mp hx
    exact h.length_lane ws hws j hj

theorem ComponentOutputs.getD {I : Interp B} {nOutputs fpsize : ℕ} {es : List IRExpr}
    {ws : List (List B)} {j : ℕ} (hj : j < nOutputs) (hws : ws.length = nOutputs)
    (h : List.Forall₂ (fun e w => HasValue I env s e (intTy fpsize) (w.take fpsize)) es ws) :
    HasValue I env s (es.getD j .vecret) (intTy fpsize) ((ws.getD j []).take fpsize) := by
  have hws' : j < ws.length := by omega
  have hes' : j < es.length := by rw [h.length_eq]; omega
  simp only [List.getD_eq_getElem?_getD, List.getElem?_eq_getElem hes',
    List.getElem?_eq_getElem hws', Option.getD_some]
  exact List.Forall₂.get h hes' hws'

/-- **The rule for code for one component**: the outputs consist of the lanes that are
computed for the single components. -/
theorem wp_applyComponentwisely (hI : M.toInterp.IsVex F) {fpsize simdsize nOutputs : ℕ}
    (hl : Simd.valid ⟨fpsize, simdsize, false⟩ = true) {inputs : List IRExpr}
    {vs : List (List B)} {Inv : List (List (List B)) → State B T → Prop}
    {body : ℕ → List IRExpr → Emit (List IRExpr)}
    (hv : HasVectors M.toInterp env s (fpsize * simdsize) inputs vs)
    (hbody : ∀ c < simdsize, BodySpec M env s nOutputs fpsize vs Inv body c) (hInv : Inv [] s) :
    (execMeaning M).wp (applyComponentwisely inputs nOutputs fpsize simdsize body) env s
      fun outs env' s' => Extends env s env' s' ∧ ∃ us, Complete nOutputs fpsize simdsize us ∧
        Inv us s' ∧ List.Forall₂ (fun j e => HasValue M.toInterp env' s' e
          (vecTy (fpsize * simdsize)) (assembled fpsize us j)) (List.range nOutputs) outs := by
  have hsize : sizeofIRType (intTy fpsize) = fpsize := by
    rcases Simd.valid_cases hl with ⟨rfl, -⟩ | ⟨rfl, -⟩ <;> rfl
  apply wp_bind
  apply wp_mono (wp_applyToComponents hI hl hv hbody hInv)
  rintro outs env' s' ⟨hext, us, hus, hInv', houts⟩
  apply wp_mapList_pure (P := fun j e => HasValue M.toInterp env' s' e
    (vecTy (fpsize * simdsize)) (assembled fpsize us j))
  · intro j hj
    have hj : j < nOutputs := List.mem_range.mp hj
    apply wp_assembleSIMDVector hI hl (us.map fun ws => (ws.getD j []).take fpsize)
    · rw [List.length_map, houts.length_eq, hus]
    · rw [List.forall₂_map_left_iff, List.forall₂_map_right_iff]
      exact houts.imp fun es ws h => ComponentOutputs.getD hj h.1 h.2
    · intro e' he'
      exact ⟨rfl, rfl, he'⟩
  · intro es hes
    refine ⟨hext, us, ⟨hus, ?_⟩, hInv', hes⟩
    clear hInv' hes hus
    induction houts with
    | nil => simp
    | cons h _ ih =>
      refine List.forall_mem_cons.mpr ⟨?_, ih⟩
      intro j hj
      rw [(ComponentOutputs.getD hj h.1 h.2).length, hsize]

end Rules

end Derivgrind
