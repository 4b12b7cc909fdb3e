import Derivgrind.Instrument.Components
import Derivgrind.Vex.Check

/-!
# Splitting and assembling SIMD vectors

`getSIMDComponent` and `assembleSIMDVector` emit no statements; they build expressions from
those that they are given.  This module shows that they are inverse to each other, for
expressions of all types.

`assembleSIMDVector` has a conversion for `I64` expressions of which only the lower four bytes
count.  But it then chooses the operations by the type before the conversion, so that the
result is ill-typed unless there is only one component.

## Main definitions

* `TypedValue` — the type and the value of an expression that passes the type check.
* `AssemblesLanes` — **the components of an assembled vector are the given ones.**
* `SplitsAndAssembles` — **the components of a vector give the vector again.**

## Main results

* `splitAssemble_iff` — splitting and assembling are inverse to each other, except for `I64`
  expressions with four bytes that count.
-/

namespace Derivgrind

variable {B T : Type}

/-- An expression that passes the type check, its type and its value. -/
structure TypedValue (I : Interp B) (env : List IRType) (wordTy : IRType) (s : State B T)
    (e : IRExpr) (ty : IRType) (v : List B) : Prop where
  check : tcExpr env wordTy e = true
  type : typeOfIRExpr env e = some ty
  eval : evalExpr I s e = v
  length : v.length = sizeofIRType ty

/-! ### Operations that move bytes -/

section Moves

variable {I : Interp B} {F : FpSem B} {env : List IRType} {wordTy : IRType} {s : State B T}
  {a b c d : IRExpr} {ty : IRType} {va vb vc vd : List B}

theorem TypedValue.slice (hI : I.IsVex F) (h : TypedValue I env wordTy s a ty va) (op : IROp)
    (start n : ℕ) (hop : op.route? = some (fromArg 0 start n))
    (hargs : (typeOfPrimop op).args = [ty]) (hle : start + n ≤ sizeofIRType ty) :
    TypedValue I env wordTy s (.unop op a) (typeOfPrimop op).dst ((va.drop start).take n) where
  check := by
    rw [tcExpr, h.check, hargs, h.type]
    exact decide_eq_true rfl
  type := rfl
  eval := by
    rw [evalExpr, h.eval, hI.move hop, moveBytes_fromArg rfl (by rw [h.length]; exact hle)]
  length := by
    have hlength := length_route hop
    have hva := h.length
    rw [length_fromArg] at hlength
    rw [List.length_take, List.length_drop]
    omega

theorem TypedValue.join (hI : I.IsVex F) (h : TypedValue I env wordTy s a ty va)
    (h' : TypedValue I env wordTy s b ty vb) (op : IROp)
    (hop : op.route? = some (joinHalves (sizeofIRType ty)))
    (hargs : (typeOfPrimop op).args = [ty, ty]) :
    TypedValue I env wordTy s (.binop op a b) (typeOfPrimop op).dst (vb ++ va) where
  check := by
    rw [tcExpr, h.check, h'.check, hargs, h.type, h'.type]
    exact decide_eq_true rfl
  type := rfl
  eval := by
    rw [evalExpr, h.eval, h'.eval, hI.move hop, moveBytes_joinHalves h.length h'.length]
  length := by
    have hlength := length_route hop
    rw [joinHalves, List.length_append, length_fromArg, length_fromArg] at hlength
    rw [List.length_append, h.length, h'.length, hlength]

theorem TypedValue.join4 (hI : I.IsVex F) (ha : TypedValue I env wordTy s a .i64 va)
    (hb : TypedValue I env wordTy s b .i64 vb) (hc : TypedValue I env wordTy s c .i64 vc)
    (hd : TypedValue I env wordTy s d .i64 vd) :
    TypedValue I env wordTy s (.qop .op64x4toV256 a b c d) .v256 (vd ++ vc ++ vb ++ va) where
  check := by
    rw [tcExpr, ha.check, hb.check, hc.check, hd.check, ha.type, hb.type, hc.type, hd.type]
    rfl
  type := rfl
  eval := by
    rw [evalExpr, ha.eval, hb.eval, hc.eval, hd.eval, hI.move rfl]
    exact moveBytes_join4 ha.length hb.length hc.length hd.length
  length := by
    rw [List.length_append, List.length_append, List.length_append, ha.length, hb.length,
      hc.length, hd.length]
    rfl

theorem keptByMoves_typedValue (hI : I.IsVex F) (env : List IRType) (wordTy : IRType)
    (s : State B T) : KeptByMoves (TypedValue I env wordTy s) where
  length h := h.length
  slice h op start n hop hargs hle := h.slice hI op start n hop hargs hle
  join h h' op hop hargs := h.join hI h' op hop hargs
  join4 ha hb hc hd := ha.join4 hI hb hc hd

end Moves

/-! ### Expressions -/

section Expressions

variable {env : List IRType} {e : IRExpr} {ty : IRType}

theorem mapList_eq {α β : Type} {f : α → Emit β} {g : α → β} {l : List α}
    (h : ∀ a ∈ l, f a env = some (g a, [], [])) :
    Emitter.mapList f l env = some (l.map g, [], []) := by
  induction l with
  | nil => rfl
  | cons a l ih =>
    have htail := ih fun b hb => h b (List.mem_cons_of_mem a hb)
    rw [Emitter.mapList, Emitter.bind_eq_of_eq_some (h a List.mem_cons_self), List.append_nil,
      Emitter.bind_eq_of_eq_some htail]
    rfl

theorem typeOf_bind {α : Type} (h : typeOfIRExpr env e = some ty) (f : IRType → Emit α) :
    (typeOf e >>= f) env = f ty env := by
  have htype : typeOf e env = some (ty, [], []) := by
    rw [typeOf, Emitter.query, h]
    rfl
  rw [Emitter.bind_eq_of_eq_some htype, List.append_nil]
  cases f ty env <;> rfl

/-- The component that `getSIMDComponent` returns. -/
theorem getSIMDComponent_eq (h : typeOfIRExpr env e = some ty) {size : ℕ}
    (h' : typeOfIRExpr env (reinterpretAsInt ty e) = some (vecTy size)) (fpsize simdsize c : ℕ) :
    getSIMDComponent e fpsize simdsize c env
      = some (extractComponent fpsize simdsize c (reinterpretAsInt ty e), [], []) := by
  have hassert : (vecTy size = .i32 || vecTy size = .i64 || vecTy size = .v128 ||
      vecTy size = .v256) = true := by
    unfold vecTy
    split_ifs <;> rfl
  rw [getSIMDComponent, typeOf_bind h, typeOf_bind h', hassert, tlAssert_true_bind]
  rfl

/-- The vector that `assembleSIMDVector` returns. -/
theorem assembleSIMDVector_eq {es : List IRExpr} (hne : es ≠ [])
    (h : ∀ e ∈ es, typeOfIRExpr env e = some ty) (fpsize : ℕ) :
    assembleSIMDVector es fpsize env
      = (assemble ty (es.map (prepareComponent fpsize ty))).map fun e => (e, [], []) := by
  have hhead : typeOfIRExpr env (es.headD .vecret) = some ty := by
    cases es with
    | nil => exact absurd rfl hne
    | cons e es => exact h e List.mem_cons_self
  have hprepare : Emitter.mapList (fun e => do
      let ty' ← typeOf e
      tlAssert (ty' = ty)
      return prepareComponent fpsize ty e) es env
        = some (es.map (prepareComponent fpsize ty), [], []) := by
    refine mapList_eq fun e he => ?_
    rw [typeOf_bind (h e he), decide_eq_true rfl, tlAssert_true_bind]
    rfl
  rw [assembleSIMDVector, typeOf_bind hhead, Emitter.bind_eq_of_eq_some hprepare, List.append_nil]
  cases assemble ty (es.map (prepareComponent fpsize ty)) <;> rfl

end Expressions

/-! ### Components and vectors -/

/-- The types of expressions that `assembleSIMDVector` accepts as components of the given size. -/
def laneTypes (fpsize : ℕ) : List IRType := if fpsize = 4 then [.i32, .f32, .i64] else [.i64, .f64]

theorem Simd.fpsize_cases {fpsize simdsize : ℕ} {llo : Bool}
    (h : Simd.valid ⟨fpsize, simdsize, llo⟩ = true) : fpsize = 4 ∨ fpsize = 8 :=
  (Simd.valid_cases h).imp And.left And.left

theorem Simd.sizeof_vecTy {fpsize simdsize : ℕ} {llo : Bool}
    (h : Simd.valid ⟨fpsize, simdsize, llo⟩ = true) :
    sizeofIRType (vecTy (fpsize * simdsize)) = fpsize * simdsize := by
  rcases Simd.valid_cases h with ⟨rfl, rfl | rfl | rfl | rfl⟩ | ⟨rfl, rfl | rfl | rfl⟩ <;> rfl

theorem le_sizeof_of_mem_laneTypes {fpsize : ℕ} {ty : IRType} (hfp : fpsize = 4 ∨ fpsize = 8)
    (hty : ty ∈ laneTypes fpsize) : fpsize ≤ sizeofIRType ty := by
  rcases hfp with rfl | rfl <;> revert ty <;> decide

theorem eq_i64_of_mem_laneTypes {fpsize : ℕ} {ty : IRType} (hfp : fpsize = 4 ∨ fpsize = 8)
    (hty : ty ∈ laneTypes fpsize) (hsize : sizeofIRType ty ≠ fpsize) : fpsize = 4 ∧ ty = .i64 := by
  rcases hfp with rfl | rfl <;> revert ty <;> decide

/-- The conversion in `assembleSIMDVector` keeps the lower bytes. -/
theorem KeptByMoves.prepareComponent {P : IRExpr → IRType → List B → Prop} (hP : KeptByMoves P)
    {e : IRExpr} {ty : IRType} {v : List B} {fpsize : ℕ} (hfp : fpsize = 4 ∨ fpsize = 8)
    (hty : ty ∈ laneTypes fpsize) (h : P e ty v) :
    P (prepareComponent fpsize ty e) (intTy fpsize) (v.take fpsize) := by
  have htake : ∀ n, sizeofIRType ty = n → v.take n = v :=
    fun n hn => List.take_of_length_le (Nat.le_of_eq ((hP.length h).trans hn))
  rcases hfp with rfl | rfl
  · simp only [laneTypes, ↓reduceIte, List.mem_cons, List.not_mem_nil, or_false] at hty
    rcases hty with rfl | rfl | rfl
    · rw [htake 4 rfl]
      exact h
    · rw [htake 4 rfl]
      exact hP.reinterpret h (.unMove .reinterpF32asI32) rfl rfl
    · exact hP.slice h (.unMove .op64to32) 0 4 rfl rfl (by decide)
  · have hty : ty = .i64 ∨ ty = .f64 := by simpa [laneTypes] using hty
    rcases hty with rfl | rfl
    · rw [htake 8 rfl]
      exact h
    · rw [htake 8 rfl]
      exact hP.reinterpret h (.unMove .reinterpF64asI64) rfl rfl

/-- The operations are chosen by the size of the type before the conversion. -/
theorem assemble_congr {ty ty' : IRType} (h : sizeofIRType ty = 4 ↔ sizeofIRType ty' = 4)
    (es : List IRExpr) : assemble ty es = assemble ty' es := by
  unfold assemble
  simp only [h]

section Inverse

variable (I : Interp B) {F : FpSem B} (env : List IRType) (wordTy : IRType) (s : State B T)
  {fpsize simdsize : ℕ}

/-- **The components of an assembled vector are the given ones.**  The vector passes the type
check, and has the expected size. -/
def AssemblesLanes (fpsize : ℕ) (es : List IRExpr) (vs : List (List B)) : Prop :=
  ∃ e ty, assembleSIMDVector es fpsize env = some (e, [], []) ∧ tcExpr env wordTy e = true ∧
    typeOfIRExpr env e = some ty ∧ sizeofIRType ty = fpsize * es.length ∧
    ∀ c < es.length, ∃ part, getSIMDComponent e fpsize es.length c env = some (part, [], []) ∧
      TypedValue I env wordTy s part (intTy fpsize) ((vs.getD c []).take fpsize)

/-- **The components of a vector give the vector again.** -/
def SplitsAndAssembles (fpsize simdsize : ℕ) (e : IRExpr) (v : List B) : Prop :=
  ∃ e', (do
    let parts ← Emitter.mapList (getSIMDComponent e fpsize simdsize) (List.range simdsize)
    assembleSIMDVector parts fpsize) env = some (e', [], []) ∧
      TypedValue I env wordTy s e' (vecTy (fpsize * simdsize)) v

variable {I env wordTy s}

theorem typeOf_of_forall₂ {ty : IRType} {es : List IRExpr} {vs : List (List B)}
    (h : List.Forall₂ (fun e v => TypedValue I env wordTy s e ty v) es vs) :
    ∀ e ∈ es, typeOfIRExpr env e = some ty := by
  induction h with
  | nil => exact fun e he => absurd he List.not_mem_nil
  | cons hv _ ih => exact List.forall_mem_cons.mpr ⟨hv.type, ih⟩

theorem length_of_forall₂ {ty : IRType} {es : List IRExpr} {vs : List (List B)}
    (h : List.Forall₂ (fun e v => TypedValue I env wordTy s e ty v) es vs) :
    ∀ v ∈ vs, v.length = sizeofIRType ty := by
  induction h with
  | nil => exact fun v hv => absurd hv List.not_mem_nil
  | cons hv _ ih => exact List.forall_mem_cons.mpr ⟨hv.length, ih⟩

/-- Splitting a vector. -/
theorem TypedValue.getSIMDComponent (hI : I.IsVex F)
    (hl : Simd.valid ⟨fpsize, simdsize, false⟩ = true) {e : IRExpr} {ty : IRType} {v : List B}
    (h : TypedValue I env wordTy s e ty v) (hty : ty.isVector = true)
    (hsize : sizeofIRType ty = fpsize * simdsize) {c : ℕ} (hc : c < simdsize) :
    getSIMDComponent e fpsize simdsize c env
        = some (extractComponent fpsize simdsize c (reinterpretAsInt ty e), [], []) ∧
      TypedValue I env wordTy s (extractComponent fpsize simdsize c (reinterpretAsInt ty e))
        (intTy fpsize) (lane fpsize c v) := by
  have hP := keptByMoves_typedValue hI env wordTy s
  have h' := hP.reinterpretAsInt h hty
  rw [hsize] at h'
  exact ⟨getSIMDComponent_eq h.type h'.type _ _ _, hP.extractComponent hl hc h'⟩

/-- Assembling a vector: the size of the type has to be that of the components, unless there is
only one. -/
theorem exists_assembleSIMDVector (hI : I.IsVex F)
    (hl : Simd.valid ⟨fpsize, simdsize, false⟩ = true) {ty : IRType}
    (hty : ty ∈ laneTypes fpsize) {es : List IRExpr} {vs : List (List B)}
    (hlen : es.length = simdsize)
    (h : List.Forall₂ (fun e v => TypedValue I env wordTy s e ty v) es vs)
    (hcase : sizeofIRType ty = fpsize ∨ simdsize = 1) :
    ∃ e, assembleSIMDVector es fpsize env = some (e, [], []) ∧
      TypedValue I env wordTy s e (vecTy (fpsize * simdsize))
        (vs.map (List.take fpsize)).flatten := by
  have hP := keptByMoves_typedValue hI env wordTy s
  have hfp := Simd.fpsize_cases hl
  have hne : es ≠ [] := by
    rintro rfl
    rw [← hlen] at hl
    simp [Simd.valid] at hl
  have hprepared : List.Forall₂ (fun e v => TypedValue I env wordTy s e (intTy fpsize) v)
      (es.map (prepareComponent fpsize ty)) (vs.map (List.take fpsize)) := by
    rw [List.forall₂_map_left_iff, List.forall₂_map_right_iff]
    exact h.imp fun e v hv => hP.prepareComponent hfp hty hv
  obtain ⟨e, he, hv⟩ := hP.assemble hl ((List.length_map _).trans hlen) hprepared
  refine ⟨e, ?_, hv⟩
  have hsame : assemble ty (es.map (prepareComponent fpsize ty)) = some e := by
    rw [← he]
    rcases hcase with hsize | hone
    · have hint : sizeofIRType (intTy fpsize) = fpsize := by
        rcases hfp with rfl | rfl <;> rfl
      exact assemble_congr (by rw [hsize, hint]) _
    · obtain ⟨e₀, rfl⟩ := List.length_eq_one_iff.mp (hlen.trans hone)
      rfl
  rw [assembleSIMDVector_eq hne (typeOf_of_forall₂ h), hsame]
  rfl

/-- **The components are the given ones.** -/
theorem assemblesLanes (hI : I.IsVex F)
    (hl : Simd.valid ⟨fpsize, simdsize, false⟩ = true) {ty : IRType}
    (hty : ty ∈ laneTypes fpsize) {es : List IRExpr} {vs : List (List B)}
    (hlen : es.length = simdsize)
    (h : List.Forall₂ (fun e v => TypedValue I env wordTy s e ty v) es vs)
    (hcase : sizeofIRType ty = fpsize ∨ simdsize = 1) :
    AssemblesLanes I env wordTy s fpsize es vs := by
  obtain ⟨e, he, hv⟩ := exists_assembleSIMDVector hI hl hty hlen h hcase
  have hlanes : ∀ x ∈ vs.map (List.take fpsize), x.length = fpsize := by
    intro x hx
    obtain ⟨v, hv, rfl⟩ := List.mem_map.mp hx
    rw [List.length_take, length_of_forall₂ h v hv]
    exact Nat.min_eq_left (le_sizeof_of_mem_laneTypes (Simd.fpsize_cases hl) hty)
  have hsize := Simd.sizeof_vecTy hl
  refine ⟨e, _, he, hv.check, hv.type, by rw [hlen, hsize], fun c hc => ?_⟩
  rw [hlen] at hc ⊢
  have hvec : (vecTy (fpsize * simdsize)).isVector = true := by
    unfold vecTy
    split_ifs <;> rfl
  obtain ⟨hget, hpart⟩ := hv.getSIMDComponent hI hl hvec hsize hc
  have hcvs : c < (vs.map (List.take fpsize)).length := by
    rw [List.length_map, ← h.length_eq, hlen]
    exact hc
  rw [lane_flatten hlanes hcvs, List.getElem_map] at hpart
  refine ⟨_, hget, ?_⟩
  rwa [List.getD_eq_getElem?_getD, List.getElem?_eq_getElem, Option.getD_some]

/-- **The result is ill-typed** if `I64` expressions are converted. -/
theorem not_assemblesLanes {es : List IRExpr} {vs : List (List B)}
    (hlen : es.length = simdsize) (hsimd : simdsize = 2 ∨ simdsize = 4 ∨ simdsize = 8)
    (h : List.Forall₂ (fun e v => TypedValue I env wordTy s e .i64 v) es vs) :
    ¬AssemblesLanes I env wordTy s 4 es vs := by
  rintro ⟨e, ty, he, hcheck, -⟩
  have hne : es ≠ [] := by
    rintro rfl
    simp at hlen
    omega
  rw [assembleSIMDVector_eq hne (typeOf_of_forall₂ h)] at he
  rcases hsimd with rfl | rfl | rfl
  · obtain ⟨e₀, e₁, rfl⟩ := List.length_eq_two.mp hlen
    obtain ⟨rfl, -⟩ := Prod.mk.inj (Option.some_inj.mp he)
    rw [tcExpr, Bool.and_eq_true] at hcheck
    exact absurd (of_decide_eq_true hcheck.2) (by simp [prepareComponent, typeOfIRExpr]; decide)
  · obtain ⟨e₀, e₁, e₂, e₃, rfl⟩ : ∃ e₀ e₁ e₂ e₃, es = [e₀, e₁, e₂, e₃] := by
      obtain ⟨e₀, es', rfl⟩ := List.exists_cons_of_ne_nil hne
      obtain ⟨e₁, e₂, e₃, rfl⟩ := List.length_eq_three.mp (Nat.succ.inj hlen)
      exact ⟨e₀, e₁, e₂, e₃, rfl⟩
    obtain ⟨rfl, -⟩ := Prod.mk.inj (Option.some_inj.mp he)
    rw [tcExpr, Bool.and_eq_true] at hcheck
    exact absurd (of_decide_eq_true hcheck.2) (by simp [prepareComponent, typeOfIRExpr]; decide)
  · -- there is no result for eight components
    have hnone : assemble .i64 (es.map (prepareComponent 4 .i64)) = none := by
      have hlength : (es.map (prepareComponent 4 .i64)).length = 8 :=
        (List.length_map _).trans hlen
      generalize es.map (prepareComponent 4 .i64) = parts at hlength
      unfold assemble
      split <;> first | rfl | cases hlength
    rw [hnone] at he
    cases he

/-- **The components of a vector give it again.** -/
theorem splitsAndAssembles (hI : I.IsVex F)
    (hl : Simd.valid ⟨fpsize, simdsize, false⟩ = true) {e : IRExpr} {ty : IRType} {v : List B}
    (h : TypedValue I env wordTy s e ty v) (hty : ty.isVector = true)
    (hsize : sizeofIRType ty = fpsize * simdsize) :
    SplitsAndAssembles I env wordTy s fpsize simdsize e v := by
  have hsplit : Emitter.mapList (getSIMDComponent e fpsize simdsize) (List.range simdsize) env
      = some ((List.range simdsize).map fun c =>
        extractComponent fpsize simdsize c (reinterpretAsInt ty e), [], []) :=
    mapList_eq fun c hc => (h.getSIMDComponent hI hl hty hsize (List.mem_range.mp hc)).1
  have hparts : List.Forall₂ (fun e v => TypedValue I env wordTy s e (intTy fpsize) v)
      ((List.range simdsize).map fun c =>
        extractComponent fpsize simdsize c (reinterpretAsInt ty e))
      ((List.range simdsize).map fun c => lane fpsize c v) := by
    rw [List.forall₂_map_left_iff, List.forall₂_map_right_iff]
    refine List.forall₂_same.mpr fun c hc => ?_
    exact (h.getSIMDComponent hI hl hty hsize (List.mem_range.mp hc)).2
  have hfp := Simd.fpsize_cases hl
  have hint : intTy fpsize ∈ laneTypes fpsize := by
    rcases hfp with rfl | rfl <;> decide
  have hintSize : sizeofIRType (intTy fpsize) = fpsize := by
    rcases hfp with rfl | rfl <;> rfl
  -- the components have no other bytes than the lower ones
  have htake : ((List.range simdsize).map fun c => lane fpsize c v).map (List.take fpsize)
      = (List.range simdsize).map fun c => lane fpsize c v := by
    rw [List.map_map]
    refine List.map_congr_left fun c _ => ?_
    exact List.take_of_length_le (List.length_take_le _ _)
  obtain ⟨e', he', hv⟩ := exists_assembleSIMDVector hI hl hint (by simp) hparts (.inl hintSize)
  refine ⟨e', ?_, ?_⟩
  · rw [Emitter.bind_eq_of_eq_some hsplit, List.append_nil, he']
    rfl
  · have hwhole : v.take (fpsize * simdsize) = v :=
      List.take_of_length_le (Nat.le_of_eq (h.length.trans hsize))
    rwa [htake, flatten_lanes, hwhole] at hv

end Inverse

/-- **Splitting and assembling are inverse to each other**, except that `I64` expressions whose
lower four bytes count are not assembled correctly if there is more than one. -/
theorem splitAssemble_iff {I : Interp B} {F : FpSem B} (hI : I.IsVex F) (env : List IRType)
    (wordTy : IRType) (s : State B T) {fpsize simdsize : ℕ}
    (hl : Simd.valid ⟨fpsize, simdsize, false⟩ = true) :
    (∀ ty ∈ laneTypes fpsize, ∀ (es : List IRExpr) (vs : List (List B)), es.length = simdsize →
      List.Forall₂ (fun e v => TypedValue I env wordTy s e ty v) es vs →
      (AssemblesLanes I env wordTy s fpsize es vs ↔ ¬(fpsize = 4 ∧ ty = .i64 ∧ 1 < simdsize))) ∧
    ∀ (e : IRExpr) (ty : IRType) (v : List B), TypedValue I env wordTy s e ty v →
      ty.isVector = true → sizeofIRType ty = fpsize * simdsize →
      SplitsAndAssembles I env wordTy s fpsize simdsize e v := by
  refine ⟨fun ty hty es vs hlen h => ⟨?_, fun hcond => ?_⟩,
    fun e ty v h hvec hsize => splitsAndAssembles hI hl h hvec hsize⟩
  · rintro hassembles ⟨rfl, rfl, hmany⟩
    have hsimd : simdsize = 2 ∨ simdsize = 4 ∨ simdsize = 8 := by
      rcases Simd.valid_cases hl with ⟨-, rfl | h⟩ | ⟨h, -⟩
      · omega
      · exact h
      · omega
    exact not_assemblesLanes hlen hsimd h hassembles
  · refine assemblesLanes hI hl hty hlen h ?_
    by_cases hsize : sizeofIRType ty = fpsize
    · exact .inl hsize
    · -- only `I64` expressions are larger than the components
      have hwide := eq_i64_of_mem_laneTypes (Simd.fpsize_cases hl) hty hsize
      have hpos : 0 < simdsize := by
        rcases Simd.valid_cases hl with ⟨-, h⟩ | ⟨-, h⟩ <;> omega
      have hone : ¬1 < simdsize := fun hmany => hcond ⟨hwide.1, hwide.2, hmany⟩
      exact .inr (by omega)

/-- A state in which all bytes are zero. -/
def zeroState : State Byte Unit := ⟨fun _ => [], fun _ => 0, fun _ => 0, fun _ => 0, ()⟩

/-- Constants have a value. -/
theorem typedValue_u64 (x : ℕ) :
    TypedValue (hostInterp FpSem.zeros Interp.silent) [] .i64 zeroState (.const (.u64 x)) .i64
      (hostConst (.u64 x)) where
  check := rfl
  type := rfl
  eval := rfl
  length := rfl

/-- The theorem applies to two constants of eight bytes. -/
theorem splitAssemble_iff_u64 :
    AssemblesLanes (hostInterp FpSem.zeros Interp.silent) [] .i64 zeroState 8
      [.const (.u64 1), .const (.u64 2)] [hostConst (.u64 1), hostConst (.u64 2)] :=
  ((splitAssemble_iff (isVex_hostInterp FpSem.zeros Interp.silent) [] .i64 zeroState
    (show Simd.valid ⟨8, 2, false⟩ = true from rfl)).1 .i64 (by decide) _ _ rfl
    (.cons (typedValue_u64 1) (.cons (typedValue_u64 2) .nil))).mpr (by decide)

/-- Two `I64` constants of which four bytes count are not assembled correctly. -/
theorem not_assemblesLanes_u64 :
    ¬AssemblesLanes (hostInterp FpSem.zeros Interp.silent) [] .i64 zeroState 4
      [.const (.u64 1), .const (.u64 2)] [hostConst (.u64 1), hostConst (.u64 2)] :=
  not_assemblesLanes rfl (.inl rfl) (.cons (typedValue_u64 1) (.cons (typedValue_u64 2) .nil))

end Derivgrind
