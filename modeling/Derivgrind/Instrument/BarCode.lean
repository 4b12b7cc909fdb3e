import Derivgrind.Instrument.Components

/-!
# The code that records operations

What the code of recording mode does when it is run: for each component, the
function `dg_bar_writeToTape_call` is called with both layers of the indices of
the operands and with the partial derivatives, and both layers of the index of
the result are the two halves of the index it returns.

## Main definitions

* `Machine.Records` — what is assumed about calls of Derivgrind's functions.
* `tapeCall` — the call that records an operation.
* `loIndex`, `hiIndex` — both layers of an index.

## Main results

* `wp_dgBarWriteToTape` — recording an operation.
* `wp_layersCode` — the rule for code that computes both layers of a result.
-/

namespace Derivgrind

open Emitter.Meaning

variable {B T : Type}

/-- Calls without guard are made, and the functions of recording mode return eight bytes. -/
structure Machine.Records (M : Machine B T) : Prop where
  isTrue_true : M.isTrue (M.const (.u1 true)) = true
  length_tapeCall : ∀ args buf tool,
    (M.toolDirty .barWriteToTapeCall args buf tool).1.length = 8

/-- The call that records an operation, followed by the one that records its value `x` if
values are recorded. -/
def tapeCall (M : Machine B T) (o : Options) (args : List (List B)) (x : List B) (buf : ℕ → B)
    (tool : T) : List B × (ℕ → B) × T :=
  let r := M.toolDirty .barWriteToTapeCall args buf tool
  if o.barRecordValues then
    (r.1, (M.toolDirty .barWriteToTapeValueCall [x, r.1] r.2.1 r.2.2).2)
  else r

/-- The lower layer of an index, as the bytes of an `I64` expression. -/
def loIndex (z : B) (index : List B) : List B := index.take 4 ++ List.replicate 4 z

/-- The higher layer of an index, as the bytes of an `I64` expression. -/
def hiIndex (z : B) (index : List B) : List B := (index.drop 4).take 4 ++ List.replicate 4 z

section Rules

variable {M : Machine B T} {F : FpSem B} {env : List IRType} {s : State B T}

/-- The arguments of the call that records an operation. -/
def tapeArgs (index1Lo index1Hi index2Lo index2Hi diff1 diff2 : IRExpr) : List IRExpr :=
  [index1Lo, index1Hi, index2Lo, index2Hi, .unop (.unMove .reinterpF64asI64) diff1,
    .unop (.unMove .reinterpF64asI64) diff2]

/-- Recording an operation. -/
theorem wp_dgBarWriteToTape (hI : M.toInterp.IsVex F) (hM : M.Records) (o : Options)
    (index1Lo index1Hi index2Lo index2Hi diff1 diff2 value : IRExpr) :
    (execMeaning M).wp
      (dgBarWriteToTape o index1Lo index1Hi index2Lo index2Hi diff1 diff2 value) env s
      fun outs env' s' => Extends env s env' s' ∧ ∃ x r,
        tapeCall M o (evalExprs M.toInterp s
          (tapeArgs index1Lo index1Hi index2Lo index2Hi diff1 diff2)) x s.buf s.tool = r ∧
        s'.buf = r.2.1 ∧ s'.tool = r.2.2 ∧
        HasParts M.toInterp env' s' outs [loIndex M.zero r.1, hiIndex M.zero r.1] := by
  set args := evalExprs M.toInterp s
    (tapeArgs index1Lo index1Hi index2Lo index2Hi diff1 diff2) with hargs
  set r := M.toolDirty .barWriteToTapeCall args s.buf s.tool with hr
  have hlen : r.1.length = 8 := hM.length_tapeCall args s.buf s.tool
  have hnew : Extends env s (env ++ [.i64]) s :=
    ⟨List.prefix_append env _, fun _ _ => rfl, rfl, rfl⟩
  -- both layers of the returned index are computed from the new temporary
  have hparts : ∀ s' : State B T, s'.tmp env.length = r.1 →
      HasParts M.toInterp (env ++ [.i64]) s'
        [.binop (.binMove .op32HLto64) (.const (.u32 0))
            (.unop (.unMove .op64to32) (.rdTmp env.length)),
          .binop (.binMove .op32HLto64) (.const (.u32 0))
            (.unop (.unMove .op64HIto32) (.rdTmp env.length))]
        [loIndex M.zero r.1, hiIndex M.zero r.1] := by
    intro s' htmp
    have hidx : HasValue M.toInterp (env ++ [.i64]) s' (.rdTmp env.length) .i64 r.1 := by
      rw [← htmp]
      exact HasValue.rdTmp (by simp) (by rw [htmp, hlen]; rfl)
    have hzero := HasValue.const_u32 hI (env ++ [.i64]) s'
    refine List.Forall₂.cons ?_ (List.Forall₂.cons ?_ List.Forall₂.nil)
    · exact hzero.join hI (hidx.slice hI (.unMove .op64to32) 0 4 rfl (by decide))
        (.binMove .op32HLto64) rfl
    · exact hzero.join hI (hidx.slice hI (.unMove .op64HIto32) 4 4 rfl (by decide))
        (.binMove .op32HLto64) rfl
  apply wp_bind
  apply wp_newIRTemp
  apply wp_bind
  apply wp_addDirtyTmp hM.isTrue_true hr.symm
  set s₁ := (s.setTmp env.length r.1).withTool r.2 with hs₁
  have hext : Extends env s (env ++ [.i64]) s₁ := (hnew.setTmp (le_refl _) r.1).withTool r.2
  have htmp : s₁.tmp env.length = r.1 := Function.update_self _ _ _
  split
  · rename_i hvalues
    apply wp_bind
    apply wp_addDirty hM.isTrue_true rfl
    apply wp_pure
    refine ⟨hext.withTool _, evalExpr M.toInterp s₁ (.unop (.unMove .reinterpF64asI64) value), _,
      rfl, ?_, ?_, ?_⟩
    · simp only [tapeCall, hvalues, if_true, evalExprs, evalExpr, htmp]
      rfl
    · simp only [tapeCall, hvalues, if_true, evalExprs, evalExpr, htmp]
      rfl
    · simp only [tapeCall, hvalues, if_true]
      exact hparts _ htmp
  · rename_i hvalues
    apply wp_pure
    refine ⟨hext, [], _, rfl, ?_, ?_, ?_⟩
    · simp only [tapeCall, if_neg hvalues]
      rfl
    · simp only [tapeCall, if_neg hvalues]
      rfl
    · simp only [tapeCall, if_neg hvalues]
      exact hparts _ htmp

/-- Recording an operation with one input. -/
theorem barBody_one {o : Options} {fpsize : ℕ} {partials : (ℕ → IRExpr) → List IRExpr}
    {value : (ℕ → IRExpr) → IRExpr} {parts : List IRExpr} {p₀ : IRExpr}
    (h : partials (fun m => partAsF64 fpsize (inputParts parts m).1) = [p₀]) :
    barBody o 1 fpsize partials value parts =
      dgBarWriteToTape o (inputParts parts 0).2.1 (inputParts parts 0).2.2 (.const (.u64 0))
        (.const (.u64 0)) p₀ (f64Const 0)
        (value fun m => partAsF64 fpsize (inputParts parts m).1) := by
  rw [barBody]
  simp only [h]

/-- Recording an operation with two inputs. -/
theorem barBody_two {o : Options} {fpsize : ℕ} {partials : (ℕ → IRExpr) → List IRExpr}
    {value : (ℕ → IRExpr) → IRExpr} {parts : List IRExpr} {p₀ p₁ : IRExpr}
    (h : partials (fun m => partAsF64 fpsize (inputParts parts m).1) = [p₀, p₁]) :
    barBody o 2 fpsize partials value parts =
      dgBarWriteToTape o (inputParts parts 0).2.1 (inputParts parts 0).2.2
        (inputParts parts 1).2.1 (inputParts parts 1).2.2 p₀ p₁
        (value fun m => partAsF64 fpsize (inputParts parts m).1) := by
  rw [barBody]
  simp only [h]

/-- Recording an operation with three inputs: two blocks combine them. -/
theorem barBody_three {o : Options} {fpsize : ℕ} {partials : (ℕ → IRExpr) → List IRExpr}
    {value : (ℕ → IRExpr) → IRExpr} {parts : List IRExpr} {p₀ p₁ p₂ : IRExpr}
    (h : partials (fun m => partAsF64 fpsize (inputParts parts m).1) = [p₀, p₁, p₂]) :
    barBody o 3 fpsize partials value parts = (do
      let intermediate ← dgBarWriteToTape o (inputParts parts 0).2.1 (inputParts parts 0).2.2
        (inputParts parts 1).2.1 (inputParts parts 1).2.2 p₀ p₁ (f64Const 0)
      dgBarWriteToTape o (intermediate.getD 0 .vecret) (intermediate.getD 1 .vecret)
        (inputParts parts 2).2.1 (inputParts parts 2).2.2 (f64Const f64One) p₂
        (value fun m => partAsF64 fpsize (inputParts parts m).1)) := by
  rw [barBody]
  simp only [h]

/-- The components of the inputs, by their position. -/
theorem HasParts.getD {I : Interp B} {es : List IRExpr} {vs : List (List B)}
    (h : HasParts I env s es vs) {j : ℕ} (hj : j < vs.length) :
    HasValue I env s (es.getD j .vecret) .i64 (vs.getD j []) := by
  have hes : j < es.length := by rw [h.length_eq]; exact hj
  simp only [List.getD_eq_getElem?_getD, List.getElem?_eq_getElem hes,
    List.getElem?_eq_getElem hj, Option.getD_some]
  exact List.Forall₂.get h hes hj

/-- The number in a lane, in double precision. -/
def laneF64 (F : FpSem B) (fpsize : ℕ) (x : List B) : List B :=
  if fpsize = 4 then F.f32toF64 x else x

theorem hasValue_partAsF64 {I : Interp B} (hI : I.IsVex F)
    (hwiden : ∀ x, (F.f32toF64 x).length = 8) {fpsize : ℕ} {part : IRExpr} {x : List B}
    (hx : x.length = fpsize) (h : HasValue I env s part .i64 (widenBytes I.zero fpsize x)) :
    HasValue I env s (partAsF64 fpsize part) .f64 (laneF64 F fpsize x) := by
  rw [partAsF64, laneF64]
  rw [widenBytes] at h
  split
  · rename_i h4
    rw [if_pos h4] at h
    subst h4
    have hlow := (h.slice hI (.unMove .op64to32) 0 4 rfl (by decide)).reinterpret hI
      (.unMove .reinterpI32asF32) rfl
    rw [List.drop_zero, List.take_left' hx] at hlow
    obtain ⟨rest, hop⟩ := hI.op
    refine ⟨by rw [IRExpr.inBounds]; exact hlow.fits, rfl, ?_, hwiden x⟩
    rw [evalExpr, hlow.eval, hop]
    rfl
  · rename_i h4
    rw [if_neg h4] at h
    exact h.reinterpret hI (.unMove .reinterpI64asF64) rfl

/-- The rule for code that computes both layers of a result. -/
theorem wp_layersCode (hI : M.toInterp.IsVex F) {op : IROp} {l : Simd}
    (hl : Simd.valid ⟨l.fpsize, l.simdsize, false⟩ = true)
    (hty : (typeOfPrimop op).dst.isVector = true)
    (hsize : sizeofIRType (typeOfPrimop op).dst = l.fpsize * l.simdsize) {inputs : List IRExpr}
    {vs : List (List B)} {Inv : List (List (List B)) → State B T → Prop}
    {body : ℕ → List IRExpr → Emit (List IRExpr)}
    (hv : HasVectors M.toInterp env s (l.fpsize * l.simdsize) inputs vs)
    (hbody : ∀ c < l.simdsize, BodySpec M env s 2 l.fpsize vs Inv body c) (hInv : Inv [] s) :
    (execMeaning M).wp (do
      let layers ← applyComponentwisely inputs 2 l.fpsize l.simdsize body
      reinterpretLayers op layers) env s fun outs env' s' => Extends env s env' s' ∧
        ∃ us eLo eHi, Complete 2 l.fpsize l.simdsize us ∧ Inv us s' ∧ outs = [eLo, eHi] ∧
          HasValue M.toInterp env' s' eLo (typeOfPrimop op).dst (assembled l.fpsize us 0) ∧
          HasValue M.toInterp env' s' eHi (typeOfPrimop op).dst (assembled l.fpsize us 1) := by
  apply wp_bind
  apply wp_mono (wp_applyComponentwisely hI hl hv hbody hInv)
  rintro layers env' s' ⟨hext, us, hus, hInv', hlayers⟩
  rw [← hsize] at hlayers
  obtain _ | ⟨hLo, _ | ⟨hHi, _ | _⟩⟩ := hlayers
  apply wp_bind
  apply wp_reinterpretType hI hty hLo
  intro eLo heLo
  apply wp_bind
  apply wp_bind
  apply wp_reinterpretType hI hty hHi
  intro eHi heHi
  exact wp_bind (wp_pure (wp_pure (wp_pure
    ⟨hext, us, eLo, eHi, hus, hInv', rfl, heLo, heHi⟩)))

/-- The body of lowest-lane-only operations for the other components. -/
theorem bodySpec_copyBody {fpsize c : ℕ} {vs : List (List B)}
    {Inv : List (List (List B)) → State B T → Prop} (hvs : 3 ≤ vs.length)
    (hInv : ∀ us s', us.length = c → Inv us s' →
      Inv (us ++ [[widenBytes M.zero fpsize (lane fpsize c (vs.getD 1 [])),
        widenBytes M.zero fpsize (lane fpsize c (vs.getD 2 []))]]) s') :
    BodySpec M env s 2 fpsize vs Inv (fun _ => copyBody) c := by
  intro env' s' parts us _ hus hInv' hparts
  have hget : ∀ j < 3, HasValue M.toInterp env' s' (parts.getD j .vecret) .i64
      (widenBytes M.zero fpsize (lane fpsize c (vs.getD j []))) := by
    intro j hj
    have hjv : j < vs.length := by omega
    have hpart := hparts.getD (j := j) (by rw [List.length_map]; exact hjv)
    simpa [List.getD_eq_getElem?_getD, List.getElem?_map, hjv] using hpart
  refine wp_pure ⟨Extends.refl env' s', _, rfl, ?_, hInv us s' hus hInv'⟩
  exact List.Forall₂.cons (hget 1 (by decide)) (List.Forall₂.cons (hget 2 (by decide))
    List.Forall₂.nil)

/-- The bodies of operations that may be lowest-lane-only. -/
theorem bodySpec_llo {l : Simd} {nOutputs c : ℕ} {vs : List (List B)}
    {Inv : List (List (List B)) → State B T → Prop} {copy body : List IRExpr → Emit (List IRExpr)}
    (hcopy : l.llo = true → c ≠ 0 → BodySpec M env s nOutputs l.fpsize vs Inv (fun _ => copy) c)
    (hbody : (l.llo = true → c = 0) →
      BodySpec M env s nOutputs l.fpsize vs Inv (fun _ => body) c) :
    BodySpec M env s nOutputs l.fpsize vs Inv
      (fun c => if l.llo && c ≠ 0 then copy else body) c := by
  intro env' s' parts us hext hus hInv hparts
  show (execMeaning M).wp ((if l.llo && decide (c ≠ 0) then copy else body) parts) env' s' _
  by_cases h : (l.llo && decide (c ≠ 0)) = true
  · rw [if_pos h]
    rw [Bool.and_eq_true, decide_eq_true_eq] at h
    exact hcopy h.1 h.2 env' s' parts us hext hus hInv hparts
  · rw [if_neg h]
    rw [Bool.and_eq_true, decide_eq_true_eq, not_and, not_not] at h
    exact hbody h env' s' parts us hext hus hInv hparts

end Rules

end Derivgrind
