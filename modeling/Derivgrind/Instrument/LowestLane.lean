import Derivgrind.Instrument.MinMax

/-!
# Lowest-lane-only operations

Operations like `Iop_Add32F0x4` act on the lowest lane, and copy the other lanes from
the first operand.  Their shadow should do the same.  It does in recording mode and
in bit-trick-finding mode, where the code for other components copies both layers.
It does for arithmetic in forward mode, too, because dot values are computed by
lowest-lane-only operations.  However, dot values of minima and maxima are selected in
all lanes.

## Main definitions

* `IROp.lowestLaneOnly?` — the operations.
* `UpperLanesKept` — the shadow of the other lanes is copied.

## Main results

* `upperLanesKept_iff` — **when the shadow is copied.**
-/

namespace Derivgrind

open Emitter.Meaning

variable {T : Type}

/-- The layout of lowest-lane-only operations. -/
def IROp.lowestLaneOnly? : IROp → Option Simd
  | .arith _ l => if l.simd.llo then some l.simd else none
  | .sqrt l => if l.simd.llo then some l.simd else none
  | .minMax _ l => if l.simd.llo then some l.simd else none
  | _ => none

/-- The number of operands of a lowest-lane-only operation. -/
def IROp.operandCount : IROp → ℕ
  | .sqrt _ => 1
  | _ => 2

/-- Operands and their shadows, all of which are vectors of the given size. -/
structure VectorOperands (I : Interp Byte) (env : List IRType) (s : State Byte T)
    (size layers n : ℕ) (exprs : List IRExpr) (shadows : List Shadow) : Prop where
  length_exprs : exprs.length = n
  length_shadows : shadows.length = n
  length_shadow : ∀ shadow ∈ shadows, shadow.length = layers
  vector : ∀ e ∈ exprs ++ shadows.flatten, ∃ ty, HasValue I env s e ty (evalExpr I s e) ∧
    ty.isVector = true ∧ sizeofIRType ty = size

/-- The shadow of a result, after the code for an operation has been run. -/
def runOperation (M : Machine Byte T) (o : Options) (op : IROp) (env : List IRType)
    (s : State Byte T) (exprs : List IRExpr) (shadows : List Shadow) :
    Option (Option Shadow × State Byte T) :=
  runEmit M (o.expressionhandling.operation op (numbered .vecret exprs)
    (numbered none (shadows.map some))) env s

/-- The floating-point operations have results of the right size. -/
structure FpSem.Sized {B : Type} (F : FpSem B) : Prop where
  arith : ∀ op n rm x y, (F.arith op n rm x y).length = n

/-- In all lanes but the lowest one, the shadow of the result is the one of the first
operand. -/
def UpperLanesKept (M : Machine Byte T) (o : Options) (op : IROp) (l : Simd) (env : List IRType)
    (s : State Byte T) (exprs : List IRExpr) (shadows : List Shadow) : Prop :=
  ∃ shadow s', runOperation M o op env s exprs shadows = some (some shadow, s') ∧
    ∀ k < o.expressionhandling.layers, ∀ c, c ≠ 0 → c < l.simdsize →
      lane l.fpsize c (evalExpr M.toInterp s' (shadow.layer k))
        = lane l.fpsize c (evalExpr M.toInterp s ((shadows.headD []).layer k))

/-! ### Arithmetic in forward mode -/

section Arith

variable {I : Interp Byte} {F : FpSem Byte} {s : State Byte T} {l : ArithLayout} {v : List Byte}

/-- The value of an expression agrees with a vector in all lanes but the lowest one. -/
structure KeepsUpper (I : Interp Byte) (s : State Byte T) (l : Simd) (v : List Byte) (a : IRExpr) :
    Prop where
  length : (evalExpr I s a).length = l.fpsize * l.simdsize
  lanes : ∀ c, c ≠ 0 → c < l.simdsize → lane l.fpsize c (evalExpr I s a) = lane l.fpsize c v

/-- Arithmetic copies the upper lanes. -/
theorem KeepsUpper.applyArith (hI : I.IsVex F) (hF : F.Sized) (hl : l.simd.llo = true)
    {a : IRExpr} (h : KeepsUpper I s l.simd v a) (op : ArithOp) (rm b : IRExpr) :
    KeepsUpper I s l.simd v (applyArith op l rm a b) := by
  obtain ⟨rest, hop⟩ := hI.op
  have heval : evalExpr I s (Derivgrind.applyArith op l rm a b) = lanewise₂ l.simd
      (F.arith op l.simd.fpsize none) (evalExpr I s a) (evalExpr I s b) := by
    rw [Derivgrind.applyArith, if_pos hl, evalExpr, hop]
    rfl
  constructor
  · rw [heval, length_lanewise₂ h.length (hF.arith _ _ _)]
  · intro c hc0 hc
    rw [heval, lane_lanewise₂ h.length (hF.arith _ _ _) hc, hl, decide_eq_true hc0]
    exact h.lanes c hc0 hc

/-- The dot values of arithmetic operations. -/
theorem KeepsUpper.arithDot (hI : I.IsVex F) (hF : F.Sized) (hl : l.simd.llo = true)
    {arg d : ℕ → IRExpr} (h : KeepsUpper I s l.simd v (d 1)) (op : ArithOp) :
    KeepsUpper I s l.simd v (arithDot op l arg d) := by
  have hfirst : l.firstOperand = 1 := by rw [ArithLayout.firstOperand, if_pos hl]
  rw [Derivgrind.arithDot.eq_def, hfirst]
  cases op with
  | add => exact h.applyArith hI hF hl .add _ _
  | sub => exact h.applyArith hI hF hl .sub _ _
  | mul => exact (h.applyArith hI hF hl .mul _ _).applyArith hI hF hl .add _ _
  | div =>
    exact ((h.applyArith hI hF hl .mul _ _).applyArith hI hF hl .sub _ _).applyArith hI hF hl .div
      _ _

/-- The dot values of square roots. -/
theorem KeepsUpper.sqrtDot (hI : I.IsVex F) (hF : F.Sized) (hl : l.simd.llo = true)
    {arg d : ℕ → IRExpr} (h : KeepsUpper I s l.simd v (d 1)) :
    KeepsUpper I s l.simd v (sqrtDot l arg d) := by
  have hoperand : l.sqrtOperand = 1 := by
    rw [ArithLayout.sqrtOperand, ArithLayout.sqrtNoRoundingMode, hl]
    rfl
  rw [Derivgrind.sqrtDot, hoperand]
  exact h.applyArith hI hF hl .div _ _

end Arith

/-! ### Code with a separate body for the other components -/

section Layers

variable {M : Machine Byte T} {F : FpSem Byte} {env : List IRType} {s : State Byte T}

/-- Code for one component that computes both layers of a result. -/
def ComputesLayers (M : Machine Byte T) (env : List IRType) (s : State Byte T)
    (vs : List (List Byte)) (body : List IRExpr → Emit (List IRExpr)) : Prop :=
  ∀ env' s' parts, Extends env s env' s' → HasParts M.toInterp env' s' parts vs →
    (execMeaning M).wp (body parts) env' s' fun outs env'' s'' => Extends env' s' env'' s'' ∧
      ∃ ws, ws.length = 2 ∧ HasParts M.toInterp env'' s'' outs ws

/-- The upper lanes of both layers are copied from the first operand. -/
theorem wp_lowestLaneCode (hI : M.toInterp.IsVex F) {op : IROp} {l : Simd} (hllo : l.llo = true)
    (hl : Simd.valid ⟨l.fpsize, l.simdsize, false⟩ = true)
    (hty : (typeOfPrimop op).dst.isVector = true)
    (hsize : sizeofIRType (typeOfPrimop op).dst = l.fpsize * l.simdsize) {inputs : List IRExpr}
    {x lo hi : List Byte} {vs : List (List Byte)}
    {body : List IRExpr → Emit (List IRExpr)}
    (hv : HasVectors M.toInterp env s (l.fpsize * l.simdsize) inputs (x :: lo :: hi :: vs))
    (hbody : ComputesLayers M env s ((x :: lo :: hi :: vs).map fun v =>
      widenBytes M.zero l.fpsize (lane l.fpsize 0 v)) body) :
    (execMeaning M).wp (do
      let layers ← applyComponentwisely inputs 2 l.fpsize l.simdsize
        fun c => if l.llo && c ≠ 0 then copyBody else body
      reinterpretLayers op layers) env s fun outs _ s' =>
        ∃ eLo eHi, outs = [eLo, eHi] ∧ ∀ c, c ≠ 0 → c < l.simdsize →
          lane l.fpsize c (evalExpr M.toInterp s' eLo) = lane l.fpsize c lo ∧
          lane l.fpsize c (evalExpr M.toInterp s' eHi) = lane l.fpsize c hi := by
  set copied : ℕ → List (List Byte) := fun c => [widenBytes M.zero l.fpsize (lane l.fpsize c lo),
    widenBytes M.zero l.fpsize (lane l.fpsize c hi)] with hcopied
  -- The invariant: the lanes handled so far are copied, except for the lowest one.
  have hspec : ∀ c < l.simdsize, BodySpec M env s 2 l.fpsize (x :: lo :: hi :: vs)
      (fun us _ => ∀ c < us.length, c ≠ 0 → us[c]? = some (copied c))
      (fun c => if l.llo && c ≠ 0 then copyBody else body) c := by
    intro c hc
    apply bodySpec_llo
    · intro _ _
      apply bodySpec_copyBody (by simp)
      intro us _ hus hInv c' hc' hc0
      rw [List.length_append, List.length_singleton] at hc'
      rcases Nat.lt_succ_iff_lt_or_eq.mp hc' with hlt | rfl
      · rw [List.getElem?_append_left hlt]
        exact hInv c' hlt hc0
      · rw [List.getElem?_append_right (le_refl _), Nat.sub_self, hus]
        rfl
    · intro hc0 env' s' parts us hext hus _ hparts
      obtain rfl : c = 0 := hc0 hllo
      obtain rfl : us = [] := List.length_eq_zero_iff.mp hus
      apply wp_mono (hbody env' s' parts hext hparts)
      rintro outs env'' s'' ⟨hext', ws, hws, houts⟩
      refine ⟨hext', ws, hws, houts, ?_⟩
      intro c' hc' hc0'
      rw [List.nil_append, List.length_singleton] at hc'
      omega
  apply wp_mono (wp_layersCode hI hl hty hsize hv hspec (by simp))
  rintro outs env' s' ⟨-, us, eLo, eHi, hus, hInv, rfl, hLo, hHi⟩
  refine ⟨eLo, eHi, rfl, ?_⟩
  intro c hc0 hc
  have hget : us.getD c [] = copied c := by
    rw [List.getD_eq_getElem?_getD, hInv c (by rw [hus.length_eq]; exact hc) hc0]
    rfl
  obtain _ | ⟨-, _ | ⟨⟨_, hlo, -, hslo⟩, _ | ⟨⟨_, hhi, -, hshi⟩, -⟩⟩⟩ := hv
  have hlen : ∀ v : List Byte, v.length = l.fpsize * l.simdsize →
      (lane l.fpsize c v).length = l.fpsize :=
    fun v hv => length_lane (by rw [hv]; exact Nat.mul_le_mul_left _ hc)
  rw [hLo.eval, hHi.eval, hus.lane_assembled (by decide) hc, hus.lane_assembled (by decide) hc,
    hget]
  exact ⟨take_widenBytes (hlen lo (by rw [hlo.length, hslo])),
    take_widenBytes (hlen hi (by rw [hhi.length, hshi]))⟩

/-- Recording an operation. -/
theorem computesLayers_dgBarWriteToTape (hI : M.toInterp.IsVex F) (hM : M.Records) {o : Options}
    {vs : List (List Byte)} {body : List IRExpr → Emit (List IRExpr)}
    (hbody : ∀ parts, ∃ a b c d p q v, body parts = dgBarWriteToTape o a b c d p q v) :
    ComputesLayers M env s vs body := by
  intro env' s' parts _ _
  obtain ⟨a, b, c, d, p, q, v, heq⟩ := hbody parts
  rw [heq]
  apply wp_mono (wp_dgBarWriteToTape hI hM o a b c d p q v)
  rintro outs env'' s'' ⟨hext, _, r, -, -, -, houts⟩
  exact ⟨hext, _, rfl, houts⟩

/-- The test whether all flags are zero reads the components only. -/
theorem inBounds_allzero {n : ℕ} {f : ℕ → IRExpr} : ∀ {ms : List ℕ} {e : IRExpr},
    e.inBounds n 0 = true → (∀ m ∈ ms, (f m).inBounds n 0 = true) →
      (ms.foldl (fun e m => and1 e (isZero (f m) (some .i64))) e).inBounds n 0 = true := by
  intro ms
  induction ms with
  | nil => intro e he _; exact he
  | cons m ms ih =>
    intro e he h
    apply ih
    · simp only [and1, isZero, isZero.isZero64, IRExpr.inBounds, he, h m List.mem_cons_self]
      rfl
    · intro m' hm'
      exact h m' (List.mem_cons_of_mem m hm')

/-- Propagating flags. -/
theorem computesLayers_trickBody (hI : M.toInterp.IsVex F) (hM : M.Records) {nInputs : ℕ}
    (floatinputs : List ℕ) (fpsize : ℕ) {vs : List (List Byte)} (hvs : vs.length = 3 * nInputs) :
    ComputesLayers M env s vs (trickBody nInputs floatinputs false fpsize) := by
  intro env' s' parts _ hparts
  apply wp_bind
  apply wp_mono (wp_mapList_forall₂ Extends (fun _ _ _ _ => True) Extends.refl
    (fun h h' => h.trans h') (fun _ _ => trivial) ?_)
  · rintro - env'' s'' ⟨hext, -⟩
    have hzero := HasValue.const_u64 hI env'' s''
    have hones := HasValue.const hI env'' s'' (.u64 0xffffffffffffffff) rfl
    refine wp_bind (wp_pure (wp_pure ⟨hext, _, ?_, List.Forall₂.cons (HasValue.ite ?_ hzero hones)
      (List.Forall₂.cons hzero List.Forall₂.nil)⟩))
    · rfl
    · apply inBounds_allzero rfl
      intro m hm
      have hm : m < nInputs := List.mem_range.mp hm
      exact ((hparts.mono hext).getD (j := 3 * m + 1) (by omega)).fits
  · intro m _ env'' s'' _
    apply wp_addDirty hM.isTrue_true rfl
    exact ⟨(Extends.refl env'' s'').withTool _, trivial⟩

end Layers

/-! ### The table -/

/-- The numbers of the operands. -/
def operandNumbers (n : ℕ) : List ℕ := (List.range n).map (· + 1)

/-- What the entries of lowest-lane-only operations have in common. -/
structure IsLowestLaneInfo (op : IROp) (l : Simd) (info : IROpInfo) : Prop where
  entry : irOpInfo? op = some info
  llo : l.llo = true
  valid : Simd.valid ⟨l.fpsize, l.simdsize, false⟩ = true
  isVector : (typeOfPrimop op).dst.isVector = true
  size : sizeofIRType (typeOfPrimop op).dst = l.fpsize * l.simdsize
  operandCount : op.operandCount = 1 ∨ op.operandCount = 2
  diffinputs : info.diffinputs = operandNumbers op.operandCount
  trickinputs : info.trickinputs = operandNumbers op.operandCount
  barcode : ∀ o, ∃ partials value, (∀ partF, (partials partF).length = op.operandCount) ∧
    info.barcode o = createBarCode o op (operandNumbers op.operandCount) partials value l
  trickcode : ∃ floatinputs,
    info.trickcode = createTrickCode op (operandNumbers op.operandCount) floatinputs false l

/-- The lowest-lane-only operations. -/
theorem lowestLaneOnly_cases {op : IROp} {l : Simd} (h : op.lowestLaneOnly? = some l) :
    (∃ aop la, op = .arith aop la ∧ la.simd = l ∧ (la = .p32F0x4 ∨ la = .p64F0x2)) ∨
    (∃ la, op = .sqrt la ∧ la.simd = l ∧ (la = .p32F0x4 ∨ la = .p64F0x2)) ∨
    (∃ mop lm, op = .minMax mop lm ∧ lm.simd = l ∧ (lm = .p32F0x4 ∨ lm = .p64F0x2)) := by
  cases op with
  | arith aop la =>
    refine Or.inl ⟨aop, la, rfl, ?_⟩
    cases la <;> simp_all [IROp.lowestLaneOnly?, ArithLayout.simd]
  | sqrt la =>
    refine Or.inr (Or.inl ⟨la, rfl, ?_⟩)
    cases la <;> simp_all [IROp.lowestLaneOnly?, ArithLayout.simd]
  | minMax mop lm =>
    refine Or.inr (Or.inr ⟨mop, lm, rfl, ?_⟩)
    cases lm <;> simp_all [IROp.lowestLaneOnly?, MinMaxLayout.simd]
  | _ => cases h

theorem exists_isLowestLaneInfo {op : IROp} {l : Simd} (h : op.lowestLaneOnly? = some l) :
    ∃ info, IsLowestLaneInfo op l info := by
  rcases lowestLaneOnly_cases h with ⟨aop, la, rfl, rfl, hla⟩ | ⟨la, rfl, rfl, hla⟩ |
    ⟨mop, lm, rfl, rfl, hlm⟩
  · refine ⟨arithInfo aop la, ?_⟩
    have hlen : ∀ partF, (arithPartials aop partF).length = 2 := by intro; cases aop <;> rfl
    rcases hla with rfl | rfl <;>
      exact ⟨rfl, rfl, rfl, rfl, rfl, Or.inr rfl, rfl, rfl, fun _ => ⟨_, _, hlen, rfl⟩, _, rfl⟩
  · refine ⟨sqrtInfo la, ?_⟩
    rcases hla with rfl | rfl <;>
      exact ⟨rfl, rfl, rfl, rfl, rfl, Or.inl rfl, rfl, rfl, fun _ => ⟨_, _, fun _ => rfl, rfl⟩, _,
        rfl⟩
  · refine ⟨minMaxInfo mop lm, ?_⟩
    have hlen : ∀ partF, (minMaxPartials mop partF).length = 2 := by intro; cases mop <;> rfl
    rcases hlm with rfl | rfl <;>
      exact ⟨rfl, rfl, rfl, rfl, rfl, Or.inr rfl, rfl, rfl, fun _ => ⟨_, _, hlen, rfl⟩, _, rfl⟩

/-! ### All modes -/

section Modes

variable {M : Machine Byte T} {F : FpSem Byte} {env : List IRType} {s : State Byte T}
  {op : IROp} {l : Simd} {exprs : List IRExpr} {shadows : List Shadow}

theorem allFormed_some {n : ℕ} (h : shadows.length = n) :
    allFormed (numbered none (shadows.map some)) (operandNumbers n) = true := by
  subst h
  simp only [allFormed, operandNumbers, numbered, List.all_map, List.all_eq_true, List.mem_range]
  intro i hi
  simp [hi]

/-- One or two operands, and both layers of their shadows. -/
theorem VectorOperands.layers_cases {size n : ℕ} (hn : n = 1 ∨ n = 2)
    (h : VectorOperands M.toInterp env s size 2 n exprs shadows) :
    (n = 1 ∧ ∃ a lo hi, exprs = [a] ∧ shadows = [[lo, hi]]) ∨
    (n = 2 ∧ ∃ a₁ a₂ lo₁ hi₁ lo₂ hi₂, exprs = [a₁, a₂] ∧
      shadows = [[lo₁, hi₁], [lo₂, hi₂]]) := by
  obtain ⟨hexprs, hshadows, hlayers, -⟩ := h
  rcases hn with rfl | rfl
  · obtain ⟨a, rfl⟩ := List.length_eq_one_iff.mp hexprs
    obtain ⟨sh, rfl⟩ := List.length_eq_one_iff.mp hshadows
    obtain ⟨lo, hi, rfl⟩ := List.length_eq_two.mp (hlayers sh (by simp))
    exact Or.inl ⟨rfl, a, lo, hi, rfl, rfl⟩
  · obtain ⟨a₁, a₂, rfl⟩ := List.length_eq_two.mp hexprs
    obtain ⟨sh₁, sh₂, rfl⟩ := List.length_eq_two.mp hshadows
    obtain ⟨lo₁, hi₁, rfl⟩ := List.length_eq_two.mp (hlayers sh₁ (by simp))
    obtain ⟨lo₂, hi₂, rfl⟩ := List.length_eq_two.mp (hlayers sh₂ (by simp))
    exact Or.inr ⟨rfl, a₁, a₂, lo₁, hi₁, lo₂, hi₂, rfl, rfl⟩

/-- Expressions with known values. -/
theorem VectorOperands.hasVectors {size layers n : ℕ}
    (h : VectorOperands M.toInterp env s size layers n exprs shadows) {es : List IRExpr}
    (hes : ∀ e ∈ es, e ∈ exprs ++ shadows.flatten) :
    HasVectors M.toInterp env s size es (es.map (evalExpr M.toInterp s)) := by
  rw [HasVectors, List.forall₂_map_right_iff, List.forall₂_same]
  intro e he
  exact h.vector e (hes e he)

/-- Code with two layers copies the upper lanes. -/
theorem upperLanesKept_of_layers (hI : M.toInterp.IsVex F) {o : Options} {info : IROpInfo}
    (hinfo : IsLowestLaneInfo op l info) (hlayers : o.expressionhandling.layers = 2)
    (h : VectorOperands M.toInterp env s (l.fpsize * l.simdsize) 2 op.operandCount exprs shadows)
    (body : List IRExpr → Emit (List IRExpr))
    (hcode : o.expressionhandling.operation op (numbered .vecret exprs)
      (numbered none (shadows.map some)) = (do
        let layers ← (do
          let layers ← applyComponentwisely (layeredInputs (operandNumbers op.operandCount)
            (numbered .vecret exprs) (argLayer (numbered none (shadows.map some)) 0)
            (argLayer (numbered none (shadows.map some)) 1)) 2 l.fpsize l.simdsize
            fun c => if l.llo && c ≠ 0 then copyBody else body
          reinterpretLayers op layers)
        return some layers))
    (hbody : ∀ vs : List (List Byte), vs.length = 3 * op.operandCount →
      ComputesLayers M env s vs body) :
    UpperLanesKept M o op l env s exprs shadows := by
  -- the first operand comes first, with both layers of its shadow
  have hinputs : ∃ a lo hi es, layeredInputs (operandNumbers op.operandCount)
      (numbered .vecret exprs) (argLayer (numbered none (shadows.map some)) 0)
      (argLayer (numbered none (shadows.map some)) 1) = a :: lo :: hi :: es ∧
      shadows.headD [] = [lo, hi] ∧ (a :: lo :: hi :: es).length = 3 * op.operandCount ∧
      ∀ e ∈ a :: lo :: hi :: es, e ∈ exprs ++ shadows.flatten := by
    rcases h.layers_cases hinfo.operandCount with ⟨hn, a, lo, hi, rfl, rfl⟩ |
      ⟨hn, a₁, a₂, lo₁, hi₁, lo₂, hi₂, rfl, rfl⟩
    · rw [hn]
      exact ⟨a, lo, hi, [], rfl, rfl, rfl, by simp⟩
    · rw [hn]
      exact ⟨a₁, lo₁, hi₁, [a₂, lo₂, hi₂], rfl, rfl, rfl, by simp⟩
  obtain ⟨a, lo, hi, es, hinputs, hhead, hlen, hmem⟩ := hinputs
  rw [hinputs] at hcode
  have hv := h.hasVectors hmem
  have hwp := wp_lowestLaneCode hI hinfo.llo hinfo.valid hinfo.isVector hinfo.size hv
    (hbody _ (by simpa using hlen))
  obtain ⟨out, -, s', hrun, eLo, eHi, rfl, hlanes⟩ := exists_runEmit hwp
  refine ⟨[eLo, eHi], s', ?_, ?_⟩
  · rw [runOperation, hcode, runEmit_bind_pure, hrun]
    rfl
  · intro k hk c hc0 hc
    rw [hhead]
    rw [hlayers] at hk
    match k, hk with
    | 0, _ => exact (hlanes c hc0 hc).1
    | 1, _ => exact (hlanes c hc0 hc).2

theorem upperLanesKept_bar (hI : M.toInterp.IsVex F) (hM : M.Records) {o : Options}
    (hmode : o.mode = .b) {info : IROpInfo} (hinfo : IsLowestLaneInfo op l info)
    (h : VectorOperands M.toInterp env s (l.fpsize * l.simdsize) o.expressionhandling.layers
      op.operandCount exprs shadows) :
    UpperLanesKept M o op l env s exprs shadows := by
  have heh : o.expressionhandling = dgBarExpressionhandling o := by
    rw [Options.expressionhandling, hmode]
  rw [heh] at h
  obtain ⟨partials, value, hpartials, hbar⟩ := hinfo.barcode o
  have hlen : (operandNumbers op.operandCount).length = op.operandCount := by
    rw [operandNumbers, List.length_map, List.length_range]
  refine upperLanesKept_of_layers hI hinfo (by rw [heh]; rfl) h
    (barBody o op.operandCount l.fpsize partials value) ?_ ?_
  · rw [heh]
    show dgBarOperation o op _ _ = _
    rw [dgBarOperation]
    simp only [hinfo.entry]
    rw [hinfo.diffinputs, if_pos (allFormed_some h.length_shadows), hbar, createBarCode, hlen]
  · intro vs _
    apply computesLayers_dgBarWriteToTape hI hM
    intro parts
    have hparts := hpartials fun m => partAsF64 l.fpsize (inputParts parts m).1
    rcases hinfo.operandCount with hn | hn
    · rw [hn] at hparts ⊢
      obtain ⟨p, hp⟩ := List.length_eq_one_iff.mp hparts
      exact ⟨_, _, _, _, _, _, _, barBody_one hp⟩
    · rw [hn] at hparts ⊢
      obtain ⟨p, q, hp⟩ := List.length_eq_two.mp hparts
      exact ⟨_, _, _, _, _, _, _, barBody_two hp⟩

theorem upperLanesKept_trick (hI : M.toInterp.IsVex F) (hM : M.Records) {o : Options}
    (hmode : o.mode = .t) {info : IROpInfo} (hinfo : IsLowestLaneInfo op l info)
    (h : VectorOperands M.toInterp env s (l.fpsize * l.simdsize) o.expressionhandling.layers
      op.operandCount exprs shadows) :
    UpperLanesKept M o op l env s exprs shadows := by
  have heh : o.expressionhandling = dgTrickExpressionhandling := by
    rw [Options.expressionhandling, hmode]
  rw [heh] at h
  obtain ⟨floatinputs, htrick⟩ := hinfo.trickcode
  have hlen : (operandNumbers op.operandCount).length = op.operandCount := by
    rw [operandNumbers, List.length_map, List.length_range]
  refine upperLanesKept_of_layers hI hinfo (by rw [heh]; rfl) h
    (trickBody op.operandCount floatinputs false l.fpsize) ?_ ?_
  · rw [heh]
    show dgTrickOperation op _ _ = _
    rw [dgTrickOperation]
    simp only [hinfo.entry]
    rw [hinfo.diffinputs, hinfo.trickinputs, if_pos (allFormed_some h.length_shadows),
      allFormed_some h.length_shadows, htrick, createTrickCode, hlen, tlAssert_true_bind]
  · intro vs hvs
    exact computesLayers_trickBody hI hM floatinputs l.fpsize hvs

/-- The operands and dot values of minima and maxima. -/
theorem VectorOperands.dot_cases {size n : ℕ} (hn : n = 1 ∨ n = 2)
    (h : VectorOperands M.toInterp env s size 1 n exprs shadows) :
    (n = 1 ∧ ∃ a d, exprs = [a] ∧ shadows = [[d]]) ∨
    (n = 2 ∧ ∃ a₁ a₂ d₁ d₂, exprs = [a₁, a₂] ∧ shadows = [[d₁], [d₂]]) := by
  obtain ⟨hexprs, hshadows, hlayers, -⟩ := h
  rcases hn with rfl | rfl
  · obtain ⟨a, rfl⟩ := List.length_eq_one_iff.mp hexprs
    obtain ⟨sh, rfl⟩ := List.length_eq_one_iff.mp hshadows
    obtain ⟨d, rfl⟩ := List.length_eq_one_iff.mp (hlayers sh (by simp))
    exact Or.inl ⟨rfl, a, d, rfl, rfl⟩
  · obtain ⟨a₁, a₂, rfl⟩ := List.length_eq_two.mp hexprs
    obtain ⟨sh₁, sh₂, rfl⟩ := List.length_eq_two.mp hshadows
    obtain ⟨d₁, rfl⟩ := List.length_eq_one_iff.mp (hlayers sh₁ (by simp))
    obtain ⟨d₂, rfl⟩ := List.length_eq_one_iff.mp (hlayers sh₂ (by simp))
    exact Or.inr ⟨rfl, a₁, a₂, d₁, d₂, rfl, rfl⟩

/-- The first dot value is a vector. -/
theorem VectorOperands.keepsUpper {n : ℕ} {d : IRExpr}
    (h : VectorOperands M.toInterp env s (l.fpsize * l.simdsize) 1 n exprs shadows)
    (hd : d ∈ shadows.flatten) :
    KeepsUpper M.toInterp s l (evalExpr M.toInterp s d) d := by
  obtain ⟨ty, hv, -, hsize⟩ := h.vector d (List.mem_append_right exprs hd)
  exact ⟨by rw [hv.length, hsize], fun _ _ _ => rfl⟩

/-- Forward mode, for operations whose dot value is a single expression. -/
theorem upperLanesKept_of_keepsUpper {o : Options} (hmode : o.mode = .d) {e : IRExpr}
    (hcode : o.expressionhandling.operation op (numbered .vecret exprs)
      (numbered none (shadows.map some)) = pure (some [e]))
    (he : KeepsUpper M.toInterp s l (evalExpr M.toInterp s ((shadows.headD []).layer 0)) e) :
    UpperLanesKept M o op l env s exprs shadows := by
  refine ⟨[e], s, ?_, ?_⟩
  · rw [runOperation, hcode]
    rfl
  · intro k hk c hc0 hc
    have hlayers : o.expressionhandling.layers = 1 := by
      rw [Options.expressionhandling, hmode]
      rfl
    obtain rfl : k = 0 := by omega
    exact he.lanes c hc0 hc

/-- Forward mode, for arithmetic. -/
theorem upperLanesKept_arithDot (hI : M.toInterp.IsVex F) (hF : F.Sized) {o : Options}
    (hmode : o.mode = .d) (aop : ArithOp) {la : ArithLayout} (hla : la = .p32F0x4 ∨ la = .p64F0x2)
    (h : VectorOperands M.toInterp env s (la.simd.fpsize * la.simd.simdsize) 1 2 exprs shadows) :
    UpperLanesKept M o (.arith aop la) la.simd env s exprs shadows := by
  have heh : o.expressionhandling = dgDotExpressionhandling := by
    rw [Options.expressionhandling, hmode]
  obtain ⟨hn, -⟩ | ⟨-, a₁, a₂, d₁, d₂, rfl, rfl⟩ := h.dot_cases (Or.inr rfl)
  · cases hn
  have hkeep := h.keepsUpper (d := d₁) (by simp)
  have hllo : la.simd.llo = true := by rcases hla with rfl | rfl <;> rfl
  have hdot : KeepsUpper M.toInterp s la.simd (evalExpr M.toInterp s d₁)
      (arithDot aop la (numbered .vecret [a₁, a₂])
        (argLayer (numbered none [some [d₁], some [d₂]]) 0)) :=
    KeepsUpper.arithDot hI hF hllo hkeep aop
  refine upperLanesKept_of_keepsUpper hmode ?_ hdot
  rw [heh]
  rcases hla with rfl | rfl <;> rfl

/-- Forward mode, for square roots. -/
theorem upperLanesKept_sqrtDot (hI : M.toInterp.IsVex F) (hF : F.Sized) {o : Options}
    (hmode : o.mode = .d) {la : ArithLayout} (hla : la = .p32F0x4 ∨ la = .p64F0x2)
    (h : VectorOperands M.toInterp env s (la.simd.fpsize * la.simd.simdsize) 1 1 exprs shadows) :
    UpperLanesKept M o (.sqrt la) la.simd env s exprs shadows := by
  have heh : o.expressionhandling = dgDotExpressionhandling := by
    rw [Options.expressionhandling, hmode]
  obtain ⟨-, a, d, rfl, rfl⟩ | ⟨hn, -⟩ := h.dot_cases (Or.inl rfl)
  · have hkeep := h.keepsUpper (d := d) (by simp)
    have hllo : la.simd.llo = true := by rcases hla with rfl | rfl <;> rfl
    have hdot : KeepsUpper M.toInterp s la.simd (evalExpr M.toInterp s d)
        (sqrtDot la (numbered .vecret [a]) (argLayer (numbered none [some [d]]) 0)) :=
      KeepsUpper.sqrtDot hI hF hllo hkeep
    refine upperLanesKept_of_keepsUpper hmode ?_ hdot
    rw [heh]
    rcases hla with rfl | rfl <;> rfl
  · cases hn

/-- In all lanes but the lowest one, the dot value of the first operand is selected, or both
operands have the same dot value. -/
def FirstSelected (M : Machine Byte T) (mop : MinMaxOp) (lm : MinMaxLayout) (s : State Byte T)
    (exprs : List IRExpr) (shadows : List Shadow) : Prop :=
  ∀ c, c ≠ 0 → c < lm.simd.simdsize →
    mop.selectsFirst (lm.laneBits c (evalExpr M.toInterp s (exprs.getD 0 .vecret)))
        (lm.laneBits c (evalExpr M.toInterp s (exprs.getD 1 .vecret))) = true ∨
      lane lm.simd.fpsize c (evalExpr M.toInterp s ((shadows.getD 0 []).layer 0))
        = lane lm.simd.fpsize c (evalExpr M.toInterp s ((shadows.getD 1 []).layer 0))

/-- Forward mode, for minima and maxima. -/
theorem upperLanesKept_minMaxDot (hM : M.IsHost F) {o : Options} (hmode : o.mode = .d)
    (mop : MinMaxOp) (lm : MinMaxLayout)
    (h : VectorOperands M.toInterp env s (lm.simd.fpsize * lm.simd.simdsize) 1 2 exprs shadows) :
    UpperLanesKept M o (.minMax mop lm) lm.simd env s exprs shadows
      ↔ FirstSelected M mop lm s exprs shadows := by
  have heh : o.expressionhandling = dgDotExpressionhandling := by
    rw [Options.expressionhandling, hmode]
  obtain ⟨hn, -⟩ | ⟨-, a₁, a₂, d₁, d₂, rfl, rfl⟩ := h.dot_cases (Or.inr rfl)
  · cases hn
  have hv : HasVectors M.toInterp env s (lm.simd.fpsize * lm.simd.simdsize) [a₁, d₁, a₂, d₂] _ :=
    h.hasVectors (by simp)
  obtain ⟨out, -, s', hrun, e, v, rfl, heval, hlanes⟩ :=
    exists_runEmit (wp_minMaxDot hM mop lm hv)
  have hrun' : runOperation M o (.minMax mop lm) env s [a₁, a₂] [[d₁], [d₂]] = some (some [e], s') := by
    rw [runOperation, heh]
    exact hrun
  -- in each lane, the value is one of both dot values
  have hlane : ∀ c < lm.simd.simdsize,
      (lane lm.simd.fpsize c (evalExpr M.toInterp s' e)
        = lane lm.simd.fpsize c (evalExpr M.toInterp s d₁)) ↔
      (mop.selectsFirst (lm.laneBits c (evalExpr M.toInterp s a₁))
          (lm.laneBits c (evalExpr M.toInterp s a₂)) = true ∨
        lane lm.simd.fpsize c (evalExpr M.toInterp s d₁)
          = lane lm.simd.fpsize c (evalExpr M.toInterp s d₂)) := by
    intro c hc
    rw [heval, hlanes c hc]
    cases mop.selectsFirst (lm.laneBits c (evalExpr M.toInterp s a₁))
      (lm.laneBits c (evalExpr M.toInterp s a₂)) <;> simp [eq_comm]
  constructor
  · rintro ⟨shadow, s'', hrun'', hkept⟩ c hc0 hc
    rw [hrun', Option.some_inj, Prod.mk.injEq, Option.some_inj] at hrun''
    obtain ⟨rfl, rfl⟩ := hrun''
    exact (hlane c hc).mp (hkept 0 (by rw [heh]; decide) c hc0 hc)
  · intro hsel
    refine ⟨[e], s', hrun', ?_⟩
    intro k hk c hc0 hc
    obtain rfl : k = 0 := by
      rw [heh] at hk
      exact Nat.lt_one_iff.mp hk
    exact (hlane c hc).mpr (hsel c hc0 hc)

/-- The shadow of the upper lanes is copied, except that forward mode does not copy it for
minima and maxima where it selects the second operand. -/
theorem upperLanesKept_iff (hM : M.IsHost F) (hF : F.Sized) (o : Options)
    (hop : op.lowestLaneOnly? = some l)
    (h : VectorOperands M.toInterp env s (l.fpsize * l.simdsize) o.expressionhandling.layers
      op.operandCount exprs shadows) :
    UpperLanesKept M o op l env s exprs shadows ↔
      (o.mode = .d → ∀ mop lm, op = .minMax mop lm → FirstSelected M mop lm s exprs shadows) := by
  obtain ⟨info, hinfo⟩ := exists_isLowestLaneInfo hop
  have hF' : F.host.Sized := ⟨hF.arith⟩
  cases hmode : o.mode with
  | b => exact iff_of_true (upperLanesKept_bar hM.isVex hM.records hmode hinfo h) (by simp)
  | t => exact iff_of_true (upperLanesKept_trick hM.isVex hM.records hmode hinfo h) (by simp)
  | d =>
    have hlayers : o.expressionhandling.layers = 1 := by
      rw [Options.expressionhandling, hmode]
      rfl
    rw [hlayers] at h
    rcases lowestLaneOnly_cases hop with ⟨aop, la, rfl, rfl, hla⟩ | ⟨la, rfl, rfl, hla⟩ |
      ⟨mop, lm, rfl, rfl, -⟩
    · exact iff_of_true (upperLanesKept_arithDot hM.isVex hF' hmode aop hla h) (by simp)
    · exact iff_of_true (upperLanesKept_sqrtDot hM.isVex hF' hmode hla h) (by simp)
    · rw [upperLanesKept_minMaxDot hM hmode mop lm h]
      simp

end Modes

/-- Operands in temporaries. -/
theorem vectorOperands_doubles (x y xd yd : BitVec 64) (layers : ℕ) (ts : List IRTemp)
    (tss : List (List IRTemp)) (hlen : tss.length = ts.length) (hlayers : ∀ l ∈ tss, l.length = layers)
    (hts : ∀ t ∈ ts ++ tss.flatten, t < 8) :
    VectorOperands idleHost.toInterp (List.replicate 8 .v128)
      (State.ofTmps () (doubles x y xd yd)) 16 layers ts.length (ts.map .rdTmp)
      (tss.map (List.map .rdTmp)) where
  length_exprs := List.length_map _
  length_shadows := by rw [List.length_map, hlen]
  length_shadow := by
    intro shadow hshadow
    obtain ⟨l, hl, rfl⟩ := List.mem_map.mp hshadow
    rw [List.length_map, hlayers l hl]
  vector := by
    intro e he
    rw [← List.map_flatten, ← List.map_append] at he
    obtain ⟨t, ht, rfl⟩ := List.mem_map.mp he
    exact ⟨.v128, hasValue_doubles () x y xd yd (hts t ht), rfl, rfl⟩

/-- In recording mode, `Iop_Min64F0x2` copies the upper lane of both layers. -/
theorem upperLanesKept_iff_min_recording :
    UpperLanesKept idleHost ⟨.b, false, true⟩ (.minMax .min .p64F0x2) ⟨8, 2, true⟩
      (List.replicate 8 .v128) (State.ofTmps () (doubles f64One 0 f64One 0)) [.rdTmp 0, .rdTmp 1]
      [[.rdTmp 2, .rdTmp 4], [.rdTmp 3, .rdTmp 5]] :=
  (upperLanesKept_iff isHost_idleHost ⟨fun _ _ _ _ _ => List.length_replicate⟩ _ rfl
    (vectorOperands_doubles f64One 0 f64One 0 2 [0, 1] [[2, 4], [3, 5]] rfl (by decide)
      (by decide))).mpr (by intro h; cases h)

/-- In forward mode, `Iop_Min64F0x2` does not copy the upper lane, if the second operand has the
smaller number there. -/
theorem not_upperLanesKept_min :
    ¬UpperLanesKept idleHost ⟨.d, false, false⟩ (.minMax .min .p64F0x2) ⟨8, 2, true⟩
      (List.replicate 8 .v128) (State.ofTmps () (doubles f64One 0 f64One 0)) [.rdTmp 0, .rdTmp 1]
      [[.rdTmp 2], [.rdTmp 3]] := by
  intro h
  have hsel := (upperLanesKept_minMaxDot isHost_idleHost rfl .min .p64F0x2
    (vectorOperands_doubles f64One 0 f64One 0 1 [0, 1] [[2], [3]] rfl (by decide)
      (by decide))).mp h
  exact absurd (hsel 1 (by decide) (by decide)) (by decide)

end Derivgrind
