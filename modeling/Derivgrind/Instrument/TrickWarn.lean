import Derivgrind.Helpers.TrickTool
import Derivgrind.Instrument.LowestLane
import Derivgrind.Shadow.Calls

/-!
# Warnings of bit-trick-finding mode

Operations and x87 helper functions that use data as floating-point numbers have results
that are not discrete.  In front of that, the emitted code is supposed to warn if the
data are active and discrete.  There are three exceptions:

* For `Iop_F32toF64`, the flags are in the half that is not looked at.
* For `Iop_ScaleF64`, the second operand is not looked at.
* For loads of 80-bit numbers, the two most significant bytes are not looked at.

## Main definitions

* `Machine.Trick` — the machine calls the functions of bit-trick-finding mode.
* `TrickStep` — an operation, or an x87 load or store.
* `TrickStep.consumed` — the flags of the data that are used as floating-point numbers.
* `TrickStep.Meets` — the condition under which warnings are complete.

## Main results

* `trickStep_warns_iff` — **when warnings are complete.**
-/

namespace Derivgrind

open Emitter.Meaning

variable {F : FlexibleShadow BarLayer 64}

/-! ### The machine -/

/-- The machine calls the functions of bit-trick-finding mode. -/
structure Machine.Trick (M : Machine Byte (TrickTool F)) (fuel : ℕ) (Fp : FpSem Byte) : Prop where
  interp : ∃ rest, M.toInterp = hostInterp Fp rest
  warn : ∀ fLo fHi size buf t, (M.toolDirty .trickWarn [fLo, fHi, size] buf t).2
    = (buf, dgTrickWarnDirtyhelper (bitsOf 64 fLo) (bitsOf 64 fHi) (bitsOf 64 size) t)
  bitwise64 : ∀ op x xiLo xiHi y yiLo yiHi buf t,
    (M.toolDirty (.trickBitwise64 op) [x, xiLo, xiHi, y, yiLo, yiHi] buf t).2
      = (buf, op.trick64 (bitsOf 64 x) (bitsOf 64 xiLo) (bitsOf 64 xiHi) (bitsOf 64 y)
          (bitsOf 64 yiLo) (bitsOf 64 yiHi) t)
  bitwiseGetLower : ∀ buf t,
    M.toolDirty .trickBitwiseGetLower [] buf t = (bytesOf t.bitwiseGetLower, buf, t)
  bitwiseGetHigher : ∀ buf t,
    M.toolDirty .trickBitwiseGetHigher [] buf t = (bytesOf t.bitwiseGetHigher, buf, t)
  storeF80le : ∀ addr a64Lo a64Hi buf t t',
    dgTrickDirtyhelperStoreF80le F fuel (bitsOf 64 addr) (bitsOf 64 a64Lo) (bitsOf 64 a64Hi) t
      = some t' →
    (M.toolDirty .trickStoreF80le [addr, a64Lo, a64Hi] buf t).2 = (buf, t')
  loadF80leLo : ∀ addr buf t r, dgTrickDirtyhelperLoadF80leLo F fuel (bitsOf 64 addr) t = some r →
    M.toolDirty .trickLoadF80leLo [addr] buf t = (bytesOf r, buf, t)
  loadF80leHi : ∀ addr buf t r t',
    dgTrickDirtyhelperLoadF80leHi F fuel (bitsOf 64 addr) t = some (r, t') →
    M.toolDirty .trickLoadF80leHi [addr] buf t = (bytesOf r, buf, t')

/-- The calls of bit-trick-finding mode; other calls have no effect. -/
def trickDirty (F : FlexibleShadow BarLayer 64) (fuel : ℕ) :
    ToolHelper → List (List Byte) → (ℕ → Byte) → TrickTool F →
    List Byte × (ℕ → Byte) × TrickTool F
  | .trickWarn, [fLo, fHi, size], buf, t =>
      ([], buf, dgTrickWarnDirtyhelper (bitsOf 64 fLo) (bitsOf 64 fHi) (bitsOf 64 size) t)
  | .trickBitwise64 op, [x, xiLo, xiHi, y, yiLo, yiHi], buf, t =>
      ([], buf, op.trick64 (bitsOf 64 x) (bitsOf 64 xiLo) (bitsOf 64 xiHi) (bitsOf 64 y)
        (bitsOf 64 yiLo) (bitsOf 64 yiHi) t)
  | .trickBitwiseGetLower, [], buf, t => (bytesOf t.bitwiseGetLower, buf, t)
  | .trickBitwiseGetHigher, [], buf, t => (bytesOf t.bitwiseGetHigher, buf, t)
  | .trickStoreF80le, [addr, a64Lo, a64Hi], buf, t =>
      ([], buf, (dgTrickDirtyhelperStoreF80le F fuel (bitsOf 64 addr) (bitsOf 64 a64Lo)
        (bitsOf 64 a64Hi) t).getD t)
  | .trickLoadF80leLo, [addr], buf, t =>
      (((dgTrickDirtyhelperLoadF80leLo F fuel (bitsOf 64 addr) t).map bytesOf).getD [], buf, t)
  | .trickLoadF80leHi, [addr], buf, t =>
      let r := (dgTrickDirtyhelperLoadF80leHi F fuel (bitsOf 64 addr) t).getD (0, t)
      (bytesOf r.1, buf, r.2)
  | _, _, buf, t => (List.replicate 8 0, buf, t)

/-- A machine in bit-trick-finding mode. -/
def Machine.trick (F : FlexibleShadow BarLayer 64) (fuel : ℕ) (Fp : FpSem Byte)
    (rest : Interp Byte) (guestSize : ℕ) : Machine Byte (TrickTool F) where
  toInterp := hostInterp Fp rest
  guestSize := guestSize
  guestDirty _ _ reg mem := (List.replicate 8 0, reg, mem)
  toolDirty := trickDirty F fuel
  skipped := []
  storeSucceeds _ _ _ := true
  flag ok := [if ok then 1 else 0]

theorem Machine.trick_spec (F : FlexibleShadow BarLayer 64) (fuel : ℕ) (Fp : FpSem Byte)
    (rest : Interp Byte) (guestSize : ℕ) :
    (Machine.trick F fuel Fp rest guestSize).Trick fuel Fp where
  interp := ⟨rest, rfl⟩
  warn _ _ _ _ _ := rfl
  bitwise64 _ _ _ _ _ _ _ _ _ := rfl
  bitwiseGetLower _ _ := rfl
  bitwiseGetHigher _ _ := rfl
  storeF80le addr a64Lo a64Hi buf t t' h := by
    simp only [Machine.trick, trickDirty, h, Option.getD_some]
  loadF80leLo addr buf t r h := by
    simp only [Machine.trick, trickDirty, h, Option.map_some, Option.getD_some]
  loadF80leHi addr buf t r t' h := by
    simp only [Machine.trick, trickDirty, h, Option.getD_some]

namespace Machine.Trick

variable {M : Machine Byte (TrickTool F)} {fuel : ℕ} {Fp : FpSem Byte}

theorem isVex (hM : M.Trick fuel Fp) : M.toInterp.IsVex Fp.host := by
  obtain ⟨rest, hrest⟩ := hM.interp
  rw [hrest]
  exact isVex_hostInterp Fp rest

theorem zero (hM : M.Trick fuel Fp) : M.zero = 0 := by
  obtain ⟨rest, hrest⟩ := hM.interp
  rw [hrest]
  rfl

theorem const (hM : M.Trick fuel Fp) (con : IRConst) : M.const con = hostConst con := by
  obtain ⟨rest, hrest⟩ := hM.interp
  rw [hrest]
  rfl

theorem isTrue_true (hM : M.Trick fuel Fp) : M.isTrue (M.const (.u1 true)) = true := by
  obtain ⟨rest, hrest⟩ := hM.interp
  rw [hrest]
  simp only [hostInterp]
  decide

end Machine.Trick

/-! ### Warnings for one component -/

/-- The flags of a component are looked at. -/
theorem reported_lane {fpsize : ℕ} (hfp : fpsize = 4 ∨ fpsize = 8) {x y : List Byte}
    (hx : x.length = fpsize) (hy : y.length = fpsize) :
    reported (bitsOf 64 (widenBytes 0 fpsize x)) (bitsOf 64 (widenBytes 0 fpsize y))
      (BitVec.ofNat 64 fpsize) ≠ [] ↔ ActiveDiscrete (bytesToNat x) (bytesToNat y) := by
  rw [bitsOf_widenBytes, bitsOf_widenBytes]
  rcases hfp with rfl | rfl
  · have hwiden : ∀ v : List Byte, v.length = 4 → bitsOf 64 v = (bitsOf 32 v).setWidth 64 := by
      intro v hv
      apply BitVec.eq_of_toNat_eq
      rw [BitVec.toNat_setWidth_of_le (by decide), toNat_bitsOf (by omega),
        toNat_bitsOf (by omega)]
    have h := reported_four (bitsOf 32 x) (bitsOf 32 y)
    rwa [← hwiden x hx, ← hwiden y hy, toNat_bitsOf (by omega), toNat_bitsOf (by omega)] at h
  · have h := reported_eight (bitsOf 64 x) (bitsOf 64 y)
    rwa [toNat_bitsOf (by omega), toNat_bitsOf (by omega)] at h

section Rules

variable {M : Machine Byte (TrickTool F)} {fuel : ℕ} {Fp : FpSem Byte} {env : List IRType}
  {s : State Byte (TrickTool F)}

/-- Call the function that warns. -/
theorem wp_dgTrickWarn (hM : M.Trick fuel Fp) (h0 : s.tool.disable = 0) {fpsize : ℕ}
    {eLo eHi : IRExpr} {vLo vHi : List Byte} (hLo : evalExpr M.toInterp s eLo = vLo)
    (hHi : evalExpr M.toInterp s eHi = vHi) :
    (execMeaning M).wp (dgTrickWarn fpsize eLo eHi) env s fun _ env' s' =>
      env' = env ∧ Extends env s env' s' ∧ s.tool.Checks s'.tool
        (reported (bitsOf 64 vLo) (bitsOf 64 vHi) (BitVec.ofNat 64 fpsize) ≠ []) := by
  have hargs : evalExprs M.toInterp s [eLo, eHi, .const (.u64 (BitVec.ofNat 64 fpsize))]
      = [vLo, vHi, bytesOf (BitVec.ofNat 64 fpsize)] := by
    simp only [evalExprs, evalExpr, hLo, hHi, hM.const, hostConst]
  refine wp_addDirty_snd hM.isTrue_true hargs (hM.warn _ _ _ _ _) ?_
  rw [bitsOf_bytesOf (by decide)]
  exact ⟨rfl, (Extends.refl env s).withTool _, _, dgTrickWarnDirtyhelper_reports _ _ _ h0,
    Iff.rfl⟩

/-- The warnings of `createTrickCode` for one component. -/
theorem wp_dgTrickWarns (hM : M.Trick fuel Fp) (h0 : s.tool.disable = 0) {fpsize : ℕ}
    (hfp : fpsize = 4 ∨ fpsize = 8) {fLo fHi : ℕ → IRExpr} (xs ys : ℕ → List Byte) (ms : List ℕ)
    (hLo : ∀ m ∈ ms, HasValue M.toInterp env s (fLo m) .i64 (widenBytes 0 fpsize (xs m)) ∧
      (xs m).length = fpsize)
    (hHi : ∀ m ∈ ms, HasValue M.toInterp env s (fHi m) .i64 (widenBytes 0 fpsize (ys m)) ∧
      (ys m).length = fpsize) :
    (execMeaning M).wp (Emitter.mapList (fun m => dgTrickWarn fpsize (fLo m) (fHi m)) ms) env s
      fun _ env' s' => env' = env ∧ Extends env s env' s' ∧ s.tool.Checks s'.tool
        (∃ m ∈ ms, ActiveDiscrete (bytesToNat (xs m)) (bytesToNat (ys m))) := by
  induction ms generalizing s with
  | nil => exact wp_pure ⟨rfl, Extends.refl env s, (TrickTool.Checks.refl _).congr (by simp)⟩
  | cons m ms ih =>
    obtain ⟨hx, hlx⟩ := hLo m List.mem_cons_self
    obtain ⟨hy, hly⟩ := hHi m List.mem_cons_self
    apply wp_bind
    apply wp_mono (wp_dgTrickWarn hM h0 hx.eval hy.eval)
    rintro - env' s' ⟨rfl, hext, hcheck⟩
    apply wp_bind
    apply wp_mono (ih (hcheck.disable.trans h0)
      (fun m' hm' => ⟨(hLo m' (List.mem_cons_of_mem m hm')).1.mono hext,
        (hLo m' (List.mem_cons_of_mem m hm')).2⟩)
      (fun m' hm' => ⟨(hHi m' (List.mem_cons_of_mem m hm')).1.mono hext,
        (hHi m' (List.mem_cons_of_mem m hm')).2⟩))
    rintro - env'' s'' ⟨rfl, hext', hcheck'⟩
    refine wp_pure ⟨rfl, hext.trans hext', (hcheck.trans hcheck').congr ?_⟩
    rw [reported_lane hfp hlx hly]
    simp

/-! ### Warnings for all components -/

/-- Operands of the given types, and both layers of their flags. -/
structure FlaggedOperands (I : Interp Byte) (env : List IRType) (s : State Byte (TrickTool F))
    (tys : List IRType) (exprs : List IRExpr) (shadows : List Shadow) : Prop where
  exprs : List.Forall₂ (fun e ty => HasValue I env s e ty (evalExpr I s e)) exprs tys
  shadows : List.Forall₂ (fun sh ty => ∃ lo hi, sh = [lo, hi] ∧
    HasValue I env s lo ty (evalExpr I s lo) ∧ HasValue I env s hi ty (evalExpr I s hi)) shadows tys

/-- A layer of the flags of an operand. -/
def operandLayer (shadows : List Shadow) (k i : ℕ) : IRExpr :=
  argLayer (numbered none (shadows.map some)) k i

/-- The flags of a lane of an operand: which bits are active, and which bits are discrete. -/
def laneFlags (I : Interp Byte) (s : State Byte (TrickTool F)) (shadows : List Shadow)
    (fpsize c i : ℕ) : ℕ × ℕ :=
  (bytesToNat (lane fpsize c (evalExpr I s (operandLayer shadows 0 i))),
    bytesToNat (lane fpsize c (evalExpr I s (operandLayer shadows 1 i))))

namespace FlaggedOperands

variable {I : Interp Byte} {tys : List IRType} {exprs : List IRExpr} {shadows : List Shadow}
  {ty : IRType} {i : ℕ}

theorem expr (h : FlaggedOperands I env s tys exprs shadows) (hty : tys[i - 1]? = some ty) :
    HasValue I env s (numbered .vecret exprs i) ty
      (evalExpr I s (numbered .vecret exprs i)) := by
  obtain ⟨hlt, rfl⟩ := List.getElem?_eq_some_iff.mp hty
  have hlt' : i - 1 < exprs.length := by rw [h.exprs.length_eq]; exact hlt
  have hv := List.Forall₂.get h.exprs hlt' hlt
  rw [numbered, List.getD_eq_getElem _ _ hlt']
  exact hv

theorem shadow (h : FlaggedOperands I env s tys exprs shadows) (hty : tys[i - 1]? = some ty) :
    (numbered none (shadows.map some) i).isSome = true ∧ ∀ k < 2,
      HasValue I env s (operandLayer shadows k i) ty
        (evalExpr I s (operandLayer shadows k i)) := by
  obtain ⟨hlt, rfl⟩ := List.getElem?_eq_some_iff.mp hty
  have hlt' : i - 1 < shadows.length := by rw [h.shadows.length_eq]; exact hlt
  obtain ⟨lo, hi, hsh, hlo, hhi⟩ := List.Forall₂.get h.shadows hlt' hlt
  have hnum : numbered none (shadows.map some) i = some [lo, hi] := by
    rw [numbered, List.getD_eq_getElem _ _ (by rw [List.length_map]; exact hlt'), List.getElem_map]
    exact congrArg some hsh
  refine ⟨by rw [hnum]; rfl, ?_⟩
  intro k hk
  rw [operandLayer, argLayer, hnum]
  rcases Nat.lt_succ_iff_lt_or_eq.mp hk with h0 | rfl
  · obtain rfl : k = 0 := by omega
    exact hlo
  · exact hhi

theorem allFormed (h : FlaggedOperands I env s tys exprs shadows) {inputs : List ℕ}
    (hin : ∀ i ∈ inputs, ∃ ty, tys[i - 1]? = some ty) :
    allFormed (numbered none (shadows.map some)) inputs = true := by
  rw [Derivgrind.allFormed, List.all_eq_true]
  intro i hi
  obtain ⟨ty, hty⟩ := hin i hi
  exact (h.shadow hty).1

end FlaggedOperands

/-- The inputs are vectors of the given size. -/
def VectorInputs (tys : List IRType) (size : ℕ) (inputs : List ℕ) : Prop :=
  ∀ i ∈ inputs, ∃ ty, tys[i - 1]? = some ty ∧ ty.isVector = true ∧ sizeofIRType ty = size

theorem vectorInputs_of_all {tys : List IRType} {size : ℕ} {inputs : List ℕ}
    (h : (inputs.all fun i => (tys[i - 1]?.map fun ty =>
      ty.isVector && sizeofIRType ty = size).getD false) = true) :
    VectorInputs tys size inputs := by
  rw [List.all_eq_true] at h
  intro i hi
  have hi' := h i hi
  cases hty : tys[i - 1]? with
  | none => simp [hty] at hi'
  | some ty =>
    rw [hty, Option.map_some, Option.getD_some, Bool.and_eq_true, decide_eq_true_eq] at hi'
    exact ⟨ty, rfl, hi'⟩

section Operands

variable {tys : List IRType} {exprs : List IRExpr} {shadows : List Shadow} {inputs : List ℕ}

/-- The values of the inputs, and of both layers of their flags. -/
def layeredValues (I : Interp Byte) (s : State Byte (TrickTool F)) (exprs : List IRExpr)
    (shadows : List Shadow) (inputs : List ℕ) : List (List Byte) :=
  inputs.flatMap fun i => [evalExpr I s (numbered .vecret exprs i),
    evalExpr I s (operandLayer shadows 0 i), evalExpr I s (operandLayer shadows 1 i)]

theorem hasVectors_layeredInputs {I : Interp Byte} {size : ℕ}
    (h : FlaggedOperands I env s tys exprs shadows) (hin : VectorInputs tys size inputs) :
    HasVectors I env s size (layeredInputs inputs (numbered .vecret exprs)
      (operandLayer shadows 0) (operandLayer shadows 1))
      (layeredValues I s exprs shadows inputs) := by
  induction inputs with
  | nil => exact List.Forall₂.nil
  | cons i inputs ih =>
    obtain ⟨ty, hty, hvec, hsize⟩ := hin i List.mem_cons_self
    have hsh := (h.shadow hty).2
    exact List.Forall₂.cons ⟨ty, h.expr hty, hvec, hsize⟩
      (List.Forall₂.cons ⟨ty, hsh 0 (by decide), hvec, hsize⟩
        (List.Forall₂.cons ⟨ty, hsh 1 (by decide), hvec, hsize⟩
          (ih fun j hj => hin j (List.mem_cons_of_mem i hj))))

/-- The positions of both layers. -/
theorem getD_layeredValues {I : Interp Byte} {m : ℕ} (hm : m < inputs.length) :
    (layeredValues I s exprs shadows inputs).getD (3 * m + 1) []
        = evalExpr I s (operandLayer shadows 0 inputs[m]) ∧
      (layeredValues I s exprs shadows inputs).getD (3 * m + 2) []
        = evalExpr I s (operandLayer shadows 1 inputs[m]) := by
  induction inputs generalizing m with
  | nil => exact absurd hm (Nat.not_lt_zero m)
  | cons i inputs ih =>
    cases m with
    | zero => exact ⟨rfl, rfl⟩
    | succ m => exact ih (Nat.lt_of_succ_lt_succ hm)

theorem length_layeredValues (I : Interp Byte) (s : State Byte (TrickTool F))
    (exprs : List IRExpr) (shadows : List Shadow) (inputs : List ℕ) :
    (layeredValues I s exprs shadows inputs).length = 3 * inputs.length := by
  induction inputs with
  | nil => rfl
  | cons i inputs ih =>
    rw [layeredValues, List.flatMap_cons, List.length_append, List.length_cons]
    rw [layeredValues] at ih
    rw [ih]
    simp only [List.length_cons, List.length_nil]
    omega

/-- Some lane of the inputs is active and discrete, among those that are computed. -/
def ActiveDiscreteLane (I : Interp Byte) (s : State Byte (TrickTool F)) (shadows : List Shadow)
    (fpsize n : ℕ) (inputs : List ℕ) : Prop :=
  ∃ c < n, ∃ i ∈ inputs, ActiveDiscrete (laneFlags I s shadows fpsize c i).1
    (laneFlags I s shadows fpsize c i).2

/-- The code of `createTrickCode` for one component: it warns if the component of some input
is active and discrete. -/
theorem wp_trickBody (hM : M.Trick fuel Fp) {l : Simd} {c : ℕ}
    (hfp : l.fpsize = 4 ∨ l.fpsize = 8) (hc : c < l.simdsize)
    (h : FlaggedOperands M.toInterp env s tys exprs shadows)
    (hin : VectorInputs tys (l.fpsize * l.simdsize) inputs) {env' : List IRType}
    {s' : State Byte (TrickTool F)} {parts : List IRExpr} (h0 : s'.tool.disable = 0)
    (hparts : HasParts M.toInterp env' s' parts ((layeredValues M.toInterp s exprs shadows
      inputs).map fun v => widenBytes M.zero l.fpsize (lane l.fpsize c v))) :
    (execMeaning M).wp (trickBody inputs.length (List.range inputs.length) false l.fpsize parts)
      env' s' fun outs env'' s'' => Extends env' s' env'' s'' ∧ (∃ ws, ws.length = 2 ∧
        HasParts M.toInterp env'' s'' outs ws) ∧ s'.tool.Checks s''.tool
          (∃ i ∈ inputs, ActiveDiscrete (laneFlags M.toInterp s shadows l.fpsize c i).1
            (laneFlags M.toInterp s shadows l.fpsize c i).2) := by
  have hlen := length_layeredValues M.toInterp s exprs shadows inputs
  -- For each input there are three parts: the value and both layers of flags.
  have hpart : ∀ j < 3 * inputs.length, HasValue M.toInterp env' s' (parts.getD j .vecret) .i64
      (widenBytes 0 l.fpsize
        (lane l.fpsize c ((layeredValues M.toInterp s exprs shadows inputs).getD j []))) := by
    intro j hj
    have hj' : j < (layeredValues M.toInterp s exprs shadows inputs).length := by
      rw [hlen]
      exact hj
    have hv := hparts.getD (j := j) (by rw [List.length_map]; exact hj')
    simpa [List.getD_eq_getElem?_getD, List.getElem?_map, hj', hM.zero] using hv
  have hlane : ∀ k < 2, ∀ m < inputs.length,
      (lane l.fpsize c (evalExpr M.toInterp s (operandLayer shadows k (inputs.getD m 0)))).length
        = l.fpsize := by
    intro k hk m hm
    rw [List.getD_eq_getElem _ _ hm]
    obtain ⟨ty, hty, -, hsize⟩ := hin inputs[m] (List.getElem_mem hm)
    refine length_lane ?_
    rw [((h.shadow hty).2 k hk).length, hsize]
    exact Nat.mul_le_mul_left _ hc
  apply wp_bind
  -- The warnings come first, then the flags of the result are put together.
  apply wp_mono (wp_dgTrickWarns hM h0 hfp
    (fun m => lane l.fpsize c (evalExpr M.toInterp s (operandLayer shadows 0 (inputs.getD m 0))))
    (fun m => lane l.fpsize c (evalExpr M.toInterp s (operandLayer shadows 1 (inputs.getD m 0))))
    (List.range inputs.length) ?_ ?_)
  · rintro - env'' s'' ⟨rfl, hext, hcheck⟩
    have hzero := HasValue.const_u64 hM.isVex env'' s''
    have hones := HasValue.const hM.isVex env'' s'' (.u64 0xffffffffffffffff) rfl
    refine wp_bind (wp_pure (wp_pure ⟨hext, ⟨_, ?_, List.Forall₂.cons (HasValue.ite ?_ hzero hones)
      (List.Forall₂.cons hzero List.Forall₂.nil)⟩, hcheck.congr ?_⟩))
    · rfl
    · apply inBounds_allzero rfl
      intro m hm
      have hm : m < inputs.length := List.mem_range.mp hm
      exact (hpart (3 * m + 1) (by omega)).fits
    · constructor
      · rintro ⟨m, hm, hact⟩
        have hm : m < inputs.length := List.mem_range.mp hm
        rw [List.getD_eq_getElem _ _ hm] at hact
        exact ⟨inputs[m], List.getElem_mem hm, hact⟩
      · rintro ⟨i, hi, hact⟩
        obtain ⟨m, hm, rfl⟩ := List.getElem_of_mem hi
        refine ⟨m, List.mem_range.mpr hm, ?_⟩
        rw [List.getD_eq_getElem _ _ hm]
        exact hact
  · intro m hm
    have hm : m < inputs.length := List.mem_range.mp hm
    refine ⟨?_, hlane 0 (by decide) m hm⟩
    have hv := hpart (3 * m + 1) (by omega)
    rwa [(getD_layeredValues hm).1, ← List.getD_eq_getElem _ 0 hm] at hv
  · intro m hm
    have hm : m < inputs.length := List.mem_range.mp hm
    refine ⟨?_, hlane 1 (by decide) m hm⟩
    have hv := hpart (3 * m + 2) (by omega)
    rwa [(getD_layeredValues hm).2, ← List.getD_eq_getElem _ 0 hm] at hv

/-- The lanes handled so far have been looked at. -/
theorem activeDiscreteLane_succ {I : Interp Byte} {fpsize n : ℕ} :
    ActiveDiscreteLane I s shadows fpsize (n + 1) inputs ↔
      ActiveDiscreteLane I s shadows fpsize n inputs ∨
        ∃ i ∈ inputs, ActiveDiscrete (laneFlags I s shadows fpsize n i).1
          (laneFlags I s shadows fpsize n i).2 := by
  constructor
  · rintro ⟨c, hc, hact⟩
    rcases Nat.lt_succ_iff_lt_or_eq.mp hc with hlt | rfl
    · exact .inl ⟨c, hlt, hact⟩
    · exact .inr hact
  · rintro (⟨c, hc, hact⟩ | hact)
    · exact ⟨c, Nat.lt_succ_of_lt hc, hact⟩
    · exact ⟨n, Nat.lt_succ_self n, hact⟩

/-- **The code of `createTrickCode`** warns if a lane that is computed is active and
discrete in some input. -/
theorem wp_createTrickCode (hM : M.Trick fuel Fp) (h0 : s.tool.disable = 0) {op : IROp} {l : Simd}
    (hl : Simd.valid ⟨l.fpsize, l.simdsize, false⟩ = true)
    (hvec : (typeOfPrimop op).dst.isVector = true)
    (hsize : sizeofIRType (typeOfPrimop op).dst = l.fpsize * l.simdsize)
    (h : FlaggedOperands M.toInterp env s tys exprs shadows)
    (hin : VectorInputs tys (l.fpsize * l.simdsize) inputs) (hne : inputs ≠ []) :
    (execMeaning M).wp (createTrickCode op inputs (List.range inputs.length) false l
      (numbered .vecret exprs) (operandLayer shadows 0) (operandLayer shadows 1)) env s
      fun _ _ s' => s.tool.Checks s'.tool
        (ActiveDiscreteLane M.toInterp s shadows l.fpsize l.computedLanes inputs) := by
  have hfp : l.fpsize = 4 ∨ l.fpsize = 8 := by
    rcases Simd.valid_cases hl with ⟨hfp, -⟩ | ⟨hfp, -⟩
    · exact Or.inl hfp
    · exact Or.inr hfp
  have hlen : 3 ≤ (layeredValues M.toInterp s exprs shadows inputs).length := by
    rw [length_layeredValues]
    have hpos := List.length_pos_iff.mpr hne
    omega
  -- The invariant: after some lanes, those that are computed have been looked at.
  have hbody : ∀ c < l.simdsize, BodySpec M env s 2 l.fpsize
      (layeredValues M.toInterp s exprs shadows inputs)
      (fun us s' => s.tool.Checks s'.tool (ActiveDiscreteLane M.toInterp s shadows l.fpsize
        (min us.length l.computedLanes) inputs))
      (fun c => if l.llo && c ≠ 0 then copyBody
        else trickBody inputs.length (List.range inputs.length) false l.fpsize) c := by
    intro c hc
    apply bodySpec_llo
    · -- the other lanes of lowest-lane-only operations are copied
      intro hllo hc0
      apply bodySpec_copyBody hlen
      intro us s' hus hInv
      have hone : l.computedLanes = 1 := by rw [Simd.computedLanes, hllo]; rfl
      have hmin : min (us ++ [[widenBytes M.zero l.fpsize (lane l.fpsize c
          ((layeredValues M.toInterp s exprs shadows inputs).getD 1 [])),
          widenBytes M.zero l.fpsize (lane l.fpsize c
          ((layeredValues M.toInterp s exprs shadows inputs).getD 2 []))]]).length l.computedLanes
          = min us.length l.computedLanes := by
        rw [List.length_append, List.length_singleton, hone]
        omega
      rw [hmin]
      exact hInv
    · intro hllo env' s' parts us hext hus hInv hparts
      have hcomp : c < l.computedLanes := by
        rw [Simd.computedLanes]
        split
        · next hllo' => rw [hllo hllo']; exact Nat.one_pos
        · exact hc
      apply wp_mono (wp_trickBody hM hfp hc h hin (hInv.disable.trans h0) hparts)
      rintro outs env'' s'' ⟨hext', ⟨ws, hws, houts⟩, hcheck⟩
      refine ⟨hext', ws, hws, houts, (hInv.trans hcheck).congr ?_⟩
      have hmin : min us.length l.computedLanes = c := by omega
      have hmin' : min (us ++ [ws]).length l.computedLanes = c + 1 := by
        rw [List.length_append, List.length_singleton]
        omega
      rw [hmin, hmin', activeDiscreteLane_succ]
  have hInv : s.tool.Checks s.tool (ActiveDiscreteLane M.toInterp s shadows l.fpsize
      (min 0 l.computedLanes) inputs) :=
    (TrickTool.Checks.refl s.tool).congr (by simp [ActiveDiscreteLane])
  apply wp_mono (wp_layersCode hM.isVex hl hvec hsize (hasVectors_layeredInputs h hin) hbody hInv)
  rintro outs env' s' ⟨-, us, eLo, eHi, hus, hcheck, -⟩
  -- After all lanes, all computed lanes have been looked at.
  have hmin : min us.length l.computedLanes = l.computedLanes := by
    have hle : l.computedLanes ≤ l.simdsize := by
      rw [Simd.computedLanes]
      split
      · rcases Simd.valid_cases hl with ⟨-, hs⟩ | ⟨-, hs⟩ <;> omega
      · exact le_rfl
    rw [hus.length_eq]
    omega
  rwa [hmin] at hcheck

/-! ### Operations -/

/-- The operands that an operation uses as floating-point numbers, and their layout. -/
def IROp.floatOperands? : IROp → Option (List ℕ × Simd)
  | .arith _ l => some ([l.firstOperand, l.firstOperand + 1], l.simd)
  | .sqrt l => some ([l.sqrtOperand], l.simd)
  | .neg l => some ([1], l.simd)
  | .abs l => some ([1], l.simd)
  | .minMax _ l => some ([1, 2], l.simd)
  | .fma _ l => some ([2, 3, 4], l.simd)
  | .scaleF64 => some ([2, 3], ⟨8, 1, false⟩)
  | .yl2xF64 => some ([2, 3], ⟨8, 1, false⟩)
  | .yl2xp1F64 => some ([2, 3], ⟨8, 1, false⟩)
  | .f32toF64 => some ([1], ⟨4, 1, false⟩)
  | .f64toF32 => some ([2], ⟨8, 1, false⟩)
  | .zeroDeriv .roundF64toInt => some ([2], ⟨8, 1, false⟩)
  | _ => none

/-- The operands whose flags are looked at. -/
def IROp.checkedOperands (op : IROp) : List ℕ :=
  match op with
  | .scaleF64 => [2]
  | .f32toF64 => []
  | op => (op.floatOperands?.map Prod.fst).getD []

/-- What the entries whose code comes from `createTrickCode` have in common. -/
structure IsTrickInfo (op : IROp) (inputs : List ℕ) (l : Simd) (info : IROpInfo) : Prop where
  entry : irOpInfo? op = some info
  valid : Simd.valid ⟨l.fpsize, l.simdsize, false⟩ = true
  isVector : (typeOfPrimop op).dst.isVector = true
  size : sizeofIRType (typeOfPrimop op).dst = l.fpsize * l.simdsize
  vectors : VectorInputs (typeOfPrimop op).args (l.fpsize * l.simdsize) inputs
  nonempty : inputs ≠ []
  diffinputs : info.diffinputs = inputs
  trickinputs : info.trickinputs = inputs
  trickcode : info.trickcode = createTrickCode op inputs (List.range inputs.length) false l

theorem exists_isTrickInfo {op : IROp} {is : List ℕ} {l : Simd}
    (h : op.floatOperands? = some (is, l)) :
    (∃ info, IsTrickInfo op op.checkedOperands l info) ∨ op = .f32toF64 ∨ op = .f64toF32 ∨
      op = .zeroDeriv .roundF64toInt := by
  cases op with
  | arith aop la =>
    obtain ⟨rfl, rfl⟩ := Prod.mk.inj (Option.some_inj.mp h)
    refine .inl ⟨arithInfo aop la, ?_⟩
    cases la <;> exact ⟨rfl, rfl, rfl, rfl, vectorInputs_of_all rfl, List.cons_ne_nil _ _, rfl,
      rfl, rfl⟩
  | sqrt la =>
    obtain ⟨rfl, rfl⟩ := Prod.mk.inj (Option.some_inj.mp h)
    refine .inl ⟨sqrtInfo la, ?_⟩
    cases la <;> exact ⟨rfl, rfl, rfl, rfl, vectorInputs_of_all rfl, List.cons_ne_nil _ _, rfl,
      rfl, rfl⟩
  | neg la =>
    obtain ⟨rfl, rfl⟩ := Prod.mk.inj (Option.some_inj.mp h)
    refine .inl ⟨negInfo la, ?_⟩
    cases la <;> exact ⟨rfl, rfl, rfl, rfl, vectorInputs_of_all rfl, List.cons_ne_nil _ _, rfl,
      rfl, rfl⟩
  | abs la =>
    obtain ⟨rfl, rfl⟩ := Prod.mk.inj (Option.some_inj.mp h)
    refine .inl ⟨absInfo la, ?_⟩
    cases la <;> exact ⟨rfl, rfl, rfl, rfl, vectorInputs_of_all rfl, List.cons_ne_nil _ _, rfl,
      rfl, rfl⟩
  | minMax mop la =>
    obtain ⟨rfl, rfl⟩ := Prod.mk.inj (Option.some_inj.mp h)
    refine .inl ⟨minMaxInfo mop la, ?_⟩
    cases la <;> exact ⟨rfl, rfl, rfl, rfl, vectorInputs_of_all rfl, List.cons_ne_nil _ _, rfl,
      rfl, rfl⟩
  | fma sub la =>
    obtain ⟨rfl, rfl⟩ := Prod.mk.inj (Option.some_inj.mp h)
    refine .inl ⟨fmaInfo sub la, ?_⟩
    cases la <;> exact ⟨rfl, rfl, rfl, rfl, vectorInputs_of_all rfl, List.cons_ne_nil _ _, rfl,
      rfl, rfl⟩
  | scaleF64 =>
    obtain ⟨rfl, rfl⟩ := Prod.mk.inj (Option.some_inj.mp h)
    exact .inl ⟨scaleInfo, rfl, rfl, rfl, rfl, vectorInputs_of_all rfl, List.cons_ne_nil _ _, rfl,
      rfl, rfl⟩
  | yl2xF64 =>
    obtain ⟨rfl, rfl⟩ := Prod.mk.inj (Option.some_inj.mp h)
    exact .inl ⟨_, rfl, rfl, rfl, rfl, vectorInputs_of_all rfl, List.cons_ne_nil _ _, rfl,
      rfl, rfl⟩
  | yl2xp1F64 =>
    obtain ⟨rfl, rfl⟩ := Prod.mk.inj (Option.some_inj.mp h)
    exact .inl ⟨_, rfl, rfl, rfl, rfl, vectorInputs_of_all rfl, List.cons_ne_nil _ _, rfl,
      rfl, rfl⟩
  | f32toF64 => exact .inr (.inl rfl)
  | f64toF32 => exact .inr (.inr (.inl rfl))
  | zeroDeriv zop =>
    cases zop with
    | roundF64toInt => exact .inr (.inr (.inr rfl))
    | _ => cases h
  | _ => cases h

theorem wp_dgTrickOperation {op : IROp} {info : IROpInfo} (hentry : irOpInfo? op = some info)
    (hdiff : allFormed (numbered none (shadows.map some)) info.diffinputs = true)
    (htrick : allFormed (numbered none (shadows.map some)) info.trickinputs = true)
    {Q : State Byte (TrickTool F) → Prop}
    (h : (execMeaning M).wp (info.trickcode (numbered .vecret exprs) (operandLayer shadows 0)
      (operandLayer shadows 1)) env s fun _ _ s' => Q s') :
    (execMeaning M).wp (dgTrickOperation op (numbered .vecret exprs)
      (numbered none (shadows.map some))) env s fun _ _ s' => Q s' := by
  rw [dgTrickOperation, hentry]
  show (execMeaning M).wp (if _ then _ else _) env s _
  rw [if_pos hdiff, htrick, tlAssert_true_bind]
  apply wp_bind
  apply wp_mono h
  intro layers env' s' hQ
  exact wp_pure hQ

/-- The lower four bytes of the flags for `Iop_F32toF64` are zero. -/
theorem reported_four_shifted (x y : List Byte) :
    reported (bitsOf 64 (List.replicate 4 0 ++ x)) (bitsOf 64 (List.replicate 4 0 ++ y)) 4#64
      = [] := by
  have hshift : bytesToNat (List.replicate 4 0 ++ y) = 2 ^ 32 * bytesToNat y := by
    show (0 : Byte).toNat + 256 * ((0 : Byte).toNat + 256 * ((0 : Byte).toNat + 256 *
      ((0 : Byte).toNat + 256 * bytesToNat y))) = _
    have hzero : (0 : Byte).toNat = 0 := rfl
    rw [hzero]
    omega
  have hmask : bitsOf 64 (List.replicate 4 0 ++ y) &&& warnMask 4#64 = 0#64 := by
    apply BitVec.eq_of_toNat_eq
    have hones : (warnMask 4#64).toNat = 2 ^ 32 - 1 := by decide
    rw [BitVec.toNat_and, hones, Nat.and_two_pow_sub_one_eq_mod, bitsOf, BitVec.toNat_ofNat, hshift]
    show _ = 0
    omega
  rw [reported, BitVec.and_assoc, hmask, BitVec.and_zero, if_neg (by simp)]

/-- Code that looks at the flags of one number. -/
theorem wp_warn8 (hM : M.Trick fuel Fp) (h0 : s.tool.disable = 0) {i : ℕ}
    (h : FlaggedOperands M.toInterp env s tys exprs shadows) (hty : tys[i - 1]? = some .f64) :
    (execMeaning M).wp (dgTrickWarn 8 (.unop (.unMove .reinterpF64asI64) (operandLayer shadows 0 i))
      (.unop (.unMove .reinterpF64asI64) (operandLayer shadows 1 i))) env s fun _ env' s' =>
        env' = env ∧ Extends env s env' s' ∧
          s.tool.Checks s'.tool (ActiveDiscreteLane M.toInterp s shadows 8 1 [i]) := by
  have hLo := (h.shadow hty).2 0 (by decide)
  have hHi := (h.shadow hty).2 1 (by decide)
  have hlane : ∀ {v : List Byte}, v.length = 8 → lane 8 0 v = v := by
    intro v hv
    rw [lane, Nat.mul_zero, List.drop_zero, List.take_of_length_le (by omega)]
  apply wp_mono (wp_dgTrickWarn hM h0 (hLo.reinterpret hM.isVex (.unMove .reinterpF64asI64) rfl).eval
    (hHi.reinterpret hM.isVex (.unMove .reinterpF64asI64) rfl).eval)
  rintro - env' s' ⟨rfl, hext, hcheck⟩
  refine ⟨rfl, hext, hcheck.congr ((reported_lane (.inr rfl) hLo.length hHi.length).trans ?_)⟩
  simp only [ActiveDiscreteLane, laneFlags, Nat.lt_one_iff, List.mem_singleton, exists_eq_left,
    hlane hLo.length, hlane hHi.length]

/-- **Operations on floating-point numbers** warn if an operand that is looked at is active and
discrete in some lane. -/
theorem wp_floatOperation (hM : M.Trick fuel Fp) (h0 : s.tool.disable = 0) {op : IROp}
    {is : List ℕ} {l : Simd} (hop : op.floatOperands? = some (is, l))
    (h : FlaggedOperands M.toInterp env s (typeOfPrimop op).args exprs shadows) :
    (execMeaning M).wp (dgTrickOperation op (numbered .vecret exprs)
      (numbered none (shadows.map some))) env s fun _ _ s' => s.tool.Checks s'.tool
        (ActiveDiscreteLane M.toInterp s shadows l.fpsize l.computedLanes op.checkedOperands) := by
  rcases exists_isTrickInfo hop with ⟨info, hinfo⟩ | rfl | rfl | rfl
  · have hformed := h.allFormed fun i hi => (hinfo.vectors i hi).imp fun _ hty => hty.1
    refine wp_dgTrickOperation hinfo.entry (by rwa [hinfo.diffinputs])
      (by rwa [hinfo.trickinputs]) ?_
    rw [hinfo.trickcode]
    exact wp_createTrickCode hM h0 hinfo.valid hinfo.isVector hinfo.size h hinfo.vectors
      hinfo.nonempty
  · -- the flags are in the upper halves
    obtain ⟨rfl, rfl⟩ := Prod.mk.inj (Option.some_inj.mp hop)
    have hformed := h.allFormed (by simp [typeOfPrimop] : ∀ i ∈ [1], _)
    refine wp_dgTrickOperation rfl hformed hformed ?_
    have hsh := (h.shadow (i := 1) (show _ = some IRType.f32 from rfl)).2
    have hzero := HasValue.const_u32 hM.isVex env s
    have hpair := fun k hk => ((hsh k hk).reinterpret hM.isVex (.unMove .reinterpF32asI32)
      rfl).join hM.isVex hzero (.binMove .op32HLto64) rfl
    apply wp_bind
    apply wp_mono (wp_dgTrickWarn hM h0 (hpair 0 (by decide)).eval (hpair 1 (by decide)).eval)
    rintro - env' s' ⟨rfl, hext, hcheck⟩
    refine wp_bind (wp_pure (wp_pure (hcheck.congr ?_)))
    rw [hM.zero, reported_four_shifted]
    simp [ActiveDiscreteLane, IROp.checkedOperands]
  · obtain ⟨rfl, rfl⟩ := Prod.mk.inj (Option.some_inj.mp hop)
    have hformed := h.allFormed (by simp [typeOfPrimop] : ∀ i ∈ [2], _)
    refine wp_dgTrickOperation rfl hformed hformed ?_
    apply wp_bind
    apply wp_mono (wp_warn8 hM h0 h (i := 2) rfl)
    rintro - env' s' ⟨rfl, hext, hcheck⟩
    exact wp_bind (wp_pure (wp_pure hcheck))
  · obtain ⟨rfl, rfl⟩ := Prod.mk.inj (Option.some_inj.mp hop)
    have hformed := h.allFormed (by simp [typeOfPrimop, ZeroDerivOp.sig] : ∀ i ∈ [2], _)
    refine wp_dgTrickOperation rfl rfl hformed ?_
    have hsh := (h.shadow (i := 2) (show _ = some IRType.f64 from rfl)).2
    show (execMeaning M).wp (zeroDerivTrick .roundF64toInt (operandLayer shadows 0)
      (operandLayer shadows 1)) env s _
    rw [zeroDerivTrick, if_neg (by decide)]
    apply wp_bind
    apply wp_mono (wp_warn8 hM h0 h (i := 2) rfl)
    rintro - env' s' ⟨rfl, hext, hcheck⟩
    apply wp_bind
    apply wp_typeOf ((hsh 0 (by decide)).mono hext).type
    exact wp_bind (wp_pure (wp_pure hcheck))

/-- The flags of the numbers whose sign may be changed by a component of a bitwise logical
operation. -/
def bitwiseConsumed (I : Interp Byte) (s : State Byte (TrickTool F)) (exprs : List IRExpr)
    (shadows : List Shadow) (op : BitwiseOp) (fpsize c : ℕ) : List (ℕ × ℕ) :=
  let word := fun e => bitsOf 64 (lane fpsize c (evalExpr I s e))
  op.consumed64 (word (numbered .vecret exprs 1)) (word (operandLayer shadows 0 1))
    (word (operandLayer shadows 1 1)) (word (numbered .vecret exprs 2))
    (word (operandLayer shadows 0 2)) (word (operandLayer shadows 1 2))

/-- The component of a bitwise logical operation. -/
theorem wp_bitwiseDirtyBody (hM : M.Trick fuel Fp) (op : BitwiseOp) {fpsize c : ℕ}
    {env' : List IRType} {s' : State Byte (TrickTool F)} {parts : List IRExpr}
    (h0 : s'.tool.disable = 0)
    (hparts : HasParts M.toInterp env' s' parts ((layeredValues M.toInterp s exprs shadows
      [1, 2]).map fun v => widenBytes M.zero fpsize (lane fpsize c v))) :
    (execMeaning M).wp (bitwiseDirtyBody (.trickBitwise64 op) .trickBitwiseGetLower
      .trickBitwiseGetHigher parts) env' s' fun outs env'' s'' => Extends env' s' env'' s'' ∧
        (∃ ws, ws.length = 2 ∧ HasParts M.toInterp env'' s'' outs ws) ∧
        s'.tool.Checks s''.tool (∃ f ∈ bitwiseConsumed M.toInterp s exprs shadows op fpsize c,
          ActiveDiscrete f.1 f.2) := by
  obtain _ | ⟨h₁, _ | ⟨h₂, _ | ⟨h₃, _ | ⟨h₄, _ | ⟨h₅, _ | ⟨h₆, _ | _⟩⟩⟩⟩⟩⟩ := hparts
  have hargs := congrArg₂ List.cons h₁.eval (congrArg₂ List.cons h₂.eval (congrArg₂ List.cons h₃.eval
    (congrArg₂ List.cons h₄.eval (congrArg₂ List.cons h₅.eval (congrArg₂ List.cons h₆.eval
      (rfl : ([] : List (List Byte)) = []))))))
  apply wp_bind
  refine wp_addDirty_snd hM.isTrue_true hargs (hM.bitwise64 _ _ _ _ _ _ _ _ _) ?_
  simp only [hM.zero, bitsOf_widenBytes]
  have hcheck := op.trick64_checks (bitsOf 64 (lane fpsize c (evalExpr M.toInterp s
      (numbered .vecret exprs 1))))
    (bitsOf 64 (lane fpsize c (evalExpr M.toInterp s (operandLayer shadows 0 1))))
    (bitsOf 64 (lane fpsize c (evalExpr M.toInterp s (operandLayer shadows 1 1))))
    (bitsOf 64 (lane fpsize c (evalExpr M.toInterp s (numbered .vecret exprs 2))))
    (bitsOf 64 (lane fpsize c (evalExpr M.toInterp s (operandLayer shadows 0 2))))
    (bitsOf 64 (lane fpsize c (evalExpr M.toInterp s (operandLayer shadows 1 2)))) h0
  set t₁ := op.trick64 _ _ _ _ _ _ s'.tool with ht₁
  apply wp_bind
  apply wp_newIRTemp
  apply wp_bind
  apply wp_newIRTemp
  apply wp_bind
  refine wp_addDirtyTmp hM.isTrue_true (hM.bitwiseGetLower _ _) ?_
  apply wp_bind
  refine wp_addDirtyTmp hM.isTrue_true (hM.bitwiseGetHigher _ _) ?_
  have hnew : Extends env' s' (env' ++ [.i64] ++ [.i64]) s' :=
    ⟨by rw [List.append_assoc]; exact List.prefix_append env' _, fun _ _ => rfl, rfl, rfl⟩
  have hne : env'.length ≠ (env' ++ [IRType.i64]).length := by simp
  refine wp_pure ⟨((((hnew.withTool _).setTmp (le_refl _) _).withTool _).setTmp (by simp)
    _).withTool _, ⟨[bytesOf t₁.bitwiseGetLower, bytesOf t₁.bitwiseGetHigher], rfl,
      List.Forall₂.cons ?_ (List.Forall₂.cons ?_ List.Forall₂.nil)⟩, hcheck⟩
  · exact HasValue.ofTmp (by simp)
      ((Function.update_of_ne hne _ _).trans (Function.update_self _ _ _)) (length_natToBytes _ _)
  · exact HasValue.ofTmp (by simp) (Function.update_self _ _ _) (length_natToBytes _ _)

/-- **Bitwise logical operations** warn if a number whose sign may be changed is active and
discrete. -/
theorem wp_bitwiseOperation (hM : M.Trick fuel Fp) (h0 : s.tool.disable = 0) (op : BitwiseOp)
    (size : BitwiseSize)
    (h : FlaggedOperands M.toInterp env s [size.type, size.type] exprs shadows) :
    (execMeaning M).wp (dgTrickOperation (.bitwise op size) (numbered .vecret exprs)
      (numbered none (shadows.map some))) env s fun _ _ s' => s.tool.Checks s'.tool
        (∃ c < size.simd.simdsize, ∃ f ∈ bitwiseConsumed M.toInterp s exprs shadows op
          size.simd.fpsize c, ActiveDiscrete f.1 f.2) := by
  have hin : VectorInputs [size.type, size.type] (size.simd.fpsize * size.simd.simdsize) [1, 2] := by
    cases size <;> exact vectorInputs_of_all rfl
  have hl : Simd.valid ⟨size.simd.fpsize, size.simd.simdsize, false⟩ = true := by
    cases size <;> rfl
  have hformed := h.allFormed fun i hi => (hin i hi).imp fun _ hty => hty.1
  refine wp_dgTrickOperation rfl hformed hformed ?_
  have hbody : ∀ c < size.simd.simdsize, BodySpec M env s 2 size.simd.fpsize
      (layeredValues M.toInterp s exprs shadows [1, 2])
      (fun us s' => s.tool.Checks s'.tool (∃ c < us.length, ∃ f ∈ bitwiseConsumed M.toInterp s
        exprs shadows op size.simd.fpsize c, ActiveDiscrete f.1 f.2))
      (fun _ => bitwiseDirtyBody (.trickBitwise64 op) .trickBitwiseGetLower
        .trickBitwiseGetHigher) c := by
    intro c hc env' s' parts us hext hus hInv hparts
    apply wp_mono (wp_bitwiseDirtyBody hM op (hInv.disable.trans h0) hparts)
    rintro outs env'' s'' ⟨hext', ⟨ws, hws, houts⟩, hcheck⟩
    refine ⟨hext', ws, hws, houts, (hInv.trans hcheck).congr ?_⟩
    rw [List.length_append, List.length_singleton, hus, Nat.exists_lt_succ_right]
  apply wp_mono (wp_applyComponentwisely hM.isVex hl (hasVectors_layeredInputs h hin) hbody
    ((TrickTool.Checks.refl s.tool).congr (by simp)))
  rintro outs env' s' ⟨-, us, hus, hcheck, -⟩
  rwa [hus.length_eq] at hcheck

end Operands

/-! ### x87 loads and stores -/

section F80

variable {mem : BarLayer → Addr → Byte}

/-- Storing an 80-bit number warns if its flags are active and discrete. -/
theorem dgTrickDirtyhelperStoreF80le_spec {hF : F.Lawful} (hL : F.leafSize ∣ 2 ^ 64)
    (hfuel : 2 ^ 31 ≤ fuel) {t : TrickTool F} (hmem : FlexibleShadow.Rep hF t.shadow mem)
    (h0 : t.disable = 0) (a : Addr) (a64Lo a64Hi : ULong) :
    ∃ t', dgTrickDirtyhelperStoreF80le F fuel a a64Lo a64Hi t = some t' ∧
      (t.Warned t' ↔ ActiveDiscrete a64Lo.toNat a64Hi.toNat) := by
  have hset : ∀ lo hi : ℕ → Byte, ∃ s',
      dgBarShadowSet F fuel a (some lo) (some hi) 10 t.shadow = some s' := by
    intro lo hi
    obtain ⟨s', hs', -⟩ := dgBarShadowSet_rep hL hfuel hmem a (some lo) (some hi)
      (show (10 : BitVec 32).toNat < 2 ^ 31 by decide)
    exact ⟨s', hs'⟩
  unfold dgTrickDirtyhelperStoreF80le
  by_cases hlo : a64Lo = 0
  · obtain ⟨s', hs'⟩ := hset (fun _ => 0) (fun _ => 0)
    rw [if_pos hlo, hs']
    refine ⟨_, rfl, ?_⟩
    have hnone : ¬ActiveDiscrete a64Lo.toNat a64Hi.toNat := by
      rw [activeDiscrete_iff, hlo]
      simp
    exact iff_of_false (lt_irrefl _) hnone
  · rw [if_neg hlo]
    by_cases hhi : a64Hi = 0
    · obtain ⟨s', hs'⟩ := hset (fun _ => 0xff) (fun _ => 0)
      have hnone : ¬ActiveDiscrete a64Lo.toNat a64Hi.toNat := by
        rw [activeDiscrete_iff, hhi]
        simp
      simp only [hhi, ne_eq, not_true_eq_false, if_false, hs']
      rw [hhi] at hnone
      exact ⟨_, rfl, iff_of_false (lt_irrefl _) hnone⟩
    · have hrep := dgTrickWarnDirtyhelper_reports a64Lo a64Hi 8 h0
      obtain ⟨s', hs'⟩ := hset (fun _ => 0xff) (fun _ => 0)
      simp only [ne_eq, hhi, not_false_eq_true, if_true, hrep.shadow, hs']
      have hcheck : t.Checks (dgTrickWarnDirtyhelper a64Lo a64Hi 8 t) _ :=
        ⟨_, hrep, reported_eight a64Lo a64Hi⟩
      exact ⟨_, rfl, hcheck.warned_iff⟩

/-- Loading an 80-bit number warns if the flags of the eight lower bytes are active and
discrete. -/
theorem dgTrickDirtyhelperLoadF80leHi_spec {hF : F.Lawful} (hL : F.leafSize ∣ 2 ^ 64)
    (hfuel : 2 ^ 31 ≤ fuel) {t : TrickTool F} (hmem : FlexibleShadow.Rep hF t.shadow mem)
    (h0 : t.disable = 0) (a : Addr) :
    ∃ r t', dgTrickDirtyhelperLoadF80leHi F fuel a t = some (r, t') ∧
      (t.Warned t' ↔ ActiveDiscrete (bytesToNat (ByteMap.read (mem .lo) a 8))
        (bytesToNat (ByteMap.read (mem .hi) a 8))) := by
  have hget := dgBarShadowGet_rep hL hfuel hmem a (show (10 : BitVec 32).toNat < 2 ^ 31 by decide)
  have htake : ∀ l, ((ByteMap.read (mem l) a 10).take 8) = ByteMap.read (mem l) a 8 :=
    fun l => ByteMap.take_read (mem l) a (by decide)
  have hbits : ∀ l, (bitsOf 64 (ByteMap.read (mem l) a 8)).toNat
      = bytesToNat (ByteMap.read (mem l) a 8) :=
    fun l => toNat_bitsOf (by rw [ByteMap.length_read])
  have hrep := dgTrickWarnDirtyhelper_reports (bitsOf 64 (ByteMap.read (mem .lo) a 8))
    (bitsOf 64 (ByteMap.read (mem .hi) a 8)) 8 h0
  have hcheck : t.Checks _ _ := ⟨_, hrep, reported_eight _ _⟩
  rw [hbits, hbits] at hcheck
  have hload : dgTrickDirtyhelperLoadF80leHi F fuel a t = some
      (if anyFlag (ByteMap.read (mem .lo) a 10) && anyFlag (ByteMap.read (mem .hi) a 10) then
        (0, dgTrickWarnDirtyhelper (bitsOf 64 (ByteMap.read (mem .lo) a 8))
          (bitsOf 64 (ByteMap.read (mem .hi) a 8)) 8 t)
      else (0, t)) := by
    unfold dgTrickDirtyhelperLoadF80leHi
    rw [hget, ← htake, ← htake]
    rfl
  rw [hload]
  by_cases hany : (anyFlag (ByteMap.read (mem .lo) a 10) &&
      anyFlag (ByteMap.read (mem .hi) a 10)) = true
  · rw [if_pos hany]
    exact ⟨_, _, rfl, hcheck.warned_iff⟩
  · rw [if_neg hany]
    refine ⟨_, _, rfl, iff_of_false (lt_irrefl _) ?_⟩
    rw [activeDiscrete_iff]
    intro hact
    refine hany ?_
    have hflag : ∀ l, bytesToNat (ByteMap.read (mem l) a 8) ≠ 0 →
        anyFlag (ByteMap.read (mem l) a 10) = true := by
      intro l hne
      rw [anyFlag, htake, Bool.or_eq_true, decide_eq_true_eq]
      refine .inl fun hzero => hne ?_
      rw [← hbits, hzero]
      rfl
    rw [Bool.and_eq_true]
    refine ⟨hflag .lo fun hzero => hact ?_, hflag .hi fun hzero => hact ?_⟩
    · rw [hzero, Nat.zero_and]
    · rw [hzero, Nat.and_zero]

/-- The first function called for loads has no effect. -/
theorem exists_dgTrickDirtyhelperLoadF80leLo {hF : F.Lawful} (hL : F.leafSize ∣ 2 ^ 64)
    (hfuel : 2 ^ 31 ≤ fuel) {t : TrickTool F} (hmem : FlexibleShadow.Rep hF t.shadow mem)
    (a : Addr) : ∃ r, dgTrickDirtyhelperLoadF80leLo F fuel a t = some r := by
  have hget := dgBarShadowGet_rep hL hfuel hmem a (show (10 : BitVec 32).toNat < 2 ^ 31 by decide)
  unfold dgTrickDirtyhelperLoadF80leLo
  rw [hget]
  exact ⟨_, rfl⟩

theorem wp_trickStoreF80le (hM : M.Trick fuel Fp) {hF : F.Lawful} (hL : F.leafSize ∣ 2 ^ 64)
    (hfuel : 2 ^ 31 ≤ fuel) (hmem : FlexibleShadow.Rep hF s.tool.shadow mem)
    (h0 : s.tool.disable = 0) {addr lo hi : IRExpr} {vlo vhi : List Byte}
    (hlo : HasValue M.toInterp env s lo .i64 vlo) (hhi : HasValue M.toInterp env s hi .i64 vhi) :
    (execMeaning M).wp (dgTrickExpressionhandling.dirtyStoreF80le addr [lo, hi]) env s
      fun _ _ s' => s.tool.Warned s'.tool ↔ ActiveDiscrete (bytesToNat vlo) (bytesToNat vhi) := by
  have hlen : vlo.length = 8 := hlo.length
  have hlen' : vhi.length = 8 := hhi.length
  obtain ⟨t', ht', hwarned⟩ := dgTrickDirtyhelperStoreF80le_spec hL hfuel hmem h0
    (bitsOf 64 (evalExpr M.toInterp s addr)) (bitsOf 64 vlo) (bitsOf 64 vhi)
  rw [toNat_bitsOf (by omega), toNat_bitsOf (by omega)] at hwarned
  have hargs : evalExprs M.toInterp s [addr, lo, hi] = [evalExpr M.toInterp s addr, vlo, vhi] := by
    simp only [evalExprs, hlo.eval, hhi.eval]
  exact wp_addDirty_snd hM.isTrue_true hargs (hM.storeF80le _ _ _ _ _ _ ht') hwarned

theorem wp_trickLoadF80le (hM : M.Trick fuel Fp) {hF : F.Lawful} (hL : F.leafSize ∣ 2 ^ 64)
    (hfuel : 2 ^ 31 ≤ fuel) (hmem : FlexibleShadow.Rep hF s.tool.shadow mem)
    (h0 : s.tool.disable = 0) {denv : DiffEnv} {addr : IRExpr} {tmp : IRTemp}
    (hfits : addr.inBounds denv.tmpOffset 0 = true) :
    (execMeaning M).wp (dgTrickDirtyLoadF80le denv addr tmp) env s fun _ _ s' =>
      (s.tool.Warned s'.tool ↔ ActiveDiscrete
        (bytesToNat (ByteMap.read (mem .lo) (bitsOf 64 (evalExpr M.toInterp s addr)) 8))
        (bytesToNat (ByteMap.read (mem .hi) (bitsOf 64 (evalExpr M.toInterp s addr)) 8))) := by
  obtain ⟨r, hr⟩ := exists_dgTrickDirtyhelperLoadF80leLo hL hfuel hmem
    (bitsOf 64 (evalExpr M.toInterp s addr))
  obtain ⟨r', t', hr', hwarned⟩ := dgTrickDirtyhelperLoadF80leHi_spec hL hfuel hmem h0
    (bitsOf 64 (evalExpr M.toInterp s addr))
  have hcall := hM.loadF80leLo (evalExpr M.toInterp s addr) s.buf s.tool r hr
  apply wp_bind
  refine wp_addDirtyTmp hM.isTrue_true hcall ?_
  set s₁ := (s.setTmp (tmp + denv.tmpOffset) (bytesOf r)).withTool (s.buf, s.tool) with hs₁
  -- the address is not computed from shadow temporaries
  have hprimal : PrimalEq denv.tmpOffset 0 s s₁ := by
    refine ⟨fun t ht => ?_, fun _ _ => rfl, rfl⟩
    have hne : t ≠ tmp + denv.tmpOffset := by omega
    exact (Function.update_of_ne hne (bytesOf r) s.tmp).symm
  have hargs : evalExprs M.toInterp s₁ [addr] = [evalExpr M.toInterp s addr] := by
    simp only [evalExprs, ← evalExpr_primalEq hprimal addr hfits]
  have hcall' : M.toolDirty .trickLoadF80leHi (evalExprs M.toInterp s₁ [addr]) s₁.buf s₁.tool
      = (bytesOf r', s.buf, t') := by
    rw [hargs]
    exact hM.loadF80leHi _ _ _ _ _ hr'
  exact wp_addDirtyTmp hM.isTrue_true hcall' hwarned

end F80

end Rules

/-! ### Steps -/

/-- A step that may use data as floating-point numbers: an operation, with its operands and
both layers of their flags, or a call of an x87 helper function. -/
inductive TrickStep
  | operation (op : IROp) (exprs : List IRExpr) (shadows : List Shadow)
  | storeF80le (addr lo hi : IRExpr)
  | loadF80le (denv : DiffEnv) (addr : IRExpr) (tmp : IRTemp)

namespace TrickStep

variable (M : Machine Byte (TrickTool F)) (env : List IRType) (s : State Byte (TrickTool F))
  (mem : BarLayer → Addr → Byte)

/-- Whether an operation uses data as floating-point numbers. -/
def usesNumbers : IROp → Bool
  | .bitwise _ _ => true
  | op => op.floatOperands?.isSome

/-- The operands and their flags have the right types, and are read from temporaries and
constants; addresses are not computed from shadow temporaries. -/
def Formed : TrickStep → Prop
  | .operation op exprs shadows => usesNumbers op = true ∧
      FlaggedOperands M.toInterp env s (typeOfPrimop op).args exprs shadows
  | .storeF80le _ lo hi => HasValue M.toInterp env s lo .i64 (evalExpr M.toInterp s lo) ∧
      HasValue M.toInterp env s hi .i64 (evalExpr M.toInterp s hi)
  | .loadF80le denv addr _ => addr.inBounds denv.tmpOffset 0 = true

/-- The state after the code for a step has been run. -/
def run : TrickStep → Option (State Byte (TrickTool F))
  | .operation op exprs shadows =>
      (runEmit M (dgTrickExpressionhandling.operation op (numbered .vecret exprs)
        (numbered none (shadows.map some))) env s).map Prod.snd
  | .storeF80le addr lo hi =>
      (runEmit M (dgTrickExpressionhandling.dirtyStoreF80le addr [lo, hi]) env s).map Prod.snd
  | .loadF80le denv addr tmp =>
      (runEmit M (dgTrickExpressionhandling.dirtyLoadF80le denv addr tmp) env s).map Prod.snd

/-- The flags of `n` bytes in shadow memory. -/
def memFlags (a : Addr) (n : ℕ) : ℕ × ℕ :=
  (bytesToNat (ByteMap.read (mem .lo) a n), bytesToNat (ByteMap.read (mem .hi) a n))

/-- The flags of the data that are used as floating-point numbers. -/
def consumed : TrickStep → List (ℕ × ℕ)
  | .operation (.bitwise op size) exprs shadows =>
      (List.range size.simd.simdsize).flatMap
        (bitwiseConsumed M.toInterp s exprs shadows op size.simd.fpsize)
  | .operation op _ shadows =>
      match op.floatOperands? with
      | some (is, l) => (List.range l.computedLanes).flatMap fun c =>
          is.map (laneFlags M.toInterp s shadows l.fpsize c)
      | none => []
  | .storeF80le _ lo hi =>
      [(bytesToNat (evalExpr M.toInterp s lo), bytesToNat (evalExpr M.toInterp s hi))]
  | .loadF80le _ addr _ => [memFlags mem (bitsOf 64 (evalExpr M.toInterp s addr)) 10]

/-- Some of the data that are used as floating-point numbers are active and discrete. -/
def Suspicious (step : TrickStep) : Prop :=
  ∃ f ∈ step.consumed M s mem, ActiveDiscrete f.1 f.2

/-- The condition under which warnings are complete: there is nothing to warn about in the
operand of `Iop_F32toF64`; in the second operand of `Iop_ScaleF64`, or there is in the first
one, too; and in the upper two of ten bytes, or there is in the lower eight ones, too. -/
def Meets : TrickStep → Prop
  | .operation .f32toF64 _ shadows =>
      ¬ActiveDiscrete (laneFlags M.toInterp s shadows 4 0 1).1
        (laneFlags M.toInterp s shadows 4 0 1).2
  | .operation .scaleF64 _ shadows =>
      ActiveDiscrete (laneFlags M.toInterp s shadows 8 0 3).1
        (laneFlags M.toInterp s shadows 8 0 3).2 →
      ActiveDiscrete (laneFlags M.toInterp s shadows 8 0 2).1
        (laneFlags M.toInterp s shadows 8 0 2).2
  | .loadF80le _ addr _ =>
      let a := bitsOf 64 (evalExpr M.toInterp s addr)
      ActiveDiscrete (memFlags mem a 10).1 (memFlags mem a 10).2 →
        ActiveDiscrete (memFlags mem a 8).1 (memFlags mem a 8).2
  | _ => True

section Warnings

variable {M env s mem} {fuel : ℕ} {Fp : FpSem Byte}

theorem suspicious_operation {op : IROp} {is : List ℕ} {l : Simd} (exprs : List IRExpr)
    (shadows : List Shadow) (h : op.floatOperands? = some (is, l)) :
    (operation op exprs shadows).Suspicious M s mem ↔
      ActiveDiscreteLane M.toInterp s shadows l.fpsize l.computedLanes is := by
  have hconsumed : (operation op exprs shadows).consumed M s mem
      = (List.range l.computedLanes).flatMap fun c =>
          is.map (laneFlags M.toInterp s shadows l.fpsize c) := by
    cases op with
    | bitwise bop size => cases h
    | _ => simp only [consumed, h]
  simp [Suspicious, hconsumed, ActiveDiscreteLane]

theorem suspicious_bitwise (op : BitwiseOp) (size : BitwiseSize) (exprs : List IRExpr)
    (shadows : List Shadow) :
    (operation (.bitwise op size) exprs shadows).Suspicious M s mem ↔
      ∃ c < size.simd.simdsize, ∃ f ∈ bitwiseConsumed M.toInterp s exprs shadows op
        size.simd.fpsize c, ActiveDiscrete f.1 f.2 := by
  simp only [Suspicious, consumed, List.mem_flatMap, List.mem_range]
  constructor
  · rintro ⟨f, ⟨c, hc, hf⟩, hact⟩
    exact ⟨c, hc, f, hf, hact⟩
  · rintro ⟨c, hc, f, hf, hact⟩
    exact ⟨f, ⟨c, hc, hf⟩, hact⟩

/-- Running emitted code. -/
theorem exists_run {α : Type} {m : Emit α} {P : State Byte (TrickTool F) → Prop}
    (h : (execMeaning M).wp m env s fun _ _ s' => P s') :
    ∃ s', (runEmit M m env s).map Prod.snd = some s' ∧ P s' := by
  obtain ⟨a, env', s', hrun, hP⟩ := exists_runEmit h
  exact ⟨s', by rw [hrun]; rfl, hP⟩

/-- The warnings of operations on floating-point numbers. -/
theorem run_floatOperation (hM : M.Trick fuel Fp) (h0 : s.tool.disable = 0) {op : IROp}
    {is : List ℕ} {l : Simd} (hop : op.floatOperands? = some (is, l)) {exprs : List IRExpr}
    {shadows : List Shadow}
    (h : FlaggedOperands M.toInterp env s (typeOfPrimop op).args exprs shadows) :
    ∃ s', (operation op exprs shadows).run M env s = some s' ∧ (s.tool.Warned s'.tool ↔
      ActiveDiscreteLane M.toInterp s shadows l.fpsize l.computedLanes op.checkedOperands) := by
  obtain ⟨s', hrun, hcheck⟩ := exists_run (wp_floatOperation hM h0 hop h)
  exact ⟨s', hrun, hcheck.warned_iff⟩

/-- The operands that are not looked at. -/
theorem meets_operation {op : IROp} {is : List ℕ} {l : Simd} (exprs : List IRExpr)
    (shadows : List Shadow) (h : op.floatOperands? = some (is, l)) :
    (ActiveDiscreteLane M.toInterp s shadows l.fpsize l.computedLanes is →
      ActiveDiscreteLane M.toInterp s shadows l.fpsize l.computedLanes op.checkedOperands) ↔
      (operation op exprs shadows).Meets M s mem := by
  cases op with
  | f32toF64 =>
    obtain ⟨rfl, rfl⟩ := Prod.mk.inj (Option.some_inj.mp h)
    simp [Meets, ActiveDiscreteLane, IROp.checkedOperands, Simd.computedLanes]
  | scaleF64 =>
    obtain ⟨rfl, rfl⟩ := Prod.mk.inj (Option.some_inj.mp h)
    simp [Meets, ActiveDiscreteLane, IROp.checkedOperands, Simd.computedLanes, or_imp]
  | bitwise bop size => cases h
  | _ =>
    refine iff_of_true ?_ trivial
    simp only [IROp.checkedOperands, h, Option.map_some, Option.getD_some]
    exact id

theorem usesNumbers_cases {op : IROp} (h : usesNumbers op = true) :
    (∃ bop size, op = .bitwise bop size) ∨ ∃ is l, op.floatOperands? = some (is, l) := by
  cases hop : op.floatOperands? with
  | some r => exact .inr ⟨r.1, r.2, rfl⟩
  | none =>
    unfold usesNumbers at h
    split at h
    · exact .inl ⟨_, _, rfl⟩
    · rw [hop] at h
      cases h

end Warnings

end TrickStep

section Main

variable {M : Machine Byte (TrickTool F)} {fuel : ℕ} {Fp : FpSem Byte} {env : List IRType}
  {s : State Byte (TrickTool F)} {mem : BarLayer → Addr → Byte}

open TrickStep

/-- **When warnings are complete.** -/
theorem trickStep_warns_iff (hF : F.Lawful) (hL : F.leafSize ∣ 2 ^ 64) (hM : M.Trick fuel Fp)
    (hfuel : 2 ^ 31 ≤ fuel) (hmem : FlexibleShadow.Rep hF s.tool.shadow mem)
    (h0 : s.tool.disable = 0) (step : TrickStep) (hformed : step.Formed M env s) :
    ∃ s', step.run M env s = some s' ∧
      ((step.Suspicious M s mem → s.tool.Warned s'.tool) ↔ step.Meets M s mem) := by
  cases step with
  | storeF80le addr lo hi =>
    obtain ⟨hlo, hhi⟩ := hformed
    obtain ⟨s', hrun, hwarned⟩ := exists_run (wp_trickStoreF80le hM hL hfuel hmem h0 hlo hhi)
    refine ⟨s', hrun, iff_of_true ?_ trivial⟩
    rintro ⟨f, hf, hact⟩
    rw [List.mem_singleton.mp hf] at hact
    exact hwarned.mpr hact
  | loadF80le denv addr tmp =>
    obtain ⟨s', hrun, hwarned⟩ := exists_run (wp_trickLoadF80le hM hL hfuel hmem h0 hformed)
    refine ⟨s', hrun, ?_⟩
    rw [hwarned]
    simp only [Suspicious, consumed, Meets, List.mem_singleton, exists_eq_left, memFlags]
  | operation op exprs shadows =>
    obtain ⟨huses, hoperands⟩ := hformed
    rcases usesNumbers_cases huses with ⟨bop, size, rfl⟩ | ⟨is, l, hop⟩
    · obtain ⟨s', hrun, hcheck⟩ := exists_run (wp_bitwiseOperation hM h0 bop size hoperands)
      refine ⟨s', hrun, iff_of_true ?_ trivial⟩
      rw [hcheck.warned_iff, suspicious_bitwise]
      exact id
    · obtain ⟨s', hrun, hwarned⟩ := run_floatOperation hM h0 hop hoperands
      refine ⟨s', hrun, ?_⟩
      rw [suspicious_operation exprs shadows hop, hwarned]
      exact meets_operation exprs shadows hop

end Main

/-! ### Two conversions -/

/-- A 64-bit build in bit-trick-finding mode. -/
def trickHost : Machine Byte (TrickTool (directMap BarLayer 64 (2 ^ 18))) :=
  Machine.trick _ (2 ^ 31) FpSem.zeros Interp.silent 1024

/-- The bytes of a number and its flags in temporaries; all bits are active and discrete. -/
def suspiciousNumber (n : ℕ) : State Byte (TrickTool (directMap BarLayer 64 (2 ^ 18))) :=
  State.ofTmps ⟨(directMap BarLayer 64 (2 ^ 18)).shadowInit fun _ _ _ => 0, ⟨0, 0, 0, 0⟩, 0, []⟩
    [List.replicate n 0, List.replicate n 0xff, List.replicate n 0xff]

theorem hasValue_suspiciousNumber (ty : IRType) {t : ℕ} (ht : t < 3) :
    HasValue trickHost.toInterp [ty, ty, ty] (suspiciousNumber (sizeofIRType ty)) (.rdTmp t) ty
      ((suspiciousNumber (sizeofIRType ty)).tmp t) := by
  have hcases : t = 0 ∨ t = 1 ∨ t = 2 := by omega
  rcases hcases with rfl | rfl | rfl <;> exact HasValue.rdTmp rfl List.length_replicate

theorem trickStep_warns_iff_f64toF32 :
    ∃ s', (TrickStep.operation .f64toF32 [.const (.u32 0), .rdTmp 0]
        [[.const (.u32 0), .const (.u32 0)], [.rdTmp 1, .rdTmp 2]]).run trickHost
          [.f64, .f64, .f64] (suspiciousNumber 8) = some s' ∧
      (suspiciousNumber 8).tool.Warned s'.tool := by
  have hI : trickHost.toInterp.IsVex FpSem.zeros.host := isVex_hostInterp _ _
  have hzero := HasValue.const hI [.f64, .f64, .f64] (suspiciousNumber 8) (.u32 0) rfl
  have hnumber := fun t (ht : t < 3) => hasValue_suspiciousNumber .f64 ht
  obtain ⟨s', hrun, hwarns⟩ := trickStep_warns_iff
    (directMapLawful BarLayer (by decide) (by decide) (by decide))
    (Dvd.intro (2 ^ 46) (by decide)) (Machine.trick_spec _ _ _ _ _) le_rfl
    (FlexibleShadow.shadowInit_rep _ _) rfl
    (.operation .f64toF32 [.const (.u32 0), .rdTmp 0]
      [[.const (.u32 0), .const (.u32 0)], [.rdTmp 1, .rdTmp 2]])
    ⟨rfl, .cons hzero (.cons (hnumber 0 (by decide)) .nil),
      .cons ⟨_, _, rfl, hzero, hzero⟩ (.cons ⟨_, _, rfl, hnumber 1 (by decide),
        hnumber 2 (by decide)⟩ .nil)⟩
  refine ⟨s', hrun, hwarns.mpr trivial ⟨_, List.mem_cons_self, 0, ?_, ?_⟩⟩
  · decide
  · decide

/-- No warning is printed for the operand of `Iop_F32toF64`. -/
theorem not_warns_f32toF64 :
    (TrickStep.operation .f32toF64 [.rdTmp 0] [[.rdTmp 1, .rdTmp 2]]).Formed trickHost
        [.f32, .f32, .f32] (suspiciousNumber 4) ∧
      ¬∃ s', (TrickStep.operation .f32toF64 [.rdTmp 0] [[.rdTmp 1, .rdTmp 2]]).run trickHost
          [.f32, .f32, .f32] (suspiciousNumber 4) = some s' ∧
        ((TrickStep.operation .f32toF64 [.rdTmp 0] [[.rdTmp 1, .rdTmp 2]]).Suspicious trickHost
          (suspiciousNumber 4) (fun _ _ => 0) → (suspiciousNumber 4).tool.Warned s'.tool) := by
  have hnumber := fun t (ht : t < 3) => hasValue_suspiciousNumber .f32 ht
  have hoperands : FlaggedOperands trickHost.toInterp [.f32, .f32, .f32] (suspiciousNumber 4)
      [.f32] [.rdTmp 0] [[.rdTmp 1, .rdTmp 2]] :=
    ⟨.cons (hnumber 0 (by decide)) .nil,
      .cons ⟨_, _, rfl, hnumber 1 (by decide), hnumber 2 (by decide)⟩ .nil⟩
  refine ⟨⟨rfl, hoperands⟩, ?_⟩
  rintro ⟨s', hrun, hwarns⟩
  obtain ⟨s'', hrun', hwarned⟩ := TrickStep.run_floatOperation (Machine.trick_spec _ _ _ _ _) rfl
    (show IROp.f32toF64.floatOperands? = some _ from rfl) hoperands
  obtain rfl : s' = s'' := Option.some_inj.mp (hrun.symm.trans hrun')
  obtain ⟨c, -, i, hi, -⟩ := hwarned.mp
    (hwarns ⟨_, List.mem_cons_self, 0, by decide, by decide⟩)
  cases hi

end Derivgrind
