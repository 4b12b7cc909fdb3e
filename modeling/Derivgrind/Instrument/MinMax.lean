import Derivgrind.Instrument.BarCode
import Derivgrind.Vex.Host
import Mathlib.Algebra.Ring.Int.Defs

/-!
# Minima and maxima

Forward mode calls a function that compares both operands and returns one of the
dot values.  Recording mode compares them by `Iop_CmpF64`, and records the partial
derivatives zero and one.

For a minimum, both modes select the second operand if the operands are equal.
For a maximum, forward mode selects the second one, but recording mode the first one.

## Main definitions

* `dgDotArithmetic` — the function called in forward mode.
* `dotLane`, `recordedPartials` — what both modes compute.
* `ModesAgree` — the dot value is the one given by the partial derivatives.

## Main results

* `minMax_modesAgree_iff` — **when both modes agree.**
-/

namespace Derivgrind

open Emitter.Meaning

variable {T : Type}

/-! ### The functions -/

/-- Whether the dot value of the first operand is selected. -/
def MinMaxOp.selectsFirst (op : MinMaxOp) {w : ℕ} (x y : BitVec w) : Bool :=
  match op with
  | .min => Ieee.lt x y
  | .max => Ieee.lt y x

/-- `dg_dot_arithmetic_{min,max}{32,64}`.  If `fpsize` is four, then only the lower halves of
the operands are compared. -/
def dgDotArithmetic (op : MinMaxOp) (fpsize : ℕ) (x xd y yd : List Byte) : List Byte :=
  if op.selectsFirst (bitsOf (8 * fpsize) x) (bitsOf (8 * fpsize) y) then xd else yd

/-- Pure functions of Derivgrind that are called by emitted code. -/
def toolCcall (rest : IRCallee → List (List Byte) → List Byte) :
    IRCallee → List (List Byte) → List Byte
  | .tool (.dotArithmetic op fpsize), [x, xd, y, yd] => dgDotArithmetic op fpsize x xd y yd
  | cee, args => rest cee args

/-- The interpretation on machine bytes, with Derivgrind's functions. -/
def toolInterp (F : FpSem Byte) (rest : Interp Byte) : Interp Byte :=
  hostInterp F { rest with ccall := toolCcall rest.ccall }

/-- A machine with machine bytes, on which Derivgrind's functions can be called. -/
structure Machine.IsHost (M : Machine Byte T) (F : FpSem Byte) : Prop where
  interp : ∃ rest, M.toInterp = toolInterp F rest
  length_tapeCall : ∀ args buf tool,
    (M.toolDirty .barWriteToTapeCall args buf tool).1.length = 8

namespace Machine.IsHost

variable {M : Machine Byte T} {F : FpSem Byte}

theorem isVex (h : M.IsHost F) : M.toInterp.IsVex F.host := by
  obtain ⟨rest, hrest⟩ := h.interp
  rw [hrest]
  exact isVex_hostInterp F _

theorem records (h : M.IsHost F) : M.Records := by
  obtain ⟨rest, hrest⟩ := h.interp
  refine ⟨?_, h.length_tapeCall⟩
  rw [hrest]
  simp only [toolInterp, hostInterp]
  decide

theorem zero (h : M.IsHost F) : M.zero = 0 := by
  obtain ⟨rest, hrest⟩ := h.interp
  rw [hrest]
  rfl

theorem const (h : M.IsHost F) (con : IRConst) : M.const con = hostConst con := by
  obtain ⟨rest, hrest⟩ := h.interp
  rw [hrest]
  rfl

theorem dotArithmetic (h : M.IsHost F) (op : MinMaxOp) (fpsize : ℕ) (x xd y yd : List Byte) :
    M.ccall (.tool (.dotArithmetic op fpsize)) [x, xd, y, yd]
      = dgDotArithmetic op fpsize x xd y yd := by
  obtain ⟨rest, hrest⟩ := h.interp
  rw [hrest]
  rfl

/-- The selection by the lowest bit of `Iop_CmpF64`. -/
theorem isTrue_isLess (h : M.IsHost F) (s : State Byte T) {a b : IRExpr} {x y : List Byte}
    (ha : evalExpr M.toInterp s a = x) (hb : evalExpr M.toInterp s b = y)
    (hx : ¬Ieee.IsNaN (bitsOf 64 x)) (hy : ¬Ieee.IsNaN (bitsOf 64 y)) :
    M.isTrue (evalExpr M.toInterp s (isLess (.helper .cmpF64) a b))
      = Ieee.lt (bitsOf 64 x) (bitsOf 64 y) := by
  obtain ⟨rest, hrest⟩ := h.interp
  rw [isLess, evalExpr, evalExpr, ha, hb, hrest]
  show (([(bytesOf (cmpF64Code (bitsOf 64 x) (bitsOf 64 y))).getD 0 0 &&& 1] : List Byte).getD 0
    0).getLsbD 0 = _
  rw [cmpF64Code, if_neg (by tauto)]
  cases Ieee.lt (bitsOf 64 x) (bitsOf 64 y) with
  | true =>
    rw [if_pos rfl]
    decide
  | false =>
    rw [if_neg Bool.false_ne_true]
    cases Ieee.lt (bitsOf 64 y) (bitsOf 64 x) <;> decide

end Machine.IsHost

/-- Widening a lane does not change the number in its lower half. -/
theorem bitsOf_widenBytes (w fpsize : ℕ) (x : List Byte) :
    bitsOf w (widenBytes 0 fpsize x) = bitsOf w x := by
  rw [widenBytes, bitsOf, bitsOf]
  split
  · rw [bytesToNat_append_replicate]
  · rfl

/-- The number in a lane. -/
def MinMaxLayout.laneBits (l : MinMaxLayout) (c : ℕ) (v : List Byte) : BitVec (8 * l.simd.fpsize) :=
  bitsOf (8 * l.simd.fpsize) (lane l.simd.fpsize c v)

theorem MinMaxLayout.valid (l : MinMaxLayout) :
    Simd.valid ⟨l.simd.fpsize, l.simd.simdsize, false⟩ = true := by
  cases l <;> rfl

/-! ### Forward mode -/

section Forward

variable {M : Machine Byte T} {F : FpSem Byte} {env : List IRType} {s : State Byte T}

/-- Forward mode selects the dot value of one of the operands, in each lane. -/
theorem wp_minMaxDot (hM : M.IsHost F) (op : MinMaxOp) (l : MinMaxLayout)
    {a₁ d₁ a₂ d₂ : IRExpr} {x xd y yd : List Byte}
    (hv : HasVectors M.toInterp env s (l.simd.fpsize * l.simd.simdsize) [a₁, d₁, a₂, d₂]
      [x, xd, y, yd]) :
    (execMeaning M).wp (dgDotOperation (.minMax op l) (numbered .vecret [a₁, a₂])
      (numbered none [some [d₁], some [d₂]])) env s fun out _ s' =>
        ∃ e v, out = some [e] ∧ evalExpr M.toInterp s' e = v ∧ ∀ c < l.simd.simdsize,
          lane l.simd.fpsize c v = if op.selectsFirst (l.laneBits c x) (l.laneBits c y)
            then lane l.simd.fpsize c xd else lane l.simd.fpsize c yd := by
  set w := l.simd.fpsize with hw
  set result : ℕ → List Byte := fun c => dgDotArithmetic op w (widenBytes M.zero w (lane w c x))
    (widenBytes M.zero w (lane w c xd)) (widenBytes M.zero w (lane w c y))
    (widenBytes M.zero w (lane w c yd)) with hresult
  -- The invariant: the lanes handled so far have the results of the helper function.
  have hbody : ∀ c < l.simd.simdsize, BodySpec M env s 1 w [x, xd, y, yd]
      (fun us _ => ∀ c < us.length, us[c]? = some [result c]) (fun _ => minMaxDotBody op w) c := by
    intro c hc env' s' parts us _ hus hInv hparts
    obtain _ | ⟨h₁, _ | ⟨h₂, _ | ⟨h₃, _ | ⟨h₄, _ | _⟩⟩⟩⟩ := hparts
    refine wp_pure ⟨Extends.refl env' s', [result c], rfl, ?_, ?_⟩
    · refine List.Forall₂.cons ⟨?_, rfl, ?_, ?_⟩ List.Forall₂.nil
      · simp only [IRExpr.inBounds, IRExpr.allInBounds, h₁.fits, h₂.fits, h₃.fits, h₄.fits]
        rfl
      · simp only [evalExpr, evalExprs, h₁.eval, h₂.eval, h₃.eval, h₄.eval, hM.dotArithmetic,
          hresult]
      · rw [hresult]
        simp only [dgDotArithmetic]
        split
        · exact h₂.length
        · exact h₄.length
    · intro c' hc'
      rw [List.length_append, List.length_singleton] at hc'
      rcases Nat.lt_succ_iff_lt_or_eq.mp hc' with hlt | rfl
      · rw [List.getElem?_append_left hlt]
        exact hInv c' hlt
      · rw [List.getElem?_append_right (le_refl _), Nat.sub_self, ← hus]
        rfl
  apply wp_bind
  apply wp_bind
  apply wp_mono (wp_applyComponentwisely hM.isVex l.valid hv hbody (by simp))
  rintro outs env' s' ⟨-, us, hus, hInv, houts⟩
  obtain _ | ⟨hout, _ | _⟩ := houts
  refine wp_pure (wp_pure ⟨_, _, rfl, hout.eval, ?_⟩)
  intro c hc
  rw [hus.lane_assembled (by decide) hc]
  have hcus : c < us.length := by rw [hus.length_eq]; exact hc
  have hget : us.getD c [] = [result c] := by
    rw [List.getD_eq_getElem?_getD, hInv c hcus]
    rfl
  rw [hget, hresult]
  simp only [List.getD_cons_zero, dgDotArithmetic, hM.zero, bitsOf_widenBytes]
  obtain _ | ⟨-, _ | ⟨⟨_, hxd, -, hsd⟩, _ | ⟨-, _ | ⟨⟨_, hyd, -, hsd'⟩, -⟩⟩⟩⟩ := hv
  rw [apply_ite (List.take w)]
  rw [take_widenBytes (length_lane (by rw [hxd.length, hsd]; exact Nat.mul_le_mul_left _ hc)),
    take_widenBytes (length_lane (by rw [hyd.length, hsd']; exact Nat.mul_le_mul_left _ hc))]
  rfl

end Forward

/-! ### Recording mode -/

/-- The machine that, in addition, logs the arguments of the calls that record operations. -/
def Machine.logged {B : Type} (M : Machine B T) : Machine B (T × List (List (List B))) where
  toInterp := M.toInterp
  guestSize := M.guestSize
  guestDirty := M.guestDirty
  toolDirty helper args buf tool :=
    let r := M.toolDirty helper args buf tool.1
    (r.1, r.2.1, r.2.2, if helper = .barWriteToTapeCall then tool.2 ++ [args] else tool.2)
  skipped := M.skipped
  storeSucceeds := M.storeSucceeds
  flag := M.flag

theorem Machine.IsHost.logged {M : Machine Byte T} {F : FpSem Byte} (h : M.IsHost F) :
    M.logged.IsHost F :=
  ⟨h.interp, fun args buf tool => h.length_tapeCall args buf tool.1⟩

/-- The calls that record an operation are logged. -/
theorem tapeCall_logged {B : Type} (M : Machine B T) (o : Options) (args : List (List B))
    (x : List B) (buf : ℕ → B) (tool : T × List (List (List B))) :
    (tapeCall M.logged o args x buf tool).2.2.2 = tool.2 ++ [args] := by
  rw [tapeCall]
  split <;> rfl

/-- The partial derivatives of minima and maxima, given whether the first operand is less
than the second one. -/
def MinMaxOp.partialBits (op : MinMaxOp) (less : Bool) : BitVec 64 × BitVec 64 :=
  match op with
  | .min => if less then (f64One, 0) else (0, f64One)
  | .max => if less then (0, f64One) else (f64One, 0)

/-- The number of lanes that are computed, rather than copied. -/
def Simd.computedLanes (l : Simd) : ℕ := if l.llo then 1 else l.simdsize

section Recording

variable {M : Machine Byte T} {F : FpSem Byte} {env : List IRType} {s : State Byte T}

/-- The comparison of lanes that have been converted to double precision. -/
theorem lt_laneF64 (l : MinMaxLayout) {c : ℕ} {x y : List Byte} (hx : ¬Ieee.IsNaN (l.laneBits c x))
    (hy : ¬Ieee.IsNaN (l.laneBits c y)) :
    ¬Ieee.IsNaN (bitsOf 64 (laneF64 F.host l.simd.fpsize (lane l.simd.fpsize c x))) ∧
    ¬Ieee.IsNaN (bitsOf 64 (laneF64 F.host l.simd.fpsize (lane l.simd.fpsize c y))) ∧
    Ieee.lt (bitsOf 64 (laneF64 F.host l.simd.fpsize (lane l.simd.fpsize c x)))
      (bitsOf 64 (laneF64 F.host l.simd.fpsize (lane l.simd.fpsize c y)))
      = Ieee.lt (l.laneBits c x) (l.laneBits c y) := by
  have hfp : l.simd.fpsize = 4 ∨ l.simd.fpsize = 8 := by cases l <;> decide
  rw [MinMaxLayout.laneBits] at hx hy ⊢
  rw [MinMaxLayout.laneBits]
  generalize l.simd.fpsize = w at hfp hx hy ⊢
  rcases hfp with rfl | rfl
  · have hbits : ∀ v : List Byte, bitsOf 64 (laneF64 F.host 4 v) = Ieee.widen (bitsOf 32 v) :=
      fun v => bitsOf_bytesOf (by decide) _
    rw [hbits, hbits]
    exact ⟨Ieee.isNaN_widen hx, Ieee.isNaN_widen hy, Ieee.lt_widen hx hy⟩
  · exact ⟨hx, hy, rfl⟩

/-- The value of a partial derivative. -/
theorem hasValue_selectPartial (hM : M.IsHost F) {partF : ℕ → IRExpr} {x y : List Byte}
    (hx : HasValue M.toInterp env s (partF 0) .f64 x)
    (hy : HasValue M.toInterp env s (partF 1) .f64 y) (hnx : ¬Ieee.IsNaN (bitsOf 64 x))
    (hny : ¬Ieee.IsNaN (bitsOf 64 y)) (ifLess otherwise : BitVec 64) :
    HasValue M.toInterp env s (selectPartial partF ifLess otherwise) .f64
      (bytesOf (if Ieee.lt (bitsOf 64 x) (bitsOf 64 y) then ifLess else otherwise)) := by
  have hconst : ∀ bits, HasValue M.toInterp env s (f64Const bits) .f64 (bytesOf bits) := by
    intro bits
    have hv := HasValue.const hM.isVex env s (.f64 bits) rfl
    rwa [hM.const] at hv
  have hcond : (isLess (.helper .cmpF64) (partF 0) (partF 1)).inBounds env.length 0 = true := by
    rw [isLess, IRExpr.inBounds, IRExpr.inBounds, hx.fits, hy.fits]
    rfl
  have hite := HasValue.ite hcond (hconst ifLess) (hconst otherwise)
  rw [hM.isTrue_isLess s hx.eval hy.eval hnx hny, ← apply_ite bytesOf] at hite
  exact hite

theorem minMaxPartials_eq (op : MinMaxOp) (partF : ℕ → IRExpr) :
    minMaxPartials op partF =
      [selectPartial partF (op.partialBits true).1 (op.partialBits false).1,
        selectPartial partF (op.partialBits true).2 (op.partialBits false).2] := by
  cases op <;> rfl

/-- What is known about the log, while the components are handled: there is one call for each
component that has been computed, and the one for the component `c₀` has certain partial
derivatives. -/
def LoggedPartials (l : Simd) (c₀ : ℕ) (diffs : List (List Byte)) (log₀ : List (List (List Byte)))
    (us : List (List (List Byte))) (s : State Byte (T × List (List (List Byte)))) : Prop :=
  ∃ calls, s.tool.2 = log₀ ++ calls ∧ calls.length = min us.length l.computedLanes ∧
    ∀ args, calls[c₀]? = some args → args.drop 4 = diffs

theorem LoggedPartials.copy {l : Simd} {c₀ : ℕ} {diffs : List (List Byte)}
    {log₀ : List (List (List Byte))} {us : List (List (List Byte))}
    {s : State Byte (T × List (List (List Byte)))} (h : LoggedPartials l c₀ diffs log₀ us s)
    (hus : l.computedLanes ≤ us.length) (ws : List (List Byte)) :
    LoggedPartials l c₀ diffs log₀ (us ++ [ws]) s := by
  obtain ⟨calls, hlog, hlen, hdiffs⟩ := h
  refine ⟨calls, hlog, ?_, hdiffs⟩
  rw [hlen, List.length_append]
  omega

theorem LoggedPartials.call {l : Simd} {c₀ : ℕ} {diffs args : List (List Byte)}
    {log₀ : List (List (List Byte))} {us : List (List (List Byte))}
    {s s' : State Byte (T × List (List (List Byte)))} (h : LoggedPartials l c₀ diffs log₀ us s)
    (hus : us.length < l.computedLanes) (hs' : s'.tool.2 = s.tool.2 ++ [args])
    (hargs : us.length = c₀ → args.drop 4 = diffs) (ws : List (List Byte)) :
    LoggedPartials l c₀ diffs log₀ (us ++ [ws]) s' := by
  obtain ⟨calls, hlog, hlen, hdiffs⟩ := h
  refine ⟨calls ++ [args], ?_, ?_, ?_⟩
  · rw [hs', hlog, List.append_assoc]
  · rw [List.length_append, List.length_append, List.length_singleton, List.length_singleton]
    omega
  · intro args' hargs'
    rcases Nat.lt_or_ge c₀ calls.length with hlt | hge
    · rw [List.getElem?_append_left hlt] at hargs'
      exact hdiffs args' hargs'
    · rw [List.getElem?_append_right hge] at hargs'
      obtain ⟨hlt, hget⟩ := List.getElem?_eq_some_iff.mp hargs'
      rw [List.length_singleton] at hlt
      obtain rfl : args = args' := by simpa using hget
      exact hargs (by omega)

/-- The partial derivatives of a minimum or maximum in a lane. -/
def minMaxDiffs (op : MinMaxOp) (l : MinMaxLayout) (c : ℕ) (x y : List Byte) : List (List Byte) :=
  let p := op.partialBits (Ieee.lt (l.laneBits c x) (l.laneBits c y))
  [bytesOf p.1, bytesOf p.2]

/-- The values of the partial derivatives that are recorded for a lane. -/
theorem evalExprs_minMaxPartials (hM : M.IsHost F) (op : MinMaxOp) (l : MinMaxLayout) {c : ℕ}
    {x y : List Byte} {parts : List IRExpr} (hx : ¬Ieee.IsNaN (l.laneBits c x))
    (hy : ¬Ieee.IsNaN (l.laneBits c y))
    (hfst : HasValue M.toInterp env s (partAsF64 l.simd.fpsize (inputParts parts 0).1) .f64
      (laneF64 F.host l.simd.fpsize (lane l.simd.fpsize c x)))
    (hsnd : HasValue M.toInterp env s (partAsF64 l.simd.fpsize (inputParts parts 1).1) .f64
      (laneF64 F.host l.simd.fpsize (lane l.simd.fpsize c y))) :
    evalExprs M.toInterp s
        ((minMaxPartials op fun m => partAsF64 l.simd.fpsize (inputParts parts m).1).map
          (.unop (.unMove .reinterpF64asI64)))
      = minMaxDiffs op l c x y := by
  obtain ⟨hnx, hny, hless⟩ := lt_laneF64 (F := F) l hx hy
  have hval : ∀ ifLess otherwise, evalExpr M.toInterp s (.unop (.unMove .reinterpF64asI64)
      (selectPartial (fun m => partAsF64 l.simd.fpsize (inputParts parts m).1) ifLess otherwise))
        = bytesOf (if Ieee.lt (l.laneBits c x) (l.laneBits c y) then ifLess else otherwise) := by
    intro ifLess otherwise
    rw [← hless]
    exact ((hasValue_selectPartial hM hfst hsnd hnx hny ifLess otherwise).reinterpret hM.isVex
      (.unMove .reinterpF64asI64) rfl).eval
  rw [minMaxPartials_eq, List.map_cons, List.map_cons, List.map_nil, evalExprs, evalExprs,
    evalExprs, hval, hval, minMaxDiffs]
  cases Ieee.lt (l.laneBits c x) (l.laneBits c y) <;> rfl

/-- The code of recording mode for one component. -/
theorem wp_minMaxBody (hM : M.IsHost F) (o : Options) (op : MinMaxOp) (l : MinMaxLayout)
    {s : State Byte (T × List (List (List Byte)))} {parts : List IRExpr} {c : ℕ}
    {x xLo xHi y yLo yHi : List Byte} (hxlen : (lane l.simd.fpsize c x).length = l.simd.fpsize)
    (hylen : (lane l.simd.fpsize c y).length = l.simd.fpsize)
    (hparts : HasParts M.toInterp env s parts ([x, xLo, xHi, y, yLo, yHi].map fun v =>
      widenBytes M.zero l.simd.fpsize (lane l.simd.fpsize c v))) :
    (execMeaning M.logged).wp (barBody o 2 l.simd.fpsize (minMaxPartials op) (minMaxValue op)
      parts) env s fun outs env' s' => Extends env s env' s' ∧ ∃ args index,
        s'.tool.2 = s.tool.2 ++ [args] ∧
        HasParts M.toInterp env' s' outs [loIndex M.zero index, hiIndex M.zero index] ∧
        (¬Ieee.IsNaN (l.laneBits c x) → ¬Ieee.IsNaN (l.laneBits c y) →
          args.drop 4 = minMaxDiffs op l c x y) := by
  have hwiden : ∀ v, (F.host.f32toF64 v).length = 8 := fun v => length_natToBytes _ _
  rw [barBody_two (minMaxPartials_eq op _)]
  apply wp_mono (wp_dgBarWriteToTape hM.logged.isVex hM.logged.records o _ _ _ _ _ _ _)
  rintro outs env' s' ⟨hext, v, r, rfl, -, htool, houts⟩
  refine ⟨hext, _, _, by rw [htool, tapeCall_logged], houts, ?_⟩
  intro hx hy
  have h₁ : HasValue M.toInterp env s (inputParts parts 0).1 .i64 _ :=
    hparts.getD (j := 0) (by simp)
  have h₂ : HasValue M.toInterp env s (inputParts parts 1).1 .i64 _ :=
    hparts.getD (j := 3) (by simp)
  have hdiffs := evalExprs_minMaxPartials hM.logged op l hx hy
    (hasValue_partAsF64 hM.logged.isVex hwiden hxlen h₁)
    (hasValue_partAsF64 hM.logged.isVex hwiden hylen h₂)
  rw [minMaxPartials_eq] at hdiffs
  exact hdiffs

/-- Recording mode puts the partial derivatives zero and one on the tape. -/
theorem wp_minMaxBar (hM : M.IsHost F) (o : Options) (op : MinMaxOp) (l : MinMaxLayout)
    {s : State Byte (T × List (List (List Byte)))} {a₁ lo₁ hi₁ a₂ lo₂ hi₂ : IRExpr}
    {x xLo xHi y yLo yHi : List Byte}
    (hv : HasVectors M.toInterp env s (l.simd.fpsize * l.simd.simdsize)
      [a₁, lo₁, hi₁, a₂, lo₂, hi₂] [x, xLo, xHi, y, yLo, yHi]) {c₀ : ℕ}
    (hx : ¬Ieee.IsNaN (l.laneBits c₀ x)) (hy : ¬Ieee.IsNaN (l.laneBits c₀ y)) :
    (execMeaning M.logged).wp (dgBarOperation o (.minMax op l) (numbered .vecret [a₁, a₂])
      (numbered none [some [lo₁, hi₁], some [lo₂, hi₂]])) env s fun out _ s' =>
        ∃ shadow us, out = some shadow ∧ us.length = l.simd.simdsize ∧
          LoggedPartials l.simd c₀ (minMaxDiffs op l c₀ x y) s.tool.2 us s' := by
  have hlanes : l.simd.computedLanes = if l.simd.llo then 1 else l.simd.simdsize := rfl
  have hlane : ∀ {v : List Byte} {e : IRExpr}, (∃ ty, HasValue M.toInterp env s e ty v ∧
      ty.isVector = true ∧ sizeofIRType ty = l.simd.fpsize * l.simd.simdsize) →
      ∀ c < l.simd.simdsize, (lane l.simd.fpsize c v).length = l.simd.fpsize := by
    rintro v e ⟨ty, hv, -, hsize⟩ c hc
    exact length_lane (by rw [hv.length, hsize]; exact Nat.mul_le_mul_left _ hc)
  -- The invariant: each computed lane has made a call, and the one of `c₀` is as claimed.
  have hbody : ∀ c < l.simd.simdsize, BodySpec M.logged env s 2 l.simd.fpsize
      [x, xLo, xHi, y, yLo, yHi] (LoggedPartials l.simd c₀ (minMaxDiffs op l c₀ x y) s.tool.2)
      (fun c => if l.simd.llo && c ≠ 0 then copyBody
        else barBody o 2 l.simd.fpsize (minMaxPartials op) (minMaxValue op)) c := by
    intro c hc
    apply bodySpec_llo
    · intro hllo hc0
      apply bodySpec_copyBody
      · show 3 ≤ 6
        decide
      intro us s' hus hInv
      apply hInv.copy
      rw [hlanes, if_pos hllo]
      omega
    · intro hllo env' s' parts us _ hus hInv hparts
      have hcount : us.length < l.simd.computedLanes := by
        rw [hlanes]
        split
        · have := hllo ‹_›
          omega
        · omega
      obtain _ | ⟨hx', _ | ⟨-, _ | ⟨-, _ | ⟨hy', -⟩⟩⟩⟩ := hv
      apply wp_mono (wp_minMaxBody hM o op l (hlane hx' c hc) (hlane hy' c hc) hparts)
      rintro outs env'' s'' ⟨hext, args, index, hlog, houts, hdiffs⟩
      refine ⟨hext, _, rfl, houts, hInv.call hcount hlog ?_ _⟩
      intro hc₀
      obtain rfl : c = c₀ := by omega
      exact hdiffs hx hy
  apply wp_bind
  apply wp_mono (wp_layersCode hM.logged.isVex l.valid (by cases l <;> rfl) (by cases l <;> rfl)
    hv hbody ⟨[], by simp, by simp, by simp⟩)
  rintro outs env' s' ⟨-, us, eLo, eHi, hus, hInv, rfl, -, -⟩
  exact wp_pure ⟨_, us, rfl, hus.length_eq, hInv⟩

end Recording

/-! ### Both modes -/

/-- The dot value that is computed in forward mode, in a lane. -/
def dotLane (M : Machine Byte T) (op : MinMaxOp) (l : MinMaxLayout) (env : List IRType)
    (s : State Byte T) (a₁ d₁ a₂ d₂ : IRExpr) (c : ℕ) : Option (List Byte) :=
  match runEmit M (dgDotOperation (.minMax op l) (numbered .vecret [a₁, a₂])
    (numbered none [some [d₁], some [d₂]])) env s with
  | some (some shadow, s') =>
      some (lane l.simd.fpsize c (evalExpr M.toInterp s' (shadow.layer 0)))
  | _ => none

/-- The partial derivatives in the call for a lane, in recording mode. -/
def recordedPartials (M : Machine Byte T) (o : Options) (op : MinMaxOp) (l : MinMaxLayout)
    (env : List IRType) (s : State Byte (T × List (List (List Byte))))
    (a₁ lo₁ hi₁ a₂ lo₂ hi₂ : IRExpr) (c : ℕ) : Option (List Byte × List Byte) :=
  match runEmit M.logged (dgBarOperation o (.minMax op l) (numbered .vecret [a₁, a₂])
    (numbered none [some [lo₁, hi₁], some [lo₂, hi₂]])) env s with
  | some (some _, s') =>
      (s'.tool.2.drop s.tool.2.length)[c]?.map fun args => (args.getD 4 [], args.getD 5 [])
  | _ => none

/-- The number in a lane of a vector. -/
def laneVal {K : Type*} [Ring K] (V : Ieee.Valuation K) (l : MinMaxLayout) (c : ℕ)
    (v : List Byte) : K :=
  V.val (l.laneBits c v)

/-- The dot value of forward mode is the one that is given by the partial derivatives of
recording mode. -/
def AgreesWith {K : Type*} [Ring K] (V : Ieee.Valuation K) (l : MinMaxLayout) (c : ℕ)
    (dot : Option (List Byte)) (partials : Option (List Byte × List Byte)) (xd yd : List Byte) :
    Prop :=
  ∃ r p, dot = some r ∧ partials = some p ∧ V.val (bitsOf (8 * l.simd.fpsize) r)
    = V.val (bitsOf 64 p.1) * laneVal V l c xd + V.val (bitsOf 64 p.2) * laneVal V l c yd

section Both

variable {M : Machine Byte T} {F : FpSem Byte} {env env' : List IRType} {s : State Byte T}
  {s' : State Byte (T × List (List (List Byte)))} {a₁ d₁ a₂ d₂ lo₁ hi₁ lo₂ hi₂ : IRExpr}
  {x xd xLo xHi y yd yLo yHi : List Byte} {op : MinMaxOp} {l : MinMaxLayout} {c : ℕ}

theorem dotLane_eq (hM : M.IsHost F) (hc : c < l.simd.simdsize)
    (hv : HasVectors M.toInterp env s (l.simd.fpsize * l.simd.simdsize) [a₁, d₁, a₂, d₂]
      [x, xd, y, yd]) :
    dotLane M op l env s a₁ d₁ a₂ d₂ c =
      some (if op.selectsFirst (l.laneBits c x) (l.laneBits c y)
        then lane l.simd.fpsize c xd else lane l.simd.fpsize c yd) := by
  obtain ⟨out, -, s', hrun, e, v, rfl, heval, hlanes⟩ := exists_runEmit (wp_minMaxDot hM op l hv)
  rw [dotLane, hrun]
  show some (lane l.simd.fpsize c (evalExpr M.toInterp s' e)) = _
  rw [heval, hlanes c hc]

theorem recordedPartials_eq (hM : M.IsHost F) (o : Options) (hc : c < l.simd.computedLanes)
    (hv : HasVectors M.toInterp env' s' (l.simd.fpsize * l.simd.simdsize)
      [a₁, lo₁, hi₁, a₂, lo₂, hi₂] [x, xLo, xHi, y, yLo, yHi])
    (hx : ¬Ieee.IsNaN (l.laneBits c x)) (hy : ¬Ieee.IsNaN (l.laneBits c y)) :
    recordedPartials M o op l env' s' a₁ lo₁ hi₁ a₂ lo₂ hi₂ c =
      some (bytesOf (op.partialBits (Ieee.lt (l.laneBits c x) (l.laneBits c y))).1,
        bytesOf (op.partialBits (Ieee.lt (l.laneBits c x) (l.laneBits c y))).2) := by
  obtain ⟨out, -, s'', hrun, shadow, us, rfl, hus, calls, hlog, hlen, hdiffs⟩ :=
    exists_runEmit (wp_minMaxBar hM o op l hv hx hy)
  have hle : l.simd.computedLanes ≤ l.simd.simdsize := by cases l <;> decide
  have hcalls : c < calls.length := by omega
  have hargs := hdiffs calls[c] (List.getElem?_eq_getElem hcalls)
  rw [recordedPartials, hrun]
  show (s''.tool.2.drop s'.tool.2.length)[c]?.map _ = _
  rw [hlog, List.drop_left, List.getElem?_eq_getElem hcalls, Option.map_some]
  have hget : ∀ j, calls[c].getD (4 + j) [] = (minMaxDiffs op l c x y).getD j [] := by
    intro j
    rw [← hargs, List.getD_eq_getElem?_getD, List.getD_eq_getElem?_getD, List.getElem?_drop]
  exact congrArg some (Prod.ext (hget 0) (hget 1))

theorem lt_eq (hx : ¬Ieee.IsNaN (l.laneBits c x)) (hy : ¬Ieee.IsNaN (l.laneBits c y)) :
    Ieee.lt (l.laneBits c x) (l.laneBits c y)
      = decide (Ieee.key (l.laneBits c x) < Ieee.key (l.laneBits c y)) := by
  rw [Ieee.lt, decide_eq_false hx, decide_eq_false hy]
  rfl

/-- The comparison of both modes, for operands whose order is known. -/
theorem agreesWith_iff {K : Type*} [Ring K] (V : Ieee.Valuation K) (l : MinMaxLayout)
    (hx : ¬Ieee.IsNaN (l.laneBits c x)) (hy : ¬Ieee.IsNaN (l.laneBits c y)) :
    AgreesWith V l c
        (some (if op.selectsFirst (l.laneBits c x) (l.laneBits c y) then lane l.simd.fpsize c xd
          else lane l.simd.fpsize c yd))
        (some (bytesOf (op.partialBits (Ieee.lt (l.laneBits c x) (l.laneBits c y))).1,
          bytesOf (op.partialBits (Ieee.lt (l.laneBits c x) (l.laneBits c y))).2)) xd yd
      ↔ op = .min ∨ Ieee.key (l.laneBits c x) ≠ Ieee.key (l.laneBits c y) ∨
        laneVal V l c xd = laneVal V l c yd := by
  have hzero : V.val (bitsOf 64 (bytesOf 0#64)) = 0 := by
    rw [bitsOf_bytesOf (by decide), V.zero]
  have hone : V.val (bitsOf 64 (bytesOf f64One)) = 1 := by
    rw [bitsOf_bytesOf (by decide)]
    exact V.one
  have hvals : ∀ (r : List Byte) (p : List Byte × List Byte), AgreesWith V l c (some r) (some p) xd yd
      ↔ V.val (bitsOf (8 * l.simd.fpsize) r)
        = V.val (bitsOf 64 p.1) * laneVal V l c xd + V.val (bitsOf 64 p.2) * laneVal V l c yd := by
    intro r p
    constructor
    · rintro ⟨r', p', hr, hp, h⟩
      rwa [Option.some_inj.mp hr, Option.some_inj.mp hp]
    · intro h
      exact ⟨r, p, rfl, rfl, h⟩
  have hlane : ∀ v, V.val (bitsOf (8 * l.simd.fpsize) (lane l.simd.fpsize c v)) = laneVal V l c v :=
    fun _ => rfl
  rw [hvals]
  cases op with
  | min =>
    -- both modes decide by the same comparison
    rw [MinMaxOp.selectsFirst, MinMaxOp.partialBits]
    cases Ieee.lt (l.laneBits c x) (l.laneBits c y) <;> simp [hzero, hone, hlane]
  | max =>
    rw [MinMaxOp.selectsFirst, MinMaxOp.partialBits, lt_eq hx hy, lt_eq hy hx]
    rcases Int.lt_trichotomy (Ieee.key (l.laneBits c x)) (Ieee.key (l.laneBits c y)) with h | h | h
    · simp [h, Int.ne_of_lt h, Int.lt_asymm h, hzero, hone, hlane]
    · simp [h, hzero, hone, hlane, eq_comm]
    · simp [h, (Int.ne_of_lt h).symm, Int.lt_asymm h, hzero, hone, hlane]

/-- For a minimum, both modes agree.  For a maximum, they agree unless the operands are equal,
while their dot values are not. -/
theorem minMax_modesAgree_iff {K : Type*} [Ring K] (V : Ieee.Valuation K) (hM : M.IsHost F)
    (o : Options) (hc : c < l.simd.computedLanes)
    (hdot : HasVectors M.toInterp env s (l.simd.fpsize * l.simd.simdsize) [a₁, d₁, a₂, d₂]
      [x, xd, y, yd])
    (hbar : HasVectors M.toInterp env' s' (l.simd.fpsize * l.simd.simdsize)
      [a₁, lo₁, hi₁, a₂, lo₂, hi₂] [x, xLo, xHi, y, yLo, yHi])
    (hx : ¬Ieee.IsNaN (l.laneBits c x)) (hy : ¬Ieee.IsNaN (l.laneBits c y)) :
    AgreesWith V l c (dotLane M op l env s a₁ d₁ a₂ d₂ c)
        (recordedPartials M o op l env' s' a₁ lo₁ hi₁ a₂ lo₂ hi₂ c) xd yd
      ↔ op = .min ∨ Ieee.key (l.laneBits c x) ≠ Ieee.key (l.laneBits c y) ∨
        laneVal V l c xd = laneVal V l c yd := by
  have hle : l.simd.computedLanes ≤ l.simd.simdsize := by cases l <;> decide
  rw [dotLane_eq hM (by omega) hdot, recordedPartials_eq hM o hc hbar hx hy]
  exact agreesWith_iff V l hx hy

end Both

/-- The machine of the following examples. -/
def idleHost : Machine Byte Unit := Machine.idle (toolInterp FpSem.zeros Interp.silent) 0

theorem isHost_idleHost : idleHost.IsHost FpSem.zeros :=
  ⟨⟨Interp.silent, rfl⟩, fun _ _ _ => rfl⟩

/-- The numbers zero and one. -/
def oneOrZero : Ieee.Valuation ℤ where
  val x := if x.toNat = f64One.toNat then 1 else 0
  zero := by decide
  one := by decide

/-- Two vectors with two lanes each, their dot values, and zero indices. -/
def doubles (x y xd yd : BitVec 64) : List (List Byte) :=
  ([x, y, xd, yd].map fun v => bytesOf v ++ bytesOf v) ++ List.replicate 4 (List.replicate 16 0)

/-- The vectors are in temporaries. -/
theorem hasValue_doubles {S : Type} (tool : S) (x y xd yd : BitVec 64) {t : IRTemp} (ht : t < 8) :
    HasValue idleHost.toInterp (List.replicate 8 .v128) (State.ofTmps tool (doubles x y xd yd))
      (.rdTmp t) .v128 ((doubles x y xd yd).getD t []) := by
  have hlen : ∀ v ∈ doubles x y xd yd, v.length = 16 := by simp [doubles, bytesOf]
  have ht' : t < (doubles x y xd yd).length := ht
  apply HasValue.rdTmp (List.getElem?_replicate_of_lt ht)
  show ((doubles x y xd yd).getD t []).length = 16
  rw [List.getD_eq_getElem?_getD, List.getElem?_eq_getElem ht']
  exact hlen _ (List.getElem_mem ht')

theorem hasVectors_doubles {S : Type} (tool : S) (x y xd yd : BitVec 64) (ts : List IRTemp)
    (hts : ∀ t ∈ ts, t < 8) :
    HasVectors idleHost.toInterp (List.replicate 8 .v128)
      (State.ofTmps tool (doubles x y xd yd)) 16 (ts.map .rdTmp)
      (ts.map fun t => (doubles x y xd yd).getD t []) := by
  rw [HasVectors, List.forall₂_map_left_iff, List.forall₂_map_right_iff, List.forall₂_same]
  intro t ht
  exact ⟨.v128, hasValue_doubles tool x y xd yd (hts t ht), rfl, rfl⟩

/-- At `max(1, 0)`, both modes agree. -/
theorem minMax_modesAgree_iff_max_one_zero :
    AgreesWith oneOrZero .p64F0x2 0
      (dotLane idleHost .max .p64F0x2 (List.replicate 8 .v128)
        (State.ofTmps () (doubles f64One 0 f64One 0)) (.rdTmp 0) (.rdTmp 2) (.rdTmp 1) (.rdTmp 3) 0)
      (recordedPartials idleHost ⟨.b, false, false⟩ .max .p64F0x2 (List.replicate 8 .v128)
        (State.ofTmps ((), []) (doubles f64One 0 f64One 0)) (.rdTmp 0) (.rdTmp 4) (.rdTmp 5)
        (.rdTmp 1) (.rdTmp 6) (.rdTmp 7) 0)
      (bytesOf f64One ++ bytesOf f64One) (bytesOf 0#64 ++ bytesOf 0#64) :=
  (minMax_modesAgree_iff oneOrZero isHost_idleHost _ (by decide)
    (hasVectors_doubles () f64One 0 f64One 0 [0, 2, 1, 3] (by decide))
    (hasVectors_doubles ((), []) f64One 0 f64One 0 [0, 4, 5, 1, 6, 7] (by decide)) (by decide)
    (by decide)).mpr
    (Or.inr (Or.inl (by decide)))

/-- At `max(1, 1)`, forward mode selects the second dot value, and recording mode the first
one. -/
theorem not_modesAgree_max_one_one :
    ¬AgreesWith oneOrZero .p64F0x2 0
      (dotLane idleHost .max .p64F0x2 (List.replicate 8 .v128)
        (State.ofTmps () (doubles f64One f64One f64One 0)) (.rdTmp 0) (.rdTmp 2) (.rdTmp 1)
        (.rdTmp 3) 0)
      (recordedPartials idleHost ⟨.b, false, false⟩ .max .p64F0x2 (List.replicate 8 .v128)
        (State.ofTmps ((), []) (doubles f64One f64One f64One 0)) (.rdTmp 0) (.rdTmp 4) (.rdTmp 5)
        (.rdTmp 1) (.rdTmp 6) (.rdTmp 7) 0)
      (bytesOf f64One ++ bytesOf f64One) (bytesOf 0#64 ++ bytesOf 0#64) := by
  have hnan : ¬Ieee.IsNaN (MinMaxLayout.p64F0x2.laneBits 0 (bytesOf f64One ++ bytesOf f64One)) := by
    decide
  rw [dotLane_eq isHost_idleHost (by decide)
      (hasVectors_doubles () f64One f64One f64One 0 [0, 2, 1, 3] (by decide)),
    recordedPartials_eq isHost_idleHost _ (by decide)
      (hasVectors_doubles ((), []) f64One f64One f64One 0 [0, 4, 5, 1, 6, 7] (by decide)) hnan
      hnan]
  refine fun h => absurd ((agreesWith_iff oneOrZero .p64F0x2 hnan hnan).mp h) ?_
  decide

end Derivgrind
