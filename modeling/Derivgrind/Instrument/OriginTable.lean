import Derivgrind.Instrument.OriginBitwise

/-!
# Origins in the table of operations

For each operation in the table, the shadow of the result follows its origins if the shadows of the
operands do.  Operations that are recorded give new numbers; other operations move bytes, or have a
result without an index.

## Main definitions

* `OriginOperands` — operands, and both layers of their indices.

## Main results

* `exists_createBarCode` — operations that are recorded.
* `HoldsAll.signWiden`, `HoldsAll.shift` — operations on integers.
* `wp_barcode_origins` — **the code in the table.**
-/

namespace Derivgrind

open Emitter.Meaning

/-! ### Operations that are recorded -/

/-- The code for an operation that is recorded acts on all lanes. -/
theorem exists_createBarCode {op : IROp} {info : IROpInfo} {inputs : List ℕ} {l : Simd}
    (hinfo : irOpInfo? op = some info) (hrec : op.recorded? = some (inputs, l)) (o : Options)
    (arg iLo iHi : ℕ → IRExpr) : Componentwise op inputs l ∧ (∀ i ∈ inputs, 0 < i) ∧
      ∃ partials value, (∀ partF, (partials partF).length = inputs.length) ∧
        info.barcode o arg iLo iHi = createBarCode o op inputs partials value l arg iLo iHi := by
  cases op with
  | arith op l =>
    obtain rfl := Option.some_inj.mp hinfo
    obtain ⟨rfl, rfl⟩ := Prod.mk.inj (Option.some_inj.mp hrec)
    refine ⟨componentwise_arith op l, ?_, _, _, fun partF => ?_, rfl⟩
    · cases l <;> decide
    · cases op <;> rfl
  | sqrt l =>
    obtain rfl := Option.some_inj.mp hinfo
    obtain ⟨rfl, rfl⟩ := Prod.mk.inj (Option.some_inj.mp hrec)
    refine ⟨componentwise_sqrt l, ?_, _, _, fun _ => rfl, rfl⟩
    cases l <;> decide
  | neg l =>
    obtain rfl := Option.some_inj.mp hinfo
    obtain ⟨rfl, rfl⟩ := Prod.mk.inj (Option.some_inj.mp hrec)
    exact ⟨componentwise_neg l, by decide, _, _, fun _ => rfl, rfl⟩
  | abs l =>
    obtain rfl := Option.some_inj.mp hinfo
    obtain ⟨rfl, rfl⟩ := Prod.mk.inj (Option.some_inj.mp hrec)
    exact ⟨componentwise_abs l, by decide, _, _, fun _ => rfl, rfl⟩
  | minMax op l =>
    obtain rfl := Option.some_inj.mp hinfo
    obtain ⟨rfl, rfl⟩ := Prod.mk.inj (Option.some_inj.mp hrec)
    refine ⟨componentwise_minMax op l, by decide, _, _, fun _ => ?_, rfl⟩
    cases op <;> rfl
  | fma sub l =>
    obtain rfl := Option.some_inj.mp hinfo
    obtain ⟨rfl, rfl⟩ := Prod.mk.inj (Option.some_inj.mp hrec)
    exact ⟨componentwise_fma sub l, by decide, _, _, fun _ => rfl, rfl⟩
  | scaleF64 =>
    obtain rfl := Option.some_inj.mp hinfo
    obtain ⟨rfl, rfl⟩ := Prod.mk.inj (Option.some_inj.mp hrec)
    exact ⟨componentwise_scaleF64, by decide, _, _, fun _ => rfl, rfl⟩
  | yl2xF64 =>
    obtain rfl := Option.some_inj.mp hinfo
    obtain ⟨rfl, rfl⟩ := Prod.mk.inj (Option.some_inj.mp hrec)
    exact ⟨componentwise_yl2x rfl, by decide, _, _, fun _ => rfl, rfl⟩
  | yl2xp1F64 =>
    obtain rfl := Option.some_inj.mp hinfo
    obtain ⟨rfl, rfl⟩ := Prod.mk.inj (Option.some_inj.mp hrec)
    exact ⟨componentwise_yl2x rfl, by decide, _, _, fun _ => rfl, rfl⟩
  | _ => cases hrec

/-! ### Operands -/

/-- The operands of an operation, and both layers of their indices. -/
structure OriginOperands (M : Machine Byte BarTool) (W : Numbering) (env : List IRType)
    (s : State Byte BarTool) (arg iLo iHi : ℕ → IRExpr) (tys : List IRType) (vs : List (List Byte))
    (os : List (List Origin)) : Prop where
  length : os.length = tys.length
  value : ∀ i ty, tys[i]? = some ty → HasValue M.toInterp env s (arg (i + 1)) ty (vs.getD i [])
  index : ∀ i ty, tys[i]? = some ty → ∃ lo hi, HasValue M.toInterp env s (iLo (i + 1)) ty lo ∧
    HasValue M.toInterp env s (iHi (i + 1)) ty hi ∧ W.HoldsAll lo hi (os.getD i [])

section Operands

variable {M : Machine Byte BarTool} {W : Numbering} {env : List IRType} {s : State Byte BarTool}
  {arg iLo iHi : ℕ → IRExpr} {tys : List IRType} {vs : List (List Byte)} {os : List (List Origin)}

/-- Some operands of the same type, and both layers of their indices. -/
theorem OriginOperands.exists_vectors (h : OriginOperands M W env s arg iLo iHi tys vs os)
    {ty : IRType} {size : ℕ} (hvec : ty.isVector = true) (hsize : sizeofIRType ty = size)
    {inputs : List ℕ} (hinputs : ∀ i ∈ inputs, 0 < i ∧ tys[i - 1]? = some ty) :
    ∃ ws, HasVectors M.toInterp env s size (layeredInputs inputs arg iLo iHi) ws ∧
      ∀ m < inputs.length, ws.getD (3 * m) [] = operandOf vs inputs m ∧
        W.HoldsAll (ws.getD (3 * m + 1) []) (ws.getD (3 * m + 2) []) (operandOf os inputs m) := by
  induction inputs with
  | nil => exact ⟨[], List.Forall₂.nil, by simp⟩
  | cons i inputs ih =>
    obtain ⟨⟨hpos, hty⟩, hrest⟩ := List.forall_mem_cons.mp hinputs
    obtain ⟨ws, hws, hall⟩ := ih hrest
    have harg := h.value (i - 1) ty hty
    obtain ⟨lo, hi, hlo, hhi, hholds⟩ := h.index (i - 1) ty hty
    rw [Nat.sub_add_cancel hpos] at harg hlo hhi
    refine ⟨vs.getD (i - 1) [] :: lo :: hi :: ws, ?_, fun m hm => ?_⟩
    · exact .cons ⟨ty, harg, hvec, hsize⟩ (.cons ⟨ty, hlo, hvec, hsize⟩
        (.cons ⟨ty, hhi, hvec, hsize⟩ hws))
    · cases m with
      | zero => exact ⟨rfl, hholds⟩
      | succ m => exact hall m (Nat.lt_of_succ_lt_succ hm)

end Operands

/-! ### Operations on integers -/

section Integers

variable {I : Interp Byte} {W : Numbering} {lo hi : List Byte} {o : List Origin}

namespace Numbering

/-- Widening both layers with the sign. -/
theorem HoldsAll.signWiden (hI : I.Integers) (h : W.HoldsAll lo hi o) {m : SignWiden}
    (hargs : m.sig.args.map sizeofIRType = [o.length]) :
    W.HoldsAll (I.op (.signWiden m) [lo]) (I.op (.signWiden m) [hi])
      (widenOrigins (sizeofIRType m.sig.dst) o) := by
  rw [hI.signWiden m lo (by rw [hargs, h.length_lo]), hI.signWiden m hi (by rw [hargs, h.length_hi]),
    h.length_lo, h.length_hi, widenOrigins]
  refine h.append ?_
  by_cases hzero : (o.getD (o.length - 1) .zero).isZero = true
  · obtain ⟨hlo, hhi⟩ := (h.byte (o.length - 1)).eq_zero hzero
    rw [hlo, hhi, if_pos hzero]
    exact HoldsAll.zeros W _
  · rw [if_neg hzero]
    exact HoldsAll.unknown W List.length_replicate List.length_replicate

/-- Shifting both layers. -/
theorem HoldsAll.shift (hI : I.Integers) (h : W.HoldsAll lo hi o) (left : Bool) {size : ShiftSize}
    (ho : o.length = sizeofIRType size.type) (n : Byte) :
    W.HoldsAll (I.op (.shift left size) [lo, [n]]) (I.op (.shift left size) [hi, [n]])
      (shiftOrigins left size n.toNat o) := by
  have hlo := h.length_lo.trans ho
  have hhi := h.length_hi.trans ho
  simp only [shiftOrigins, Bool.and_eq_true, decide_eq_true_eq]
  split
  · next hzero =>
    obtain ⟨rfl, rfl⟩ := h.eq_replicate hzero.2
    rw [ho, hI.shift_zero hzero.1]
    exact HoldsAll.zeros W _
  · split
    · next hbytes =>
      rw [hI.shift_bytes hlo (by rw [hlo]; exact hbytes.1) hbytes.2,
        hI.shift_bytes hhi (by rw [hhi]; exact hbytes.1) hbytes.2]
      refine HoldsAll.move (fun i => ?_) _
      cases i with
      | zero => exact h
      | succ i => exact HoldsAll.nil W
    · exact HoldsAll.unknown W ((hI.length_shift left size lo n hlo).trans hlo)
        ((hI.length_shift left size hi n hhi).trans hhi)

end Numbering

end Integers

/-! ### Results without an index -/

section Zero

variable {F : FpSem Byte} {J : Interp Byte} {T : Type}

/-- The constants that recording mode uses by default. -/
theorem eval_barZero {ty : IRType} {zero : IRExpr} (h : barZero? ty = some zero) (s : State Byte T) :
    evalExpr (hostInterp F J) s zero = List.replicate (sizeofIRType ty) 0 := by
  cases ty <;> cases h <;> rfl

/-- The index of the result of a zero-derivative operation. -/
theorem eval_zeroDerivIndex_host (op : ZeroDerivOp) (s : State Byte T) :
    evalExpr (hostInterp F J) s (zeroDerivIndex op)
      = List.replicate (sizeofIRType (typeOfPrimop (.zeroDeriv op)).dst) 0 := by
  cases op <;> rfl

end Zero

/-! ### The table -/

section Table

variable {c : RecordingContext} {F : FpSem Byte} {J : Interp Byte}
  (hbase : c.base.toInterp = hostInterp F J) (hI : c.base.toInterp.Integers)
  (htype : c.tape.typegrind = false) (hram : c.tape.tapeInRam = false) {tid : ThreadId}
  {W : Numbering} {n : ℕ} {upper upper' : Bool} {env : List IRType} {s : State Byte BarTool}
  {arg iLo iHi : ℕ → IRExpr} {op : IROp} {info : IROpInfo} {vs : List (List Byte)}
  {os : List (List Origin)} {o : List Origin}

/-- Code that does nothing, and expressions for both layers. -/
theorem resultHolds_pure {ty : IRType} {eLo eHi : IRExpr} {lo hi : List Byte}
    (hW : W.Valid n 0 upper s.tool) (hlo : HasValue (c.machine tid).toInterp env s eLo ty lo)
    (hhi : HasValue (c.machine tid).toInterp env s eHi ty hi) (hholds : W.HoldsAll lo hi o) :
    (execMeaning (c.machine tid)).wp (pure [eLo, eHi]) env s
      (ResultHolds (c.machine tid) W n upper ty o env s) :=
  wp_pure ⟨Extends.refl env s, rfl, W, 0, Numbering.Grows.refl W, hW, eLo, eHi, lo, hi, rfl, hlo, hhi,
    hholds⟩

include hbase hI in
/-- Operations that are not recorded move bytes, or have a result without an index. -/
theorem wp_barcode_moved (hinfo : irOpInfo? op = some info)
    (h : OriginOperands (c.machine tid) W env s arg iLo iHi (typeOfPrimop op).args vs os)
    (hW : W.Valid n 0 upper s.tool) (hrec : op.recorded? = none)
    (hbitwise : ∀ op' size, op ≠ .bitwise op' size) :
    (execMeaning (c.machine tid)).wp (info.barcode c.options arg iLo iHi) env s
      (ResultHolds (c.machine tid) W n upper (typeOfPrimop op).dst (op.movedOrigins vs os) env s) := by
  have hV := c.isVex hbase tid
  have hz : (c.machine tid).zero = 0 := congrArg Interp.zero hbase
  have hIM : (c.machine tid).toInterp.Integers := hI
  have hnil : W.HoldsAll [] [] [] := Numbering.HoldsAll.nil W
  -- the operands of a move
  have hone : (typeOfPrimop op).args.length = 1 → ∃ u, os = [u] := fun hlen =>
    List.length_eq_one_iff.mp (h.length.trans hlen)
  have htwo : (typeOfPrimop op).args.length = 2 → ∃ u v, os = [u, v] := fun hlen =>
    List.length_eq_two.mp (h.length.trans hlen)
  cases op with
  | unMove m =>
    obtain rfl := Option.some_inj.mp hinfo
    obtain ⟨u, rfl⟩ := hone (by cases m <;> rfl)
    obtain ⟨ty, hty⟩ : ∃ ty, (typeOfPrimop (.unMove m)).args[0]? = some ty := by
      cases m <;> exact ⟨_, rfl⟩
    obtain ⟨lo, hi, hlo, hhi, hholds⟩ := h.index 0 ty hty
    have hroute : (IROp.unMove m).route? = some m.route := rfl
    have hLo := hlo.unopMove hV hroute
    have hHi := hhi.unopMove hV hroute
    rw [hz] at hLo hHi
    refine resultHolds_pure hW hLo hHi (Numbering.HoldsAll.move (fun i => ?_) _)
    cases i with
    | zero => exact hholds
    | succ i => exact hnil
  | binMove m =>
    obtain rfl := Option.some_inj.mp hinfo
    obtain ⟨u, v, rfl⟩ := htwo (by cases m <;> rfl)
    obtain ⟨ty, ty', hty, hty'⟩ : ∃ ty ty', (typeOfPrimop (.binMove m)).args[0]? = some ty ∧
        (typeOfPrimop (.binMove m)).args[1]? = some ty' := by
      cases m <;> exact ⟨_, _, rfl, rfl⟩
    obtain ⟨lo₁, hi₁, hlo₁, hhi₁, hholds₁⟩ := h.index 0 ty hty
    obtain ⟨lo₂, hi₂, hlo₂, hhi₂, hholds₂⟩ := h.index 1 ty' hty'
    have hroute : (IROp.binMove m).route? = some m.route := rfl
    have hLo := hlo₁.binopMove hV hlo₂ hroute
    have hHi := hhi₁.binopMove hV hhi₂ hroute
    rw [hz] at hLo hHi
    refine resultHolds_pure hW hLo hHi (Numbering.HoldsAll.move (fun i => ?_) _)
    match i with
    | 0 => exact hholds₁
    | 1 => exact hholds₂
    | i + 2 => exact hnil
  | op64x4toV256 =>
    obtain rfl := Option.some_inj.mp hinfo
    obtain ⟨a, b, e, f, rfl⟩ := List.length_eq_four.mp h.length
    obtain ⟨lo₁, hi₁, hlo₁, hhi₁, hholds₁⟩ := h.index 0 .i64 rfl
    obtain ⟨lo₂, hi₂, hlo₂, hhi₂, hholds₂⟩ := h.index 1 .i64 rfl
    obtain ⟨lo₃, hi₃, hlo₃, hhi₃, hholds₃⟩ := h.index 2 .i64 rfl
    obtain ⟨lo₄, hi₄, hlo₄, hhi₄, hholds₄⟩ := h.index 3 .i64 rfl
    have hLo := hlo₁.join4 hV hlo₂ hlo₃ hlo₄
    have hHi := hhi₁.join4 hV hhi₂ hhi₃ hhi₄
    rw [← moveBytes_join4 (z := 0) hlo₁.length hlo₂.length hlo₃.length hlo₄.length] at hLo
    rw [← moveBytes_join4 (z := 0) hhi₁.length hhi₂.length hhi₃.length hhi₄.length] at hHi
    refine resultHolds_pure hW hLo hHi (Numbering.HoldsAll.move (fun i => ?_) _)
    match i with
    | 0 => exact hholds₁
    | 1 => exact hholds₂
    | 2 => exact hholds₃
    | 3 => exact hholds₄
    | i + 4 => exact hnil
  | signWiden m =>
    obtain rfl := Option.some_inj.mp hinfo
    obtain ⟨ty, hargs⟩ : ∃ ty, m.sig.args = [ty] := by cases m <;> exact ⟨_, rfl⟩
    obtain ⟨lo, hi, hlo, hhi, hholds⟩ := h.index 0 ty (congrArg (fun l => l[0]?) hargs)
    have hsize : m.sig.args.map sizeofIRType = [(os.getD 0 []).length] := by
      rw [hargs, List.map_singleton, ← hlo.length, hholds.length_lo]
    have hresult := hholds.signWiden hIM hsize
    have hlen : ∀ v, v.length = sizeofIRType ty →
        ((c.machine tid).op (.signWiden m) [v]).length = sizeofIRType m.sig.dst := by
      intro v hv
      rw [hIM.signWiden m v (by rw [hargs, hv]; rfl), List.length_append, List.length_replicate, hv]
      cases m <;> cases hargs <;> rfl
    exact resultHolds_pure hW
      ⟨by rw [IRExpr.inBounds]; exact hlo.fits, rfl, by rw [evalExpr, hlo.eval], hlen lo hlo.length⟩
      ⟨by rw [IRExpr.inBounds]; exact hhi.fits, rfl, by rw [evalExpr, hhi.eval], hlen hi hhi.length⟩
      hresult
  | shift left size =>
    obtain rfl := Option.some_inj.mp hinfo
    obtain ⟨lo, hi, hlo, hhi, hholds⟩ := h.index 0 size.type rfl
    have hamount := h.value 1 .i8 rfl
    obtain ⟨b, hb⟩ : ∃ b, vs.getD 1 [] = [b] := List.length_eq_one_iff.mp hamount.length
    rw [hb] at hamount
    have hsize : (os.getD 0 []).length = sizeofIRType size.type :=
      hholds.length_lo.symm.trans hlo.length
    have hresult := hholds.shift hIM left hsize b
    have hlen : ∀ v, v.length = sizeofIRType size.type →
        ((c.machine tid).op (.shift left size) [v, [b]]).length = sizeofIRType size.type :=
      fun v hv => (hIM.length_shift left size v b hv).trans hv
    show (execMeaning (c.machine tid)).wp _ env s (ResultHolds (c.machine tid) W n upper size.type
      (shiftOrigins left size ((vs.getD 1 []).getD 0 0).toNat (os.getD 0 [])) env s)
    rw [hb]
    exact resultHolds_pure hW
      ⟨by rw [IRExpr.inBounds, hlo.fits, hamount.fits]; rfl, rfl,
        by rw [evalExpr, hlo.eval, hamount.eval], hlen lo hlo.length⟩
      ⟨by rw [IRExpr.inBounds, hhi.fits, hamount.fits]; rfl, rfl,
        by rw [evalExpr, hhi.eval, hamount.eval], hlen hi hhi.length⟩
      hresult
  | f32toF64 =>
    obtain rfl := Option.some_inj.mp hinfo
    obtain ⟨lo, hi, hlo, hhi, hholds⟩ := h.index 0 .f32 rfl
    have hwiden : ∀ {e v}, HasValue (c.machine tid).toInterp env s e .f32 v →
        HasValue (c.machine tid).toInterp env s (f32toF64Info.widenIndex e) .f64
          (v ++ List.replicate 4 0) := by
      intro e v hv
      have hzero := HasValue.const_u32 hV env s
      rw [hz] at hzero
      exact (hzero.join hV (hv.reinterpret hV (.unMove .reinterpF32asI32) rfl)
        (.binMove .op32HLto64) rfl).reinterpret hV (.unMove .reinterpI64asF64) rfl
    exact resultHolds_pure hW (hwiden hlo) (hwiden hhi) (hholds.append (Numbering.HoldsAll.zeros W 4))
  | f64toF32 =>
    obtain rfl := Option.some_inj.mp hinfo
    obtain ⟨lo, hi, hlo, hhi, hholds⟩ := h.index 1 .f64 rfl
    have hnarrow : ∀ {e v}, HasValue (c.machine tid).toInterp env s e .f64 v →
        HasValue (c.machine tid).toInterp env s (f64toF32Info.narrowIndex e) .f32 (v.take 4) := by
      intro e v hv
      have hslice := (hv.reinterpret hV (.unMove .reinterpF64asI64) rfl).slice hV
        (.unMove .op64to32) 0 4 rfl (by decide)
      exact hslice.reinterpret hV (.unMove .reinterpI32asF32) rfl
    exact resultHolds_pure hW (hnarrow hlo) (hnarrow hhi) (hholds.take 4)
  | zeroDeriv op =>
    obtain rfl := Option.some_inj.mp hinfo
    have hzero : HasValue (c.machine tid).toInterp env s (zeroDerivIndex op)
        (typeOfPrimop (.zeroDeriv op)).dst
        (List.replicate (sizeofIRType (typeOfPrimop (.zeroDeriv op)).dst) 0) := by
      refine ⟨by cases op <;> rfl, by cases op <;> rfl, ?_, List.length_replicate⟩
      show evalExpr c.base.toInterp s _ = _
      rw [hbase]
      exact eval_zeroDerivIndex_host op s
    exact resultHolds_pure hW hzero hzero (Numbering.HoldsAll.zeros W _)
  | bitwise op size => exact absurd rfl (hbitwise op size)
  | helperMove m => cases hinfo
  | helper op => cases hinfo
  | other args dst k => cases hinfo
  | _ => cases hrec

include hbase hI htype hram

/-- **The code in the table**: the shadow of the result follows its origins. -/
theorem wp_barcode_origins (hinfo : irOpInfo? op = some info)
    (h : OriginOperands (c.machine tid) W env s arg iLo iHi (typeOfPrimop op).args vs os)
    (hW : W.Valid n 0 upper s.tool) (ho : op.origins n vs os upper = some (o, upper')) :
    (execMeaning (c.machine tid)).wp (info.barcode c.options arg iLo iHi) env s
      (ResultHolds (c.machine tid) W n upper' (typeOfPrimop op).dst o env s) := by
  unfold IROp.origins at ho
  split at ho
  · next inputs l hrec =>
    obtain ⟨o', hrecorded, heq⟩ := Option.map_eq_some_iff.mp ho
    obtain ⟨rfl, rfl⟩ := Prod.mk.inj heq
    obtain ⟨hop, hpos, partials, value, hpartials, hcode⟩ :=
      exists_createBarCode hinfo hrec c.options arg iLo iHi
    obtain ⟨ws, hws, hall⟩ := h.exists_vectors hop.isVector hop.size
      fun i hi => ⟨hpos i hi, hop.args i hi⟩
    rw [hcode]
    exact wp_createBarCode_origins hbase htype hram hop hpartials hws (fun m hm => (hall m hm).2) hW
      hrecorded
  · next op size hrec =>
    obtain rfl := Option.some_inj.mp hinfo
    have hop := componentwise_bitwise op size
    have hinputs : ∀ i ∈ [1, 2], 0 < i ∧ (typeOfPrimop (.bitwise op size)).args[i - 1]?
        = some (typeOfPrimop (.bitwise op size)).dst := fun i hi => ⟨by simp at hi; omega, hop.args i hi⟩
    obtain ⟨ws, hws, hall⟩ := h.exists_vectors hop.isVector hop.size hinputs
    refine wp_bitwise_origins hbase htype hram op size hws (fun m hm => ?_) (fun m hm => ?_) hW ho
    · rw [(hall m hm).1]
      obtain rfl | rfl : m = 0 ∨ m = 1 := by omega
      · rfl
      · rfl
    · have hholds := (hall m hm).2
      obtain rfl | rfl : m = 0 ∨ m = 1 := by omega
      · exact hholds
      · exact hholds
  · next op hbitwise hrec =>
    obtain ⟨rfl, rfl⟩ := Prod.mk.inj (Option.some.inj ho)
    exact wp_barcode_moved hbase hI hinfo h hW hrec hbitwise

end Table

end Derivgrind
