import Derivgrind.Instrument.MinMax
import Derivgrind.Instrument.OriginTape
import Derivgrind.Instrument.TypedTable

/-!
# Origins in the code that records

The emitted code for an operation is run in a state in which the shadows of the operands follow
their origins.  Then the shadow of the result follows the origins of the result: if the operation is
recorded, the new indices are those of new numbers.

## Main definitions

* `Numbering.Valid` — all numbers have indices of blocks.
* `BarTool.Records` — what is kept by a call that records.
* `ResultHolds` — both layers of a result follow its origins.

## Main results

* `wp_barBody_origins`, `wp_createBarCode_origins` — **operations that are recorded.**
-/

namespace Derivgrind

open Emitter.Meaning

/-! ### Numbers and the tape -/

/-- All numbers have indices of blocks, the numbers from position `k` of statement `n` on have no
index yet, and the index that a bitwise operation has left in the upper words may be known. -/
structure Numbering.Valid (W : Numbering) (n k : ℕ) (upper : Bool) (t : BarTool) : Prop where
  sound : t.bar.tape.Sound
  issued : ∀ id i, W.index id = some i → t.bar.tape.Issued i
  fresh : ∀ id : NumberId, n < id.1 ∨ id.1 = n ∧ k ≤ id.2 → W.index id = none
  upper : upper = true → t.bar.tape.Issued t.bar.upperIndex

/-- A block may have been recorded, and its index or zero has been returned. -/
structure BarTool.Records (t t' : BarTool) (index : ULong) : Prop where
  memory : t'.memory = t.memory
  follows : t.bar.Follows t'.bar
  kept : t'.bar.bitwiseOut = t.bar.bitwiseOut
  issued : t'.bar.tape.Issued index

section Numbers

variable {W : Numbering} {n k : ℕ} {upper upper' : Bool} {t t' t'' : BarTool} {i j : ULong}

namespace Numbering.Valid

/-- A position without a number. -/
theorem skip (h : W.Valid n k upper t) : W.Valid n (k + 1) upper t :=
  ⟨h.sound, h.issued, fun id hid => h.fresh id (hid.imp_right fun hid => ⟨hid.1, by omega⟩), h.upper⟩

/-- The next statement. -/
theorem next (h : W.Valid n k upper t) : W.Valid (n + 1) 0 upper t :=
  ⟨h.sound, h.issued, fun id hid => h.fresh id (.inl (by omega)), h.upper⟩

/-- The tape grows. -/
theorem follows (h : W.Valid n k upper t) (hfollows : t.bar.Follows t'.bar)
    (hupper : upper' = true → t'.bar.tape.Issued t'.bar.upperIndex) : W.Valid n k upper' t' :=
  ⟨hfollows.sound, fun id i hi => hfollows.issued (h.issued id i hi), h.fresh, hupper⟩

theorem records (h : W.Valid n k upper t) (hr : t.Records t' i) : W.Valid n k upper t' := by
  refine h.follows hr.follows fun hup => ?_
  rw [BarState.upperIndex, hr.kept]
  exact hr.follows.issued (h.upper hup)

/-- A new number. -/
theorem assign (h : W.Valid n k upper t) (hi : t.bar.tape.Issued i) :
    (W.assign (n, k) i).Valid n (k + 1) upper t := by
  refine ⟨h.sound, fun id i' hi' => ?_, fun id hid => ?_, h.upper⟩
  · by_cases hid : id = (n, k)
    · subst hid
      rw [index_assign] at hi'
      exact Option.some.inj hi' ▸ hi
    · exact h.issued id i' ((Function.update_of_ne hid _ _).symm.trans hi')
  · have hne : id ≠ (n, k) := by
      rintro rfl
      simp only [lt_self_iff_false, true_and, false_or] at hid
      omega
    exact (Function.update_of_ne hne _ _).trans
      (h.fresh id (hid.imp_right fun hid => ⟨hid.1, by omega⟩))

theorem grows (h : W.Valid n k upper t) (i : ULong) : W.Grows (W.assign (n, k) i) :=
  grows_assign (h.fresh (n, k) (.inr ⟨rfl, le_rfl⟩)) i

end Numbering.Valid

/-- The index of an operand that is whole. -/
theorem Numbering.HoldsAll.issued {lo hi : List Byte} {o : List Origin} (h : W.HoldsAll lo hi o)
    (hW : W.Valid n k upper t) (h4 : 4 ≤ o.length) (h8 : o.length ≤ 8) (hwhole : isWhole o = true) :
    t.bar.tape.Issued (assemble64x2to64 (bitsOf 64 lo) (bitsOf 64 hi)) := by
  rcases h.index h4 h8 hwhole with hzero | ⟨id, hid⟩
  · rw [hzero]
    exact hW.sound.issued_zero
  · exact hW.issued id _ hid

theorem BarTool.Records.trans (h : t.Records t' i) (h' : t'.Records t'' j) : t.Records t'' j :=
  ⟨h'.memory.trans h.memory, ⟨h'.follows.sound, h.follows.bound.trans h'.follows.bound⟩,
    h'.kept.trans h.kept, h'.issued⟩

/-- Both layers of an index make this index. -/
theorem assemble_layers (i : ULong) : assemble64x2to64 (bitsOf 64 (loIndex 0 (bytesOf i)))
    (bitsOf 64 (hiIndex 0 (bytesOf i))) = i := by
  have hlen : (bytesOf i).length = 8 := length_natToBytes _ _
  rw [assemble_bitsOf (by simp [loIndex, hlen]) (by simp [loIndex, hlen])
    (by simp [hiIndex, hlen]) (by simp [hiIndex, hlen]), loIndex, hiIndex,
    List.take_left' (by simp [hlen]), List.take_left' (by simp [hlen]),
    List.take_of_length_le (show ((bytesOf i).drop 4).length ≤ 4 by simp [hlen]),
    List.take_append_drop]
  exact bitsOf_bytesOf (by decide) i

end Numbers

/-! ### Calls -/

section Calls

variable (c : RecordingContext) {F : FpSem Byte} {J : Interp Byte}
  (hbase : c.base.toInterp = hostInterp F J) (htype : c.tape.typegrind = false)
  (hram : c.tape.tapeInRam = false) (tid : ThreadId)

include hbase in
theorem RecordingContext.isVex : (c.machine tid).toInterp.IsVex F.host := by
  show c.base.toInterp.IsVex F.host
  rw [hbase]
  exact isVex_hostInterp F J

include hbase in
theorem RecordingContext.isTrue_true :
    (c.machine tid).isTrue ((c.machine tid).const (.u1 true)) = true := by
  show c.base.toInterp.isTrue (c.base.toInterp.const (.u1 true)) = true
  rw [hbase]
  simp only [hostInterp]
  decide

/-- Calls that do not access shadow memory. -/
theorem RecordingContext.toolDirty_eq {helper : ToolHelper} {args : List (List Byte)}
    {buf : ℕ → Byte} {t : BarTool} (h : memoryCall c.uninitialised helper args buf t.memory = none) :
    c.toolDirty tid helper args buf t = match barCall c.tape tid helper (args.map (bitsOf 64)) t.bar with
      | some (index, bar) => (bytesOf index, buf, { t with bar := bar })
      | none => (List.replicate 8 0, buf, t) := by
  cases hcall : barCall c.tape tid helper (args.map (bitsOf 64)) t.bar with
  | none => simp only [toolDirty, h, hcall]
  | some r => simp only [toolDirty, h, hcall]

include hbase in
theorem RecordingContext.records : (c.machine tid).Records where
  isTrue_true := c.isTrue_true hbase tid
  length_tapeCall args buf t := by
    show (c.toolDirty tid .barWriteToTapeCall args buf t).1.length = 8
    rw [c.toolDirty_eq tid rfl]
    split
    · exact length_natToBytes _ _
    · rfl

include htype hram in
/-- Recording an operation. -/
theorem RecordingContext.toolDirty_records {t : BarTool} (hs : t.bar.tape.Sound)
    {lo₁ hi₁ lo₂ hi₂ : List Byte}
    (h₁ : t.bar.tape.Issued (assemble64x2to64 (bitsOf 64 lo₁) (bitsOf 64 hi₁)))
    (h₂ : t.bar.tape.Issued (assemble64x2to64 (bitsOf 64 lo₂) (bitsOf 64 hi₂)))
    (d₁ d₂ : List Byte) (buf : ℕ → Byte) : ∃ index t', t.Records t' index ∧
      c.toolDirty tid .barWriteToTapeCall [lo₁, hi₁, lo₂, hi₂, d₁, d₂] buf t
        = (bytesOf index, buf, t') := by
  obtain ⟨index, tape, hadd, hsound, hbound, hindex⟩ := hs.add htype hram tid
    (r := writeToTapeRequest (bitsOf 64 lo₁) (bitsOf 64 hi₁) (bitsOf 64 lo₂) (bitsOf 64 hi₂)
      (bitsOf 64 d₁) (bitsOf 64 d₂) 0) h₁ h₂
  refine ⟨index, { t with bar := { t.bar with tape := tape } }, ⟨rfl, ⟨hsound, hbound⟩, rfl, hindex⟩,
    ?_⟩
  have hcall : barCall c.tape tid .barWriteToTapeCall
      ([lo₁, hi₁, lo₂, hi₂, d₁, d₂].map (bitsOf 64)) t.bar
        = some (index, { t.bar with tape := tape }) :=
    Option.bind_eq_some_iff.mpr ⟨(index, tape), hadd, rfl⟩
  rw [c.toolDirty_eq tid rfl, hcall]

include hram in
/-- Recording the value of an operation. -/
theorem RecordingContext.toolDirty_value {t t' : BarTool} {index : ULong} (h : t.Records t' index)
    (x : List Byte) (buf : ℕ → Byte) : t.Records
      (c.toolDirty tid .barWriteToTapeValueCall [x, bytesOf index] buf t').2.2 index := by
  rw [c.toolDirty_eq tid rfl]
  split
  · next r bar hcall =>
    obtain ⟨tape, hrec, rfl⟩ : ∃ tape, t'.bar.tape.Recorded c.tape tape [] ∧
        bar = { t'.bar with tape := tape } := by
      simp only [barCall] at hcall
      split at hcall
      · obtain ⟨tape, htape, hbar⟩ := Option.bind_eq_some_iff.mp hcall
        obtain ⟨tape', htape', hrec, -⟩ := valuesAddStatement_recorded (o := c.tape)
          (([x, bytesOf index].map (bitsOf 64)).getD 0 0) h.follows.sound.allocated
        cases htape.symm.trans htape'
        exact ⟨tape, hrec, (Prod.mk.inj (Option.some.inj hbar)).2.symm⟩
      · exact ⟨t'.bar.tape, TapeState.Recorded.refl c.tape h.follows.sound.allocated [],
          (Prod.mk.inj (Option.some.inj hcall)).2.symm⟩
    obtain ⟨hsound, hbound⟩ := h.follows.sound.recorded hram hrec (by simp)
    exact ⟨h.memory, ⟨hsound, h.follows.bound.trans hbound⟩, h.kept, h.issued.mono hbound⟩
  · exact h

include htype hram in
/-- The calls for an operation. -/
theorem RecordingContext.tapeCall_records {t : BarTool} (hs : t.bar.tape.Sound)
    {lo₁ hi₁ lo₂ hi₂ : List Byte}
    (h₁ : t.bar.tape.Issued (assemble64x2to64 (bitsOf 64 lo₁) (bitsOf 64 hi₁)))
    (h₂ : t.bar.tape.Issued (assemble64x2to64 (bitsOf 64 lo₂) (bitsOf 64 hi₂)))
    (d₁ d₂ x : List Byte) (buf : ℕ → Byte) : ∃ index,
      (tapeCall (c.machine tid) c.options [lo₁, hi₁, lo₂, hi₂, d₁, d₂] x buf t).1 = bytesOf index ∧
      t.Records (tapeCall (c.machine tid) c.options [lo₁, hi₁, lo₂, hi₂, d₁, d₂] x buf t).2.2
        index := by
  obtain ⟨index, t', hrec, hcall⟩ := c.toolDirty_records htype hram tid hs h₁ h₂ d₁ d₂ buf
  have htool : (c.machine tid).toolDirty = c.toolDirty tid := rfl
  refine ⟨index, ?_⟩
  by_cases hvalues : c.options.barRecordValues = true
  · simp only [tapeCall, htool, hcall, if_pos hvalues, true_and]
    exact c.toolDirty_value hram tid hrec x buf
  · simp only [tapeCall, htool, hcall, if_neg hvalues, true_and]
    exact hrec

end Calls

/-! ### One component -/

section Code

variable {c : RecordingContext} {F : FpSem Byte} {J : Interp Byte}
  (hbase : c.base.toInterp = hostInterp F J) (htype : c.tape.typegrind = false)
  (hram : c.tape.tapeInRam = false) {tid : ThreadId} {env : List IRType} {s : State Byte BarTool}

/-- Both layers of an index that has been returned. -/
def RecordsIndex (M : Machine Byte BarTool) (env : List IRType) (s : State Byte BarTool)
    (outs : List IRExpr) (env' : List IRType) (s' : State Byte BarTool) : Prop :=
  Extends env s env' s' ∧ ∃ index, s.tool.Records s'.tool index ∧
    HasParts M.toInterp env' s' outs [loIndex 0 (bytesOf index), hiIndex 0 (bytesOf index)]

include hbase htype hram

theorem wp_recordIndex (hs : s.tool.bar.tape.Sound) {i₁ j₁ i₂ j₂ p q value : IRExpr}
    (h₁ : s.tool.bar.tape.Issued (assemble64x2to64
      (bitsOf 64 (evalExpr (c.machine tid).toInterp s i₁))
      (bitsOf 64 (evalExpr (c.machine tid).toInterp s j₁))))
    (h₂ : s.tool.bar.tape.Issued (assemble64x2to64
      (bitsOf 64 (evalExpr (c.machine tid).toInterp s i₂))
      (bitsOf 64 (evalExpr (c.machine tid).toInterp s j₂)))) :
    (execMeaning (c.machine tid)).wp (dgBarWriteToTape c.options i₁ j₁ i₂ j₂ p q value) env s
      (RecordsIndex (c.machine tid) env s) := by
  apply wp_mono (wp_dgBarWriteToTape (c.isVex hbase tid) (c.records hbase tid) c.options i₁ j₁ i₂ j₂
    p q value)
  rintro outs env' s' ⟨hext, x, r, rfl, -, htool, hparts⟩
  have hzero : (c.machine tid).zero = 0 := congrArg Interp.zero hbase
  simp only [tapeArgs, evalExprs] at htool hparts
  obtain ⟨index, hindex, hrec⟩ := c.tapeCall_records htype hram tid hs h₁ h₂ _ _ x s.buf
  rw [hindex, hzero] at hparts
  rw [← htool] at hrec
  exact ⟨hext, index, hrec, hparts⟩

/-- The indices of the inputs of one component are indices of blocks. -/
def InputsIssued (M : Machine Byte BarTool) (s : State Byte BarTool) (n : ℕ) (parts : List IRExpr) :
    Prop :=
  ∀ m < n, s.tool.bar.tape.Issued (assemble64x2to64
    (bitsOf 64 (evalExpr M.toInterp s (inputParts parts m).2.1))
    (bitsOf 64 (evalExpr M.toInterp s (inputParts parts m).2.2)))

/-- The body for components that are computed. -/
theorem wp_barBody_origins (hs : s.tool.bar.tape.Sound) {n fpsize : ℕ} (hn : n = 1 ∨ n = 2 ∨ n = 3)
    {partials : (ℕ → IRExpr) → List IRExpr} (hpartials : ∀ partF, (partials partF).length = n)
    {value : (ℕ → IRExpr) → IRExpr} {parts : List IRExpr} {ws : List (List Byte)}
    (hparts : HasParts (c.machine tid).toInterp env s parts ws) (hws : ws.length = 3 * n)
    (h : InputsIssued (c.machine tid) s n parts) :
    (execMeaning (c.machine tid)).wp (barBody c.options n fpsize partials value parts) env s
      (RecordsIndex (c.machine tid) env s) := by
  have hlen := hpartials fun m => partAsF64 fpsize (inputParts parts m).1
  have hzero : evalExpr (c.machine tid).toInterp s (.const (.u64 0)) = List.replicate 8 0 := by
    show c.base.toInterp.const (.u64 0) = _
    rw [hbase]
    exact (isVex_hostInterp F J).const_u64
  rcases hn with rfl | rfl | rfl
  · obtain ⟨p₀, hps⟩ := List.length_eq_one_iff.mp hlen
    rw [barBody_one hps]
    refine wp_recordIndex hbase htype hram hs (h 0 (by decide)) ?_
    rw [hzero]
    exact hs.issued_zero
  · obtain ⟨p₀, p₁, hps⟩ := List.length_eq_two.mp hlen
    rw [barBody_two hps]
    exact wp_recordIndex hbase htype hram hs (h 0 (by decide)) (h 1 (by decide))
  · obtain ⟨p₀, p₁, p₂, hps⟩ := List.length_eq_three.mp hlen
    rw [barBody_three hps]
    apply wp_bind
    apply wp_mono (wp_recordIndex hbase htype hram hs (h 0 (by decide)) (h 1 (by decide)))
    rintro outs env₁ s₁ ⟨hext, index, hrec, houts⟩
    -- the second block refers to the first one, and to the third input
    have hlo := (houts.getD (j := 0) Nat.two_pos).eval
    have hhi := (houts.getD (j := 1) Nat.one_lt_two).eval
    have hthird : ∀ j < 9, evalExpr (c.machine tid).toInterp s₁ (parts.getD j .vecret)
        = evalExpr (c.machine tid).toInterp s (parts.getD j .vecret) := fun j hj => by
      have hpart := hparts.getD (j := j) (by omega)
      exact (hpart.mono hext).eval.trans hpart.eval.symm
    apply wp_mono (wp_recordIndex hbase htype hram hrec.follows.sound ?_ ?_)
    · rintro outs' env₂ s₂ ⟨hext', index', hrec', houts'⟩
      exact ⟨hext.trans hext', index', hrec.trans hrec', houts'⟩
    · rw [hlo, hhi]
      show s₁.tool.bar.tape.Issued (assemble64x2to64 (bitsOf 64 (loIndex 0 (bytesOf index)))
        (bitsOf 64 (hiIndex 0 (bytesOf index))))
      rw [assemble_layers]
      exact hrec.issued
    · have hissued := hrec.follows.issued (h 2 (by decide))
      simp only [inputParts] at hissued ⊢
      rwa [hthird 7 (by decide), hthird 8 (by decide)]

end Code

/-! ### All components -/

theorem HasVectors.length_getD {B T : Type} {I : Interp B} {env : List IRType} {s : State B T}
    {size : ℕ} {es : List IRExpr} {vs : List (List B)} (h : HasVectors I env s size es vs) {j : ℕ}
    (hj : j < vs.length) : (vs.getD j []).length = size := by
  obtain ⟨ty, hv, -, hsize⟩ := List.Forall₂.get h (by rw [h.length_eq]; exact hj) hj
  rw [List.getD_eq_getElem _ _ hj]
  exact hv.length.trans hsize

theorem HasParts.getD_map {B T : Type} {I : Interp B} {env : List IRType} {s : State B T}
    {es : List IRExpr} {vs : List (List B)} {f : List B → List B} (h : HasParts I env s es (vs.map f))
    {j : ℕ} (hj : j < vs.length) :
    HasValue I env s (es.getD j .vecret) .i64 (f (vs.getD j [])) := by
  have hpart := h.getD (j := j) (by rw [List.length_map]; exact hj)
  simpa [List.getD_eq_getElem?_getD, List.getElem?_map, hj] using hpart

theorem assembled_concat {B : Type} (fpsize : ℕ) (us : List (List (List B))) (ws : List (List B))
    (j : ℕ) : assembled fpsize (us ++ [ws]) j
      = assembled fpsize us j ++ (ws.getD j []).take fpsize := by
  simp [assembled]

/-- The lanes that have been handled follow their origins. -/
structure LanesHold (W : Numbering) (n k : ℕ) (upper : Bool) (t : BarTool) (fpsize : ℕ)
    (o : List Origin) (us : List (List (List Byte))) (t' : BarTool) : Prop where
  memory : t'.memory = t.memory
  numbers : ∃ W', W.Grows W' ∧ W'.Valid n k upper t' ∧
    W'.HoldsAll (assembled fpsize us 0) (assembled fpsize us 1) o

/-- Both layers of a result follow its origins. -/
def ResultHolds (M : Machine Byte BarTool) (W : Numbering) (n : ℕ) (upper : Bool) (ty : IRType)
    (o : List Origin) (env : List IRType) (s : State Byte BarTool) (outs : List IRExpr)
    (env' : List IRType) (s' : State Byte BarTool) : Prop :=
  Extends env s env' s' ∧ s'.tool.memory = s.tool.memory ∧ ∃ W' k, W.Grows W' ∧
    W'.Valid n k upper s'.tool ∧ ∃ eLo eHi lo hi, outs = [eLo, eHi] ∧
      HasValue M.toInterp env' s' eLo ty lo ∧ HasValue M.toInterp env' s' eHi ty hi ∧
      W'.HoldsAll lo hi o

section Lanes

variable {W : Numbering} {n k k' : ℕ} {upper upper' : Bool} {t t' t'' : BarTool} {fpsize : ℕ}
  {o o' : List Origin} {us : List (List (List Byte))} {lo hi : List Byte}

theorem LanesHold.nil (hW : W.Valid n k upper t) : LanesHold W n k upper t fpsize [] [] t :=
  ⟨rfl, W, Numbering.Grows.refl W, hW, Numbering.HoldsAll.nil W⟩

/-- One more lane. -/
theorem LanesHold.concat (h : LanesHold W n k upper t fpsize o us t')
    (hmem : t''.memory = t'.memory)
    (hlane : ∀ W', W.Grows W' → W'.Valid n k upper t' → ∃ W'', W'.Grows W'' ∧
      W''.Valid n k' upper' t'' ∧ W''.HoldsAll (lo.take fpsize) (hi.take fpsize) o') :
    LanesHold W n k' upper' t fpsize (o ++ o') (us ++ [[lo, hi]]) t'' := by
  obtain ⟨W', hgrows, hvalid, hholds⟩ := h.numbers
  obtain ⟨W'', hgrows', hvalid', hholds'⟩ := hlane W' hgrows hvalid
  refine ⟨hmem.trans h.memory, W'', hgrows.trans hgrows', hvalid', ?_⟩
  rw [assembled_concat, assembled_concat]
  exact (hholds.mono hgrows').append hholds'

end Lanes

section Components

variable {c : RecordingContext} {F : FpSem Byte} {J : Interp Byte}
  (hbase : c.base.toInterp = hostInterp F J) (htype : c.tape.typegrind = false)
  (hram : c.tape.tapeInRam = false) {tid : ThreadId} {W : Numbering} {n k : ℕ} {upper : Bool}
  {env : List IRType} {s : State Byte BarTool} {op : IROp} {inputs : List ℕ} {l : Simd}
  {arg iLo iHi : ℕ → IRExpr} {vs : List (List Byte)} {os : List (List Origin)} {o : List Origin}

/-- The lanes of the result of an operation that is recorded. -/
def recordedLane (n : ℕ) (inputs : List ℕ) (l : Simd) (os : List (List Origin)) (c : ℕ) :
    List Origin :=
  if l.copies c then lane l.fpsize c (operandOf os inputs 0) else numberBytes (n, c) l.fpsize

/-- The first lanes of the result. -/
def recordedLanes (n : ℕ) (inputs : List ℕ) (l : Simd) (os : List (List Origin)) (m : ℕ) :
    List Origin :=
  ((List.range m).map (recordedLane n inputs l os)).flatten

theorem recordedLanes_succ (m : ℕ) : recordedLanes n inputs l os (m + 1)
    = recordedLanes n inputs l os m ++ recordedLane n inputs l os m := by
  simp [recordedLanes, List.range_succ]

theorem recordedOrigins_eq_some (h : recordedOrigins n inputs l os = some o) :
    (∀ c < l.simdsize, l.copies c = false → ∀ m < inputs.length,
      isWhole (lane l.fpsize c (operandOf os inputs m)) = true) ∧
    o = recordedLanes n inputs l os l.simdsize := by
  unfold recordedOrigins at h
  split at h
  · next hwhole => exact ⟨hwhole, (Option.some.inj h).symm⟩
  · cases h

include hbase htype hram

/-- **Operations that are recorded**: whole operands give new numbers, and other lanes are
copied. -/
theorem wp_createBarCode_origins (hop : Componentwise op inputs l)
    {partials : (ℕ → IRExpr) → List IRExpr}
    (hpartials : ∀ partF, (partials partF).length = inputs.length)
    {value : (ℕ → IRExpr) → IRExpr}
    (hv : HasVectors (c.machine tid).toInterp env s (l.fpsize * l.simdsize)
      (layeredInputs inputs arg iLo iHi) vs)
    (hholds : ∀ m < inputs.length, W.HoldsAll (vs.getD (3 * m + 1) []) (vs.getD (3 * m + 2) [])
      (operandOf os inputs m))
    (hW : W.Valid n 0 upper s.tool) (h : recordedOrigins n inputs l os = some o) :
    (execMeaning (c.machine tid)).wp
      (createBarCode c.options op inputs partials value l arg iLo iHi) env s
      (ResultHolds (c.machine tid) W n upper (typeOfPrimop op).dst o env s) := by
  obtain ⟨hwhole, rfl⟩ := recordedOrigins_eq_some h
  have harity := hop.arity
  have hzero : (c.machine tid).zero = 0 := congrArg Interp.zero hbase
  have hvs : vs.length = 3 * inputs.length := by
    rw [← hv.length_eq, length_layeredInputs]
  obtain ⟨h4, h8⟩ : 4 ≤ l.fpsize ∧ l.fpsize ≤ 8 := by
    rcases Simd.valid_cases hop.valid with ⟨h, -⟩ | ⟨h, -⟩ <;> omega
  have hsize : ∀ i < l.simdsize, ∀ j < vs.length,
      (lane l.fpsize i (vs.getD j [])).length = l.fpsize := fun i hi j hj =>
    length_lane (by rw [hv.length_getD hj]; exact Nat.mul_le_mul_left _ hi)
  -- The invariant: the lanes handled so far follow their origins.
  have hbody : ∀ i < l.simdsize, BodySpec (c.machine tid) env s 2 l.fpsize vs
      (fun us s' => LanesHold W n us.length upper s.tool l.fpsize
        (recordedLanes n inputs l os us.length) us s'.tool)
      (fun i => if l.llo && i ≠ 0 then copyBody
        else barBody c.options inputs.length l.fpsize partials value) i := by
    intro i hi
    apply bodySpec_llo
    · intro hllo hi0
      apply bodySpec_copyBody (by omega)
      rintro us s' rfl hInv
      have hlane : recordedLane n inputs l os us.length
          = lane l.fpsize us.length (operandOf os inputs 0) := if_pos (by simp [Simd.copies, hllo, hi0])
      rw [List.length_append, List.length_singleton, recordedLanes_succ, hlane]
      refine hInv.concat rfl fun W' hgrows hvalid =>
        ⟨W', Numbering.Grows.refl W', hvalid.skip, ?_⟩
      rw [take_widenBytes (hsize _ hi 1 (by omega)), take_widenBytes (hsize _ hi 2 (by omega))]
      exact ((hholds 0 (by omega)).mono hgrows).lane _ _
    · rintro hllo env' s' parts us hext rfl hInv hparts
      have hcopies : l.copies us.length = false := by
        by_cases hl : l.llo = true
        · simp [Simd.copies, hllo hl]
        · simp [Simd.copies, hl]
      obtain ⟨W', hgrows, hvalid, -⟩ := hInv.numbers
      have hissued : InputsIssued (c.machine tid) s' inputs.length parts := by
        intro m hm
        have hlane := ((hholds m hm).mono hgrows).lane l.fpsize us.length
        have hlen : (lane l.fpsize us.length (operandOf os inputs m)).length = l.fpsize := by
          rw [← hlane.length_lo]
          exact hsize _ hi _ (by omega)
        have hlo := (hparts.getD_map (j := 3 * m + 1) (by omega)).eval
        have hhi := (hparts.getD_map (j := 3 * m + 2) (by omega)).eval
        rw [inputParts, hlo, hhi, hzero, bitsOf_widenBytes, bitsOf_widenBytes]
        exact hlane.issued hvalid (by omega) (by omega) (hwhole _ hi hcopies m hm)
      apply wp_mono (wp_barBody_origins hbase htype hram hvalid.sound harity hpartials hparts
        (by rw [List.length_map, hvs]) hissued)
      rintro outs env'' s'' ⟨hext', index, hrec, houts⟩
      refine ⟨hext', _, rfl, houts, ?_⟩
      have hlane : recordedLane n inputs l os us.length = numberBytes (n, us.length) l.fpsize :=
        if_neg (by simp [hcopies])
      beta_reduce
      rw [List.length_append, List.length_singleton, recordedLanes_succ, hlane]
      refine hInv.concat hrec.memory fun W' hgrows hvalid => ?_
      have hvalid' := hvalid.records hrec
      exact ⟨W'.assign (n, us.length) index, hvalid'.grows index, hvalid'.assign hrec.issued,
        Numbering.holdsAll_number (W'.index_assign _ _) h8⟩
  apply wp_mono (wp_layersCode (c.isVex hbase tid) hop.valid hop.isVector hop.size hv hbody
    (LanesHold.nil hW))
  rintro outs env' s' ⟨hext, us, eLo, eHi, hus, hInv, rfl, hLo, hHi⟩
  obtain ⟨W', hgrows, hvalid, hall⟩ := hInv.numbers
  rw [hus.length_eq] at hall
  exact ⟨hext, hInv.memory, W', us.length, hgrows, hvalid, eLo, eHi, _, _, rfl, hLo, hHi, hall⟩

end Components

end Derivgrind
