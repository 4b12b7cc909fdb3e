import Derivgrind.Shadow.Memory
import Derivgrind.Tape.Bitwise

/-!
# Functions of bit-trick-finding mode

Both shadow layers consist of flags: the lower layer tells which bits are active, the
higher layer which bits are discrete.  A warning is printed when active discrete data
is used as a floating-point operand.

The file has the functions of `dg_trick.c` and `dg_trick_bitwise.c` that are called by
emitted code.

## Main definitions

* `TrickTool` — the state of these functions.
* `dgTrickWarnDirtyhelper` — print a warning.
* `BitwiseOp.trick64` — the functions `dg_trick_bitwise_{and,or,xor}64`.
* `dgTrickDirtyhelperStoreF80le`, `dgTrickDirtyhelperLoadF80leLo`,
  `dgTrickDirtyhelperLoadF80leHi` — x87 loads and stores.
* `ActiveDiscrete` — some bit is active and discrete.

## Main results

* `BitwiseOp.trick64_checks` — what the bitwise functions report.
-/

namespace Derivgrind

variable {F : FlexibleShadow BarLayer 64}

/-- The state of bit-trick-finding mode. -/
structure TrickTool (F : FlexibleShadow BarLayer 64) where
  shadow : F.State
  /-- `dg_trick_bitwise_out`. -/
  bitwiseOut : V128
  /-- `dg_disable` of the running thread. -/
  disable : ULong
  /-- The warnings, with the activity bits and the discreteness bits. -/
  warnings : List (ULong × ULong)

/-! ### Warnings -/

/-- The bits that `dg_trick_warn_dirtyhelper` takes into account. -/
def warnMask (size : ULong) : ULong :=
  if size = 4 then 0x00000000ffffffff#64 else 0xffffffffffffffff#64

/-- `dg_trick_warn_dirtyhelper`. -/
def dgTrickWarnDirtyhelper (fLo fHi size : ULong) (t : TrickTool F) : TrickTool F :=
  if t.disable = 0 ∧ fLo &&& fHi &&& warnMask size ≠ 0 then
    { t with warnings := t.warnings ++ [(fLo, fHi)] }
  else t

/-- The warning for the given flags, unless `dg_disable` is set. -/
def reported (fLo fHi size : ULong) : List (ULong × ULong) :=
  if fLo &&& fHi &&& warnMask size ≠ 0 then [(fLo, fHi)] else []

/-- Warnings are added, and shadow memory is left alone. -/
structure TrickTool.Reports (t t' : TrickTool F) (ws : List (ULong × ULong)) : Prop where
  warnings : t'.warnings = t.warnings ++ ws
  disable : t'.disable = t.disable
  shadow : t'.shadow = t.shadow

theorem TrickTool.Reports.refl (t : TrickTool F) : t.Reports t [] :=
  ⟨(List.append_nil _).symm, rfl, rfl⟩

theorem TrickTool.Reports.trans {t t' t'' : TrickTool F} {ws ws' : List (ULong × ULong)}
    (h : t.Reports t' ws) (h' : t'.Reports t'' ws') : t.Reports t'' (ws ++ ws') :=
  ⟨by rw [h'.warnings, h.warnings, List.append_assoc], h'.disable.trans h.disable,
    h'.shadow.trans h.shadow⟩

theorem dgTrickWarnDirtyhelper_reports (fLo fHi size : ULong) {t : TrickTool F}
    (h : t.disable = 0) :
    t.Reports (dgTrickWarnDirtyhelper fLo fHi size t) (reported fLo fHi size) := by
  unfold dgTrickWarnDirtyhelper reported
  by_cases hw : fLo &&& fHi &&& warnMask size ≠ 0
  · rw [if_pos ⟨h, hw⟩, if_pos hw]
    exact ⟨rfl, rfl, rfl⟩
  · rw [if_neg (fun hcon => hw hcon.2), if_neg hw]
    exact TrickTool.Reports.refl t

/-- A warning has been printed. -/
def TrickTool.Warned (t t' : TrickTool F) : Prop := t.warnings.length < t'.warnings.length

/-- A warning is printed if and only if the condition holds. -/
def TrickTool.Checks (t t' : TrickTool F) (P : Prop) : Prop :=
  ∃ ws, t.Reports t' ws ∧ (ws ≠ [] ↔ P)

namespace TrickTool.Checks

variable {t t' t'' : TrickTool F} {P Q : Prop}

theorem refl (t : TrickTool F) : t.Checks t False := ⟨[], Reports.refl t, by simp⟩

theorem congr (h : t.Checks t' P) (hPQ : P ↔ Q) : t.Checks t' Q := by
  obtain ⟨ws, hrep, hiff⟩ := h
  exact ⟨ws, hrep, hiff.trans hPQ⟩

theorem trans (h : t.Checks t' P) (h' : t'.Checks t'' Q) : t.Checks t'' (P ∨ Q) := by
  obtain ⟨ws, hrep, hiff⟩ := h
  obtain ⟨ws', hrep', hiff'⟩ := h'
  refine ⟨ws ++ ws', hrep.trans hrep', ?_⟩
  rw [Ne, List.append_eq_nil_iff, not_and_or, ← hiff, ← hiff']

theorem disable (h : t.Checks t' P) : t'.disable = t.disable := by
  obtain ⟨ws, hrep, -⟩ := h
  exact hrep.disable

theorem shadow (h : t.Checks t' P) : t'.shadow = t.shadow := by
  obtain ⟨ws, hrep, -⟩ := h
  exact hrep.shadow

theorem warned_iff (h : t.Checks t' P) : t.Warned t' ↔ P := by
  obtain ⟨ws, hrep, hiff⟩ := h
  rw [← hiff, TrickTool.Warned, hrep.warnings, List.length_append, ← List.length_pos_iff]
  omega

/-- The variable `dg_trick_bitwise_out` does not matter. -/
theorem withOut (h : t.Checks t' P) (out : V128) : t.Checks { t' with bitwiseOut := out } P := by
  obtain ⟨ws, hrep, hiff⟩ := h
  exact ⟨ws, ⟨hrep.warnings, hrep.disable, hrep.shadow⟩, hiff⟩

end TrickTool.Checks

/-! ### Active discrete data -/

/-- Some bit is both active and discrete. -/
def ActiveDiscrete (activity discreteness : ℕ) : Prop :=
  ∃ k, activity.testBit k = true ∧ discreteness.testBit k = true

theorem activeDiscrete_iff (a d : ℕ) : ActiveDiscrete a d ↔ a &&& d ≠ 0 := by
  constructor
  · rintro ⟨k, ha, hd⟩ hzero
    have hbit : (a &&& d).testBit k = true := by rw [Nat.testBit_and, ha, hd]; rfl
    rw [hzero, Nat.zero_testBit] at hbit
    cases hbit
  · intro hne
    obtain ⟨k, hk⟩ := Nat.exists_testBit_of_ne_zero hne
    rw [Nat.testBit_and, Bool.and_eq_true] at hk
    exact ⟨k, hk⟩

/-- Flags of eight bytes. -/
theorem reported_eight (fLo fHi : ULong) :
    reported fLo fHi 8 ≠ [] ↔ ActiveDiscrete fLo.toNat fHi.toNat := by
  have hmask : fLo &&& fHi &&& warnMask 8 = fLo &&& fHi := by
    have hones : warnMask 8 = BitVec.allOnes 64 := by decide
    rw [hones, BitVec.and_allOnes]
  rw [activeDiscrete_iff, ← BitVec.toNat_and, reported, hmask]
  by_cases h : fLo &&& fHi = 0
  · simp [h]
  · rw [if_pos h]
    refine iff_of_true (by simp) fun hzero => h ?_
    exact BitVec.eq_of_toNat_eq hzero

/-- Flags of four bytes, which are extended by zero. -/
theorem reported_four (fLo fHi : BitVec 32) :
    reported (fLo.setWidth 64) (fHi.setWidth 64) 4 ≠ [] ↔ ActiveDiscrete fLo.toNat fHi.toNat := by
  have hmask : fLo.setWidth 64 &&& fHi.setWidth 64 &&& warnMask 4 = (fLo &&& fHi).setWidth 64 := by
    have hones : warnMask 4 = (BitVec.allOnes 32).setWidth 64 := by decide
    rw [hones, ← BitVec.setWidth_and, ← BitVec.setWidth_and, BitVec.and_allOnes]
  rw [activeDiscrete_iff, ← BitVec.toNat_and, reported, hmask]
  by_cases h : fLo &&& fHi = 0
  · simp [h]
  · have hne : (fLo &&& fHi).toNat ≠ 0 := fun hzero => h (BitVec.eq_of_toNat_eq hzero)
    refine iff_of_true ?_ hne
    rw [if_pos]
    · simp
    · intro hzero
      refine hne ?_
      have htoNat := congrArg BitVec.toNat hzero
      rwa [BitVec.toNat_setWidth_of_le (by omega)] at htoNat

/-! ### Bitwise logical operations -/

/-- A `V128`, by its 64-bit words. -/
def V128.ofU64 (w0 w1 : ULong) : V128 :=
  ⟨lowerHalf w0, upperHalf w0, lowerHalf w1, upperHalf w1⟩

/-- The conditions in `DG_HANDLE_AND`, `DG_HANDLE_OR` and `DG_HANDLE_XOR`: the operand is a
mask, which leaves the number in the other operand alone or changes its sign. -/
def BitwiseOp.trickMask (op : BitwiseOp) {w : ℕ} (x xiLo : BitVec w) : Bool :=
  match op with
  | .and => x = signBit w - 1 || x = -1
  | .or => (x = signBit w && xiLo.setWidth 32 = 0#32) || (x = 0 && xiLo.setWidth 32 = 0#32)
  | .xor => x = signBit w && xiLo.setWidth 32 = 0#32

/-- What these macros do with the other operand. -/
def trickConsume {w : ℕ} (yiLo yiHi : BitVec w) (t : TrickTool F) : TrickTool F :=
  { dgTrickWarnDirtyhelper (yiLo.setWidth 64) (yiHi.setWidth 64) (BitVec.ofNat 64 (w / 8)) t with
    bitwiseOut := V128.ofU64 (yiLo.setWidth 64) 0 }

/-- `dg_trick_bitwise_and32`, `dg_trick_bitwise_or32` and `dg_trick_bitwise_xor32`. -/
def BitwiseOp.trick32 (op : BitwiseOp) (x xiLo xiHi y yiLo yiHi : BitVec 32) (t : TrickTool F) :
    TrickTool F :=
  if op.trickMask x xiLo then trickConsume yiLo yiHi t
  else if op.trickMask y yiLo then trickConsume xiLo xiHi t
  else { t with bitwiseOut := V128.ofU64 (if xiLo ≠ 0 ∨ yiLo ≠ 0 then -1 else 0) (-1) }

/-- `dg_trick_bitwise_and64`, `dg_trick_bitwise_or64` and `dg_trick_bitwise_xor64`. -/
def BitwiseOp.trick64 (op : BitwiseOp) (x xiLo xiHi y yiLo yiHi : ULong) (t : TrickTool F) :
    TrickTool F :=
  if op.trickMask x xiLo then trickConsume yiLo yiHi t
  else if op.trickMask y yiLo then trickConsume xiLo xiHi t
  else
    -- `DG_HANDLE_HALVES`
    let t := op.trick32 (upperHalf x) (upperHalf xiLo) (upperHalf xiHi) (upperHalf y)
      (upperHalf yiLo) (upperHalf yiHi) t
    let outTmp := t.bitwiseOut
    let t := op.trick32 (lowerHalf x) (lowerHalf xiLo) (lowerHalf xiHi) (lowerHalf y)
      (lowerHalf yiLo) (lowerHalf yiHi) t
    { t with bitwiseOut := { t.bitwiseOut with w1 := outTmp.w0, w3 := outTmp.w2 } }

/-- `dg_trick_bitwise_get_lower`. -/
def TrickTool.bitwiseGetLower (t : TrickTool F) : ULong := t.bitwiseOut.w1 ++ t.bitwiseOut.w0

/-- `dg_trick_bitwise_get_higher`. -/
def TrickTool.bitwiseGetHigher (t : TrickTool F) : ULong := t.bitwiseOut.w3 ++ t.bitwiseOut.w2

/-- The flags of the operand that is not the mask, if there is a mask. -/
def BitwiseOp.consumed (op : BitwiseOp) {w : ℕ} (x xiLo xiHi y yiLo yiHi : BitVec w) :
    Option (BitVec w × BitVec w) :=
  if op.trickMask x xiLo then some (yiLo, yiHi)
  else if op.trickMask y yiLo then some (xiLo, xiHi)
  else none

/-- The flags of the numbers whose sign may be changed by a 64-bit operation: of one operand
as a whole, or of halves. -/
def BitwiseOp.consumed64 (op : BitwiseOp) (x xiLo xiHi y yiLo yiHi : ULong) : List (ℕ × ℕ) :=
  match op.consumed x xiLo xiHi y yiLo yiHi with
  | some (fLo, fHi) => [(fLo.toNat, fHi.toNat)]
  | none =>
      (op.consumed (upperHalf x) (upperHalf xiLo) (upperHalf xiHi) (upperHalf y)
        (upperHalf yiLo) (upperHalf yiHi)).toList.map (fun f => (f.1.toNat, f.2.toNat)) ++
      (op.consumed (lowerHalf x) (lowerHalf xiLo) (lowerHalf xiHi) (lowerHalf y)
        (lowerHalf yiLo) (lowerHalf yiHi)).toList.map (fun f => (f.1.toNat, f.2.toNat))

section Bitwise

variable {t : TrickTool F}

theorem trickConsume_checks {w : ℕ} (hw : w = 32 ∨ w = 64) (fLo fHi : BitVec w)
    (h : t.disable = 0) :
    t.Checks (trickConsume fLo fHi t) (ActiveDiscrete fLo.toNat fHi.toNat) := by
  have hwarn := dgTrickWarnDirtyhelper_reports (fLo.setWidth 64) (fHi.setWidth 64)
    (BitVec.ofNat 64 (w / 8)) h
  refine TrickTool.Checks.withOut ⟨_, hwarn, ?_⟩ _
  rcases hw with rfl | rfl
  · exact reported_four fLo fHi
  · rw [BitVec.setWidth_eq, BitVec.setWidth_eq]
    exact reported_eight fLo fHi

theorem BitwiseOp.trick32_checks (op : BitwiseOp) (x xiLo xiHi y yiLo yiHi : BitVec 32)
    (h : t.disable = 0) :
    t.Checks (op.trick32 x xiLo xiHi y yiLo yiHi t)
      (∃ f ∈ (op.consumed x xiLo xiHi y yiLo yiHi).toList.map
        (fun f => (f.1.toNat, f.2.toNat)), ActiveDiscrete f.1 f.2) := by
  unfold BitwiseOp.trick32 BitwiseOp.consumed
  by_cases hx : op.trickMask x xiLo = true
  · rw [if_pos hx, if_pos hx]
    exact (trickConsume_checks (.inl rfl) yiLo yiHi h).congr (by simp)
  · rw [if_neg hx, if_neg hx]
    by_cases hy : op.trickMask y yiLo = true
    · rw [if_pos hy, if_pos hy]
      exact (trickConsume_checks (.inl rfl) xiLo xiHi h).congr (by simp)
    · rw [if_neg hy, if_neg hy]
      exact ((TrickTool.Checks.refl t).withOut _).congr (by simp)

/-- **The bitwise functions** report active discrete data in the operand whose sign may be
changed. -/
theorem BitwiseOp.trick64_checks (op : BitwiseOp) (x xiLo xiHi y yiLo yiHi : ULong)
    (h : t.disable = 0) :
    t.Checks (op.trick64 x xiLo xiHi y yiLo yiHi t)
      (∃ f ∈ op.consumed64 x xiLo xiHi y yiLo yiHi, ActiveDiscrete f.1 f.2) := by
  unfold BitwiseOp.trick64 BitwiseOp.consumed64
  by_cases hx : op.trickMask x xiLo = true
  · have hcons : op.consumed x xiLo xiHi y yiLo yiHi = some (yiLo, yiHi) := if_pos hx
    rw [if_pos hx, hcons]
    exact (trickConsume_checks (.inr rfl) yiLo yiHi h).congr (by simp)
  · by_cases hy : op.trickMask y yiLo = true
    · have hcons : op.consumed x xiLo xiHi y yiLo yiHi = some (xiLo, xiHi) :=
        (if_neg hx).trans (if_pos hy)
      rw [if_neg hx, if_pos hy, hcons]
      exact (trickConsume_checks (.inr rfl) xiLo xiHi h).congr (by simp)
    · have hcons : op.consumed x xiLo xiHi y yiLo yiHi = none := (if_neg hx).trans (if_neg hy)
      rw [if_neg hx, if_neg hy, hcons]
      -- both halves are handled by the 32-bit function
      have hupper := op.trick32_checks (upperHalf x) (upperHalf xiLo) (upperHalf xiHi)
        (upperHalf y) (upperHalf yiLo) (upperHalf yiHi) h
      have hlower := op.trick32_checks (lowerHalf x) (lowerHalf xiLo) (lowerHalf xiHi)
        (lowerHalf y) (lowerHalf yiLo) (lowerHalf yiHi) (hupper.disable.trans h)
      refine ((hupper.trans hlower).withOut _).congr ?_
      simp only [List.mem_append, or_and_right, exists_or]

end Bitwise

/-! ### x87 loads and stores -/

section F80

variable (F : FlexibleShadow BarLayer 64) (fuel : ℕ)

/-- `dg_trick_x86g_amd64g_dirtyhelper_storeF80le`. -/
def dgTrickDirtyhelperStoreF80le (addrU : BitVec 64) (a64Lo a64Hi : ULong) (t : TrickTool F) :
    Option (TrickTool F) :=
  if a64Lo = 0 then
    (dgBarShadowSet F fuel addrU (some fun _ => 0) (some fun _ => 0) 10 t.shadow).map
      fun shadow => { t with shadow := shadow }
  else
    let t := if a64Hi ≠ 0 then dgTrickWarnDirtyhelper a64Lo a64Hi 8 t else t
    (dgBarShadowSet F fuel addrU (some fun _ => 0xff) (some fun _ => 0) 10 t.shadow).map
      fun shadow => { t with shadow := shadow }

/-- The condition `a64[0]!=0 || a64[1]%0x10000!=0`. -/
def anyFlag (a64 : List Byte) : Bool := bitsOf 64 (a64.take 8) ≠ 0 || bitsOf 16 (a64.drop 8) ≠ 0

/-- `dg_trick_x86g_amd64g_dirtyhelper_loadF80le_Lo`; the result has 56 bits. -/
def dgTrickDirtyhelperLoadF80leLo (addrU : BitVec 64) (t : TrickTool F) : Option ULong :=
  (dgBarShadowGet F t.shadow fuel addrU true true 10).map fun bytes =>
    if anyFlag (bytes .lo) then 0xffffffffffffff#64 else 0

/-- `dg_trick_x86g_amd64g_dirtyhelper_loadF80le_Hi`.  The warning takes only eight of the ten
bytes into account. -/
def dgTrickDirtyhelperLoadF80leHi (addrU : BitVec 64) (t : TrickTool F) :
    Option (ULong × TrickTool F) :=
  (dgBarShadowGet F t.shadow fuel addrU true true 10).map fun bytes =>
    if anyFlag (bytes .lo) && anyFlag (bytes .hi) then
      (0, dgTrickWarnDirtyhelper (bitsOf 64 ((bytes .lo).take 8)) (bitsOf 64 ((bytes .hi).take 8))
        8 t)
    else (0, t)

end F80

end Derivgrind
