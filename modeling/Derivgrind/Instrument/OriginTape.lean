import Derivgrind.Helpers.PackedMask
import Derivgrind.Instrument.OriginBytes

/-!
# Indices that have been assigned

The functions of recording mode return zero or the index of a block.  If the operands that they get
are indices of blocks, then the operands of new blocks are indices of earlier blocks.

## Main definitions

* `TapeState.bound`, `TapeState.Issued` — the indices that have been assigned.
* `TapeState.Sound` — operands of blocks are indices of earlier blocks.

## Main results

* `TapeState.Sound.add`, `TapeState.Sound.perform` — tape statements.
* `BitwiseOp.handler64_sound` — **the handlers of bitwise operations**, on whole and torn operands.
-/

namespace Derivgrind

/-! ### The tape -/

/-- A bound for the indices that have been assigned.  Once a write has been cut short, nothing is
known. -/
def TapeState.bound (s : TapeState) : ℕ :=
  if s.fdTape.complete then s.nextindex.toNat else 2 ^ 64

/-- The index of a block, or zero. -/
def TapeState.Issued (s : TapeState) (i : ULong) : Prop := i.toNat < s.bound

/-- The blocks of the tape: the zero block comes first, and unless some write has been cut short,
operands are indices of earlier blocks. -/
structure RecordedLog (s : TapeState) (log : List (List ULong)) : Prop where
  zero : log.head? = some zeroBlock
  tape : TapeInv s log
  below : s.fdTape.complete = true → OperandsBelow log
  length : ∀ block ∈ log, block.length = 4

/-- All operands on the tape are indices of earlier blocks. -/
structure TapeState.Sound (s : TapeState) : Prop where
  allocated : s.Allocated
  log : ∃ log, RecordedLog s log

section Tape

variable {o : TapeOptions} {tid : ThreadId} {s s' : TapeState} {rs : List Request}

theorem TapeState.Issued.mono {i : ULong} (h : s.Issued i) (hle : s.bound ≤ s'.bound) :
    s'.Issued i :=
  Nat.lt_of_lt_of_le h hle

theorem RecordedLog.bound {log : List (List ULong)} (h : RecordedLog s log)
    (hc : s.fdTape.complete = true) : s.bound = log.length := by
  rw [TapeState.bound, if_pos hc, h.tape.next hc]

/-- There is always the zero block. -/
theorem TapeState.Sound.issued_zero (h : s.Sound) : s.Issued 0 := by
  obtain ⟨log, hlog⟩ := h.log
  by_cases hc : s.fdTape.complete = true
  · rw [Issued, hlog.bound hc]
    obtain ⟨block, rest, rfl⟩ : ∃ block rest, log = block :: rest := by
      cases log with
      | nil => cases hlog.zero
      | cons block rest => exact ⟨block, rest, rfl⟩
    exact Nat.succ_pos _
  · rw [Issued, bound, if_neg hc]
    decide

/-- Tape statements with operands that have been assigned. -/
theorem TapeState.Sound.recorded (hram : o.tapeInRam = false) (h : s.Sound)
    (hrec : s.Recorded o s' rs) (hops : ∀ r ∈ rs, s.Issued r.index1 ∧ s.Issued r.index2) :
    s'.Sound ∧ s.bound ≤ s'.bound := by
  obtain ⟨log, hlog⟩ := h.log
  obtain ⟨halloc, blocks, happ, -, hblocks⟩ := hrec
  obtain ⟨hinv, hcomplete⟩ := happ.2 hram log hlog.tape
  have hbelow : s'.fdTape.complete = true → OperandsBelow (log ++ blocks) := by
    intro hc
    have hcs := hcomplete hc
    refine (hlog.below hcs).append fun block hblock j hj => Or.inr ?_
    obtain ⟨r, hr, rfl⟩ := hblocks block hblock
    have hr := hops r hr
    simp only [Issued, hlog.bound hcs] at hr
    obtain rfl | rfl : j = 0 ∨ j = 1 := by omega
    · exact hr.1
    · exact hr.2
  refine ⟨⟨halloc, log ++ blocks, ?_, hinv, hbelow, fun block hblock => ?_⟩, ?_⟩
  · rw [List.head?_append, hlog.zero]
    rfl
  · rcases List.mem_append.mp hblock with hb | hb
    · exact hlog.length block hb
    · obtain ⟨r, -, rfl⟩ := hblocks block hb
      rfl
  · by_cases hc : s'.fdTape.complete = true
    · rw [hlog.bound (hcomplete hc), bound, if_pos hc, hinv.next hc, List.length_append]
      exact Nat.le_add_right _ _
    · rw [bound, bound, if_neg hc]
      split
      · exact s.nextindex.isLt.le
      · exact le_rfl

/-- An index that is returned is zero, or the one of the new block. -/
theorem TapeState.Sound.issued_returned (h : s'.Sound) {i : ULong}
    (hi : i = 0 ∨ i = s.nextindex ∧ s'.nextindex = s.nextindex + 1) : s'.Issued i := by
  rcases hi with rfl | ⟨rfl, hnext⟩
  · exact h.issued_zero
  · have hpos := h.issued_zero
    unfold Issued bound at hpos ⊢
    split
    · next hc =>
      -- the next index is not zero, so there is no overflow
      rw [if_pos hc, hnext, BitVec.toNat_add] at hpos
      rw [hnext, BitVec.toNat_add]
      have hlt := s.nextindex.isLt
      have hone : (1 : ULong).toNat = 1 := rfl
      have hzero : (0 : ULong).toNat = 0 := rfl
      omega
    · exact s.nextindex.isLt

variable (htype : o.typegrind = false) (hram : o.tapeInRam = false)

include htype hram

/-- A tape statement without its value. -/
theorem TapeState.Sound.add (h : s.Sound) (tid : ThreadId) {r : Request} (h₁ : s.Issued r.index1)
    (h₂ : s.Issued r.index2) : ∃ index s', r.add o tid s = some (index, s') ∧ s'.Sound ∧
      s.bound ≤ s'.bound ∧ s'.Issued index := by
  obtain ⟨index, s', hadd, hrec, hindex⟩ := r.add_recorded htype tid h.allocated
  obtain ⟨hs', hle⟩ := h.recorded hram hrec (by simpa using ⟨h₁, h₂⟩)
  exact ⟨index, s', hadd, hs', hle, hs'.issued_returned hindex⟩

/-- A tape statement. -/
theorem TapeState.Sound.perform (h : s.Sound) (tid : ThreadId) {r : Request}
    (h₁ : s.Issued r.index1) (h₂ : s.Issued r.index2) :
    ∃ index s', r.perform o tid s = some (index, s') ∧ s'.Sound ∧ s.bound ≤ s'.bound ∧
      s'.Issued index := by
  obtain ⟨index, s', hadd, hrec, hindex⟩ := r.perform_recorded htype tid h.allocated
  obtain ⟨hs', hle⟩ := h.recorded hram hrec (by simpa using ⟨h₁, h₂⟩)
  exact ⟨index, s', hadd, hs', hle, hs'.issued_returned hindex⟩

end Tape

/-! ### Bitwise operations -/

section Masks

variable {w : ℕ} {op : BitwiseOp} {x xiLo xiHi y yiLo yiHi iLo iHi : BitVec w} {a : BitwiseAction}

/-- What is done with an operand if the other one is the mask `x`: its index is copied, or minus
this operand is recorded. -/
structure BitwiseOp.Masks (op : BitwiseOp) (x iLo iHi : BitVec w) (a : BitwiseAction) : Prop where
  mask : x = op.signMask w ∨ x = op.neutralMask w
  action : a = copyIndex iLo iHi ∨ x = op.signMask w ∧ ∃ z, a = minusIndex z iLo iHi

/-- The sign mask. -/
theorem BitwiseOp.masks_sign {c : Prop} [Decidable c] (hx : x = op.signMask w)
    (h : (if c then some (copyIndex iLo iHi) else some (minusIndex y iLo iHi)) = some a) :
    op.Masks x iLo iHi a := by
  refine ⟨.inl hx, ?_⟩
  split at h
  · exact .inl (Option.some.inj h).symm
  · exact .inr ⟨hx, y, (Option.some.inj h).symm⟩

theorem masks_handleAnd (h : handleAnd x xiLo xiHi y yiLo yiHi = some a) :
    BitwiseOp.and.Masks x yiLo yiHi a := by
  unfold handleAnd at h
  split at h
  · next hx => exact BitwiseOp.masks_sign hx h
  · split at h
    · next hx => exact ⟨.inr hx, .inl (Option.some.inj h).symm⟩
    · cases h

theorem masks_handleOr (h : handleOr x xiLo xiHi y yiLo yiHi = some a) :
    BitwiseOp.or.Masks x yiLo yiHi a := by
  unfold handleOr at h
  split at h
  · next hx => exact BitwiseOp.masks_sign hx.1 h
  · split at h
    · next hx => exact ⟨.inr hx.1, .inl (Option.some.inj h).symm⟩
    · cases h

theorem masks_handleXor (h : handleXor .b x xiLo xiHi y yiLo yiHi = some a) :
    BitwiseOp.xor.Masks x yiLo yiHi a := by
  unfold handleXor at h
  split at h
  · next hx => exact ⟨.inl hx.1, .inr ⟨hx.1, y, (Option.some.inj h).symm⟩⟩
  · split at h
    · next hmode => cases hmode.1
    · cases h

/-- An operation is recognised if one of the operands is a mask. -/
theorem BitwiseOp.masks_handle (h : op.handle .b x xiLo xiHi y yiLo yiHi = some a) :
    op.Masks x yiLo yiHi a ∨ op.Masks y xiLo xiHi a := by
  have hcases : ∀ {b c : Option BitwiseAction}, (b <|> c) = some a → b = some a ∨ c = some a := by
    intro b c h
    cases b with
    | none => exact .inr h
    | some b => exact .inl h
  cases op with
  | and => exact (hcases h).imp masks_handleAnd masks_handleAnd
  | or => exact (hcases h).imp masks_handleOr masks_handleOr
  | xor => exact (hcases h).imp masks_handleXor masks_handleXor

theorem BitwiseOp.Masks.mayRecognise (h : op.Masks x yiLo yiHi a ∨ op.Masks y xiLo xiHi a) :
    op.mayRecognise x y = true := by
  simp only [BitwiseOp.mayRecognise, BitwiseOp.mayRecord, Bool.or_eq_true, decide_eq_true_eq]
  rcases h with h | h
  · exact h.mask.elim (fun hx => .inl (.inl (.inl hx))) fun hx => .inl (.inr hx)
  · exact h.mask.elim (fun hy => .inl (.inl (.inr hy))) .inr

end Masks

section Handlers

variable {o : TapeOptions} {s : BarState} {op : BitwiseOp} {whole : Bool}

/-- The tape after a call, on which the blocks before it are still there. -/
structure BarState.Follows (s s' : BarState) : Prop where
  sound : s'.tape.Sound
  bound : s.tape.bound ≤ s'.tape.bound

theorem BarState.Follows.issued {s s' : BarState} {i : ULong} (h : s.Follows s')
    (hi : s.tape.Issued i) : s'.tape.Issued i :=
  hi.mono h.bound

variable (htype : o.typegrind = false) (hram : o.tapeInRam = false)

variable (tid : ThreadId)

include htype hram

/-- What a mask does to an operand, which must be whole if it is recorded. -/
theorem BitwiseOp.Masks.perform {w : ℕ} (hw : w = 32 ∨ w = 64) (hs : s.tape.Sound)
    {x iLo iHi : BitVec w} {a : BitwiseAction} (h : op.Masks x iLo iHi a)
    (hwhole : whole = true → s.tape.Issued (indexOf iLo iHi))
    (hrecord : x = op.signMask w → whole = true) :
    ∃ s', a.perform o tid w s = some s' ∧ s.Follows s' ∧ s'.upperIndex = s.upperIndex ∧
      (whole = true → s'.tape.Issued s'.bitwiseIndex) := by
  rcases h.action with rfl | ⟨hx, z, rfl⟩
  · refine ⟨_, rfl, ⟨hs, le_rfl⟩, rfl, fun hwh => ?_⟩
    rw [bitwiseIndex_eq]
    show s.tape.Issued (iHi.setWidth 32 ++ iLo.setWidth 32)
    rw [← indexOf_eq hw]
    exact hwhole hwh
  · obtain ⟨index, t, ht, hsound, hbound, hindex⟩ := hs.perform htype hram tid
      (r := minusRequest (indexOf iLo iHi) (toDouble (Ieee.neg z))) (hwhole (hrecord hx))
      hs.issued_zero
    refine ⟨⟨t, { s.bitwiseOut with
      w0 := index.setWidth 32, w2 := (index >>> 32).setWidth 32 }⟩, ?_, ⟨hsound, hbound⟩, rfl,
      fun _ => ?_⟩
    · exact Option.bind_eq_some_iff.mpr ⟨(index, t), ht, rfl⟩
    · rw [bitwiseIndex_eq]
      show t.Issued (upperHalf index ++ lowerHalf index)
      rwa [append_halves]

/-- **A 32-bit handler** records operands that are whole. -/
theorem BitwiseOp.handler32_sound (hs : s.tape.Sound) {x xiLo xiHi y yiLo yiHi : BitVec 32}
    (hwhole : whole = true →
      s.tape.Issued (indexOf xiLo xiHi) ∧ s.tape.Issued (indexOf yiLo yiHi))
    (hrecord : op.mayRecord x y = true → whole = true) :
    ∃ s', op.handler32 o .b tid x xiLo xiHi y yiLo yiHi s = some s' ∧ s.Follows s' ∧
      (whole = true → s'.tape.Issued s'.bitwiseIndex) := by
  simp only [mayRecord, Bool.or_eq_true, decide_eq_true_eq] at hrecord
  unfold handler32
  cases hhandle : op.handle .b x xiLo xiHi y yiLo yiHi with
  | none =>
    have hzero : unrecognised o .b xiLo yiLo = ⟨0, 0, 0, 0⟩ := by
      rw [unrecognised, if_neg (by decide), if_neg (by simp [htype])]
    refine ⟨_, rfl, ⟨hs, le_rfl⟩, fun _ => ?_⟩
    rw [bitwiseIndex_eq, hzero]
    show s.tape.Issued ((0 : BitVec 32) ++ (0 : BitVec 32))
    exact hs.issued_zero
  | some a =>
    rcases masks_handle hhandle with h | h
    · obtain ⟨s', hs', hfollows, -, hindex⟩ := h.perform htype hram tid (.inl rfl) hs
        (fun hwh => (hwhole hwh).2) fun hx => hrecord (.inl hx)
      exact ⟨s', hs', hfollows, hindex⟩
    · obtain ⟨s', hs', hfollows, -, hindex⟩ := h.perform htype hram tid (.inl rfl) hs
        (fun hwh => (hwhole hwh).1) fun hy => hrecord (.inr hy)
      exact ⟨s', hs', hfollows, hindex⟩

/-- **A 64-bit handler** records operands that are whole.  If the operation is recognised on 64
bits, then the upper half of the index is the one of the previous operation. -/
theorem BitwiseOp.handler64_sound (hs : s.tape.Sound) {x xiLo xiHi y yiLo yiHi : ULong}
    {whole₁ : Bool} (hwhole : whole = true →
      s.tape.Issued (indexOf xiLo xiHi) ∧ s.tape.Issued (indexOf yiLo yiHi))
    (hwhole₁ : whole₁ = true → s.tape.Issued (indexOf (upperHalf xiLo) (upperHalf xiHi)) ∧
      s.tape.Issued (indexOf (upperHalf yiLo) (upperHalf yiHi)))
    (hrecord : (op.mayRecord x y || op.mayRecord (lowerHalf x) (lowerHalf y)) = true →
      whole = true)
    (hrecord₁ : op.mayRecord (upperHalf x) (upperHalf y) = true → whole₁ = true) :
    ∃ s', op.handler64 o .b tid x xiLo xiHi y yiLo yiHi s = some s' ∧ s.Follows s' ∧
      (whole = true → s'.tape.Issued s'.bitwiseIndex) ∧
      (whole₁ = true → s.tape.Issued s.upperIndex ∨ op.mayRecognise x y = false →
        s'.tape.Issued s'.upperIndex) := by
  simp only [mayRecord, Bool.or_eq_true, decide_eq_true_eq] at hrecord
  unfold handler64
  cases hhandle : op.handle .b x xiLo xiHi y yiLo yiHi with
  | some a =>
    have hmasks := masks_handle hhandle
    have hupper : s.tape.Issued s.upperIndex ∨ op.mayRecognise x y = false →
        s.tape.Issued s.upperIndex := by
      rw [Masks.mayRecognise hmasks]
      exact fun h => h.elim id nofun
    rcases hmasks with h | h
    · obtain ⟨s', hs', hfollows, hkept, hindex⟩ := h.perform htype hram tid (.inr rfl) hs
        (fun hwh => (hwhole hwh).2) fun hx => hrecord (.inl (.inl hx))
      refine ⟨s', hs', hfollows, hindex, fun _ h => ?_⟩
      rw [hkept]
      exact hfollows.issued (hupper h)
    · obtain ⟨s', hs', hfollows, hkept, hindex⟩ := h.perform htype hram tid (.inr rfl) hs
        (fun hwh => (hwhole hwh).1) fun hy => hrecord (.inl (.inr hy))
      refine ⟨s', hs', hfollows, hindex, fun _ h => ?_⟩
      rw [hkept]
      exact hfollows.issued (hupper h)
  | none =>
    -- both halves, the upper one first
    have hlower : ∀ iLo iHi : ULong, indexOf (lowerHalf iLo) (lowerHalf iHi) = indexOf iLo iHi :=
      fun iLo iHi => by
        rw [indexOf_eq (.inl rfl), indexOf_eq (.inr rfl)]
        simp [lowerHalf]
    obtain ⟨s₁, hs₁, hfollows₁, hindex₁⟩ := handler32_sound htype hram tid hs hwhole₁
      hrecord₁
    have hwhole₂ : whole = true →
        s₁.tape.Issued (indexOf (lowerHalf xiLo) (lowerHalf xiHi)) ∧
          s₁.tape.Issued (indexOf (lowerHalf yiLo) (lowerHalf yiHi)) := fun hwh => by
      rw [hlower, hlower]
      exact ⟨hfollows₁.issued (hwhole hwh).1, hfollows₁.issued (hwhole hwh).2⟩
    have hrecord₂ : op.mayRecord (lowerHalf x) (lowerHalf y) = true → whole = true := fun hrec => by
      simp only [mayRecord, Bool.or_eq_true, decide_eq_true_eq] at hrec
      exact hrecord (.inr hrec)
    obtain ⟨s₂, hs₂, hfollows₂, hindex₂⟩ :=
      handler32_sound htype hram tid hfollows₁.sound hwhole₂ hrecord₂
    refine ⟨{ s₂ with bitwiseOut := { s₂.bitwiseOut with
      w1 := s₁.bitwiseOut.w0, w3 := s₁.bitwiseOut.w2 } }, ?_,
      ⟨hfollows₂.sound, hfollows₁.bound.trans hfollows₂.bound⟩, fun hwh => ?_, fun hwh _ => ?_⟩
    · simp only [hs₁, hs₂, Option.bind_eq_bind, Option.bind_some]
    · have hindex := hindex₂ hwh
      rw [bitwiseIndex_eq] at hindex ⊢
      exact hindex
    · have hindex := hindex₁ hwh
      rw [bitwiseIndex_eq] at hindex
      exact hfollows₂.issued hindex

end Handlers

end Derivgrind
