import Derivgrind.Helpers.SignMask
import Derivgrind.Helpers.TrickTool
import Derivgrind.Shadow.Calls

/-!
# Activity in bit-trick-finding mode

An active operand makes the result active, as activity bits are there to follow the
data that depend on an input.  Two places of the code lose activity bits.

* The handlers of "or" and "xor" take an operand for a constant mask if the lower four
  bytes of its activity bits are zero, also if the operand has eight bytes.
* Loading an 80-bit number sets 56 of the 64 activity bits.

## Main definitions

* `BitwiseOp.MaskLosesActivity` — the operands for which "or" and "xor" lose activity.
* `ActiveAt` — some activity bit of the ten bytes at an address is set.
* `storedF80` — shadow memory after storing an 80-bit number.

## Main results

* `BitwiseOp.trick64_keepsActivity_iff` — when "or" and "xor" keep activity.
* `f80_activity_iff` — when loads of 80-bit numbers set all activity bits.
-/

namespace Derivgrind

open ByteMap FlexibleShadow

variable {F : FlexibleShadow BarLayer 64}

/-! ### Bitwise logical operations -/

/-- The values that `DG_HANDLE_OR` and `DG_HANDLE_XOR` compare with. -/
def BitwiseOp.IsMaskValue (op : BitwiseOp) {w : ℕ} (x : BitVec w) : Prop :=
  x = signBit w ∨ op = .or ∧ x = 0

/-- One operand is not active, and the other one is taken for a constant mask because
activity bits are set in its upper half only.  The first operand is tried first. -/
def BitwiseOp.MaskLosesActivity (op : BitwiseOp) (x xiLo y yiLo : ULong) : Prop :=
  (op.IsMaskValue x ∧ lowerHalf xiLo = 0 ∧ upperHalf xiLo ≠ 0 ∧ yiLo = 0) ∨
  (¬op.IsMaskValue x ∧ xiLo = 0 ∧ op.IsMaskValue y ∧ lowerHalf yiLo = 0 ∧ upperHalf yiLo ≠ 0)

section Bitwise

variable {op : BitwiseOp}

theorem BitwiseOp.trickMask_iff (hop : op ≠ .and) {w : ℕ} (x xiLo : BitVec w) :
    op.trickMask x xiLo = true ↔ op.IsMaskValue x ∧ xiLo.setWidth 32 = 0#32 := by
  cases op with
  | and => exact absurd rfl hop
  | or => simp [BitwiseOp.trickMask, BitwiseOp.IsMaskValue, or_and_right]
  | xor => simp [BitwiseOp.trickMask, BitwiseOp.IsMaskValue]

theorem halves_eq_zero_iff (x : ULong) : x = 0 ↔ upperHalf x = 0 ∧ lowerHalf x = 0 := by
  constructor
  · rintro rfl
    decide
  · rintro ⟨hupper, hlower⟩
    rw [← append_halves x, hupper, hlower]
    rfl

@[simp] theorem bitwiseOut_trickConsume {w : ℕ} (yiLo yiHi : BitVec w) (t : TrickTool F) :
    (trickConsume yiLo yiHi t).bitwiseOut = V128.ofU64 (yiLo.setWidth 64) 0 := rfl

@[simp] theorem bitwiseGetLower_trickConsume (yiLo yiHi : ULong) (t : TrickTool F) :
    (trickConsume yiLo yiHi t).bitwiseGetLower = yiLo := by
  rw [TrickTool.bitwiseGetLower, bitwiseOut_trickConsume, BitVec.setWidth_eq]
  exact append_halves yiLo

/-- The 32-bit functions look at all activity bits of a mask. -/
theorem BitwiseOp.trick32_keepsActivity (hop : op ≠ .and) (x xiLo xiHi y yiLo yiHi : BitVec 32)
    (t : TrickTool F) :
    (op.trick32 x xiLo xiHi y yiLo yiHi t).bitwiseOut.w0 ≠ 0 ↔ xiLo ≠ 0 ∨ yiLo ≠ 0 := by
  have hmask : ∀ {v viLo : BitVec 32}, op.trickMask v viLo = true → viLo = 0 := by
    intro v viLo h
    rw [BitwiseOp.trickMask_iff hop, BitVec.setWidth_eq] at h
    exact h.2
  unfold BitwiseOp.trick32
  by_cases hx : op.trickMask x xiLo = true
  · rw [if_pos hx, bitwiseOut_trickConsume, V128.ofU64, lowerHalf_zeroExtended, hmask hx]
    simp
  · rw [if_neg hx]
    by_cases hy : op.trickMask y yiLo = true
    · rw [if_pos hy, bitwiseOut_trickConsume, V128.ofU64, lowerHalf_zeroExtended, hmask hy]
      simp
    · rw [if_neg hy]
      by_cases hact : xiLo ≠ 0 ∨ yiLo ≠ 0
      · refine iff_of_true ?_ hact
        rw [if_pos hact]
        change (-1 : BitVec 32) ≠ 0
        decide
      · refine iff_of_false ?_ hact
        rw [if_neg hact]
        exact fun h => h rfl

/-- The halves of an operation that was not recognised keep the activity. -/
theorem BitwiseOp.trick64_keepsActivity_of_halves (hop : op ≠ .and)
    {x xiLo y yiLo : ULong} (hx : ¬op.trickMask x xiLo = true) (hy : ¬op.trickMask y yiLo = true)
    (xiHi yiHi : ULong) (t : TrickTool F) :
    (op.trick64 x xiLo xiHi y yiLo yiHi t).bitwiseGetLower ≠ 0 ↔ xiLo ≠ 0 ∨ yiLo ≠ 0 := by
  unfold BitwiseOp.trick64
  rw [if_neg hx, if_neg hy, TrickTool.bitwiseGetLower, ne_eq, halves_eq_zero_iff,
    upperHalf_append, lowerHalf_append, not_and_or, ← ne_eq, ← ne_eq,
    BitwiseOp.trick32_keepsActivity hop, BitwiseOp.trick32_keepsActivity hop,
    ne_eq xiLo, ne_eq yiLo, halves_eq_zero_iff xiLo, halves_eq_zero_iff yiLo]
  tauto

/-- **When activity is kept** by `dg_trick_bitwise_or64` and `dg_trick_bitwise_xor64`. -/
theorem BitwiseOp.trick64_keepsActivity_iff (hop : op = .or ∨ op = .xor)
    (x xiLo xiHi y yiLo yiHi : ULong) (t : TrickTool F) :
    (xiLo ≠ 0 ∨ yiLo ≠ 0 → (op.trick64 x xiLo xiHi y yiLo yiHi t).bitwiseGetLower ≠ 0) ↔
      ¬op.MaskLosesActivity x xiLo y yiLo := by
  have hop' : op ≠ .and := by
    rintro rfl
    simp at hop
  have hxmask := BitwiseOp.trickMask_iff hop' x xiLo
  have hymask := BitwiseOp.trickMask_iff hop' y yiLo
  have hxzero := halves_eq_zero_iff xiLo
  have hyzero := halves_eq_zero_iff yiLo
  change _ ↔ _ ∧ lowerHalf xiLo = 0 at hxmask
  change _ ↔ _ ∧ lowerHalf yiLo = 0 at hymask
  unfold BitwiseOp.MaskLosesActivity
  by_cases hx : op.trickMask x xiLo = true
  · -- the first operand is taken for a mask
    have hout : (op.trick64 x xiLo xiHi y yiLo yiHi t).bitwiseGetLower = yiLo := by
      rw [BitwiseOp.trick64, if_pos hx, bitwiseGetLower_trickConsume]
    obtain ⟨hvalue, hlower⟩ := hxmask.mp hx
    rw [hout]
    grind
  · by_cases hy : op.trickMask y yiLo = true
    · -- the second operand is taken for a mask
      have hout : (op.trick64 x xiLo xiHi y yiLo yiHi t).bitwiseGetLower = xiLo := by
        rw [BitwiseOp.trick64, if_neg hx, if_pos hy, bitwiseGetLower_trickConsume]
      obtain ⟨hvalue, hlower⟩ := hymask.mp hy
      rw [hout]
      grind
    · have hhalves := BitwiseOp.trick64_keepsActivity_of_halves hop' hx hy xiHi yiHi t
      rw [hxmask] at hx
      rw [hymask] at hy
      refine iff_of_true hhalves.mpr ?_
      rintro (⟨hvalue, hlower, -⟩ | ⟨-, -, hvalue, hlower, -⟩)
      · exact hx ⟨hvalue, hlower⟩
      · exact hy ⟨hvalue, hlower⟩

end Bitwise

/-- Nothing is active. -/
def TrickTool.initial (F : FlexibleShadow BarLayer 64) : TrickTool F :=
  ⟨F.shadowInit fun _ _ _ => 0, ⟨0, 0, 0, 0⟩, 0, []⟩

/-- Shadow memory with leaves of 256 KiB. -/
abbrev smallLeaves : FlexibleShadow BarLayer 64 := directMap BarLayer 64 (2 ^ 18)

theorem BitwiseOp.trick64_keepsActivity_iff_xor :
    (BitwiseOp.xor.trick64 (signBit 64) 0 0 0 1 0 (TrickTool.initial smallLeaves)).bitwiseGetLower
      ≠ 0 := by
  refine (BitwiseOp.trick64_keepsActivity_iff (.inr rfl) _ _ _ _ _ _ _).mpr ?_ (.inr (by decide))
  rintro (⟨-, -, hupper, -⟩ | ⟨hvalue, -⟩)
  · exact hupper (by decide)
  · exact hvalue (.inl rfl)

/-- The pair of an active `-0.0f` and an inactive `0.0f`, and an inactive operand. -/
theorem not_keepsActivity_or :
    ¬((0xffffffff00000000 : ULong) ≠ 0 ∨ (0 : ULong) ≠ 0 →
      (BitwiseOp.or.trick64 0x8000000000000000 0xffffffff00000000 0 0x3f800000 0 0
        (TrickTool.initial smallLeaves)).bitwiseGetLower ≠ 0) := by
  intro h
  exact h (.inl (by decide)) rfl

/-! ### x87 loads and stores -/

/-- At least one of the 80 activity bits at an address is set. -/
def ActiveAt (mem : BarLayer → Addr → Byte) (a : Addr) : Prop :=
  ∃ b ∈ read (mem .lo) a 10, b ≠ 0

/-- Shadow memory after storing an 80-bit number: its ten bytes are active as soon as one of
the given activity bits is set, and not discrete. -/
def storedF80 (mem : BarLayer → Addr → Byte) (a : Addr) (a64Lo : ULong) : BarLayer → Addr → Byte :=
  overlayLayers mem a 10
    (BarLayer.pair (some fun _ => if a64Lo = 0 then 0 else 0xff) (some fun _ => 0))

/-- Loading an 80-bit number gives 64 activity bits, all of which are set if the number is
active and none of which is set otherwise, and no discreteness bits. -/
def LoadsActivity (F : FlexibleShadow BarLayer 64) (fuel : ℕ) (a : Addr) (t : TrickTool F)
    (active : Prop) : Prop :=
  ∃ lo hi t', dgTrickDirtyhelperLoadF80leLo F fuel a t = some lo ∧
    dgTrickDirtyhelperLoadF80leHi F fuel a t = some (hi, t') ∧
    (active → lo = BitVec.allOnes 64) ∧ (¬active → lo = 0) ∧ hi = 0

theorem bytesToNat_eq_zero_iff (bytes : List Byte) :
    bytesToNat bytes = 0 ↔ ∀ b ∈ bytes, b = 0 := by
  induction bytes with
  | nil => simp [bytesToNat]
  | cons b bs ih =>
    have hb : b.toNat = 0 ↔ b = 0 := BitVec.toNat_eq_nat.trans (by simp)
    rw [bytesToNat, Nat.add_eq_zero_iff, Nat.mul_eq_zero, ih, List.forall_mem_cons, hb]
    simp

theorem bitsOf_ne_zero_iff {w : ℕ} {bytes : List Byte} (h : 8 * bytes.length ≤ w) :
    bitsOf w bytes ≠ 0 ↔ ∃ b ∈ bytes, b ≠ 0 := by
  have hzero : bitsOf w bytes = 0 ↔ bytesToNat bytes = 0 := by
    rw [← toNat_bitsOf h]
    exact ⟨fun h => by rw [h]; rfl, fun h => BitVec.eq_of_toNat_eq h⟩
  rw [ne_eq, hzero, bytesToNat_eq_zero_iff]
  push Not
  rfl

/-- The condition in the helpers looks at all of the ten bytes. -/
theorem anyFlag_iff {bytes : List Byte} (h : bytes.length = 10) :
    anyFlag bytes = true ↔ ∃ b ∈ bytes, b ≠ 0 := by
  rw [anyFlag, Bool.or_eq_true, decide_eq_true_eq, decide_eq_true_eq,
    bitsOf_ne_zero_iff (by rw [List.length_take]; omega),
    bitsOf_ne_zero_iff (by rw [List.length_drop]; omega), ← exists_or]
  simp only [← or_and_right, ← List.mem_append, List.take_append_drop]

section F80

variable {fuel : ℕ} {t : TrickTool F} {mem : BarLayer → Addr → Byte} {hF : F.Lawful}

theorem dgTrickDirtyhelperStoreF80le_rep (hL : F.leafSize ∣ 2 ^ 64) (hfuel : 2 ^ 31 ≤ fuel)
    (hmem : Rep hF t.shadow mem) (a : Addr) (a64Lo a64Hi : ULong) :
    ∃ t', dgTrickDirtyhelperStoreF80le F fuel a a64Lo a64Hi t = some t' ∧
      Rep hF t'.shadow (storedF80 mem a a64Lo) := by
  obtain ⟨s', hs', hrep⟩ := dgBarShadowSet_rep hL hfuel hmem a
    (some fun _ => if a64Lo = 0 then 0 else 0xff) (some fun _ => 0)
    (show (10 : BitVec 32).toNat < 2 ^ 31 by decide)
  unfold dgTrickDirtyhelperStoreF80le
  by_cases hlo : a64Lo = 0
  · simp only [hlo, if_pos] at hs'
    rw [if_pos hlo, hs']
    exact ⟨_, rfl, hrep⟩
  · -- a warning does not change shadow memory
    have hshadow : (if a64Hi ≠ 0 then dgTrickWarnDirtyhelper a64Lo a64Hi 8 t else t).shadow
        = t.shadow := by
      unfold dgTrickWarnDirtyhelper
      split_ifs <;> rfl
    simp only [hlo, if_false] at hs'
    rw [if_neg hlo]
    simp only [hshadow, hs']
    exact ⟨_, rfl, hrep⟩

theorem dgTrickDirtyhelperLoadF80leLo_rep (hL : F.leafSize ∣ 2 ^ 64) (hfuel : 2 ^ 31 ≤ fuel)
    (hmem : Rep hF t.shadow mem) (a : Addr) :
    dgTrickDirtyhelperLoadF80leLo F fuel a t =
      some (if anyFlag (read (mem .lo) a 10) then 0xffffffffffffff#64 else 0) := by
  have hget := dgBarShadowGet_rep hL hfuel hmem a (show (10 : BitVec 32).toNat < 2 ^ 31 by decide)
  rw [dgTrickDirtyhelperLoadF80leLo, hget]
  rfl

theorem dgTrickDirtyhelperLoadF80leHi_rep (hL : F.leafSize ∣ 2 ^ 64) (hfuel : 2 ^ 31 ≤ fuel)
    (hmem : Rep hF t.shadow mem) (a : Addr) :
    ∃ t', dgTrickDirtyhelperLoadF80leHi F fuel a t = some (0, t') := by
  have hget := dgBarShadowGet_rep hL hfuel hmem a (show (10 : BitVec 32).toNat < 2 ^ 31 by decide)
  rw [dgTrickDirtyhelperLoadF80leHi, hget, Option.map_some]
  split_ifs
  · exact ⟨_, rfl⟩
  · exact ⟨_, rfl⟩

/-- The literal in the helper has 14 digits, so that not all activity bits are set. -/
theorem loadsActivity_iff (hL : F.leafSize ∣ 2 ^ 64) (hfuel : 2 ^ 31 ≤ fuel)
    (hmem : Rep hF t.shadow mem) (a : Addr) :
    LoadsActivity F fuel a t (ActiveAt mem a) ↔ ¬ActiveAt mem a := by
  have hlo := dgTrickDirtyhelperLoadF80leLo_rep hL hfuel hmem a
  obtain ⟨t', hhi⟩ := dgTrickDirtyhelperLoadF80leHi_rep hL hfuel hmem a
  have hany := anyFlag_iff (length_read (mem .lo) a 10)
  constructor
  · rintro ⟨lo, -, -, hload, -, hones, -⟩ hact
    rw [hlo, if_pos (hany.mpr hact), hones hact] at hload
    exact absurd hload (by decide)
  · intro hact
    refine ⟨0, 0, t', ?_, hhi, fun h => absurd h hact, fun _ => rfl, rfl⟩
    rw [hlo, if_neg (fun h => hact (hany.mp h))]

/-- The number that was stored is active. -/
theorem activeAt_storedF80 (mem : BarLayer → Addr → Byte) (a : Addr) (a64Lo : ULong) :
    ActiveAt (storedF80 mem a a64Lo) a ↔ a64Lo ≠ 0 := by
  have hread : read (storedF80 mem a a64Lo .lo) a 10
      = (List.range 10).map fun _ => if a64Lo = 0 then 0 else 0xff :=
    read_overlay (n := 10) (mem .lo) a (fun _ => if a64Lo = 0 then 0 else 0xff) le_rfl (by decide)
  rw [ActiveAt, hread]
  by_cases h : a64Lo = 0
  · simp [h]
  · refine iff_of_true ?_ h
    rw [if_neg h]
    exact ⟨0xff, by decide, by decide⟩

/-- **80-bit numbers in memory.**  Stores are right; loads are right for numbers that are not
active. -/
theorem f80_activity_iff (hF : F.Lawful) (hL : F.leafSize ∣ 2 ^ 64) (hfuel : 2 ^ 31 ≤ fuel)
    (hmem : Rep hF t.shadow mem) (a : Addr) (a64Lo a64Hi : ULong) :
    (LoadsActivity F fuel a t (ActiveAt mem a) ↔ ¬ActiveAt mem a) ∧
      ∃ t', dgTrickDirtyhelperStoreF80le F fuel a a64Lo a64Hi t = some t' ∧
        Rep hF t'.shadow (storedF80 mem a a64Lo) ∧
        (LoadsActivity F fuel a t' (a64Lo ≠ 0) ↔ a64Lo = 0) := by
  refine ⟨loadsActivity_iff hL hfuel hmem a, ?_⟩
  obtain ⟨t', ht', hrep⟩ := dgTrickDirtyhelperStoreF80le_rep hL hfuel hmem a a64Lo a64Hi
  refine ⟨t', ht', hrep, ?_⟩
  have hload := loadsActivity_iff hL hfuel hrep a
  rwa [activeAt_storedF80, not_not] at hload

end F80

/-- A number that is not active, in ten bytes on both sides of the border between two leaves. -/
theorem f80_activity_iff_border :
    ∃ t', dgTrickDirtyhelperStoreF80le smallLeaves (2 ^ 31) 0x3fffc 0 0
        (TrickTool.initial smallLeaves) = some t' ∧
      LoadsActivity smallLeaves (2 ^ 31) 0x3fffc t' ((0 : ULong) ≠ 0) := by
  obtain ⟨-, t', ht', -, hload⟩ := f80_activity_iff
    (directMapLawful BarLayer (by decide) (by decide) (by decide))
    (Dvd.intro (2 ^ 46) (by decide)) le_rfl (shadowInit_rep _ _)
    (t := TrickTool.initial smallLeaves) 0x3fffc 0 0
  exact ⟨t', ht', hload.mpr rfl⟩

/-- An active number that was stored is loaded with 56 activity bits. -/
theorem not_loadsActivity_stored :
    ¬∃ t', dgTrickDirtyhelperStoreF80le smallLeaves (2 ^ 31) 0x3fffc 1 0
        (TrickTool.initial smallLeaves) = some t' ∧
      LoadsActivity smallLeaves (2 ^ 31) 0x3fffc t' ((1 : ULong) ≠ 0) := by
  rintro ⟨t', ht', hload⟩
  have hL : smallLeaves.leafSize ∣ 2 ^ 64 := Dvd.intro (2 ^ 46) (by decide)
  have hmem := shadowInit_rep
    (directMapLawful BarLayer (w := 64) (L := 2 ^ 18) (by decide) (by decide) (by decide))
    fun _ _ _ => 0
  obtain ⟨t'', ht'', hrep⟩ := dgTrickDirtyhelperStoreF80le_rep hL le_rfl hmem
    (t := TrickTool.initial smallLeaves) 0x3fffc 1 0
  obtain rfl : t' = t'' := Option.some_inj.mp (ht'.symm.trans ht'')
  have hiff := loadsActivity_iff hL le_rfl hrep 0x3fffc
  rw [activeAt_storedF80] at hiff
  exact hiff.mp hload (by decide)

end Derivgrind
