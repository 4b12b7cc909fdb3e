import Derivgrind.Lib.ByteMap
import Derivgrind.Vex.Host
import Mathlib.Logic.Function.Basic
import Mathlib.Data.Nat.Bitwise

/-!
# Shadow memory

The files `dg_bar_shadow.cpp` and `dg_dot_shadow.cpp` store the shadow bytes of the
client's memory in the leaves of a map of the `flexible-shadow` submodule.  Recording
mode has two layers, forward mode has one.  An access that crosses the end of a leaf
is split by recursion.

The submodule is a parameter: `FlexibleShadow` lists what the files use of it, and
`FlexibleShadow.Lawful` what it promises.

## Main definitions

* `shadowSet`, `shadowGet` — write and read shadow bytes, for any number of layers.
* `dgBarShadowSet`, `dgBarShadowGet`, `dgDotShadowSet`, `dgDotShadowGet` — the functions
  of the two modes.
* `lastWritten` — the byte that the last call wrote to an address.

## Main results

* `shadowSet_rep` — one call overwrites its range, and terminates.
* `shadow_reads_lastWritten` — what is read after any sequence of calls.
-/

namespace Derivgrind

open ByteMap

/-! ### The submodule -/

/-- A leaf has one array of bytes for each layer. -/
abbrev ShadowLeaf (ι : Type) := ι → ℕ → Byte

/-- What is used of the `ShadowMap` of the submodule, for addresses of `w` bits. -/
structure FlexibleShadow (ι : Type) (w : ℕ) where
  /-- Pointers to leaves. -/
  Ptr : Type
  decPtr : DecidableEq Ptr
  /-- The levels of the map above the leaves. -/
  Map : Type
  /-- `1ul<<(SHADOW_LAYERS)`: the number of elements of the arrays in a leaf. -/
  leafSize : ℕ
  distinguished : Ptr
  constructAt : Map
  leafForRead : Map → BitVec w → Ptr
  leafForWrite : Map → (Ptr → ShadowLeaf ι) → BitVec w → Ptr × Map × (Ptr → ShadowLeaf ι)
  index : BitVec w → BitVec 64
  contiguousElements : BitVec w → BitVec w

namespace FlexibleShadow

variable {ι : Type} {w : ℕ}

instance (F : FlexibleShadow ι w) : DecidableEq F.Ptr := F.decPtr

/-- What the submodule promises. -/
structure Lawful (F : FlexibleShadow ι w) where
  /-- The leaves that were allocated, by their number. -/
  allocated : F.Map → ℕ → Option F.Ptr
  leafSize_pos : 1 ≤ F.leafSize
  index_eq : ∀ a, (F.index a).toNat = a.toNat % F.leafSize
  contiguousElements_eq : ∀ a,
    (F.contiguousElements a).toNat = F.leafSize - a.toNat % F.leafSize
  constructAt_eq : ∀ k, allocated F.constructAt k = none
  /-- The leaf of the address, or the distinguished leaf. -/
  leafForRead_eq : ∀ m a,
    F.leafForRead m a = (allocated m (a.toNat / F.leafSize)).getD F.distinguished
  leafForWrite_allocated : ∀ m h a p, allocated m (a.toNat / F.leafSize) = some p →
    F.leafForWrite m h a = (p, m, h)
  /-- On first use, a private copy of the distinguished leaf is allocated. -/
  leafForWrite_first : ∀ m h a, allocated m (a.toNat / F.leafSize) = none →
    ∃ p m', F.leafForWrite m h a = (p, m', Function.update h p (h F.distinguished)) ∧
      p ≠ F.distinguished ∧ (∀ k, allocated m k ≠ some p) ∧
      allocated m' = Function.update (allocated m) (a.toNat / F.leafSize) (some p)

/-- The map together with its leaves. -/
structure State (F : FlexibleShadow ι w) where
  map : F.Map
  heap : F.Ptr → ShadowLeaf ι

/-- `dg_bar_shadowInit`, `dg_dot_shadowInit`: clear the distinguished leaf and construct
the map. -/
def shadowInit (F : FlexibleShadow ι w) (heap : F.Ptr → ShadowLeaf ι) : F.State where
  map := F.constructAt
  heap := Function.update heap F.distinguished fun l i =>
    if i < F.leafSize then 0 else heap F.distinguished l i

/-- Copy `n` bytes into the arrays of a leaf, from the pointers that are not `NULL`. -/
def State.memcpyTo {F : FlexibleShadow ι w} (s : F.State) (leaf : F.Ptr) (index n : ℕ)
    (realAddress : ι → Option (ℕ → Byte)) : Option F.State :=
  if index + n ≤ F.leafSize then
    some { s with heap := Function.update s.heap leaf fun l i =>
      match realAddress l with
      | none => s.heap leaf l i
      | some p => if index ≤ i ∧ i < index + n then p (i - index) else s.heap leaf l i }
  else none

/-- Copy `n` bytes out of the arrays of a leaf, for the pointers that are not `NULL`. -/
def State.memcpyFrom {F : FlexibleShadow ι w} (s : F.State) (leaf : F.Ptr) (index n : ℕ)
    (wanted : ι → Bool) : Option (ι → List Byte) :=
  if index + n ≤ F.leafSize then
    some fun l => if wanted l then (List.range n).map fun j => s.heap leaf l (index + j) else []
  else none

/-! ### Access to shadow memory -/

/-- Advance the pointers that are not `NULL`. -/
def advance (n : ℕ) (realAddress : ι → Option (ℕ → Byte)) : ι → Option (ℕ → Byte) := fun l =>
  (realAddress l).map fun p j => p (n + j)

/-- Write shadow bytes.  The size is signed, but it is compared and subtracted as an
unsigned number of the word size. -/
def shadowSet (F : FlexibleShadow ι w) : ℕ → BitVec w → (ι → Option (ℕ → Byte)) → BitVec 32 →
    F.State → Option F.State
  | 0, _, _, _, _ => none
  | fuel + 1, smAddress, realAddress, size, s =>
    let (leaf, map, heap) := F.leafForWrite s.map s.heap smAddress
    let contiguousSize := F.contiguousElements smAddress
    let index := F.index smAddress
    if contiguousSize ≥ size.signExtend w then
      State.memcpyTo ⟨map, heap⟩ leaf index.toNat (size.signExtend w).toNat realAddress
    else
      (State.memcpyTo ⟨map, heap⟩ leaf index.toNat contiguousSize.toNat realAddress).bind fun s =>
        shadowSet F fuel (smAddress + contiguousSize) (advance contiguousSize.toNat realAddress)
          ((size.signExtend w - contiguousSize).setWidth 32) s

/-- Read shadow bytes, for the layers whose pointer is not `NULL`. -/
def shadowGet (F : FlexibleShadow ι w) (s : F.State) : ℕ → BitVec w → (ι → Bool) → BitVec 32 →
    Option (ι → List Byte)
  | 0, _, _, _ => none
  | fuel + 1, smAddress, wanted, size =>
    let leaf := F.leafForRead s.map smAddress
    let contiguousSize := F.contiguousElements smAddress
    let index := F.index smAddress
    if contiguousSize ≥ size.signExtend w then
      s.memcpyFrom leaf index.toNat (size.signExtend w).toNat wanted
    else
      (s.memcpyFrom leaf index.toNat contiguousSize.toNat wanted).bind fun bytes =>
        (shadowGet F s fuel (smAddress + contiguousSize) wanted
          ((size.signExtend w - contiguousSize).setWidth 32)).map fun bytes' l =>
            bytes l ++ bytes' l

/-! ### The state as a byte map -/

/-- Overwrite a range in the layers whose pointer is not `NULL`. -/
def overlayLayers (M : ι → BitVec w → Byte) (a : BitVec w) (n : ℕ)
    (realAddress : ι → Option (ℕ → Byte)) : ι → BitVec w → Byte := fun l =>
  match realAddress l with
  | none => M l
  | some p => overlay (M l) a n p

/-- The state stands for a byte map.  No leaf is shared, and nothing was written to the
distinguished leaf. -/
structure Rep {F : FlexibleShadow ι w} (hF : F.Lawful) (s : F.State)
    (M : ι → BitVec w → Byte) : Prop where
  zero : ∀ l i, i < F.leafSize → s.heap F.distinguished l i = 0
  not_distinguished : ∀ k, hF.allocated s.map k ≠ some F.distinguished
  injective : ∀ k k' p, hF.allocated s.map k = some p → hF.allocated s.map k' = some p → k = k'
  cell : ∀ l x, s.heap (F.leafForRead s.map x) l (x.toNat % F.leafSize) = M l x

section Rep

variable {F : FlexibleShadow ι w} (hF : F.Lawful) {s : F.State} {M : ι → BitVec w → Byte}

/-- Initially, all bytes are zero. -/
theorem shadowInit_rep (heap : F.Ptr → ShadowLeaf ι) :
    Rep hF (F.shadowInit heap) fun _ _ => 0 := by
  have hzero : ∀ l i, i < F.leafSize → (F.shadowInit heap).heap F.distinguished l i = 0 := by
    intro l i hi
    simp only [shadowInit, Function.update_self, if_pos hi]
  refine ⟨hzero, fun k => ?_, fun k k' p hk => ?_, fun l x => ?_⟩
  · simp [shadowInit, hF.constructAt_eq]
  · simp [shadowInit, hF.constructAt_eq] at hk
  · have hread : F.leafForRead (F.shadowInit heap).map x = F.distinguished := by
      rw [hF.leafForRead_eq]
      simp [shadowInit, hF.constructAt_eq]
    rw [hread]
    exact hzero l _ (Nat.mod_lt _ hF.leafSize_pos)

/-- Preparing a leaf for a write changes no byte. -/
theorem leafForWrite_rep (h : Rep hF s M) (a : BitVec w) :
    ∃ p map heap, F.leafForWrite s.map s.heap a = (p, map, heap) ∧
      hF.allocated map (a.toNat / F.leafSize) = some p ∧ Rep hF ⟨map, heap⟩ M := by
  cases hal : hF.allocated s.map (a.toNat / F.leafSize) with
  | some p => exact ⟨p, s.map, s.heap, hF.leafForWrite_allocated _ _ _ _ hal, hal, h⟩
  | none =>
    obtain ⟨p, map, hwrite, hp, hfresh, hmap⟩ := hF.leafForWrite_first s.map s.heap a hal
    refine ⟨p, map, _, hwrite, by rw [hmap, Function.update_self], ?_⟩
    refine ⟨fun l i hi => ?_, fun k => ?_, fun k k' q => ?_, fun l x => ?_⟩
    · change Function.update s.heap p _ F.distinguished l i = 0
      rw [Function.update_of_ne hp.symm]
      exact h.zero l i hi
    · change hF.allocated map k ≠ _
      rw [hmap]
      by_cases hk : k = a.toNat / F.leafSize
      · rw [hk, Function.update_self]
        exact fun heq => hp (Option.some.inj heq)
      · rw [Function.update_of_ne hk]
        exact h.not_distinguished k
    · change hF.allocated map k = _ → hF.allocated map k' = _ → _
      rw [hmap]
      -- the new leaf is not the leaf of any other number
      by_cases hk : k = a.toNat / F.leafSize <;> by_cases hk' : k' = a.toNat / F.leafSize
      · exact fun _ _ => hk.trans hk'.symm
      · rw [hk, Function.update_self, Function.update_of_ne hk']
        rintro ⟨⟩ hq
        exact absurd hq (hfresh k')
      · rw [hk', Function.update_self, Function.update_of_ne hk]
        rintro hq ⟨⟩
        exact absurd hq (hfresh k)
      · rw [Function.update_of_ne hk, Function.update_of_ne hk']
        exact h.injective k k' q
    · change Function.update s.heap p _ (F.leafForRead map x) l _ = _
      rw [← h.cell l x, hF.leafForRead_eq map x, hF.leafForRead_eq s.map x, hmap]
      by_cases hk : x.toNat / F.leafSize = a.toNat / F.leafSize
      · rw [hk, Function.update_self, hal, Option.getD_some, Option.getD_none,
          Function.update_self]
      · rw [Function.update_of_ne hk]
        refine congrFun (congrFun (Function.update_of_ne (fun heq => ?_) _ _) l) _
        cases hx : hF.allocated s.map (x.toNat / F.leafSize) with
        | none => rw [hx] at heq; exact hp heq.symm
        | some q => rw [hx] at heq; exact hfresh _ (hx.trans (congrArg some heq))

/-- In the leaf of its first address, a range is at the index of that address. -/
theorem index_of_leaf {L a x : ℕ} (n : ℕ) (hdiv : x / L = a / L) :
    (a ≤ x ∧ x < a + n) ↔ (a % L ≤ x % L ∧ x % L < a % L + n) := by
  have hx := Nat.div_add_mod x L
  have ha := Nat.div_add_mod a L
  rw [hdiv] at hx
  omega

/-- A range inside a leaf has only addresses of that leaf. -/
theorem div_of_range {L a x n : ℕ} (hn : a % L + n ≤ L) (h : a ≤ x ∧ x < a + n) :
    x / L = a / L := by
  have ha := Nat.div_add_mod a L
  refine Nat.div_eq_of_lt_le ?_ ?_
  · rw [Nat.mul_comm]
    omega
  · rw [Nat.succ_mul, Nat.mul_comm]
    omega

/-- **Copying into a leaf** overwrites the range. -/
theorem memcpyTo_rep (h : Rep hF s M) (a : BitVec w) {p : F.Ptr} {n : ℕ}
    (hp : hF.allocated s.map (a.toNat / F.leafSize) = some p)
    (hn : a.toNat % F.leafSize + n ≤ F.leafSize) (hend : a.toNat + n ≤ 2 ^ w)
    (realAddress : ι → Option (ℕ → Byte)) :
    ∃ s', s.memcpyTo p (a.toNat % F.leafSize) n realAddress = some s' ∧
      Rep hF s' (overlayLayers M a n realAddress) := by
  have hne : p ≠ F.distinguished := fun heq => h.not_distinguished _ (heq ▸ hp)
  unfold State.memcpyTo
  rw [if_pos hn]
  refine ⟨_, rfl, fun l i hi => ?_, h.not_distinguished, h.injective, fun l x => ?_⟩
  · change Function.update s.heap p _ F.distinguished l i = 0
    rw [Function.update_of_ne hne.symm]
    exact h.zero l i hi
  · change Function.update s.heap p _ (F.leafForRead s.map x) l _ = _
    have hcell := h.cell l x
    rw [hF.leafForRead_eq] at hcell ⊢
    unfold overlayLayers
    by_cases hk : x.toNat / F.leafSize = a.toNat / F.leafSize
    · rw [hk, hp, Option.getD_some] at hcell
      rw [hk, hp, Option.getD_some, Function.update_self]
      cases realAddress l with
      | none => exact hcell
      | some q =>
        change (if _ then _ else _) = overlay (M l) a n q x
        unfold overlay
        -- Within a leaf, the range is an interval of positions.
        have hiff := (sub_toNat_lt_iff hend).trans (index_of_leaf n hk)
        by_cases hx : (x - a).toNat < n
        · rw [if_pos hx, if_pos (hiff.mp hx)]
          have hle := ((sub_toNat_lt_iff hend).mp hx).1
          rw [toNat_sub_of_toNat_le hle]
          have hx' := Nat.div_add_mod x.toNat F.leafSize
          have ha' := Nat.div_add_mod a.toNat F.leafSize
          rw [hk] at hx'
          exact congrArg q (by omega)
        · rw [if_neg hx, if_neg (fun hcon => hx (hiff.mpr hcon))]
          exact hcell
    · -- another leaf, which has another pointer
      have hother : (hF.allocated s.map (x.toNat / F.leafSize)).getD F.distinguished ≠ p := by
        cases hx : hF.allocated s.map (x.toNat / F.leafSize) with
        | none => exact hne.symm
        | some q =>
          rintro rfl
          exact hk (h.injective _ _ _ hx hp)
      have hout : ¬ (x - a).toNat < n := fun hx =>
        hk (div_of_range hn ((sub_toNat_lt_iff hend).mp hx))
      rw [Function.update_of_ne hother, hcell]
      cases realAddress l with
      | none => rfl
      | some q =>
        change _ = overlay (M l) a n q x
        unfold overlay
        rw [if_neg hout]

/-- Copying out of a leaf reads the range. -/
theorem memcpyFrom_rep (h : Rep hF s M) (a : BitVec w) {n : ℕ}
    (hn : a.toNat % F.leafSize + n ≤ F.leafSize) (hend : a.toNat + n ≤ 2 ^ w) (wanted : ι → Bool) :
    s.memcpyFrom (F.leafForRead s.map a) (a.toNat % F.leafSize) n wanted
      = some fun l => if wanted l then read (M l) a n else [] := by
  unfold State.memcpyFrom
  rw [if_pos hn]
  refine congrArg some (funext fun l => ?_)
  cases wanted l with
  | false => rfl
  | true =>
    refine List.map_congr_left fun j hj => ?_
    have hj' : j < n := List.mem_range.mp hj
    have hx : (a + BitVec.ofNat w j).toNat = a.toNat + j := by
      rw [BitVec.toNat_add, BitVec.toNat_ofNat, Nat.add_mod_mod, Nat.mod_eq_of_lt (by omega)]
    have hdiv := div_of_range (x := a.toNat + j) hn ⟨by omega, by omega⟩
    have hmod : (a.toNat + j) % F.leafSize = a.toNat % F.leafSize + j := by
      have hx' := Nat.div_add_mod (a.toNat + j) F.leafSize
      have ha' := Nat.div_add_mod a.toNat F.leafSize
      rw [hdiv] at hx'
      omega
    rw [← h.cell l (a + BitVec.ofNat w j), hF.leafForRead_eq, hF.leafForRead_eq, hx, hdiv, hmod]

/-! ### The recursions -/

/-- A nonnegative size is the same as an unsigned number of the word size. -/
theorem toNat_signExtend_size (hw : 32 ≤ w) {size : BitVec 32} (h : size.toNat < 2 ^ 31) :
    (size.signExtend w).toNat = size.toNat := by
  have hmsb : size.msb = false := by
    rw [BitVec.msb_eq_false_iff_two_mul_lt]
    omega
  rw [BitVec.signExtend_eq_setWidth_of_msb_false hmsb, BitVec.toNat_setWidth_of_le hw]

/-- What remains of the size behind the first leaf. -/
theorem toNat_remaining (hw : 32 ≤ w) {size : BitVec 32} (h : size.toNat < 2 ^ 31)
    {c : BitVec w} (hc : c.toNat < size.toNat) :
    ((size.signExtend w - c).setWidth 32).toNat = size.toNat - c.toNat := by
  have hsize := toNat_signExtend_size hw h
  rw [BitVec.toNat_setWidth, BitVec.toNat_sub_of_le (BitVec.le_def.mpr (by omega)), hsize,
    Nat.mod_eq_of_lt (by omega)]

/-- A range of addresses is handled as the submodule numbers the leaves: the leaves tile
the address space, or the range ends in it. -/
def InSpace (F : FlexibleShadow ι w) (a : BitVec w) (n : ℕ) : Prop :=
  F.leafSize ∣ 2 ^ w ∨ a.toNat + n ≤ 2 ^ w

/-- The part of a range inside the first leaf ends in the address space. -/
theorem InSpace.first {F : FlexibleShadow ι w} {a : BitVec w} {n k : ℕ} (h : F.InSpace a n)
    (hk : k ≤ n) (hleaf : a.toNat % F.leafSize + k ≤ F.leafSize) : a.toNat + k ≤ 2 ^ w := by
  rcases h with ⟨q, hq⟩ | h
  · have ha := Nat.div_add_mod a.toNat F.leafSize
    have hlt : a.toNat / F.leafSize < q := Nat.div_lt_of_lt_mul (hq ▸ a.isLt)
    have hle : F.leafSize * (a.toNat / F.leafSize + 1) ≤ 2 ^ w := by
      rw [hq]
      exact Nat.mul_le_mul_left _ hlt
    rw [Nat.mul_add, Nat.mul_one] at hle
    omega
  · omega

/-- The rest of a range behind the first leaf. -/
theorem InSpace.rest {F : FlexibleShadow ι w} {a c : BitVec w} {n : ℕ} (h : F.InSpace a n)
    (hc : c.toNat < n) : F.InSpace (a + c) (n - c.toNat) := by
  rcases h with h | h
  · exact .inl h
  · refine .inr ?_
    rw [BitVec.toNat_add, Nat.mod_eq_of_lt (by omega)]
    omega

/-- Overwriting a range leaf by leaf. -/
theorem overlayLayers_append (M : ι → BitVec w → Byte) (a c : BitVec w) {n : ℕ}
    (realAddress : ι → Option (ℕ → Byte)) (hn : n ≤ 2 ^ w) (hc : c.toNat < n) :
    overlayLayers (overlayLayers M a c.toNat realAddress) (a + c) (n - c.toNat)
        (advance c.toNat realAddress)
      = overlayLayers M a n realAddress := by
  funext l
  unfold overlayLayers advance
  cases realAddress l with
  | none => rfl
  | some p =>
    have h := overlay_append (M l) a p (show c.toNat + (n - c.toNat) ≤ 2 ^ w by omega) (by omega)
    rwa [BitVec.ofNat_toNat, BitVec.setWidth_eq, show c.toNat + (n - c.toNat) = n by omega] at h

/-- **Writing** terminates and overwrites the range. -/
theorem shadowSet_rep (hw : 32 ≤ w) (n : ℕ) : ∀ {size : BitVec 32} {a : BitVec w}
    {s : F.State} {M : ι → BitVec w → Byte} (realAddress : ι → Option (ℕ → Byte)),
    size.toNat = n → n < 2 ^ 31 → F.InSpace a n → Rep hF s M →
    ∃ s', (∀ fuel, n < fuel → F.shadowSet fuel a realAddress size s = some s') ∧
      Rep hF s' (overlayLayers M a n realAddress) := by
  -- over the remaining size: each leaf takes at least one byte
  induction n using Nat.strong_induction_on with
  | h n ih =>
    intro size a s M realAddress hsize hn hspace h
    have hpow : 2 ^ 31 ≤ 2 ^ w := Nat.pow_le_pow_right (by omega) (by omega)
    have hext := toNat_signExtend_size hw (hsize ▸ hn)
    have hmod := Nat.mod_lt a.toNat hF.leafSize_pos
    have hcont := hF.contiguousElements_eq a
    obtain ⟨p, map, heap, hwrite, hp, hrep⟩ := leafForWrite_rep hF h a
    by_cases hle : F.contiguousElements a ≥ size.signExtend w
    · have hle' := BitVec.le_def.mp hle
      obtain ⟨s', hs', hrep'⟩ := memcpyTo_rep hF hrep a hp (n := n) (by omega)
        (hspace.first le_rfl (by omega)) realAddress
      refine ⟨s', fun fuel hfuel => ?_, hrep'⟩
      cases fuel with
      | zero => omega
      | succ fuel =>
        simp only [shadowSet, hwrite]
        rw [if_pos hle, hext, hsize, hF.index_eq]
        exact hs'
    · have hlt : (F.contiguousElements a).toNat < n := by
        rw [ge_iff_le, BitVec.le_def] at hle
        omega
      obtain ⟨s₁, hs₁, hrep₁⟩ := memcpyTo_rep hF hrep a hp
        (n := (F.contiguousElements a).toNat) (by omega)
        (hspace.first hlt.le (by omega)) realAddress
      obtain ⟨s', hs', hrep'⟩ := ih (n - (F.contiguousElements a).toNat) (by omega)
        (advance (F.contiguousElements a).toNat realAddress)
        ((toNat_remaining hw (hsize ▸ hn) (hsize ▸ hlt)).trans (by rw [hsize])) (by omega)
        (hspace.rest hlt) hrep₁
      refine ⟨s', fun fuel hfuel => ?_, ?_⟩
      · cases fuel with
        | zero => omega
        | succ fuel =>
          simp only [shadowSet, hwrite]
          rw [if_neg hle, hF.index_eq, hs₁]
          exact hs' fuel (by omega)
      · rwa [overlayLayers_append M a _ realAddress (by omega) hlt] at hrep'

/-- **Reading** terminates and returns the bytes in the range. -/
theorem shadowGet_rep (hw : 32 ≤ w) (n : ℕ) : ∀ {size : BitVec 32} {a : BitVec w},
    size.toNat = n → n < 2 ^ 31 → F.InSpace a n → Rep hF s M → ∀ (wanted : ι → Bool) fuel, n < fuel →
    F.shadowGet s fuel a wanted size = some fun l => if wanted l then read (M l) a n else [] := by
  induction n using Nat.strong_induction_on with
  | h n ih =>
    intro size a hsize hn hspace h wanted fuel hfuel
    have hext := toNat_signExtend_size hw (hsize ▸ hn)
    have hmod := Nat.mod_lt a.toNat hF.leafSize_pos
    have hcont := hF.contiguousElements_eq a
    cases fuel with
    | zero => omega
    | succ fuel =>
      simp only [shadowGet]
      by_cases hle : F.contiguousElements a ≥ size.signExtend w
      · have hle' := BitVec.le_def.mp hle
        rw [if_pos hle, hext, hsize, hF.index_eq]
        exact memcpyFrom_rep hF h a (by omega) (hspace.first le_rfl (by omega)) wanted
      · have hlt : (F.contiguousElements a).toNat < n := by
          rw [ge_iff_le, BitVec.le_def] at hle
          omega
        rw [if_neg hle, hF.index_eq,
          memcpyFrom_rep hF h a (by omega) (hspace.first hlt.le (by omega)) wanted,
          Option.bind_some, ih (n - (F.contiguousElements a).toNat) (by omega)
            ((toNat_remaining hw (hsize ▸ hn) (hsize ▸ hlt)).trans (by rw [hsize])) (by omega)
            (hspace.rest hlt) h wanted fuel (by omega), Option.map_some]
        refine congrArg some (funext fun l => ?_)
        beta_reduce
        by_cases hl : wanted l = true
        · rw [if_pos hl, if_pos hl, if_pos hl]
          have happ := read_append (M l) a (F.contiguousElements a).toNat
            (n - (F.contiguousElements a).toNat)
          rw [BitVec.ofNat_toNat, BitVec.setWidth_eq,
            show (F.contiguousElements a).toNat + (n - (F.contiguousElements a).toNat) = n by
              omega] at happ
          exact happ.symm
        · rw [if_neg hl, if_neg hl, if_neg hl, List.append_nil]

end Rep

end FlexibleShadow

/-! ### The functions of the two modes -/

/-- The layers of recording mode. -/
inductive BarLayer where
  | lo
  | hi
  deriving DecidableEq, Repr

open FlexibleShadow

variable {ι : Type} {w : ℕ}

/-- A pair of pointers, one for each layer. -/
def BarLayer.pair {α : Type} (lo hi : α) : BarLayer → α
  | .lo => lo
  | .hi => hi

/-- `dg_bar_shadowGet`; `wantLo` and `wantHi` say whether the pointers are not `NULL`. -/
def dgBarShadowGet (F : FlexibleShadow BarLayer w) (s : F.State) (fuel : ℕ) (smAddress : BitVec w)
    (wantLo wantHi : Bool) (size : BitVec 32) : Option (BarLayer → List Byte) :=
  F.shadowGet s fuel smAddress (BarLayer.pair wantLo wantHi) size

/-- `dg_bar_shadowSet`. -/
def dgBarShadowSet (F : FlexibleShadow BarLayer w) (fuel : ℕ) (smAddress : BitVec w)
    (realAddressLo realAddressHi : Option (ℕ → Byte)) (size : BitVec 32) (s : F.State) :
    Option F.State :=
  F.shadowSet fuel smAddress (BarLayer.pair realAddressLo realAddressHi) size s

/-- `dg_dot_shadowGet`. -/
def dgDotShadowGet (F : FlexibleShadow Unit w) (s : F.State) (fuel : ℕ) (smAddress : BitVec w)
    (size : BitVec 32) : Option (List Byte) :=
  (F.shadowGet s fuel smAddress (fun _ => true) size).map fun bytes => bytes ()

/-- `dg_dot_shadowSet`. -/
def dgDotShadowSet (F : FlexibleShadow Unit w) (fuel : ℕ) (smAddress : BitVec w)
    (realAddress : ℕ → Byte) (size : BitVec 32) (s : F.State) : Option F.State :=
  F.shadowSet fuel smAddress (fun _ => some realAddress) size s

/-! ### Sequences of writes -/

/-- The arguments of a write. -/
structure SetCall (ι : Type) (w : ℕ) where
  smAddress : BitVec w
  realAddress : ι → Option (ℕ → Byte)
  size : BitVec 32

/-- The byte that a call writes to an address, if it writes to it. -/
def SetCall.byte (c : SetCall ι w) (l : ι) (x : BitVec w) : Option Byte :=
  (c.realAddress l).bind fun p =>
    if (x - c.smAddress).toNat < c.size.toNat then some (p (x - c.smAddress).toNat) else none

/-- The byte last written to an address, or zero. -/
def lastWritten (calls : List (SetCall ι w)) (l : ι) (x : BitVec w) : Byte :=
  (calls.reverse.findSome? fun c => c.byte l x).getD 0

theorem lastWritten_append (calls : List (SetCall ι w)) (c : SetCall ι w) :
    lastWritten (calls ++ [c]) = overlayLayers (lastWritten calls) c.smAddress c.size.toNat
      c.realAddress := by
  funext l x
  unfold lastWritten overlayLayers overlay
  rw [List.reverse_append, List.reverse_singleton, List.singleton_append, List.findSome?_cons]
  unfold SetCall.byte
  cases c.realAddress l with
  | none => rfl
  | some p =>
    by_cases hx : (x - c.smAddress).toNat < c.size.toNat
    · simp only [Option.bind_some, if_pos hx, Option.getD_some]
    · simp only [Option.bind_some, if_neg hx]

/-- Any number of writes. -/
theorem shadowSets_rep {F : FlexibleShadow ι w} (hF : F.Lawful) (hw : 32 ≤ w)
    (heap : F.Ptr → ShadowLeaf ι) (calls : List (SetCall ι w))
    (hcalls : ∀ c ∈ calls, c.size.toNat < 2 ^ 31 ∧ F.InSpace c.smAddress c.size.toNat) :
    ∃ s, (∀ fuel ≥ 2 ^ 31, calls.foldlM
        (fun s c => F.shadowSet fuel c.smAddress c.realAddress c.size s) (F.shadowInit heap) = some s) ∧
      Rep hF s (lastWritten calls) := by
  induction calls using List.reverseRecOn with
  | nil => exact ⟨_, fun _ _ => rfl, shadowInit_rep hF heap⟩
  | append_singleton calls c ih =>
    obtain ⟨s, hs, hrep⟩ := ih fun c' hc' => hcalls c' (List.mem_append_left _ hc')
    obtain ⟨hsize, hspace⟩ := hcalls c (by simp)
    obtain ⟨s', hs', hrep'⟩ := shadowSet_rep hF hw _ c.realAddress rfl hsize hspace hrep
    refine ⟨s', fun fuel hfuel => ?_, by rwa [lastWritten_append]⟩
    rw [List.foldlM_append, hs fuel hfuel]
    have hlast := hs' fuel (lt_of_lt_of_le hsize hfuel)
    simpa using hlast

/-- A write does not change a layer whose pointer is `NULL`, or a byte outside of its range. -/
theorem lastWritten_unchanged (calls : List (SetCall ι w)) (c : SetCall ι w) (l : ι) (x : BitVec w)
    (h : c.realAddress l = none ∨ ¬ (x - c.smAddress).toNat < c.size.toNat) :
    lastWritten (calls ++ [c]) l x = lastWritten calls l x := by
  rw [lastWritten_append]
  unfold overlayLayers
  cases hl : c.realAddress l with
  | none => rfl
  | some p =>
    rcases h with h | h
    · rw [h] at hl
      cases hl
    · change overlay (lastWritten calls l) _ _ p x = _
      unfold overlay
      rw [if_neg h]

/-- A call of `dg_dot_shadowSet`. -/
def SetCall.dot (smAddress : BitVec w) (realAddress : ℕ → Byte) (size : BitVec 32) :
    SetCall Unit w :=
  ⟨smAddress, fun _ => some realAddress, size⟩

/-- **Shadow memory is a byte map**, in both modes: after any sequence of writes, every
read returns for each byte and each layer what was last written there, or zero.  A write
leaves a layer without pointer and the bytes outside of its range unchanged.  All of them
terminate.  If the leaves do not tile the address space, no range may run over its end. -/
theorem shadow_reads_lastWritten (hw : 32 ≤ w) :
    (∀ (F : FlexibleShadow BarLayer w) (_ : F.Lawful) (heap : F.Ptr → ShadowLeaf BarLayer)
      (calls : List (SetCall BarLayer w)),
      (∀ c ∈ calls, c.size.toNat < 2 ^ 31 ∧ F.InSpace c.smAddress c.size.toNat) →
      ∃ s, (∀ fuel ≥ 2 ^ 31, calls.foldlM (fun s c => dgBarShadowSet F fuel c.smAddress
          (c.realAddress .lo) (c.realAddress .hi) c.size s) (F.shadowInit heap) = some s) ∧
        ∀ (a : BitVec w) (wantLo wantHi : Bool) (size : BitVec 32), size.toNat < 2 ^ 31 →
          F.InSpace a size.toNat → ∀ fuel ≥ 2 ^ 31,
          dgBarShadowGet F s fuel a wantLo wantHi size = some fun l =>
            if BarLayer.pair wantLo wantHi l then
              (List.range size.toNat).map fun j => lastWritten calls l (a + BitVec.ofNat w j)
            else []) ∧
    (∀ (F : FlexibleShadow Unit w) (_ : F.Lawful) (heap : F.Ptr → ShadowLeaf Unit)
      (calls : List (BitVec w × (ℕ → Byte) × BitVec 32)),
      (∀ c ∈ calls, c.2.2.toNat < 2 ^ 31 ∧ F.InSpace c.1 c.2.2.toNat) →
      ∃ s, (∀ fuel ≥ 2 ^ 31, calls.foldlM (fun s c => dgDotShadowSet F fuel c.1 c.2.1 c.2.2 s)
          (F.shadowInit heap) = some s) ∧
        ∀ (a : BitVec w) (size : BitVec 32), size.toNat < 2 ^ 31 → F.InSpace a size.toNat →
          ∀ fuel ≥ 2 ^ 31, dgDotShadowGet F s fuel a size = some ((List.range size.toNat).map
            fun j => lastWritten (calls.map fun c => SetCall.dot c.1 c.2.1 c.2.2) ()
              (a + BitVec.ofNat w j))) ∧
    (∀ (ι : Type) (calls : List (SetCall ι w)) (c : SetCall ι w) (l : ι) (x : BitVec w),
      c.realAddress l = none ∨ ¬ (x - c.smAddress).toNat < c.size.toNat →
      lastWritten (calls ++ [c]) l x = lastWritten calls l x) := by
  refine ⟨fun F hF heap calls hcalls => ?_, fun F hF heap calls hcalls => ?_,
    fun ι => lastWritten_unchanged⟩
  · obtain ⟨s, hs, hrep⟩ := shadowSets_rep hF hw heap calls hcalls
    refine ⟨s, fun fuel hfuel => ?_, fun a wantLo wantHi size hsize hspace fuel hfuel => ?_⟩
    · rw [← hs fuel hfuel]
      -- A write with a pointer for each layer is a write of the pair.
      have hpair : ∀ c : SetCall BarLayer w,
          BarLayer.pair (c.realAddress .lo) (c.realAddress .hi) = c.realAddress := by
        intro c
        funext l
        cases l <;> rfl
      unfold dgBarShadowSet
      simp only [hpair]
    · exact shadowGet_rep hF hw _ rfl hsize hspace hrep _ fuel (lt_of_lt_of_le hsize hfuel)
  · obtain ⟨s, hs, hrep⟩ := shadowSets_rep hF hw heap
      (calls.map fun c => SetCall.dot c.1 c.2.1 c.2.2) (by
        intro c hc
        obtain ⟨d, hd, rfl⟩ := List.mem_map.mp hc
        exact hcalls d hd)
    refine ⟨s, fun fuel hfuel => ?_, fun a size hsize hspace fuel hfuel => ?_⟩
    · rw [← hs fuel hfuel, List.foldlM_map]
      rfl
    · unfold dgDotShadowGet
      rw [shadowGet_rep hF hw _ rfl hsize hspace hrep _ fuel (lt_of_lt_of_le hsize hfuel)]
      rfl

/-! ### A map with one level -/

section DirectMap

variable {α : Type}

/-- The leaf with the given number, if it is allocated. -/
def directLookup (m : ℕ → Bool) (k : ℕ) : Option (Option ℕ) :=
  if m k then some (some k) else none

/-- The leaf with the given number, and the state in which it is allocated. -/
def directForWrite (m : ℕ → Bool) (h : Option ℕ → α) (k : ℕ) :
    Option ℕ × (ℕ → Bool) × (Option ℕ → α) :=
  if m k then (some k, m, h)
  else (some k, Function.update m k true, Function.update h (some k) (h none))

theorem directForWrite_allocated {m : ℕ → Bool} (h : Option ℕ → α) {k : ℕ} {p : Option ℕ}
    (hp : directLookup m k = some p) : directForWrite m h k = (p, m, h) := by
  unfold directLookup at hp
  unfold directForWrite
  by_cases hm : m k = true
  · rw [if_pos hm] at hp ⊢
    rw [Option.some.inj hp]
  · rw [if_neg hm] at hp
    cases hp

theorem directForWrite_first {m : ℕ → Bool} (h : Option ℕ → α) {k : ℕ}
    (hk : directLookup m k = none) :
    ∃ p m', directForWrite m h k = (p, m', Function.update h p (h none)) ∧ p ≠ none ∧
      (∀ k', directLookup m k' ≠ some p) ∧
      directLookup m' = Function.update (directLookup m) k (some p) := by
  have hm : ¬ m k = true := by
    intro hm
    rw [directLookup, if_pos hm] at hk
    cases hk
  refine ⟨some k, Function.update m k true, if_neg hm, nofun, ?_, ?_⟩
  · intro k' hk'
    unfold directLookup at hk'
    by_cases hm' : m k' = true
    · rw [if_pos hm'] at hk'
      rw [Option.some.inj (Option.some.inj hk')] at hm'
      exact hm hm'
    · rw [if_neg hm'] at hk'
      cases hk'
  · funext k'
    unfold directLookup
    by_cases hk' : k' = k
    · rw [hk', Function.update_self, Function.update_self, if_pos rfl]
    · rw [Function.update_of_ne hk', Function.update_of_ne hk']

end DirectMap

/-- A map that finds the leaves by their number. -/
def directMap (ι : Type) (w L : ℕ) : FlexibleShadow ι w where
  Ptr := Option ℕ
  decPtr := inferInstance
  Map := ℕ → Bool
  leafSize := L
  distinguished := none
  constructAt := fun _ => false
  leafForRead := fun m a => (directLookup m (a.toNat / L)).getD none
  leafForWrite := fun m h a => directForWrite m h (a.toNat / L)
  index := fun a => BitVec.ofNat 64 (a.toNat % L)
  contiguousElements := fun a => BitVec.ofNat w (L - a.toNat % L)

/-- The promises of the submodule, for leaves smaller than the address space. -/
def directMapLawful (ι : Type) {w L : ℕ} (hL : 1 ≤ L) (hlt : L < 2 ^ w) (hw : w ≤ 64) :
    (directMap ι w L).Lawful where
  allocated := directLookup
  leafSize_pos := hL
  index_eq := by
    intro a
    have hmod : a.toNat % L < L := Nat.mod_lt _ hL
    have hpow : 2 ^ w ≤ 2 ^ 64 := Nat.pow_le_pow_right (by omega) hw
    exact (BitVec.toNat_ofNat _ _).trans (Nat.mod_eq_of_lt (by omega))
  contiguousElements_eq := by
    intro a
    have hmod : a.toNat % L < L := Nat.mod_lt _ hL
    exact (BitVec.toNat_ofNat _ _).trans (Nat.mod_eq_of_lt (by omega))
  constructAt_eq := fun _ => rfl
  leafForRead_eq := fun _ _ => rfl
  leafForWrite_allocated := fun _ h _ _ hp => directForWrite_allocated h hp
  leafForWrite_first := fun _ h _ hk => directForWrite_first h hk

/-- Five bytes of one layer over the end of a leaf, with the leaves of a 32-bit build. -/
theorem shadow_reads_lastWritten_straddling :
    ∃ s : (directMap BarLayer 32 (2 ^ 14)).State, ∀ fuel ≥ 2 ^ 31,
      dgBarShadowSet (directMap BarLayer 32 (2 ^ 14)) fuel 0x3FFE#32
        (some fun j => BitVec.ofNat 8 (j + 1)) none 5#32
        ((directMap BarLayer 32 (2 ^ 14)).shadowInit fun _ _ _ => 0) = some s ∧
      dgBarShadowGet (directMap BarLayer 32 (2 ^ 14)) s fuel 0x3FFD#32 true true 7#32
        = some (BarLayer.pair [0, 1, 2, 3, 4, 5, 0] [0, 0, 0, 0, 0, 0, 0]) := by
  obtain ⟨s, hs, hget⟩ := (shadow_reads_lastWritten (w := 32) (by omega)).1
    (directMap BarLayer 32 (2 ^ 14)) (directMapLawful BarLayer (by omega) (by omega) (by omega))
    (fun _ _ _ => 0)
    [⟨0x3FFE#32, BarLayer.pair (some fun j => BitVec.ofNat 8 (j + 1)) none, 5#32⟩]
    (by
      intro c hc
      rw [List.mem_singleton.mp hc]
      exact ⟨by decide, .inl (Dvd.intro (2 ^ 18) (by decide))⟩)
  refine ⟨s, fun fuel hfuel => ⟨by simpa [BarLayer.pair] using hs fuel hfuel, ?_⟩⟩
  rw [hget 0x3FFD#32 true true 7#32 (by decide) (.inl (Dvd.intro (2 ^ 18) (by decide))) fuel hfuel]
  refine congrArg some (funext fun l => ?_)
  cases l <;> decide

/-- With leaves of three bytes, the second byte from the last address is written behind the
last leaf, not to address zero. -/
theorem shadow_three_byte_leaves :
    Nonempty (directMap BarLayer 32 3).Lawful ∧
      ∃ s : (directMap BarLayer 32 3).State, ∀ fuel ≥ 2 ^ 31,
        dgBarShadowSet (directMap BarLayer 32 3) fuel 0xFFFFFFFF#32
          (some fun j => BitVec.ofNat 8 (j + 1)) none 2#32
          ((directMap BarLayer 32 3).shadowInit fun _ _ _ => 0) = some s ∧
        dgBarShadowGet (directMap BarLayer 32 3) s fuel 0#32 true true 1#32
          = some (fun _ => [0]) ∧
        lastWritten [⟨0xFFFFFFFF#32, BarLayer.pair (some fun j => BitVec.ofNat 8 (j + 1)) none,
          2#32⟩] .lo 0#32 = 2 := by
  refine ⟨⟨directMapLawful BarLayer (by omega) (by omega) (by omega)⟩, ?_⟩
  have hrun : ∃ s, ∀ k, dgBarShadowSet (directMap BarLayer 32 3) (k + 1) 0xFFFFFFFF#32
        (some fun j => BitVec.ofNat 8 (j + 1)) none 2#32
        ((directMap BarLayer 32 3).shadowInit fun _ _ _ => 0) = some s ∧
      dgBarShadowGet (directMap BarLayer 32 3) s (k + 1) 0#32 true true 1#32
        = some (fun _ => [0]) :=
    ⟨_, fun k => ⟨rfl, congrArg some (funext fun l => by cases l <;> decide)⟩⟩
  obtain ⟨s, hs⟩ := hrun
  refine ⟨s, fun fuel hfuel => ?_⟩
  obtain ⟨k, rfl⟩ : ∃ k, fuel = k + 1 := ⟨fuel - 1, by omega⟩
  exact ⟨(hs k).1, (hs k).2, by decide⟩

end Derivgrind
