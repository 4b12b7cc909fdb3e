import Derivgrind.Shadow.Memory
import Derivgrind.Vex.X87

/-!
# The dot values of the x87 unit in memory

In forward mode, the dot value of an x87 register is stored next to the register, in the same
extended format, and it is loaded together with the register.

## Main definitions

* `dgDotDirtyhelperStoreF80le`, `dgDotDirtyhelperLoadF80le` — the helper functions.
* `DotWrite` — the calls that write to shadow memory.

## Main results

* `dotF80le_roundTrip` — a dot value is loaded as it has been stored.
-/

namespace Derivgrind

open FlexibleShadow

variable {w : ℕ}

/-- `dg_dot_x86g_amd64g_dirtyhelper_storeF80le`. -/
def dgDotDirtyhelperStoreF80le (F : FlexibleShadow Unit w) (fuel : ℕ) (addrU : BitVec w)
    (f64 : F64le) (s : F.State) : Option F.State :=
  dgDotShadowSet F fuel addrU (fun j => (convertF64leToF80le f64)[j]?.getD 0) 10 s

/-- `dg_dot_x86g_amd64g_dirtyhelper_loadF80le`. -/
def dgDotDirtyhelperLoadF80le (F : FlexibleShadow Unit w) (fuel : ℕ) (addrU : BitVec w)
    (s : F.State) : Option F64le :=
  (dgDotShadowGet F s fuel addrU 10).bind fun f128 =>
    convertF80leToF64le (Vector.ofFn fun i => f128.getD i 0)

/-- A call that writes to the shadow memory of forward mode. -/
inductive DotWrite (w : ℕ) where
  | set (smAddress : BitVec w) (realAddress : ℕ → Byte) (size : BitVec 32)
  | storeF80le (addrU : BitVec w) (f64 : F64le)

/-- The bytes that are written. -/
def DotWrite.call : DotWrite w → SetCall Unit w
  | set smAddress realAddress size => .dot smAddress realAddress size
  | storeF80le addrU f64 => .dot addrU (fun j => (convertF64leToF80le f64)[j]?.getD 0) 10

/-- Make a call. -/
def DotWrite.perform (F : FlexibleShadow Unit w) (fuel : ℕ) (s : F.State) :
    DotWrite w → Option F.State
  | set smAddress realAddress size => dgDotShadowSet F fuel smAddress realAddress size s
  | storeF80le addrU f64 => dgDotDirtyhelperStoreF80le F fuel addrU f64 s

/-- Make one call after the other. -/
def performWrites (F : FlexibleShadow Unit w) (fuel : ℕ) (writes : List (DotWrite w))
    (s : F.State) : Option F.State :=
  writes.foldlM (DotWrite.perform F fuel) s

/-- Nothing is written to a range. -/
def SetCall.Spares (c : SetCall Unit w) (a : BitVec w) (n : ℕ) : Prop :=
  ∀ x, (x - a).toNat < n → ¬(x - c.smAddress).toNat < c.size.toNat

/-- The calls write what they stand for. -/
theorem performWrites_eq (F : FlexibleShadow Unit w) (fuel : ℕ) (writes : List (DotWrite w))
    (s : F.State) :
    performWrites F fuel writes s = (writes.map DotWrite.call).foldlM
      (fun s c => F.shadowSet fuel c.smAddress c.realAddress c.size s) s := by
  rw [performWrites, List.foldlM_map]
  congr 1
  funext s c
  cases c <;> rfl

/-- Writes to other addresses change nothing. -/
theorem lastWritten_spared (calls after : List (SetCall Unit w)) {a x : BitVec w} {n : ℕ}
    (hx : (x - a).toNat < n) (hafter : ∀ c ∈ after, c.Spares a n) :
    lastWritten (calls ++ after) () x = lastWritten calls () x := by
  induction after using List.reverseRecOn with
  | nil => rw [List.append_nil]
  | append_singleton after c ih =>
    rw [← List.append_assoc, lastWritten_unchanged _ _ _ _ (.inr (hafter c (by simp) x hx))]
    exact ih fun c' hc' => hafter c' (List.mem_append_left _ hc')

/-- **A dot value of the x87 unit is loaded as it has been stored**, at any address, after any
calls, if the later ones spare its bytes.  Of a NaN only the sign and the kind are kept.  All of
the calls terminate. -/
theorem dotF80le_roundTrip (hw : 32 ≤ w) (F : FlexibleShadow Unit w) (hF : F.Lawful)
    (heap : F.Ptr → ShadowLeaf Unit) (before after : List (DotWrite w)) (addrU : BitVec w)
    (f64 : F64le)
    (hcalls : ∀ c ∈ before ++ DotWrite.storeF80le addrU f64 :: after,
      c.call.size.toNat < 2 ^ 31 ∧ F.InSpace c.call.smAddress c.call.size.toNat)
    (hafter : ∀ c ∈ after, c.call.Spares addrU 10) :
    ∃ s, ∀ fuel ≥ 2 ^ 31,
      performWrites F fuel (before ++ DotWrite.storeF80le addrU f64 :: after) (F.shadowInit heap)
        = some s ∧
      dgDotDirtyhelperLoadF80le F fuel addrU s = some (canonicalF64 f64) := by
  set store : DotWrite w := DotWrite.storeF80le addrU f64
  obtain ⟨s, hs, hrep⟩ := shadowSets_rep hF hw heap ((before ++ store :: after).map DotWrite.call) (by
    intro c hc
    obtain ⟨d, hd, rfl⟩ := List.mem_map.mp hc
    exact hcalls d hd)
  have hpow : 2 ^ 32 ≤ 2 ^ w := Nat.pow_le_pow_right (by omega) hw
  have hstored : lastWritten (before.map DotWrite.call ++ [store.call]) ()
      = ByteMap.overlay (lastWritten (before.map DotWrite.call) ()) addrU 10
          fun j => (convertF64leToF80le f64)[j]?.getD 0 :=
    congrFun (lastWritten_append _ _) ()
  -- the bytes in the range
  have hread : ByteMap.read (lastWritten ((before ++ store :: after).map DotWrite.call) ()) addrU 10
      = (convertF64leToF80le f64).toList := by
    refine List.ext_getElem (by simp) fun j hj hj' => ?_
    have hj10 : j < 10 := by simpa using hj
    have hoff : (addrU + BitVec.ofNat w j - addrU).toNat = j := by
      rw [BitVec.add_comm, BitVec.add_sub_cancel, BitVec.toNat_ofNat, Nat.mod_eq_of_lt (by omega)]
    have hsplit : (before ++ store :: after).map DotWrite.call
        = (before.map DotWrite.call ++ [store.call]) ++ after.map DotWrite.call := by simp
    simp only [ByteMap.read, List.getElem_map, List.getElem_range]
    rw [hsplit, lastWritten_spared _ _ (a := addrU) (n := 10) (by omega) (by
      intro c hc
      obtain ⟨d, hd, rfl⟩ := List.mem_map.mp hc
      exact hafter d hd), hstored, ByteMap.overlay, hoff, if_pos hj10,
      Vector.getElem?_eq_getElem hj10, Option.getD_some, Vector.getElem_toList]
  refine ⟨s, fun fuel hfuel => ⟨?_, ?_⟩⟩
  · rw [performWrites_eq]
    exact hs fuel hfuel
  · have hspace : F.InSpace addrU 10 := (hcalls store (by simp)).2
    have hten : (10 : BitVec 32).toNat = 10 := rfl
    have hget := shadowGet_rep hF hw 10 hten (by omega) hspace hrep (fun _ => true) fuel (by omega)
    have hvector : (Vector.ofFn fun i : Fin 10 => (convertF64leToF80le f64).toList.getD i 0)
        = convertF64leToF80le f64 := by
      refine Vector.ext fun i hi => ?_
      rw [Vector.getElem_ofFn, List.getD_eq_getElem _ _ (by simpa using hi), Vector.getElem_toList]
    unfold dgDotDirtyhelperLoadF80le dgDotShadowGet
    rw [hget, Option.map_some, Option.bind_some]
    simp only [if_true, hread, hvector]
    exact convertF80leToF64le_convertF64leToF80le f64

/-- A subnormal dot value over the end of a leaf, and a later write behind it. -/
theorem dotF80le_roundTrip_straddling :
    ∃ s : (directMap Unit 32 (2 ^ 14)).State, ∀ fuel ≥ 2 ^ 31,
      performWrites (directMap Unit 32 (2 ^ 14)) fuel
          [.storeF80le 0x3FFC#32 #v[1, 2, 0, 0, 0, 0, 0, 0x80], .set 0x4006#32 (fun _ => 7) 4#32]
          ((directMap Unit 32 (2 ^ 14)).shadowInit fun _ _ _ => 0) = some s ∧
      dgDotDirtyhelperLoadF80le (directMap Unit 32 (2 ^ 14)) fuel 0x3FFC#32 s
        = some #v[1, 2, 0, 0, 0, 0, 0, 0x80] := by
  refine dotF80le_roundTrip (w := 32) le_rfl (directMap Unit 32 (2 ^ 14))
    (directMapLawful Unit (by omega) (by omega) (by omega)) (fun _ _ _ => 0) []
    [.set 0x4006#32 (fun _ => 7) 4#32] 0x3FFC#32 #v[1, 2, 0, 0, 0, 0, 0, 0x80] ?_ ?_
  · intro c hc
    refine ⟨?_, .inl (Dvd.intro (2 ^ 18) (by decide))⟩
    simp only [List.nil_append, List.mem_cons, List.not_mem_nil, or_false] at hc
    rcases hc with rfl | rfl <;> decide
  · intro c hc x hx
    rw [List.mem_singleton.mp hc]
    change ¬(x - 0x4006#32).toNat < 4
    bv_omega

end Derivgrind
