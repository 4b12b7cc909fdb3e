import Derivgrind.Instrument.Handle
import Derivgrind.Instrument.Value
import Derivgrind.Shadow.Memory

/-!
# Access to shadow memory by emitted code

In recording mode, emitted code copies the shadow layers of a value to a buffer and
calls a helper function that copies them from there to shadow memory, and the other
way round.  The x87 loads and stores of 80-bit numbers have helper functions of their
own, which access four bytes of each layer.

## Main definitions

* `dgBarDirtyhelperStore`, `dgBarDirtyhelperLoad`, … — the helper functions.
* `Machine.BarShadow` — the machine calls these functions; `Machine.barShadow` is one.

## Main results

* `wp_barStore`, `wp_barLoad`, `wp_barStoreF80le`, `wp_barLoadF80le` — what the emitted
  code does to shadow memory, seen as a byte map.
-/

namespace Derivgrind

open ByteMap Emitter.Meaning
open FlexibleShadow (Rep overlayLayers shadowSet_rep shadowGet_rep)

/-! ### Helper functions -/

section Helpers

variable (F : FlexibleShadow BarLayer 64) (fuel : ℕ)

/-- `dg_bar_x86g_amd64g_dirtyhelper_store`; the second layer of the buffer begins behind
a `V256`. -/
def dgBarDirtyhelperStore (addr : Addr) (size : BitVec 64) (buf : ℕ → Byte) (s : F.State) :
    Option F.State :=
  dgBarShadowSet F fuel addr (some buf) (some fun j => buf (32 + j)) (size.setWidth 32) s

/-- `dg_bar_x86g_amd64g_dirtyhelper_load`. -/
def dgBarDirtyhelperLoad (addr : Addr) (size : BitVec 64) (buf : ℕ → Byte) (s : F.State) :
    Option (ℕ → Byte) :=
  (dgBarShadowGet F s fuel addr true true (size.setWidth 32)).map fun bytes =>
    writeReg (writeReg buf 0 (bytes .lo)) 32 (bytes .hi)

/-- `dg_bar_x86g_amd64g_dirtyhelper_storeF80le_Lo`. -/
def dgBarDirtyhelperStoreF80leLo (addrU : Addr) (i64 : List Byte) (s : F.State) : Option F.State :=
  dgBarShadowSet F fuel addrU (some fun j => i64.getD j 0) none 4 s

/-- `dg_bar_x86g_amd64g_dirtyhelper_storeF80le_Hi`. -/
def dgBarDirtyhelperStoreF80leHi (addrU : Addr) (i64 : List Byte) (s : F.State) : Option F.State :=
  dgBarShadowSet F fuel addrU none (some fun j => i64.getD j 0) 4 s

/-- `dg_bar_x86g_amd64g_dirtyhelper_loadF80le_Lo`; the upper half of the result is not
initialised. -/
def dgBarDirtyhelperLoadF80leLo (addrU : Addr) (uninitialised : List Byte) (s : F.State) :
    Option (List Byte) :=
  (dgBarShadowGet F s fuel addrU true true 4).map fun bytes => bytes .lo ++ uninitialised

/-- `dg_bar_x86g_amd64g_dirtyhelper_loadF80le_Hi`. -/
def dgBarDirtyhelperLoadF80leHi (addrU : Addr) (uninitialised : List Byte) (s : F.State) :
    Option (List Byte) :=
  (dgBarShadowGet F s fuel addrU true true 4).map fun bytes => bytes .hi ++ uninitialised

end Helpers

variable {T : Type} {F : FlexibleShadow BarLayer 64}

/-- The machine calls the functions that access shadow memory. -/
structure Machine.BarShadow (M : Machine Byte (F.State × T)) (fuel : ℕ) : Prop where
  isTrue_true : M.isTrue (M.const (.u1 true)) = true
  const_u64 : ∀ x, M.const (.u64 x) = bytesOf x
  addr_eq : ∀ v, M.addr v = bitsOf 64 v
  store : ∀ addr size buf s t s',
    dgBarDirtyhelperStore F fuel (bitsOf 64 addr) (bitsOf 64 size) buf s = some s' →
    (M.toolDirty .barStore [addr, size] buf (s, t)).2 = (buf, s', t)
  load : ∀ addr size buf s t buf',
    dgBarDirtyhelperLoad F fuel (bitsOf 64 addr) (bitsOf 64 size) buf s = some buf' →
    (M.toolDirty .barLoad [addr, size] buf (s, t)).2 = (buf', s, t)
  storeF80leLo : ∀ addr i64 buf s t s',
    dgBarDirtyhelperStoreF80leLo F fuel (bitsOf 64 addr) i64 s = some s' →
    (M.toolDirty .barStoreF80leLo [addr, i64] buf (s, t)).2 = (buf, s', t)
  storeF80leHi : ∀ addr i64 buf s t s',
    dgBarDirtyhelperStoreF80leHi F fuel (bitsOf 64 addr) i64 s = some s' →
    (M.toolDirty .barStoreF80leHi [addr, i64] buf (s, t)).2 = (buf, s', t)
  /-- The bytes that are not initialised can be any. -/
  loadF80leLo : ∀ addr buf s t, ∃ uninitialised, uninitialised.length = 4 ∧
    ∀ i64, dgBarDirtyhelperLoadF80leLo F fuel (bitsOf 64 addr) uninitialised s = some i64 →
    M.toolDirty .barLoadF80leLo [addr] buf (s, t) = (i64, buf, s, t)
  loadF80leHi : ∀ addr buf s t, ∃ uninitialised, uninitialised.length = 4 ∧
    ∀ i64, dgBarDirtyhelperLoadF80leHi F fuel (bitsOf 64 addr) uninitialised s = some i64 →
    M.toolDirty .barLoadF80leHi [addr] buf (s, t) = (i64, buf, s, t)

/-- The calls of emitted code that access shadow memory; other calls have no effect. -/
def barShadowDirty (F : FlexibleShadow BarLayer 64) (fuel : ℕ) :
    ToolHelper → List (List Byte) → (ℕ → Byte) → F.State × T →
    List Byte × (ℕ → Byte) × F.State × T
  | .barStore, [addr, size], buf, (s, t) =>
      ([], buf, (dgBarDirtyhelperStore F fuel (bitsOf 64 addr) (bitsOf 64 size) buf s).getD s, t)
  | .barLoad, [addr, size], buf, (s, t) =>
      ([], (dgBarDirtyhelperLoad F fuel (bitsOf 64 addr) (bitsOf 64 size) buf s).getD buf, s, t)
  | .barStoreF80leLo, [addr, i64], buf, (s, t) =>
      ([], buf, (dgBarDirtyhelperStoreF80leLo F fuel (bitsOf 64 addr) i64 s).getD s, t)
  | .barStoreF80leHi, [addr, i64], buf, (s, t) =>
      ([], buf, (dgBarDirtyhelperStoreF80leHi F fuel (bitsOf 64 addr) i64 s).getD s, t)
  | .barLoadF80leLo, [addr], buf, (s, t) =>
      ((dgBarDirtyhelperLoadF80leLo F fuel (bitsOf 64 addr) (List.replicate 4 0) s).getD [],
        buf, s, t)
  | .barLoadF80leHi, [addr], buf, (s, t) =>
      ((dgBarDirtyhelperLoadF80leHi F fuel (bitsOf 64 addr) (List.replicate 4 0) s).getD [],
        buf, s, t)
  | _, _, buf, tool => (List.replicate 8 0, buf, tool)

/-- A machine with shadow memory. -/
def Machine.barShadow (F : FlexibleShadow BarLayer 64) (fuel : ℕ) (Fp : FpSem Byte)
    (rest : Interp Byte) (guestSize : ℕ) : Machine Byte (F.State × T) where
  toInterp := hostInterp Fp rest
  guestSize := guestSize
  guestDirty _ _ reg mem := (List.replicate 8 0, reg, mem)
  toolDirty := barShadowDirty F fuel
  skipped := []
  storeSucceeds _ _ _ := true
  flag ok := [if ok then 1 else 0]

theorem Machine.barShadow_spec (F : FlexibleShadow BarLayer 64) (fuel : ℕ) (Fp : FpSem Byte)
    (rest : Interp Byte) (guestSize : ℕ) :
    (Machine.barShadow (T := T) F fuel Fp rest guestSize).BarShadow fuel where
  isTrue_true := by
    show (hostInterp Fp rest).isTrue (hostConst (.u1 true)) = true
    simp only [hostInterp]
    decide
  const_u64 _ := rfl
  addr_eq _ := rfl
  store addr size buf s t s' h := by
    simp only [Machine.barShadow, barShadowDirty, h, Option.getD_some]
  load addr size buf s t buf' h := by
    simp only [Machine.barShadow, barShadowDirty, h, Option.getD_some]
  storeF80leLo addr i64 buf s t s' h := by
    simp only [Machine.barShadow, barShadowDirty, h, Option.getD_some]
  storeF80leHi addr i64 buf s t s' h := by
    simp only [Machine.barShadow, barShadowDirty, h, Option.getD_some]
  loadF80leLo addr buf s t := ⟨List.replicate 4 0, rfl, fun i64 h => by
    simp only [Machine.barShadow, barShadowDirty, h, Option.getD_some]⟩
  loadF80leHi addr buf s t := ⟨List.replicate 4 0, rfl, fun i64 h => by
    simp only [Machine.barShadow, barShadowDirty, h, Option.getD_some]⟩

/-! ### Calls of the functions of shadow memory -/

section Memory

variable {fuel : ℕ} {s : F.State} {mem : BarLayer → Addr → Byte}

theorem dgBarShadowSet_rep {hF : F.Lawful} (hL : F.leafSize ∣ 2 ^ 64) (hfuel : 2 ^ 31 ≤ fuel)
    (hmem : Rep hF s mem) (a : Addr) (lo hi : Option (ℕ → Byte)) {size : BitVec 32}
    (hsize : size.toNat < 2 ^ 31) :
    ∃ s', dgBarShadowSet F fuel a lo hi size s = some s' ∧
      Rep hF s' (overlayLayers mem a size.toNat (BarLayer.pair lo hi)) := by
  obtain ⟨s', hs', hrep⟩ := shadowSet_rep hF (by omega) _ (BarLayer.pair lo hi) rfl hsize
    (Or.inl hL) hmem
  exact ⟨s', hs' fuel (by omega), hrep⟩

theorem dgBarShadowGet_rep {hF : F.Lawful} (hL : F.leafSize ∣ 2 ^ 64) (hfuel : 2 ^ 31 ≤ fuel)
    (hmem : Rep hF s mem) (a : Addr) {size : BitVec 32} (hsize : size.toNat < 2 ^ 31) :
    dgBarShadowGet F s fuel a true true size = some fun l => read (mem l) a size.toNat := by
  have hget := shadowGet_rep hF (by omega) _ rfl hsize (Or.inl hL) hmem
    (BarLayer.pair true true) fuel (by omega) (a := a)
  refine hget.trans (congrArg some (funext fun l => ?_))
  cases l <;> rfl

end Memory

/-! ### The buffer -/

section Buffer

variable {B : Type}

theorem readReg_writeReg (f : ℕ → B) (offset : ℕ) (bytes : List B) :
    readReg (writeReg f offset bytes) offset bytes.length = bytes := by
  refine List.ext_getElem (by simp [readReg]) fun j hj hj' => ?_
  simp only [readReg, writeReg, List.getElem_map, List.getElem_range, Nat.le_add_right, if_pos,
    Nat.add_sub_cancel_left, List.getD_eq_getElem _ _ hj']

/-- Writing behind the bytes that are read. -/
theorem readReg_writeReg_of_le (f : ℕ → B) {offset offset' n : ℕ} (bytes : List B)
    (h : offset' + n ≤ offset) :
    readReg (writeReg f offset bytes) offset' n = readReg f offset' n := by
  refine List.map_congr_left fun j hj => ?_
  have hj' : j < n := List.mem_range.mp hj
  rw [writeReg, if_neg (by omega)]

end Buffer

theorem sizeofIRType_le (ty : IRType) : sizeofIRType ty ≤ 32 := by
  cases ty <;> decide

theorem toNat_sizeArg (ty : IRType) :
    ((bitsOf 64 (bytesOf (BitVec.ofNat 64 (sizeofIRType ty)))).setWidth 32).toNat
      = sizeofIRType ty := by
  have hle := sizeofIRType_le ty
  rw [bitsOf_bytesOf (by decide), BitVec.toNat_setWidth, BitVec.toNat_ofNat,
    Nat.mod_eq_of_lt (show sizeofIRType ty < 2 ^ 64 by omega), Nat.mod_eq_of_lt (by omega)]

/-! ### Emitted code -/

section Rules

variable {M : Machine Byte (F.State × T)} {fuel : ℕ} {env : List IRType}
  {s : State Byte (F.State × T)} {mem : BarLayer → Addr → Byte} {addr lo hi : IRExpr}
  {wordTy ty : IRType} {va vlo vhi : List Byte}

/-- Call a function of Derivgrind that returns nothing. -/
theorem wp_addDirty_snd {B T : Type} {M : Machine B T} {s : State B T} {helper : ToolHelper}
    {args : List IRExpr} {Q : Unit → List IRType → State B T → Prop}
    (htrue : M.isTrue (M.const (.u1 true)) = true) {vals : List (List B)}
    (hvals : evalExprs M.toInterp s args = vals) {r : (ℕ → B) × T}
    (hr : (M.toolDirty helper vals s.buf s.tool).2 = r) (h : Q () env (s.withTool r)) :
    (execMeaning M).wp (addDirty helper args) env s Q := by
  refine wp_addDirty htrue rfl ?_
  rwa [hvals, hr]

theorem HasValue.ofTmp {B T : Type} {I : Interp B} {s : State B T} {tmp : IRTemp}
    {v : List B} (hty : env[tmp]? = some ty) (hv : s.tmp tmp = v)
    (hlen : v.length = sizeofIRType ty) : HasValue I env s (.rdTmp tmp) ty v := by
  rw [← hv] at hlen ⊢
  exact HasValue.rdTmp hty hlen

/-- Only the bytes in the range matter. -/
theorem overlayLayers_congr {mem : BarLayer → Addr → Byte} {a : Addr} {n : ℕ}
    {p q p' q' : ℕ → Byte} (hp : ∀ j < n, p j = p' j) (hq : ∀ j < n, q j = q' j) :
    overlayLayers mem a n (BarLayer.pair (some p) (some q))
      = overlayLayers mem a n (BarLayer.pair (some p') (some q')) := by
  funext l x
  cases l with
  | lo =>
    change overlay (mem .lo) a n p x = overlay (mem .lo) a n p' x
    unfold overlay
    split
    · next h => exact hp _ h
    · rfl
  | hi =>
    change overlay (mem .hi) a n q x = overlay (mem .hi) a n q' x
    unfold overlay
    split
    · next h => exact hq _ h
    · rfl

/-- Storing a value stores both layers. -/
theorem wp_barStore (hF : F.Lawful) (hL : F.leafSize ∣ 2 ^ 64) (hM : M.BarShadow fuel)
    (hfuel : 2 ^ 31 ≤ fuel) (hmem : Rep hF s.tool.1 mem) (o : Options) (denv : DiffEnv)
    (haddr : HasValue M.toInterp env s addr wordTy va) (hlo : HasValue M.toInterp env s lo ty vlo)
    (hhi : HasValue M.toInterp env s hi ty vhi) :
    (execMeaning M).wp ((dgBarExpressionhandling o).store denv addr [lo, hi] none) env s
      fun _ env' s' => Extends env s env' s' ∧ s'.tool.2 = s.tool.2 ∧
        Rep hF s'.tool.1 (overlayLayers mem (bitsOf 64 va) (sizeofIRType ty)
          (BarLayer.pair (some fun j => vlo.getD j 0) (some fun j => vhi.getD j 0))) := by
  have hsize := sizeofIRType_le ty
  have hlen : vlo.length = sizeofIRType ty := hlo.length
  have hlen' : vhi.length = sizeofIRType ty := hhi.length
  set buf := writeReg (writeReg s.buf 0 vlo) 32 vhi with hbuf
  have hext : ∀ buf', Extends env s env (s.withTool (buf', s.tool)) := fun buf' =>
    (Extends.refl env s).withTool _
  -- both layers are in the buffer
  have hstores : ∀ tyenv, execStmts M tyenv ((List.range 2).map fun k =>
      .store .le (bufferAddr denv k) (Shadow.layer [lo, hi] k)) s
      = (s.withTool (buf, s.tool), none) := by
    intro tyenv
    have hlo' := hlo.eval
    have hhi' := (hhi.mono (hext (writeReg s.buf 0 vlo))).eval
    simp only [State.withTool] at hhi'
    simp only [List.range_succ, List.range_zero, List.nil_append, List.cons_append, List.map_cons,
      List.map_nil, Shadow.layer, List.getD_cons_zero, List.getD_cons_succ, execStmts, execStmt,
      State.storeAt, bufferAddr, IRExpr.bufferOffset?, IREndness.order, hlo', hhi', Nat.mul_zero,
      Nat.mul_one, State.withTool, hbuf]
  have hpart : ∀ j < sizeofIRType ty, buf j = vlo.getD j 0 ∧ buf (32 + j) = vhi.getD j 0 := by
    intro j hj
    constructor
    · rw [hbuf, writeReg, if_neg (by omega), writeReg, if_pos (Nat.zero_le j), Nat.sub_zero,
        List.getD_eq_getElem _ _ (by omega), List.getD_eq_getElem _ _ (by omega)]
    · rw [hbuf, writeReg, if_pos (by omega), Nat.add_sub_cancel_left,
        List.getD_eq_getElem _ _ (by omega), List.getD_eq_getElem _ _ (by omega)]
  have harg := toNat_sizeArg ty
  obtain ⟨s', hs', hrep⟩ := dgBarShadowSet_rep hL hfuel hmem (bitsOf 64 va) (some buf)
    (some fun j => buf (32 + j)) (by rw [harg]; omega)
  rw [harg, overlayLayers_congr (fun j hj => (hpart j hj).1) fun j hj => (hpart j hj).2] at hrep
  have hcall := hM.store va (bytesOf (BitVec.ofNat 64 (sizeofIRType ty))) buf s.tool.1 s.tool.2 s' hs'
  apply wp_bind
  apply wp_emit hstores
  apply wp_bind
  apply wp_typeOf hlo.type
  apply wp_bind
  apply wp_mapList_pure (P := fun _ ty' => ty' = ty)
  · intro e he
    rcases List.mem_cons.mp he with rfl | he
    · exact wp_typeOf hlo.type ⟨rfl, rfl, rfl⟩
    · rw [List.mem_singleton.mp he]
      exact wp_typeOf hhi.type ⟨rfl, rfl, rfl⟩
  · intro tys htys
    apply wp_bind
    apply wp_tlAssert
    · cases htys with
      | cons hty htys =>
        cases htys with
        | cons hty' htys =>
          cases htys
          simp [hty, hty']
    · have hargs : evalExprs M.toInterp (s.withTool (buf, s.tool)) [addr, sizeConst ty]
          = [va, bytesOf (BitVec.ofNat 64 (sizeofIRType ty))] := by
        simp only [evalExprs, sizeConst, evalExpr, hM.const_u64, (haddr.mono (hext buf)).eval]
      exact wp_addDirty_snd hM.isTrue_true hargs hcall
        ⟨(Extends.refl env s).withTool _, rfl, hrep⟩

/-- Loading a value loads both layers. -/
theorem wp_barLoad (hF : F.Lawful) (hL : F.leafSize ∣ 2 ^ 64) (hM : M.BarShadow fuel)
    (hfuel : 2 ^ 31 ≤ fuel) (hmem : Rep hF s.tool.1 mem) (o : Options) (denv : DiffEnv)
    (haddr : HasValue M.toInterp env s addr wordTy va) (ty : IRType) :
    (execMeaning M).wp ((dgBarExpressionhandling o).load denv addr ty) env s
      fun sh env' s' => Extends env s env' s' ∧ s'.tool = s.tool ∧ ∃ lo hi, sh = [lo, hi] ∧
        HasValue M.toInterp env' s' lo ty (read (mem .lo) (bitsOf 64 va) (sizeofIRType ty)) ∧
        HasValue M.toInterp env' s' hi ty (read (mem .hi) (bitsOf 64 va) (sizeofIRType ty)) := by
  have hsize := sizeofIRType_le ty
  have harg := toNat_sizeArg ty
  have hget := dgBarShadowGet_rep hL hfuel hmem (bitsOf 64 va) (by rw [harg]; omega)
  rw [harg] at hget
  set vlo := read (mem .lo) (bitsOf 64 va) (sizeofIRType ty) with hvlo
  set vhi := read (mem .hi) (bitsOf 64 va) (sizeofIRType ty) with hvhi
  set buf := writeReg (writeReg s.buf 0 vlo) 32 vhi with hbuf
  have hlen : vlo.length = sizeofIRType ty := length_read _ _ _
  have hlen' : vhi.length = sizeofIRType ty := length_read _ _ _
  have hcall := hM.load va (bytesOf (BitVec.ofNat 64 (sizeofIRType ty))) s.buf s.tool.1 s.tool.2
    buf (by unfold dgBarDirtyhelperLoad; rw [hget]; rfl)
  have hargs : evalExprs M.toInterp s [addr, sizeConst ty]
      = [va, bytesOf (BitVec.ofNat 64 (sizeofIRType ty))] := by
    simp only [evalExprs, sizeConst, evalExpr, hM.const_u64, haddr.eval]
  -- The layers do not overlap in the buffer, as values have at most 32 bytes.
  have hreadLo : readReg buf 0 (sizeofIRType ty) = vlo := by
    rw [hbuf, readReg_writeReg_of_le _ _ (by omega), ← hlen, readReg_writeReg]
  have hreadHi : readReg buf 32 (sizeofIRType ty) = vhi := by
    rw [hbuf, ← hlen', readReg_writeReg]
  apply wp_bind
  refine wp_addDirty_snd hM.isTrue_true hargs hcall ?_
  apply wp_bind
  refine wp_declare (n := 2) ?_
  apply wp_bind
  set s₁ := ((s.withTool (buf, s.tool)).setTmp env.length vlo).setTmp (env.length + 1) vhi with hs₁
  have hrun : ∀ tyenv, execStmts M tyenv
      [.wrTmp env.length (.load .le ty (bufferAddr denv 0)),
        .wrTmp (env.length + 1) (.load .le ty (bufferAddr denv 1))] (s.withTool (buf, s.tool))
      = (s₁, none) := by
    intro tyenv
    simp only [execStmts, execStmt, evalExpr, bufferAddr, IRExpr.bufferOffset?, IREndness.order,
      State.withTool, State.setTmp, Nat.mul_zero, Nat.mul_one, hreadLo, hreadHi, hs₁]
  refine wp_emit hrun (wp_pure ?_)
  have hnew : Extends env s (env ++ [ty, ty]) s :=
    ⟨List.prefix_append env _, fun _ _ => rfl, rfl, rfl⟩
  refine ⟨((hnew.withTool (buf, s.tool)).setTmp le_rfl vlo).setTmp (by omega) vhi, rfl,
    .rdTmp env.length, .rdTmp (env.length + 1), rfl, ?_, ?_⟩
  · exact HasValue.ofTmp (by simp) (by simp [hs₁, State.setTmp]) hlen
  · exact HasValue.ofTmp (by simp) (by simp [hs₁, State.setTmp]) hlen'

/-- Storing an 80-bit number stores four bytes of each layer. -/
theorem wp_barStoreF80le (hF : F.Lawful) (hL : F.leafSize ∣ 2 ^ 64) (hM : M.BarShadow fuel)
    (hfuel : 2 ^ 31 ≤ fuel) (hmem : Rep hF s.tool.1 mem)
    (haddr : HasValue M.toInterp env s addr wordTy va) (hlo : HasValue M.toInterp env s lo ty vlo)
    (hhi : HasValue M.toInterp env s hi ty vhi) :
    (execMeaning M).wp (dgBarDirtyStoreF80le addr [lo, hi]) env s
      fun _ env' s' => Extends env s env' s' ∧ s'.tool.2 = s.tool.2 ∧
        Rep hF s'.tool.1 (overlayLayers mem (bitsOf 64 va) 4
          (BarLayer.pair (some fun j => vlo.getD j 0) (some fun j => vhi.getD j 0))) := by
  obtain ⟨s₁, hs₁, hrep₁⟩ := dgBarShadowSet_rep hL hfuel hmem (bitsOf 64 va)
    (some fun j => vlo.getD j 0) none (show (4 : BitVec 32).toNat < 2 ^ 31 by decide)
  obtain ⟨s₂, hs₂, hrep₂⟩ := dgBarShadowSet_rep hL hfuel hrep₁ (bitsOf 64 va)
    none (some fun j => vhi.getD j 0) (show (4 : BitVec 32).toNat < 2 ^ 31 by decide)
  -- One call for each layer, which leaves the other layer as it is.
  have hmem₂ : overlayLayers (overlayLayers mem (bitsOf 64 va) 4
        (BarLayer.pair (some fun j => vlo.getD j 0) none)) (bitsOf 64 va) 4
        (BarLayer.pair none (some fun j => vhi.getD j 0))
      = overlayLayers mem (bitsOf 64 va) 4
          (BarLayer.pair (some fun j => vlo.getD j 0) (some fun j => vhi.getD j 0)) := by
    funext l
    cases l <;> rfl
  have hext : Extends env s env (s.withTool (s.buf, s₁, s.tool.2)) :=
    (Extends.refl env s).withTool _
  have hargs : evalExprs M.toInterp s [addr, lo] = [va, vlo] := by
    simp only [evalExprs, haddr.eval, hlo.eval]
  have hargs' : evalExprs M.toInterp (s.withTool (s.buf, s₁, s.tool.2)) [addr, hi] = [va, vhi] := by
    simp only [evalExprs, (haddr.mono hext).eval, (hhi.mono hext).eval]
  apply wp_bind
  refine wp_addDirty_snd hM.isTrue_true hargs
    (hM.storeF80leLo va vlo s.buf s.tool.1 s.tool.2 s₁ hs₁) ?_
  refine wp_addDirty_snd hM.isTrue_true hargs'
    (hM.storeF80leHi va vhi s.buf s₁ s.tool.2 s₂ hs₂) ?_
  refine ⟨hext.withTool _, rfl, ?_⟩
  rw [← hmem₂]
  exact hrep₂

/-- Loading an 80-bit number loads four bytes of each layer, and anything behind them. -/
theorem wp_barLoadF80le (hF : F.Lawful) (hL : F.leafSize ∣ 2 ^ 64) (hM : M.BarShadow fuel)
    (hfuel : 2 ^ 31 ≤ fuel) (hmem : Rep hF s.tool.1 mem) (denv : DiffEnv)
    (haddr : HasValue M.toInterp env s addr wordTy va)
    (hfits : addr.inBounds denv.tmpOffset 0 = true) {tmp : IRTemp} (htmp : tmp < denv.tmpOffset) :
    (execMeaning M).wp (dgBarDirtyLoadF80le denv addr tmp) env s
      fun _ env' s' => env' = env ∧ s'.tool = s.tool ∧ ∃ ulo uhi,
        s'.tmp (tmp + denv.tmpOffset) = read (mem .lo) (bitsOf 64 va) 4 ++ ulo ∧
        ulo.length = 4 ∧
        s'.tmp (tmp + 2 * denv.tmpOffset) = read (mem .hi) (bitsOf 64 va) 4 ++ uhi ∧
        uhi.length = 4 := by
  have hget := dgBarShadowGet_rep hL hfuel hmem (bitsOf 64 va)
    (show (4 : BitVec 32).toNat < 2 ^ 31 by decide)
  obtain ⟨ulo, hulo, hcall⟩ := hM.loadF80leLo va s.buf s.tool.1 s.tool.2
  obtain ⟨uhi, huhi, hcall'⟩ := hM.loadF80leHi va s.buf s.tool.1 s.tool.2
  have hlo := hcall _ (by unfold dgBarDirtyhelperLoadF80leLo; rw [hget]; rfl)
  have hhi := hcall' _ (by unfold dgBarDirtyhelperLoadF80leHi; rw [hget]; rfl)
  set vlo := read (mem .lo) (bitsOf 64 va) 4 ++ ulo with hvlo
  set vhi := read (mem .hi) (bitsOf 64 va) 4 ++ uhi with hvhi
  set s₁ := (s.setTmp (tmp + denv.tmpOffset) vlo).withTool (s.buf, s.tool) with hs₁
  -- The result of the first call is not read by the second one.
  have hprimal : PrimalEq denv.tmpOffset 0 s s₁ := by
    refine ⟨fun t ht => ?_, fun _ _ => rfl, rfl⟩
    have hne : t ≠ tmp + denv.tmpOffset := by omega
    exact (Function.update_of_ne hne vlo s.tmp).symm
  have hargs : evalExprs M.toInterp s [addr] = [va] := by
    simp only [evalExprs, haddr.eval]
  have hargs' : evalExprs M.toInterp s₁ [addr] = [va] := by
    simp only [evalExprs, ← evalExpr_primalEq hprimal addr hfits, haddr.eval]
  have hr : M.toolDirty .barLoadF80leLo (evalExprs M.toInterp s [addr]) s.buf s.tool
      = (vlo, s.buf, s.tool) := by
    rw [hargs]
    exact hlo
  have hr' : M.toolDirty .barLoadF80leHi (evalExprs M.toInterp s₁ [addr]) s₁.buf s₁.tool
      = (vhi, s.buf, s.tool) := by
    rw [hargs']
    exact hhi
  apply wp_bind
  refine wp_addDirtyTmp hM.isTrue_true hr ?_
  refine wp_addDirtyTmp hM.isTrue_true hr' ?_
  refine ⟨rfl, rfl, ulo, uhi, ?_, hulo, Function.update_self _ _ _, huhi⟩
  have hpos : 0 < denv.tmpOffset := Nat.lt_of_le_of_lt (Nat.zero_le tmp) htmp
  have hne : tmp + denv.tmpOffset ≠ tmp + 2 * denv.tmpOffset :=
    Nat.ne_of_lt (Nat.add_lt_add_left (by omega) tmp)
  exact (Function.update_of_ne hne _ _).trans (Function.update_self _ _ _)

end Rules

end Derivgrind
