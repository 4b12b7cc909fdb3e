import Derivgrind.Shadow.Calls

/-!
# Shadow memory in all modes

Emitted code accesses shadow memory in the same way in all modes, only the number of
layers differs.  `Machine.ShadowCalls` says what it relies on: the helper functions
act on shadow memory as on one byte map for each layer.  Both implementations of
shadow memory satisfy this.

## Main definitions

* `dgDotDirtyhelperStore`, `dgDotDirtyhelperLoad` — the helper functions of forward mode.
* `Machine.ShadowCalls` — the helper functions act on byte maps.
* `Machine.ShadowMaps` — the same for bytes of any type.

## Main results

* `shadowCalls_dot`, `shadowCalls_bar` — in all modes, they do.
* `wp_shadowLoad`, `wp_shadowStore` — what emitted code does to shadow memory.
-/

namespace Derivgrind

open ByteMap Emitter.Meaning
open FlexibleShadow (Rep overlayLayers shadowSet_rep shadowGet_rep)

variable {T : Type}

/-- The bytes of the size of a type, as an argument of a call. -/
def sizeBytes (ty : IRType) : List Byte := bytesOf (BitVec.ofNat 64 (sizeofIRType ty))

/-- The helper functions act on shadow memory as on one byte map for each layer. -/
structure Machine.ShadowCalls (M : Machine Byte T) (eh : ExpressionHandling)
    (Shadows : T → (ℕ → Addr → Byte) → Prop) : Prop where
  isTrue_true : M.isTrue (M.const (.u1 true)) = true
  const_u64 : ∀ x, M.const (.u64 x) = bytesOf x
  layers_pos : 0 < eh.layers
  unique : ∀ {t mem mem'}, Shadows t mem → Shadows t mem' → ∀ k < eh.layers, mem k = mem' k
  congr : ∀ {t mem mem'}, Shadows t mem → (∀ k < eh.layers, mem k = mem' k) → Shadows t mem'
  store : ∀ {t mem}, Shadows t mem → ∀ (addr : List Byte) (ty : IRType) (buf : ℕ → Byte),
    ∃ t', (M.toolDirty eh.storeHelper [addr, sizeBytes ty] buf t).2 = (buf, t') ∧
      Shadows t' fun k =>
        writeMem (mem k) (bitsOf 64 addr) (readReg buf (32 * k) (sizeofIRType ty))
  load : ∀ {t mem}, Shadows t mem → ∀ (addr : List Byte) (ty : IRType) (buf : ℕ → Byte),
    ∃ buf', (M.toolDirty eh.loadHelper [addr, sizeBytes ty] buf t).2 = (buf', t) ∧
      ∀ k < eh.layers, readReg buf' (32 * k) (sizeofIRType ty)
        = readMem (mem k) (bitsOf 64 addr) (sizeofIRType ty)

/-- The helper functions act on shadow memory as on one map for each layer, whatever bytes
are.  Values are used as addresses by `toAddr`. -/
structure Machine.ShadowMaps {B : Type} (M : Machine B T) (eh : ExpressionHandling)
    (toAddr : List B → Addr) (Shadows : T → (ℕ → Addr → B) → Prop) : Prop where
  isTrue_true : M.isTrue (M.const (.u1 true)) = true
  layers_pos : 0 < eh.layers
  congr : ∀ {t mem mem'}, Shadows t mem → (∀ k < eh.layers, mem k = mem' k) → Shadows t mem'
  store : ∀ {t mem}, Shadows t mem → ∀ (addr : List B) (ty : IRType) (buf : ℕ → B),
    ∃ t', (M.toolDirty eh.storeHelper
        [addr, M.const (.u64 (BitVec.ofNat 64 (sizeofIRType ty)))] buf t).2 = (buf, t') ∧
      Shadows t' fun k => writeMem (mem k) (toAddr addr) (readReg buf (32 * k) (sizeofIRType ty))
  load : ∀ {t mem}, Shadows t mem → ∀ (addr : List B) (ty : IRType) (buf : ℕ → B),
    ∃ buf', (M.toolDirty eh.loadHelper
        [addr, M.const (.u64 (BitVec.ofNat 64 (sizeofIRType ty)))] buf t).2 = (buf', t) ∧
      ∀ k < eh.layers, readReg buf' (32 * k) (sizeofIRType ty)
        = readMem (mem k) (toAddr addr) (sizeofIRType ty)

theorem Machine.ShadowCalls.maps {M : Machine Byte T} {eh : ExpressionHandling}
    {Shadows : T → (ℕ → Addr → Byte) → Prop} (hM : M.ShadowCalls eh Shadows) :
    M.ShadowMaps eh (bitsOf 64) Shadows where
  isTrue_true := hM.isTrue_true
  layers_pos := hM.layers_pos
  congr := hM.congr
  store h addr ty buf := by
    rw [hM.const_u64]
    exact hM.store h addr ty buf
  load h addr ty buf := by
    rw [hM.const_u64]
    exact hM.load h addr ty buf

/-! ### Both implementations -/

/-- The buffer is copied to memory. -/
theorem writeMem_readReg (f : Addr → Byte) (a : Addr) (buf : ℕ → Byte) (offset n : ℕ) :
    writeMem f a (readReg buf offset n) = overlay f a n fun j => buf (offset + j) := by
  funext x
  unfold writeMem overlay readReg
  by_cases hx : (x - a).toNat < n
  · rw [if_pos hx, List.getD_eq_getElem _ _ (by simpa using hx), List.getElem_map,
      List.getElem_range]
  · rw [if_neg hx, List.getD_eq_default _ _ (by simpa using hx)]

theorem readReg_writeReg_of_length {B : Type} (f : ℕ → B) (offset : ℕ) {bytes : List B} {n : ℕ}
    (h : bytes.length = n) : readReg (writeReg f offset bytes) offset n = bytes := by
  rw [← h, readReg_writeReg]

section Bar

variable {F : FlexibleShadow BarLayer 64} {fuel : ℕ}

/-- The two layers of recording mode and bit-trick-finding mode. -/
def barShadows (hF : F.Lawful) (t : F.State × T) (mem : ℕ → Addr → Byte) : Prop :=
  Rep hF t.1 (BarLayer.pair (mem 0) (mem 1))

/-- **The helper functions of recording mode and bit-trick-finding mode** act on two byte
maps. -/
theorem shadowCalls_bar (hF : F.Lawful) (hL : F.leafSize ∣ 2 ^ 64) (hfuel : 2 ^ 31 ≤ fuel)
    {M : Machine Byte (F.State × T)} (hM : M.BarShadow fuel) {eh : ExpressionHandling}
    (hlayers : eh.layers = 2) (hstore : eh.storeHelper = .barStore)
    (hload : eh.loadHelper = .barLoad) : M.ShadowCalls eh (barShadows hF) where
  isTrue_true := hM.isTrue_true
  const_u64 := hM.const_u64
  layers_pos := by rw [hlayers]; decide
  unique := by
    intro t mem mem' h h' k hk
    funext x
    -- Both maps have the contents of the same leaves.
    have hcells : ∀ l, BarLayer.pair (mem 0) (mem 1) l x = BarLayer.pair (mem' 0) (mem' 1) l x :=
      fun l => (h.cell l x).symm.trans (h'.cell l x)
    rw [hlayers] at hk
    match k, hk with
    | 0, _ => exact hcells .lo
    | 1, _ => exact hcells .hi
  congr := by
    intro t mem mem' h heq
    rw [hlayers] at heq
    unfold barShadows at h ⊢
    rwa [← heq 0 (by decide), ← heq 1 (by decide)]
  store := by
    intro t mem h addr ty buf
    have hsize := sizeofIRType_le ty
    have harg := toNat_sizeArg ty
    obtain ⟨s', hs', hrep⟩ := dgBarShadowSet_rep hL hfuel h (bitsOf 64 addr) (some buf)
      (some fun j => buf (32 + j)) (by rw [harg]; omega)
    refine ⟨(s', t.2), ?_, ?_⟩
    · rw [hstore]
      exact hM.store addr (sizeBytes ty) buf t.1 t.2 s' hs'
    · rw [harg] at hrep
      have hmem : BarLayer.pair
            (writeMem (mem 0) (bitsOf 64 addr) (readReg buf (32 * 0) (sizeofIRType ty)))
            (writeMem (mem 1) (bitsOf 64 addr) (readReg buf (32 * 1) (sizeofIRType ty)))
          = overlayLayers (BarLayer.pair (mem 0) (mem 1)) (bitsOf 64 addr) (sizeofIRType ty)
            (BarLayer.pair (some buf) (some fun j => buf (32 + j))) := by
        rw [writeMem_readReg, writeMem_readReg]
        funext l
        cases l with
        | lo => simp only [BarLayer.pair, overlayLayers, Nat.mul_zero, Nat.zero_add]
        | hi => rfl
      unfold barShadows
      rw [hmem]
      exact hrep
  load := by
    intro t mem h addr ty buf
    have hsize := sizeofIRType_le ty
    have harg := toNat_sizeArg ty
    have hget := dgBarShadowGet_rep hL hfuel h (bitsOf 64 addr) (by rw [harg]; omega)
    rw [harg] at hget
    set vlo := read (mem 0) (bitsOf 64 addr) (sizeofIRType ty) with hvlo
    set vhi := read (mem 1) (bitsOf 64 addr) (sizeofIRType ty) with hvhi
    have hlen : vlo.length = sizeofIRType ty := length_read _ _ _
    have hlen' : vhi.length = sizeofIRType ty := length_read _ _ _
    refine ⟨writeReg (writeReg buf 0 vlo) 32 vhi, ?_, ?_⟩
    · rw [hload]
      refine hM.load addr (sizeBytes ty) buf t.1 t.2 _ ?_
      show (dgBarShadowGet F t.1 fuel (bitsOf 64 addr) true true _).map _ = _
      unfold sizeBytes
      rw [hget]
      rfl
    · intro k hk
      rw [hlayers] at hk
      match k, hk with
      | 0, _ =>
        rw [Nat.mul_zero, readReg_writeReg_of_le _ _ (by omega)]
        exact readReg_writeReg_of_length _ _ hlen
      | 1, _ => exact readReg_writeReg_of_length _ _ hlen'

end Bar

section Dot

variable (F : FlexibleShadow Unit 64) (fuel : ℕ)

/-- `dg_dot_x86g_amd64g_dirtyhelper_store`. -/
def dgDotDirtyhelperStore (addr : Addr) (size : BitVec 64) (buf : ℕ → Byte) (s : F.State) :
    Option F.State :=
  dgDotShadowSet F fuel addr buf (size.setWidth 32) s

/-- `dg_dot_x86g_amd64g_dirtyhelper_load`. -/
def dgDotDirtyhelperLoad (addr : Addr) (size : BitVec 64) (buf : ℕ → Byte) (s : F.State) :
    Option (ℕ → Byte) :=
  (dgDotShadowGet F s fuel addr (size.setWidth 32)).map (writeReg buf 0)

variable {F}

/-- The machine calls the functions that access the shadow memory of forward mode. -/
structure Machine.DotShadow (M : Machine Byte (F.State × T)) : Prop where
  isTrue_true : M.isTrue (M.const (.u1 true)) = true
  const_u64 : ∀ x, M.const (.u64 x) = bytesOf x
  store : ∀ addr size buf s t s',
    dgDotDirtyhelperStore F fuel (bitsOf 64 addr) (bitsOf 64 size) buf s = some s' →
    (M.toolDirty .dotStore [addr, size] buf (s, t)).2 = (buf, s', t)
  load : ∀ addr size buf s t buf',
    dgDotDirtyhelperLoad F fuel (bitsOf 64 addr) (bitsOf 64 size) buf s = some buf' →
    (M.toolDirty .dotLoad [addr, size] buf (s, t)).2 = (buf', s, t)

/-- The layer of forward mode. -/
def dotShadows (hF : F.Lawful) (t : F.State × T) (mem : ℕ → Addr → Byte) : Prop :=
  Rep hF t.1 fun _ => mem 0

/-- **The helper functions of forward mode** act on one byte map. -/
theorem shadowCalls_dot (hF : F.Lawful) (hL : F.leafSize ∣ 2 ^ 64) (hfuel : 2 ^ 31 ≤ fuel)
    {M : Machine Byte (F.State × T)} (hM : M.DotShadow fuel) :
    M.ShadowCalls dgDotExpressionhandling (dotShadows hF) where
  isTrue_true := hM.isTrue_true
  const_u64 := hM.const_u64
  layers_pos := by decide
  unique := by
    intro t mem mem' h h' k hk
    obtain rfl : k = 0 := Nat.lt_one_iff.mp hk
    funext x
    exact (h.cell () x).symm.trans (h'.cell () x)
  congr := by
    intro t mem mem' h heq
    unfold dotShadows at h ⊢
    rwa [← heq 0 (by decide)]
  store := by
    intro t mem h addr ty buf
    have hsize := sizeofIRType_le ty
    have harg := toNat_sizeArg ty
    obtain ⟨s', hs', hrep⟩ := shadowSet_rep hF (by omega) _ (fun _ => some buf) rfl
      (by rw [harg]; omega) (Or.inl hL) h (a := bitsOf 64 addr)
    refine ⟨(s', t.2), hM.store addr (sizeBytes ty) buf t.1 t.2 s' (hs' fuel (by omega)), ?_⟩
    rw [harg] at hrep
    show Rep hF s' fun _ =>
      writeMem (mem 0) (bitsOf 64 addr) (readReg buf (32 * 0) (sizeofIRType ty))
    rw [writeMem_readReg]
    simp only [Nat.mul_zero, Nat.zero_add]
    exact hrep
  load := by
    intro t mem h addr ty buf
    have hsize := sizeofIRType_le ty
    have harg := toNat_sizeArg ty
    have hget := shadowGet_rep hF (by omega) _ rfl (by rw [harg]; omega) (Or.inl hL) h
      (fun _ => true) fuel (by omega) (a := bitsOf 64 addr)
    rw [harg] at hget
    set v := read (mem 0) (bitsOf 64 addr) (sizeofIRType ty) with hv
    have hlen : v.length = sizeofIRType ty := length_read _ _ _
    refine ⟨writeReg buf 0 v, ?_, ?_⟩
    · refine hM.load addr (sizeBytes ty) buf t.1 t.2 _ ?_
      unfold dgDotDirtyhelperLoad dgDotShadowGet sizeBytes
      rw [hget]
      rfl
    · intro k hk
      obtain rfl : k = 0 := Nat.lt_one_iff.mp hk
      exact readReg_writeReg_of_length _ _ hlen

end Dot

/-! ### Statements for all layers -/

section Layers

variable {B : Type}

/-- Several temporaries are assigned. -/
def State.setTmps (s : State B T) (f : ℕ → IRTemp) (v : ℕ → List B) : ℕ → State B T
  | 0 => s
  | k + 1 => (s.setTmps f v k).setTmp (f k) (v k)

theorem State.setTmps_tmp_of_ne (s : State B T) {f : ℕ → IRTemp} (v : ℕ → List B) {t : IRTemp} :
    ∀ {L : ℕ}, (∀ k < L, t ≠ f k) → (s.setTmps f v L).tmp t = s.tmp t := by
  intro L
  induction L with
  | zero => exact fun _ => rfl
  | succ L ih =>
    intro h
    have hL : t ≠ f L := h L (Nat.lt_succ_self L)
    exact (Function.update_of_ne hL _ _).trans (ih fun k hk => h k (Nat.lt_succ_of_lt hk))

theorem State.setTmps_tmp (s : State B T) {f : ℕ → IRTemp} (hf : Function.Injective f)
    (v : ℕ → List B) : ∀ {L k : ℕ}, k < L → (s.setTmps f v L).tmp (f k) = v k := by
  intro L
  induction L with
  | zero => exact fun hk => absurd hk (Nat.not_lt_zero _)
  | succ L ih =>
    intro k hk
    by_cases hkL : k = L
    · rw [hkL]
      exact Function.update_self _ _ _
    · have hne : f k ≠ f L := fun h => hkL (hf h)
      exact (Function.update_of_ne hne _ _).trans (ih (by omega))

/-- Everything but temporaries is left alone. -/
theorem State.setTmps_eq (s : State B T) (f : ℕ → IRTemp) (v : ℕ → List B) :
    ∀ L, ∃ tmp, s.setTmps f v L = { s with tmp := tmp } := by
  intro L
  induction L with
  | zero => exact ⟨s.tmp, rfl⟩
  | succ L ih =>
    obtain ⟨tmp, htmp⟩ := ih
    exact ⟨Function.update tmp (f L) (v L), by rw [State.setTmps, htmp]; rfl⟩

/-- Temporaries are assigned one after the other. -/
theorem execStmts_wrTmps (M : Machine B T) (tyenv : List IRType) {s : State B T} {f : ℕ → IRTemp}
    {e : ℕ → IRExpr} {v : ℕ → List B} : ∀ {L : ℕ},
    (∀ k < L, evalExpr M.toInterp (s.setTmps f v k) (e k) = v k) →
    execStmts M tyenv ((List.range L).map fun k => .wrTmp (f k) (e k)) s
      = (s.setTmps f v L, none) := by
  intro L
  induction L with
  | zero => exact fun _ => rfl
  | succ L ih =>
    intro h
    rw [List.range_succ, List.map_append, execStmts_append,
      ih fun k hk => h k (Nat.lt_succ_of_lt hk)]
    simp only [List.map_cons, List.map_nil, execStmts, execStmt, h L (Nat.lt_succ_self L),
      State.setTmps]

/-- All layers are written to the buffer. -/
def writeLayers (buf : ℕ → B) (v : ℕ → List B) : ℕ → ℕ → B
  | 0 => buf
  | k + 1 => writeReg (writeLayers buf v k) (32 * k) (v k)

theorem readReg_writeLayers (buf : ℕ → B) {v : ℕ → List B} {n : ℕ} (hn : n ≤ 32) :
    ∀ {L k : ℕ}, (∀ j < L, (v j).length = n) → k < L →
    readReg (writeLayers buf v L) (32 * k) n = v k := by
  intro L
  induction L with
  | zero => exact fun _ hk => absurd hk (Nat.not_lt_zero _)
  | succ L ih =>
    intro k hv hk
    by_cases hkL : k = L
    · rw [hkL]
      exact readReg_writeReg_of_length _ _ (hv L (Nat.lt_succ_self L))
    · rw [writeLayers, readReg_writeReg_of_le _ _ (by omega)]
      exact ih (fun j hj => hv j (Nat.lt_succ_of_lt hj)) (by omega)

/-- Values are stored to the buffer one after the other. -/
theorem execStmts_bufferStores (M : Machine B T) (tyenv : List IRType) (denv : DiffEnv)
    {s : State B T} {e : ℕ → IRExpr} {v : ℕ → List B} : ∀ {L : ℕ},
    (∀ k < L, ∀ buf, evalExpr M.toInterp (s.withTool (buf, s.tool)) (e k) = v k) →
    execStmts M tyenv ((List.range L).map fun k => .store .le (bufferAddr denv k) (e k)) s
      = (s.withTool (writeLayers s.buf v L, s.tool), none) := by
  intro L
  induction L with
  | zero => exact fun _ => rfl
  | succ L ih =>
    intro h
    rw [List.range_succ, List.map_append, execStmts_append,
      ih fun k hk => h k (Nat.lt_succ_of_lt hk)]
    simp only [List.map_cons, List.map_nil, execStmts, execStmt, h L (Nat.lt_succ_self L)]
    rfl

/-- A guarded call of a function of the tool. -/
theorem execStmts_guardedDirty (M : Machine B T) (tyenv : List IRType) (s : State B T)
    {helper : ToolHelper} {guard : IRExpr} {args : List IRExpr} :
    execStmts M tyenv [.dirty ⟨.tool helper, guard, args, none⟩] s
      = (if M.isTrue (evalExpr M.toInterp s guard) then
          s.withTool (M.toolDirty helper (evalExprs M.toInterp s args) s.buf s.tool).2
        else s, none) := by
  simp only [execStmts, execStmt, execDirty, State.setTmp?, State.withTool]

theorem layer_map_range {f : ℕ → IRExpr} {L k : ℕ} (hk : k < L) :
    Shadow.layer ((List.range L).map f) k = f k := by
  rw [Shadow.layer, List.getD_eq_getElem _ _ (by simpa using hk), List.getElem_map,
    List.getElem_range]

theorem map_zipIdx_range {α : Type} (a L : ℕ) (g : ℕ × ℕ → α) :
    (((List.range L).map (a + ·)).zipIdx).map g = (List.range L).map fun k => g (a + k, k) := by
  refine List.ext_getElem (by simp) fun k hk hk' => ?_
  simp

end Layers

/-! ### Loads and stores -/

section Rules

variable {B : Type} {M : Machine B T} {eh : ExpressionHandling}
  {toAddr : List B → Addr} {Shadows : T → (ℕ → Addr → B) → Prop} {env : List IRType} {s : State B T}
  {mem : ℕ → Addr → B} {addr : IRExpr} {wordTy ty : IRType} {va : List B}

/-- The layers of a shadow have a type and values. -/
structure HasShadow (I : Interp B) (env : List IRType) (s : State B T) (L : ℕ)
    (shadow : Shadow) (ty : IRType) (v : ℕ → List B) : Prop where
  length : shadow.length = L
  layer : ∀ k < L, HasValue I env s (shadow.layer k) ty (v k)

theorem HasShadow.mono {I : Interp B} {env' : List IRType} {s' : State B T} {L : ℕ}
    {shadow : Shadow} {v : ℕ → List B} (h : HasShadow I env s L shadow ty v)
    (hext : Extends env s env' s') : HasShadow I env' s' L shadow ty v :=
  ⟨h.length, fun k hk => (h.layer k hk).mono hext⟩

/-- **Loading a value loads all layers.** -/
theorem wp_shadowLoad (hM : M.ShadowMaps eh toAddr Shadows) (hmem : Shadows s.tool mem) (denv : DiffEnv)
    (haddr : HasValue M.toInterp env s addr wordTy va) (ty : IRType) :
    (execMeaning M).wp (eh.load denv addr ty) env s fun shadow env' s' =>
      Extends env s env' s' ∧ s'.tool = s.tool ∧
        shadow = (List.range eh.layers).map (fun k => .rdTmp (env.length + k)) ∧
        HasShadow M.toInterp env' s' eh.layers shadow ty
          fun k => readMem (mem k) (toAddr va) (sizeofIRType ty) := by
  obtain ⟨buf, hcall, hread⟩ := hM.load hmem va ty s.buf
  have hargs : evalExprs M.toInterp s [addr, sizeConst ty] = [va,
        M.const (.u64 (BitVec.ofNat 64 (sizeofIRType ty)))] := by
    simp only [evalExprs, sizeConst, evalExpr, haddr.eval]
  set v : ℕ → List B := fun k => readMem (mem k) (toAddr va) (sizeofIRType ty) with hv
  set s₁ := s.withTool (buf, s.tool) with hs₁
  set f : ℕ → IRTemp := fun k => env.length + k with hf
  have hinj : Function.Injective f := fun j k h => Nat.add_left_cancel h
  apply wp_bind
  refine wp_addDirty_snd hM.isTrue_true hargs hcall ?_
  apply wp_bind
  refine wp_declare (n := eh.layers) ?_
  apply wp_bind
  rw [map_zipIdx_range]
  -- The layers are read from the buffer, each into a new temporary.
  have hrun : ∀ tyenv, execStmts M tyenv ((List.range eh.layers).map fun k =>
      .wrTmp (f k) (.load .le ty (bufferAddr denv k))) s₁
      = (s₁.setTmps f v eh.layers, none) := by
    intro tyenv
    refine execStmts_wrTmps M tyenv fun k hk => ?_
    obtain ⟨tmp, htmp⟩ := s₁.setTmps_eq f v k
    rw [htmp]
    exact hread k hk
  refine wp_emit hrun (wp_pure ?_)
  obtain ⟨tmp, htmp⟩ := s₁.setTmps_eq f v eh.layers
  refine ⟨⟨List.prefix_append env _, ?_, ?_, ?_⟩, ?_, List.map_map, by simp, ?_⟩
  · intro t ht
    exact s₁.setTmps_tmp_of_ne v fun k _ =>
      Nat.ne_of_lt (Nat.lt_of_lt_of_le ht (Nat.le_add_right _ k))
  · rw [htmp]
    rfl
  · rw [htmp]
    rfl
  · rw [htmp]
    rfl
  · intro k hk
    rw [List.map_map, layer_map_range hk]
    refine HasValue.ofTmp ?_ (s₁.setTmps_tmp hinj v hk) (by simp [hv, readMem])
    rw [List.getElem?_append_right (by simp), Nat.add_sub_cancel_left,
      List.getElem?_replicate_of_lt hk]

/-- **Storing a value stores all layers** if the guard is true. -/
theorem wp_shadowStore (hM : M.ShadowMaps eh toAddr Shadows) (hmem : Shadows s.tool mem)
    (denv : DiffEnv) (haddr : HasValue M.toInterp env s addr wordTy va) {shadow : Shadow}
    {v : ℕ → List B} (hshadow : HasShadow M.toInterp env s eh.layers shadow ty v)
    {guard : IRExpr} (hguard : guard.inBounds env.length 0 = true) :
    (execMeaning M).wp (eh.store denv addr shadow (some guard)) env s fun _ env' s' =>
      env' = env ∧ (∃ r, s' = s.withTool r) ∧ Shadows s'.tool fun k =>
        if M.isTrue (evalExpr M.toInterp s guard) then writeMem (mem k) (toAddr va) (v k)
        else mem k := by
  have hext : ∀ r, Extends env s env (s.withTool r) := fun r => (Extends.refl env s).withTool r
  set buf := writeLayers s.buf v eh.layers with hbuf
  set s₁ := s.withTool (buf, s.tool) with hs₁
  -- All layers are put into the buffer, whether the guard is true or not.
  have hstores : ∀ tyenv, execStmts M tyenv ((List.range eh.layers).map fun k =>
      .store .le (bufferAddr denv k) (shadow.layer k)) s = (s₁, none) := fun tyenv =>
    execStmts_bufferStores M tyenv denv fun k hk b => ((hshadow.layer k hk).mono (hext _)).eval
  obtain ⟨t', hcall, hrep⟩ := hM.store hmem va ty buf
  have htype : ∀ e ∈ shadow, typeOfIRExpr env e = some ty := by
    intro e he
    obtain ⟨k, hk, rfl⟩ := List.getElem_of_mem he
    have hlayer := (hshadow.layer k (by rw [← hshadow.length]; exact hk)).type
    rwa [Shadow.layer, List.getD_eq_getElem _ _ hk] at hlayer
  have hargs : evalExprs M.toInterp s₁ [addr, sizeConst ty] = [va,
        M.const (.u64 (BitVec.ofNat 64 (sizeofIRType ty)))] := by
    simp only [evalExprs, sizeConst, evalExpr, (haddr.mono (hext _)).eval, hs₁]
  have hcond : evalExpr M.toInterp s₁ guard = evalExpr M.toInterp s guard :=
    (evalExpr_primalEq ((hext (buf, s.tool)).primalEq 0) guard hguard).symm
  apply wp_bind
  apply wp_emit hstores
  apply wp_bind
  apply wp_typeOf (hshadow.layer 0 hM.layers_pos).type
  apply wp_bind
  apply wp_mapList_pure (P := fun _ ty' => ty' = ty)
  · exact fun e he => wp_typeOf (htype e he) ⟨rfl, rfl, rfl⟩
  · intro tys htys
    apply wp_bind
    -- The assertion: all layers have the same type.
    apply wp_tlAssert
    · rw [List.all_eq_true]
      intro ty' hty'
      obtain ⟨j, hj, rfl⟩ := List.getElem_of_mem hty'
      exact decide_eq_true (htys.get (by rw [htys.length_eq]; exact hj) hj)
    · refine wp_emit (fun tyenv => execStmts_guardedDirty M tyenv s₁) ?_
      rw [Option.getD_some, hcond, hargs]
      by_cases hb : M.isTrue (evalExpr M.toInterp s guard) = true
      · rw [if_pos hb]
        have htool : (s₁.withTool (M.toolDirty eh.storeHelper [va,
        M.const (.u64 (BitVec.ofNat 64 (sizeofIRType ty)))] s₁.buf
            s₁.tool).2).tool = t' := congrArg Prod.snd hcall
        rw [← htool] at hrep
        refine ⟨rfl, ⟨_, rfl⟩, hM.congr hrep fun k hk => ?_⟩
        rw [if_pos hb, hbuf, readReg_writeLayers _ (sizeofIRType_le ty)
          (fun j hj => (hshadow.layer j hj).length) hk]
      · rw [if_neg hb]
        refine ⟨rfl, ⟨_, rfl⟩, ?_⟩
        simp only [if_neg hb]
        exact hmem

end Rules

end Derivgrind
