import Derivgrind.Instrument.DualExprs

/-!
# Shadow registers

The shadow of the guest state consists of layers behind the guest state; each layer has the
size of the guest state.  In front of an access to registers, Derivgrind inserts accesses
to the layers.

For a run of accesses, every byte of the guest state is labelled by the write it comes
from.  The bytes of all layers come from the corresponding writes.

## Main definitions

* `IRStmt.RegAccess` — the statements that access registers.
* `IRStmt.regBytes` — the bytes of the guest state that are accessed.
* `accessLayer` — the access to a layer.
* `RegEvent`, `runRegs` — runs of accesses, with the code that is inserted.
* `regSources`, `regContent` — where bytes come from, and what they are in a layer.

## Main results

* `dgInstrumentStmt_regAccess` — the emitted code.
* `regBytes_accessLayer` — an access to a layer is displaced by a multiple of the size.
* `shadowRegs_translate` — **shadow reads see the shadows of the writes that reads see.**
-/

namespace Derivgrind

variable {B T : Type}

/-! ### Layers of bytes -/

section Layers

variable {g offset : ℕ}

/-- A write to a layer does not change the other ones. -/
theorem writeReg_layer (r : ℕ → B) {v : List B} (hle : offset + v.length ≤ g) (j k : ℕ) {o : ℕ}
    (ho : o < g) : writeReg r (offset + j * g) v (o + k * g)
      = if k = j then writeReg (fun o => r (o + k * g)) offset v o else r (o + k * g) := by
  rcases Nat.lt_trichotomy k j with hlt | rfl | hgt
  · have hmul : (k + 1) * g ≤ j * g := Nat.mul_le_mul_right g hlt
    rw [Nat.succ_mul] at hmul
    rw [if_neg (by omega), writeReg, if_neg (by omega)]
  · rw [if_pos rfl]
    exact writeReg_displaced v (rfl : r (o + k * g) = (fun o => r (o + k * g)) o)
  · have hmul : (j + 1) * g ≤ k * g := Nat.mul_le_mul_right g hgt
    rw [Nat.succ_mul] at hmul
    rw [if_neg (by omega)]
    exact writeReg_of_ge r (by omega)

/-- The byte that is left at an offset depends on the previous byte at this offset only. -/
theorem writeReg_congr {r r' : ℕ → B} {o : ℕ} (offset : ℕ) (v : List B) (h : r o = r' o) :
    writeReg r offset v o = writeReg r' offset v o := by
  unfold writeReg
  rw [h]

/-- Write to the first layers of the shadow. -/
def writeShadows (g offset : ℕ) (v : ℕ → List B) (r : ℕ → B) : ℕ → ℕ → B
  | 0 => r
  | m + 1 => writeReg (writeShadows g offset v r m) (offset + (m + 1) * g) (v (m + 1))

variable {v : ℕ → List B} {m : ℕ}

theorem writeShadows_layer (hle : ∀ k ≤ m, offset + (v k).length ≤ g) (r : ℕ → B) (k : ℕ)
    {o : ℕ} (ho : o < g) : writeShadows g offset v r m (o + k * g)
      = if 0 < k ∧ k ≤ m then writeReg (fun o => r (o + k * g)) offset (v k) o
        else r (o + k * g) := by
  induction m with
  | zero =>
    rw [if_neg (by omega)]
    rfl
  | succ m ih =>
    have ih := ih fun k hk => hle k (Nat.le_succ_of_le hk)
    rw [writeShadows, writeReg_layer _ (hle (m + 1) (le_refl _)) (m + 1) k ho]
    by_cases hk : k = m + 1
    · rw [if_pos hk, if_pos (by omega), hk]
      apply writeReg_congr
      rw [← hk, ih, if_neg (by omega)]
    · rw [if_neg hk, ih]
      exact if_congr (by omega) rfl rfl

/-- Write to the shadow, and then to the original bytes: every layer is changed in the
same manner. -/
theorem writeReg_writeShadows (hle : ∀ k ≤ m, offset + (v k).length ≤ g) (r : ℕ → B) {k : ℕ}
    (hk : k ≤ m) {o : ℕ} (ho : o < g) :
    writeReg (writeShadows g offset v r m) offset (v 0) (o + k * g)
      = writeReg (fun o => r (o + k * g)) offset (v k) o := by
  have hlayer := writeReg_layer (writeShadows g offset v r m) (hle 0 (Nat.zero_le m)) 0 k ho
  rw [Nat.zero_mul, Nat.add_zero] at hlayer
  rw [hlayer]
  by_cases h0 : k = 0
  · rw [if_pos h0]
    subst h0
    apply writeReg_congr
    rw [writeShadows_layer hle r 0 ho, if_neg (by omega)]
  · rw [if_neg h0, writeShadows_layer hle r k ho, if_pos (by omega)]

end Layers

/-! ### Register accesses -/

/-- Flat statements that access registers. -/
def IRStmt.isRegAccess : IRStmt → Bool
  | .put _ data => data.isAtom
  | .putI _ ix _ data => ix.isAtom && data.isAtom
  | .wrTmp _ (.get _ _) => true
  | .wrTmp _ (.getI _ ix _) => ix.isAtom
  | _ => false

/-- A register access in a superblock of the client that passes the sanity check.  The registers
exist, and the number of elements of arrays divides the size `g` of the guest state. -/
structure IRStmt.RegAccess (st : IRStmt) (tyenv : List IRType) (g : ℕ) (w : IRType) : Prop where
  flat : st.isRegAccess = true
  inBounds : st.inBounds tyenv.length g = true
  checked : tcStmt tyenv w st = true
  regsFit : st.regsFit tyenv g = true

/-- Where an access begins. -/
def IRStmt.regOffset (I : Interp B) (s : State B T) : IRStmt → ℕ
  | .put offset _ => offset
  | .putI descr ix bias _ => descr.offset (I.index (evalExpr I s ix)) bias
  | .wrTmp _ (.get offset _) => offset
  | .wrTmp _ (.getI descr ix bias) => descr.offset (I.index (evalExpr I s ix)) bias
  | _ => 0

/-- The expression that is written to registers. -/
def IRStmt.regData? : IRStmt → Option IRExpr
  | .put _ data => some data
  | .putI _ _ _ data => some data
  | _ => none

/-- The bytes that are written to registers. -/
def IRStmt.regData (I : Interp B) (s : State B T) (st : IRStmt) : List B :=
  (st.regData?.map (evalExpr I s)).getD []

/-- The number of bytes that are accessed. -/
def IRStmt.regSize (I : Interp B) (s : State B T) : IRStmt → ℕ
  | .put _ data => (evalExpr I s data).length
  | .putI _ _ _ data => (evalExpr I s data).length
  | .wrTmp _ (.get _ ty) => sizeofIRType ty
  | .wrTmp _ (.getI descr _ _) => sizeofIRType descr.elemTy
  | _ => 0

/-- The bytes of the guest state that are accessed. -/
def IRStmt.regBytes (I : Interp B) (s : State B T) (st : IRStmt) : List ℕ :=
  List.range' (st.regOffset I s) (st.regSize I s)

/-- The access to a layer of the guest state: the original access for the layer zero, and those
that are inserted for the layers of the shadow. -/
def accessLayer (eh : ExpressionHandling) (denv : DiffEnv) (st : IRStmt) : ℕ → IRStmt
  | 0 => st
  | k + 1 =>
      match st with
      | .put offset data =>
          .put (offset + (k + 1) * denv.gsOffset) ((atomShadow eh denv data).layer k)
      | .putI descr ix bias data =>
          .putI (ExpressionHandling.shadowDescr denv descr k) ix
            (bias + ((k + 1) * denv.gsOffset : ℕ)) ((atomShadow eh denv data).layer k)
      | .wrTmp t (.get offset ty) =>
          .wrTmp (t + (k + 1) * denv.tmpOffset) (.get (offset + (k + 1) * denv.gsOffset) ty)
      | .wrTmp t (.getI descr ix bias) =>
          .wrTmp (t + (k + 1) * denv.tmpOffset) (.getI
            (ExpressionHandling.shadowDescr denv descr k) ix
            (bias + ((k + 1) * denv.gsOffset : ℕ)))
      | st => st

/-- The accesses to the shadow, followed by the original access. -/
def accessLayers (eh : ExpressionHandling) (denv : DiffEnv) (st : IRStmt) : List IRStmt :=
  ((List.range eh.layers).map fun k => accessLayer eh denv st (k + 1)) ++ [st]

theorem addStatementModified_regAccess (eh : ExpressionHandling) (denv : DiffEnv) {st : IRStmt}
    (h : st.isRegAccess = true) (env : List IRType) : addStatementModified eh denv st env
      = some (none, [], (List.range eh.layers).map fun k => accessLayer eh denv st (k + 1)) := by
  have hread : ∀ (f : ℕ → IRExpr) (mk : ℕ → IRExpr → IRStmt),
      ((List.range eh.layers).map fun k => mk k (Shadow.layer ((List.range eh.layers).map f) k))
        = (List.range eh.layers).map fun k => mk k (f k) := by
    intro f mk
    refine List.map_congr_left fun k hk => ?_
    rw [layer_map_range (List.mem_range.mp hk)]
  have hemit : ∀ (items items' : List IRStmt), items = items' →
      (some (none, [], items ++ []) : Option (Option IRTemp × List IRType × List IRStmt))
        = some (none, [], items') := by
    rintro items _ rfl
    rw [List.append_nil]
  cases st with
  | put offset data =>
    simp only [addStatementModified, dgModifyExpressionOrDefault_atom eh denv h]
    exact hemit _ _ rfl
  | putI descr ix bias data =>
    simp only [IRStmt.isRegAccess, Bool.and_eq_true] at h
    simp only [addStatementModified, dgModifyExpressionOrDefault_atom eh denv h.2]
    exact hemit _ _ rfl
  | wrTmp t data =>
    cases data with
    | get offset ty => exact hemit _ _ (hread _ fun k e => .wrTmp (t + (k + 1) * denv.tmpOffset) e)
    | getI descr ix bias =>
      exact hemit _ _ (hread _ fun k e => .wrTmp (t + (k + 1) * denv.tmpOffset) e)
    | _ => cases h
  | _ => cases h

/-- **The emitted code.** -/
theorem dgInstrumentStmt_regAccess (eh : ExpressionHandling) (denv : DiffEnv) {st : IRStmt}
    (h : st.isRegAccess = true) (env : List IRType) :
    dgInstrumentStmt eh denv st env = some ((), [], accessLayers eh denv st) := by
  rw [dgInstrumentStmt, Emitter.bind_eq_of_eq_some (addStatementModified_regAccess eh denv h env)]
  cases st with
  | cas details => cases h
  | _ => rfl

/-! ### The data of accesses -/

section Data

variable {I : Interp B} {F : FpSem B} {tyenv env : List IRType} {s : State B T} {g : ℕ}
  {w ty : IRType} {k : ℕ}

/-- The shadows of constants are constants of the same type. -/
theorem hasValue_dgBarConstant (hI : I.IsVex F) (env : List IRType) (s : State B T)
    {con : IRConst} (hcon : con.isBufferAddr = false) : ∃ zero v,
      dgBarConstant con = [zero, zero] ∧ HasValue I env s zero (typeOfIRConst con) v := by
  have hconst : ∀ zero : IRConst, zero.isBufferAddr = false →
      HasValue I env s (.const zero) (typeOfIRConst zero) (I.const zero) :=
    HasValue.const hI env s
  have h32 := (HasValue.const_u32 hI env s).reinterpret hI (.unMove .reinterpI32asF32) rfl
  have h64 := (HasValue.const_u64 hI env s).reinterpret hI (.unMove .reinterpI64asF64) rfl
  cases con with
  | f64 x => exact ⟨_, _, rfl, h64⟩
  | f64i x => exact ⟨_, _, rfl, hconst (.f64i 0) rfl⟩
  | f32 x => exact ⟨_, _, rfl, h32⟩
  | f32i x => exact ⟨_, _, rfl, h32⟩
  | u1 x => exact ⟨_, _, rfl, hconst (.u1 false) rfl⟩
  | u8 x => exact ⟨_, _, rfl, hconst (.u8 0) rfl⟩
  | u16 x => exact ⟨_, _, rfl, hconst (.u16 0) rfl⟩
  | u32 x => exact ⟨_, _, rfl, hconst (.u32 0) rfl⟩
  | u64 x => exact ⟨_, _, rfl, hconst (.u64 0) rfl⟩
  | u128 x => exact ⟨_, _, rfl, hconst (.u128 0) rfl⟩
  | v128 x => exact ⟨_, _, rfl, hconst (.v128 0) rfl⟩
  | v256 x => exact ⟨_, _, rfl, hconst (.v256 0) rfl⟩
  | bufferAddr ty offset => cases hcon

theorem hasValue_constant (hI : I.IsVex F) (o : Options) (env : List IRType) (s : State B T)
    {con : IRConst} (hcon : con.isBufferAddr = false) (hk : k < o.expressionhandling.layers) :
    ∃ v, HasValue I env s ((o.expressionhandling.constant con).layer k) (typeOfIRConst con) v := by
  obtain ⟨zero, v, hzeros, hzero⟩ := hasValue_dgBarConstant hI env s hcon
  have hbar : k < 2 → ∃ v, HasValue I env s ((dgBarConstant con).layer k) (typeOfIRConst con) v := by
    intro hk
    rw [hzeros]
    refine ⟨v, ?_⟩
    rcases Nat.lt_succ_iff_lt_or_eq.mp hk with h0 | rfl
    · obtain rfl := Nat.lt_one_iff.mp h0
      exact hzero
    · exact hzero
  obtain ⟨mode, typegrind, values⟩ := o
  cases mode with
  | d =>
    obtain rfl : k = 0 := Nat.lt_one_iff.mp hk
    show ∃ v, HasValue I env s ((dgDotConstant con).layer 0) (typeOfIRConst con) v
    rw [dgDotConstant_eq hcon]
    cases con with
    | bufferAddr ty offset => cases hcon
    | _ => exact ⟨_, HasValue.const hI env s _ rfl⟩
  | b => exact hbar hk
  | t => exact hbar hk

/-- The values of atoms and of their shadows have the size of their type. -/
theorem hasValue_atomShadow (hI : I.IsVex F) (o : Options) {e : IRExpr} (hatom : e.isAtom = true)
    (hfits : e.inBounds tyenv.length g = true) (hty : typeOfIRExpr tyenv e = some ty)
    (hs : s.Typed (shadowedTyenv o.expressionhandling.layers tyenv))
    (hk : k < o.expressionhandling.layers) :
    ∃ v, HasValue I (shadowedTyenv o.expressionhandling.layers tyenv) s
      ((atomShadow o.expressionhandling ⟨tyenv.length, g, w⟩ e).layer k) ty v := by
  cases e with
  | rdTmp t =>
    have ht : t < tyenv.length := by simpa [IRExpr.inBounds] using hfits
    have hdecl : (shadowedTyenv o.expressionhandling.layers tyenv)[t + (k + 1) * tyenv.length]?
        = some ty := (getElem?_shadowedTyenv hk ht).trans hty
    rw [atomShadow, ExpressionHandling.rdtmp, layer_map_range hk]
    exact ⟨_, HasValue.rdTmp hdecl (hs _ _ hdecl)⟩
  | const con =>
    obtain rfl : typeOfIRConst con = ty := Option.some_inj.mp hty
    exact hasValue_constant hI o _ s (by simpa [IRExpr.inBounds] using hfits) hk
  | _ => cases hatom

theorem hasValue_atom (hI : I.IsVex F) {e : IRExpr} (hatom : e.isAtom = true)
    (hfits : e.inBounds tyenv.length g = true) (hty : typeOfIRExpr tyenv e = some ty)
    (henv : tyenv <+: env) (hs : s.Typed env) : ∃ v, HasValue I env s e ty v := by
  cases e with
  | rdTmp t =>
    have hdecl := getElem?_of_prefixed henv hty
    exact ⟨_, HasValue.rdTmp hdecl (hs t ty hdecl)⟩
  | const con =>
    obtain rfl : typeOfIRConst con = ty := Option.some_inj.mp hty
    exact ⟨_, HasValue.const hI env s con (by simpa [IRExpr.inBounds] using hfits)⟩
  | _ => cases hatom

variable {st : IRStmt} {data : IRExpr}

/-- The bytes of an array are those of a guest state that is larger. -/
theorem IRRegArray.divides_mul {descr : IRRegArray} (h : descr.divides g = true) (k : ℕ) :
    descr.divides ((k + 1) * g) = true := by
  simp only [IRRegArray.divides, Bool.and_eq_true, decide_eq_true_eq] at h ⊢
  refine ⟨⟨h.1.1, h.1.2.trans (Nat.le_mul_of_pos_left g (Nat.succ_pos k))⟩, ?_⟩
  exact Nat.mod_eq_zero_of_dvd ((Nat.dvd_of_mod_eq_zero h.2).mul_left (k + 1))

/-- **Accesses to a layer are displaced** by a multiple of the size of the guest state. -/
theorem regOffset_accessLayer (eh : ExpressionHandling) (I : Interp B) (s : State B T)
    (h : st.RegAccess tyenv g w) (k : ℕ) :
    (accessLayer eh ⟨tyenv.length, g, w⟩ st k).regOffset I s = st.regOffset I s + k * g := by
  cases k with
  | zero => rw [accessLayer, Nat.zero_mul, Nat.add_zero]
  | succ k =>
    have hflat := h.flat
    cases st with
    | put offset data => rfl
    | putI descr ix bias data =>
      exact IRRegArray.offset_displaced (IRRegArray.divides_mul h.regsFit k) _ bias
    | wrTmp t data =>
      cases data with
      | get offset ty => rfl
      | getI descr ix bias =>
        exact IRRegArray.offset_displaced (IRRegArray.divides_mul h.regsFit k) _ bias
      | _ => cases hflat
    | _ => cases hflat

/-- The values of atoms depend on temporaries only. -/
theorem evalExpr_atom_congr {n : ℕ} {s' : State B T} {e : IRExpr} (hatom : e.isAtom = true)
    (hfits : e.inBounds n g = true) (htmp : ∀ t < n, s'.tmp t = s.tmp t) :
    evalExpr I s' e = evalExpr I s e := by
  cases e with
  | rdTmp t => exact htmp t (by simpa [IRExpr.inBounds] using hfits)
  | const con => rfl
  | _ => cases hatom

/-- Where an access begins depends on temporaries only. -/
theorem regOffset_congr {s' : State B T} (h : st.RegAccess tyenv g w)
    (htmp : ∀ t < tyenv.length, s'.tmp t = s.tmp t) :
    st.regOffset I s' = st.regOffset I s := by
  have hflat := h.flat
  have hfits := h.inBounds
  cases st with
  | put offset data => rfl
  | putI descr ix bias data =>
    simp only [IRStmt.isRegAccess, IRStmt.inBounds, Bool.and_eq_true] at hflat hfits
    rw [IRStmt.regOffset, IRStmt.regOffset, evalExpr_atom_congr hflat.1 hfits.1 htmp]
  | wrTmp t data =>
    cases data with
    | get offset ty => rfl
    | getI descr ix bias =>
      simp only [IRStmt.isRegAccess, IRStmt.inBounds, IRExpr.inBounds, Bool.and_eq_true]
        at hflat hfits
      rw [IRStmt.regOffset, IRStmt.regOffset, evalExpr_atom_congr hflat hfits.2.2 htmp]
    | _ => cases hflat
  | _ => cases hflat

/-- The data that is written is an atom of the client, which has a type. -/
theorem regAccess_data (h : st.RegAccess tyenv g w) (hdata : st.regData? = some data) :
    data.isAtom = true ∧ data.inBounds tyenv.length g = true ∧
      ∃ ty, typeOfIRExpr tyenv data = some ty := by
  obtain ⟨hflat, hfits, htc, -⟩ := h
  cases st with
  | put offset e =>
    obtain rfl := Option.some_inj.mp hdata
    simp only [tcStmt, isData, Bool.and_eq_true, Option.isSome_iff_exists] at htc
    exact ⟨hflat, hfits, htc.1.2⟩
  | putI descr ix bias e =>
    obtain rfl := Option.some_inj.mp hdata
    simp only [tcStmt, isData, Bool.and_eq_true, Option.isSome_iff_exists] at htc
    simp only [IRStmt.isRegAccess, IRStmt.inBounds, Bool.and_eq_true] at hflat hfits
    exact ⟨hflat.2, hfits.2, htc.1.1.1.2⟩
  | _ => cases hdata

/-- The data that is written to a layer. -/
theorem hasValue_accessLayer (hI : I.IsVex F) (o : Options) (h : st.RegAccess tyenv g w)
    (hdata : st.regData? = some data) (hty : typeOfIRExpr tyenv data = some ty)
    (hs : s.Typed (shadowedTyenv o.expressionhandling.layers tyenv))
    (hk : k ≤ o.expressionhandling.layers) : ∃ e v,
      (accessLayer o.expressionhandling ⟨tyenv.length, g, w⟩ st k).regData? = some e ∧
      HasValue I (shadowedTyenv o.expressionhandling.layers tyenv) s e ty v := by
  obtain ⟨hatom, hfits, -⟩ := regAccess_data h hdata
  cases k with
  | zero =>
    obtain ⟨v, hv⟩ := hasValue_atom hI hatom hfits hty (List.prefix_append _ _) hs
    exact ⟨data, v, hdata, hv⟩
  | succ k =>
    obtain ⟨v, hv⟩ := hasValue_atomShadow (w := w) hI o hatom hfits hty hs hk
    refine ⟨_, v, ?_, hv⟩
    cases st with
    | put offset e =>
      obtain rfl := Option.some_inj.mp hdata
      rfl
    | putI descr ix bias e =>
      obtain rfl := Option.some_inj.mp hdata
      rfl
    | _ => cases hdata

theorem regSize_of_data (hdata : st.regData? = some data) (I : Interp B) (s : State B T) :
    st.regSize I s = (evalExpr I s data).length := by
  cases st with
  | put offset e =>
    obtain rfl := Option.some_inj.mp hdata
    rfl
  | putI descr ix bias e =>
    obtain rfl := Option.some_inj.mp hdata
    rfl
  | _ => cases hdata

/-- The accesses to all layers have the same size. -/
theorem regSize_accessLayer (hI : I.IsVex F) (o : Options) (h : st.RegAccess tyenv g w)
    (hs : s.Typed (shadowedTyenv o.expressionhandling.layers tyenv))
    (hk : k ≤ o.expressionhandling.layers) :
    (accessLayer o.expressionhandling ⟨tyenv.length, g, w⟩ st k).regSize I s
      = st.regSize I s := by
  cases hdata : st.regData? with
  | some data =>
    obtain ⟨-, -, ty, hty⟩ := regAccess_data h hdata
    obtain ⟨e, v, he, hv⟩ := hasValue_accessLayer hI o h hdata hty hs hk
    obtain ⟨e₀, v₀, he₀, hv₀⟩ := hasValue_accessLayer hI o h hdata hty hs (Nat.zero_le _)
    obtain rfl := Option.some_inj.mp (hdata.symm.trans he₀)
    rw [regSize_of_data he, regSize_of_data hdata, hv.eval, hv₀.eval, hv.length, hv₀.length]
  | none =>
    have hflat := h.flat
    cases k with
    | zero => rfl
    | succ k =>
      cases st with
      | put offset e => cases hdata
      | putI descr ix bias e => cases hdata
      | wrTmp t e =>
        cases e with
        | get offset ty => rfl
        | getI descr ix bias => rfl
        | _ => cases hflat
      | _ => cases hflat

/-- Accesses stay within the guest state. -/
theorem regOffset_add_regSize_le (hI : I.IsVex F) {L : ℕ} (h : st.RegAccess tyenv g w)
    (hs : s.Typed (shadowedTyenv L tyenv)) : st.regOffset I s + st.regSize I s ≤ g := by
  have hvalue : ∀ {e}, st.regData? = some e → ∃ ty, typeOfIRExpr tyenv e = some ty ∧
      (evalExpr I s e).length = sizeofIRType ty := by
    intro e hdata
    obtain ⟨hatom, hfits, ty, hty⟩ := regAccess_data h hdata
    obtain ⟨v, hv⟩ := hasValue_atom hI hatom hfits hty (List.prefix_append _ _) hs
    exact ⟨ty, hty, by rw [hv.eval, hv.length]⟩
  have harray : ∀ {descr : IRRegArray} (ix bias : ℤ), descr.divides g = true →
      descr.offset ix bias + sizeofIRType descr.elemTy ≤ g := by
    intro descr ix bias hdivides
    simp only [IRRegArray.divides, Bool.and_eq_true, decide_eq_true_eq] at hdivides
    exact IRRegArray.offset_add_le hdivides.1.1 hdivides.1.2 ix bias
  obtain ⟨hflat, hfits, htc, hregs⟩ := h
  cases st with
  | put offset e =>
    obtain ⟨ty, hty, hlen⟩ := hvalue rfl
    rw [IRStmt.regsFit, hty, Option.all_some, decide_eq_true_eq] at hregs
    rw [IRStmt.regSize, hlen]
    exact hregs
  | putI descr ix bias e =>
    obtain ⟨ty, hty, hlen⟩ := hvalue rfl
    simp only [tcStmt, hasTy, Bool.and_eq_true, decide_eq_true_eq] at htc
    obtain rfl := Option.some_inj.mp (htc.1.2.2.symm.trans hty)
    rw [IRStmt.regSize, hlen]
    exact harray _ bias hregs
  | wrTmp t e =>
    cases e with
    | get offset ty =>
      simp only [IRStmt.inBounds, IRExpr.inBounds, Bool.and_eq_true, decide_eq_true_eq] at hfits
      exact hfits.2
    | getI descr ix bias => exact harray _ bias hregs
    | _ => cases hflat
  | _ => cases hflat

/-- **The bytes of a layer** that are accessed. -/
theorem regBytes_accessLayer (hI : I.IsVex F) (o : Options) (h : st.RegAccess tyenv g w)
    (hs : s.Typed (shadowedTyenv o.expressionhandling.layers tyenv))
    (hk : k ≤ o.expressionhandling.layers) :
    (accessLayer o.expressionhandling ⟨tyenv.length, g, w⟩ st k).regBytes I s
      = (st.regBytes I s).map (· + k * g) := by
  rw [IRStmt.regBytes, IRStmt.regBytes, regOffset_accessLayer _ I s h k,
    regSize_accessLayer hI o h hs hk]
  simp only [Nat.add_comm _ (k * g), List.map_add_range']

theorem lt_of_mem_regBytes (hI : I.IsVex F) {L : ℕ} (h : st.RegAccess tyenv g w)
    (hs : s.Typed (shadowedTyenv L tyenv)) : ∀ b ∈ st.regBytes I s, b < g := by
  intro b hb
  have hle := regOffset_add_regSize_le hI h hs
  rw [IRStmt.regBytes, List.mem_range'_1] at hb
  omega

end Data

/-! ### Running the emitted code -/

section Run

variable {M : Machine B T} {F : FpSem B} {o : Options} {tyenv : List IRType} {g : ℕ} {w : IRType}
  {st : IRStmt} {s : State B T}

theorem execStmt_regWrite (M : Machine B T) (env : List IRType) {st : IRStmt} {data : IRExpr}
    (hdata : st.regData? = some data) (s : State B T) : execStmt M env st s
      = ({ s with reg := writeReg s.reg (st.regOffset M.toInterp s) (st.regData M.toInterp s) },
        none) := by
  cases st with
  | put offset e => rfl
  | putI descr ix bias e => rfl
  | _ => cases hdata

/-- An access that writes to a layer.  Offsets and data do not depend on registers. -/
theorem execStmt_accessLayer (hI : M.toInterp.IsVex F) (h : st.RegAccess tyenv g w)
    {data : IRExpr} (hdata : st.regData? = some data)
    (hs : s.Typed (shadowedTyenv o.expressionhandling.layers tyenv)) (env : List IRType) {k : ℕ}
    (hk : k ≤ o.expressionhandling.layers) (r : ℕ → B) :
    execStmt M env (accessLayer o.expressionhandling ⟨tyenv.length, g, w⟩ st k)
        { s with reg := r }
      = ({ s with
          reg := writeReg r (st.regOffset M.toInterp s + k * g)
            ((accessLayer o.expressionhandling ⟨tyenv.length, g, w⟩ st k).regData M.toInterp s) },
        none) := by
  obtain ⟨-, -, ty, hty⟩ := regAccess_data h hdata
  obtain ⟨e, v, he, hv⟩ := hasValue_accessLayer hI o h hdata hty hs hk
  have hprimal : PrimalEq (shadowedTyenv o.expressionhandling.layers tyenv).length 0
      { s with reg := r } s :=
    ⟨fun _ _ => rfl, fun _ hb => absurd hb (Nat.not_lt_zero _), rfl⟩
  have hoffset : st.regOffset M.toInterp { s with reg := r } = st.regOffset M.toInterp s :=
    regOffset_congr h fun _ _ => rfl
  rw [execStmt_regWrite M env he, regOffset_accessLayer _ _ _ h k, hoffset, IRStmt.regData,
    IRStmt.regData, he, Option.map_some, Option.map_some, Option.getD_some, Option.getD_some,
    evalExpr_primalEq hprimal e hv.fits]

theorem length_regData_accessLayer {I : Interp B} (hI : I.IsVex F) (h : st.RegAccess tyenv g w)
    {data : IRExpr} (hdata : st.regData? = some data)
    (hs : s.Typed (shadowedTyenv o.expressionhandling.layers tyenv)) {k : ℕ}
    (hk : k ≤ o.expressionhandling.layers) :
    ((accessLayer o.expressionhandling ⟨tyenv.length, g, w⟩ st k).regData I s).length
      = st.regSize I s := by
  obtain ⟨-, -, ty, hty⟩ := regAccess_data h hdata
  obtain ⟨e, v, he, -⟩ := hasValue_accessLayer hI o h hdata hty hs hk
  rw [← regSize_accessLayer hI o h hs hk, regSize_of_data he, IRStmt.regData, he]
  rfl

/-- **Writes to registers** change all layers in the same manner. -/
theorem execStmts_regWrite (hI : M.toInterp.IsVex F) (h : st.RegAccess tyenv g w)
    {data : IRExpr} (hdata : st.regData? = some data)
    (hs : s.Typed (shadowedTyenv o.expressionhandling.layers tyenv)) (env : List IRType)
    (r : ℕ → B) :
    ∃ r', execStmts M env (accessLayers o.expressionhandling ⟨tyenv.length, g, w⟩ st)
          { s with reg := r } = ({ s with reg := r' }, none) ∧
      ∀ k ≤ o.expressionhandling.layers, ∀ b < g, r' (b + k * g)
        = writeReg (fun b => r (b + k * g)) (st.regOffset M.toInterp s)
          ((accessLayer o.expressionhandling ⟨tyenv.length, g, w⟩ st k).regData M.toInterp s) b := by
  set L := o.expressionhandling.layers with hL
  set layer := accessLayer o.expressionhandling ⟨tyenv.length, g, w⟩ st with hlayer
  set offset := st.regOffset M.toInterp s with hoffset
  have hstep : ∀ k ≤ L, ∀ r, execStmt M env (layer k) { s with reg := r }
      = ({ s with reg := writeReg r (offset + k * g) ((layer k).regData M.toInterp s) }, none) :=
    fun k hk r => execStmt_accessLayer hI h hdata hs env hk r
  have hshadows : ∀ m ≤ L, execStmts M env ((List.range m).map fun k => layer (k + 1))
        { s with reg := r }
      = ({ s with reg := writeShadows g offset (fun k => (layer k).regData M.toInterp s) r m },
        none) := by
    intro m
    induction m with
    | zero => exact fun _ => rfl
    | succ m ih =>
      intro hm
      rw [List.range_succ, List.map_append, execStmts_append, ih (Nat.le_of_succ_le hm)]
      simp only [List.map_cons, List.map_nil, execStmts, hstep (m + 1) hm]
      rfl
  have hbound : ∀ k ≤ L, offset + ((layer k).regData M.toInterp s).length ≤ g := by
    intro k hk
    rw [hlayer, length_regData_accessLayer hI h hdata hs hk]
    exact regOffset_add_regSize_le hI h hs
  refine ⟨_, ?_, fun k hk b hb => writeReg_writeShadows hbound r hk hb⟩
  have horiginal := hstep 0 (Nat.zero_le L)
    (writeShadows g offset (fun k => (layer k).regData M.toInterp s) r L)
  rw [Nat.zero_mul, Nat.add_zero] at horiginal
  rw [accessLayers, execStmts_append, hshadows L (le_refl L)]
  simp only [execStmts]
  rw [show st = layer 0 from rfl, horiginal]

/-- The access to a layer of a register that is read. -/
theorem accessLayer_read (eh : ExpressionHandling) (denv : DiffEnv) {t : IRTemp} {e : IRExpr}
    (h : (IRStmt.wrTmp t e).isRegAccess = true) (k : ℕ) : ∃ e',
      accessLayer eh denv (.wrTmp t e) k = .wrTmp (t + k * denv.tmpOffset) e' ∧
      (IRStmt.wrTmp (t + k * denv.tmpOffset) e').isRegAccess = true ∧
      ∀ (I : Interp B) (s s' : State B T), (IRStmt.wrTmp (t + k * denv.tmpOffset) e').regSize I s'
        = (IRStmt.wrTmp t e).regSize I s := by
  cases k with
  | zero =>
    rw [Nat.zero_mul, Nat.add_zero]
    cases e with
    | get offset ty => exact ⟨_, rfl, rfl, fun _ _ _ => rfl⟩
    | getI descr ix bias => exact ⟨_, rfl, h, fun _ _ _ => rfl⟩
    | _ => cases h
  | succ k =>
    cases e with
    | get offset ty => exact ⟨_, rfl, rfl, fun _ _ _ => rfl⟩
    | getI descr ix bias => exact ⟨_, rfl, h, fun _ _ _ => rfl⟩
    | _ => cases h

theorem evalExpr_regRead {t : IRTemp} {e : IRExpr} (h : (IRStmt.wrTmp t e).isRegAccess = true)
    (I : Interp B) (s : State B T) : evalExpr I s e
      = readReg s.reg ((IRStmt.wrTmp t e).regOffset I s) ((IRStmt.wrTmp t e).regSize I s) := by
  cases e with
  | get offset ty =>
    rw [evalExpr]
    rfl
  | getI descr ix bias =>
    rw [evalExpr]
    rfl
  | _ => cases h

/-- **Reads of registers** read all layers in the same manner. -/
theorem execStmts_regRead (M : Machine B T) {t : IRTemp} {e : IRExpr}
    (h : (IRStmt.wrTmp t e).RegAccess tyenv g w) (s : State B T) (env : List IRType)
    (r : ℕ → B) : ∃ s', execStmts M env
        (accessLayers o.expressionhandling ⟨tyenv.length, g, w⟩ (.wrTmp t e))
        { s with reg := r } = (s', none) ∧ s'.reg = r ∧
      ∀ k ≤ o.expressionhandling.layers, s'.tmp (t + k * tyenv.length)
        = readReg r ((IRStmt.wrTmp t e).regOffset M.toInterp s + k * g)
          ((IRStmt.wrTmp t e).regSize M.toInterp s) := by
  set L := o.expressionhandling.layers with hL
  set offset := (IRStmt.wrTmp t e).regOffset M.toInterp s with hoffset
  set size := (IRStmt.wrTmp t e).regSize M.toInterp s with hsize
  have ht : t < tyenv.length := by
    have hfits := h.inBounds
    simp only [IRStmt.inBounds, Bool.and_eq_true, decide_eq_true_eq] at hfits
    exact hfits.1
  choose e' hlayer hflat hsizes using
    accessLayer_read (B := B) (T := T) o.expressionhandling ⟨tyenv.length, g, w⟩ h.flat
  -- the values that are read do not depend on the temporaries that are assigned
  have hread : ∀ k ≤ L, ∀ s' : State B T, s'.reg = r → (∀ t < tyenv.length, s'.tmp t = s.tmp t) →
      evalExpr M.toInterp s' (e' k) = readReg r (offset + k * g) size := by
    intro k hk s' hreg htmp
    rw [evalExpr_regRead (hflat k), hsizes k _ s, ← hlayer k, regOffset_accessLayer _ _ _ h k,
      regOffset_congr h htmp, hreg]
  set f : ℕ → IRTemp := fun k => t + (k + 1) * tyenv.length with hf
  set v : ℕ → List B := fun k => readReg r (offset + (k + 1) * g) size with hv
  have hfresh : ∀ {k t'}, t' < tyenv.length → t' ≠ f k := by
    intro k t' ht'
    have hle : tyenv.length ≤ (k + 1) * tyenv.length := Nat.le_mul_of_pos_left _ (Nat.succ_pos k)
    show t' ≠ t + (k + 1) * tyenv.length
    omega
  have hinj : Function.Injective f := by
    intro j k hjk
    have hmul : (j + 1) * tyenv.length = (k + 1) * tyenv.length := Nat.add_left_cancel hjk
    exact Nat.succ.inj (Nat.eq_of_mul_eq_mul_right (Nat.zero_lt_of_lt ht) hmul)
  have hafter : ∀ m, (({ s with reg := r } : State B T).setTmps f v m).reg = r ∧
      ∀ t < tyenv.length, (({ s with reg := r } : State B T).setTmps f v m).tmp t = s.tmp t := by
    intro m
    refine ⟨?_, fun t' ht' => State.setTmps_tmp_of_ne _ v fun k _ => hfresh ht'⟩
    obtain ⟨tmp, htmp⟩ := ({ s with reg := r } : State B T).setTmps_eq f v m
    rw [htmp]
  have hshadows : execStmts M env ((List.range L).map fun k => .wrTmp (f k) (e' (k + 1)))
      { s with reg := r } = (({ s with reg := r } : State B T).setTmps f v L, none) :=
    execStmts_wrTmps M env fun k hk => hread (k + 1) hk _ (hafter k).1 (hafter k).2
  have hrun : execStmts M env
      (accessLayers o.expressionhandling ⟨tyenv.length, g, w⟩ (.wrTmp t e)) { s with reg := r }
      = ((({ s with reg := r } : State B T).setTmps f v L).setTmp t
        (evalExpr M.toInterp (({ s with reg := r } : State B T).setTmps f v L) e), none) := by
    rw [accessLayers, execStmts_append]
    simp only [hlayer]
    rw [hshadows]
    rfl
  refine ⟨_, hrun, (hafter L).1, fun k hk => ?_⟩
  cases k with
  | zero =>
    have hvalue := hread 0 hk _ (hafter L).1 (hafter L).2
    obtain ⟨-, rfl⟩ := IRStmt.wrTmp.inj (hlayer 0)
    rw [Nat.zero_mul, Nat.add_zero, hvalue]
    exact Function.update_self _ _ _
  | succ k =>
    show (State.setTmp _ t _).tmp (f k) = v k
    exact (Function.update_of_ne (hfresh ht).symm _ _).trans (State.setTmps_tmp _ hinj v hk)

end Run

/-! ### Runs -/

/-- Where a byte of a layer comes from. -/
inductive RegSource
  /-- It has not been written since the beginning; its offset is `o`. -/
  | initial (o : ℕ)
  /-- It is the `j`-th byte that the `n`-th access has written; both are counted from zero. -/
  | written (n j : ℕ)
  deriving DecidableEq, Repr

/-- An access in a run.  It is executed in the given state, except that registers are what
previous accesses have left. -/
structure RegEvent (B T : Type) where
  state : State B T
  stmt : IRStmt

/-- The access is one of the client, in a state whose temporaries have values of the right
sizes. -/
structure RegEvent.Valid (o : Options) (tyenv : List IRType) (g : ℕ) (w : IRType)
    (e : RegEvent B T) : Prop where
  access : e.stmt.RegAccess tyenv g w
  typed : e.state.Typed (shadowedTyenv o.expressionhandling.layers tyenv)

/-- The original access, the `n`-th one, determines where the bytes come from that it writes. -/
def RegEvent.label (I : Interp B) (e : RegEvent B T) (n : ℕ) (f : ℕ → RegSource) :
    ℕ → RegSource :=
  match e.stmt.regData? with
  | some _ => writeReg f (e.stmt.regOffset I e.state)
      ((List.range (e.stmt.regSize I e.state)).map (.written n))
  | none => f

/-- Where the bytes of the guest state come from after further accesses. -/
def regSourcesFrom (I : Interp B) : ℕ → List (RegEvent B T) → (ℕ → RegSource) → ℕ → RegSource
  | _, [], f => f
  | n, e :: es, f => regSourcesFrom I (n + 1) es (e.label I n f)

/-- Where the bytes of the guest state come from after the original accesses. -/
def regSources (I : Interp B) (es : List (RegEvent B T)) : ℕ → RegSource :=
  regSourcesFrom I 0 es .initial

/-- The contents of a byte in a layer, given where the byte comes from: a byte of the layer at the
beginning, or a byte that the access to the layer has written. -/
def regContent (eh : ExpressionHandling) (denv : DiffEnv) (I : Interp B) (es : List (RegEvent B T))
    (r : ℕ → B) (k : ℕ) : RegSource → B
  | .initial o => r (o + k * denv.gsOffset)
  | .written n j =>
      match es[n]? with
      | some e => ((accessLayer eh denv e.stmt k).regData I e.state).getD j I.zero
      | none => I.zero

/-- The guest state and its shadow after a run of instrumented accesses. -/
def runRegs (M : Machine B T) (eh : ExpressionHandling) (denv : DiffEnv) (env : List IRType) :
    List (RegEvent B T) → (ℕ → B) → Option (ℕ → B)
  | [], r => some r
  | e :: es, r => do
      let (_, _, sts) ← dgInstrumentStmt eh denv e.stmt env
      runRegs M eh denv env es (execStmts M env sts { e.state with reg := r }).1.reg

section Runs

variable {M : Machine B T} {F : FpSem B} {o : Options} {tyenv : List IRType} {g : ℕ} {w : IRType}
  {e : RegEvent B T}

/-- The bytes of all layers are those that belong to the sources of the original bytes. -/
def Translated (M : Machine B T) (o : Options) (denv : DiffEnv) (es : List (RegEvent B T))
    (r₀ : ℕ → B) (f : ℕ → RegSource) (r : ℕ → B) : Prop :=
  ∀ k ≤ o.expressionhandling.layers, ∀ b < denv.gsOffset, r (b + k * denv.gsOffset)
    = regContent o.expressionhandling denv M.toInterp es r₀ k (f b)

/-- The bytes that an access writes to a layer are the contents that belong to their labels. -/
theorem map_regContent_written (eh : ExpressionHandling) (denv : DiffEnv) (I : Interp B)
    {es : List (RegEvent B T)} {n : ℕ} (hn : es[n]? = some e) (r : ℕ → B) (k : ℕ) :
    ((List.range ((accessLayer eh denv e.stmt k).regData I e.state).length).map
        (RegSource.written n)).map (regContent eh denv I es r k)
      = (accessLayer eh denv e.stmt k).regData I e.state := by
  rw [List.map_map]
  refine List.ext_getElem (by simp) fun j hj hj' => ?_
  simp [regContent, hn, hj', List.getD_eq_getElem?_getD]

/-- An access. -/
theorem Translated.step (hI : M.toInterp.IsVex F) (he : e.Valid o tyenv g w)
    {es : List (RegEvent B T)} {n : ℕ} (hn : es[n]? = some e) {r₀ r : ℕ → B} {f : ℕ → RegSource}
    (h : Translated M o ⟨tyenv.length, g, w⟩ es r₀ f r) (env : List IRType) :
    Translated M o ⟨tyenv.length, g, w⟩ es r₀ (e.label M.toInterp n f)
      (execStmts M env (accessLayers o.expressionhandling ⟨tyenv.length, g, w⟩ e.stmt)
        { e.state with reg := r }).1.reg := by
  cases hdata : e.stmt.regData? with
  | some data =>
    obtain ⟨r', hrun, hr'⟩ := execStmts_regWrite hI he.access hdata he.typed env r
    have hlabel : e.label M.toInterp n f = writeReg f (e.stmt.regOffset M.toInterp e.state)
        ((List.range (e.stmt.regSize M.toInterp e.state)).map (.written n)) := by
      rw [RegEvent.label, hdata]
    intro k hk b hb
    rw [hrun, hlabel,
      apply_writeReg (regContent o.expressionhandling ⟨tyenv.length, g, w⟩ M.toInterp es r₀ k),
      ← length_regData_accessLayer (o := o) hI he.access hdata he.typed hk,
      map_regContent_written _ _ _ hn]
    exact (hr' k hk b hb).trans (writeReg_congr _ _ (h k hk b hb))
  | none =>
    have hlabel : e.label M.toInterp n f = f := by
      rw [RegEvent.label, hdata]
    obtain ⟨t, e', hst⟩ : ∃ t e', e.stmt = .wrTmp t e' := by
      have hflat := he.access.flat
      cases hst : e.stmt with
      | wrTmp t e' => exact ⟨t, e', rfl⟩
      | put offset data => rw [hst] at hdata; cases hdata
      | putI descr ix bias data => rw [hst] at hdata; cases hdata
      | _ => rw [hst] at hflat; cases hflat
    obtain ⟨s', hrun, hreg, -⟩ := execStmts_regRead (o := o) M (hst ▸ he.access) e.state env r
    rw [hlabel, hst, hrun, hreg]
    exact h

/-- Runs of accesses. -/
theorem runRegs_translated (hI : M.toInterp.IsVex F) (env : List IRType)
    (all : List (RegEvent B T)) (r₀ : ℕ → B) : ∀ (es : List (RegEvent B T)) (n : ℕ),
    all.drop n = es → (∀ e ∈ es, e.Valid o tyenv g w) → ∀ {f : ℕ → RegSource} {r : ℕ → B},
    Translated M o ⟨tyenv.length, g, w⟩ all r₀ f r →
    ∃ r', runRegs M o.expressionhandling ⟨tyenv.length, g, w⟩ env es r = some r' ∧
      Translated M o ⟨tyenv.length, g, w⟩ all r₀ (regSourcesFrom M.toInterp n es f) r' := by
  intro es
  induction es with
  | nil => exact fun n _ _ f r h => ⟨r, rfl, h⟩
  | cons e es ih =>
    intro n hdrop hes f r h
    have he := hes e List.mem_cons_self
    have hn : all[n]? = some e := by
      rw [← List.head?_drop, hdrop]
      rfl
    have hrest : all.drop (n + 1) = es := by
      rw [← List.tail_drop, hdrop]
      rfl
    obtain ⟨r', hrun, hr'⟩ := ih (n + 1) hrest (fun e he => hes e (List.mem_cons_of_mem _ he))
      (h.step hI he hn env)
    refine ⟨r', ?_, hr'⟩
    rw [runRegs, dgInstrumentStmt_regAccess _ _ he.access.flat]
    exact hrun

end Runs

/-- **Shadow registers are an exact translate of the guest registers.**  The accesses that are
inserted for a layer of the shadow are displaced by a multiple of the size of the guest state,
accesses to different layers have no byte in common, and after any run of accesses, reads of a
layer see the writes to the layer that belong to the writes which the original reads see. -/
theorem shadowRegs_translate (M : Machine B T) (F : FpSem B) (hI : M.toInterp.IsVex F) (o : Options)
    (tyenv : List IRType) (g : ℕ) (w : IRType) (env : List IRType) :
    (∀ e : RegEvent B T, e.Valid o tyenv g w → ∃ shadows : List IRStmt,
      dgInstrumentStmt o.expressionhandling ⟨tyenv.length, g, w⟩ e.stmt env
        = some ((), [], shadows ++ [e.stmt]) ∧
      shadows.map (IRStmt.regBytes M.toInterp e.state)
        = (List.range o.expressionhandling.layers).map fun k =>
          (e.stmt.regBytes M.toInterp e.state).map (· + (k + 1) * g)) ∧
    (∀ e e' : RegEvent B T, e.Valid o tyenv g w → e'.Valid o tyenv g w → ∀ k k', k ≠ k' →
      List.Disjoint ((e.stmt.regBytes M.toInterp e.state).map (· + k * g))
        ((e'.stmt.regBytes M.toInterp e'.state).map (· + k' * g))) ∧
    (∀ es : List (RegEvent B T), (∀ e ∈ es, e.Valid o tyenv g w) → ∀ r : ℕ → B, ∃ r',
      runRegs M o.expressionhandling ⟨tyenv.length, g, w⟩ env es r = some r' ∧
      ∀ (e : RegEvent B T) (t : IRTemp) (data : IRExpr), e.Valid o tyenv g w →
        e.stmt = .wrTmp t data → ∃ sts,
          dgInstrumentStmt o.expressionhandling ⟨tyenv.length, g, w⟩ e.stmt env
            = some ((), [], sts) ∧
          ∀ k ≤ o.expressionhandling.layers,
            (execStmts M env sts { e.state with reg := r' }).1.tmp (t + k * tyenv.length)
              = (e.stmt.regBytes M.toInterp e.state).map fun b =>
                regContent o.expressionhandling ⟨tyenv.length, g, w⟩ M.toInterp es r k
                  (regSources M.toInterp es b)) := by
  refine ⟨?_, ?_, ?_⟩
  · intro e he
    refine ⟨_, dgInstrumentStmt_regAccess _ _ he.access.flat env, ?_⟩
    rw [List.map_map]
    refine List.map_congr_left fun k hk => ?_
    exact regBytes_accessLayer hI o he.access he.typed (List.mem_range.mp hk)
  · intro e e' he he' k k' hk c hc hc'
    obtain ⟨b, hb, rfl⟩ := List.mem_map.mp hc
    obtain ⟨b', hb', hbb'⟩ := List.mem_map.mp hc'
    have hlt := lt_of_mem_regBytes hI he.access he.typed b hb
    have hlt' := lt_of_mem_regBytes hI he'.access he'.typed b' hb'
    -- The layer of a byte is its offset divided by the size of the guest state.
    have hdiv : ∀ {b j}, b < g → (b + j * g) / g = j := by
      intro b j hb
      rw [Nat.add_mul_div_right _ _ (Nat.zero_lt_of_lt hb), Nat.div_eq_of_lt hb, Nat.zero_add]
    exact hk ((hdiv hlt).symm.trans ((congrArg (· / g) hbb').symm.trans (hdiv hlt')))
  · intro es hes r
    obtain ⟨r', hrun, hr'⟩ := runRegs_translated hI env es r es 0 rfl hes (f := .initial)
      (r := r) fun k _ b _ => rfl
    refine ⟨r', hrun, fun e t data he hst => ?_⟩
    obtain ⟨s', hrun', -, htmp⟩ := execStmts_regRead (o := o) M (hst ▸ he.access) e.state env r'
    have hle := regOffset_add_regSize_le hI he.access he.typed
    refine ⟨_, dgInstrumentStmt_regAccess _ _ he.access.flat env, fun k hk => ?_⟩
    rw [hst] at hle ⊢
    rw [hrun', htmp k hk, IRStmt.regBytes, List.range'_eq_map_range, List.map_map]
    refine List.map_congr_left fun j hj => ?_
    have hj := List.mem_range.mp hj
    rw [Nat.add_right_comm]
    exact hr' k hk _ (by show _ + j < g; omega)

/-! ### A stack of registers -/

section Stack

theorem State.typed_of_lt {env : List IRType} {s : State B T}
    (h : ∀ t (ht : t < env.length), (s.tmp t).length = sizeofIRType env[t]) : s.Typed env := by
  intro t ty hty
  obtain ⟨ht, rfl⟩ := List.getElem?_eq_some_iff.mp hty
  exact h t ht

/-- Eight registers, and the position of one of them in a temporary. -/
def stackTyenv : List IRType := [.i32, .f64, .f64]

/-- A machine with a guest state of 64 bytes. -/
def stackHost : Machine Byte Unit := Machine.idle (hostInterp FpSem.zeros Interp.silent) 64

/-- Recording mode. -/
def stackOptions : Options := ⟨.b, false, false⟩

/-- The position is three; the bytes of the data are one, and those of its shadows two and three. -/
def stackState : State Byte Unit :=
  State.ofTmps () [[3, 0, 0, 0], List.replicate 8 1, List.replicate 8 0,
    List.replicate 4 0, List.replicate 8 2, List.replicate 8 0,
    List.replicate 4 0, List.replicate 8 3, List.replicate 8 0]

/-- Write to the register four positions in front, around the end of the array. -/
def stackPush : RegEvent Byte Unit := ⟨stackState, .putI ⟨0, .f64, 8⟩ (.rdTmp 0) (-4) (.rdTmp 1)⟩

/-- Read the last register by its offset. -/
def stackTop : RegEvent Byte Unit := ⟨stackState, .wrTmp 2 (.get 56 .f64)⟩

/-- The second layer of the shadow of the register that has been pushed is read. -/
theorem shadowRegs_translate_stack : ∃ r',
    runRegs stackHost stackOptions.expressionhandling ⟨3, 64, .i64⟩ [] [stackPush] (fun _ => 0)
      = some r' ∧
    ∃ sts, dgInstrumentStmt stackOptions.expressionhandling ⟨3, 64, .i64⟩ stackTop.stmt []
        = some ((), [], sts) ∧
      (execStmts stackHost [] sts { stackState with reg := r' }).1.tmp (2 + 2 * 3)
        = List.replicate 8 3 := by
  have htyped : stackState.Typed (shadowedTyenv stackOptions.expressionhandling.layers stackTyenv) :=
    State.typed_of_lt (by decide)
  have hpush : stackPush.Valid stackOptions stackTyenv 64 .i64 :=
    ⟨⟨by decide, by decide, by decide, by decide⟩, htyped⟩
  have htop : stackTop.Valid stackOptions stackTyenv 64 .i64 :=
    ⟨⟨by decide, by decide, by decide, by decide⟩, htyped⟩
  obtain ⟨-, -, hruns⟩ := shadowRegs_translate stackHost FpSem.zeros.host
    (isVex_hostInterp FpSem.zeros Interp.silent) stackOptions stackTyenv 64 .i64 []
  obtain ⟨r', hrun, hreads⟩ := hruns [stackPush] (by simpa using hpush) fun _ => 0
  obtain ⟨sts, hsts, htmp⟩ := hreads stackTop 2 _ htop rfl
  exact ⟨r', hrun, sts, hsts, (htmp 2 (by decide)).trans (by decide +kernel)⟩

end Stack

end Derivgrind
