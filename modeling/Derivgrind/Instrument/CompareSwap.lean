import Derivgrind.Instrument.SwapParts

/-!
# Compare-and-swap

The new data of a compare-and-swap statement are only stored if, in addition to the
expected values, their shadows agree with shadow memory.  A client that compares the
previous contents with the expected values therefore believes that the swap succeeded
when it did not.

## Main definitions

* `IsCompareAndSwap` — what the statement should do.
* `NothingToSwap` — storing the new data would change nothing.

## Main results

* `wp_instrumentCAS` — what the emitted code does.
* `isCompareAndSwap_iff` — **when the emitted code is a compare-and-swap.**
-/

namespace Derivgrind

open Emitter.Meaning

variable {T : Type}

/-! ### Statements that pass the check -/

section Checked

variable {tyenv env : List IRType} {wordTy ty : IRType} {olds : List IRTemp} {e : IRExpr}
  {d : IRCAS}

/-- An atom of the statement. -/
structure CheckedAtom (tyenv : List IRType) (olds : List IRTemp) (ty : IRType) (e : IRExpr) :
    Prop where
  atom : e.isAtom = true
  fits : e.inBounds tyenv.length 0 = true
  type : typeOfIRExpr tyenv e = some ty
  apart : ∀ u ∈ olds, u ∉ e.reads

/-- An element of the statement. -/
structure CheckedElement (tyenv : List IRType) (olds : List IRTemp) (ty : IRType) (old : IRTemp)
    (expd data : IRExpr) : Prop where
  expd : CheckedAtom tyenv olds ty expd
  data : CheckedAtom tyenv olds ty data
  old_lt : old < tyenv.length
  old_mem : old ∈ olds

theorem cmpOfType?_of_mem_casTypes (h : ty ∈ casTypes wordTy) :
    ∃ cmp, cmpOfType? ty = some cmp := by
  have hmem : ty ∈ [IRType.i8, .i16, .i32, .i64] := by
    unfold casTypes at h
    by_cases hword : wordTy = .i64
    · rwa [if_pos hword] at h
    · rw [if_neg hword] at h
      exact List.mem_append_left [IRType.i64] h
  simp only [List.mem_cons, List.not_mem_nil, or_false] at hmem
  rcases hmem with rfl | rfl | rfl | rfl <;> exact ⟨_, rfl⟩

/-- Everything that is known about a statement that passes the check. -/
theorem IRCAS.Valid.inv (h : d.Valid tyenv wordTy) : ∃ ty cmp, cmpOfType? ty = some cmp ∧
    CheckedAtom tyenv (IRStmt.cas d).defs wordTy d.addr ∧
    CheckedElement tyenv (IRStmt.cas d).defs ty d.oldLo d.expdLo d.dataLo ∧
    ((d.oldHi = none ∧ d.expdHi = none ∧ d.dataHi = none) ∨ ∃ oldHi expdHi dataHi,
      d.oldHi = some oldHi ∧ d.expdHi = some expdHi ∧ d.dataHi = some dataHi ∧
      CheckedElement tyenv (IRStmt.cas d).defs ty oldHi expdHi dataHi) := by
  obtain ⟨assigned, hcheck⟩ := h.checked
  obtain ⟨assigned', hcheck⟩ := Option.isSome_iff_exists.mp hcheck
  obtain ⟨htc, hreads, hdefs, -, -⟩ := checkStmt_eq_some hcheck
  have hfits := h.inBounds
  have hflat := h.flat
  -- All operands are read before the previous contents are assigned.
  have hapart : ∀ e ∈ (IRStmt.cas d).exprs, ∀ u ∈ (IRStmt.cas d).defs, u ∉ e.reads :=
    fun e he u hu hread => hdefs u hu (hreads u (IRExpr.mem_allReads he u hread))
  simp only [tcStmt, Bool.and_eq_true, List.any_eq_true] at htc
  obtain ⟨haddr, ty, hty, hLo, hHi⟩ := htc
  obtain ⟨cmp, hcmp⟩ := cmpOfType?_of_mem_casTypes hty
  simp only [IRStmt.inBounds, Bool.and_eq_true, decide_eq_true_eq] at hfits
  simp only [IRCAS.isFlat, Bool.and_eq_true] at hflat
  simp only [tcCAS, hasTy, Bool.and_eq_true, decide_eq_true_eq] at haddr hLo
  refine ⟨ty, cmp, hcmp, ?_, ?_, ?_⟩
  · exact ⟨hflat.1.1.1.1, hfits.1.1.1.1.2, haddr.2, hapart _ (by simp [IRStmt.exprs])⟩
  · exact ⟨⟨hflat.1.1.1.2, hfits.1.1.1.2, hLo.1.2.2, hapart _ (by simp [IRStmt.exprs])⟩,
      ⟨hflat.1.1.2, hfits.1.1.2, hLo.2.2, hapart _ (by simp [IRStmt.exprs])⟩,
      hfits.1.1.1.1.1.1, by simp [IRStmt.defs]⟩
  -- The parts of the second element are all there, or none of them is.
  · obtain ⟨oldHi, oldLo, endness, addr, expdHi, expdLo, dataHi, dataLo⟩ := d
    cases oldHi with
    | none =>
      cases expdHi with
      | none =>
        cases dataHi with
        | none => exact Or.inl ⟨rfl, rfl, rfl⟩
        | some dataHi => cases hHi
      | some expdHi => cases hHi
    | some oldHi =>
      cases expdHi with
      | none => cases hHi
      | some expdHi =>
        cases dataHi with
        | none => cases hHi
        | some dataHi =>
          simp only [tcCAS, hasTy, Bool.and_eq_true, decide_eq_true_eq] at hHi
          refine Or.inr ⟨oldHi, expdHi, dataHi, rfl, rfl, rfl, ?_⟩
          exact ⟨⟨hflat.1.2, hfits.1.2, hHi.1.2.2, hapart _ (by simp [IRStmt.exprs])⟩,
            ⟨hflat.2, hfits.2, hHi.2.2, hapart _ (by simp [IRStmt.exprs])⟩,
            by simpa using hfits.1.1.1.1.1.2, by simp [IRStmt.defs]⟩

/-- The temporaries for the shadows of the previous contents. -/
def oldShadows (L n : ℕ) (olds : List IRTemp) : Set IRTemp :=
  {t | ∃ u ∈ olds, ∃ k < L, t = u + (k + 1) * n}

theorem oldShadows_spec {L : ℕ} (h : ∀ u ∈ olds, u < tyenv.length) :
    OldShadows L tyenv (oldShadows L tyenv.length olds) := by
  constructor
  · rintro t ⟨u, hu, k, hk, rfl⟩
    have hle : tyenv.length ≤ (k + 1) * tyenv.length := Nat.le_mul_of_pos_left _ (Nat.succ_pos k)
    exact hle.trans (Nat.le_add_left _ u)
  · rintro t ⟨u, hu, k, hk, rfl⟩
    have hlookup := (getElem?_shadowedTyenv hk (h u hu)).trans (List.getElem?_eq_getElem (h u hu))
    exact (List.getElem?_eq_some_iff.mp hlookup).1

variable {I : Interp Byte} {L : ℕ} {s : State Byte T}

/-- The value of an atom of the statement. -/
theorem CheckedAtom.hasValue (h : CheckedAtom tyenv olds ty e) (hI : I.IntegerOps)
    (henv : shadowedTyenv L tyenv <+: env) (hs : s.Typed env) :
    HasValue I env s e ty (evalExpr I s e) := by
  have hn := length_le_of_declared henv
  have htype : typeOfIRExpr env e = some ty := by
    obtain ⟨tys, rfl⟩ := henv
    rw [shadowedTyenv, List.append_assoc]
    exact typeOfIRExpr_append _ e h.type
  refine ⟨e.inBounds_mono hn h.fits, htype, rfl, ?_⟩
  cases e with
  | rdTmp t => exact hs t ty htype
  | const con =>
    have hcon : con.isBufferAddr = false := by simpa [IRExpr.inBounds] using h.fits
    obtain rfl : typeOfIRConst con = ty := Option.some_inj.mp htype
    rw [evalExpr, hI.const con hcon]
    exact (isVex_hostInterp FpSem.zeros Interp.silent).length_const con hcon
  | _ => cases h.atom

/-- The value and the shadow of an atom of the statement. -/
theorem CheckedAtom.atomValue (h : CheckedAtom tyenv olds ty e) (hI : I.IntegerOps)
    (henv : shadowedTyenv L tyenv <+: env) (hs : s.Typed env)
    (holds : ∀ u ∈ olds, u < tyenv.length) :
    AtomValue I L tyenv (oldShadows L tyenv.length olds) env s e ty (evalExpr I s e)
      (shadowOfAtom I tyenv.length s e) := by
  have hvalue := h.hasValue hI henv hs
  refine ⟨henv, h.atom, h.fits, h.type, hvalue, fun _ _ => rfl, ?_, ?_⟩
  · intro k hk
    cases e with
    | rdTmp t =>
      have ht : t < tyenv.length := by simpa [IRExpr.inBounds] using h.fits
      have hlookup := (getElem?_shadowedTyenv hk ht).trans h.type
      exact hs _ ty (getElem?_of_prefixed henv hlookup)
    | const con => exact List.length_replicate.trans hvalue.length
    | _ => cases h.atom
  · rintro t ht k ⟨u, hu, j, hj, heq⟩
    cases e with
    | rdTmp t' =>
      obtain rfl : t = t' := List.mem_singleton.mp ht
      have hlt : t < tyenv.length := by simpa [IRExpr.inBounds] using h.fits
      -- temporaries with the same shadow are the same
      have hmod := congrArg (· % tyenv.length) heq
      simp only [Nat.add_mul_mod_self_right, Nat.mod_eq_of_lt hlt,
        Nat.mod_eq_of_lt (holds u hu)] at hmod
      rw [hmod] at ht
      exact h.apart u hu (by rw [hmod]; exact List.mem_singleton_self u)
    | const con => cases ht
    | _ => cases h.atom

/-- The values of an element of the statement. -/
theorem CheckedElement.casElement {old : IRTemp} {expd data addr : IRExpr} {va : List Byte}
    (h : CheckedElement tyenv olds ty old expd data) (hI : I.IntegerOps)
    (henv : shadowedTyenv L tyenv <+: env) (hs : s.Typed env)
    (holds : ∀ u ∈ olds, u < tyenv.length) (hfits : addr.inBounds tyenv.length 0 = true)
    (haddr : HasValue I env s addr wordTy va) :
    CASElement I L tyenv (oldShadows L tyenv.length olds) wordTy ty env s addr old expd data va
      (evalExpr I s expd) (evalExpr I s data) (shadowOfAtom I tyenv.length s expd)
      (shadowOfAtom I tyenv.length s data) :=
  ⟨hfits, haddr, h.expd.atomValue hI henv hs holds, h.data.atomValue hI henv hs holds, h.old_lt,
    fun k hk => ⟨old, h.old_mem, k, hk, rfl⟩⟩

end Checked

/-! ### The emitted code as a whole -/

section Whole

variable {M : Machine Byte T} {o : Options} {Shadows : T → (ℕ → Addr → Byte) → Prop}
  {tyenv env : List IRType} {s : State Byte T} {mem : ℕ → Addr → Byte} {denv : DiffEnv}
  {wordTy ty : IRType} {cmp : IROp} {d : IRCAS}

/-- What the emitted code does: data are swapped if both conditions hold. -/
structure CASOutcome (M : Machine Byte T) (Shadows : T → (ℕ → Addr → Byte) → Prop) (n L : ℕ)
    (d : IRCAS) (s : State Byte T) (mem : ℕ → Addr → Byte) (s' : State Byte T) : Prop where
  reg : s'.reg = s.reg
  tmp : ∀ t < n, s'.tmp t = (execCAS M.toInterp d s).tmp t
  swaps : ∃ b : Bool,
    (b = true ↔ ValuesAgree M.toInterp s d ∧ ShadowsAgree M.toInterp n s d L mem) ∧
    s'.mem = (if b then swapped M.toInterp s d else s.mem) ∧
    Shadows s'.tool fun k => if b then shadowSwapped M.toInterp n s d mem k else mem k

theorem wp_addressesOfCAS {next : IRExpr} (hty : typeOfIRExpr env d.expdLo = some ty)
    (haddr : typeOfIRExpr env d.addr = some wordTy)
    (hnext : addToAddr? wordTy d.addr (sizeofIRType ty) = some next)
    {Q : IRExpr × Option IRExpr → List IRType → State Byte T → Prop}
    (h : Q (match d.expdHi, d.endness with
      | none, _ => (d.addr, none)
      | some _, .le => (d.addr, some next)
      | some _, .be => (next, some d.addr)) env s) :
    (execMeaning M).wp (addressesOfCAS d) env s Q := by
  apply wp_bind
  apply wp_typeOf hty
  apply wp_bind
  apply wp_typeOf haddr
  apply wp_bind
  rw [hnext]
  apply wp_ofOption
  exact wp_pure h

theorem setTmp_tmp_congr {s₁ : State Byte T} {t u : IRTemp} (v : List Byte)
    (h : s₁.tmp t = s.tmp t) : (s₁.setTmp u v).tmp t = (s.setTmp u v).tmp t := by
  by_cases htu : t = u
  · rw [htu]
    show Function.update s₁.tmp u v u = Function.update s.tmp u v u
    rw [Function.update_self, Function.update_self]
  · exact ((Function.update_of_ne htu _ _).trans h).trans (Function.update_of_ne htu _ _).symm

/-- The client's temporaries are not changed in front of the statement. -/
theorem ExtendsBut.tmp_of_lt {L : ℕ} {X : Set IRTemp} {env' : List IRType} {s' : State Byte T}
    (h : ExtendsBut X env s env' s') (hX : OldShadows L tyenv X)
    (henv : shadowedTyenv L tyenv <+: env) {t : ℕ} (ht : t < tyenv.length) :
    s'.tmp t = s.tmp t :=
  h.tmp t (ht.trans_le (length_le_of_declared henv)) fun htX =>
    Nat.not_lt_of_le (hX.le t htX) ht

/-- The temporaries after a compare-and-swap of one element. -/
theorem execCAS_single_tmp {I : Interp Byte} {oldLo : IRTemp} {endness : IREndness}
    {addr expdLo dataLo : IRExpr} :
    (execCAS I ⟨none, oldLo, endness, addr, none, expdLo, none, dataLo⟩ s).tmp
      = (s.setTmp oldLo (endness.order (readMem s.mem (I.addr (evalExpr I s addr))
        (evalExpr I s expdLo).length))).tmp := by
  unfold execCAS
  simp only
  split
  · rfl
  · rfl

theorem wp_instrumentSingle (hI : M.toInterp.IntegerOps)
    (hM : M.ShadowCalls o.expressionhandling Shadows) (hmem : Shadows s.tool mem)
    (hn : denv.tmpOffset = tyenv.length) (hcmp : cmpOfType? ty = some cmp)
    (henv : shadowedTyenv o.expressionhandling.layers tyenv <+: env) (hs : s.Typed env)
    {oldLo : IRTemp} {endness : IREndness} {addr expdLo dataLo next : IRExpr}
    (hd : d = ⟨none, oldLo, endness, addr, none, expdLo, none, dataLo⟩)
    (holds : ∀ u ∈ (IRStmt.cas d).defs, u < tyenv.length)
    (haddr : CheckedAtom tyenv (IRStmt.cas d).defs wordTy addr)
    (hLo : CheckedElement tyenv (IRStmt.cas d).defs ty oldLo expdLo dataLo)
    (hnext : addToAddr? wordTy addr (sizeofIRType ty) = some next) :
    (execMeaning M).wp (dgInstrumentStmt o.expressionhandling denv (.cas d)) env s fun _ _ s' =>
      CASOutcome M Shadows tyenv.length o.expressionhandling.layers d s mem s' := by
  have hX := oldShadows_spec (L := o.expressionhandling.layers) holds
  have hva := haddr.hasValue hI henv hs
  have helem := hLo.casElement hI henv hs holds haddr.fits hva
  have hsize : (evalExpr M.toInterp s expdLo).length = sizeofIRType ty := helem.expd.value.length
  have hhalves : d.halves M.toInterp s
      = [⟨bitsOf 64 (evalExpr M.toInterp s addr), expdLo, dataLo⟩] := by
    rw [← hI.addr, hd]
    rfl
  subst hd
  apply wp_bind
  apply wp_bind
  -- the inserted code
  apply wp_bind
  apply wp_typeOf helem.expd.value.type
  apply wp_bind
  refine wp_addressesOfCAS helem.expd.value.type hva.type hnext ?_
  refine wp_mono (wp_casSingle hI hM hmem hn hcmp hX endness helem) ?_
  rintro c env₁ s₁ ⟨b, hb, hprogress⟩
  apply wp_pure
  -- the statement
  have helem₁ := helem.mono hX hprogress.ext
  have hc : c ≠ oldLo := fun h => by
    have hle : tyenv.length ≤ c := (length_le_of_declared henv).trans hprogress.le
    exact absurd hLo.old_lt (by rw [← h]; exact Nat.not_lt_of_le hle)
  apply wp_bind
  apply wp_typeOf helem₁.expd.value.type
  apply wp_bind
  refine wp_addressesOfCAS helem₁.expd.value.type helem₁.addr.type hnext ?_
  refine wp_mono (wp_originalSingle (d := ⟨none, oldLo, endness, addr, none, expdLo, none, dataLo⟩)
    hI helem₁.addr helem₁.data.value hprogress.isTrue hc
    (ignores_atom haddr.atom (haddr.apart oldLo hLo.old_mem))
    (ignores_atom hLo.data.atom (hLo.data.apart oldLo hLo.old_mem))) ?_
  rintro _ _ s' rfl
  refine ⟨hprogress.ext.reg, fun t ht => ?_, b, ?_, ?_, ?_⟩
  · rw [execCAS_single_tmp, hI.addr, hsize, ← hprogress.ext.mem]
    exact setTmp_tmp_congr _ (hprogress.ext.tmp_of_lt hX henv ht)
  · rw [hb, ElementAgrees, ValuesAgree, ShadowsAgree, hhalves]
    simp only [List.forall_mem_singleton, hsize]
  · rw [swapped, hhalves, ← hprogress.ext.mem]
    rfl
  · have hswapped : ∀ k, shadowSwapped M.toInterp tyenv.length s
        ⟨none, oldLo, endness, addr, none, expdLo, none, dataLo⟩ mem k
        = writeMem (mem k) (bitsOf 64 (evalExpr M.toInterp s addr))
          (shadowOfAtom M.toInterp tyenv.length s dataLo k) := by
      intro k
      rw [shadowSwapped, hhalves]
      rfl
    simp only [hswapped]
    exact hprogress.shadows

/-- The temporaries after a compare-and-swap of two elements. -/
theorem execCAS_double_tmp {I : Interp Byte} {oldLo oldHi : IRTemp} {endness : IREndness}
    {addr expdLo dataLo expdHi dataHi : IRExpr} {aLo aHi : Addr}
    (hhalves : IRCAS.halves I s ⟨some oldHi, oldLo, endness, addr, some expdHi, expdLo, some dataHi,
      dataLo⟩ = [⟨aLo, expdLo, dataLo⟩, ⟨aHi, expdHi, dataHi⟩]) :
    (execCAS I ⟨some oldHi, oldLo, endness, addr, some expdHi, expdLo, some dataHi, dataLo⟩ s).tmp
      = ((s.setTmp oldLo (endness.order (readMem s.mem aLo (evalExpr I s expdLo).length))).setTmp
        oldHi (endness.order (readMem s.mem aHi (evalExpr I s expdLo).length))).tmp := by
  unfold execCAS
  cases endness with
  | le =>
    obtain ⟨rfl, rfl⟩ : I.addr (evalExpr I s addr) = aLo ∧ addrAfter _ _ _ = aHi := by
      simpa [IRCAS.halves] using hhalves
    simp only [if_true]
    split
    · rfl
    · rfl
  | be =>
    obtain ⟨rfl, rfl⟩ : addrAfter _ _ _ = aLo ∧ I.addr (evalExpr I s addr) = aHi := by
      simpa [IRCAS.halves] using hhalves
    simp only [reduceCtorEq, if_false]
    split
    · rfl
    · rfl

theorem wp_instrumentDouble (hI : M.toInterp.IntegerOps)
    (hM : M.ShadowCalls o.expressionhandling Shadows) (hmem : Shadows s.tool mem)
    (hn : denv.tmpOffset = tyenv.length) (hcmp : cmpOfType? ty = some cmp)
    (henv : shadowedTyenv o.expressionhandling.layers tyenv <+: env) (hs : s.Typed env)
    {oldLo oldHi : IRTemp} {endness : IREndness} {addr expdLo dataLo expdHi dataHi : IRExpr}
    (hd : d = ⟨some oldHi, oldLo, endness, addr, some expdHi, expdLo, some dataHi, dataLo⟩)
    (holds : ∀ u ∈ (IRStmt.cas d).defs, u < tyenv.length)
    (hLo : CheckedElement tyenv (IRStmt.cas d).defs ty oldLo expdLo dataLo)
    (hHi : CheckedElement tyenv (IRStmt.cas d).defs ty oldHi expdHi dataHi) {aLo aHi : IRExpr}
    {vaLo vaHi : List Byte} (haLo : HasValue M.toInterp env s aLo wordTy vaLo)
    (haHi : HasValue M.toInterp env s aHi wordTy vaHi)
    (hfits : ∀ a ∈ [aLo, aHi], a.inBounds tyenv.length 0 = true)
    (hignores : ∀ a ∈ [aLo, aHi], ∀ u ∈ (IRStmt.cas d).defs, Ignores M.toInterp T a u)
    (hhalves : d.halves M.toInterp s
      = [⟨bitsOf 64 vaLo, expdLo, dataLo⟩, ⟨bitsOf 64 vaHi, expdHi, dataHi⟩])
    (haddrs : ∀ {env' s' Q}, env <+: env' → Q (aLo, some aHi) env' s' →
      (execMeaning M).wp (addressesOfCAS d) env' s' Q) :
    (execMeaning M).wp (dgInstrumentStmt o.expressionhandling denv (.cas d)) env s fun _ _ s' =>
      CASOutcome M Shadows tyenv.length o.expressionhandling.layers d s mem s' := by
  have hX := oldShadows_spec (L := o.expressionhandling.layers) holds
  have helemLo := hLo.casElement hI henv hs holds (hfits aLo (by simp)) haLo
  have helemHi := hHi.casElement hI henv hs holds (hfits aHi (by simp)) haHi
  have hsize : (evalExpr M.toInterp s expdLo).length = sizeofIRType ty := helemLo.expd.value.length
  subst hd
  apply wp_bind
  apply wp_bind
  -- the inserted code
  apply wp_bind
  apply wp_typeOf helemLo.expd.value.type
  apply wp_bind
  refine haddrs (List.prefix_refl env) ?_
  refine wp_mono (wp_casDouble hI hM hmem hn hcmp hX endness helemLo helemHi) ?_
  rintro c env₁ s₁ ⟨b, hb, hprogress⟩
  apply wp_pure
  -- the statement
  have helemLo₁ := helemLo.mono hX hprogress.ext
  have helemHi₁ := helemHi.mono hX hprogress.ext
  have hc : ∀ u : ℕ, u < tyenv.length → c ≠ u := by
    rintro u hu rfl
    exact Nat.not_lt_of_le ((length_le_of_declared henv).trans hprogress.le) hu
  have hold : ∀ e ∈ [aLo, aHi, dataLo, dataHi],
      Ignores M.toInterp T e oldLo ∧ Ignores M.toInterp T e oldHi := by
    have haddr : ∀ a ∈ [aLo, aHi], Ignores M.toInterp T a oldLo ∧ Ignores M.toInterp T a oldHi :=
      fun a ha => ⟨hignores a ha _ hLo.old_mem, hignores a ha _ hHi.old_mem⟩
    have hdata : ∀ {data}, CheckedAtom tyenv _ ty data →
        Ignores M.toInterp T data oldLo ∧ Ignores M.toInterp T data oldHi := fun h =>
      ⟨ignores_atom h.atom (h.apart _ hLo.old_mem), ignores_atom h.atom (h.apart _ hHi.old_mem)⟩
    simp only [List.forall_mem_cons] at haddr ⊢
    exact ⟨haddr.1, haddr.2.1, hdata hLo.data, hdata hHi.data, by simp⟩
  apply wp_bind
  apply wp_typeOf helemLo₁.expd.value.type
  apply wp_bind
  refine haddrs hprogress.ext.tyenv ?_
  refine wp_mono (wp_originalDouble (d := ⟨some oldHi, oldLo, endness, addr, some expdHi, expdLo,
    some dataHi, dataLo⟩) hI helemLo₁.addr helemHi₁.addr helemLo₁.data.value helemHi₁.data.value
    hprogress.isTrue (hc _ hLo.old_lt) (hc _ hHi.old_lt) hold) ?_
  rintro _ _ s' rfl
  refine ⟨hprogress.ext.reg, fun t ht => ?_, b, ?_, ?_, ?_⟩
  · rw [execCAS_double_tmp hhalves, hsize, ← hprogress.ext.mem]
    exact setTmp_tmp_congr _ (setTmp_tmp_congr _ (hprogress.ext.tmp_of_lt hX henv ht))
  · rw [hb, ElementAgrees, ElementAgrees, ValuesAgree, ShadowsAgree, hhalves]
    simp only [List.forall_mem_cons, List.not_mem_nil, false_imp_iff, implies_true, and_true, hsize]
    exact and_and_and_comm
  · rw [swapped, hhalves, ← hprogress.ext.mem]
    rfl
  · have hswapped : ∀ k, shadowSwapped M.toInterp tyenv.length s
        ⟨some oldHi, oldLo, endness, addr, some expdHi, expdLo, some dataHi, dataLo⟩ mem k
        = writeMem (writeMem (mem k) (bitsOf 64 vaLo)
            (shadowOfAtom M.toInterp tyenv.length s dataLo k)) (bitsOf 64 vaHi)
          (shadowOfAtom M.toInterp tyenv.length s dataHi k) := by
      intro k
      rw [shadowSwapped, hhalves]
      rfl
    simp only [hswapped]
    exact hprogress.shadows

/-- The emitted code, for any statement that passes the check. -/
theorem wp_instrumentCAS (denv : DiffEnv) (hI : M.toInterp.IntegerOps)
    (hM : M.ShadowCalls o.expressionhandling Shadows) (hmem : Shadows s.tool mem)
    (hn : denv.tmpOffset = tyenv.length) (hword : wordTy = .i32 ∨ wordTy = .i64)
    (henv : shadowedTyenv o.expressionhandling.layers tyenv <+: env) (hs : s.Typed env)
    (hd : d.Valid tyenv wordTy) :
    (execMeaning M).wp (dgInstrumentStmt o.expressionhandling denv (.cas d)) env s fun _ _ s' =>
      CASOutcome M Shadows tyenv.length o.expressionhandling.layers d s mem s' := by
  obtain ⟨ty, cmp, hcmp, haddr, hLo, hHi⟩ := hd.inv
  obtain ⟨next, hnext⟩ : ∃ next, addToAddr? wordTy d.addr (sizeofIRType ty) = some next := by
    rcases hword with rfl | rfl
    · exact ⟨_, rfl⟩
    · exact ⟨_, rfl⟩
  have hsize := sizeofIRType_le ty
  have hva := haddr.hasValue hI henv hs
  obtain ⟨vn, hvn, hbits⟩ := hasValue_next hI hva (by omega) hnext
  have hexpd := hLo.expd.hasValue hI henv hs
  have hfits : ∀ a ∈ [d.addr, next], a.inBounds tyenv.length 0 = true := by
    simp only [List.forall_mem_cons, List.not_mem_nil, false_imp_iff, implies_true, and_true]
    exact ⟨haddr.fits, next_inBounds haddr.fits hnext⟩
  have hignores : ∀ a ∈ [d.addr, next], ∀ u ∈ (IRStmt.cas d).defs, Ignores M.toInterp T a u := by
    have hatom : ∀ u ∈ (IRStmt.cas d).defs, Ignores M.toInterp T d.addr u := fun u hu =>
      ignores_atom haddr.atom (haddr.apart u hu)
    simp only [List.forall_mem_cons, List.not_mem_nil, false_imp_iff, implies_true, and_true]
    exact ⟨hatom, fun u hu => ignores_next (hatom u hu) hnext⟩
  -- declarations are kept
  have htypes : ∀ {env'}, env <+: env' →
      typeOfIRExpr env' d.expdLo = some ty ∧ typeOfIRExpr env' d.addr = some wordTy := by
    rintro env' ⟨tys, rfl⟩
    exact ⟨typeOfIRExpr_append tys _ hexpd.type, typeOfIRExpr_append tys _ hva.type⟩
  obtain ⟨oldHi, oldLo, endness, addr, expdHi, expdLo, dataHi, dataLo⟩ := d
  have haddrAfter : addrAfter (evalExpr M.toInterp s addr).length
      (M.addr (evalExpr M.toInterp s addr)) (evalExpr M.toInterp s expdLo).length
      = bitsOf 64 vn := by
    rw [hexpd.length, hI.addr, hbits]
  rcases hHi with ⟨rfl, rfl, rfl⟩ | ⟨oldHi, expdHi, dataHi, rfl, rfl, rfl, hHi⟩
  · refine wp_instrumentSingle hI hM hmem hn hcmp henv hs rfl ?_ haddr hLo hnext
    intro u hu
    rw [List.mem_singleton.mp hu]
    exact hLo.old_lt
  · have holds : ∀ u ∈ [oldLo, oldHi], u < tyenv.length := by
      simp only [List.forall_mem_cons, List.not_mem_nil, false_imp_iff, implies_true, and_true]
      exact ⟨hLo.old_lt, hHi.old_lt⟩
    cases endness with
    | le =>
      refine wp_instrumentDouble hI hM hmem hn hcmp henv hs rfl holds hLo hHi hva hvn hfits
        hignores ?_ fun henv' h => wp_addressesOfCAS (htypes henv').1 (htypes henv').2 hnext h
      rw [← haddrAfter, ← hI.addr]
      rfl
    | be =>
      refine wp_instrumentDouble hI hM hmem hn hcmp henv hs rfl holds hLo hHi hvn hva
        (fun a ha => hfits a ((List.Perm.swap _ _ _).mem_iff.mp ha))
        (fun a ha => hignores a ((List.Perm.swap _ _ _).mem_iff.mp ha)) ?_
        fun henv' h => wp_addressesOfCAS (htypes henv').1 (htypes henv').2 hnext h
      rw [← haddrAfter, ← hI.addr]
      rfl

/-! ### When it is a compare-and-swap -/

theorem cmpEQ_sizeofIRType (h : cmpOfType? ty = some cmp) : cmpEQ (sizeofIRType ty) = cmp := by
  cases ty with
  | i8 => exact Option.some_inj.mp h
  | i16 => exact Option.some_inj.mp h
  | i32 => exact Option.some_inj.mp h
  | i64 => exact Option.some_inj.mp h
  | _ => cases h

/-- A compare-and-swap stores the new data if the previous contents are the expected values. -/
theorem execCAS_spec (hI : M.toInterp.IntegerOps) {L : ℕ}
    (henv : shadowedTyenv L tyenv <+: env) (hs : s.Typed env) (hd : d.Valid tyenv wordTy) :
    (execCAS M.toInterp d s).reg = s.reg ∧
      (ValuesAgree M.toInterp s d → (execCAS M.toInterp d s).mem = swapped M.toInterp s d) ∧
      (¬ValuesAgree M.toInterp s d → (execCAS M.toInterp d s).mem = s.mem) := by
  obtain ⟨ty, cmp, hcmp, -, hLo, hHi⟩ := hd.inv
  have hexpdLo := hLo.expd.hasValue hI henv hs
  have hsize : (evalExpr M.toInterp s d.expdLo).length = sizeofIRType ty := hexpdLo.length
  -- The comparison of two values of the same size tells whether they are equal.
  have hequal : ∀ {expd} a, (evalExpr M.toInterp s expd).length = sizeofIRType ty →
      M.isTrue (M.op (cmpEQ (sizeofIRType ty)) [evalExpr M.toInterp s expd,
        d.endness.order (readMem s.mem a (sizeofIRType ty))])
      = decide (evalExpr M.toInterp s expd
        = d.endness.order (readMem s.mem a (sizeofIRType ty))) := by
    intro expd a hlength
    rw [cmpEQ_sizeofIRType hcmp]
    exact hI.cmpEQ hcmp hlength (by rw [length_order, length_readMem])
  obtain ⟨oldHi, oldLo, endness, addr, expdHi, expdLo, dataHi, dataLo⟩ := d
  rcases hHi with ⟨rfl, rfl, rfl⟩ | ⟨oldHi, expdHi, dataHi, rfl, rfl, rfl, hHi⟩
  · simp only [execCAS, hsize, hequal _ hsize, decide_eq_true_eq, ValuesAgree, swapped,
      IRCAS.halves, List.forall_mem_singleton, List.foldl_cons, List.foldl_nil]
    refine ⟨?_, fun h => ?_, fun h => ?_⟩
    · split <;> rfl
    · rw [if_pos h]
    · rw [if_neg h]
      rfl
  · have hexpdHi := (hHi.expd.hasValue hI henv hs).length
    cases endness with
    | le =>
      simp only [execCAS, hsize, hequal _ hsize, hequal _ hexpdHi, decide_eq_true_eq, ValuesAgree,
        swapped, IRCAS.halves, List.forall_mem_cons, List.not_mem_nil, false_imp_iff, implies_true,
        and_true, List.foldl_cons, List.foldl_nil, if_true, Bool.and_eq_true]
      refine ⟨?_, fun h => ?_, fun h => ?_⟩
      · split <;> rfl
      · rw [if_pos h]
      · rw [if_neg h]
        rfl
    | be =>
      simp only [execCAS, hsize, hequal _ hsize, hequal _ hexpdHi, decide_eq_true_eq, ValuesAgree,
        swapped, IRCAS.halves, List.forall_mem_cons, List.not_mem_nil, false_imp_iff, implies_true,
        and_true, List.foldl_cons, List.foldl_nil, reduceCtorEq, if_false, Bool.and_eq_true]
      refine ⟨?_, fun h => ?_, fun h => ?_⟩
      · split <;> rfl
      · rw [if_pos h]
      · rw [if_neg h]
        rfl

/-- What the statement should do: to the client, it is the original compare-and-swap, and shadow
memory gets the shadow of the new data if memory gets the new data. -/
structure IsCompareAndSwap (M : Machine Byte T) (Shadows : T → (ℕ → Addr → Byte) → Prop) (n L : ℕ)
    (d : IRCAS) (s : State Byte T) (mem : ℕ → Addr → Byte) (s' : State Byte T) : Prop where
  primal : PrimalEq n M.guestSize s' (execCAS M.toInterp d s)
  shadow : ∃ mem', Shadows s'.tool mem' ∧
    (ValuesAgree M.toInterp s d → ∀ k < L, mem' k = shadowSwapped M.toInterp n s d mem k) ∧
    (¬ValuesAgree M.toInterp s d → ∀ k < L, mem' k = mem k)

/-- Storing the new data and their shadow would change nothing. -/
def NothingToSwap (I : Interp Byte) (n L : ℕ) (d : IRCAS) (s : State Byte T)
    (mem : ℕ → Addr → Byte) : Prop :=
  swapped I s d = s.mem ∧ ∀ k < L, shadowSwapped I n s d mem k = mem k

theorem CASOutcome.agrees_iff {s' : State Byte T} (hI : M.toInterp.IntegerOps)
    (hM : M.ShadowCalls o.expressionhandling Shadows)
    (henv : shadowedTyenv o.expressionhandling.layers tyenv <+: env) (hs : s.Typed env)
    (hd : d.Valid tyenv wordTy)
    (h : CASOutcome M Shadows tyenv.length o.expressionhandling.layers d s mem s') :
    IsCompareAndSwap M Shadows tyenv.length o.expressionhandling.layers d s mem s' ↔
      (ValuesAgree M.toInterp s d →
        ShadowsAgree M.toInterp tyenv.length s d o.expressionhandling.layers mem ∨
        NothingToSwap M.toInterp tyenv.length o.expressionhandling.layers d s mem) := by
  obtain ⟨b, hb, hmem, hshadows⟩ := h.swaps
  obtain ⟨hreg, hagree, hdiffer⟩ := execCAS_spec hI henv hs hd
  have hprimal : s'.mem = (execCAS M.toInterp d s).mem →
      PrimalEq tyenv.length M.guestSize s' (execCAS M.toInterp d s) := fun heq =>
    ⟨h.tmp, fun o _ => by rw [h.reg, hreg], heq⟩
  by_cases hvalues : ValuesAgree M.toInterp s d
  · cases b with
    | true =>
      -- The swap is made, hence the shadows agree as well.
      have hboth := hb.mp rfl
      refine iff_of_true ⟨hprimal ?_, _, hshadows, fun _ k _ => rfl, fun hne => absurd hvalues hne⟩
        fun _ => Or.inl hboth.2
      rw [hmem, hagree hvalues]
      rfl
    | false =>
      have hshadow : ¬ShadowsAgree M.toInterp tyenv.length s d o.expressionhandling.layers mem := fun hsh =>
        Bool.false_ne_true (hb.mpr ⟨hvalues, hsh⟩)
      constructor
      · -- nothing has been stored, so there was nothing to store
        rintro ⟨heq, mem', hmem', hswapped, -⟩ _
        refine Or.inr ⟨?_, fun k hk => ?_⟩
        · rw [← hagree hvalues, ← heq.mem, hmem]
          rfl
        · rw [← hswapped hvalues k hk]
          exact hM.unique hmem' hshadows k hk
      · intro hcond
        obtain ⟨hnothing, hnothing'⟩ := (hcond hvalues).resolve_left hshadow
        refine ⟨hprimal ?_, _, hshadows, fun _ k hk => ?_, fun hne => absurd hvalues hne⟩
        · rw [hmem, hagree hvalues, hnothing]
          rfl
        · exact (hnothing' k hk).symm
  -- The client would not swap, and neither does the emitted code.
  · have hfalse : b = false := Bool.eq_false_iff.mpr fun htrue => hvalues (hb.mp htrue).1
    subst hfalse
    refine iff_of_true ⟨hprimal ?_, _, hshadows, fun h => absurd h hvalues, fun _ k _ => rfl⟩
      fun h => absurd h hvalues
    rw [hmem, hdiffer hvalues]
    rfl

/-- **When the emitted code is a compare-and-swap.**  It is one if and only if the expected values
differ from memory, or their shadows agree with shadow memory, or there is nothing to swap. -/
theorem isCompareAndSwap_iff (M : Machine Byte T) (o : Options)
    (Shadows : T → (ℕ → Addr → Byte) → Prop) (hI : M.toInterp.IntegerOps)
    (hM : M.ShadowCalls o.expressionhandling Shadows) (tyenv tys : List IRType) (wordTy : IRType)
    (hword : wordTy = .i32 ∨ wordTy = .i64) (gsOffset : ℕ) (d : IRCAS) (hd : d.Valid tyenv wordTy)
    (s : State Byte T) (hs : s.Typed (shadowedTyenv o.expressionhandling.layers tyenv ++ tys))
    (mem : ℕ → Addr → Byte) (hmem : Shadows s.tool mem) :
    ∃ s', runEmit M (dgInstrumentStmt o.expressionhandling ⟨tyenv.length, gsOffset, wordTy⟩ (.cas d))
        (shadowedTyenv o.expressionhandling.layers tyenv ++ tys) s = some ((), s') ∧
      (IsCompareAndSwap M Shadows tyenv.length o.expressionhandling.layers d s mem s' ↔
        (ValuesAgree M.toInterp s d →
          ShadowsAgree M.toInterp tyenv.length s d o.expressionhandling.layers mem ∨
          NothingToSwap M.toInterp tyenv.length o.expressionhandling.layers d s mem)) := by
  have henv := List.prefix_append (shadowedTyenv o.expressionhandling.layers tyenv) tys
  obtain ⟨_, -, s', hrun, houtcome⟩ := exists_runEmit
    (wp_instrumentCAS ⟨tyenv.length, gsOffset, wordTy⟩ hI hM hmem rfl hword henv hs hd)
  exact ⟨s', hrun, houtcome.agrees_iff hI hM henv hs hd⟩

end Whole

/-! ### A lost update -/

section Example

/-- The leaves of a 64-bit build. -/
abbrev swapShadow : FlexibleShadow BarLayer 64 := directMap BarLayer 64 (2 ^ 18)

def swapShadowLawful : swapShadow.Lawful :=
  directMapLawful BarLayer (by decide) (by decide) (by decide)

/-- A machine in recording mode. -/
def swapMachine : Machine Byte (swapShadow.State × Unit) :=
  Machine.barShadow swapShadow (2 ^ 31) FpSem.zeros { Interp.silent with op := integerOp } 1024

def swapOptions : Options := ⟨.b, false, false⟩

/-- One byte at address `16` is replaced by `7`; the expected value is in the temporary `0`. -/
def swapByte : IRCAS := ⟨none, 1, .le, .const (.u64 16), none, .rdTmp 0, none, .const (.u8 7)⟩

/-- Memory is zero, and so is the expected value, which has the given shadow. -/
def swapState (shadow : Byte) : State Byte (swapShadow.State × Unit) :=
  State.ofTmps (swapShadow.shadowInit fun _ _ _ => 0, ()) [[0], [0], [shadow], [0], [0], [0]]

theorem swapMachine_shadowCalls :
    swapMachine.ShadowCalls swapOptions.expressionhandling (barShadows swapShadowLawful) :=
  shadowCalls_bar swapShadowLawful (Dvd.intro (2 ^ 46) (by decide)) le_rfl
    (Machine.barShadow_spec _ _ _ _ _) rfl rfl rfl

theorem swapByte_valid : swapByte.Valid [.i8, .i8] .i64 :=
  ⟨⟨[0], by decide⟩, by decide, by decide⟩

theorem swapState_typed (shadow : Byte) :
    (swapState shadow).Typed (shadowedTyenv 2 [.i8, .i8] ++ []) := by
  intro t ty hty
  match t, hty with
  | 0, hty => obtain rfl := Option.some_inj.mp hty; rfl
  | 1, hty => obtain rfl := Option.some_inj.mp hty; rfl
  | 2, hty => obtain rfl := Option.some_inj.mp hty; rfl
  | 3, hty => obtain rfl := Option.some_inj.mp hty; rfl
  | 4, hty => obtain rfl := Option.some_inj.mp hty; rfl
  | 5, hty => obtain rfl := Option.some_inj.mp hty; rfl
  | t + 6, hty => cases hty

theorem swapState_shadows (shadow : Byte) :
    barShadows swapShadowLawful (swapState shadow).tool fun _ _ => 0 := by
  have hpair : BarLayer.pair (fun _ : Addr => (0 : Byte)) (fun _ => 0) = fun _ _ => 0 := by
    funext l
    cases l <;> rfl
  unfold barShadows
  rw [hpair]
  exact FlexibleShadow.shadowInit_rep _ _

/-- The index of the expected value is the one of memory. -/
theorem isCompareAndSwap_iff_swapByte :
    ∃ s', runEmit swapMachine (dgInstrumentStmt swapOptions.expressionhandling ⟨2, 1024, .i64⟩
        (.cas swapByte)) (shadowedTyenv 2 [.i8, .i8] ++ []) (swapState 0) = some ((), s') ∧
      IsCompareAndSwap swapMachine (barShadows swapShadowLawful) 2 2 swapByte (swapState 0)
        (fun _ _ => 0) s' := by
  obtain ⟨s', hrun, hiff⟩ := isCompareAndSwap_iff swapMachine swapOptions
    (barShadows swapShadowLawful) (integerOps_hostInterp _) swapMachine_shadowCalls [.i8, .i8] []
    .i64 (Or.inr rfl) 1024 swapByte swapByte_valid (swapState 0) (swapState_typed 0)
    (fun _ _ => 0) (swapState_shadows 0)
  refine ⟨s', hrun, hiff.mpr fun _ => Or.inl ?_⟩
  intro h hh k hk
  obtain rfl := List.mem_singleton.mp hh
  match k, hk with
  | 0, _ => rfl
  | 1, _ => rfl

/-- The index of the expected value differs from the one of memory, so the byte is not replaced
although the client reads the expected value. -/
theorem not_isCompareAndSwap_swapByte :
    ∃ s', runEmit swapMachine (dgInstrumentStmt swapOptions.expressionhandling ⟨2, 1024, .i64⟩
        (.cas swapByte)) (shadowedTyenv 2 [.i8, .i8] ++ []) (swapState 5) = some ((), s') ∧
      ¬IsCompareAndSwap swapMachine (barShadows swapShadowLawful) 2 2 swapByte (swapState 5)
        (fun _ _ => 0) s' := by
  have henv := List.prefix_append (shadowedTyenv 2 [IRType.i8, .i8]) []
  have hI : swapMachine.toInterp.IntegerOps := integerOps_hostInterp _
  obtain ⟨_, -, s', hrun, houtcome⟩ := exists_runEmit (wp_instrumentCAS (o := swapOptions)
    ⟨2, 1024, .i64⟩ hI swapMachine_shadowCalls (swapState_shadows 5) rfl (Or.inr rfl) henv
    (swapState_typed 5) swapByte_valid)
  have hiff := houtcome.agrees_iff hI swapMachine_shadowCalls henv
    (swapState_typed 5) swapByte_valid
  refine ⟨s', hrun, fun h => ?_⟩
  have hvalues : ValuesAgree swapMachine.toInterp (swapState 5) swapByte := by
    intro h hh
    obtain rfl := List.mem_singleton.mp hh
    rfl
  rcases hiff.mp h hvalues with hshadows | ⟨hnothing, -⟩
  · have hshadow := hshadows _ (List.mem_singleton_self _) 0 (by decide)
    exact absurd hshadow (by decide)
  · have hbyte := congrFun hnothing 16
    exact absurd hbyte (by decide)

end Example

end Derivgrind
