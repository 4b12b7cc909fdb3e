import Derivgrind.Instrument.TypedHandle

/-!
# Instrumented statements are well-typed

The code that is inserted in front of a statement passes the sanity check, and assigns the
shadows of the temporaries that the statement assigns.

## Main definitions

* `IRStmt.modified` — the expressions of a statement that have a shadow.
* `Tracks` — **the invariant**: what has been assigned after some statements, in terms of
  what has been assigned in the original superblock.

## Main results

* `wpt_dgInstrumentStmt` — one statement keeps the invariant.
-/

namespace Derivgrind

open Emitter.Meaning

/-- The expressions in a statement whose shadow is formed. -/
def IRStmt.modified : IRStmt → List IRExpr
  | .wrTmp _ data => [data]
  | .put _ data => [data]
  | .putI _ _ _ data => [data]
  | .store _ _ data => [data]
  | .storeG _ _ data _ => [data]
  | .loadG _ _ _ _ alt _ => [alt]
  | .cas d => [d.expdLo, d.dataLo] ++ d.expdHi.toList ++ d.dataHi.toList
  | .dirty d => if d.cee.name ∈ storeF80leNames then d.args[1]?.toList else []
  | _ => []

/-- Statements that the front ends emit: no `Ist_LLSC`, and the functions that store 80-bit
numbers return nothing. -/
def IRStmt.emitted : IRStmt → Bool
  | .llsc _ _ _ _ => false
  | .dirty d => d.cee.name ∉ storeF80leNames || d.tmp.isNone
  | _ => true

section Rules

variable {w : IRType} {env : List IRType} {D : List IRTemp} {eh : ExpressionHandling}
  {denv : DiffEnv} {o : Options} {tyenv : List IRType}

/-! ### Writing shadows -/

theorem wpt_dgModifyExpressionOrDefault (c : Context eh denv o tyenv w)
    (henv : shadowedTyenv eh.layers tyenv <+: env) (hb : Bounded env D) {e : IRExpr} {ty : IRType}
    (h : Readable eh.layers tyenv w D e ty) (hill : e.reachesIllTyped o = false) :
    (checkMeaning w).wp (dgModifyExpressionOrDefault eh denv e) env D fun shadow env' D' =>
      Adds env D env' D' ∧ TypedAll env' w D' eh.layers ty shadow := by
  apply wp_bind
  apply wp_mono (wpt_dgModifyExpression c e henv hb h hill)
  rintro shadow env' D' ⟨hadds, hshadow, -⟩
  cases shadow with
  | some sh => exact wp_pure ⟨hadds, hshadow sh rfl⟩
  | none =>
    apply wp_bind
    apply wp_typeOf ((h.extend henv).adds hadds).type
    apply wp_mono c.handling.default_
    rintro sh env'' D'' ⟨rfl, rfl, hsh⟩
    exact ⟨hadds, hsh⟩

/-- Statements that assign nothing, one for each layer. -/
theorem wpt_addStmts {st : ℕ → IRStmt} {n : ℕ} (h : ∀ k < n, tcStmt env w (st k) = true ∧
    (∀ t ∈ (st k).reads, t ∈ D) ∧ (st k).defs = []) {Q : Unit → List IRType → List IRTemp → Prop}
    (hQ : Q () env D) : (checkMeaning w).wp (addStmts ((List.range n).map st)) env D Q := by
  refine wp_emit (checkStmts_of_noDefs ?_) hQ
  intro st' hst'
  obtain ⟨k, hk, rfl⟩ := List.mem_map.mp hst'
  exact h k (List.mem_range.mp hk)

theorem wpt_put {offset : ℕ} {sh : Shadow} {ty : IRType} (hsh : TypedAll env w D eh.layers ty sh)
    (hty : ty ≠ .i1) {Q : Unit → List IRType → List IRTemp → Prop} (hQ : Q () env D) :
    (checkMeaning w).wp (eh.put denv offset sh) env D Q := by
  refine wpt_addStmts (fun k hk => ?_) hQ
  have he : Typed env w D (sh.layer k) ty := hsh.getD hk
  exact ⟨he.isData hty, by simpa [IRStmt.reads, IRStmt.exprs] using he.reads, rfl⟩

theorem wpt_putI {descr : IRRegArray} {ix : IRExpr} {bias : ℤ} {sh : Shadow}
    (hsh : TypedAll env w D eh.layers descr.elemTy sh) (hty : descr.elemTy ≠ .i1)
    (hix : Typed env w D ix .i32) {Q : Unit → List IRType → List IRTemp → Prop} (hQ : Q () env D) :
    (checkMeaning w).wp (eh.putI denv descr ix bias sh) env D Q := by
  refine wpt_addStmts (fun k hk => ?_) hQ
  have he := hsh.getD hk
  refine ⟨?_, ?_, rfl⟩
  · simp only [tcStmt, Bool.and_eq_true]
    exact ⟨⟨he.isData hty, he.hasTy⟩, hix.hasTy⟩
  · intro t ht
    simp only [IRStmt.reads, IRStmt.exprs, IRExpr.allReads, List.append_nil, List.mem_append] at ht
    exact ht.elim (hix.reads t) (he.reads t)

theorem wpt_store (c : Context eh denv o tyenv w) {addr : IRExpr} {sh : Shadow}
    {guard : Option IRExpr} {ty : IRType} (haddr : Typed env w D addr w)
    (hsh : TypedAll env w D eh.layers ty sh) (hty : ty ≠ .i1)
    (hguard : ∀ g ∈ guard, Typed env w D g .i1) {Q : Unit → List IRType → List IRTemp → Prop}
    (hQ : Q () env D) : (checkMeaning w).wp (eh.store denv addr sh guard) env D Q := by
  have hguard' : Typed env w D (guard.getD (.const (.u1 true))) .i1 := by
    cases guard with
    | none => exact Typed.const (.u1 true) rfl
    | some g => exact hguard g rfl
  apply wp_bind
  apply wpt_addStmts
  · intro k hk
    have he := hsh.getD hk
    have hbuf : Typed env w D (bufferAddr denv k) w := c.typed_bufferAddr k
    refine ⟨?_, ?_, rfl⟩
    · simp only [tcStmt, Bool.and_eq_true]
      exact ⟨hbuf.hasTy, he.isData hty⟩
    · intro t ht
      simp only [IRStmt.reads, IRStmt.exprs, IRExpr.allReads, List.append_nil, List.mem_append] at ht
      exact ht.elim (hbuf.reads t) (he.reads t)
  apply wp_bind
  apply wp_typeOf (hsh.getD c.handling.layers_pos).type
  apply wp_bind
  apply wp_mapList_pure (P := fun _ _ => True)
  · intro e he
    exact wp_typeOf (hsh.2 e he).type ⟨rfl, rfl, trivial⟩
  intro tys _
  apply wp_bind
  apply wpt_tlAssert
  intro _
  obtain ⟨htc, hreads⟩ := tcStmt_dirty eh.storeHelper none hguard' (c.typedArgs_access haddr ty)
    (by simp)
  refine wpt_addStmt htc hreads (by simp [IRStmt.defs]) (by simp [IRStmt.defs]) ?_
  simpa [IRStmt.defs] using hQ

theorem nodup_shadowTmps {layers n tmp : ℕ} (hn : 0 < n) : (shadowTmps layers n tmp).Nodup := by
  apply List.Nodup.map _ List.nodup_range
  intro j k hjk
  have hmul : (j + 1) * n = (k + 1) * n := Nat.add_left_cancel hjk
  have := Nat.eq_of_mul_eq_mul_right hn hmul
  omega

theorem mem_shadowTmps {layers n tmp t : ℕ} :
    t ∈ shadowTmps layers n tmp ↔ ∃ k < layers, t = tmp + (k + 1) * n := by
  simp only [shadowTmps, List.mem_map, List.mem_range]
  constructor
  · rintro ⟨k, hk, rfl⟩
    exact ⟨k, hk, rfl⟩
  · rintro ⟨k, hk, rfl⟩
    exact ⟨k, hk, rfl⟩

/-- The shadow temporaries have the type of the temporary. -/
theorem type_shadowTmps {layers tmp : ℕ} {ty : IRType} (henv : shadowedTyenv layers tyenv <+: env)
    (hty : tyenv[tmp]? = some ty) : ∀ t ∈ shadowTmps layers tyenv.length tmp, env[t]? = some ty := by
  intro t ht
  obtain ⟨k, hk, rfl⟩ := mem_shadowTmps.mp ht
  obtain ⟨hlt, -⟩ := List.getElem?_eq_some_iff.mp hty
  apply getElem?_of_prefixed henv
  rw [getElem?_shadowedTyenv hk hlt, hty]

theorem length_pos_of_getElem? {tmp : ℕ} {ty : IRType} (hty : tyenv[tmp]? = some ty) :
    0 < tyenv.length := by
  obtain ⟨hlt, -⟩ := List.getElem?_eq_some_iff.mp hty
  omega

theorem wpt_wrtmp (c : Context eh denv o tyenv w) (henv : shadowedTyenv eh.layers tyenv <+: env)
    {tmp : IRTemp} {ty : IRType} {sh : Shadow} (hty : tyenv[tmp]? = some ty)
    (hsh : TypedAll env w D eh.layers ty sh)
    (hnew : ∀ t ∈ shadowTmps eh.layers tyenv.length tmp, t ∉ D)
    {Q : Unit → List IRType → List IRTemp → Prop}
    (hQ : Q () env (D ++ shadowTmps eh.layers tyenv.length tmp)) :
    (checkMeaning w).wp (eh.wrtmp denv tmp sh) env D Q := by
  obtain ⟨l, hl⟩ : ∃ l : List (IRTemp × IRExpr), (List.range eh.layers).map (fun k =>
      (tmp + (k + 1) * denv.tmpOffset, sh.layer k)) = l := ⟨_, rfl⟩
  have hfst : l.map Prod.fst = shadowTmps eh.layers tyenv.length tmp := by
    rw [← hl, List.map_map, c.tmpOffset]
    rfl
  have hcheck : checkStmts env w D (l.map fun p => .wrTmp p.1 p.2) =
      some (D ++ shadowTmps eh.layers tyenv.length tmp) := by
    rw [← hfst]
    apply checkStmts_wrTmps
    · intro p hp
      have hp' := List.mem_map_of_mem (f := Prod.fst) hp
      rw [hfst] at hp'
      rw [← hl] at hp
      obtain ⟨k, hk, rfl⟩ := List.mem_map.mp hp
      exact ⟨ty, type_shadowTmps henv hty _ hp', hsh.getD (List.mem_range.mp hk)⟩
    · rw [hfst]
      exact nodup_shadowTmps (length_pos_of_getElem? hty)
    · intro p hp
      have hp' := List.mem_map_of_mem (f := Prod.fst) hp
      rw [hfst] at hp'
      exact hnew _ hp'
  rw [← hl, List.map_map] at hcheck
  exact wp_emit hcheck hQ

/-! ### Assigning the shadows of temporaries -/

/-- Temporaries may have been declared and assigned, and the shadows of the given temporaries
have been assigned. -/
structure AddsShadows (layers n : ℕ) (ts : List IRTemp) (env : List IRType) (D : List IRTemp)
    (env' : List IRType) (D' : List IRTemp) : Prop where
  tyenv : env <+: env'
  subset : D ⊆ D'
  shadows : ∀ t ∈ ts, ∀ t' ∈ shadowTmps layers n t, t' ∈ D'
  fresh : ∀ t : ℕ, t ∈ D' →
    t ∈ D ∨ (env.length ≤ t ∧ t < env'.length) ∨ ∃ t₀ ∈ ts, t ∈ shadowTmps layers n t₀

namespace AddsShadows

variable {layers n : ℕ} {ts ts' : List IRTemp} {env' env'' : List IRType} {D' D'' : List IRTemp}

theorem of_adds (h : Adds env D env' D') : AddsShadows layers n [] env D env' D' :=
  ⟨h.tyenv, h.subset, by simp, fun t ht => (h.fresh t ht).imp_right Or.inl⟩

theorem wrtmp (env : List IRType) (D : List IRTemp) (tmp : IRTemp) :
    AddsShadows layers n [tmp] env D env (D ++ shadowTmps layers n tmp) := by
  refine ⟨List.prefix_refl env, List.subset_append_left _ _, ?_, ?_⟩
  · intro t ht t' ht'
    rw [List.mem_singleton.mp ht] at ht'
    exact List.mem_append_right D ht'
  · intro t ht
    exact (List.mem_append.mp ht).imp_right fun h => Or.inr ⟨tmp, List.mem_cons_self, h⟩

theorem trans (h : AddsShadows layers n ts env D env' D')
    (h' : AddsShadows layers n ts' env' D' env'' D'') :
    AddsShadows layers n (ts ++ ts') env D env'' D'' := by
  have hlen := h.tyenv.length_le
  have hlen' := h'.tyenv.length_le
  refine ⟨h.tyenv.trans h'.tyenv, fun t ht => h'.subset (h.subset ht), ?_, ?_⟩
  · intro t ht t' ht'
    rcases List.mem_append.mp ht with ht | ht
    · exact h'.subset (h.shadows t ht t' ht')
    · exact h'.shadows t ht t' ht'
  · intro t ht
    rcases h'.fresh t ht with hD | ⟨hge, hlt⟩ | ⟨t₀, ht₀, hmem⟩
    · rcases h.fresh t hD with hD | ⟨hge, hlt⟩ | ⟨t₀, ht₀, hmem⟩
      · exact Or.inl hD
      · exact Or.inr (Or.inl ⟨hge, by omega⟩)
      · exact Or.inr (Or.inr ⟨t₀, List.mem_append_left _ ht₀, hmem⟩)
    · exact Or.inr (Or.inl ⟨by omega, hlt⟩)
    · exact Or.inr (Or.inr ⟨t₀, List.mem_append_right _ ht₀, hmem⟩)

theorem andThen (h : AddsShadows layers n ts env D env' D') (h' : Adds env' D' env'' D'') :
    AddsShadows layers n ts env D env'' D'' := by
  simpa using h.trans (.of_adds h')

theorem typed (h : AddsShadows layers n ts env D env' D') {e : IRExpr} {ty : IRType}
    (he : Typed env w D e ty) : Typed env' w D' e ty := by
  obtain ⟨tys, rfl⟩ := h.tyenv
  exact he.mono tys h.subset

end AddsShadows

/-- **The invariant.**  `pre` are the temporaries of the statements that are only copied, and
`D₀` those that have been assigned in the original superblock. -/
structure Tracks (layers : ℕ) (tyenv : List IRType) (pre D₀ : List IRTemp) (env : List IRType)
    (D : List IRTemp) : Prop where
  declared : shadowedTyenv layers tyenv <+: env
  bounded : Bounded env D
  assigned : D₀ ⊆ D
  shadows : ∀ t ∈ D₀, t ∉ pre → ∀ t' ∈ shadowTmps layers tyenv.length t, t' ∈ D
  onlyAssigned : ∀ t : ℕ, t ∈ D → t < tyenv.length → t ∈ D₀
  onlyShadows : ∀ t : ℕ, t < tyenv.length → ∀ t' ∈ shadowTmps layers tyenv.length t, t' ∈ D → t ∈ D₀

theorem length_shadowedTyenv (layers : ℕ) (tyenv : List IRType) :
    (shadowedTyenv layers tyenv).length = (layers + 1) * tyenv.length := by
  simp [shadowedTyenv, Nat.succ_mul, Nat.add_comm]

/-- Shadow temporaries of different temporaries are different. -/
theorem eq_of_mem_shadowTmps {layers n t t' s : ℕ} (ht : t < n) (ht' : t' < n)
    (h : s ∈ shadowTmps layers n t) (h' : s ∈ shadowTmps layers n t') : t = t' := by
  obtain ⟨k, -, rfl⟩ := mem_shadowTmps.mp h
  obtain ⟨k', -, heq⟩ := mem_shadowTmps.mp h'
  have hmod : (t + (k + 1) * n) % n = (t' + (k' + 1) * n) % n := by rw [heq]
  rwa [Nat.add_mul_mod_self_right, Nat.add_mul_mod_self_right, Nat.mod_eq_of_lt ht,
    Nat.mod_eq_of_lt ht'] at hmod

/-- Shadow temporaries exist, and are not temporaries of the original superblock. -/
theorem bound_shadowTmps {layers n t s : ℕ} (ht : t < n) (h : s ∈ shadowTmps layers n t) :
    n ≤ s ∧ s < (layers + 1) * n := by
  obtain ⟨k, hk, rfl⟩ := mem_shadowTmps.mp h
  have hle : (k + 1) * n ≤ layers * n := Nat.mul_le_mul_right n hk
  rw [Nat.succ_mul] at hle ⊢
  rw [Nat.succ_mul]
  omega

namespace Tracks

variable {layers : ℕ} {pre D₀ D₀' D' : List IRTemp} {env' : List IRType}

theorem readable (h : Tracks layers tyenv pre D₀ env D) {e : IRExpr} {ty : IRType}
    (he : Typed tyenv w D₀ e ty) (hpre : ∀ t ∈ e.reads, t ∉ pre) :
    Readable layers tyenv w D e ty := by
  refine ⟨⟨he.tc, he.type, fun t ht => h.assigned (he.reads t ht)⟩, ?_⟩
  intro t ht k hk
  exact h.shadows t (he.reads t ht) (hpre t ht) _ (mem_shadowTmps.mpr ⟨k, hk, rfl⟩)

/-- The shadows of temporaries that are about to be assigned. -/
theorem shadows_new (h : Tracks layers tyenv pre D₀ env D) {t : ℕ} (ht : t < tyenv.length)
    (hnew : t ∉ D₀) : ∀ t' ∈ shadowTmps layers tyenv.length t, t' ∉ D :=
  fun t' ht' hD => hnew (h.onlyShadows t ht t' ht' hD)

/-- What has been added besides shadows is not among the shadow temporaries. -/
theorem fresh (h : Tracks layers tyenv pre D₀ env D) {ts : List IRTemp}
    (hadds : AddsShadows layers tyenv.length ts env D env' D') (hts : ∀ t ∈ ts, t < tyenv.length) :
    (∀ t : ℕ, t ∈ D' → t < tyenv.length → t ∈ D) ∧
      ∀ t : ℕ, t < tyenv.length → ∀ t' ∈ shadowTmps layers tyenv.length t, t' ∈ D' →
        t' ∈ D ∨ t ∈ ts := by
  have hlen := h.declared.length_le
  rw [length_shadowedTyenv] at hlen
  have hle : tyenv.length ≤ (layers + 1) * tyenv.length := Nat.le_mul_of_pos_left _ (by omega)
  constructor
  · intro t ht hlt
    rcases hadds.fresh t ht with hD | ⟨hge, -⟩ | ⟨t₀, ht₀, hmem⟩
    · exact hD
    · omega
    · have := (bound_shadowTmps (hts t₀ ht₀) hmem).1
      omega
  · intro t ht t' ht' hD'
    have hbound := (bound_shadowTmps ht ht').2
    rcases hadds.fresh t' hD' with hD | ⟨hge, -⟩ | ⟨t₀, ht₀, hmem⟩
    · exact Or.inl hD
    · omega
    · rw [eq_of_mem_shadowTmps ht (hts t₀ ht₀) ht' hmem]
      exact Or.inr ht₀

theorem bounded_after (h : Tracks layers tyenv pre D₀ env D) {ts : List IRTemp}
    (hadds : AddsShadows layers tyenv.length ts env D env' D') (hts : ∀ t ∈ ts, t < tyenv.length) :
    Bounded env' D' := by
  have hlen := (h.declared.trans hadds.tyenv).length_le
  rw [length_shadowedTyenv] at hlen
  intro t ht
  rcases hadds.fresh t ht with hD | ⟨-, hlt⟩ | ⟨t₀, ht₀, hmem⟩
  · exact Nat.lt_of_lt_of_le (h.bounded t hD) hadds.tyenv.length_le
  · exact hlt
  · exact Nat.lt_of_lt_of_le (bound_shadowTmps (hts t₀ ht₀) hmem).2 hlen

/-- The original statement follows the code for the shadows. -/
theorem step (h : Tracks layers tyenv pre D₀ env D) {ts : List IRTemp}
    (hadds : AddsShadows layers tyenv.length ts env D env' D') (hts : ∀ t ∈ ts, t < tyenv.length) :
    Tracks layers tyenv pre (D₀ ++ ts) env' (D' ++ ts) := by
  obtain ⟨honly, hshadow⟩ := h.fresh hadds hts
  have henv := h.declared.trans hadds.tyenv
  have hlen := henv.length_le
  rw [length_shadowedTyenv] at hlen
  have hle : tyenv.length ≤ (layers + 1) * tyenv.length := Nat.le_mul_of_pos_left _ (by omega)
  refine ⟨henv, ?_, ?_, ?_, ?_, ?_⟩
  · intro t ht
    rcases List.mem_append.mp ht with hD' | hnew
    · exact h.bounded_after hadds hts t hD'
    · exact Nat.lt_of_lt_of_le (hts t hnew) (Nat.le_trans hle hlen)
  · intro t ht
    rcases List.mem_append.mp ht with hD₀ | hnew
    · exact List.mem_append_left _ (hadds.subset (h.assigned hD₀))
    · exact List.mem_append_right _ hnew
  · intro t ht hpre t' ht'
    apply List.mem_append_left
    rcases List.mem_append.mp ht with hD₀ | hnew
    · exact hadds.subset (h.shadows t hD₀ hpre t' ht')
    · exact hadds.shadows t hnew t' ht'
  · intro t ht hlt
    rcases List.mem_append.mp ht with hD' | hnew
    · exact List.mem_append_left _ (h.onlyAssigned t (honly t hD' hlt) hlt)
    · exact List.mem_append_right _ hnew
  · intro t hlt t' ht' hmem
    rcases List.mem_append.mp hmem with hD' | hnew
    · rcases hshadow t hlt t' ht' hD' with hD | hts'
      · exact List.mem_append_left _ (h.onlyShadows t hlt t' ht' hD)
      · exact List.mem_append_right _ hts'
    · exact absurd (hts t' hnew) (Nat.not_lt.mpr (bound_shadowTmps hlt ht').1)

end Tracks

/-! ### Statements -/

/-- A statement of the original superblock passes the check, reads no temporary of the
preamble, and no ill-typed code is emitted for it. -/
structure StmtOk (o : Options) (tyenv : List IRType) (w : IRType) (pre D₀ : List IRTemp)
    (st : IRStmt) : Prop where
  tc : tcStmt tyenv w st = true
  reads : ∀ t ∈ st.reads, t ∈ D₀
  defs : ∀ t ∈ st.defs, t ∉ D₀
  nodup : st.defs.Nodup
  marked : ∀ t ∈ st.reads, t ∉ pre
  emitted : st.emitted = true
  legal : ∀ e ∈ st.modified, e.reachesIllTyped o = false

theorem lt_of_mem_defs {st : IRStmt} (h : tcStmt tyenv w st = true) :
    ∀ t ∈ st.defs, t < tyenv.length := by
  have hlt : ∀ {t : ℕ}, tyenv[t]?.isSome = true → t < tyenv.length := fun ht => by
    obtain ⟨ty, hty⟩ := Option.isSome_iff_exists.mp ht
    exact (List.getElem?_eq_some_iff.mp hty).1
  have hlt' : ∀ {t : ℕ} {ty : IRType}, tyenv[t]? = some ty → t < tyenv.length := fun ht =>
    (List.getElem?_eq_some_iff.mp ht).1
  intro t ht
  cases st with
  | wrTmp tmp data =>
    simp only [tcStmt, Bool.and_eq_true] at h
    rw [List.mem_singleton.mp ht]
    exact hlt h.1.2
  | loadG endness cvt dst addr alt guard =>
    simp only [tcStmt, Bool.and_eq_true, decide_eq_true_eq] at h
    rw [List.mem_singleton.mp ht]
    exact hlt' h.1.1.1
  | llsc endness result addr storedata =>
    simp only [tcStmt, Bool.and_eq_true] at h
    rw [List.mem_singleton.mp ht]
    exact hlt h.1.1
  | dirty d =>
    simp only [tcStmt, Bool.and_eq_true, List.all_eq_true] at h
    exact hlt (h.2 t ht).1
  | cas d =>
    simp only [tcStmt, Bool.and_eq_true, List.any_eq_true] at h
    obtain ⟨-, ty, -, hlo, hhi⟩ := h
    simp only [tcCAS, Bool.and_eq_true, decide_eq_true_eq] at hlo
    rcases List.mem_cons.mp ht with rfl | ht
    · exact hlt' hlo.1.1
    · split at hhi
      · rename_i hold _ _
        simp [hold] at ht
      · rename_i hold _ _
        simp only [tcCAS, Bool.and_eq_true, decide_eq_true_eq] at hhi
        rw [hold] at ht
        rw [List.mem_singleton.mp ht]
        exact hlt' hhi.1.1
      · cases hhi
  | _ => cases ht

namespace StmtOk

variable {pre D₀ : List IRTemp} {st : IRStmt}

/-- An expression in the statement can be read. -/
theorem readable (h : StmtOk o tyenv w pre D₀ st) {layers : ℕ}
    (ht : Tracks layers tyenv pre D₀ env D) {e : IRExpr} {ty : IRType} (he : e ∈ st.exprs)
    (hty : hasTy tyenv w e ty = true) : Readable layers tyenv w D e ty := by
  have hmem := IRExpr.mem_allReads he
  exact ht.readable (Typed.of_hasTy hty fun t ht => h.reads t (hmem t ht))
    fun t ht => h.marked t (hmem t ht)

theorem readable_isData (h : StmtOk o tyenv w pre D₀ st) {layers : ℕ}
    (ht : Tracks layers tyenv pre D₀ env D) {e : IRExpr} (he : e ∈ st.exprs)
    (hdata : isData tyenv w e = true) : ∃ ty, Readable layers tyenv w D e ty ∧ ty ≠ .i1 := by
  have hmem := IRExpr.mem_allReads he
  obtain ⟨ty, hty, hne⟩ := Typed.of_isData hdata fun t ht => h.reads t (hmem t ht)
  exact ⟨ty, ht.readable hty fun t ht => h.marked t (hmem t ht), hne⟩

end StmtOk

/-- What the code in front of a statement achieves. -/
def StmtChecked (w : IRType) (layers : ℕ) (tyenv : List IRType) (env : List IRType)
    (D : List IRTemp) (st : IRStmt) (m : Emit (Option IRTemp)) : Prop :=
  (checkMeaning w).wp m env D fun casSucceeded env' D' =>
    AddsShadows layers tyenv.length st.defs env D env' D' ∧
      ∀ d, st = .cas d → ∃ tmp, casSucceeded = some tmp ∧ Typed env' w D' (.rdTmp tmp) .i1

section Statements

variable {pre D₀ : List IRTemp}

/-- The shadow of a temporary is still unassigned after other code. -/
theorem Tracks.new_after {layers : ℕ} {ts D' : List IRTemp} {env' : List IRType}
    (ht : Tracks layers tyenv pre D₀ env D)
    (hadds : AddsShadows layers tyenv.length ts env D env' D') (hts : ∀ t ∈ ts, t < tyenv.length)
    {tmp : IRTemp} (hlt : tmp < tyenv.length) (hnew : tmp ∉ D₀) (hmem : tmp ∉ ts) :
    ∀ t ∈ shadowTmps layers tyenv.length tmp, t ∉ D' := by
  intro t ht' hD'
  rcases (ht.fresh hadds hts).2 tmp hlt t ht' hD' with hD | hts'
  · exact ht.shadows_new hlt hnew t ht' hD
  · exact hmem hts'

/-- A shadow is written to the shadow temporaries, after other code. -/
theorem wpt_wrtmp_after (c : Context eh denv o tyenv w) (ht : Tracks eh.layers tyenv pre D₀ env D)
    {ts D' : List IRTemp} {env' : List IRType}
    (hadds : AddsShadows eh.layers tyenv.length ts env D env' D') (hts : ∀ t ∈ ts, t < tyenv.length)
    {tmp : IRTemp} {ty : IRType} {sh : Shadow} (hty : tyenv[tmp]? = some ty) (hnew : tmp ∉ D₀)
    (hmem : tmp ∉ ts) (hsh : TypedAll env' w D' eh.layers ty sh) :
    (checkMeaning w).wp (eh.wrtmp denv tmp sh) env' D' fun _ env'' D'' =>
      AddsShadows eh.layers tyenv.length [tmp] env' D' env'' D'' := by
  have hlt : tmp < tyenv.length := (List.getElem?_eq_some_iff.mp hty).1
  exact wpt_wrtmp c (ht.declared.trans hadds.tyenv) hty hsh (ht.new_after hadds hts hlt hnew hmem)
    (AddsShadows.wrtmp env' D' tmp)

/-- Nothing is assigned after the shadow of an expression has been computed. -/
theorem wpt_modify_then (c : Context eh denv o tyenv w) (ht : Tracks eh.layers tyenv pre D₀ env D)
    {e : IRExpr} {ty : IRType} {f : Shadow → Emit Unit}
    (he : Readable eh.layers tyenv w D e ty) (hill : e.reachesIllTyped o = false)
    (hf : ∀ shadow env' D', Adds env D env' D' → TypedAll env' w D' eh.layers ty shadow →
      (checkMeaning w).wp (f shadow) env' D' fun _ env'' D'' => env'' = env' ∧ D'' = D') :
    (checkMeaning w).wp (do
      let shadow ← dgModifyExpressionOrDefault eh denv e
      f shadow) env D fun _ env' D' => AddsShadows eh.layers tyenv.length [] env D env' D' := by
  apply wp_bind
  apply wp_mono (wpt_dgModifyExpressionOrDefault c ht.declared ht.bounded he hill)
  rintro shadow env' D' ⟨hadds, hshadow⟩
  apply wp_mono (hf shadow env' D' hadds hshadow)
  rintro _ env'' D'' ⟨rfl, rfl⟩
  exact .of_adds hadds

/-- Code that does not handle a compare-and-swap statement. -/
theorem stmtChecked_of {α : Type} {layers : ℕ} {st : IRStmt} {m : Emit α} {f : α → Emit Unit}
    (hst : ∀ d, st ≠ .cas d) (h : (checkMeaning w).wp (m >>= f) env D fun _ env' D' =>
      AddsShadows layers tyenv.length st.defs env D env' D') :
    StmtChecked w layers tyenv env D st (do
      let a ← m
      f a
      return none) := by
  unfold StmtChecked
  rw [← Emitter.bind_assoc]
  apply wp_bind
  apply wp_mono h
  intro _ env' D' hadds
  exact wp_pure ⟨hadds, fun d hd => absurd hd (hst d)⟩

/-- Statements without shadow. -/
theorem stmtChecked_none {layers : ℕ} {st : IRStmt} (hst : ∀ d, st ≠ .cas d)
    (hdefs : st.defs = []) : StmtChecked w layers tyenv env D st (pure none) := by
  refine wp_pure ⟨?_, fun d hd => absurd hd (hst d)⟩
  rw [hdefs]
  exact .of_adds (Adds.refl env D)

/-- Placeholders have no type, and hence no shadow. -/
theorem wpt_modify_placeholder {e : IRExpr} (he : dgModifyExpression eh denv e = pure none)
    (hty : ∀ env, typeOfIRExpr env e = none) {Q : Shadow → List IRType → List IRTemp → Prop} :
    (checkMeaning w).wp (dgModifyExpressionOrDefault eh denv e) env D Q := by
  unfold dgModifyExpressionOrDefault
  rw [he]
  apply wp_bind
  apply wp_pure
  apply wp_bind
  apply wp_query (fun h => by cases h)
  intro ty hty'
  rw [hty env] at hty'
  cases hty'

/-- The shadow of an argument of a dirty call. -/
theorem wpt_modify_arg (c : Context eh denv o tyenv w) (ht : Tracks eh.layers tyenv pre D₀ env D)
    {st : IRStmt} (h : StmtOk o tyenv w pre D₀ st) {e : IRExpr} (he : e ∈ st.exprs)
    (htc : tcArg tyenv w e = true) (hill : e.reachesIllTyped o = false) :
    (checkMeaning w).wp (dgModifyExpressionOrDefault eh denv e) env D fun shadow env' D' =>
      Adds env D env' D' ∧ ∃ ty, TypedAll env' w D' eh.layers ty shadow ∧ ty ≠ .i1 := by
  have hdata : isData tyenv w e = true →
      (checkMeaning w).wp (dgModifyExpressionOrDefault eh denv e) env D fun shadow env' D' =>
        Adds env D env' D' ∧ ∃ ty, TypedAll env' w D' eh.layers ty shadow ∧ ty ≠ .i1 := by
    intro hdata
    obtain ⟨ty, hty, hne⟩ := h.readable_isData ht he hdata
    apply wp_mono (wpt_dgModifyExpressionOrDefault c ht.declared ht.bounded hty hill)
    rintro shadow env' D' ⟨hadds, hshadow⟩
    exact ⟨hadds, ty, hshadow, hne⟩
  cases e with
  | vecret => exact wpt_modify_placeholder (by unfold dgModifyExpression; rfl) fun _ => rfl
  | gsptr => exact wpt_modify_placeholder (by unfold dgModifyExpression; rfl) fun _ => rfl
  | _ => exact hdata htc

/-- The type of a temporary, in the superblock that is being built. -/
theorem Tracks.type {layers : ℕ} (ht : Tracks layers tyenv pre D₀ env D) {tmp : ℕ} {ty : IRType}
    (hty : tyenv[tmp]? = some ty) : env[tmp]? = some ty := by
  apply getElem?_of_prefixed ht.declared
  unfold shadowedTyenv
  exact getElem?_of_prefixed (List.prefix_append tyenv _) hty

theorem wpt_addDirtyModified (c : Context eh denv o tyenv w)
    (ht : Tracks eh.layers tyenv pre D₀ env D) {d : IRDirty}
    (h : StmtOk o tyenv w pre D₀ (.dirty d)) :
    (checkMeaning w).wp (addDirtyModified eh denv d) env D fun _ env' D' =>
      AddsShadows eh.layers tyenv.length (IRStmt.dirty d).defs env D env' D' := by
  have htc := h.tc
  simp only [tcStmt, Bool.and_eq_true, List.all_eq_true] at htc
  obtain ⟨⟨-, hargs⟩, htmps⟩ := htc
  have hmem : ∀ {i : ℕ} {e : IRExpr}, d.args[i]? = some e → e ∈ (IRStmt.dirty d).exprs := fun he =>
    List.mem_cons_of_mem _ (List.mem_of_getElem? he)
  have haddr : ∀ {e : IRExpr}, d.args[0]? = some e → TypedArgs env w D [e] := by
    intro e he e' he'
    rw [List.mem_singleton.mp he']
    refine ⟨?_, fun t ht' => ht.assigned (h.reads t (IRExpr.mem_allReads (hmem he) t ht'))⟩
    obtain ⟨tys, htys⟩ := ht.declared
    rw [← htys, shadowedTyenv, List.append_assoc]
    exact tcArg_append _ (hargs e (List.mem_of_getElem? he))
  unfold addDirtyModified
  split
  · rename_i hname
    -- A store of 80 bits has no result, and the shadow of its second argument is stored.
    have hnone : d.tmp = none := by simpa [IRStmt.emitted, hname] using h.emitted
    have hdefs : (IRStmt.dirty d).defs = [] := by rw [IRStmt.defs, hnone]; rfl
    rw [hdefs]
    apply wp_bind
    apply wpt_ofOption
    intro addr haddr'
    apply wp_bind
    apply wpt_ofOption
    intro expr hexpr
    have hill := h.legal expr (by simp [IRStmt.modified, hname, hexpr])
    apply wp_bind
    apply wp_mono (wpt_modify_arg c ht h (hmem hexpr) (hargs expr (List.mem_of_getElem? hexpr)) hill)
    rintro shadow env' D' ⟨hadds, ty, hshadow, hne⟩
    apply wp_mono (c.handling.dirtyStoreF80le ((haddr haddr').adds hadds) hshadow hne)
    rintro _ env'' D'' ⟨rfl, rfl⟩
    exact .of_adds hadds
  -- The shadows of the result are assigned for the first time.
  · have htmp' : ∀ {tmp : ℕ}, d.tmp = some tmp → (IRStmt.dirty d).defs = [tmp] ∧
        (∃ ty, tyenv[tmp]? = some ty ∧ ty ≠ .i1) ∧ tmp ∉ D₀ := by
      intro tmp htmp
      have hdefs : (IRStmt.dirty d).defs = [tmp] := by rw [IRStmt.defs, htmp]; rfl
      have hsome := htmps tmp (by simp [htmp])
      obtain ⟨ty, hty⟩ := Option.isSome_iff_exists.mp hsome.1
      exact ⟨hdefs, ⟨ty, hty, by simpa [hty] using hsome.2⟩, h.defs tmp (by simp [hdefs])⟩
    split
    · apply wp_bind
      apply wpt_ofOption
      intro addr haddr'
      apply wp_bind
      apply wpt_ofOption
      intro tmp htmp
      obtain ⟨hdefs, ⟨ty, hty, hne⟩, hnew⟩ := htmp' htmp
      have hlt : tmp < tyenv.length := (List.getElem?_eq_some_iff.mp hty).1
      have htmps' : ∀ t ∈ shadowTmps eh.layers denv.tmpOffset tmp, env[t]? = some ty ∧ t ∉ D := by
        rw [c.tmpOffset]
        exact fun t ht' => ⟨type_shadowTmps ht.declared hty t ht', ht.shadows_new hlt hnew t ht'⟩
      have hnodup : (shadowTmps eh.layers denv.tmpOffset tmp).Nodup := by
        rw [c.tmpOffset]
        exact nodup_shadowTmps (length_pos_of_getElem? hty)
      apply wp_mono (c.handling.dirtyLoadF80le (haddr haddr') htmps' hnodup hne)
      rintro _ env' D' ⟨rfl, rfl⟩
      rw [hdefs, c.tmpOffset]
      exact AddsShadows.wrtmp env' D tmp
    -- Any other call: its result gets the default shadow.
    · cases htmp : d.tmp with
      | none =>
        rw [show (IRStmt.dirty d).defs = [] by rw [IRStmt.defs, htmp]; rfl]
        exact wp_pure (.of_adds (Adds.refl env D))
      | some tmp =>
        obtain ⟨hdefs, ⟨ty, hty, hne⟩, hnew⟩ := htmp' htmp
        rw [hdefs]
        apply wp_bind
        apply wp_typeOf (show typeOfIRExpr env (.rdTmp tmp) = some ty from ht.type hty)
        apply wp_bind
        apply wp_mono c.handling.default_
        rintro shadow env' D' ⟨rfl, rfl, hshadow⟩
        exact wpt_wrtmp_after c ht (.of_adds (Adds.refl env' D')) (by simp) hty hnew (by simp) hshadow

/-! ### Compare-and-swap -/

theorem typed_cmpOfType {ty : IRType} {cmp : IROp} (hcmp : cmpOfType? ty = some cmp) {a b : IRExpr}
    (ha : Typed env w D a ty) (hb : Typed env w D b ty) : Typed env w D (.binop cmp a b) .i1 := by
  cases ty with
  | i8 => exact Option.some_inj.mp hcmp ▸ Typed.binop rfl ha hb
  | i16 => exact Option.some_inj.mp hcmp ▸ Typed.binop rfl ha hb
  | i32 => exact Option.some_inj.mp hcmp ▸ Typed.binop rfl ha hb
  | i64 => exact Option.some_inj.mp hcmp ▸ Typed.binop rfl ha hb
  | _ => cases hcmp

theorem wpt_compare (c : Context eh denv o tyenv w) {sh sh' : Shadow} {ty : IRType}
    (hsh : TypedAll env w D eh.layers ty sh) (hsh' : TypedAll env w D eh.layers ty sh')
    {Q : IRExpr → List IRType → List IRTemp → Prop} (h : ∀ e, Typed env w D e .i1 → Q e env D) :
    (checkMeaning w).wp (eh.compare sh sh') env D Q := by
  have hpos := c.handling.layers_pos
  apply wp_bind
  apply wp_typeOf (hsh.getD hpos).type
  apply wp_bind
  apply wp_typeOf (hsh'.getD hpos).type
  apply wp_bind
  apply wpt_tlAssert
  intro _
  apply wp_bind
  apply wpt_ofOption
  intro cmp hcmp
  have hequal : ∀ k < eh.layers, Typed env w D (.binop cmp (sh.layer k) (sh'.layer k)) .i1 :=
    fun k hk => typed_cmpOfType hcmp (hsh.getD hk) (hsh'.getD hk)
  have hfold : ∀ (ks : List ℕ) (e : IRExpr), (∀ k ∈ ks, k + 1 < eh.layers) → Typed env w D e .i1 →
      Typed env w D (ks.foldl (fun e k =>
        and1 e (.binop cmp (sh.layer (k + 1)) (sh'.layer (k + 1)))) e) .i1 := by
    intro ks
    induction ks with
    | nil => exact fun e _ he => he
    | cons k ks ih =>
      intro e hks he
      exact ih _ (fun k' hk' => hks k' (List.mem_cons_of_mem k hk'))
        (typed_and1 he (hequal _ (hks k List.mem_cons_self)))
  apply wp_pure
  apply h
  apply hfold _ _ _ (hequal 0 hpos)
  intro k hk
  have := List.mem_range.mp hk
  omega

theorem wpt_addressesOfCAS (c : Context eh denv o tyenv w) {d : IRCAS} {ty : IRType}
    (haddr : Typed env w D d.addr w) (hty : typeOfIRExpr env d.expdLo = some ty)
    {Q : IRExpr × Option IRExpr → List IRType → List IRTemp → Prop}
    (h : ∀ addrLo addrHi, Typed env w D addrLo w → (∀ a ∈ addrHi, Typed env w D a w) →
      addrHi.isSome = d.expdHi.isSome → Q (addrLo, addrHi) env D) :
    (checkMeaning w).wp (addressesOfCAS d) env D Q := by
  apply wp_bind
  apply wp_typeOf hty
  apply wp_bind
  apply wp_typeOf haddr.type
  apply wp_bind
  apply wpt_ofOption
  intro next hnext
  have hnext' : Typed env w D next w := by
    rcases c.word with rfl | rfl
    · exact Option.some_inj.mp hnext ▸ Typed.binop rfl haddr (Typed.const (.u32 _) rfl)
    · exact Option.some_inj.mp hnext ▸ Typed.binop rfl haddr (Typed.const (.u64 _) rfl)
  apply wp_pure
  cases hexpd : d.expdHi with
  | none => exact h _ _ haddr (by simp) (by rw [hexpd])
  | some expdHi =>
    cases d.endness with
    | le => exact h _ _ haddr (by rintro a ⟨⟩; exact hnext') (by rw [hexpd]; rfl)
    | be => exact h _ _ hnext' (by rintro a ⟨⟩; exact haddr) (by rw [hexpd]; rfl)

theorem wpt_equalCAS (c : Context eh denv o tyenv w) (henv : shadowedTyenv eh.layers tyenv <+: env)
    (hb : Bounded env D) {endness : IREndness} {ty : IRType} {addr expd : IRExpr}
    (haddr : Typed env w D addr w) (hexpd : Readable eh.layers tyenv w D expd ty)
    (hill : expd.reachesIllTyped o = false) :
    (checkMeaning w).wp (equalCAS eh denv endness ty addr expd) env D fun e env' D' =>
      Adds env D env' D' ∧ Typed env' w D' e .i1 := by
  apply wp_bind
  apply wpt_ofOption
  intro cmp hcmp
  apply wp_bind
  apply wp_mono (wpt_dgModifyExpressionOrDefault c henv hb hexpd hill)
  rintro sh env₁ D₁ ⟨hadds₁, hsh⟩
  apply wp_bind
  apply wp_mono (wpt_load c (hadds₁.bounded hb) (haddr.adds hadds₁))
  rintro loaded env₂ D₂ ⟨hadds₂, hloaded⟩
  have hadds := hadds₁.trans hadds₂
  apply wp_bind
  apply wpt_compare c (hsh.adds hadds₂) hloaded
  intro equal hequal
  have hvalues := typed_cmpOfType hcmp ((hexpd.extend henv).adds hadds)
    ((haddr.adds hadds).load endness ty)
  exact wp_pure ⟨hadds, typed_and1 hvalues hequal⟩

theorem wpt_shadowStoreCAS (c : Context eh denv o tyenv w)
    (henv : shadowedTyenv eh.layers tyenv <+: env) (hb : Bounded env D) {ty : IRType}
    {addr data : IRExpr} {tmp : IRTemp} (haddr : Typed env w D addr w)
    (hdata : Readable eh.layers tyenv w D data ty) (hty : ty ≠ .i1)
    (hill : data.reachesIllTyped o = false) (htmp : Typed env w D (.rdTmp tmp) .i1) :
    (checkMeaning w).wp (shadowStoreCAS eh denv addr data tmp) env D fun _ env' D' =>
      Adds env D env' D' := by
  apply wp_bind
  apply wp_mono (wpt_dgModifyExpressionOrDefault c henv hb hdata hill)
  rintro sh env' D' ⟨hadds, hsh⟩
  apply wpt_store c (haddr.adds hadds) hsh hty
  · rintro g ⟨⟩
    exact htmp.adds hadds
  · exact hadds

theorem wpt_shadowOldCAS (c : Context eh denv o tyenv w) (ht : Tracks eh.layers tyenv pre D₀ env D)
    {ts D' : List IRTemp} {env' : List IRType}
    (hadds : AddsShadows eh.layers tyenv.length ts env D env' D') (hts : ∀ t ∈ ts, t < tyenv.length)
    {ty : IRType} {addr : IRExpr} {old : IRTemp} (haddr : Typed env' w D' addr w)
    (hty : tyenv[old]? = some ty) (hnew : old ∉ D₀) (hmem : old ∉ ts) :
    (checkMeaning w).wp (shadowOldCAS eh denv ty addr old) env' D' fun _ env'' D'' =>
      AddsShadows eh.layers tyenv.length [old] env' D' env'' D'' := by
  apply wp_bind
  apply wp_mono (wpt_load c (ht.bounded_after hadds hts) haddr)
  rintro loaded env₁ D₁ ⟨hadds₁, hloaded⟩
  apply wp_mono (wpt_wrtmp_after c ht (hadds.andThen hadds₁) hts hty hnew hmem hloaded)
  intro _ env₂ D₂ hadds₂
  exact (AddsShadows.of_adds hadds₁).trans hadds₂

/-- One half of a compare-and-swap statement that passes the check. -/
structure CASHalf (o : Options) (layers : ℕ) (tyenv : List IRType) (w : IRType) (D₀ D : List IRTemp)
    (ty : IRType) (old : IRTemp) (expd data : IRExpr) : Prop where
  type : tyenv[old]? = some ty
  new : old ∉ D₀
  readExpd : Readable layers tyenv w D expd ty
  readData : Readable layers tyenv w D data ty
  legalExpd : expd.reachesIllTyped o = false
  legalData : data.reachesIllTyped o = false

/-- Everything the check tells about a compare-and-swap statement. -/
theorem StmtOk.cas_inv {layers : ℕ} (ht : Tracks layers tyenv pre D₀ env D) {d : IRCAS}
    (h : StmtOk o tyenv w pre D₀ (.cas d)) : ∃ ty, ty ≠ .i1 ∧ Readable layers tyenv w D d.addr w ∧
      CASHalf o layers tyenv w D₀ D ty d.oldLo d.expdLo d.dataLo ∧
      ((d.oldHi = none ∧ d.expdHi = none ∧ d.dataHi = none) ∨
        ∃ oldHi expdHi dataHi, d.oldHi = some oldHi ∧ d.expdHi = some expdHi ∧
          d.dataHi = some dataHi ∧ oldHi ≠ d.oldLo ∧
          CASHalf o layers tyenv w D₀ D ty oldHi expdHi dataHi) := by
  have htc := h.tc
  simp only [tcStmt, Bool.and_eq_true, List.any_eq_true] at htc
  obtain ⟨haddr, ty, hty, hlo, hhi⟩ := htc
  have hne : ty ≠ .i1 := by
    rintro rfl
    unfold casTypes at hty
    split at hty <;> simp at hty
  simp only [tcCAS, Bool.and_eq_true, decide_eq_true_eq] at hlo
  refine ⟨ty, hne, h.readable ht (by simp [IRStmt.exprs]) haddr, ?_, ?_⟩
  · exact ⟨hlo.1.1, h.defs d.oldLo (by simp [IRStmt.defs]),
      h.readable ht (by simp [IRStmt.exprs]) hlo.1.2, h.readable ht (by simp [IRStmt.exprs]) hlo.2,
      h.legal d.expdLo (by simp [IRStmt.modified]), h.legal d.dataLo (by simp [IRStmt.modified])⟩
  · split at hhi
    · rename_i hold hexpd hdata
      exact Or.inl ⟨hold, hexpd, hdata⟩
    · rename_i oldHi expdHi dataHi hold hexpd hdata
      simp only [tcCAS, Bool.and_eq_true, decide_eq_true_eq] at hhi
      have hnodup : oldHi ≠ d.oldLo := by
        have := h.nodup
        simp only [IRStmt.defs, hold, Option.toList_some, List.nodup_cons, List.mem_singleton] at this
        exact fun heq => this.1 heq.symm
      refine Or.inr ⟨oldHi, expdHi, dataHi, hold, hexpd, hdata, hnodup, hhi.1.1, ?_, ?_, ?_, ?_, ?_⟩
      · exact h.defs oldHi (by simp [IRStmt.defs, hold])
      · exact h.readable ht (by simp [IRStmt.exprs, hexpd]) hhi.1.2
      · exact h.readable ht (by simp [IRStmt.exprs, hdata]) hhi.2
      · exact h.legal expdHi (by simp [IRStmt.modified, hexpd])
      · exact h.legal dataHi (by simp [IRStmt.modified, hdata])
    · cases hhi

/-- The temporary for the success of the comparison is declared and assigned. -/
theorem wpt_casSucceeded (hb : Bounded env D) {e : IRExpr} (he : Typed env w D e .i1) {α : Type}
    {f : IRTemp → Emit α} {Q : α → List IRType → List IRTemp → Prop}
    (h : ∀ env' D' tmp, Adds env D env' D' → Typed env' w D' (.rdTmp tmp) .i1 →
      (checkMeaning w).wp (f tmp) env' D' Q) :
    (checkMeaning w).wp (do
      let tmp ← newIRTemp .i1
      addStmt (.wrTmp tmp e)
      f tmp) env D Q := by
  have hadds : Adds env D (env ++ [.i1]) (D ++ [env.length]) :=
    (Adds.declare env D [.i1]).assign (le_refl _) (by simp)
  have he' := he.adds (Adds.declare env D [.i1])
  apply wp_bind
  apply wp_newIRTemp
  apply wp_bind
  apply wpt_addStmt
  · simp [tcStmt, he'.tc, he'.type]
  · simpa [IRStmt.reads, IRStmt.exprs] using he.reads
  · simpa [IRStmt.defs] using fun hD => Nat.lt_irrefl _ (hb _ hD)
  · simp [IRStmt.defs]
  · exact h _ _ _ hadds (Typed.rdTmp (by simp) (by simp [IRStmt.defs]))

theorem wpt_addCASModified (c : Context eh denv o tyenv w)
    (ht : Tracks eh.layers tyenv pre D₀ env D) {d : IRCAS}
    (h : StmtOk o tyenv w pre D₀ (.cas d)) :
    (checkMeaning w).wp (addCASModified eh denv d) env D fun tmp env' D' =>
      AddsShadows eh.layers tyenv.length (IRStmt.cas d).defs env D env' D' ∧
        Typed env' w D' (.rdTmp tmp) .i1 := by
  obtain ⟨ty, hne, haddr, hlo, hhi⟩ := h.cas_inv ht
  have haddr := haddr.extend ht.declared
  have hexpdTy := (hlo.readExpd.extend ht.declared).type
  have hltLo : d.oldLo < tyenv.length := (List.getElem?_eq_some_iff.mp hlo.type).1
  apply wp_bind
  -- The comparison comes first, so that shadows are loaded and stored under its outcome.
  apply wp_typeOf hexpdTy
  apply wp_bind
  apply wpt_addressesOfCAS c haddr hexpdTy
  intro addrLo addrHi haddrLo haddrHi hsome
  apply wp_bind
  apply wp_mono (wpt_equalCAS c ht.declared ht.bounded haddrLo hlo.readExpd hlo.legalExpd)
  rintro equalLo env₁ D₁ ⟨hadds₁, hequalLo⟩
  rcases hhi with ⟨hold, hexpd, hdata⟩ | ⟨oldHi, expdHi, dataHi, hold, hexpd, hdata, hdiff, hhi⟩
  · -- single element
    obtain rfl : addrHi = none := by simpa [hexpd] using hsome
    rw [IRStmt.defs, hold, hexpd, hdata]
    apply wp_bind
    apply wp_pure
    apply wpt_casSucceeded (hadds₁.bounded ht.bounded) (typed_and1 hequalLo (Typed.const (.u1 true) rfl))
    intro env₂ D₂ tmp hadds₂ htmp
    have hadds : AddsShadows eh.layers tyenv.length [] env D env₂ D₂ :=
      .of_adds (hadds₁.trans hadds₂)
    apply wp_bind
    apply wp_mono (wpt_shadowOldCAS c ht hadds (by simp) (hadds.typed haddrLo) hlo.type hlo.new
      (by simp))
    intro _ env₃ D₃ hadds₃
    have hadds' := hadds.trans hadds₃
    apply wp_bind
    apply wp_mono (wpt_shadowStoreCAS c (ht.declared.trans hadds'.tyenv)
      (ht.bounded_after hadds' (by simpa using hltLo)) (hadds'.typed haddrLo)
      (hlo.readData.subset hadds'.subset) hne hlo.legalData (hadds₃.typed htmp))
    intro _ env₄ D₄ hadds₄
    exact wp_pure ⟨hadds'.andThen hadds₄, (hadds₃.typed htmp).adds hadds₄⟩
  · -- two elements
    obtain ⟨addrHi, rfl⟩ : ∃ a, addrHi = some a :=
      Option.isSome_iff_exists.mp (by rw [hsome, hexpd]; rfl)
    have haddrHi : Typed env w D addrHi w := haddrHi addrHi rfl
    have hltHi : oldHi < tyenv.length := (List.getElem?_eq_some_iff.mp hhi.type).1
    rw [IRStmt.defs, hold, hexpd, hdata]
    apply wp_bind
    apply wp_mono (wpt_equalCAS c (ht.declared.trans hadds₁.tyenv) (hadds₁.bounded ht.bounded)
      (haddrHi.adds hadds₁) (hhi.readExpd.subset hadds₁.subset) hhi.legalExpd)
    rintro equalHi env₂ D₂ ⟨hadds₂, hequalHi⟩
    have hadds₁₂ := hadds₁.trans hadds₂
    apply wpt_casSucceeded (hadds₁₂.bounded ht.bounded) (typed_and1 (hequalLo.adds hadds₂) hequalHi)
    intro env₃ D₃ tmp hadds₃ htmp
    have hadds : AddsShadows eh.layers tyenv.length [] env D env₃ D₃ :=
      .of_adds (hadds₁₂.trans hadds₃)
    apply wp_bind
    apply wp_mono (wpt_shadowOldCAS c ht hadds (by simp) (hadds.typed haddrLo) hlo.type hlo.new
      (by simp))
    intro _ env₄ D₄ hadds₄
    have hadds' := hadds.trans hadds₄
    apply wp_bind
    apply wp_mono (wpt_shadowOldCAS c ht hadds' (by simpa using hltLo) (hadds'.typed haddrHi)
      hhi.type hhi.new (by simpa using hdiff))
    intro _ env₅ D₅ hadds₅
    have hadds'' := hadds'.trans hadds₅
    have hts : ∀ t ∈ [d.oldLo] ++ [oldHi], t < tyenv.length := by
      intro t ht'
      rcases List.mem_append.mp ht' with ht' | ht'
      · rwa [List.mem_singleton.mp ht']
      · rwa [List.mem_singleton.mp ht']
    have htmp := hadds₅.typed (hadds₄.typed htmp)
    apply wp_bind
    apply wp_mono (wpt_shadowStoreCAS c (ht.declared.trans hadds''.tyenv)
      (ht.bounded_after hadds'' hts) (hadds''.typed haddrLo) (hlo.readData.subset hadds''.subset)
      hne hlo.legalData htmp)
    intro _ env₆ D₆ hadds₆
    have hadds₆' := hadds''.andThen hadds₆
    apply wp_bind
    apply wp_mono (wpt_shadowStoreCAS c (ht.declared.trans hadds₆'.tyenv)
      (ht.bounded_after hadds₆' hts) (hadds₆'.typed haddrHi) (hhi.readData.subset hadds₆'.subset)
      hne hhi.legalData (htmp.adds hadds₆))
    intro _ env₇ D₇ hadds₇
    exact wp_pure ⟨hadds₆'.andThen hadds₇, (htmp.adds hadds₆).adds hadds₇⟩

/-- The code that is inserted in front of a statement. -/
theorem wpt_addStatementModified (c : Context eh denv o tyenv w)
    (ht : Tracks eh.layers tyenv pre D₀ env D) {st : IRStmt} (h : StmtOk o tyenv w pre D₀ st) :
    StmtChecked w eh.layers tyenv env D st (addStatementModified eh denv st) := by
  have htc := h.tc
  cases st with
  | wrTmp tmp data =>
    simp only [tcStmt, Bool.and_eq_true, decide_eq_true_eq] at htc
    obtain ⟨ty, hty⟩ := Option.isSome_iff_exists.mp htc.1.2
    have hdata : hasTy tyenv w data ty = true := by
      simp [hasTy, htc.1.1, ← htc.2, hty]
    apply stmtChecked_of (by simp)
    apply wp_bind
    apply wp_mono (wpt_dgModifyExpressionOrDefault c ht.declared ht.bounded
      (h.readable ht (by simp [IRStmt.exprs]) hdata) (h.legal data (by simp [IRStmt.modified])))
    rintro shadow env' D' ⟨hadds, hshadow⟩
    have hadds' : AddsShadows eh.layers tyenv.length [] env D env' D' := .of_adds hadds
    apply wp_mono (wpt_wrtmp_after c ht hadds' (by simp) hty (h.defs tmp (by simp [IRStmt.defs]))
      (by simp) hshadow)
    intro _ env'' D'' hadds''
    exact hadds'.trans hadds''
  | put offset data =>
    obtain ⟨ty, hty, hne⟩ := h.readable_isData ht (by simp [IRStmt.exprs]) htc
    apply stmtChecked_of (by simp)
    apply wpt_modify_then c ht hty (h.legal data (by simp [IRStmt.modified]))
    intro shadow env' D' _ hshadow
    exact wpt_put hshadow hne ⟨rfl, rfl⟩
  | putI descr ix bias data =>
    simp only [tcStmt, Bool.and_eq_true] at htc
    have hix := h.readable ht (by simp [IRStmt.exprs]) htc.2
    have hdata := h.readable ht (by simp [IRStmt.exprs]) htc.1.2
    obtain ⟨ty, hty, hne⟩ := h.readable_isData ht (by simp [IRStmt.exprs]) htc.1.1
    obtain rfl : descr.elemTy = ty :=
      Option.some_inj.mp (hdata.typed.type.symm.trans hty.typed.type)
    apply stmtChecked_of (by simp)
    apply wpt_modify_then c ht hdata (h.legal data (by simp [IRStmt.modified]))
    intro shadow env' D' hadds hshadow
    exact wpt_putI hshadow hne ((hix.extend ht.declared).adds hadds) ⟨rfl, rfl⟩
  | store endness addr data =>
    simp only [tcStmt, Bool.and_eq_true] at htc
    have haddr := (h.readable ht (by simp [IRStmt.exprs]) htc.1).extend ht.declared
    obtain ⟨ty, hty, hne⟩ := h.readable_isData ht (by simp [IRStmt.exprs]) htc.2
    apply stmtChecked_of (by simp)
    apply wpt_modify_then c ht hty (h.legal data (by simp [IRStmt.modified]))
    intro shadow env' D' hadds hshadow
    exact wpt_store c (haddr.adds hadds) hshadow hne (by simp) ⟨rfl, rfl⟩
  | storeG endness addr data guard =>
    simp only [tcStmt, Bool.and_eq_true] at htc
    have haddr := (h.readable ht (by simp [IRStmt.exprs]) htc.1.1).extend ht.declared
    have hguard := (h.readable ht (by simp [IRStmt.exprs]) htc.2).extend ht.declared
    obtain ⟨ty, hty, hne⟩ := h.readable_isData ht (by simp [IRStmt.exprs]) htc.1.2
    apply stmtChecked_of (by simp)
    apply wpt_modify_then c ht hty (h.legal data (by simp [IRStmt.modified]))
    intro shadow env' D' hadds hshadow
    refine wpt_store c (haddr.adds hadds) hshadow hne ?_ ⟨rfl, rfl⟩
    rintro g ⟨⟩
    exact hguard.adds hadds
  | loadG endness cvt dst addr alt guard =>
    simp only [tcStmt, Bool.and_eq_true, decide_eq_true_eq] at htc
    obtain ⟨⟨⟨hdst, haddr⟩, halt⟩, hguard⟩ := htc
    have haddr := (h.readable ht (by simp [IRStmt.exprs]) haddr).extend ht.declared
    have halt := h.readable ht (by simp [IRStmt.exprs]) halt
    have hguard := (h.readable ht (by simp [IRStmt.exprs]) hguard).extend ht.declared
    apply wp_bind
    apply wp_typeOf (show typeOfIRExpr env (.rdTmp dst) = some cvt.type from ht.type hdst)
    apply wp_bind
    apply wp_mono (wpt_load c ht.bounded haddr)
    rintro dataRead env₁ D₁ ⟨hadds₁, hread⟩
    apply wp_bind
    apply wp_mono (wpt_dgModifyExpressionOrDefault c (ht.declared.trans hadds₁.tyenv)
      (hadds₁.bounded ht.bounded) (halt.subset hadds₁.subset)
      (h.legal alt (by simp [IRStmt.modified])))
    rintro shadowAlt env₂ D₂ ⟨hadds₂, hshadow⟩
    have hadds := hadds₁.trans hadds₂
    have hadds' : AddsShadows eh.layers tyenv.length [] env D env₂ D₂ := .of_adds hadds
    -- The shadow that is read and the one of the alternative are selected by the guard.
    have hite : TypedAll env₂ w D₂ eh.layers cvt.type (eh.ite guard dataRead shadowAlt) :=
      typedAll_map fun k hk => Typed.ite (hguard.adds hadds) ((hread.adds hadds₂).getD hk)
        (hshadow.getD hk)
    apply wp_bind
    apply wp_mono (wpt_wrtmp_after c ht hadds' (by simp) hdst (h.defs dst (by simp [IRStmt.defs]))
      (by simp) hite)
    intro _ env₃ D₃ hadds₃
    exact wp_pure ⟨hadds'.trans hadds₃, by simp⟩
  | cas d =>
    apply wp_bind
    apply wp_mono (wpt_addCASModified c ht h)
    rintro tmp env' D' ⟨hadds, htmp⟩
    exact wp_pure ⟨hadds, fun _ _ => ⟨tmp, rfl, htmp⟩⟩
  | dirty d =>
    apply wp_bind
    apply wp_mono (wpt_addDirtyModified c ht h)
    intro _ env' D' hadds
    exact wp_pure ⟨hadds, by simp⟩
  | llsc endness result addr storedata => cases h.emitted
  | noOp => exact stmtChecked_none (by simp) rfl
  | iMark addr len delta => exact stmtChecked_none (by simp) rfl
  | abiHint base len nia => exact stmtChecked_none (by simp) rfl
  | exit guard jk dst offsIP => exact stmtChecked_none (by simp) rfl
  | mbe => exact stmtChecked_none (by simp) rfl

/-! ### The original statement -/

/-- A temporary that the statement assigns is still unassigned after the code for its shadow. -/
theorem StmtOk.defs_after {layers : ℕ} {st : IRStmt} {D' : List IRTemp} {env' : List IRType}
    (h : StmtOk o tyenv w pre D₀ st) (ht : Tracks layers tyenv pre D₀ env D)
    (hadds : AddsShadows layers tyenv.length st.defs env D env' D') : ∀ t ∈ st.defs, t ∉ D' := by
  intro t htdefs hD'
  have hlt := lt_of_mem_defs h.tc t htdefs
  have hD := (ht.fresh hadds (lt_of_mem_defs h.tc)).1 t hD' hlt
  exact h.defs t htdefs (ht.onlyAssigned t hD hlt)

/-- The previous contents of memory are assigned to a temporary. -/
theorem wpt_wrTmp_load {tmp : IRTemp} {endness : IREndness} {ty : IRType} {addr : IRExpr}
    (hty : env[tmp]? = some ty) (haddr : Typed env w D addr w) (hnew : tmp ∉ D)
    {Q : Unit → List IRType → List IRTemp → Prop} (h : Q () env (D ++ [tmp])) :
    (checkMeaning w).wp (addStmt (.wrTmp tmp (.load endness ty addr))) env D Q := by
  have hload := haddr.load endness ty
  refine wpt_addStmt ?_ ?_ (by simpa [IRStmt.defs] using hnew) (by simp [IRStmt.defs]) h
  · simp only [tcStmt, hload.tc, hload.type, hty]
    simp
  · simpa [IRStmt.reads, IRStmt.exprs] using haddr.reads

/-- Memory is written if the comparison succeeded. -/
theorem wpt_originalStoreCAS {d : IRCAS} {ty : IRType} {addr data : IRExpr} {tmp : IRTemp}
    (haddr : Typed env w D addr w) (hdata : Typed env w D data ty) (hne : ty ≠ .i1)
    (htmp : Typed env w D (.rdTmp tmp) .i1) {Q : Unit → List IRType → List IRTemp → Prop}
    (h : Q () env D) :
    (checkMeaning w).wp (addStmt (originalStoreCAS d ty addr data tmp)) env D Q := by
  have hite := Typed.ite htmp hdata (haddr.load d.endness ty)
  refine wpt_addStmt ?_ ?_ (by simp [originalStoreCAS, IRStmt.defs])
    (by simp [originalStoreCAS, IRStmt.defs]) (by simpa [originalStoreCAS, IRStmt.defs] using h)
  · simp only [originalStoreCAS, tcStmt, Bool.and_eq_true]
    exact ⟨haddr.hasTy, hite.isData hne⟩
  · intro t ht
    simp only [originalStoreCAS, IRStmt.reads, IRStmt.exprs, IRExpr.allReads, List.append_nil,
      List.mem_append] at ht
    exact ht.elim (haddr.reads t) (hite.reads t)

theorem wpt_originalCAS (c : Context eh denv o tyenv w) (ht : Tracks eh.layers tyenv pre D₀ env D)
    {d : IRCAS} (h : StmtOk o tyenv w pre D₀ (.cas d)) {D' : List IRTemp} {env' : List IRType}
    (hadds : AddsShadows eh.layers tyenv.length (IRStmt.cas d).defs env D env' D') {tmp : IRTemp}
    (htmp : Typed env' w D' (.rdTmp tmp) .i1) :
    (checkMeaning w).wp (originalCAS d tmp) env' D' fun _ env'' D'' =>
      env'' = env' ∧ D'' = D' ++ (IRStmt.cas d).defs := by
  obtain ⟨ty, hne, haddr, hlo, hhi⟩ := h.cas_inv ht
  have hdefs := h.defs_after ht hadds
  have hmono : ∀ {D₁ D₂ : List IRTemp} {e : IRExpr} {ty : IRType}, Typed env' w D₁ e ty →
      Typed env' w (D₁ ++ D₂) e ty := fun he =>
    ⟨he.tc, he.type, fun t ht' => List.mem_append_left _ (he.reads t ht')⟩
  have htype : ∀ {t : ℕ} {ty : IRType}, tyenv[t]? = some ty → env'[t]? = some ty := fun hty =>
    getElem?_of_prefixed hadds.tyenv (ht.type hty)
  have haddr := hadds.typed (haddr.extend ht.declared)
  have hdataLo := hadds.typed (hlo.readData.extend ht.declared)
  have hexpdTy := (hadds.typed (hlo.readExpd.extend ht.declared)).type
  have hnewLo : d.oldLo ∉ D' := hdefs d.oldLo (by simp [IRStmt.defs])
  apply wp_bind
  apply wp_typeOf hexpdTy
  apply wp_bind
  apply wpt_addressesOfCAS c haddr hexpdTy
  intro addrLo addrHi haddrLo haddrHi hsome
  apply wp_bind
  apply wpt_wrTmp_load (htype hlo.type) haddrLo hnewLo
  rcases hhi with ⟨hold, hexpd, hdata⟩ | ⟨oldHi, expdHi, dataHi, hold, hexpd, hdata, hdiff, hhi⟩
  · obtain rfl : addrHi = none := by simpa [hexpd] using hsome
    rw [IRStmt.defs, hold, hdata]
    apply wp_bind
    apply wpt_originalStoreCAS (hmono haddrLo) (hmono hdataLo) hne (hmono htmp)
    exact wp_pure ⟨rfl, rfl⟩
  · obtain ⟨addrHi, rfl⟩ : ∃ a, addrHi = some a :=
      Option.isSome_iff_exists.mp (by rw [hsome, hexpd]; rfl)
    have haddrHi : Typed env' w D' addrHi w := haddrHi addrHi rfl
    have hdataHi := hadds.typed (hhi.readData.extend ht.declared)
    have hnewHi : oldHi ∉ D' ++ [d.oldLo] := by
      have := hdefs oldHi (by simp [IRStmt.defs, hold])
      simpa [this] using hdiff
    rw [IRStmt.defs, hold, hdata]
    apply wp_bind
    apply wpt_wrTmp_load (htype hhi.type) (hmono haddrHi) hnewHi
    apply wp_bind
    apply wpt_originalStoreCAS (hmono (hmono haddrLo)) (hmono (hmono hdataLo)) hne
      (hmono (hmono htmp))
    apply wpt_originalStoreCAS (hmono (hmono haddrHi)) (hmono (hmono hdataHi)) hne
      (hmono (hmono htmp))
    exact ⟨rfl, by simp⟩

/-- **One statement keeps the invariant.** -/
theorem wpt_dgInstrumentStmt (c : Context eh denv o tyenv w)
    (ht : Tracks eh.layers tyenv pre D₀ env D) {st : IRStmt} (h : StmtOk o tyenv w pre D₀ st) :
    (checkMeaning w).wp (dgInstrumentStmt eh denv st) env D fun _ env' D' =>
      Tracks eh.layers tyenv pre (D₀ ++ st.defs) env' D' := by
  apply wp_bind
  apply wp_mono (wpt_addStatementModified c ht h)
  rintro casSucceeded env' D' ⟨hadds, hcas⟩
  have hstep := ht.step hadds (lt_of_mem_defs h.tc)
  have hother : (∀ d, st ≠ .cas d) →
      (checkMeaning w).wp (addStmt st) env' D' fun _ env'' D'' =>
        Tracks eh.layers tyenv pre (D₀ ++ st.defs) env'' D'' := by
    intro _
    refine wpt_addStmt ?_ (fun t ht' => hadds.subset (ht.assigned (h.reads t ht')))
      (h.defs_after ht hadds) h.nodup hstep
    obtain ⟨tys, htys⟩ := ht.declared.trans hadds.tyenv
    rw [← htys, shadowedTyenv, List.append_assoc]
    exact tcStmt_append _ h.tc
  cases st with
  | cas d =>
    obtain ⟨tmp, rfl, htmp⟩ := hcas d rfl
    apply wp_mono (wpt_originalCAS c ht h hadds htmp)
    rintro _ env'' D'' ⟨rfl, rfl⟩
    exact hstep
  | _ => exact hother (by simp)

end Statements

end Rules

end Derivgrind
