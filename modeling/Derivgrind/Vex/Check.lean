import Derivgrind.Vex.Syntax

/-!
# The sanity check of superblocks

`sanityCheckIRSB` type-checks all statements, and checks that temporaries are
assigned at most once, and not read before.  The check of this file follows it, and
in addition it type-checks the arguments of dirty calls, and the expressions in
compare-and-swap statements and hints.  Of the checks of LL/SC statements, only those
of the temporary and of the operands are there, and the checks of the number of `VECRET`
arguments are left out, as are plausibility checks that have nothing to do with types,
such as for the length of instructions.

## Main definitions

* `tcExpr`, `tcStmt` — the type check.
* `IRStmt.reads`, `IRStmt.defs` — the temporaries that are read and assigned.
* `checkStmts`, `IRSB.wellFormed` — the sanity check.
* `Typed` — an expression passes the check, and has a type.

## Main results

* `Typed.mono`, `checkStmts_mono` — declarations that are added later do not matter.
-/

namespace Derivgrind

/-! ### Temporaries -/

mutual

/-- The temporaries that are read by an expression. -/
@[simp] def IRExpr.reads : IRExpr → List IRTemp
  | .get _ _ => []
  | .getI _ ix _ => ix.reads
  | .rdTmp tmp => [tmp]
  | .qop _ a b c d => a.reads ++ b.reads ++ c.reads ++ d.reads
  | .triop _ a b c => a.reads ++ b.reads ++ c.reads
  | .binop _ a b => a.reads ++ b.reads
  | .unop _ a => a.reads
  | .load _ _ addr => addr.reads
  | .const _ => []
  | .ite cond iftrue iffalse => cond.reads ++ iftrue.reads ++ iffalse.reads
  | .ccall _ _ args => IRExpr.allReads args
  | .vecret => []
  | .gsptr => []

/-- The temporaries that are read by several expressions. -/
@[simp] def IRExpr.allReads : List IRExpr → List IRTemp
  | [] => []
  | e :: es => e.reads ++ IRExpr.allReads es

end

theorem IRExpr.mem_allReads {e : IRExpr} {es : List IRExpr} (he : e ∈ es) :
    ∀ t ∈ e.reads, t ∈ IRExpr.allReads es := by
  intro t ht
  induction es with
  | nil => cases he
  | cons e' es ih =>
    rw [IRExpr.allReads, List.mem_append]
    rcases List.mem_cons.mp he with rfl | he
    · exact Or.inl ht
    · exact Or.inr (ih he)

/-- The expressions in a statement. -/
def IRStmt.exprs : IRStmt → List IRExpr
  | .noOp => []
  | .iMark _ _ _ => []
  | .abiHint base _ nia => [base, nia]
  | .put _ data => [data]
  | .putI _ ix _ data => [ix, data]
  | .wrTmp _ data => [data]
  | .store _ addr data => [addr, data]
  | .storeG _ addr data guard => [addr, data, guard]
  | .loadG _ _ _ addr alt guard => [addr, alt, guard]
  | .cas d => [d.addr, d.expdLo, d.dataLo] ++ d.expdHi.toList ++ d.dataHi.toList
  | .llsc _ _ addr storedata => addr :: storedata.toList
  | .dirty d => d.guard :: d.args
  | .mbe => []
  | .exit guard _ _ _ => [guard]

/-- The temporaries that are read by a statement. -/
def IRStmt.reads (st : IRStmt) : List IRTemp := IRExpr.allReads st.exprs

/-- The temporaries that are assigned by a statement. -/
def IRStmt.defs : IRStmt → List IRTemp
  | .wrTmp tmp _ => [tmp]
  | .loadG _ _ dst _ _ _ => [dst]
  | .cas d => d.oldLo :: d.oldHi.toList
  | .llsc _ result _ _ => [result]
  | .dirty d => d.tmp.toList
  | _ => []

/-! ### Types -/

/-- Addresses are words of 32 or 64 bits. -/
def tcConst : IRConst → Bool
  | .bufferAddr ty _ => ty = .i32 || ty = .i64
  | _ => true

mutual

/-- `tcExpr`.  The placeholders are not allowed. -/
@[simp] def tcExpr (tyenv : List IRType) (wordTy : IRType) : IRExpr → Bool
  | .get _ _ => true
  | .getI _ ix _ => tcExpr tyenv wordTy ix && typeOfIRExpr tyenv ix = some .i32
  | .rdTmp tmp => tmp < tyenv.length
  | .qop op a b c d =>
      tcExpr tyenv wordTy a && tcExpr tyenv wordTy b && tcExpr tyenv wordTy c &&
        tcExpr tyenv wordTy d && (typeOfPrimop op).args.map some =
          [typeOfIRExpr tyenv a, typeOfIRExpr tyenv b, typeOfIRExpr tyenv c, typeOfIRExpr tyenv d]
  | .triop op a b c =>
      tcExpr tyenv wordTy a && tcExpr tyenv wordTy b && tcExpr tyenv wordTy c &&
        (typeOfPrimop op).args.map some =
          [typeOfIRExpr tyenv a, typeOfIRExpr tyenv b, typeOfIRExpr tyenv c]
  | .binop op a b =>
      tcExpr tyenv wordTy a && tcExpr tyenv wordTy b &&
        (typeOfPrimop op).args.map some = [typeOfIRExpr tyenv a, typeOfIRExpr tyenv b]
  | .unop op a =>
      tcExpr tyenv wordTy a && (typeOfPrimop op).args.map some = [typeOfIRExpr tyenv a]
  | .load _ _ addr => tcExpr tyenv wordTy addr && typeOfIRExpr tyenv addr = some wordTy
  | .const con => tcConst con
  | .ite cond iftrue iffalse =>
      tcExpr tyenv wordTy cond && tcExpr tyenv wordTy iftrue && tcExpr tyenv wordTy iffalse &&
        typeOfIRExpr tyenv cond = some .i1 &&
        typeOfIRExpr tyenv iftrue = typeOfIRExpr tyenv iffalse
  | .ccall _ retty args => tcExprs tyenv wordTy args && retty ≠ .i1
  | .vecret => false
  | .gsptr => false

/-- The arguments of calls cannot be bits. -/
@[simp] def tcExprs (tyenv : List IRType) (wordTy : IRType) : List IRExpr → Bool
  | [] => true
  | e :: es => tcExpr tyenv wordTy e && typeOfIRExpr tyenv e ≠ some .i1 && tcExprs tyenv wordTy es

end

/-- An expression of the given type. -/
def hasTy (tyenv : List IRType) (wordTy : IRType) (e : IRExpr) (ty : IRType) : Bool :=
  tcExpr tyenv wordTy e && typeOfIRExpr tyenv e = some ty

/-- Data that can be written to registers and memory, or given to calls: not a bit. -/
def isData (tyenv : List IRType) (wordTy : IRType) (e : IRExpr) : Bool :=
  tcExpr tyenv wordTy e && (typeOfIRExpr tyenv e).isSome && typeOfIRExpr tyenv e ≠ some .i1

/-- The arguments of dirty calls may be placeholders. -/
def tcArg (tyenv : List IRType) (wordTy : IRType) : IRExpr → Bool
  | .vecret => true
  | .gsptr => true
  | e => isData tyenv wordTy e

/-- The types in one half of a compare-and-swap statement agree. -/
def tcCAS (tyenv : List IRType) (wordTy ty : IRType) (old : IRTemp) (expd data : IRExpr) : Bool :=
  tyenv[old]? = some ty && hasTy tyenv wordTy expd ty && hasTy tyenv wordTy data ty

/-- The types of elements in compare-and-swap statements. -/
def casTypes (wordTy : IRType) : List IRType :=
  [.i8, .i16, .i32] ++ if wordTy = .i64 then [.i64] else []

/-- `typeOfIRLoadGOp`: the type of the result. -/
def IRLoadGOp.type : IRLoadGOp → IRType
  | .identV128 => .v128
  | .ident64 => .i64
  | .ident32 => .i32
  | .cvt16Uto32 => .i32
  | .cvt16Sto32 => .i32
  | .cvt8Uto32 => .i32
  | .cvt8Sto32 => .i32

/-- `tcStmt`. -/
def tcStmt (tyenv : List IRType) (wordTy : IRType) : IRStmt → Bool
  | .noOp => true
  | .iMark _ _ _ => true
  | .abiHint base _ nia => hasTy tyenv wordTy base wordTy && hasTy tyenv wordTy nia wordTy
  | .put _ data => isData tyenv wordTy data
  | .putI descr ix _ data =>
      isData tyenv wordTy data && hasTy tyenv wordTy data descr.elemTy && hasTy tyenv wordTy ix .i32
  | .wrTmp tmp data =>
      tcExpr tyenv wordTy data && tyenv[tmp]?.isSome && tyenv[tmp]? = typeOfIRExpr tyenv data
  | .store _ addr data => hasTy tyenv wordTy addr wordTy && isData tyenv wordTy data
  | .storeG _ addr data guard =>
      hasTy tyenv wordTy addr wordTy && isData tyenv wordTy data && hasTy tyenv wordTy guard .i1
  | .loadG _ cvt dst addr alt guard =>
      tyenv[dst]? = some cvt.type && hasTy tyenv wordTy addr wordTy &&
        hasTy tyenv wordTy alt cvt.type && hasTy tyenv wordTy guard .i1
  | .cas d =>
      hasTy tyenv wordTy d.addr wordTy && (casTypes wordTy).any fun ty =>
        tcCAS tyenv wordTy ty d.oldLo d.expdLo d.dataLo &&
          match d.oldHi, d.expdHi, d.dataHi with
          | none, none, none => true
          | some oldHi, some expdHi, some dataHi => tcCAS tyenv wordTy ty oldHi expdHi dataHi
          | _, _, _ => false
  | .llsc _ result addr storedata =>
      tyenv[result]?.isSome && hasTy tyenv wordTy addr wordTy &&
        storedata.toList.all (isData tyenv wordTy)
  | .dirty d =>
      hasTy tyenv wordTy d.guard .i1 && d.args.all (tcArg tyenv wordTy) &&
        d.tmp.toList.all fun tmp => tyenv[tmp]?.isSome && tyenv[tmp]? ≠ some .i1
  | .mbe => true
  | .exit guard _ _ _ => hasTy tyenv wordTy guard .i1

/-! ### The check -/

/-- Check a statement, given the temporaries that have been assigned.  The result is the
list of temporaries that have been assigned afterwards. -/
def checkStmt (tyenv : List IRType) (wordTy : IRType) (assigned : List IRTemp) (st : IRStmt) :
    Option (List IRTemp) :=
  if tcStmt tyenv wordTy st && st.reads.all (· ∈ assigned) && st.defs.all (· ∉ assigned) &&
      st.defs.Nodup then
    some (assigned ++ st.defs)
  else none

/-- Check statements. -/
def checkStmts (tyenv : List IRType) (wordTy : IRType) (assigned : List IRTemp)
    (sts : List IRStmt) : Option (List IRTemp) :=
  sts.foldlM (checkStmt tyenv wordTy) assigned

/-- `sanityCheckIRSB`.  The arguments of dirty calls are checked in addition; checks of the types
in LL/SC statements and of the number of `VECRET` arguments are left out. -/
def IRSB.wellFormed (sb : IRSB) (wordTy : IRType) : Bool :=
  match checkStmts sb.tyenv wordTy [] sb.stmts with
  | some assigned => hasTy sb.tyenv wordTy sb.next wordTy && sb.next.reads.all (· ∈ assigned)
  | none => false

section Lemmas

variable {env : List IRType} {w : IRType} {D D' : List IRTemp}

/-- Everything a successful check tells. -/
theorem checkStmt_eq_some {st : IRStmt} (h : checkStmt env w D st = some D') :
    tcStmt env w st = true ∧ (∀ t ∈ st.reads, t ∈ D) ∧ (∀ t ∈ st.defs, t ∉ D) ∧ st.defs.Nodup ∧
      D' = D ++ st.defs := by
  unfold checkStmt at h
  split at h
  · rename_i hcheck
    simp only [Bool.and_eq_true, List.all_eq_true, decide_eq_true_eq] at hcheck
    exact ⟨hcheck.1.1.1, hcheck.1.1.2, hcheck.1.2, hcheck.2, (Option.some_inj.mp h).symm⟩
  · cases h

theorem checkStmt_of {st : IRStmt} (htc : tcStmt env w st = true) (hreads : ∀ t ∈ st.reads, t ∈ D)
    (hdefs : ∀ t ∈ st.defs, t ∉ D) (hnodup : st.defs.Nodup) :
    checkStmt env w D st = some (D ++ st.defs) := by
  unfold checkStmt
  rw [if_pos]
  simp only [Bool.and_eq_true, List.all_eq_true, decide_eq_true_eq]
  exact ⟨⟨⟨htc, hreads⟩, hdefs⟩, hnodup⟩

theorem checkStmts_append (sts sts' : List IRStmt) :
    checkStmts env w D (sts ++ sts') = (checkStmts env w D sts).bind fun D' =>
      checkStmts env w D' sts' := by
  unfold checkStmts
  rw [List.foldlM_append]
  rfl

/-! ### Expressions that pass the check -/

/-- An expression passes the check, and has the given type. -/
structure Typed (env : List IRType) (w : IRType) (D : List IRTemp) (e : IRExpr) (ty : IRType) :
    Prop where
  tc : tcExpr env w e = true
  type : typeOfIRExpr env e = some ty
  reads : ∀ t ∈ e.reads, t ∈ D

namespace Typed

variable {a b c d e : IRExpr} {ta tb tc' td ty : IRType}

theorem hasTy (h : Typed env w D e ty) : hasTy env w e ty = true := by
  unfold Derivgrind.hasTy
  rw [h.tc, h.type]
  simp

theorem isData (h : Typed env w D e ty) (hty : ty ≠ .i1) : isData env w e = true := by
  unfold Derivgrind.isData
  rw [h.tc, h.type]
  simpa using hty

theorem of_hasTy (h : Derivgrind.hasTy env w e ty = true) (hreads : ∀ t ∈ e.reads, t ∈ D) :
    Typed env w D e ty := by
  unfold Derivgrind.hasTy at h
  rw [Bool.and_eq_true, decide_eq_true_eq] at h
  exact ⟨h.1, h.2, hreads⟩

theorem of_isData (h : Derivgrind.isData env w e = true) (hreads : ∀ t ∈ e.reads, t ∈ D) :
    ∃ ty, Typed env w D e ty ∧ ty ≠ .i1 := by
  unfold Derivgrind.isData at h
  simp only [Bool.and_eq_true, decide_eq_true_eq] at h
  obtain ⟨ty, hty⟩ := Option.isSome_iff_exists.mp h.1.2
  exact ⟨ty, ⟨h.1.1, hty, hreads⟩, by simpa [hty] using h.2⟩

theorem const (con : IRConst) (h : tcConst con = true) :
    Typed env w D (.const con) (typeOfIRConst con) :=
  ⟨h, rfl, by simp [IRExpr.reads]⟩

theorem rdTmp {tmp : IRTemp} (hty : env[tmp]? = some ty) (hD : tmp ∈ D) :
    Typed env w D (.rdTmp tmp) ty := by
  refine ⟨?_, hty, by simpa [IRExpr.reads] using hD⟩
  unfold tcExpr
  obtain ⟨hlt, -⟩ := List.getElem?_eq_some_iff.mp hty
  exact decide_eq_true hlt

theorem get (offset : ℕ) (ty : IRType) : Typed env w D (.get offset ty) ty :=
  ⟨rfl, rfl, by simp [IRExpr.reads]⟩

theorem getI (descr : IRRegArray) (bias : ℤ) (h : Typed env w D e .i32) :
    Typed env w D (.getI descr e bias) descr.elemTy := by
  refine ⟨?_, rfl, by simpa [IRExpr.reads] using h.reads⟩
  unfold tcExpr
  rw [h.tc, h.type]
  rfl

theorem load (endness : IREndness) (ty : IRType) (h : Typed env w D e w) :
    Typed env w D (.load endness ty e) ty := by
  refine ⟨?_, rfl, by simpa [IRExpr.reads] using h.reads⟩
  unfold tcExpr
  rw [h.tc, h.type]
  simp

theorem unop {op : IROp} (hop : typeOfPrimop op = ⟨[ta], ty⟩) (ha : Typed env w D a ta) :
    Typed env w D (.unop op a) ty := by
  refine ⟨?_, by unfold typeOfIRExpr; rw [hop], by simpa [IRExpr.reads] using ha.reads⟩
  unfold tcExpr
  rw [ha.tc, ha.type, hop]
  simp

theorem binop {op : IROp} (hop : typeOfPrimop op = ⟨[ta, tb], ty⟩) (ha : Typed env w D a ta)
    (hb : Typed env w D b tb) : Typed env w D (.binop op a b) ty := by
  refine ⟨?_, by unfold typeOfIRExpr; rw [hop], ?_⟩
  · unfold tcExpr
    rw [ha.tc, ha.type, hb.tc, hb.type, hop]
    simp
  · intro t ht
    rw [IRExpr.reads, List.mem_append] at ht
    exact ht.elim (ha.reads t) (hb.reads t)

theorem triop {op : IROp} (hop : typeOfPrimop op = ⟨[ta, tb, tc'], ty⟩) (ha : Typed env w D a ta)
    (hb : Typed env w D b tb) (hc : Typed env w D c tc') : Typed env w D (.triop op a b c) ty := by
  refine ⟨?_, by unfold typeOfIRExpr; rw [hop], ?_⟩
  · unfold tcExpr
    rw [ha.tc, ha.type, hb.tc, hb.type, hc.tc, hc.type, hop]
    simp
  · intro t ht
    rw [IRExpr.reads, List.mem_append, List.mem_append] at ht
    exact ht.elim (fun h => h.elim (ha.reads t) (hb.reads t)) (hc.reads t)

theorem qop {op : IROp} (hop : typeOfPrimop op = ⟨[ta, tb, tc', td], ty⟩)
    (ha : Typed env w D a ta) (hb : Typed env w D b tb) (hc : Typed env w D c tc')
    (hd : Typed env w D d td) : Typed env w D (.qop op a b c d) ty := by
  refine ⟨?_, by unfold typeOfIRExpr; rw [hop], ?_⟩
  · unfold tcExpr
    rw [ha.tc, ha.type, hb.tc, hb.type, hc.tc, hc.type, hd.tc, hd.type, hop]
    simp
  · intro t ht
    rw [IRExpr.reads, List.mem_append, List.mem_append, List.mem_append] at ht
    exact ht.elim (fun h => h.elim (fun h => h.elim (ha.reads t) (hb.reads t)) (hc.reads t))
      (hd.reads t)

theorem ite (hc : Typed env w D c .i1) (ha : Typed env w D a ty) (hb : Typed env w D b ty) :
    Typed env w D (.ite c a b) ty := by
  refine ⟨?_, hb.type, ?_⟩
  · unfold tcExpr
    rw [ha.tc, ha.type, hb.tc, hb.type, hc.tc, hc.type]
    simp
  · intro t ht
    rw [IRExpr.reads, List.mem_append, List.mem_append] at ht
    exact ht.elim (fun h => h.elim (hc.reads t) (ha.reads t)) (hb.reads t)

/-- The arguments of calls. -/
theorem exprs {es : List IRExpr} (h : ∀ e ∈ es, ∃ ty, Typed env w D e ty ∧ ty ≠ .i1) :
    tcExprs env w es = true ∧ ∀ t ∈ IRExpr.allReads es, t ∈ D := by
  induction es with
  | nil => exact ⟨rfl, by simp [IRExpr.allReads]⟩
  | cons e es ih =>
    obtain ⟨ty, he, hty⟩ := h e List.mem_cons_self
    obtain ⟨htc, hreads⟩ := ih fun e' he' => h e' (List.mem_cons_of_mem e he')
    constructor
    · unfold tcExprs
      rw [he.tc, he.type, htc]
      simpa using hty
    · intro t ht
      rw [IRExpr.allReads, List.mem_append] at ht
      exact ht.elim (he.reads t) (hreads t)

theorem ccall (cee : IRCallee) {retty : IRType} {es : List IRExpr} (hret : retty ≠ .i1)
    (h : ∀ e ∈ es, ∃ ty, Typed env w D e ty ∧ ty ≠ .i1) :
    Typed env w D (.ccall cee retty es) retty := by
  obtain ⟨htc, hreads⟩ := exprs h
  refine ⟨?_, rfl, by simpa [IRExpr.reads] using hreads⟩
  unfold tcExpr
  rw [htc]
  simpa using hret

/-! What the check of an expression tells about its parts. -/

theorem reads_mono (h : Typed env w D e ty) (hreads : ∀ t ∈ a.reads, t ∈ e.reads)
    (htc : tcExpr env w a = true) (hty : typeOfIRExpr env a = some ta) : Typed env w D a ta :=
  ⟨htc, hty, fun t ht => h.reads t (hreads t ht)⟩

theorem getI_inv {descr : IRRegArray} {bias : ℤ} (h : Typed env w D (.getI descr a bias) ty) :
    ty = descr.elemTy ∧ Typed env w D a .i32 := by
  have htc := h.tc
  simp only [tcExpr, Bool.and_eq_true, decide_eq_true_eq] at htc
  exact ⟨(Option.some_inj.mp h.type).symm, h.reads_mono (by simp [IRExpr.reads]) htc.1 htc.2⟩

theorem load_inv {endness : IREndness} {ty' : IRType}
    (h : Typed env w D (.load endness ty' a) ty) : ty = ty' ∧ Typed env w D a w := by
  have htc := h.tc
  simp only [tcExpr, Bool.and_eq_true, decide_eq_true_eq] at htc
  exact ⟨(Option.some_inj.mp h.type).symm, h.reads_mono (by simp [IRExpr.reads]) htc.1 htc.2⟩

theorem rdTmp_inv {tmp : IRTemp} (h : Typed env w D (.rdTmp tmp) ty) :
    env[tmp]? = some ty ∧ tmp ∈ D := ⟨h.type, h.reads tmp (by simp [IRExpr.reads])⟩

theorem ite_inv (h : Typed env w D (.ite c a b) ty) :
    Typed env w D c .i1 ∧ Typed env w D a ty ∧ Typed env w D b ty := by
  have htc := h.tc
  simp only [tcExpr, Bool.and_eq_true, decide_eq_true_eq] at htc
  obtain ⟨⟨⟨⟨hc, ha⟩, hb⟩, hc1⟩, hab⟩ := htc
  have hty : typeOfIRExpr env b = some ty := h.type
  refine ⟨h.reads_mono ?_ hc hc1, h.reads_mono ?_ ha (hab.trans hty), h.reads_mono ?_ hb hty⟩ <;>
    exact fun t ht => by simp [IRExpr.reads, ht]

theorem unop_inv {op : IROp} (h : Typed env w D (.unop op a) ty) :
    ∃ ta, typeOfPrimop op = ⟨[ta], ty⟩ ∧ Typed env w D a ta := by
  have htc := h.tc
  simp only [tcExpr, Bool.and_eq_true, decide_eq_true_eq, List.map_eq_cons_iff,
    List.map_eq_nil_iff] at htc
  obtain ⟨ha, ta, _, hargs, hta, rfl⟩ := htc
  refine ⟨ta, ?_, h.reads_mono (by simp [IRExpr.reads]) ha hta.symm⟩
  rw [← hargs, ← Option.some_inj.mp h.type]

theorem binop_inv {op : IROp} (h : Typed env w D (.binop op a b) ty) :
    ∃ ta tb, typeOfPrimop op = ⟨[ta, tb], ty⟩ ∧ Typed env w D a ta ∧ Typed env w D b tb := by
  have htc := h.tc
  simp only [tcExpr, Bool.and_eq_true, decide_eq_true_eq, List.map_eq_cons_iff,
    List.map_eq_nil_iff] at htc
  obtain ⟨⟨ha, hb⟩, ta, _, hargs, hta, tb, _, rfl, htb, rfl⟩ := htc
  refine ⟨ta, tb, ?_, h.reads_mono ?_ ha hta.symm, h.reads_mono ?_ hb htb.symm⟩
  · rw [← hargs, ← Option.some_inj.mp h.type]
  all_goals exact fun t ht => by simp [IRExpr.reads, ht]

theorem triop_inv {op : IROp} (h : Typed env w D (.triop op a b c) ty) :
    ∃ ta tb tc, typeOfPrimop op = ⟨[ta, tb, tc], ty⟩ ∧ Typed env w D a ta ∧ Typed env w D b tb ∧
      Typed env w D c tc := by
  have htc := h.tc
  simp only [tcExpr, Bool.and_eq_true, decide_eq_true_eq, List.map_eq_cons_iff,
    List.map_eq_nil_iff] at htc
  obtain ⟨⟨⟨ha, hb⟩, hc⟩, ta, _, hargs, hta, tb, _, rfl, htb, tc, _, rfl, htc, rfl⟩ := htc
  refine ⟨ta, tb, tc, ?_, h.reads_mono ?_ ha hta.symm, h.reads_mono ?_ hb htb.symm,
    h.reads_mono ?_ hc htc.symm⟩
  · rw [← hargs, ← Option.some_inj.mp h.type]
  all_goals exact fun t ht => by simp [IRExpr.reads, ht]

theorem qop_inv {op : IROp} (h : Typed env w D (.qop op a b c d) ty) :
    ∃ ta tb tc td, typeOfPrimop op = ⟨[ta, tb, tc, td], ty⟩ ∧ Typed env w D a ta ∧
      Typed env w D b tb ∧ Typed env w D c tc ∧ Typed env w D d td := by
  have htc := h.tc
  simp only [tcExpr, Bool.and_eq_true, decide_eq_true_eq, List.map_eq_cons_iff,
    List.map_eq_nil_iff] at htc
  obtain ⟨⟨⟨⟨ha, hb⟩, hc⟩, hd⟩, ta, _, hargs, hta, tb, _, rfl, htb, tc, _, rfl, htc, td, _, rfl, htd,
    rfl⟩ := htc
  refine ⟨ta, tb, tc, td, ?_, h.reads_mono ?_ ha hta.symm, h.reads_mono ?_ hb htb.symm,
    h.reads_mono ?_ hc htc.symm, h.reads_mono ?_ hd htd.symm⟩
  · rw [← hargs, ← Option.some_inj.mp h.type]
  all_goals exact fun t ht => by simp [IRExpr.reads, ht]

end Typed

end Lemmas

/-! ### Declarations that are added later -/

section Mono

variable {env : List IRType} {w : IRType} (tys : List IRType)

/-- Expressions that pass the check have a type. -/
theorem exists_typeOfIRExpr : ∀ {e : IRExpr}, tcExpr env w e = true →
    ∃ ty, typeOfIRExpr env e = some ty
  | .rdTmp tmp, h => by
      unfold tcExpr at h
      exact ⟨_, List.getElem?_eq_getElem (of_decide_eq_true h)⟩
  | .ite cond iftrue iffalse, h => by
      unfold tcExpr at h
      simp only [Bool.and_eq_true] at h
      show ∃ ty, typeOfIRExpr env iffalse = some ty
      exact exists_typeOfIRExpr h.1.1.2
  | .get _ _, _ => ⟨_, rfl⟩
  | .getI _ _ _, _ => ⟨_, rfl⟩
  | .qop _ _ _ _ _, _ => ⟨_, rfl⟩
  | .triop _ _ _ _, _ => ⟨_, rfl⟩
  | .binop _ _ _, _ => ⟨_, rfl⟩
  | .unop _ _, _ => ⟨_, rfl⟩
  | .load _ _ _, _ => ⟨_, rfl⟩
  | .const _, _ => ⟨_, rfl⟩
  | .ccall _ _ _, _ => ⟨_, rfl⟩

/-- The arguments of a call that passes the check. -/
theorem Typed.exprs_inv {D : List IRTemp} {es : List IRExpr} (htc : tcExprs env w es = true)
    (hreads : ∀ t ∈ IRExpr.allReads es, t ∈ D) : ∀ e ∈ es, ∃ ty, Typed env w D e ty := by
  induction es with
  | nil => simp
  | cons e es ih =>
    simp only [tcExprs, Bool.and_eq_true] at htc
    simp only [IRExpr.allReads, List.mem_append] at hreads
    intro e' he'
    rcases List.mem_cons.mp he' with rfl | he'
    · obtain ⟨ty, hty⟩ := exists_typeOfIRExpr htc.1.1
      exact ⟨ty, htc.1.1, hty, fun t ht => hreads t (Or.inl ht)⟩
    · exact ih htc.2 (fun t ht => hreads t (Or.inr ht)) e' he'

theorem typeOfIRExpr_append_of_tc {e : IRExpr} (h : tcExpr env w e = true) :
    typeOfIRExpr (env ++ tys) e = typeOfIRExpr env e := by
  obtain ⟨ty, hty⟩ := exists_typeOfIRExpr h
  rw [hty, typeOfIRExpr_append tys e hty]

mutual

/-- The type check does not depend on temporaries that are added later. -/
theorem tcExpr_append : ∀ e : IRExpr, tcExpr env w e = true → tcExpr (env ++ tys) w e = true
  | .get _ _, _ => rfl
  | .getI _ ix _, h => by
      simp only [tcExpr, Bool.and_eq_true] at h ⊢
      exact ⟨tcExpr_append ix h.1, by rw [typeOfIRExpr_append_of_tc tys h.1]; exact h.2⟩
  | .rdTmp tmp, h => by
      simp only [tcExpr, decide_eq_true_eq, List.length_append] at h ⊢
      exact Nat.lt_of_lt_of_le h (Nat.le_add_right _ _)
  | .qop op a b c d, h => by
      simp only [tcExpr, Bool.and_eq_true] at h ⊢
      obtain ⟨⟨⟨⟨ha, hb⟩, hc⟩, hd⟩, hop⟩ := h
      rw [typeOfIRExpr_append_of_tc tys ha, typeOfIRExpr_append_of_tc tys hb,
        typeOfIRExpr_append_of_tc tys hc, typeOfIRExpr_append_of_tc tys hd]
      exact ⟨⟨⟨⟨tcExpr_append a ha, tcExpr_append b hb⟩, tcExpr_append c hc⟩, tcExpr_append d hd⟩,
        hop⟩
  | .triop op a b c, h => by
      simp only [tcExpr, Bool.and_eq_true] at h ⊢
      obtain ⟨⟨⟨ha, hb⟩, hc⟩, hop⟩ := h
      rw [typeOfIRExpr_append_of_tc tys ha, typeOfIRExpr_append_of_tc tys hb,
        typeOfIRExpr_append_of_tc tys hc]
      exact ⟨⟨⟨tcExpr_append a ha, tcExpr_append b hb⟩, tcExpr_append c hc⟩, hop⟩
  | .binop op a b, h => by
      simp only [tcExpr, Bool.and_eq_true] at h ⊢
      obtain ⟨⟨ha, hb⟩, hop⟩ := h
      rw [typeOfIRExpr_append_of_tc tys ha, typeOfIRExpr_append_of_tc tys hb]
      exact ⟨⟨tcExpr_append a ha, tcExpr_append b hb⟩, hop⟩
  | .unop op a, h => by
      simp only [tcExpr, Bool.and_eq_true] at h ⊢
      rw [typeOfIRExpr_append_of_tc tys h.1]
      exact ⟨tcExpr_append a h.1, h.2⟩
  | .load _ _ addr, h => by
      simp only [tcExpr, Bool.and_eq_true] at h ⊢
      rw [typeOfIRExpr_append_of_tc tys h.1]
      exact ⟨tcExpr_append addr h.1, h.2⟩
  | .const _, h => h
  | .ite c a b, h => by
      simp only [tcExpr, Bool.and_eq_true] at h ⊢
      obtain ⟨⟨⟨⟨hc, ha⟩, hb⟩, hc1⟩, hab⟩ := h
      rw [typeOfIRExpr_append_of_tc tys ha, typeOfIRExpr_append_of_tc tys hb,
        typeOfIRExpr_append_of_tc tys hc]
      exact ⟨⟨⟨⟨tcExpr_append c hc, tcExpr_append a ha⟩, tcExpr_append b hb⟩, hc1⟩, hab⟩
  | .ccall _ _ args, h => by
      simp only [tcExpr, Bool.and_eq_true] at h ⊢
      exact ⟨tcExprs_append args h.1, h.2⟩

theorem tcExprs_append : ∀ es : List IRExpr, tcExprs env w es = true →
    tcExprs (env ++ tys) w es = true
  | [], _ => rfl
  | e :: es, h => by
      simp only [tcExprs, Bool.and_eq_true] at h ⊢
      rw [typeOfIRExpr_append_of_tc tys h.1.1]
      exact ⟨⟨tcExpr_append e h.1.1, h.1.2⟩, tcExprs_append es h.2⟩

end

theorem Typed.mono {D D' : List IRTemp} {e : IRExpr} {ty : IRType} (h : Typed env w D e ty)
    (hD : D ⊆ D') : Typed (env ++ tys) w D' e ty :=
  ⟨tcExpr_append tys e h.tc, typeOfIRExpr_append tys e h.type, fun t ht => hD (h.reads t ht)⟩

theorem hasTy_append {e : IRExpr} {ty : IRType} (h : hasTy env w e ty = true) :
    hasTy (env ++ tys) w e ty = true := by
  unfold hasTy at h ⊢
  rw [Bool.and_eq_true] at h ⊢
  rw [typeOfIRExpr_append_of_tc tys h.1]
  exact ⟨tcExpr_append tys e h.1, h.2⟩

theorem isData_append {e : IRExpr} (h : isData env w e = true) :
    isData (env ++ tys) w e = true := by
  unfold isData at h ⊢
  rw [Bool.and_eq_true, Bool.and_eq_true] at h ⊢
  rw [typeOfIRExpr_append_of_tc tys h.1.1]
  exact ⟨⟨tcExpr_append tys e h.1.1, h.1.2⟩, h.2⟩

theorem tcArg_append {e : IRExpr} (h : tcArg env w e = true) : tcArg (env ++ tys) w e = true := by
  cases e with
  | vecret => rfl
  | gsptr => rfl
  | _ => exact isData_append tys h

theorem getElem?_append_of_isSome {tmp : IRTemp} (h : env[tmp]?.isSome = true) :
    (env ++ tys)[tmp]? = env[tmp]? := by
  obtain ⟨ty, hty⟩ := Option.isSome_iff_exists.mp h
  obtain ⟨hlt, -⟩ := List.getElem?_eq_some_iff.mp hty
  exact List.getElem?_append_left hlt

theorem tcCAS_append {ty : IRType} {old : IRTemp} {expd data : IRExpr}
    (h : tcCAS env w ty old expd data = true) : tcCAS (env ++ tys) w ty old expd data = true := by
  unfold tcCAS at h ⊢
  simp only [Bool.and_eq_true, decide_eq_true_eq] at h ⊢
  rw [getElem?_append_of_isSome tys (by rw [h.1.1]; rfl)]
  exact ⟨⟨h.1.1, hasTy_append tys h.1.2⟩, hasTy_append tys h.2⟩

theorem tcStmt_append {st : IRStmt} (h : tcStmt env w st = true) :
    tcStmt (env ++ tys) w st = true := by
  cases st with
  | noOp => rfl
  | iMark _ _ _ => rfl
  | mbe => rfl
  | abiHint base len nia =>
    simp only [tcStmt, Bool.and_eq_true] at h ⊢
    exact ⟨hasTy_append tys h.1, hasTy_append tys h.2⟩
  | put offset data => exact isData_append tys h
  | putI descr ix bias data =>
    simp only [tcStmt, Bool.and_eq_true] at h ⊢
    exact ⟨⟨isData_append tys h.1.1, hasTy_append tys h.1.2⟩, hasTy_append tys h.2⟩
  | wrTmp tmp data =>
    simp only [tcStmt, Bool.and_eq_true] at h ⊢
    rw [getElem?_append_of_isSome tys h.1.2, typeOfIRExpr_append_of_tc tys h.1.1]
    exact ⟨⟨tcExpr_append tys data h.1.1, h.1.2⟩, h.2⟩
  | store endness addr data =>
    simp only [tcStmt, Bool.and_eq_true] at h ⊢
    exact ⟨hasTy_append tys h.1, isData_append tys h.2⟩
  | storeG endness addr data guard =>
    simp only [tcStmt, Bool.and_eq_true] at h ⊢
    exact ⟨⟨hasTy_append tys h.1.1, isData_append tys h.1.2⟩, hasTy_append tys h.2⟩
  | loadG endness cvt dst addr alt guard =>
    simp only [tcStmt, Bool.and_eq_true, decide_eq_true_eq] at h ⊢
    rw [getElem?_append_of_isSome tys (by rw [h.1.1.1]; rfl)]
    exact ⟨⟨⟨h.1.1.1, hasTy_append tys h.1.1.2⟩, hasTy_append tys h.1.2⟩, hasTy_append tys h.2⟩
  | cas d =>
    simp only [tcStmt, Bool.and_eq_true, List.any_eq_true] at h ⊢
    obtain ⟨haddr, ty, hty, hlo, hhi⟩ := h
    refine ⟨hasTy_append tys haddr, ty, hty, tcCAS_append tys hlo, ?_⟩
    split at hhi
    · rfl
    · exact tcCAS_append tys hhi
    · cases hhi
  | llsc endness result addr storedata =>
    simp only [tcStmt, Bool.and_eq_true, List.all_eq_true] at h ⊢
    rw [getElem?_append_of_isSome tys h.1.1]
    exact ⟨⟨h.1.1, hasTy_append tys h.1.2⟩, fun e he => isData_append tys (h.2 e he)⟩
  | dirty d =>
    simp only [tcStmt, Bool.and_eq_true, List.all_eq_true] at h ⊢
    refine ⟨⟨hasTy_append tys h.1.1, fun e he => tcArg_append tys (h.1.2 e he)⟩, ?_⟩
    intro tmp htmp
    rw [getElem?_append_of_isSome tys (h.2 tmp htmp).1]
    exact h.2 tmp htmp
  | exit guard jk dst offsIP => exact hasTy_append tys h

theorem checkStmt_mono {D D' : List IRTemp} {st : IRStmt} (h : checkStmt env w D st = some D') :
    checkStmt (env ++ tys) w D st = some D' := by
  obtain ⟨htc, hreads, hdefs, hnodup, rfl⟩ := checkStmt_eq_some h
  exact checkStmt_of (tcStmt_append tys htc) hreads hdefs hnodup

/-- The check does not depend on temporaries that are declared later. -/
theorem checkStmts_mono {sts : List IRStmt} : ∀ {D D' : List IRTemp},
    checkStmts env w D sts = some D' → checkStmts (env ++ tys) w D sts = some D' := by
  unfold checkStmts
  induction sts with
  | nil => intro D D' h; exact h
  | cons st sts ih =>
    intro D D' h
    rw [List.foldlM_cons] at h ⊢
    obtain ⟨D₁, hst, hsts⟩ := Option.bind_eq_some_iff.mp h
    exact Option.bind_eq_some_iff.mpr ⟨D₁, checkStmt_mono tys hst, ih hsts⟩

end Mono

end Derivgrind
