import Derivgrind.Instrument.OriginCode
import Derivgrind.Shadow.Calls

/-!
# Origins in the code for bitwise operations

The emitted code for a bitwise operation calls a handler for each word of 64 bits, and fetches both
layers of the index that the handler has left.  The lower halves of the layers belong to the lower
half of the word, the upper halves to the upper half.

## Main results

* `Numbering.Valid.handler64` — both halves of the result of a handler.
* `wp_bitwise_origins` — **the shadow of the result follows its origins.**
-/

namespace Derivgrind

open Emitter.Meaning

/-! ### Halves of words -/

/-- Lanes of four bytes are halves of a word. -/
theorem lowerHalf_lane {v : List Byte} (hv : v.length = 8) :
    lowerHalf (bitsOf 64 (lane 4 0 v)) = lowerHalf (bitsOf 64 v) ∧
      lowerHalf (bitsOf 64 (lane 4 1 v)) = upperHalf (bitsOf 64 v) := by
  have hlane : ∀ h < 2, (lane 4 h v).length = 4 := fun h hh => length_lane (by omega)
  have hlt : ∀ h < 2, bytesToNat (lane 4 h v) < 2 ^ 32 := fun h hh => by
    have hlt := bytesToNat_lt (lane 4 h v)
    rwa [hlane h hh] at hlt
  have hhalf : ∀ h < 2, (lowerHalf (bitsOf 64 (lane 4 h v))).toNat = bytesToNat (lane 4 h v) := by
    intro h hh
    rw [lowerHalf, BitVec.toNat_setWidth, toNat_bitsOf (by rw [hlane h hh]; decide),
      Nat.mod_eq_of_lt (hlt h hh)]
  have hjoin : bytesToNat v = bytesToNat (lane 4 0 v) + 2 ^ 32 * bytesToNat (lane 4 1 v) := by
    have hsplit := bytesToNat_append (v.take 4) (v.drop 4)
    rw [List.take_append_drop, List.length_take, Nat.min_eq_left (by omega)] at hsplit
    have hupper : lane 4 1 v = v.drop 4 := List.take_of_length_le (by rw [List.length_drop]; omega)
    rw [hupper]
    exact hsplit
  have h₀ := hlt 0 (by decide)
  have h₁ := hlt 1 (by decide)
  constructor
  · apply BitVec.eq_of_toNat_eq
    rw [hhalf 0 (by decide), lowerHalf, BitVec.toNat_setWidth, toNat_bitsOf (by rw [hv]), hjoin]
    omega
  · apply BitVec.eq_of_toNat_eq
    rw [hhalf 1 (by decide), upperHalf, BitVec.toNat_setWidth, BitVec.toNat_ushiftRight,
      toNat_bitsOf (by rw [hv]), hjoin, Nat.shiftRight_eq_div_pow]
    omega

/-- The bytes of both halves. -/
theorem bytesOf_append (u v : BitVec 32) : bytesOf (u ++ v : BitVec 64) = bytesOf v ++ bytesOf u := by
  have hu := u.isLt
  have hv := v.isLt
  have hnat : (u ++ v : BitVec 64).toNat = v.toNat + 256 ^ 4 * u.toNat := by
    rw [BitVec.toNat_append, ← Nat.shiftLeft_add_eq_or_of_lt hv, Nat.shiftLeft_eq]
    omega
  have hmod : natToBytes 4 (v.toNat + 256 ^ 4 * u.toNat) = natToBytes 4 v.toNat := by
    have hround := natToBytes_bytesToNat (natToBytes 4 (v.toNat + 256 ^ 4 * u.toNat))
    rw [bytesToNat_natToBytes, length_natToBytes, Nat.add_mul_mod_self_left,
      Nat.mod_eq_of_lt (by omega)] at hround
    exact hround.symm
  show natToBytes (4 + 4) _ = natToBytes 4 _ ++ natToBytes 4 _
  rw [hnat, natToBytes_add, hmod, Nat.add_mul_div_left _ _ (by decide), Nat.div_eq_of_lt (by omega),
    Nat.zero_add]

section Halves

variable {W : Numbering} {n k : ℕ} {upper : Bool} {t : BarTool} {lo hi : List Byte}
  {o : List Origin} {id : NumberId} {whole : Bool}

/-- The index of half a word that is whole. -/
theorem Numbering.issued_half (h : W.HoldsAll lo hi o) (hW : W.Valid n k upper t)
    (ho : o.length = 8) : (isWhole (lane 4 0 o) = true →
        t.bar.tape.Issued (indexOf (bitsOf 64 lo) (bitsOf 64 hi))) ∧
      (isWhole (lane 4 1 o) = true → t.bar.tape.Issued
        (indexOf (upperHalf (bitsOf 64 lo)) (upperHalf (bitsOf 64 hi)))) := by
  have hlane : ∀ i < 2, (lane 4 i o).length = 4 := fun i hi => length_lane (by omega)
  obtain ⟨hlo₀, hlo₁⟩ := lowerHalf_lane (h.length_lo.trans ho)
  obtain ⟨hhi₀, hhi₁⟩ := lowerHalf_lane (h.length_hi.trans ho)
  constructor
  · intro hwhole
    have hissued := (h.lane 4 0).issued hW (by rw [hlane 0 (by decide)])
      (by rw [hlane 0 (by decide)]; decide) hwhole
    rw [indexOf_eq (.inr rfl)]
    show t.bar.tape.Issued (lowerHalf (bitsOf 64 hi) ++ lowerHalf (bitsOf 64 lo))
    rw [← hlo₀, ← hhi₀]
    exact hissued
  · intro hwhole
    have hissued := (h.lane 4 1).issued hW (by rw [hlane 1 (by decide)])
      (by rw [hlane 1 (by decide)]; decide) hwhole
    rw [indexOf_eq (.inl rfl), BitVec.setWidth_eq, BitVec.setWidth_eq, ← hlo₁, ← hhi₁]
    exact hissued

/-- Both layers of half a word. -/
theorem Numbering.holdsAll_half {a b : BitVec 32} (h : whole = true → W.index id = some (b ++ a)) :
    W.HoldsAll (bytesOf a) (bytesOf b) (halfOrigins whole id) := by
  have ha : (bytesOf a).length = 4 := length_natToBytes _ _
  have hb : (bytesOf b).length = 4 := length_natToBytes _ _
  cases whole with
  | false => exact HoldsAll.unknown W ha hb
  | true =>
    have hnumber := W.holdsAll_number (h rfl) (n := 4) (by decide)
    rw [bytesOf_append, loIndex, hiIndex, List.take_left' ha, List.drop_left' ha,
      List.take_of_length_le (le_of_eq hb), List.take_left' ha, List.take_left' hb] at hnumber
    exact hnumber

end Halves

/-! ### The handlers -/

section Handlers

variable {c : RecordingContext} {F : FpSem Byte} {J : Interp Byte}
  (hbase : c.base.toInterp = hostInterp F J) (htype : c.tape.typegrind = false)
  (hram : c.tape.tapeInRam = false) {tid : ThreadId} {W : Numbering} {n m : ℕ}
  {upper upper' : Bool} {op : BitwiseOp}

include htype hram in
/-- **A handler** leaves the indices of the numbers in both halves of a word. -/
theorem Numbering.Valid.handler64 (tid : ThreadId) {t : BarTool}
    (hW : W.Valid n (2 * m) upper t) {x y : ULong}
    {xLo xHi yLo yHi : List Byte} {xo yo o : List Origin} (hx : W.HoldsAll xLo xHi xo)
    (hxo : xo.length = 8) (hy : W.HoldsAll yLo yHi yo) (hyo : yo.length = 8)
    (h : op.origins n m x y xo yo upper = some (o, upper')) :
    ∃ s', op.handler64 c.tape .b tid x (bitsOf 64 xLo) (bitsOf 64 xHi) y (bitsOf 64 yLo)
        (bitsOf 64 yHi) t.bar = some s' ∧
      ∃ W', W.Grows W' ∧ W'.Valid n (2 * (m + 1)) upper' { t with bar := s' } ∧
        W'.HoldsAll (bytesOf s'.bitwiseGetLower) (bytesOf s'.bitwiseGetHigher) o := by
  obtain ⟨hx₀, hx₁⟩ := issued_half hx hW hxo
  obtain ⟨hy₀, hy₁⟩ := issued_half hy hW hyo
  set whole₀ := isWhole (lane 4 0 xo) && isWhole (lane 4 0 yo) with hwhole₀
  set whole₁ := isWhole (lane 4 1 xo) && isWhole (lane 4 1 yo) with hwhole₁
  set up := whole₁ && (upper || !op.mayRecognise x y) with hup
  -- operands that may be recorded are whole
  obtain ⟨hrecord₀, hrecord₁, rfl, rfl⟩ :
      ((op.mayRecord x y || op.mayRecord (lowerHalf x) (lowerHalf y)) = true → whole₀ = true) ∧
      (op.mayRecord (upperHalf x) (upperHalf y) = true → whole₁ = true) ∧
      o = halfOrigins whole₀ (n, 2 * m) ++ halfOrigins up (n, 2 * m + 1) ∧ upper' = up := by
    simp only [BitwiseOp.origins, ← hwhole₀, ← hwhole₁, ← hup] at h
    split at h
    · cases h
    · next htorn =>
      obtain ⟨ho, hupper⟩ := Prod.mk.inj (Option.some.inj h)
      simp only [Bool.or_eq_true, Bool.and_eq_true, Bool.not_eq_true', not_or, not_and,
        Bool.not_eq_false] at htorn
      exact ⟨fun hrec => htorn.1 (by simpa using hrec), htorn.2, ho.symm, hupper.symm⟩
  have hissued₀ : whole₀ = true → t.bar.tape.Issued (indexOf (bitsOf 64 xLo) (bitsOf 64 xHi)) ∧
      t.bar.tape.Issued (indexOf (bitsOf 64 yLo) (bitsOf 64 yHi)) := fun hwh => by
    obtain ⟨hxw, hyw⟩ := (Bool.and_eq_true _ _).mp hwh
    exact ⟨hx₀ hxw, hy₀ hyw⟩
  have hissued₁ : whole₁ = true →
      t.bar.tape.Issued (indexOf (upperHalf (bitsOf 64 xLo)) (upperHalf (bitsOf 64 xHi))) ∧
      t.bar.tape.Issued (indexOf (upperHalf (bitsOf 64 yLo)) (upperHalf (bitsOf 64 yHi))) :=
    fun hwh => by
      obtain ⟨hxw, hyw⟩ := (Bool.and_eq_true _ _).mp hwh
      exact ⟨hx₁ hxw, hy₁ hyw⟩
  obtain ⟨s', hs', hfollows, hlower, hupper⟩ :=
    op.handler64_sound htype hram tid hW.sound hissued₀ hissued₁ hrecord₀ hrecord₁
  refine ⟨s', hs', ?_⟩
  have hupper' : up = true → s'.tape.Issued s'.upperIndex := by
    intro hu
    obtain ⟨hwh, hu⟩ := (Bool.and_eq_true _ _).mp hu
    rw [Bool.or_eq_true, Bool.not_eq_true'] at hu
    exact hupper hwh (hu.imp_left hW.upper)
  have hvalid : W.Valid n (2 * m) up { t with bar := s' } := hW.follows hfollows hupper'
  -- the number in the lower half
  obtain ⟨W₁, hgrows₁, hvalid₁, hindex₁⟩ : ∃ W₁, W.Grows W₁ ∧
      W₁.Valid n (2 * m + 1) up { t with bar := s' } ∧
      (whole₀ = true → W₁.index (n, 2 * m) = some (s'.bitwiseOut.w2 ++ s'.bitwiseOut.w0)) := by
    by_cases hwh : whole₀ = true
    · have hissued := hlower hwh
      rw [bitwiseIndex_eq] at hissued
      exact ⟨_, hvalid.grows _, hvalid.assign hissued, fun _ => W.index_assign _ _⟩
    · exact ⟨W, Grows.refl W, hvalid.skip, fun h => absurd h hwh⟩
  -- the number in the upper half
  obtain ⟨W₂, hgrows₂, hvalid₂, hindex₂⟩ : ∃ W₂, W₁.Grows W₂ ∧
      W₂.Valid n (2 * m + 1 + 1) up { t with bar := s' } ∧
      (up = true → W₂.index (n, 2 * m + 1) = some s'.upperIndex) := by
    by_cases hu : up = true
    · exact ⟨_, hvalid₁.grows _, hvalid₁.assign (hupper' hu), fun _ => W₁.index_assign _ _⟩
    · exact ⟨W₁, Grows.refl W₁, hvalid₁.skip, fun h => absurd h hu⟩
  refine ⟨W₂, hgrows₁.trans hgrows₂, hvalid₂, ?_⟩
  rw [BarState.bitwiseGetLower, BarState.bitwiseGetHigher, bytesOf_append, bytesOf_append]
  exact (holdsAll_half fun hwh => hgrows₂ _ _ (hindex₁ hwh)).append (holdsAll_half hindex₂)

include hbase htype hram

/-- The code for one word. -/
theorem wp_bitwiseDirtyBody_origins {env : List IRType} {s : State Byte BarTool}
    (hW : W.Valid n (2 * m) upper s.tool) {parts : List IRExpr} {x xLo xHi y yLo yHi : List Byte}
    (hparts : HasParts (c.machine tid).toInterp env s parts [x, xLo, xHi, y, yLo, yHi])
    {xo yo o : List Origin} (hx : W.HoldsAll xLo xHi xo) (hxo : xo.length = 8)
    (hy : W.HoldsAll yLo yHi yo) (hyo : yo.length = 8)
    (h : op.origins n m (bitsOf 64 x) (bitsOf 64 y) xo yo upper = some (o, upper')) :
    (execMeaning (c.machine tid)).wp (bitwiseDirtyBody (.barBitwise64 op) .barBitwiseGetLower
      .barBitwiseGetHigher parts) env s fun outs env' s' => Extends env s env' s' ∧
        s'.tool.memory = s.tool.memory ∧ ∃ lo hi,
          HasParts (c.machine tid).toInterp env' s' outs [lo, hi] ∧
          ∃ W', W.Grows W' ∧ W'.Valid n (2 * (m + 1)) upper' s'.tool ∧ W'.HoldsAll lo hi o := by
  obtain ⟨b, hb, W', hgrows, hvalid, hholds⟩ := hW.handler64 htype hram tid hx hxo hy hyo h
  have htrue := c.isTrue_true hbase tid
  have hargs : evalExprs (c.machine tid).toInterp s parts = [x, xLo, xHi, y, yLo, yHi] := by
    obtain _ | ⟨h₁, _ | ⟨h₂, _ | ⟨h₃, _ | ⟨h₄, _ | ⟨h₅, _ | ⟨h₆, _ | _⟩⟩⟩⟩⟩⟩ := hparts
    simp only [evalExprs, h₁.eval, h₂.eval, h₃.eval, h₄.eval, h₅.eval, h₆.eval]
  have htool : (c.machine tid).toolDirty = c.toolDirty tid := rfl
  have hcall : ((c.machine tid).toolDirty (.barBitwise64 op) [x, xLo, xHi, y, yLo, yHi] s.buf
      s.tool).2 = (s.buf, { s.tool with bar := b }) := by
    have hbar : barCall c.tape tid (.barBitwise64 op)
        ([x, xLo, xHi, y, yLo, yHi].map (bitsOf 64)) s.tool.bar = some (0, b) :=
      Option.bind_eq_some_iff.mpr ⟨b, hb, rfl⟩
    rw [htool, c.toolDirty_eq tid rfl, hbar]
  have hlower : (c.machine tid).toolDirty .barBitwiseGetLower [] s.buf { s.tool with bar := b }
      = (bytesOf b.bitwiseGetLower, s.buf, { s.tool with bar := b }) := by
    rw [htool, c.toolDirty_eq tid rfl]
    rfl
  have hhigher : (c.machine tid).toolDirty .barBitwiseGetHigher [] s.buf { s.tool with bar := b }
      = (bytesOf b.bitwiseGetHigher, s.buf, { s.tool with bar := b }) := by
    rw [htool, c.toolDirty_eq tid rfl]
    rfl
  apply wp_bind
  apply wp_addDirty_snd htrue hargs hcall
  apply wp_bind
  apply wp_newIRTemp
  apply wp_bind
  apply wp_newIRTemp
  apply wp_bind
  apply wp_addDirtyTmp htrue hlower
  apply wp_bind
  apply wp_addDirtyTmp htrue hhigher
  have hnew : Extends env s (env ++ [.i64] ++ [.i64]) s :=
    ⟨by rw [List.append_assoc]; exact List.prefix_append env _, fun _ _ => rfl, rfl, rfl⟩
  have hne : env.length ≠ (env ++ [IRType.i64]).length := by simp
  refine wp_pure ⟨((((hnew.withTool _).setTmp le_rfl _).withTool _).setTmp (by simp) _).withTool _,
    rfl, bytesOf b.bitwiseGetLower, bytesOf b.bitwiseGetHigher,
    List.Forall₂.cons ?_ (List.Forall₂.cons ?_ List.Forall₂.nil), W', hgrows, hvalid, hholds⟩
  · exact HasValue.ofTmp (by simp)
      ((Function.update_of_ne hne _ _).trans (Function.update_self _ _ _)) (length_natToBytes _ _)
  · exact HasValue.ofTmp (by simp) (Function.update_self _ _ _) (length_natToBytes _ _)

end Handlers

/-! ### All words -/

section Words

variable {op : BitwiseOp} {n : ℕ} {l : Simd} {vs : List (List Byte)} {os : List (List Origin)}
  {upper up up' : Bool} {o o' : List Origin} {m m' : ℕ}

theorem exists_bitwiseOrigins (h : bitwiseOrigins op n l vs os upper m' = some (o', up'))
    (hle : m ≤ m') : ∃ o up, bitwiseOrigins op n l vs os upper m = some (o, up) := by
  induction m' generalizing o' up' with
  | zero => exact ⟨[], upper, by rw [Nat.le_zero.mp hle]; rfl⟩
  | succ k ih =>
    rcases Nat.lt_or_eq_of_le hle with hlt | rfl
    · obtain ⟨⟨o, up⟩, hk, -⟩ := Option.bind_eq_some_iff.mp h
      exact ih hk (Nat.le_of_lt_succ hlt)
    · exact ⟨o', up', h⟩

/-- One more word. -/
theorem bitwiseOrigins_succ (h : bitwiseOrigins op n l vs os upper m' = some (o', up'))
    (hlt : m < m') (hm : bitwiseOrigins op n l vs os upper m = some (o, up)) :
    ∃ o₁ up₁, op.originsAt n l vs os m up = some (o₁, up₁) ∧
      bitwiseOrigins op n l vs os upper (m + 1) = some (o ++ o₁.take l.fpsize, up₁) := by
  obtain ⟨o₂, up₂, hsucc⟩ := exists_bitwiseOrigins h hlt
  have hbind := hsucc
  simp only [bitwiseOrigins, hm, Option.bind_eq_bind, Option.bind_some] at hbind
  obtain ⟨⟨o₁, up₁⟩, hword, hpure⟩ := Option.bind_eq_some_iff.mp hbind
  obtain ⟨rfl, rfl⟩ := Prod.mk.inj (Option.some.inj hpure)
  exact ⟨o₁, up₁, hword, hsucc⟩

end Words

section Operation

variable {c : RecordingContext} {F : FpSem Byte} {J : Interp Byte}
  (hbase : c.base.toInterp = hostInterp F J) (htype : c.tape.typegrind = false)
  (hram : c.tape.tapeInRam = false) {tid : ThreadId} {W : Numbering} {n : ℕ}
  {upper upper' : Bool} {env : List IRType} {s : State Byte BarTool} {arg iLo iHi : ℕ → IRExpr}
  {ws vs : List (List Byte)} {os : List (List Origin)} {o : List Origin}

include hbase htype hram

/-- **The shadow of the result of a bitwise operation** follows its origins. -/
theorem wp_bitwise_origins (op : BitwiseOp) (size : BitwiseSize)
    (hv : HasVectors (c.machine tid).toInterp env s (size.simd.fpsize * size.simd.simdsize)
      (layeredInputs [1, 2] arg iLo iHi) ws)
    (hvalue : ∀ m < 2, ws.getD (3 * m) [] = vs.getD m [])
    (hholds : ∀ m < 2, W.HoldsAll (ws.getD (3 * m + 1) []) (ws.getD (3 * m + 2) [])
      (os.getD m []))
    (hW : W.Valid n 0 upper s.tool)
    (h : bitwiseOrigins op n size.simd vs os upper size.simd.simdsize = some (o, upper')) :
    (execMeaning (c.machine tid)).wp
      ((bitwiseInfo op size).barcode c.options arg iLo iHi) env s
      (ResultHolds (c.machine tid) W n upper' size.type o env s) := by
  have hop := componentwise_bitwise op size
  have hzero : (c.machine tid).zero = 0 := congrArg Interp.zero hbase
  have hws : ws.length = 6 := hv.length_eq.symm
  have hsize : ∀ i < size.simd.simdsize, ∀ j < 6,
      (lane size.simd.fpsize i (ws.getD j [])).length = size.simd.fpsize := fun i hi j hj =>
    length_lane (by rw [hv.length_getD (by omega)]; exact Nat.mul_le_mul_left _ hi)
  have hwide : ∀ {B : Type} (z : B) (v : List B), v.length = size.simd.fpsize →
      (widenBytes z size.simd.fpsize v).length = 8 := by
    intro B z v hv
    cases size <;> simp [widenBytes, BitwiseSize.simd] at hv ⊢ <;> omega
  -- The invariant: the words handled so far follow their origins.
  have hbody : ∀ i < size.simd.simdsize, BodySpec (c.machine tid) env s 2 size.simd.fpsize ws
      (fun us s' => ∃ o up, bitwiseOrigins op n size.simd vs os upper us.length = some (o, up) ∧
        LanesHold W n (2 * us.length) up s.tool size.simd.fpsize o us s'.tool)
      (fun _ => bitwiseDirtyBody (.barBitwise64 op) .barBitwiseGetLower .barBitwiseGetHigher) i := by
    rintro i hi env' s' parts us - rfl ⟨o₀, up, ho, hInv⟩ hparts
    obtain ⟨o₁, up₁, hword, hsucc⟩ := bitwiseOrigins_succ h hi ho
    obtain ⟨W', hgrows, hvalid, hlanes⟩ := hInv.numbers
    have hlane : ∀ m < 2, W'.HoldsAll
        (widenBytes 0 size.simd.fpsize (lane size.simd.fpsize us.length (ws.getD (3 * m + 1) [])))
        (widenBytes 0 size.simd.fpsize (lane size.simd.fpsize us.length (ws.getD (3 * m + 2) [])))
        (widenBytes .zero size.simd.fpsize (lane size.simd.fpsize us.length (os.getD m []))) :=
      fun m hm => (((hholds m hm).mono hgrows).lane _ _).widen _
    have hlen : ∀ m < 2, (widenBytes Origin.zero size.simd.fpsize
        (lane size.simd.fpsize us.length (os.getD m []))).length = 8 := fun m hm => by
      rw [← (hlane m hm).length_lo]
      exact hwide 0 _ (hsize _ hi _ (by omega))
    obtain ⟨x, xLo, xHi, y, yLo, yHi, rfl⟩ : ∃ x xLo xHi y yLo yHi,
        ws = [x, xLo, xHi, y, yLo, yHi] := by
      obtain _ | ⟨x, _ | ⟨xLo, _ | ⟨xHi, _ | ⟨y, _ | ⟨yLo, _ | ⟨yHi, _ | _⟩⟩⟩⟩⟩⟩ := ws <;>
        first | exact ⟨_, _, _, _, _, _, rfl⟩ | simp at hws
    rw [hzero] at hparts
    have hx : x = vs.getD 0 [] := hvalue 0 (by decide)
    have hy : y = vs.getD 1 [] := hvalue 1 (by decide)
    subst hx hy
    apply wp_mono (wp_bitwiseDirtyBody_origins hbase htype hram hvalid hparts
      (hlane 0 (by decide)) (hlen 0 (by decide)) (hlane 1 (by decide)) (hlen 1 (by decide)) hword)
    rintro outs env'' s'' ⟨hext, hmem, lo, hi', houts, W'', hgrows', hvalid', hholds'⟩
    refine ⟨hext, [lo, hi'], rfl, houts, o₀ ++ o₁.take size.simd.fpsize, up₁, ?_⟩
    rw [List.length_append, List.length_singleton]
    refine ⟨hsucc, hmem.trans hInv.memory, W'', hgrows.trans hgrows', hvalid', ?_⟩
    rw [assembled_concat, assembled_concat]
    exact (hlanes.mono hgrows').append (hholds'.take _)
  have hvec : vecTy (size.simd.fpsize * size.simd.simdsize) = size.type := by cases size <;> rfl
  apply wp_mono (wp_applyComponentwisely (c.isVex hbase tid) hop.valid hv hbody
    ⟨[], upper, rfl, LanesHold.nil hW⟩)
  rintro outs env' s' ⟨hext, us, hus, ⟨o', up, ho, hInv⟩, houts⟩
  rw [hus.length_eq, h] at ho
  obtain ⟨rfl, rfl⟩ := Prod.mk.inj (Option.some.inj ho)
  obtain ⟨W', hgrows, hvalid, hall⟩ := hInv.numbers
  rw [hvec] at houts
  obtain _ | ⟨hLo, _ | ⟨hHi, _ | _⟩⟩ := houts
  exact ⟨hext, hInv.memory, W', _, hgrows, hvalid, _, _, _, _, rfl, hLo, hHi, hall⟩

end Operation

end Derivgrind
