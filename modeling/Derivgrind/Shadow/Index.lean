import Derivgrind.Shadow.Calls
import Derivgrind.Tape.Bitwise

/-!
# The layout of indices in shadow memory

An index has eight bytes.  Its lower half is in the first four shadow bytes of the
variable in the lower layer, its upper half in those of the higher layer; any further
shadow bytes are irrelevant.  Floating-point stores, x87 stores, the client request
`DG_SET_INDEX` and the monitor command `mark` write indices; the corresponding loads,
`DG_GET_INDEX` and the monitor command `index` read them.

## Main definitions

* `operandIndex` — the index assembled from both layers, as in `dg_bar_writeToTape_call`.
* `IndexWriter`, `IndexReader` — everything that writes and reads indices.
* `copyBytes` — the client copies bytes one by one.

## Main results

* `index_layout` — all readers get the index from all writers.
-/

namespace Derivgrind

open ByteMap Emitter.Meaning
open FlexibleShadow (Rep overlayLayers)

/-- The assembly of an index in `dg_bar_writeToTape_call`: the first four bytes of both
layers. -/
def operandIndex (indexLo indexHi : List Byte) : ULong :=
  bitsOf 64 (indexLo.take 4 ++ indexHi.take 4)

/-! ### Conversions -/

/-- Operations between loading a number and using it. -/
inductive Conversion where
  | f32toF64
  | f64toF32
  | reinterpI64asF64
  deriving DecidableEq, Repr

namespace Conversion

def op : Conversion → IROp
  | .f32toF64 => .f32toF64
  | .f64toF32 => .f64toF32
  | .reinterpI64asF64 => .unMove .reinterpI64asF64

def src : Conversion → IRType
  | .f32toF64 => .f32
  | .f64toF32 => .f64
  | .reinterpI64asF64 => .i64

def dst : Conversion → IRType
  | .f32toF64 => .f64
  | .f64toF32 => .f32
  | .reinterpI64asF64 => .f64

/-- The position of the converted argument; the rounding mode comes first. -/
def position : Conversion → ℕ
  | .f64toF32 => 2
  | _ => 1

/-- The shadow of the converted value. -/
def code (o : Options) (arg : ℕ → IRExpr) (c : Conversion) (shadow : Shadow) : Emit Shadow := do
  let layers ← dgBarOperation o c.op arg fun n => if n = c.position then some shadow else none
  ofOption layers

/-- Several conversions one after the other. -/
def codes (o : Options) (arg : ℕ → IRExpr) : List Conversion → Shadow → Emit Shadow
  | [], shadow => return shadow
  | c :: cs, shadow => do
      let shadow ← c.code o arg shadow
      codes o arg cs shadow

/-- The conversions can be applied to a value of type `ty`. -/
def Chain : IRType → List Conversion → Prop
  | _, [] => True
  | ty, c :: cs => c.src = ty ∧ Chain c.dst cs

end Conversion

section Conversions

variable {T : Type} {M : Machine Byte T} {Fp : FpSem Byte} {env : List IRType} {s : State Byte T}
  {lo hi : IRExpr} {vlo vhi : List Byte}

/-- What a conversion does to a layer. -/
def Conversion.layer : Conversion → IRExpr → IRExpr
  | .f32toF64, e => f32toF64Info.widenIndex e
  | .f64toF32, e => f64toF32Info.narrowIndex e
  | .reinterpI64asF64, e => .unop (.unMove .reinterpI64asF64) e

theorem Conversion.code_eq (o : Options) (arg : ℕ → IRExpr) (c : Conversion) (lo hi : IRExpr) :
    c.code o arg [lo, hi] = return [c.layer lo, c.layer hi] := by
  funext env
  cases c <;> rfl

/-- A conversion keeps the first four bytes. -/
theorem Conversion.layer_value (hI : M.toInterp.IsVex Fp) (c : Conversion) {e : IRExpr}
    {v : List Byte} (h : HasValue M.toInterp env s e c.src v) :
    ∃ v', HasValue M.toInterp env s (c.layer e) c.dst v' ∧ v'.take 4 = v.take 4 := by
  cases c with
  | f32toF64 =>
    have hint := h.reinterpret hI (.unMove .reinterpF32asI32) rfl
    have hwide := (HasValue.const_u32 hI env s).join hI hint (.binMove .op32HLto64) rfl
    refine ⟨_, hwide.reinterpret hI (.unMove .reinterpI64asF64) rfl, ?_⟩
    have hlen : v.length = 4 := h.length
    rw [List.take_append_of_le_length (by omega)]
  | f64toF32 =>
    have hint := h.reinterpret hI (.unMove .reinterpF64asI64) rfl
    have hnarrow := hint.slice hI (.unMove .op64to32) 0 4 rfl (by decide)
    refine ⟨_, hnarrow.reinterpret hI (.unMove .reinterpI32asF32) rfl, ?_⟩
    rw [List.drop_zero, List.take_take, Nat.min_self]
  | reinterpI64asF64 => exact ⟨v, h.reinterpret hI (.unMove .reinterpI64asF64) rfl, rfl⟩

/-- Conversions keep the index. -/
theorem wp_conversions (hI : M.toInterp.IsVex Fp) (o : Options) (arg : ℕ → IRExpr) :
    ∀ (cs : List Conversion) {ty : IRType} {lo hi : IRExpr} {vlo vhi : List Byte},
    Conversion.Chain ty cs → HasValue M.toInterp env s lo ty vlo →
    HasValue M.toInterp env s hi ty vhi →
    (execMeaning M).wp (Conversion.codes o arg cs [lo, hi]) env s fun sh _ s' =>
      operandIndex (evalExpr M.toInterp s' (sh.layer 0)) (evalExpr M.toInterp s' (sh.layer 1))
        = operandIndex vlo vhi := by
  intro cs
  induction cs with
  | nil =>
    intro ty lo hi vlo vhi _ hlo hhi
    refine wp_pure ?_
    change operandIndex (evalExpr M.toInterp s lo) (evalExpr M.toInterp s hi) = _
    rw [hlo.eval, hhi.eval]
  | cons c cs ih =>
    rintro ty lo hi vlo vhi ⟨rfl, hchain⟩ hlo hhi
    obtain ⟨vlo', hlo', htlo⟩ := c.layer_value hI hlo
    obtain ⟨vhi', hhi', hthi⟩ := c.layer_value hI hhi
    rw [Conversion.codes]
    refine wp_bind ?_
    rw [Conversion.code_eq]
    refine wp_pure ?_
    have hrest := ih hchain hlo' hhi'
    rwa [operandIndex, htlo, hthi] at hrest

end Conversions

/-! ### Writers and readers -/

section Layout

variable {F : FlexibleShadow BarLayer 64}

/-- The bytes of an index from a position on. -/
def indexBytes (i : ULong) (k : ℕ) : ℕ → Byte := fun j => (bytesOf i).getD (k + j) 0

/-- What writes an index to shadow memory. -/
inductive IndexWriter where
  /-- A store; the expressions are the address and both layers. -/
  | store (addr lo hi : IRExpr)
  /-- A call of `storeF80le`. -/
  | storeF80le (addr lo hi : IRExpr)
  /-- `VG_USERREQ__SET_INDEX`. -/
  | setIndex (addr : Addr) (index : ULong)
  /-- The monitor commands `mark`, `fmark` and `lmark`; `value` is the marked variable. -/
  | mark (address : Addr) (value : ULong)

/-- What reads an index from shadow memory. -/
inductive IndexReader where
  /-- A load, followed by conversions. -/
  | load (addr : IRExpr) (ty : IRType) (cs : List Conversion)
  /-- A call of `loadF80le`, followed by conversions. -/
  | loadF80le (addr : IRExpr) (tmp : IRTemp) (cs : List Conversion)
  /-- `VG_USERREQ__GET_INDEX`. -/
  | getIndex (addr : Addr)
  /-- The monitor command `index`. -/
  | index (address : Addr)

/-- What everything depends on: the machine, the options, and the position in the block. -/
structure BarContext (F : FlexibleShadow BarLayer 64) where
  M : Machine Byte (F.State × TapeState)
  fuel : ℕ
  o : Options
  tapeOptions : TapeOptions
  tid : ThreadId
  denv : DiffEnv
  /-- The other arguments of conversions. -/
  arg : ℕ → IRExpr

namespace BarContext

variable (C : BarContext F)

/-- Write four bytes of both layers. -/
def setIndexAt (addr : Addr) (index : ULong) (s : State Byte (F.State × TapeState)) :
    Option (State Byte (F.State × TapeState)) :=
  (dgBarShadowSet F C.fuel addr (some (indexBytes index 0)) (some (indexBytes index 4)) 4
    s.tool.1).map fun shadow => { s with tool := (shadow, s.tool.2) }

/-- Read four bytes of both layers. -/
def getIndexAt (addr : Addr) (s : State Byte (F.State × TapeState)) : Option ULong :=
  (dgBarShadowGet F s.tool.1 C.fuel addr true true 4).map fun bytes =>
    bitsOf 64 (bytes .lo ++ bytes .hi)

/-- `tapeAddStatement_noActivityAnalysis(0,0,0.,0.)`, and `valuesAddStatement`. -/
def markTape (value : ULong) (tape : TapeState) : Option (ULong × TapeState) :=
  (Request.mk false 0 0 0 0 value).perform C.tapeOptions C.tid tape

/-- Write an index. -/
def write (env : List IRType) (s : State Byte (F.State × TapeState)) :
    IndexWriter → Option (State Byte (F.State × TapeState))
  | .store addr lo hi => (runEmit C.M ((dgBarExpressionhandling C.o).store C.denv addr [lo, hi] none)
      env s).map Prod.snd
  | .storeF80le addr lo hi => (runEmit C.M (dgBarDirtyStoreF80le addr [lo, hi]) env s).map Prod.snd
  | .setIndex addr index => C.setIndexAt addr index s
  | .mark address value => do
      let (setIndex, tape) ← C.markTape value s.tool.2
      C.setIndexAt address setIndex { s with tool := (s.tool.1, tape) }

/-- The code that loads an 80-bit number and converts it. -/
def loadF80leCode (addr : IRExpr) (tmp : IRTemp) (cs : List Conversion) : Emit Shadow := do
  dgBarDirtyLoadF80le C.denv addr tmp
  Conversion.codes C.o C.arg cs
    [.rdTmp (tmp + C.denv.tmpOffset), .rdTmp (tmp + 2 * C.denv.tmpOffset)]

/-- The code that loads a number and converts it. -/
def loadCode (addr : IRExpr) (ty : IRType) (cs : List Conversion) : Emit Shadow := do
  let shadow ← (dgBarExpressionhandling C.o).load C.denv addr ty
  Conversion.codes C.o C.arg cs shadow

/-- Read an index. -/
def readIndex (env : List IRType) (s : State Byte (F.State × TapeState)) :
    IndexReader → Option ULong
  | .load addr ty cs => (runEmit C.M (C.loadCode addr ty cs) env s).map fun (shadow, s') =>
      operandIndex (evalExpr C.M.toInterp s' (Shadow.layer shadow 0))
        (evalExpr C.M.toInterp s' (Shadow.layer shadow 1))
  | .loadF80le addr tmp cs => (runEmit C.M (C.loadF80leCode addr tmp cs) env s).map
      fun (shadow, s') => operandIndex (evalExpr C.M.toInterp s' (Shadow.layer shadow 0))
        (evalExpr C.M.toInterp s' (Shadow.layer shadow 1))
  | .getIndex addr => C.getIndexAt addr s
  | .index address => C.getIndexAt address s

/-- The expression is an address with the given value. -/
def IsAddress (env : List IRType) (s : State Byte (F.State × TapeState)) (e : IRExpr) (a : Addr) :
    Prop :=
  ∃ ty v, HasValue C.M.toInterp env s e ty v ∧ bitsOf 64 v = a

/-- The writer writes a value with index `i` to address `a`. -/
def Writes (env : List IRType) (s : State Byte (F.State × TapeState)) (a : Addr) (i : ULong) :
    IndexWriter → Prop
  | .store addr lo hi => C.IsAddress env s addr a ∧ ∃ ty vlo vhi, (ty = .f32 ∨ ty = .f64) ∧
      HasValue C.M.toInterp env s lo ty vlo ∧ HasValue C.M.toInterp env s hi ty vhi ∧
      operandIndex vlo vhi = i
  | .storeF80le addr lo hi => C.IsAddress env s addr a ∧ ∃ vlo vhi,
      HasValue C.M.toInterp env s lo .i64 vlo ∧ HasValue C.M.toInterp env s hi .i64 vhi ∧
      operandIndex vlo vhi = i
  | .setIndex addr index => addr = a ∧ index = i
  | .mark address value => address = a ∧ ∃ tape, C.markTape value s.tool.2 = some (i, tape)

/-- The reader reads a value from address `a`. -/
def Reads (env : List IRType) (s : State Byte (F.State × TapeState)) (a : Addr) :
    IndexReader → Prop
  | .load addr ty cs => C.IsAddress env s addr a ∧ (ty = .f32 ∨ ty = .f64) ∧ Conversion.Chain ty cs
  | .loadF80le addr tmp cs => C.IsAddress env s addr a ∧
      addr.inBounds C.denv.tmpOffset 0 = true ∧ tmp < C.denv.tmpOffset ∧
      env[tmp + C.denv.tmpOffset]? = some .i64 ∧ env[tmp + 2 * C.denv.tmpOffset]? = some .i64 ∧
      Conversion.Chain .i64 cs
  | .getIndex addr => addr = a
  | .index address => address = a

/-- Copy a byte. -/
def copyByte (src dst : Addr) : Emit Unit := do
  let shadow ← (dgBarExpressionhandling C.o).load C.denv (.const (.u64 src)) .i8
  (dgBarExpressionhandling C.o).store C.denv (.const (.u64 dst)) shadow none

/-- Copy bytes one by one, in the given order. -/
def copyBytes (a b : Addr) (order : List ℕ) (env : List IRType)
    (s : State Byte (F.State × TapeState)) : Option (State Byte (F.State × TapeState)) :=
  order.foldlM (fun s j => (runEmit C.M (C.copyByte (a + BitVec.ofNat 64 j) (b + BitVec.ofNat 64 j))
    env s).map Prod.snd) s

end BarContext

/-! ### The bytes of an index -/

/-- The index of the variable at an address. -/
def IndexAt (mem : BarLayer → Addr → Byte) (a : Addr) (i : ULong) : Prop :=
  operandIndex (read (mem .lo) a 4) (read (mem .hi) a 4) = i

/-- Only the first four bytes matter. -/
theorem operandIndex_take {n : ℕ} (hn : 4 ≤ n) (lo hi : List Byte) :
    operandIndex (lo.take n) (hi.take n) = operandIndex lo hi := by
  rw [operandIndex, List.take_take, List.take_take, Nat.min_eq_left hn, operandIndex]

theorem map_getD_range {n : ℕ} {v : List Byte} (h : n ≤ v.length) :
    (List.range n).map (fun j => v.getD j 0) = v.take n := by
  refine List.ext_getElem (by simp [h]) fun j hj hj' => ?_
  have hlt : j < v.length := by
    rw [List.length_take] at hj'
    omega
  rw [List.getElem_map, List.getElem_range, List.getD_eq_getElem _ _ hlt, List.getElem_take]

theorem operandIndex_indexBytes (i : ULong) :
    operandIndex ((List.range 4).map (indexBytes i 0)) ((List.range 4).map (indexBytes i 4)) = i := by
  have hlen : (bytesOf i).length = 8 := length_natToBytes _ _
  have hlo : (List.range 4).map (indexBytes i 0) = (bytesOf i).take 4 := by
    rw [← map_getD_range (by omega)]
    exact List.map_congr_left fun j _ => by rw [indexBytes, Nat.zero_add]
  have hhi : (List.range 4).map (indexBytes i 4) = (bytesOf i).drop 4 := by
    have hdrop := map_getD_range (n := 4) (v := (bytesOf i).drop 4) (by rw [List.length_drop]; omega)
    rw [List.take_of_length_le (by rw [List.length_drop]; omega)] at hdrop
    rw [← hdrop]
    exact List.map_congr_left fun j _ => by
      rw [indexBytes, List.getD_eq_getElem?_getD, List.getD_eq_getElem?_getD, List.getElem?_drop]
  have htake : ((bytesOf i).drop 4).take 4 = (bytesOf i).drop 4 :=
    List.take_of_length_le (by rw [List.length_drop]; omega)
  rw [operandIndex, hlo, hhi, List.take_take, Nat.min_self, htake, List.take_append_drop]
  exact bitsOf_bytesOf (by decide) i

/-- Writing both layers of a value. -/
theorem indexAt_overlay (mem : BarLayer → Addr → Byte) (a : Addr) {n : ℕ} (hn : 4 ≤ n)
    (hle : n ≤ 2 ^ 64) (p q : ℕ → Byte) :
    IndexAt (overlayLayers mem a n (BarLayer.pair (some p) (some q))) a
      (operandIndex ((List.range 4).map p) ((List.range 4).map q)) := by
  unfold IndexAt
  change operandIndex (read (overlay (mem .lo) a n p) a 4) (read (overlay (mem .hi) a n q) a 4) = _
  rw [read_overlay _ _ _ hn hle, read_overlay _ _ _ hn hle]

/-! ### Every writer, every reader -/

namespace BarContext

variable {C : BarContext F} {env : List IRType} {s : State Byte (F.State × TapeState)}
  {mem : BarLayer → Addr → Byte} {hF : F.Lawful} {a : Addr} {i : ULong} {Fp : FpSem Byte}

theorem setIndexAt_spec (hL : F.leafSize ∣ 2 ^ 64) (hfuel : 2 ^ 31 ≤ C.fuel)
    (hmem : Rep hF s.tool.1 mem) (a : Addr) (i : ULong) :
    ∃ s', C.setIndexAt a i s = some s' ∧ ∃ mem', Rep hF s'.tool.1 mem' ∧ IndexAt mem' a i := by
  obtain ⟨shadow, hset, hrep⟩ := dgBarShadowSet_rep hL hfuel hmem a (some (indexBytes i 0))
    (some (indexBytes i 4)) (show (4 : BitVec 32).toNat < 2 ^ 31 by decide)
  refine ⟨{ s with tool := (shadow, s.tool.2) }, by rw [setIndexAt, hset]; rfl, _, hrep, ?_⟩
  have hat := indexAt_overlay mem a (n := 4) le_rfl (by omega) (indexBytes i 0) (indexBytes i 4)
  rwa [operandIndex_indexBytes] at hat

/-- Every writer writes the index. -/
theorem write_spec (hL : F.leafSize ∣ 2 ^ 64) (hM : C.M.BarShadow C.fuel) (hfuel : 2 ^ 31 ≤ C.fuel)
    (hmem : Rep hF s.tool.1 mem) {W : IndexWriter} (hW : C.Writes env s a i W) :
    ∃ s', C.write env s W = some s' ∧ ∃ mem', Rep hF s'.tool.1 mem' ∧ IndexAt mem' a i := by
  cases W with
  | store addr lo hi =>
    obtain ⟨⟨wordTy, va, haddr, rfl⟩, ty, vlo, vhi, hty, hlo, hhi, rfl⟩ := hW
    obtain ⟨_, env', s', hrun, -, -, hrep⟩ := exists_runEmit
      (wp_barStore hF hL hM hfuel hmem C.o C.denv haddr hlo hhi)
    refine ⟨s', by rw [write, hrun]; rfl, _, hrep, ?_⟩
    have hsize : 4 ≤ sizeofIRType ty := by rcases hty with rfl | rfl <;> decide
    have hle := sizeofIRType_le ty
    have hlenlo : vlo.length = sizeofIRType ty := hlo.length
    have hlenhi : vhi.length = sizeofIRType ty := hhi.length
    have hat := indexAt_overlay mem (bitsOf 64 va) hsize (by omega) (fun j => vlo.getD j 0)
      fun j => vhi.getD j 0
    rwa [map_getD_range (by omega), map_getD_range (by omega), operandIndex_take le_rfl] at hat
  | storeF80le addr lo hi =>
    obtain ⟨⟨wordTy, va, haddr, rfl⟩, vlo, vhi, hlo, hhi, rfl⟩ := hW
    obtain ⟨_, env', s', hrun, -, -, hrep⟩ := exists_runEmit
      (wp_barStoreF80le hF hL hM hfuel hmem haddr hlo hhi)
    refine ⟨s', by rw [write, hrun]; rfl, _, hrep, ?_⟩
    have hlenlo : vlo.length = 8 := hlo.length
    have hlenhi : vhi.length = 8 := hhi.length
    have hat := indexAt_overlay mem (bitsOf 64 va) (n := 4) le_rfl (by omega)
      (fun j => vlo.getD j 0) fun j => vhi.getD j 0
    rwa [map_getD_range (by omega), map_getD_range (by omega), operandIndex_take le_rfl] at hat
  | setIndex addr index =>
    obtain ⟨rfl, rfl⟩ := hW
    exact setIndexAt_spec hL hfuel hmem addr index
  | mark address value =>
    obtain ⟨rfl, tape, htape⟩ := hW
    obtain ⟨s', hs', hmem'⟩ := setIndexAt_spec (s := { s with tool := (s.tool.1, tape) }) hL hfuel
      hmem address i
    refine ⟨s', ?_, hmem'⟩
    rw [write, htape]
    exact hs'

theorem getIndexAt_spec (hL : F.leafSize ∣ 2 ^ 64) (hfuel : 2 ^ 31 ≤ C.fuel)
    (hmem : Rep hF s.tool.1 mem) (hat : IndexAt mem a i) : C.getIndexAt a s = some i := by
  rw [getIndexAt, dgBarShadowGet_rep hL hfuel hmem a (show (4 : BitVec 32).toNat < 2 ^ 31 by decide)]
  refine congrArg some ?_
  rw [← hat, operandIndex]
  change bitsOf 64 (read (mem .lo) a 4 ++ read (mem .hi) a 4) = _
  rw [take_read _ _ le_rfl, take_read _ _ le_rfl]

/-- Every reader reads the index. -/
theorem readIndex_spec (hI : C.M.toInterp.IsVex Fp) (hL : F.leafSize ∣ 2 ^ 64)
    (hM : C.M.BarShadow C.fuel) (hfuel : 2 ^ 31 ≤ C.fuel) (hmem : Rep hF s.tool.1 mem)
    (hat : IndexAt mem a i) {R : IndexReader} (hR : C.Reads env s a R) :
    C.readIndex env s R = some i := by
  cases R with
  | load addr ty cs =>
    obtain ⟨⟨wordTy, va, haddr, rfl⟩, hty, hchain⟩ := hR
    have hsize : 4 ≤ sizeofIRType ty := by rcases hty with rfl | rfl <;> decide
    have hwp : (execMeaning C.M).wp (C.loadCode addr ty cs) env s fun sh _ s' =>
        operandIndex (evalExpr C.M.toInterp s' (sh.layer 0))
          (evalExpr C.M.toInterp s' (sh.layer 1)) = i := by
      refine wp_bind (wp_mono (wp_barLoad hF hL hM hfuel hmem C.o C.denv haddr ty) ?_)
      rintro sh env' s' ⟨-, -, lo, hi, rfl, hlo, hhi⟩
      refine wp_mono (wp_conversions hI C.o C.arg cs hchain hlo hhi) fun sh _ s'' hindex => ?_
      rw [hindex, ← hat, ← operandIndex_take le_rfl, take_read _ _ hsize, take_read _ _ hsize]
    obtain ⟨sh, env', s', hrun, hindex⟩ := exists_runEmit hwp
    rw [readIndex, hrun]
    exact congrArg some hindex
  | loadF80le addr tmp cs =>
    obtain ⟨⟨wordTy, va, haddr, rfl⟩, hfits, htmp, htylo, htyhi, hchain⟩ := hR
    have hwp : (execMeaning C.M).wp (C.loadF80leCode addr tmp cs) env s fun sh _ s' =>
        operandIndex (evalExpr C.M.toInterp s' (sh.layer 0))
          (evalExpr C.M.toInterp s' (sh.layer 1)) = i := by
      refine wp_bind (wp_mono (wp_barLoadF80le hF hL hM hfuel hmem C.denv haddr hfits htmp) ?_)
      rintro _ env' s' ⟨rfl, -, ulo, uhi, hlo, hulo, hhi, huhi⟩
      refine wp_mono (wp_conversions hI C.o C.arg cs hchain
        (HasValue.ofTmp htylo hlo (by rw [List.length_append, length_read, hulo]; rfl))
        (HasValue.ofTmp htyhi hhi (by rw [List.length_append, length_read, huhi]; rfl)))
        fun sh _ s'' hindex => ?_
      rw [hindex, ← hat, ← operandIndex_take le_rfl, List.take_left' (length_read _ _ _),
        List.take_left' (length_read _ _ _)]
    obtain ⟨sh, env', s', hrun, hindex⟩ := exists_runEmit hwp
    rw [readIndex, hrun]
    exact congrArg some hindex
  | getIndex addr =>
    obtain rfl : addr = a := hR
    exact getIndexAt_spec hL hfuel hmem hat
  | index address =>
    obtain rfl : address = a := hR
    exact getIndexAt_spec hL hfuel hmem hat

/-! ### Copies -/

/-- Copy a byte of both layers. -/
def copyMem (mem : BarLayer → Addr → Byte) (src dst : Addr) : BarLayer → Addr → Byte := fun l x =>
  if x = dst then mem l src else mem l x

theorem overlayLayers_one (mem : BarLayer → Addr → Byte) (src dst : Addr) :
    overlayLayers mem dst 1 (BarLayer.pair (some fun j => (read (mem .lo) src 1).getD j 0)
      (some fun j => (read (mem .hi) src 1).getD j 0)) = copyMem mem src dst := by
  have hiff : ∀ x : Addr, (x - dst).toNat < 1 ↔ x = dst := by
    intro x
    constructor
    · intro h
      bv_omega
    · rintro rfl
      rw [BitVec.sub_self]
      decide
  have hone : ∀ l, overlay (mem l) dst 1 (fun j => (read (mem l) src 1).getD j 0)
      = copyMem mem src dst l := by
    intro l
    funext x
    unfold overlay copyMem
    by_cases hx : x = dst
    · have hzero : (x - dst).toNat = 0 := Nat.lt_one_iff.mp ((hiff x).mpr hx)
      rw [if_pos ((hiff x).mpr hx), if_pos hx, hzero]
      simp [ByteMap.read]
    · rw [if_neg (fun h => hx ((hiff x).mp h)), if_neg hx]
  funext l
  cases l
  · exact hone .lo
  · exact hone .hi

theorem copyByte_spec (hI : C.M.toInterp.IsVex Fp) (hL : F.leafSize ∣ 2 ^ 64)
    (hM : C.M.BarShadow C.fuel) (hfuel : 2 ^ 31 ≤ C.fuel) (hmem : Rep hF s.tool.1 mem)
    (env : List IRType) (src dst : Addr) :
    ∃ s', (runEmit C.M (C.copyByte src dst) env s).map Prod.snd = some s' ∧
      Rep hF s'.tool.1 (copyMem mem src dst) := by
  have hconst : ∀ (env : List IRType) (s : State Byte (F.State × TapeState)) (x : Addr),
      HasValue C.M.toInterp env s (.const (.u64 x)) .i64 (bytesOf x) := by
    intro env s x
    have h := HasValue.const hI env s (.u64 x) rfl
    rwa [hM.const_u64] at h
  have hbits : ∀ x : Addr, bitsOf 64 (bytesOf x) = x := fun x => bitsOf_bytesOf (by decide) x
  have hwp : (execMeaning C.M).wp (C.copyByte src dst) env s fun _ _ s' =>
      Rep hF s'.tool.1 (copyMem mem src dst) := by
    refine wp_bind (wp_mono (wp_barLoad hF hL hM hfuel hmem C.o C.denv (hconst env s src) .i8) ?_)
    rintro sh env' s' ⟨-, htool, lo, hi, rfl, hlo, hhi⟩
    have hstore := wp_barStore hF hL hM hfuel (htool ▸ hmem) C.o C.denv (hconst env' s' dst) hlo hhi
    refine wp_mono hstore ?_
    rintro _ env'' s'' ⟨-, -, hrep⟩
    rw [hbits, hbits] at hrep
    rw [← overlayLayers_one]
    exact hrep
  obtain ⟨_, env', s', hrun, hrep⟩ := exists_runEmit hwp
  exact ⟨s', by rw [hrun]; rfl, hrep⟩

/-- Copying bytes one by one, if none is overwritten before it is copied. -/
theorem copyBytes_spec (hI : C.M.toInterp.IsVex Fp) (hL : F.leafSize ∣ 2 ^ 64)
    (hM : C.M.BarShadow C.fuel) (hfuel : 2 ^ 31 ≤ C.fuel) (env : List IRType) (a b : Addr) :
    ∀ (order : List ℕ) {s : State Byte (F.State × TapeState)} {mem : BarLayer → Addr → Byte},
    order.Pairwise (fun j k => b + BitVec.ofNat 64 j ≠ a + BitVec.ofNat 64 k) →
    Rep hF s.tool.1 mem →
    ∃ s', C.copyBytes a b order env s = some s' ∧ ∃ mem', Rep hF s'.tool.1 mem' ∧
      (∀ l, ∀ j ∈ order, mem' l (b + BitVec.ofNat 64 j) = mem l (a + BitVec.ofNat 64 j)) ∧
      (∀ l x, (∀ j ∈ order, x ≠ b + BitVec.ofNat 64 j) → mem' l x = mem l x) := by
  intro order
  induction order with
  | nil => exact fun {s mem} _ hmem => ⟨s, rfl, mem, hmem, fun _ j hj => absurd hj (by simp),
      fun _ _ _ => rfl⟩
  | cons j order ih =>
    intro s mem hpair hmem
    rw [List.pairwise_cons] at hpair
    obtain ⟨s₁, hrun₁, hrep₁⟩ := copyByte_spec hI hL hM hfuel hmem env
      (a + BitVec.ofNat 64 j) (b + BitVec.ofNat 64 j)
    obtain ⟨s', hrun, mem', hrep, hcopied, hkept⟩ := ih hpair.2 hrep₁
    have hlater : ∀ l, ∀ k ∈ order, mem' l (b + BitVec.ofNat 64 k) = mem l (a + BitVec.ofNat 64 k) := by
      intro l k hk
      rw [hcopied l k hk, copyMem, if_neg (hpair.1 k hk).symm]
    refine ⟨s', ?_, mem', hrep, ?_, ?_⟩
    · rw [copyBytes, List.foldlM_cons, hrun₁]
      exact hrun
    · intro l k hk
      rcases List.mem_cons.mp hk with rfl | hk
      · -- the first byte may be copied again later
        by_cases hagain : ∃ m ∈ order, b + BitVec.ofNat 64 k = b + BitVec.ofNat 64 m
        · obtain ⟨m, hm, heq⟩ := hagain
          have hkm : BitVec.ofNat 64 k = BitVec.ofNat 64 m := by
            simpa using heq
          rw [hkm]
          exact hlater l m hm
        · rw [hkept l _ (fun m hm heq => hagain ⟨m, hm, heq⟩), copyMem, if_pos rfl]
      · exact hlater l k hk
    · intro l x hx
      rw [hkept l x (fun k hk => hx k (List.mem_cons_of_mem _ hk)), copyMem,
        if_neg (hx j List.mem_cons_self)]

end BarContext

/-- **All readers get the index from all writers**: directly, after conversions, and after
the bytes of the variable have been copied one by one to another address. -/
theorem index_layout {C : BarContext F} {Fp : FpSem Byte} (hI : C.M.toInterp.IsVex Fp)
    (hF : F.Lawful) (hL : F.leafSize ∣ 2 ^ 64) (hM : C.M.BarShadow C.fuel)
    (hfuel : 2 ^ 31 ≤ C.fuel) {env : List IRType} {s : State Byte (F.State × TapeState)}
    {mem : BarLayer → Addr → Byte} (hmem : Rep hF s.tool.1 mem) (a : Addr) (i : ULong)
    (W : IndexWriter) (hW : C.Writes env s a i W) :
    ∃ s₁, C.write env s W = some s₁ ∧
      (∀ (env₁ : List IRType) (R : IndexReader), C.Reads env₁ s₁ a R →
        C.readIndex env₁ s₁ R = some i) ∧
      (∀ (env₁ : List IRType) (b : Addr) (order : List ℕ), (∀ j < 4, j ∈ order) →
        order.Pairwise (fun j k => b + BitVec.ofNat 64 j ≠ a + BitVec.ofNat 64 k) →
        ∃ s₂, C.copyBytes a b order env₁ s₁ = some s₂ ∧
          ∀ (env₂ : List IRType) (R : IndexReader), C.Reads env₂ s₂ b R →
            C.readIndex env₂ s₂ R = some i) := by
  obtain ⟨s₁, hrun₁, mem₁, hmem₁, hat₁⟩ := C.write_spec hL hM hfuel hmem hW
  refine ⟨s₁, hrun₁, fun env₁ R hR => C.readIndex_spec hI hL hM hfuel hmem₁ hat₁ hR, ?_⟩
  intro env₁ b order hall hpair
  obtain ⟨s₂, hrun₂, mem₂, hmem₂, hcopied, -⟩ :=
    C.copyBytes_spec hI hL hM hfuel env₁ a b order hpair hmem₁
  have hread : ∀ l, read (mem₂ l) b 4 = read (mem₁ l) a 4 := fun l =>
    List.map_congr_left fun j hj => hcopied l j (hall j (List.mem_range.mp hj))
  have hat₂ : IndexAt mem₂ b i := by
    rw [IndexAt, hread, hread]
    exact hat₁
  exact ⟨s₂, hrun₂, fun env₂ R hR => C.readIndex_spec hI hL hM hfuel hmem₂ hat₂ hR⟩

/-- The leaves, the machine and the options of a 64-bit build in recording mode. -/
def BarContext.amd64 : BarContext (directMap BarLayer 64 (2 ^ 18)) where
  M := Machine.barShadow _ (2 ^ 31) FpSem.zeros Interp.silent 1024
  fuel := 2 ^ 31
  o := ⟨.b, false, false⟩
  tapeOptions := ⟨false, false, false, none⟩
  tid := 0
  denv := ⟨3, 1024, .i64⟩
  arg _ := .const (.u32 0)

/-- A `double` with an index above `2^32`, two bytes before the end of a leaf. -/
def BarContext.amd64State : State Byte ((directMap BarLayer 64 (2 ^ 18)).State × TapeState) :=
  State.ofTmps ((directMap BarLayer 64 (2 ^ 18)).shadowInit fun _ _ _ => 0, dgBarTapeInitialize)
    [bytesOf 0x3FFFE#64, bytesOf 0xDEADBEEF00000005#64, bytesOf 0xDEADBEEF00000001#64]

theorem index_layout_straddling :
    ∃ s₁, BarContext.amd64.write [.i64, .f64, .f64] BarContext.amd64State
        (.store (.rdTmp 0) (.rdTmp 1) (.rdTmp 2)) = some s₁ ∧
      BarContext.amd64.readIndex [] s₁ (.load (.const (.u64 0x3FFFE#64)) .f32 [.f32toF64])
        = some 0x100000005#64 ∧
      ∃ s₂, BarContext.amd64.copyBytes 0x3FFFE#64 0x50000#64 [0, 1, 2, 3, 4, 5, 6, 7] [] s₁
          = some s₂ ∧
        BarContext.amd64.readIndex [] s₂ (.getIndex 0x50000#64) = some 0x100000005#64 := by
  have hI : BarContext.amd64.M.toInterp.IsVex FpSem.zeros.host := isVex_hostInterp _ _
  have hconst : ∀ s, BarContext.amd64.IsAddress [] s (.const (.u64 0x3FFFE#64)) 0x3FFFE#64 :=
    fun s => ⟨.i64, _, HasValue.const hI [] s _ rfl, by decide⟩
  have hwrites : BarContext.amd64.Writes [.i64, .f64, .f64] BarContext.amd64State 0x3FFFE#64
      0x100000005#64 (.store (.rdTmp 0) (.rdTmp 1) (.rdTmp 2)) :=
    ⟨⟨.i64, _, HasValue.rdTmp rfl rfl, by decide⟩, .f64, _, _, .inr rfl, HasValue.rdTmp rfl rfl,
      HasValue.rdTmp rfl rfl, by decide⟩
  obtain ⟨s₁, hrun, hread, hcopy⟩ := index_layout hI
    (directMapLawful BarLayer (by decide) (by decide) (by decide))
    (Dvd.intro (2 ^ 46) (by decide)) (Machine.barShadow_spec _ _ _ _ _) le_rfl
    (FlexibleShadow.shadowInit_rep _ _) 0x3FFFE#64 0x100000005#64 _ hwrites
  obtain ⟨s₂, hrun₂, hread₂⟩ := hcopy [] 0x50000#64 [0, 1, 2, 3, 4, 5, 6, 7] (by decide) (by decide)
  exact ⟨s₁, hrun, hread [] _ ⟨hconst s₁, .inl rfl, rfl, trivial⟩, s₂, hrun₂,
    hread₂ [] _ rfl⟩

end Layout

end Derivgrind
