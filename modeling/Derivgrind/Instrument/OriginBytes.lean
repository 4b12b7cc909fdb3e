import Derivgrind.Instrument.BarCode
import Derivgrind.Instrument.Origin
import Derivgrind.Vex.Integers

/-!
# Origins and the bytes of indices

The numbers of the client get indices when they are recorded.  If it is known where a byte of the
client comes from, then it is known what both layers of its shadow are: the byte of a number is
accompanied by a byte of the index of this number.

## Main definitions

* `Numbering` — the indices of the numbers so far.
* `Numbering.Holds`, `Numbering.HoldsAll` — both layers of the shadow of bytes.

## Main results

* `Numbering.HoldsAll.mono` — numbers keep their indices.
* `Numbering.HoldsAll.move`, `Numbering.HoldsAll.lane` — moving bytes, and lanes.
* `Numbering.HoldsAll.index` — **an operand that is whole has the index of one number**, or none.
-/

namespace Derivgrind

/-! ### Bytes of values -/

section Bytes

variable {B : Type}

theorem getD_take (z : B) (v : List B) (n j : ℕ) :
    (v.take n).getD j z = if j < n then v.getD j z else z := by
  rw [List.getD_eq_getElem?_getD, List.getElem?_take]
  split
  · rw [List.getD_eq_getElem?_getD]
  · rfl

theorem getD_drop (z : B) (v : List B) (n j : ℕ) : (v.drop n).getD j z = v.getD (n + j) z := by
  rw [List.getD_eq_getElem?_getD, List.getElem?_drop, ← List.getD_eq_getElem?_getD]

theorem getD_lane (z : B) (w c : ℕ) (v : List B) (j : ℕ) :
    (lane w c v).getD j z = if j < w then v.getD (w * c + j) z else z := by
  rw [lane, getD_take, getD_drop]

theorem getD_replicate (z : B) (n j : ℕ) : (List.replicate n z).getD j z = z := by
  rw [List.getD_eq_getElem?_getD, List.getElem?_replicate]
  split <;> rfl

theorem getD_map_range (z : B) (f : ℕ → B) {n j : ℕ} (hj : j < n) :
    ((List.range n).map f).getD j z = f j := by
  rw [List.getD_eq_getElem?_getD, List.getElem?_map, List.getElem?_range hj]
  rfl

theorem take_eq_map_range {z : B} {v : List B} {n : ℕ} (h : n ≤ v.length) :
    v.take n = (List.range n).map fun j => v.getD j z := by
  apply List.ext_getElem
  · rw [List.length_take, List.length_map, List.length_range, Nat.min_eq_left h]
  · intro j hj _
    rw [List.length_take] at hj
    rw [List.getElem_take, List.getElem_map, List.getElem_range,
      List.getD_eq_getElem v z (by omega)]

end Bytes

/-- The first four bytes of both layers make an index. -/
theorem assemble_bitsOf {lo hi : List Byte} (hlo : 4 ≤ lo.length) (hlo8 : lo.length ≤ 8)
    (hhi8 : hi.length ≤ 8) (hhi : 4 ≤ hi.length) :
    assemble64x2to64 (bitsOf 64 lo) (bitsOf 64 hi) = bitsOf 64 (lo.take 4 ++ hi.take 4) := by
  have hlower : ∀ v : List Byte, 4 ≤ v.length → v.length ≤ 8 →
      (bitsOf 64 v).toNat % 2 ^ 32 = bytesToNat (v.take 4) := by
    intro v h4 h8
    have hlen : (v.take 4).length = 4 := by rw [List.length_take, Nat.min_eq_left h4]
    have hlt := bytesToNat_lt (v.take 4)
    have hjoin := bytesToNat_append (v.take 4) (v.drop 4)
    rw [List.take_append_drop, hlen] at hjoin
    rw [hlen] at hlt
    rw [toNat_bitsOf (by omega), hjoin]
    omega
  have hlen : (lo.take 4).length = 4 := by rw [List.length_take, Nat.min_eq_left hlo]
  have hlt := bytesToNat_lt (lo.take 4)
  rw [hlen] at hlt
  apply BitVec.eq_of_toNat_eq
  rw [assemble64x2to64, BitVec.toNat_append, BitVec.toNat_setWidth, BitVec.toNat_setWidth,
    hlower lo hlo hlo8, hlower hi hhi hhi8, toNat_bitsOf (by simp; omega), bytesToNat_append, hlen,
    ← Nat.shiftLeft_add_eq_or_of_lt (by omega), Nat.shiftLeft_eq]
  omega

/-! ### Indices of numbers -/

/-- The indices of the numbers that have been recorded so far. -/
structure Numbering where
  index : NumberId → Option ULong

/-- One more number. -/
def Numbering.assign (W : Numbering) (id : NumberId) (i : ULong) : Numbering where
  index := Function.update W.index id (some i)

/-- Numbers keep their indices. -/
def Numbering.Grows (W W' : Numbering) : Prop :=
  ∀ id i, W.index id = some i → W'.index id = some i

namespace Numbering

variable {W W' W'' : Numbering} {id : NumberId} {i : ULong}

theorem Grows.refl (W : Numbering) : W.Grows W := fun _ _ => id

theorem Grows.trans (h : W.Grows W') (h' : W'.Grows W'') : W.Grows W'' := fun id i hi =>
  h' id i (h id i hi)

theorem grows_assign (hid : W.index id = none) (i : ULong) : W.Grows (W.assign id i) := by
  intro id' i' hi'
  have hne : id' ≠ id := by
    rintro rfl
    cases hid.symm.trans hi'
  exact (Function.update_of_ne hne _ _).trans hi'

@[simp] theorem index_assign (W : Numbering) (id : NumberId) (i : ULong) :
    (W.assign id i).index id = some i := Function.update_self _ _ _

/-- Both layers of the shadow of a byte. -/
def Holds (W : Numbering) (lo hi : Byte) : Origin → Prop
  | .zero => lo = 0 ∧ hi = 0
  | .part id j => ∃ i, W.index id = some i ∧ lo = (loIndex 0 (bytesOf i)).getD j 0 ∧
      hi = (hiIndex 0 (bytesOf i)).getD j 0
  | .unknown => True

/-- Both layers of the shadow of a value. -/
structure HoldsAll (W : Numbering) (lo hi : List Byte) (o : List Origin) : Prop where
  length_lo : lo.length = o.length
  length_hi : hi.length = o.length
  byte : ∀ j, W.Holds (lo.getD j 0) (hi.getD j 0) (o.getD j .zero)

variable {lo hi : List Byte} {o : List Origin}

theorem Holds.mono {b c : Byte} {a : Origin} (h : W.Holds b c a) (hW : W.Grows W') :
    W'.Holds b c a := by
  cases a with
  | zero => exact h
  | part id j =>
    obtain ⟨i, hi, hbytes⟩ := h
    exact ⟨i, hW id i hi, hbytes⟩
  | unknown => trivial

/-- **Numbers keep their indices.** -/
theorem HoldsAll.mono (h : W.HoldsAll lo hi o) (hW : W.Grows W') : W'.HoldsAll lo hi o :=
  ⟨h.length_lo, h.length_hi, fun j => (h.byte j).mono hW⟩

theorem holds_zero (W : Numbering) : W.Holds 0 0 .zero := ⟨rfl, rfl⟩

theorem HoldsAll.nil (W : Numbering) : W.HoldsAll [] [] [] := ⟨rfl, rfl, fun _ => W.holds_zero⟩

theorem HoldsAll.zeros (W : Numbering) (n : ℕ) :
    W.HoldsAll (List.replicate n 0) (List.replicate n 0) (zeroOrigins n) := by
  refine ⟨by simp [zeroOrigins], by simp [zeroOrigins], fun j => ?_⟩
  rw [zeroOrigins, getD_replicate, getD_replicate]
  exact W.holds_zero

/-- Nothing is known about the bytes. -/
theorem HoldsAll.unknown {n : ℕ} (W : Numbering) (hlo : lo.length = n) (hhi : hi.length = n) :
    W.HoldsAll lo hi (List.replicate n .unknown) := by
  refine ⟨by simp [hlo], by simp [hhi], fun j => ?_⟩
  by_cases hj : j < n
  · have hget : (List.replicate n Origin.unknown).getD j .zero = .unknown := by
      rw [List.getD_eq_getElem _ _ (by simpa using hj), List.getElem_replicate]
    rw [hget]
    trivial
  · rw [List.getD_eq_default _ _ (by omega), List.getD_eq_default _ _ (by omega),
      List.getD_eq_default _ _ (by simpa using hj)]
    exact W.holds_zero

/-- A byte of a value, or another byte where the value ends. -/
theorem HoldsAll.getD (h : W.HoldsAll lo hi o) {b c : Byte} {a : Origin} (hb : W.Holds b c a)
    (j : ℕ) : W.Holds (lo.getD j b) (hi.getD j c) (o.getD j a) := by
  by_cases hj : j < o.length
  · have hbyte := h.byte j
    have hlo : j < lo.length := by rw [h.length_lo]; exact hj
    have hhi : j < hi.length := by rw [h.length_hi]; exact hj
    rw [List.getD_eq_getElem _ _ hlo, List.getD_eq_getElem _ _ hhi,
      List.getD_eq_getElem _ _ hj] at hbyte ⊢
    exact hbyte
  · rw [List.getD_eq_default _ _ (by rw [h.length_lo]; omega),
      List.getD_eq_default _ _ (by rw [h.length_hi]; omega), List.getD_eq_default _ _ (by omega)]
    exact hb

/-- Bytes with known shadows. -/
theorem HoldsAll.of_range {n : ℕ} {f f' : ℕ → Byte} {a : ℕ → Origin}
    (h : ∀ j < n, W.Holds (f j) (f' j) (a j)) :
    W.HoldsAll ((List.range n).map f) ((List.range n).map f') ((List.range n).map a) := by
  refine ⟨by simp, by simp, fun j => ?_⟩
  by_cases hj : j < n
  · rw [getD_map_range _ _ hj, getD_map_range _ _ hj, getD_map_range _ _ hj]
    exact h j hj
  · rw [List.getD_eq_default _ _ (by simpa using hj), List.getD_eq_default _ _ (by simpa using hj),
      List.getD_eq_default _ _ (by simpa using hj)]
    exact W.holds_zero

/-- Moving bytes of both layers. -/
theorem HoldsAll.move {los his : List (List Byte)} {os : List (List Origin)}
    (h : ∀ i, W.HoldsAll (los.getD i []) (his.getD i []) (os.getD i [])) (route : List Source) :
    W.HoldsAll (moveBytes 0 route los) (moveBytes 0 route his) (moveBytes .zero route os) := by
  refine ⟨by simp, by simp, fun j => ?_⟩
  simp only [moveBytes, List.getD_eq_getElem?_getD, List.getElem?_map]
  cases route[j]? with
  | none => exact W.holds_zero
  | some src =>
    cases src with
    | zero => exact W.holds_zero
    | arg i k =>
      have hbyte := (h i).byte k
      simp only [List.getD_eq_getElem?_getD] at hbyte
      exact hbyte

theorem HoldsAll.append {lo' hi' : List Byte} {o' : List Origin} (h : W.HoldsAll lo hi o)
    (h' : W.HoldsAll lo' hi' o') : W.HoldsAll (lo ++ lo') (hi ++ hi') (o ++ o') := by
  refine ⟨by simp [h.length_lo, h'.length_lo], by simp [h.length_hi, h'.length_hi], fun j => ?_⟩
  by_cases hj : j < o.length
  · rw [List.getD_append _ _ _ _ (by rw [h.length_lo]; exact hj),
      List.getD_append _ _ _ _ (by rw [h.length_hi]; exact hj), List.getD_append _ _ _ _ hj]
    exact h.byte j
  · rw [List.getD_append_right _ _ _ _ (by rw [h.length_lo]; omega),
      List.getD_append_right _ _ _ _ (by rw [h.length_hi]; omega),
      List.getD_append_right _ _ _ _ (by omega), h.length_lo, h.length_hi]
    exact h'.byte _

theorem HoldsAll.lane (h : W.HoldsAll lo hi o) (w c : ℕ) :
    W.HoldsAll (lane w c lo) (Derivgrind.lane w c hi) (Derivgrind.lane w c o) := by
  refine ⟨?_, ?_, fun j => ?_⟩
  · simp only [Derivgrind.lane, List.length_take, List.length_drop, h.length_lo]
  · simp only [Derivgrind.lane, List.length_take, List.length_drop, h.length_hi]
  · simp only [getD_lane]
    split
    · exact h.byte _
    · exact W.holds_zero

theorem HoldsAll.take (h : W.HoldsAll lo hi o) (n : ℕ) :
    W.HoldsAll (lo.take n) (hi.take n) (o.take n) := by
  have hlane := h.lane n 0
  simpa only [Derivgrind.lane, Nat.mul_zero, List.drop_zero] using hlane

theorem HoldsAll.widen (h : W.HoldsAll lo hi o) (fpsize : ℕ) :
    W.HoldsAll (widenBytes 0 fpsize lo) (widenBytes 0 fpsize hi) (widenBytes .zero fpsize o) := by
  unfold widenBytes
  split
  · exact h.append (HoldsAll.zeros W 4)
  · exact h

/-- The shadow of a number that has an index. -/
theorem holdsAll_number (hi : W.index id = some i) {n : ℕ} (hn : n ≤ 8) :
    W.HoldsAll ((loIndex 0 (bytesOf i)).take n) ((hiIndex 0 (bytesOf i)).take n)
      (numberBytes id n) := by
  have hlen : (bytesOf i).length = 8 := length_natToBytes _ _
  rw [take_eq_map_range (z := 0) (by simp [loIndex, hlen, hn]),
    take_eq_map_range (z := 0) (by simp [hiIndex, hlen, hn])]
  exact HoldsAll.of_range fun j _ => ⟨i, hi, rfl, rfl⟩

/-! ### Operands -/

/-- Bytes without an index are zero. -/
theorem Holds.eq_zero {b c : Byte} {a : Origin} (h : W.Holds b c a) (ha : a.isZero = true) :
    b = 0 ∧ c = 0 := by
  cases a with
  | zero => exact h
  | part id j =>
    have hj : 4 ≤ j := by simpa [Origin.isZero] using ha
    obtain ⟨i, -, rfl, rfl⟩ := h
    have hlen : (bytesOf i).length = 8 := length_natToBytes _ _
    have hzero : ∀ v : List Byte, v.length = 4 → (v ++ List.replicate 4 0).getD j 0 = 0 := by
      intro v hv
      rw [List.getD_append_right _ _ _ _ (by omega), getD_replicate]
    exact ⟨hzero _ (by simp [hlen]), hzero _ (by simp [hlen])⟩
  | unknown => cases ha

theorem HoldsAll.eq_replicate (h : W.HoldsAll lo hi o) (ho : o.all Origin.isZero = true) :
    lo = List.replicate o.length 0 ∧ hi = List.replicate o.length 0 := by
  have hbyte : ∀ j < o.length, lo.getD j 0 = 0 ∧ hi.getD j 0 = 0 := by
    intro j hj
    refine (h.byte j).eq_zero ?_
    rw [List.getD_eq_getElem _ _ hj]
    exact List.all_eq_true.mp ho _ (List.getElem_mem hj)
  have hall : ∀ v : List Byte, v.length = o.length → (∀ j < o.length, v.getD j 0 = 0) →
      v = List.replicate o.length 0 := by
    intro v hv hz
    rw [← List.take_of_length_le (le_refl v.length), hv, take_eq_map_range (z := 0) (by omega),
      List.map_congr_left fun j hj => hz j (List.mem_range.mp hj), List.map_const',
      List.length_range]
  exact ⟨hall lo h.length_lo fun j hj => (hbyte j hj).1,
    hall hi h.length_hi fun j hj => (hbyte j hj).2⟩

/-- **An operand that is whole** has the index of one number, or none. -/
theorem HoldsAll.index (h : W.HoldsAll lo hi o) (h4 : 4 ≤ o.length) (h8 : o.length ≤ 8)
    (hwhole : isWhole o = true) :
    assemble64x2to64 (bitsOf 64 lo) (bitsOf 64 hi) = 0 ∨
      ∃ id, W.index id = some (assemble64x2to64 (bitsOf 64 lo) (bitsOf 64 hi)) := by
  have hlo := h.length_lo
  have hhi := h.length_hi
  have hfour := h.take 4
  have hlen : (o.take 4).length = 4 := by rw [List.length_take, Nat.min_eq_left h4]
  rw [assemble_bitsOf (by omega) (by omega) (by omega) (by omega)]
  rw [isWhole, Bool.or_eq_true] at hwhole
  rcases hwhole with hzero | hnumber
  · obtain ⟨hlo0, hhi0⟩ := hfour.eq_replicate hzero
    left
    rw [hlo0, hhi0, hlen]
    decide
  · split at hnumber
    · next id j hhead =>
      have heq : o.take 4 = numberBytes id 4 := of_decide_eq_true hnumber
      -- the bytes of both layers are those of the index
      have hbyte : ∀ k < 4, W.Holds ((lo.take 4).getD k 0) ((hi.take 4).getD k 0) (.part id k) := by
        intro k hk
        have hbyte := hfour.byte k
        rwa [heq, numberBytes, getD_map_range _ _ hk] at hbyte
      obtain ⟨i, hi', -⟩ := hbyte 0 (by decide)
      have hidx : (bytesOf i).length = 8 := length_natToBytes _ _
      have hlayers : ∀ k < 4, (lo.take 4).getD k 0 = ((bytesOf i).take 4).getD k 0 ∧
          (hi.take 4).getD k 0 = (((bytesOf i).drop 4).take 4).getD k 0 := by
        intro k hk
        obtain ⟨i', hi'', hlo, hhi⟩ := hbyte k hk
        cases hi'.symm.trans hi''
        rw [loIndex, List.getD_append _ _ _ _ (by simp [hidx, hk])] at hlo
        rw [hiIndex, List.getD_append _ _ _ _ (by simp [hidx, hk])] at hhi
        exact ⟨hlo, hhi⟩
      have hsame : ∀ {u v : List Byte}, u.length = 4 → v.length = 4 →
          (∀ k < 4, u.getD k 0 = v.getD k 0) → u = v := by
        intro u v hu hv h
        rw [← List.take_of_length_le (le_of_eq hu), ← List.take_of_length_le (le_of_eq hv),
          take_eq_map_range (z := 0) (le_of_eq hu.symm),
          take_eq_map_range (z := 0) (le_of_eq hv.symm)]
        exact List.map_congr_left fun k hk => h k (List.mem_range.mp hk)
      have hlower : lo.take 4 = (bytesOf i).take 4 :=
        hsame (by simp; omega) (by simp [hidx]) fun k hk => (hlayers k hk).1
      have hupper : hi.take 4 = (bytesOf i).drop 4 := by
        rw [← List.take_of_length_le (show ((bytesOf i).drop 4).length ≤ 4 by simp [hidx])]
        exact hsame (by simp; omega) (by simp [hidx]) fun k hk => (hlayers k hk).2
      right
      refine ⟨id, ?_⟩
      rw [hlower, hupper, List.take_append_drop, hi']
      exact congrArg some (bitsOf_bytesOf (by decide) i).symm
    · cases hnumber

end Numbering

end Derivgrind
