import Derivgrind.Lib.BitArray
import Derivgrind.Vex.Host
import Mathlib.Tactic.IntervalCases

/-!
# The extended format of the x87 unit

The registers of the x87 unit are modelled by VEX as numbers in the `binary64` format, which
are converted to the format with 80 bits when they are stored, and back when they are loaded.
The functions work on arrays of bytes, and move single bits if a number is subnormal.

## Main definitions

* `readBitArray`, `writeBitArray` — bits of arrays.
* `convertF64leToF80le`, `convertF80leToF64le` — the conversions.
* `canonicalF64` — a number, and one representative of each kind of NaN.

## Main results

* `convertF80leToF64le_convertF64leToF80le` — **the round trip.**
-/

namespace Derivgrind

open BitArray (bit bit_set bit_copyDown ext_bits copyDown)

/-- A `binary64` number, the lowest byte first. -/
abbrev F64le := Vector Byte 8

/-- An extended number, the lowest byte first. -/
abbrev F80le := Vector Byte 10

/-! ### The conversions -/

/-- `read_bit_array`. -/
def readBitArray {size : ℕ} (arr : Vector Byte size) (n : ℕ) : Byte :=
  (arr[n >>> 3]?.getD 0 >>> (n &&& 7)) &&& 1#8

/-- `write_bit_array`. -/
def writeBitArray {size : ℕ} (arr : Vector Byte size) (n : ℕ) (b : Byte) : Vector Byte size :=
  let c := arr[n >>> 3]?.getD 0
  let c := c &&& ~~~(1#8 <<< (n &&& 7))
  let c := c ||| (b &&& 1#8) <<< (n &&& 7)
  arr.setIfInBounds (n >>> 3) c

/-- The exponent of a `binary64` number. -/
def bexpF64 (f64 : F64le) : ℕ :=
  (f64[7].toNat <<< 4 ||| (f64[6].toNat >>> 4 &&& 0x0F)) &&& 0x7FF

/-- `mantissaIsZero`. -/
def mantissaIsZero (f64 : F64le) : Bool :=
  f64[6] &&& 0x0F#8 = 0#8 && f64[5] = 0#8 && f64[4] = 0#8 && f64[3] = 0#8 && f64[2] = 0#8 &&
    f64[1] = 0#8 && f64[0] = 0#8

/-- `shift`: count the bits below the given one that are zero, from the highest one down. -/
def countZeros (f64 : F64le) : ℕ → ℕ
  | 0 => 0
  | i + 1 => if readBitArray f64 i ≠ 0#8 then 0 else countZeros f64 i + 1

/-- The loop that copies the bits of a subnormal number. -/
def copyMantissa (f64 : F64le) : ℕ → ℕ → F80le → F80le
  | 0, _, f80 => f80
  | i + 1, j, f80 => copyMantissa f64 i (j - 1) (writeBitArray f80 j (readBitArray f64 i))

/-- The bytes of a number that is neither zero, subnormal, infinite nor NaN. -/
def rebiased (f64 : F64le) (sign : Byte) (bexp : ℤ) : F80le :=
  #v[0#8,
    f64[0] <<< 3 &&& 0xF8#8,
    f64[1] <<< 3 &&& 0xF8#8 ||| (f64[0] >>> 5 &&& 7#8),
    f64[2] <<< 3 &&& 0xF8#8 ||| (f64[1] >>> 5 &&& 7#8),
    f64[3] <<< 3 &&& 0xF8#8 ||| (f64[2] >>> 5 &&& 7#8),
    f64[4] <<< 3 &&& 0xF8#8 ||| (f64[3] >>> 5 &&& 7#8),
    f64[5] <<< 3 &&& 0xF8#8 ||| (f64[4] >>> 5 &&& 7#8),
    1#8 <<< 7 ||| (f64[6] <<< 3 &&& 0x78#8) ||| (f64[5] >>> 5 &&& 7#8),
    BitVec.ofInt 8 bexp,
    sign <<< 7 ||| BitVec.ofInt 8 (bexp / 256)]

/-- `convert_f64le_to_f80le`: the ten bytes that are written. -/
def convertF64leToF80le (f64 : F64le) : F80le :=
  let sign := f64[7] >>> 7 &&& 1#8
  let bexp := bexpF64 f64
  if bexp = 0 then
    let f80 : F80le := #v[0#8, 0, 0, 0, 0, 0, 0, 0, 0, sign <<< 7]
    if mantissaIsZero f64 then f80
    else
      let shift := countZeros f64 52
      let f80 := copyMantissa f64 (52 - shift) 63 f80
      let bexp : ℤ := bexp - shift + (16383 - 1023)
      let f80 := f80.set 9 (sign <<< 7 ||| BitVec.ofInt 8 (bexp / 256))
      f80.set 8 (BitVec.ofInt 8 bexp)
  else if bexp = 0x7FF then
    if mantissaIsZero f64 then #v[0#8, 0, 0, 0, 0, 0, 0, 0x80, 0xFF, sign <<< 7 ||| 0x7F#8]
    else if f64[6] &&& 8#8 ≠ 0#8 then #v[0#8, 0, 0, 0, 0, 0, 0, 0xC0, 0xFF, sign <<< 7 ||| 0x7F#8]
    else #v[0xFF#8, 0xFF, 0xFF, 0xFF, 0xFF, 0xFF, 0xFF, 0xBF, 0xFF, sign <<< 7 ||| 0x7F#8]
  else rebiased f64 sign (bexp + (16383 - 1023))

/-- The exponent of an extended number. -/
def bexpF80 (f80 : F80le) : ℕ := (f80[9].toNat <<< 8 ||| f80[8].toNat) &&& 0x7FFF

/-- `isInf`. -/
def isInfF80 (f80 : F80le) : Bool :=
  f80[7] &&& 0x7F#8 = 0#8 && f80[6] = 0#8 && f80[5] = 0#8 && f80[4] = 0#8 && f80[3] = 0#8 &&
    f80[2] = 0#8 && f80[1] = 0#8 && f80[0] = 0#8

/-- The bytes at the label `wierd_NaN`. -/
def wierdNaN : F64le := #v[0#8, 0, 0, 0, 0, 0, 0xF8, 1#8 <<< 7 ||| 0x7F#8]

/-- The code at the label `do_rounding`. -/
def doRounding (f64 : F64le) : F64le :=
  if f64[0] ≠ 0xFF#8 then f64.set 0 (f64[0] + 1#8)
  else if f64[1] ≠ 0xFF#8 then (f64.set 0 0#8).set 1 (f64[1] + 1#8)
  else if f64[2] ≠ 0xFF#8 then ((f64.set 0 0#8).set 1 0#8).set 2 (f64[2] + 1#8)
  else f64

/-- The loop that copies the bits of a number that becomes subnormal, with its assertion. -/
def copyDenormal (f80 : F80le) (bexp : ℤ) : ℕ → F64le → Option F64le
  | 0, f64 => some f64
  | i + 1, f64 =>
      let j : ℤ := i - 12 + bexp
      if j < 0 then some f64
      else if j < 52 then copyDenormal f80 bexp i (writeBitArray f64 j.toNat (readBitArray f80 i))
      else none

/-- The bytes of a number that is in the range of the format, before it is rounded. -/
def truncated (f80 : F80le) (sign : Byte) (bexp : ℤ) : F64le :=
  #v[f80[1] >>> 3 ||| f80[2] <<< 5,
    f80[2] >>> 3 ||| f80[3] <<< 5,
    f80[3] >>> 3 ||| f80[4] <<< 5,
    f80[4] >>> 3 ||| f80[5] <<< 5,
    f80[5] >>> 3 ||| f80[6] <<< 5,
    f80[6] >>> 3 ||| f80[7] <<< 5,
    (BitVec.ofInt 8 bexp <<< 4 &&& 0xF0#8) ||| (f80[7] >>> 3 &&& 0x0F#8),
    sign <<< 7 ||| (BitVec.ofInt 8 (bexp / 16) &&& 0x7F#8)]

/-- `convert_f80le_to_f64le`: the eight bytes that are written. -/
def convertF80leToF64le (f80 : F80le) : Option F64le :=
  let sign := f80[9] >>> 7 &&& 1#8
  let bexp := bexpF80 f80
  let infinity : F64le := #v[0#8, 0, 0, 0, 0, 0, 0xF0, sign <<< 7 ||| 0x7F#8]
  if bexp = 0 then some #v[0#8, 0, 0, 0, 0, 0, 0, sign <<< 7]
  else if bexp = 0x7FFF then
    if isInfF80 f80 then
      if f80[7] &&& 0x80#8 = 0#8 then some wierdNaN else some infinity
    else if f80[7] &&& 0x40#8 ≠ 0#8 then some #v[0#8, 0, 0, 0, 0, 0, 0xF8, sign <<< 7 ||| 0x7F#8]
    else some #v[0xFF#8, 0xFF, 0xFF, 0xFF, 0xFF, 0xFF, 0xF7, sign <<< 7 ||| 0x7F#8]
  else if f80[7] &&& 0x80#8 = 0#8 then some wierdNaN
  else
    let bexp : ℤ := bexp - (16383 - 1023)
    if bexp ≥ 0x7FF then some infinity
    else if bexp ≤ 0 then
      let f64 : F64le := #v[0#8, 0, 0, 0, 0, 0, 0, sign <<< 7]
      if bexp < -52 then some f64
      else (copyDenormal f80 bexp 64 f64).map fun f64 =>
        if readBitArray f80 (10 + 1 - bexp).toNat = 1#8 then doRounding f64 else f64
    else
      let f64 := truncated f80 sign bexp
      if f80[1] &&& 4#8 ≠ 0#8 then
        -- a number in the middle between two others is rounded to the even one
        if f80[1] &&& 0xF#8 = 4#8 ∧ f80[0] = 0#8 then some f64 else some (doRounding f64)
      else some f64

/-! ### Bits -/

section Bits

variable {size : ℕ} (arr : Vector Byte size)

/-- Bits are read as numbers. -/
theorem readBitArray_eq (n : ℕ) : readBitArray arr n = if bit arr n then 1#8 else 0#8 := by
  unfold readBitArray bit BitArray.byte
  rw [Nat.shiftRight_eq_div_pow, show n &&& 7 = n % 8 from Nat.and_two_pow_sub_one_eq_mod n 3]
  refine BitVec.eq_of_getLsbD_eq fun i hi => ?_
  rw [BitVec.getLsbD_and, BitVec.getLsbD_ushiftRight, apply_ite (fun x : Byte => x.getLsbD i), BitVec.getLsbD_one, BitVec.getLsbD_zero]
  rcases i with _ | i
  · simp
  · simp

/-- Bits are written as numbers. -/
theorem writeBitArray_eq (n : ℕ) (b : Bool) :
    writeBitArray arr n (if b then 1#8 else 0#8) = BitArray.set arr n b := by
  unfold writeBitArray BitArray.set BitArray.byte
  rw [Nat.shiftRight_eq_div_pow, show n &&& 7 = n % 8 from Nat.and_two_pow_sub_one_eq_mod n 3]
  cases b <;> rfl

end Bits

/-- The first loop copies bits. -/
theorem copyMantissa_eq (f64 : F64le) (i j : ℕ) (f80 : F80le) :
    copyMantissa f64 i j f80 = copyDown f64 i (i - 1) j f80 := by
  induction i generalizing j f80 with
  | zero => rfl
  | succ i ih =>
    rw [copyMantissa, readBitArray_eq, writeBitArray_eq, ih, copyDown, Nat.add_sub_cancel]

/-- The second loop copies bits, and stops in time. -/
theorem copyDenormal_eq (f80 : F80le) {bexp : ℤ} (hbexp : bexp ≤ 0) {i : ℕ} (hi : i ≤ 64)
    (f64 : F64le) :
    copyDenormal f80 bexp i f64
      = some (copyDown f80 (i - 12 + bexp).toNat (i - 1) (i - 13 + bexp).toNat f64) := by
  induction i generalizing f64 with
  | zero =>
    have hcount : (((0 : ℕ) : ℤ) - 12 + bexp).toNat = 0 := by omega
    rw [copyDenormal, hcount, copyDown]
  | succ i ih =>
    rw [copyDenormal]
    by_cases hstop : (i : ℤ) - 12 + bexp < 0
    · have hcount : (((i + 1 : ℕ) : ℤ) - 12 + bexp).toNat = 0 := by omega
      rw [if_pos hstop, hcount, copyDown]
    · have hcount : (((i + 1 : ℕ) : ℤ) - 12 + bexp).toNat = ((i : ℤ) - 12 + bexp).toNat + 1 := by
        omega
      have hj : (((i + 1 : ℕ) : ℤ) - 13 + bexp).toNat = ((i : ℤ) - 12 + bexp).toNat := by omega
      have hj' : ((i : ℤ) - 13 + bexp).toNat = ((i : ℤ) - 12 + bexp).toNat - 1 := by omega
      rw [if_neg hstop, if_pos (by omega), readBitArray_eq, writeBitArray_eq, ih (by omega), hcount,
        hj, hj', copyDown, Nat.add_sub_cancel]

/-- The bits above the highest one that is set are zero. -/
theorem countZeros_spec (f64 : F64le) (n : ℕ) :
    countZeros f64 n ≤ n ∧ (∀ m, n - countZeros f64 n ≤ m → m < n → bit f64 m = false) ∧
      (countZeros f64 n < n → bit f64 (n - 1 - countZeros f64 n) = true) := by
  induction n with
  | zero => exact ⟨le_rfl, fun m _ hm => absurd hm (Nat.not_lt_zero m), fun h => absurd h (by simp)⟩
  | succ n ih =>
    obtain ⟨hle, hzero, hone⟩ := ih
    rw [countZeros, readBitArray_eq]
    cases hbit : bit f64 n with
    | true =>
      rw [if_pos rfl, if_pos (by decide)]
      exact ⟨Nat.zero_le _, fun m hm hm' => by omega, fun _ => by simpa using hbit⟩
    | false =>
      rw [if_neg (by simp)]
      refine ⟨by omega, fun m hm hm' => ?_, fun h => ?_⟩
      · rcases Nat.lt_succ_iff_lt_or_eq.mp hm' with hlt | rfl
        · exact hzero m (by omega) hlt
        · exact hbit
      · rw [show n + 1 - 1 - (countZeros f64 n + 1) = n - 1 - countZeros f64 n by omega]
        exact hone (by omega)

/-! ### Fields -/

/-- The exponent, as a number. -/
theorem bexpF64_eq (f64 : F64le) :
    bexpF64 f64 = f64[7].toNat % 128 * 16 + f64[6].toNat / 16 := by
  have h6 := f64[6].isLt
  have hand : f64[6].toNat >>> 4 &&& 0x0F = f64[6].toNat / 16 := by
    rw [Nat.shiftRight_eq_div_pow]
    refine (Nat.and_two_pow_sub_one_eq_mod _ 4).trans (Nat.mod_eq_of_lt ?_)
    omega
  have hor : f64[7].toNat <<< 4 ||| f64[6].toNat / 16
      = f64[7].toNat <<< 4 + f64[6].toNat / 16 := (Nat.shiftLeft_add_eq_or_of_lt (by omega) _).symm
  unfold bexpF64
  rw [hand, hor, Nat.shiftLeft_eq]
  refine (Nat.and_two_pow_sub_one_eq_mod _ 11).trans ?_
  omega

/-- The sign of a number. -/
theorem sign_cases (x : Byte) : x >>> 7 &&& 1#8 = 0#8 ∨ x >>> 7 &&& 1#8 = 1#8 := by
  have hbit := readBitArray_eq #v[x] 7
  simp only [readBitArray] at hbit
  change x >>> 7 &&& 1#8 = _ at hbit
  rw [hbit]
  split
  · exact .inr rfl
  · exact .inl rfl

/-- The highest byte of an extended number. -/
theorem toNat_signExponent {sign : Byte} (hsign : sign = 0#8 ∨ sign = 1#8) {e : ℕ} (he : e < 128) :
    (sign <<< 7 ||| BitVec.ofInt 8 (e : ℤ)).toNat = 128 * sign.toNat + e := by
  have hofInt : (BitVec.ofInt 8 (e : ℤ)).toNat = e := by
    rw [BitVec.ofInt_natCast, BitVec.toNat_ofNat]
    omega
  rcases hsign with rfl | rfl
  · rw [show (0#8 : Byte) <<< 7 = 0#8 from rfl, BitVec.zero_or, hofInt]
    simp
  · rw [BitVec.toNat_or, hofInt, show ((1#8 : Byte) <<< 7).toNat = 2 ^ 7 * 1 from rfl,
      ← Nat.two_pow_add_eq_or_of_lt he]
    rfl

/-- **The exponent and the sign of an extended number are read as they have been written.** -/
theorem exponent_read (f80 : F80le) {sign : Byte} (hsign : sign = 0#8 ∨ sign = 1#8) {e : ℕ}
    (he : e < 2 ^ 15) (h8 : f80[8] = BitVec.ofInt 8 (e : ℤ))
    (h9 : f80[9] = sign <<< 7 ||| BitVec.ofInt 8 ((e : ℤ) / 256)) :
    bexpF80 f80 = e ∧ f80[9] >>> 7 &&& 1#8 = sign := by
  have hlow : f80[8].toNat = e % 256 := by
    rw [h8, BitVec.ofInt_natCast, BitVec.toNat_ofNat]
  have hhigh : f80[9].toNat = 128 * sign.toNat + e / 256 := by
    rw [h9]
    exact_mod_cast toNat_signExponent hsign (e := e / 256) (by omega)
  constructor
  · unfold bexpF80
    rw [← Nat.shiftLeft_add_eq_or_of_lt (by omega), hlow, hhigh, Nat.shiftLeft_eq]
    refine (Nat.and_two_pow_sub_one_eq_mod _ 15).trans ?_
    omega
  · refine BitVec.eq_of_toNat_eq ?_
    rw [BitVec.toNat_and, BitVec.toNat_ushiftRight, hhigh, Nat.shiftRight_eq_div_pow]
    refine (Nat.and_two_pow_sub_one_eq_mod _ 1).trans ?_
    rcases hsign with rfl | rfl <;> simp <;> omega

/-! ### Subnormal numbers -/

/-- A bit of a byte of an array. -/
theorem bit_getElem {size i j : ℕ} (arr : Vector Byte size) (hi : i < size) (hj : j < 8) :
    bit arr (8 * i + j) = arr[i].getLsbD j := by
  unfold bit BitArray.byte
  rw [show (8 * i + j) / 8 = i by omega, show (8 * i + j) % 8 = j by omega,
    Vector.getElem?_eq_getElem hi, Option.getD_some]

/-- The mantissa is zero if all its bits are. -/
theorem mantissaIsZero_of_bits {f64 : F64le} (h : ∀ m < 52, bit f64 m = false) :
    mantissaIsZero f64 = true := by
  have hbyte : ∀ i (hi : i < 6), f64[i] = 0 := by
    intro i hi
    refine BitVec.eq_of_getLsbD_eq fun j hj => ?_
    rw [← bit_getElem f64 (by omega) hj, h _ (by omega)]
    exact BitVec.getLsbD_zero.symm
  have hhalf : f64[6] &&& 0x0F#8 = 0#8 := by
    refine BitVec.eq_of_getLsbD_eq fun j hj => ?_
    rw [BitVec.getLsbD_and, ← bit_getElem f64 (by omega) hj]
    by_cases hlow : j < 4
    · rw [h _ (by omega), Bool.false_and]
      exact BitVec.getLsbD_zero.symm
    · have hmask : (0x0F#8).getLsbD j = false := by
        interval_cases j <;> rfl
      rw [hmask, Bool.and_false]
      exact BitVec.getLsbD_zero.symm
  simp [mantissaIsZero, hbyte, hhalf]

/-- The bits of an array that has only a last byte. -/
theorem bit_lastByte (x : Byte) {m : ℕ} (hm : m < 56) :
    bit #v[0#8, 0, 0, 0, 0, 0, 0, x] m = false := by
  unfold bit BitArray.byte
  have hi : m / 8 < 7 := by omega
  interval_cases m / 8 <;> simp

/-- The bits of the mantissa before anything is copied into it. -/
theorem bit_lastBytes (x y : Byte) {m : ℕ} (hm : m < 64) :
    bit #v[0#8, 0, 0, 0, 0, 0, 0, 0, x, y] m = false := by
  unfold bit BitArray.byte
  have hi : m / 8 < 8 := by omega
  interval_cases m / 8 <;> simp

/-- **A subnormal number that is normalised**: its highest bit becomes the leading one. -/
theorem convertF64leToF80le_denormal {f64 : F64le} (hexp : bexpF64 f64 = 0)
    (hmantissa : mantissaIsZero f64 = false) :
    countZeros f64 52 < 52 ∧
      bexpF80 (convertF64leToF80le f64) = 15360 - countZeros f64 52 ∧
      (convertF64leToF80le f64)[9] >>> 7 &&& 1#8 = f64[7] >>> 7 &&& 1#8 ∧
      ∀ m < 64, bit (convertF64leToF80le f64) m
        = if 12 + countZeros f64 52 ≤ m then bit f64 (m - 12 - countZeros f64 52) else false := by
  obtain ⟨hle, hzero, -⟩ := countZeros_spec f64 52
  have hshift : countZeros f64 52 < 52 := by
    by_contra hall
    have htrue : mantissaIsZero f64 = true :=
      mantissaIsZero_of_bits fun m hm => hzero m (by omega) hm
    simp [htrue] at hmantissa
  have hdef : convertF64leToF80le f64
      = ((copyMantissa f64 (52 - countZeros f64 52) 63
          #v[0#8, 0, 0, 0, 0, 0, 0, 0, 0, (f64[7] >>> 7 &&& 1#8) <<< 7]).set 9
            ((f64[7] >>> 7 &&& 1#8) <<< 7
              ||| BitVec.ofInt 8 (((15360 - countZeros f64 52 : ℕ) : ℤ) / 256))).set 8
          (BitVec.ofInt 8 ((15360 - countZeros f64 52 : ℕ) : ℤ)) := by
    have hcast : ((0 : ℕ) : ℤ) - countZeros f64 52 + (16383 - 1023)
        = ((15360 - countZeros f64 52 : ℕ) : ℤ) := by omega
    simp only [convertF64leToF80le, hexp, hmantissa, if_true, Bool.false_eq_true, if_false,
      hcast]
  obtain ⟨hread, hsign⟩ := exponent_read (convertF64leToF80le f64) (sign_cases f64[7])
    (e := 15360 - countZeros f64 52) (by omega) (by rw [hdef]; simp) (by rw [hdef]; simp)
  refine ⟨hshift, hread, hsign, fun m hm => ?_⟩
  have hmantissaBit : bit (convertF64leToF80le f64) m
      = bit (copyMantissa f64 (52 - countZeros f64 52) 63
          #v[0#8, 0, 0, 0, 0, 0, 0, 0, 0, (f64[7] >>> 7 &&& 1#8) <<< 7]) m := by
    rw [hdef]
    unfold bit BitArray.byte
    rw [Vector.getElem?_set_ne _ (by omega), Vector.getElem?_set_ne _ (by omega)]
  rw [hmantissaBit, copyMantissa_eq, bit_copyDown _ _ (by omega) (by omega) (by omega)]
  by_cases hin : 12 + countZeros f64 52 ≤ m
  · rw [if_pos hin, if_pos (by omega)]
    congr 1
    omega
  · rw [if_neg hin, if_neg (by omega), bit_lastBytes _ _ hm]

/-- The highest byte of a number whose exponent is zero. -/
theorem signByte {x : Byte} (h : x.toNat % 128 = 0) : (x >>> 7 &&& 1#8) <<< 7 = x := by
  have hlt := x.isLt
  have hcases : x.toNat = 0 ∨ x.toNat = 128 := by omega
  rcases hcases with h0 | h128
  · rw [show x = 0#8 from BitVec.eq_of_toNat_eq h0]
    rfl
  · rw [show x = 128#8 from BitVec.eq_of_toNat_eq h128]
    rfl

/-- The exponent and the sign of a number whose exponent is zero. -/
theorem bit_signExponent {f64 : F64le} (hexp : bexpF64 f64 = 0) {m : ℕ} (hm : 52 ≤ m)
    (hm' : m < 64) :
    bit #v[0#8, 0, 0, 0, 0, 0, 0, (f64[7] >>> 7 &&& 1#8) <<< 7] m = bit f64 m := by
  rw [bexpF64_eq] at hexp
  by_cases hbyte : m < 56
  · obtain ⟨j, rfl⟩ : ∃ j, m = 8 * 6 + j := ⟨m - 48, by omega⟩
    have hlt : f64[6].toNat < 2 ^ j :=
      lt_of_lt_of_le (by omega : f64[6].toNat < 2 ^ 4) (Nat.pow_le_pow_right (by decide) (by omega))
    rw [bit_lastByte _ hbyte, bit_getElem f64 (by omega) (by omega), ← BitVec.testBit_toNat,
      Nat.testBit_lt_two_pow hlt]
  · obtain ⟨j, rfl⟩ : ∃ j, m = 8 * 7 + j := ⟨m - 56, by omega⟩
    rw [bit_getElem _ (by omega) (by omega), bit_getElem f64 (by omega) (by omega),
      signByte (by omega)]
    rfl

/-- **The round trip of a subnormal number.** -/
theorem roundTrip_denormal {f64 : F64le} (hexp : bexpF64 f64 = 0)
    (hmantissa : mantissaIsZero f64 = false) :
    convertF80leToF64le (convertF64leToF80le f64) = some f64 := by
  obtain ⟨-, hzero, hone⟩ := countZeros_spec f64 52
  obtain ⟨hshift, hread, hsign, hbits⟩ := convertF64leToF80le_denormal hexp hmantissa
  set shift := countZeros f64 52 with hshiftDef
  set f80 := convertF64leToF80le f64
  -- the leading bit
  have hlead : f80[7] &&& 0x80#8 ≠ 0#8 := by
    have hbit : bit f80 (8 * 7 + 7) = true := by
      rw [hbits _ (by omega), if_pos (by omega)]
      rw [show 8 * 7 + 7 - 12 - shift = 52 - 1 - shift by omega]
      exact hone hshift
    rw [bit_getElem f80 (by omega) (by omega)] at hbit
    intro hand
    have hzero7 := congrArg (fun x : Byte => x.getLsbD 7) hand
    simp only [BitVec.getLsbD_and, hbit] at hzero7
    exact absurd hzero7 (by decide)
  -- the number is not rounded
  have hround : readBitArray f80 (10 + 1 - ((15360 - shift : ℕ) - (16383 - 1023) : ℤ)).toNat ≠ 1#8 := by
    have hbit : bit f80 (11 + shift) = false := by
      rw [hbits _ (by omega), if_neg (by omega)]
    rw [show (10 + 1 - ((15360 - shift : ℕ) - (16383 - 1023) : ℤ)).toNat = 11 + shift by omega,
      readBitArray_eq, hbit]
    decide
  unfold convertF80leToF64le
  simp only [hread, hsign]
  rw [if_neg (by omega), if_neg (by omega), if_neg hlead, if_neg (by omega), if_pos (by omega),
    if_neg (by omega), copyDenormal_eq _ (by omega) le_rfl, Option.map_some, if_neg hround]
  refine congrArg some (ext_bits fun m hm => ?_)
  rw [bit_copyDown _ _ (by omega) (by omega) (by omega)]
  by_cases hin : m < 52 - shift
  · rw [if_pos (by omega), hbits _ (by omega), if_pos (by omega)]
    congr 1
    omega
  · rw [if_neg (by omega)]
    by_cases hm52 : m < 52
    · rw [bit_lastByte _ (by omega), hzero m (by omega) hm52]
    · exact bit_signExponent hexp (by omega) hm

/-! ### Normalised numbers -/

/-- The parts of a byte are put together again. -/
theorem joinByte (x : Byte) {p q : Byte} (hq : q >>> 3 = 0#8) (hp : p <<< 5 = 0#8) :
    (x <<< 3 &&& 0xF8#8 ||| q) >>> 3 ||| (p ||| (x >>> 5 &&& 7#8)) <<< 5 = x := by
  rw [BitVec.ushiftRight_or_distrib, BitVec.shiftLeft_or_distrib, hq, hp, BitVec.or_zero,
    BitVec.zero_or]
  refine BitVec.eq_of_getLsbD_eq fun i hi => ?_
  interval_cases i <;> simp

/-- The upper part of a byte vanishes. -/
theorem upperPart (x : Byte) : (x >>> 5 &&& 7#8) >>> 3 = 0#8 := by
  refine BitVec.eq_of_getLsbD_eq fun i hi => ?_
  interval_cases i <;> simp

/-- The lower part of a byte vanishes. -/
theorem lowerPart (x m : Byte) : (x <<< 3 &&& m) <<< 5 = 0#8 := by
  refine BitVec.eq_of_getLsbD_eq fun i hi => ?_
  interval_cases i <;> simp

/-- The byte with the sign and the upper part of the exponent. -/
theorem signExponentByte (x : Byte) {e : ℕ} (he : e / 16 = x.toNat % 128) :
    (x >>> 7 &&& 1#8) <<< 7 ||| (BitVec.ofInt 8 ((e : ℤ) / 16) &&& 0x7F#8) = x := by
  have hofInt : BitVec.ofInt 8 ((e : ℤ) / 16) &&& 0x7F#8 = x &&& 0x7F#8 := by
    refine BitVec.eq_of_toNat_eq ?_
    have hcast : ((e : ℤ) / 16) = ((e / 16 : ℕ) : ℤ) := by omega
    rw [hcast, he, BitVec.ofInt_natCast, BitVec.toNat_and, BitVec.toNat_and, BitVec.toNat_ofNat]
    refine (Nat.and_two_pow_sub_one_eq_mod _ 7).trans ?_
    refine .trans ?_ (Nat.and_two_pow_sub_one_eq_mod _ 7).symm
    omega
  rw [hofInt]
  refine BitVec.eq_of_getLsbD_eq fun i hi => ?_
  interval_cases i <;> simp

/-- The byte with the lower part of the exponent. -/
theorem exponentByte (x y : Byte) {e : ℕ} (he : e % 16 = x.toNat / 16) :
    (BitVec.ofInt 8 (e : ℤ) <<< 4 &&& 0xF0#8)
      ||| ((1#8 <<< 7 ||| (x <<< 3 &&& 0x78#8) ||| (y >>> 5 &&& 7#8)) >>> 3 &&& 0x0F#8) = x := by
  have hofInt : BitVec.ofInt 8 (e : ℤ) <<< 4 = (x >>> 4) <<< 4 := by
    refine BitVec.eq_of_toNat_eq ?_
    rw [BitVec.ofInt_natCast, BitVec.toNat_shiftLeft, BitVec.toNat_shiftLeft, BitVec.toNat_ofNat,
      BitVec.toNat_ushiftRight, Nat.shiftLeft_eq, Nat.shiftLeft_eq, Nat.shiftRight_eq_div_pow]
    omega
  rw [hofInt]
  refine BitVec.eq_of_getLsbD_eq fun i hi => ?_
  interval_cases i <;> simp

/-- The bytes of a normalised number are put together again. -/
theorem truncated_rebiased (f64 : F64le) {e : ℤ} :
    truncated (rebiased f64 (f64[7] >>> 7 &&& 1#8) e) (f64[7] >>> 7 &&& 1#8) (bexpF64 f64)
      = f64 := by
  have hbexp := bexpF64_eq f64
  have h6 := f64[6].isLt
  refine Vector.ext fun i hi => ?_
  have hfirst := joinByte f64[0] (q := 0#8) rfl (lowerPart f64[1] 0xF8#8)
  rw [BitVec.or_zero] at hfirst
  have hlast := joinByte f64[5] (upperPart f64[4])
    (p := 1#8 <<< 7 ||| (f64[6] <<< 3 &&& 0x78#8)) (by
      rw [BitVec.shiftLeft_or_distrib, lowerPart]
      rfl)
  interval_cases i
  · exact hfirst
  · exact joinByte _ (upperPart _) (lowerPart _ _)
  · exact joinByte _ (upperPart _) (lowerPart _ _)
  · exact joinByte _ (upperPart _) (lowerPart _ _)
  · exact joinByte _ (upperPart _) (lowerPart _ _)
  · exact hlast
  · exact exponentByte _ _ (by omega)
  · exact signExponentByte _ (by omega)

/-- **The round trip of a number that is neither zero, subnormal, infinite nor NaN.** -/
theorem roundTrip_normal {f64 : F64le} (hzero : bexpF64 f64 ≠ 0) (hmax : bexpF64 f64 ≠ 0x7FF) :
    convertF80leToF64le (convertF64leToF80le f64) = some f64 := by
  have hlt : bexpF64 f64 < 2 ^ 11 := by
    have h6 := f64[6].isLt
    rw [bexpF64_eq]
    omega
  have hdef : convertF64leToF80le f64
      = rebiased f64 (f64[7] >>> 7 &&& 1#8) ((bexpF64 f64 + 15360 : ℕ) : ℤ) := by
    simp only [convertF64leToF80le, if_neg hzero, if_neg hmax]
    congr 1
  obtain ⟨hread, hsign⟩ := exponent_read (convertF64leToF80le f64) (sign_cases f64[7])
    (e := bexpF64 f64 + 15360) (by omega) (by rw [hdef]; rfl) (by rw [hdef]; rfl)
  have hlead : (convertF64leToF80le f64)[7] &&& 0x80#8 ≠ 0#8 := by
    rw [hdef]
    intro hand
    have hzero7 := congrArg (fun x : Byte => x.getLsbD 7) hand
    simp [rebiased] at hzero7
  -- the number is not rounded
  have hround : (convertF64leToF80le f64)[1] &&& 4#8 = 0#8 := by
    rw [hdef]
    change (f64[0] <<< 3 &&& 0xF8#8) &&& 4#8 = 0#8
    rw [BitVec.and_assoc, show 0xF8#8 &&& 4#8 = 0#8 from rfl, BitVec.and_zero]
  have hback : ((bexpF64 f64 + 15360 : ℕ) : ℤ) - (16383 - 1023) = bexpF64 f64 := by omega
  unfold convertF80leToF64le
  simp only [hread, hsign, hback]
  rw [if_neg (by omega), if_neg (by omega), if_neg hlead, if_neg (by omega), if_neg (by omega),
    if_neg (not_not.mpr hround), hdef, truncated_rebiased]

/-! ### The round trip -/

/-- The number, or the representative of its kind of NaN. -/
def canonicalF64 (f64 : F64le) : F64le :=
  let sign := f64[7] >>> 7 &&& 1#8
  if bexpF64 f64 = 0x7FF ∧ ¬mantissaIsZero f64 then
    if f64[6] &&& 8#8 ≠ 0#8 then #v[0#8, 0, 0, 0, 0, 0, 0xF8, sign <<< 7 ||| 0x7F#8]
    else #v[0xFF#8, 0xFF, 0xFF, 0xFF, 0xFF, 0xFF, 0xF7, sign <<< 7 ||| 0x7F#8]
  else f64

/-- A number whose mantissa is zero is given by its sign and its exponent. -/
theorem eq_of_mantissaIsZero {f64 : F64le} (h : mantissaIsZero f64 = true) {e s : Byte}
    (he : f64[6].toNat / 16 = e.toNat / 16) (he' : e.toNat % 16 = 0) (hs : s = f64[7]) :
    #v[0#8, 0, 0, 0, 0, 0, e, s] = f64 := by
  simp only [mantissaIsZero, Bool.and_eq_true, decide_eq_true_eq] at h
  obtain ⟨⟨⟨⟨⟨⟨h6, h5⟩, h4⟩, h3⟩, h2⟩, h1⟩, h0⟩ := h
  have hmod : f64[6].toNat % 16 = 0 := by
    have := congrArg BitVec.toNat h6
    rwa [BitVec.toNat_and, show (0x0F#8).toNat = 2 ^ 4 - 1 from rfl,
      Nat.and_two_pow_sub_one_eq_mod] at this
  refine Vector.ext fun i hi => ?_
  interval_cases i
  · exact h0.symm
  · exact h1.symm
  · exact h2.symm
  · exact h3.symm
  · exact h4.symm
  · exact h5.symm
  · refine BitVec.eq_of_toNat_eq ?_
    change e.toNat = f64[6].toNat
    omega
  · exact hs

/-- The highest byte of a number with the highest exponent. -/
theorem signByte_max {x : Byte} (h : x.toNat % 128 = 127) :
    (x >>> 7 &&& 1#8) <<< 7 ||| 0x7F#8 = x := by
  have hlt := x.isLt
  have hcases : x.toNat = 127 ∨ x.toNat = 255 := by omega
  rcases hcases with h0 | h128
  · rw [show x = 127#8 from BitVec.eq_of_toNat_eq h0]
    rfl
  · rw [show x = 255#8 from BitVec.eq_of_toNat_eq h128]
    rfl

/-- What is loaded from an extended number with the highest exponent. -/
theorem convertF80leToF64le_max (f80 : F80le) {sign : Byte} (hsign : sign = 0#8 ∨ sign = 1#8)
    (h8 : f80[8] = 0xFF#8) (h9 : f80[9] = sign <<< 7 ||| 0x7F#8) (hlead : f80[7] &&& 0x80#8 ≠ 0#8) :
    convertF80leToF64le f80 = some
      (if isInfF80 f80 then #v[0#8, 0, 0, 0, 0, 0, 0xF0, sign <<< 7 ||| 0x7F#8]
      else if f80[7] &&& 0x40#8 ≠ 0#8 then #v[0#8, 0, 0, 0, 0, 0, 0xF8, sign <<< 7 ||| 0x7F#8]
      else #v[0xFF#8, 0xFF, 0xFF, 0xFF, 0xFF, 0xFF, 0xF7, sign <<< 7 ||| 0x7F#8]) := by
  obtain ⟨hread, hsign'⟩ := exponent_read f80 hsign (e := 0x7FFF) (by decide) (by rw [h8]; rfl)
    (by rw [h9]; rfl)
  unfold convertF80leToF64le
  simp only [hread, hsign']
  rw [if_neg (by decide), if_pos trivial, if_neg hlead]
  split
  · rfl
  · split <;> rfl

/-- **The round trip of the two conversions**: a number that is stored in the extended format
and loaded again is the same number.  Of a NaN only the sign and the kind are kept. -/
theorem convertF80leToF64le_convertF64leToF80le (f64 : F64le) :
    convertF80leToF64le (convertF64leToF80le f64) = some (canonicalF64 f64) := by
  have hfields := bexpF64_eq f64
  have h6 := f64[6].isLt
  have hsign := sign_cases f64[7]
  by_cases hzero : bexpF64 f64 = 0
  · have hcanonical : canonicalF64 f64 = f64 := by simp [canonicalF64, hzero]
    rw [hcanonical]
    cases hmantissa : mantissaIsZero f64 with
    | false => exact roundTrip_denormal hzero hmantissa
    | true =>
      have hstored : convertF64leToF80le f64
          = #v[0#8, 0, 0, 0, 0, 0, 0, 0, 0, (f64[7] >>> 7 &&& 1#8) <<< 7] := by
        simp only [convertF64leToF80le, hzero, hmantissa, if_true]
      obtain ⟨hread, hsign'⟩ := exponent_read (convertF64leToF80le f64) hsign (e := 0) (by decide)
        (by rw [hstored]; rfl) (by rw [hstored]; exact (BitVec.or_zero).symm)
      unfold convertF80leToF64le
      simp only [hread, hsign', if_true]
      exact congrArg some (eq_of_mantissaIsZero hmantissa (by simp; omega) rfl (signByte (by omega)))
  by_cases hmax : bexpF64 f64 = 0x7FF
  · cases hmantissa : mantissaIsZero f64 with
    | true =>
      have hcanonical : canonicalF64 f64 = f64 := by simp [canonicalF64, hmantissa]
      have hstored : convertF64leToF80le f64
          = #v[0#8, 0, 0, 0, 0, 0, 0, 0x80, 0xFF, (f64[7] >>> 7 &&& 1#8) <<< 7 ||| 0x7F#8] := by
        simp [convertF64leToF80le, hmax, hmantissa]
      rw [hcanonical, hstored, convertF80leToF64le_max _ hsign rfl rfl (by simp),
        if_pos (by simp [isInfF80])]
      exact congrArg some
        (eq_of_mantissaIsZero hmantissa (by simp; omega) rfl (signByte_max (by omega)))
    | false =>
      by_cases hquiet : f64[6] &&& 8#8 = 0#8
      · have hstored : convertF64leToF80le f64 = #v[0xFF#8, 0xFF, 0xFF, 0xFF, 0xFF, 0xFF, 0xFF,
            0xBF, 0xFF, (f64[7] >>> 7 &&& 1#8) <<< 7 ||| 0x7F#8] := by
          simp [convertF64leToF80le, hmax, hmantissa, hquiet]
        rw [hstored, convertF80leToF64le_max _ hsign rfl rfl (by simp)]
        simp [canonicalF64, hmax, hmantissa, hquiet, isInfF80]
      · have hstored : convertF64leToF80le f64 = #v[0#8, 0, 0, 0, 0, 0, 0, 0xC0, 0xFF,
            (f64[7] >>> 7 &&& 1#8) <<< 7 ||| 0x7F#8] := by
          simp [convertF64leToF80le, hmax, hmantissa, hquiet]
        rw [hstored, convertF80leToF64le_max _ hsign rfl rfl (by simp)]
        simp [canonicalF64, hmax, hmantissa, hquiet, isInfF80]
  · have hcanonical : canonicalF64 f64 = f64 := by simp [canonicalF64, hmax]
    rw [hcanonical]
    exact roundTrip_normal hzero hmax

end Derivgrind
