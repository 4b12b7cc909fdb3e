import Derivgrind.Lib.Ieee
import Derivgrind.Vex.Lanes

/-!
# Machine bytes

The interpretation of VEX on the bytes of a machine.  Floating-point arithmetic is
left open, but comparisons and the conversion from single to double precision
are exact, and given by the bit patterns.

## Main definitions

* `natToBytes`, `bytesToNat`, `bitsOf` — bytes and numbers.
* `hostInterp` — the interpretation.

## Main results

* `bytesToNat_natToBytes`, `natToBytes_bytesToNat` — the round trips.
-/

namespace Derivgrind

/-- A machine byte. -/
abbrev Byte := BitVec 8

/-! ### Bytes and numbers -/

/-- The `n` lowest bytes of a number, in little-endian order. -/
def natToBytes : ℕ → ℕ → List Byte
  | 0, _ => []
  | n + 1, x => BitVec.ofNat 8 x :: natToBytes n (x / 256)

/-- The number with the given bytes. -/
def bytesToNat : List Byte → ℕ
  | [] => 0
  | b :: bs => b.toNat + 256 * bytesToNat bs

/-- The bit pattern with the given bytes. -/
def bitsOf (w : ℕ) (bytes : List Byte) : BitVec w := BitVec.ofNat w (bytesToNat bytes)

@[simp] theorem length_natToBytes (n x : ℕ) : (natToBytes n x).length = n := by
  induction n generalizing x with
  | zero => rfl
  | succ n ih => rw [natToBytes, List.length_cons, ih]

theorem bytesToNat_natToBytes (n x : ℕ) : bytesToNat (natToBytes n x) = x % 256 ^ n := by
  induction n generalizing x with
  | zero => rw [natToBytes, bytesToNat, Nat.pow_zero, Nat.mod_one]
  | succ n ih =>
    have hmod : x % 256 ^ (n + 1) = x % 256 + 256 * (x / 256 % 256 ^ n) := by
      rw [Nat.pow_succ', Nat.mod_mul]
    rw [natToBytes, bytesToNat, ih, BitVec.toNat_ofNat, hmod]

theorem natToBytes_bytesToNat (bytes : List Byte) :
    natToBytes bytes.length (bytesToNat bytes) = bytes := by
  induction bytes with
  | nil => rfl
  | cons b bs ih =>
    have hb : b.toNat < 256 := b.isLt
    have hdiv : (b.toNat + 256 * bytesToNat bs) / 256 = bytesToNat bs := by omega
    rw [List.length_cons, bytesToNat, natToBytes, hdiv, ih]
    congr 1
    apply BitVec.eq_of_toNat_eq
    rw [BitVec.toNat_ofNat]
    omega

theorem bytesToNat_lt (bytes : List Byte) : bytesToNat bytes < 256 ^ bytes.length := by
  have h := bytesToNat_natToBytes bytes.length (bytesToNat bytes)
  rw [natToBytes_bytesToNat] at h
  rw [h]
  exact Nat.mod_lt _ (Nat.pow_pos (by decide))

theorem toNat_bitsOf {w : ℕ} {bytes : List Byte} (h : 8 * bytes.length ≤ w) :
    (bitsOf w bytes).toNat = bytesToNat bytes := by
  rw [bitsOf, BitVec.toNat_ofNat, Nat.mod_eq_of_lt]
  calc bytesToNat bytes < 256 ^ bytes.length := bytesToNat_lt bytes
    _ = 2 ^ (8 * bytes.length) := by rw [Nat.pow_mul]
    _ ≤ 2 ^ w := Nat.pow_le_pow_right (by decide) h

/-- The bytes of a bit pattern. -/
def bytesOf {w : ℕ} (x : BitVec w) : List Byte := natToBytes (w / 8) x.toNat

theorem bitsOf_bytesOf {w : ℕ} (hw : 8 ∣ w) (x : BitVec w) : bitsOf w (bytesOf x) = x := by
  obtain ⟨n, rfl⟩ := hw
  have hpow : 256 ^ (8 * n / 8) = 2 ^ (8 * n) := by
    rw [Nat.mul_div_cancel_left n (by decide), Nat.pow_mul]
  rw [bitsOf, bytesOf, bytesToNat_natToBytes, hpow, Nat.mod_eq_of_lt x.isLt]
  exact BitVec.eq_of_toNat_eq (by rw [BitVec.toNat_ofNat, Nat.mod_eq_of_lt x.isLt])

/-- More significant zero bytes do not matter. -/
theorem bytesToNat_append_replicate (n : ℕ) (bytes : List Byte) :
    bytesToNat (bytes ++ List.replicate n 0) = bytesToNat bytes := by
  induction bytes with
  | nil =>
    induction n with
    | zero => rfl
    | succ n ih =>
      rw [List.nil_append] at ih ⊢
      show (0 : Byte).toNat + 256 * bytesToNat (List.replicate n 0) = 0
      rw [ih]
      rfl
  | cons b bs ih => rw [List.cons_append, bytesToNat, bytesToNat, ih]

/-! ### The interpretation -/

/-- A constant with one bit for each byte. -/
def byteMask (n : ℕ) {w : ℕ} (x : BitVec w) : List Byte :=
  (List.range n).map fun i => if x.getLsbD i then 0xff else 0

/-- Constants; addresses of Derivgrind's buffer are not used as values. -/
def hostConst : IRConst → List Byte
  | .u1 x => [if x then 1 else 0]
  | .u8 x => bytesOf x
  | .u16 x => bytesOf x
  | .u32 x => bytesOf x
  | .u64 x => bytesOf x
  | .u128 x => byteMask 16 x
  | .f32 x => bytesOf x
  | .f32i x => bytesOf x
  | .f64 x => bytesOf x
  | .f64i x => bytesOf x
  | .v128 x => byteMask 16 x
  | .v256 x => byteMask 32 x
  | .bufferAddr _ _ => []

/-- The result of `Iop_CmpF64`. -/
def cmpF64Code (x y : BitVec 64) : BitVec 32 :=
  if Ieee.IsNaN x ∨ Ieee.IsNaN y then 0x45
  else if Ieee.lt x y then 0x01
  else if Ieee.lt y x then 0x00
  else 0x40

/-- Operations that neither are floating-point arithmetic nor move bytes. -/
def hostOp (rest : IROp → List (List Byte) → List Byte) : IROp → List (List Byte) → List Byte
  | .helper .cmpF64, [x, y] => bytesOf (cmpF64Code (bitsOf 64 x) (bitsOf 64 y))
  | .helper .op32to1, [x] => [x.getD 0 0 &&& 1]
  | op, args => rest op args

/-- The conversion from single to double precision. -/
def hostF32toF64 (x : List Byte) : List Byte := bytesOf (Ieee.widen (bitsOf 32 x))

/-- The interpretation on machine bytes. -/
def hostInterp (F : FpSem Byte) (rest : Interp Byte) : Interp Byte where
  zero := 0
  const := hostConst
  op := vexOp { F with f32toF64 := hostF32toF64 } 0 (hostOp rest.op)
  ccall := rest.ccall
  isTrue v := (v.getD 0 0).getLsbD 0
  addr v := bitsOf 64 v
  index v := (bitsOf 32 v).toInt

/-! ### A simple machine -/

/-- Floating-point operations whose results are zero. -/
def FpSem.zeros : FpSem Byte where
  arith _ n _ _ _ := List.replicate n 0
  sqrt n _ _ := List.replicate n 0
  neg n _ := List.replicate n 0
  abs n _ := List.replicate n 0
  minMax _ n _ _ := List.replicate n 0
  fma _ n _ _ _ _ := List.replicate n 0
  f32toF64 _ := List.replicate 8 0
  f64toF32 _ _ := List.replicate 4 0
  scaleF64 _ _ _ := List.replicate 8 0
  yl2xF64 _ _ _ := List.replicate 8 0
  yl2xp1F64 _ _ _ := List.replicate 8 0

/-- An interpretation in which operations have no result. -/
def Interp.silent : Interp Byte :=
  ⟨0, fun _ => [], fun _ _ => [], fun _ _ => [], fun _ => false, fun _ => 0, fun _ => 0⟩

/-- A machine on which calls have no effect, and return eight zero bytes. -/
def Machine.idle (I : Interp Byte) (guestSize : ℕ) : Machine Byte Unit where
  toInterp := I
  guestSize := guestSize
  guestDirty _ _ reg mem := (List.replicate 8 0, reg, mem)
  toolDirty _ _ buf tool := (List.replicate 8 0, buf, tool)
  skipped := []
  storeSucceeds _ _ _ := true
  flag ok := [if ok then 1 else 0]

/-- A state with given temporaries, in which everything else is zero. -/
def State.ofTmps {T : Type} (tool : T) (tmps : List (List Byte)) : State Byte T where
  tmp t := tmps.getD t []
  reg _ := 0
  mem _ := 0
  buf _ := 0
  tool := tool

end Derivgrind
