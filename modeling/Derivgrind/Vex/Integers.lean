import Derivgrind.Vex.Host

/-!
# Integer operations

Shifts, and widenings with the sign, act on the number that the bytes of an operand stand for.  A
shift by whole bytes moves bytes.

## Main definitions

* `Interp.Integers` — shifts and widenings with the sign are as in VEX.

## Main results

* `natToBytes_add`, `bytesToNat_append` — joining bytes.
* `Interp.Integers.shift_bytes`, `Interp.Integers.shift_zero` — shifts by whole bytes, and of zero.
-/

namespace Derivgrind

/-! ### Joining bytes -/

theorem bytesToNat_append (u v : List Byte) :
    bytesToNat (u ++ v) = bytesToNat u + 256 ^ u.length * bytesToNat v := by
  induction u with
  | nil => simp [bytesToNat]
  | cons b u ih =>
    rw [List.cons_append, bytesToNat, bytesToNat, ih, List.length_cons, Nat.pow_succ', Nat.mul_add,
      Nat.add_assoc, Nat.mul_assoc]

theorem natToBytes_add (m n x : ℕ) :
    natToBytes (m + n) x = natToBytes m x ++ natToBytes n (x / 256 ^ m) := by
  induction m generalizing x with
  | zero => simp [natToBytes]
  | succ m ih =>
    rw [Nat.succ_add, natToBytes, natToBytes, ih, List.cons_append, Nat.div_div_eq_div_mul,
      ← Nat.pow_succ']

theorem natToBytes_mul (k n x : ℕ) :
    natToBytes (k + n) (x * 256 ^ k) = List.replicate k 0 ++ natToBytes n x := by
  induction k with
  | zero => simp
  | succ k ih =>
    have hpow : x * 256 ^ (k + 1) = x * 256 ^ k * 256 := by rw [Nat.pow_succ, Nat.mul_assoc]
    have hbyte : BitVec.ofNat 8 (x * 256 ^ k * 256) = 0 := by
      apply BitVec.eq_of_toNat_eq
      rw [BitVec.toNat_ofNat]
      exact Nat.mul_mod_left _ _
    rw [Nat.succ_add, natToBytes, hpow, hbyte, Nat.mul_div_cancel _ (by decide), ih,
      List.replicate_succ, List.cons_append]

@[simp] theorem natToBytes_zero (n : ℕ) : natToBytes n 0 = List.replicate n 0 := by
  induction n with
  | zero => rfl
  | succ n ih => rw [natToBytes, Nat.zero_div, ih, List.replicate_succ]; rfl

@[simp] theorem bytesToNat_replicate_zero (n : ℕ) : bytesToNat (List.replicate n 0) = 0 :=
  bytesToNat_append_replicate n []

theorem natToBytes_take {n : ℕ} {v : List Byte} (h : n ≤ v.length) :
    natToBytes n (bytesToNat v) = v.take n := by
  obtain ⟨u, w, rfl, rfl⟩ : ∃ u w, v = u ++ w ∧ n = u.length :=
    ⟨v.take n, v.drop n, (List.take_append_drop n v).symm, by rw [List.length_take]; omega⟩
  have hround := natToBytes_bytesToNat (u ++ w)
  rw [List.length_append, natToBytes_add] at hround
  rw [List.take_left]
  exact (List.append_inj hround (length_natToBytes _ _)).1

theorem bytesToNat_drop {k : ℕ} {v : List Byte} (h : k ≤ v.length) :
    bytesToNat v / 256 ^ k = bytesToNat (v.drop k) := by
  obtain ⟨u, w, rfl, rfl⟩ : ∃ u w, v = u ++ w ∧ k = u.length :=
    ⟨v.take k, v.drop k, (List.take_append_drop k v).symm, by rw [List.length_take]; omega⟩
  rw [bytesToNat_append, List.drop_left, Nat.add_mul_div_left _ _ (Nat.pow_pos (by decide)),
    Nat.div_eq_of_lt (bytesToNat_lt u), Nat.zero_add]

/-! ### Shifts and widenings -/

/-- Shifts and widenings with the sign are as in VEX.  The result of a shift by the size of the
operand or more is not specified. -/
structure Interp.Integers (I : Interp Byte) : Prop where
  shift : ∀ left (size : ShiftSize) v (n : Byte), v.length = sizeofIRType size.type →
    n.toNat < 8 * v.length → I.op (.shift left size) [v, [n]] = natToBytes v.length
      (if left then bytesToNat v * 2 ^ n.toNat else bytesToNat v / 2 ^ n.toNat)
  length_shift : ∀ left (size : ShiftSize) v (n : Byte), v.length = sizeofIRType size.type →
    (I.op (.shift left size) [v, [n]]).length = v.length
  signWiden : ∀ (m : SignWiden) v, m.sig.args.map sizeofIRType = [v.length] →
    I.op (.signWiden m) [v] = v ++ List.replicate (sizeofIRType m.sig.dst - v.length)
      (if (v.getD (v.length - 1) 0).msb then 0xff else 0)

namespace Interp.Integers

variable {I : Interp Byte} {left : Bool} {size : ShiftSize} {v : List Byte} {n : Byte}

/-- Shifts by whole bytes move bytes. -/
theorem shift_bytes (hI : I.Integers) (hv : v.length = sizeofIRType size.type)
    (hn : n.toNat < 8 * v.length) (hbytes : n.toNat % 8 = 0) :
    I.op (.shift left size) [v, [n]]
      = moveBytes 0 (shiftRoute left (sizeofIRType size.type) (n.toNat / 8)) [v] := by
  rw [hI.shift left size v n hv hn, ← hv]
  obtain ⟨k, hk⟩ : ∃ k, n.toNat = 8 * k := ⟨n.toNat / 8, by omega⟩
  have hle : k ≤ v.length := by omega
  have hpow : (2 ^ 8) ^ k = 256 ^ k := rfl
  rw [hk, Nat.pow_mul, hpow, Nat.mul_div_cancel_left k (by decide), shiftRoute, Nat.min_eq_left hle]
  cases left with
  | true =>
    rw [if_pos rfl, if_pos rfl, moveBytes_append, moveBytes_zeroBytes,
      moveBytes_fromArg (v := v) rfl (by omega), List.drop_zero]
    calc natToBytes v.length (bytesToNat v * 256 ^ k)
        = natToBytes (k + (v.length - k)) (bytesToNat v * 256 ^ k) := by
          rw [Nat.add_sub_cancel' hle]
      _ = List.replicate k 0 ++ natToBytes (v.length - k) (bytesToNat v) := natToBytes_mul _ _ _
      _ = List.replicate k 0 ++ v.take (v.length - k) := by rw [natToBytes_take (by omega)]
  | false =>
    have hlen : (v.drop k).length = v.length - k := List.length_drop
    rw [if_neg (by decide), if_neg (by decide), moveBytes_append, moveBytes_zeroBytes,
      moveBytes_fromArg (v := v) rfl (by omega), bytesToNat_drop hle, ← hlen,
      List.take_of_length_le (le_refl _)]
    calc natToBytes v.length (bytesToNat (v.drop k))
        = natToBytes ((v.drop k).length + k) (bytesToNat (v.drop k)) := by
          rw [hlen, Nat.sub_add_cancel hle]
      _ = v.drop k ++ List.replicate k 0 := by
          rw [natToBytes_add, natToBytes_bytesToNat, Nat.div_eq_of_lt (bytesToNat_lt _),
            natToBytes_zero]

/-- Shifts of zero. -/
theorem shift_zero (hI : I.Integers) (hn : n.toNat < 8 * sizeofIRType size.type) :
    I.op (.shift left size) [List.replicate (sizeofIRType size.type) 0, [n]]
      = List.replicate (sizeofIRType size.type) 0 := by
  have hlen : (List.replicate (sizeofIRType size.type) (0 : Byte)).length
      = sizeofIRType size.type := List.length_replicate
  rw [hI.shift left size _ n hlen (by rwa [hlen]), hlen, bytesToNat_replicate_zero, Nat.zero_mul,
    Nat.zero_div, ite_self, natToBytes_zero]

end Interp.Integers

end Derivgrind
