import Derivgrind.Vex.Sem

/-!
# Bytes and lanes

Many operations of VEX only move bytes.  For each of these, `route` lists, for all
bytes of the result from the least significant one on, where the byte comes
from.  The floating-point operations act on the lanes of their operands; those
on the lowest lane only copy the other lanes from the first operand.

## Main definitions

* `moveBytes`, `IROp.route?` — operations that move bytes.
* `lane`, `lanewise₂` — lanes, and operations on all lanes.
* `FpSem`, `vexOp` — the meaning of operations, given the meaning of
  floating-point operations on lanes.

## Main results

* `moveBytes_map` — moving bytes commutes with changing all bytes.
* `moveBytes_fromArg` — moving consecutive bytes.
* `lane_lanewise₂` — the lanes of the result of an operation on all lanes.
-/

namespace Derivgrind

variable {B C : Type}

/-! ### Moving bytes -/

/-- Where a byte of a result comes from. -/
inductive Source
  | zero
  /-- The `j`-th byte of the `i`-th argument; both are counted from zero. -/
  | arg (i j : ℕ)
  deriving DecidableEq, Repr

/-- The bytes of a result, given where they come from. -/
def moveBytes (z : B) (route : List Source) (args : List (List B)) : List B :=
  route.map fun
    | .zero => z
    | .arg i j => (args.getD i []).getD j z

/-- Consecutive bytes of an argument. -/
def fromArg (i start n : ℕ) : List Source := (List.range n).map fun j => .arg i (start + j)

/-- Bytes that are zero. -/
def zeroBytes (n : ℕ) : List Source := List.replicate n .zero

/-- Where the bytes of a shifted value of `n` bytes come from; it is shifted by `k` bytes. -/
def shiftRoute (left : Bool) (n k : ℕ) : List Source :=
  if left then zeroBytes (min k n) ++ fromArg 0 0 (n - k)
  else fromArg 0 k (n - k) ++ zeroBytes (min k n)

def UnMove.route : UnMove → List Source
  | .reinterpI32asF32 => fromArg 0 0 4
  | .reinterpF32asI32 => fromArg 0 0 4
  | .reinterpI64asF64 => fromArg 0 0 8
  | .reinterpF64asI64 => fromArg 0 0 8
  | .op16to8 => fromArg 0 0 1
  | .op32to16 => fromArg 0 0 2
  | .op64to32 => fromArg 0 0 4
  | .opV128to64 => fromArg 0 0 8
  | .op128to64 => fromArg 0 0 8
  | .op16HIto8 => fromArg 0 1 1
  | .op32HIto16 => fromArg 0 2 2
  | .op64HIto32 => fromArg 0 4 4
  | .opV128HIto64 => fromArg 0 8 8
  | .op128HIto64 => fromArg 0 8 8
  | .op64to8 => fromArg 0 0 1
  | .op32to8 => fromArg 0 0 1
  | .op64to16 => fromArg 0 0 2
  | .opV256toV128lo => fromArg 0 0 16
  | .opV256toV128hi => fromArg 0 16 16
  | .op64UtoV128 => fromArg 0 0 8 ++ zeroBytes 8
  | .op32UtoV128 => fromArg 0 0 4 ++ zeroBytes 12
  | .opV128to32 => fromArg 0 0 4
  | .zeroHI64ofV128 => fromArg 0 0 8 ++ zeroBytes 8
  | .zeroHI96ofV128 => fromArg 0 0 4 ++ zeroBytes 12
  | .zeroHI112ofV128 => fromArg 0 0 2 ++ zeroBytes 14
  | .zeroHI120ofV128 => fromArg 0 0 1 ++ zeroBytes 15
  | .op8Uto16 => fromArg 0 0 1 ++ zeroBytes 1
  | .op8Uto32 => fromArg 0 0 1 ++ zeroBytes 3
  | .op8Uto64 => fromArg 0 0 1 ++ zeroBytes 7
  | .op16Uto32 => fromArg 0 0 2 ++ zeroBytes 2
  | .op16Uto64 => fromArg 0 0 2 ++ zeroBytes 6
  | .op32Uto64 => fromArg 0 0 4 ++ zeroBytes 4

/-- The first argument is the more significant half. -/
def joinHalves (n : ℕ) : List Source := fromArg 1 0 n ++ fromArg 0 0 n

/-- Interleave elements of `w` bytes, `n` from each argument, from the byte `start` on.
Elements of the second argument come first. -/
def interleave (w n start : ℕ) : List Source :=
  (List.range n).flatMap fun k => fromArg 1 (start + w * k) w ++ fromArg 0 (start + w * k) w

def BinMove.route : BinMove → List Source
  | .op8HLto16 => joinHalves 1
  | .op16HLto32 => joinHalves 2
  | .op32HLto64 => joinHalves 4
  | .op64HLto128 => joinHalves 8
  | .op64HLtoV128 => joinHalves 8
  | .opV128HLtoV256 => joinHalves 16
  | .setV128lo32 => fromArg 1 0 4 ++ fromArg 0 4 12
  | .setV128lo64 => fromArg 1 0 8 ++ fromArg 0 8 8
  | .interleaveHI8x16 => interleave 1 8 8
  | .interleaveHI16x8 => interleave 2 4 8
  | .interleaveHI32x4 => interleave 4 2 8
  | .interleaveHI64x2 => interleave 8 1 8
  | .interleaveLO8x16 => interleave 1 8 0
  | .interleaveLO16x8 => interleave 2 4 0
  | .interleaveLO32x4 => interleave 4 2 0
  | .interleaveLO64x2 => interleave 8 1 0

def HelperMove.route : HelperMove → List Source
  | .v256to64 part => fromArg 0 (8 * part) 8
  | .reinterpI128asV128 => fromArg 0 0 16
  | .reinterpV128asI128 => fromArg 0 0 16
  | .reinterpI64asD64 => fromArg 0 0 8
  | .reinterpI128asF128 => fromArg 0 0 16
  | .reinterpF128asI128 => fromArg 0 0 16

/-- The operations that move bytes. -/
def IROp.route? : IROp → Option (List Source)
  | .unMove m => some m.route
  | .binMove m => some m.route
  | .op64x4toV256 => some (fromArg 3 0 8 ++ fromArg 2 0 8 ++ fromArg 1 0 8 ++ fromArg 0 0 8)
  | .helperMove m => some m.route
  | _ => none

@[simp] theorem length_moveBytes (z : B) (route : List Source) (args : List (List B)) :
    (moveBytes z route args).length = route.length := List.length_map _

@[simp] theorem length_fromArg (i start n : ℕ) : (fromArg i start n).length = n := by
  rw [fromArg, List.length_map, List.length_range]

@[simp] theorem length_zeroBytes (n : ℕ) : (zeroBytes n).length = n := List.length_replicate

/-- Operations that move bytes give results of the right size. -/
theorem length_route {op : IROp} {route : List Source} (h : op.route? = some route) :
    route.length = sizeofIRType (typeOfPrimop op).dst := by
  cases op with
  | unMove m => obtain rfl := Option.some_inj.mp h; cases m <;> rfl
  | binMove m => obtain rfl := Option.some_inj.mp h; cases m <;> rfl
  | op64x4toV256 => obtain rfl := Option.some_inj.mp h; rfl
  | helperMove m => obtain rfl := Option.some_inj.mp h; cases m <;> rfl
  | _ => cases h

/-- Moving bytes commutes with changing all bytes. -/
theorem moveBytes_map (f : B → C) (z : B) (route : List Source) (args : List (List B)) :
    (moveBytes z route args).map f = moveBytes (f z) route (args.map (List.map f)) := by
  rw [moveBytes, moveBytes, List.map_map]
  apply List.map_congr_left
  intro src _
  cases src with
  | zero => rfl
  | arg i j =>
    simp only [Function.comp, List.getD_eq_getElem?_getD, List.getElem?_map]
    cases args[i]? with
    | none => simp
    | some v => cases hv : v[j]? <;> simp [hv]

@[simp] theorem moveBytes_append (z : B) (r r' : List Source) (args : List (List B)) :
    moveBytes z (r ++ r') args = moveBytes z r args ++ moveBytes z r' args := List.map_append

@[simp] theorem moveBytes_zeroBytes (z : B) (n : ℕ) (args : List (List B)) :
    moveBytes z (zeroBytes n) args = List.replicate n z := List.map_replicate

/-- Moving consecutive bytes. -/
theorem moveBytes_fromArg {z : B} {i start n : ℕ} {args : List (List B)} {v : List B}
    (hv : args[i]? = some v) (h : start + n ≤ v.length) :
    moveBytes z (fromArg i start n) args = (v.drop start).take n := by
  apply List.ext_getElem
  · simp only [length_moveBytes, length_fromArg, List.length_take, List.length_drop]
    omega
  intro k hk hk'
  simp only [length_moveBytes, length_fromArg] at hk
  have hkv : start + k < v.length := by omega
  simp [moveBytes, fromArg, hv, List.getD_eq_getElem?_getD, hkv]

/-- Moving all bytes of an argument. -/
theorem moveBytes_whole {z : B} {i n : ℕ} {args : List (List B)} {v : List B}
    (hv : args[i]? = some v) (h : v.length = n) : moveBytes z (fromArg i 0 n) args = v := by
  rw [moveBytes_fromArg hv (by omega), List.drop_zero, List.take_of_length_le (by omega)]

theorem moveBytes_joinHalves {z : B} {n : ℕ} {va vb : List B} (ha : va.length = n)
    (hb : vb.length = n) : moveBytes z (joinHalves n) [va, vb] = vb ++ va := by
  rw [joinHalves, moveBytes_append, moveBytes_whole (v := vb) rfl hb,
    moveBytes_whole (v := va) rfl ha]

theorem moveBytes_join4 {z : B} {n : ℕ} {va vb vc vd : List B} (ha : va.length = n)
    (hb : vb.length = n) (hc : vc.length = n) (hd : vd.length = n) :
    moveBytes z (fromArg 3 0 n ++ fromArg 2 0 n ++ fromArg 1 0 n ++ fromArg 0 0 n)
      [va, vb, vc, vd] = vd ++ vc ++ vb ++ va := by
  rw [moveBytes_append, moveBytes_append, moveBytes_append, moveBytes_whole (v := vd) rfl hd,
    moveBytes_whole (v := vc) rfl hc, moveBytes_whole (v := vb) rfl hb,
    moveBytes_whole (v := va) rfl ha]

/-! ### Lanes -/

/-- The `i`-th lane of `w` bytes. -/
def lane (w i : ℕ) (v : List B) : List B := (v.drop (w * i)).take w

theorem length_lane {w i : ℕ} {v : List B} (h : w * (i + 1) ≤ v.length) :
    (lane w i v).length = w := by
  rw [lane, List.length_take, List.length_drop]
  rw [Nat.mul_succ] at h
  omega

theorem length_flatten_lanes {w : ℕ} : ∀ {L : List (List B)}, (∀ x ∈ L, x.length = w) →
    L.flatten.length = w * L.length := by
  intro L
  induction L with
  | nil => intro _; rfl
  | cons x L ih =>
    intro h
    rw [List.flatten_cons, List.length_append, h x List.mem_cons_self,
      ih fun y hy => h y (List.mem_cons_of_mem x hy), List.length_cons, Nat.mul_succ, Nat.add_comm]

/-- The concatenation of the first lanes. -/
theorem flatten_lanes (w n : ℕ) (v : List B) :
    ((List.range n).map fun i => lane w i v).flatten = v.take (w * n) := by
  induction n with
  | zero => rw [Nat.mul_zero, List.take_zero]; rfl
  | succ n ih =>
    rw [List.range_succ, List.map_append, List.flatten_append, ih, Nat.mul_succ, List.take_add]
    exact congrArg _ (List.append_nil _)

/-- The lanes of a concatenation of lanes. -/
theorem lane_flatten {w : ℕ} : ∀ {L : List (List B)} {i : ℕ}, (∀ x ∈ L, x.length = w) →
    (hi : i < L.length) → lane w i L.flatten = L[i] := by
  intro L
  induction L with
  | nil => intro i _ hi; exact absurd hi (Nat.not_lt_zero i)
  | cons x L ih =>
    intro i h hi
    have hx : x.length = w := h x List.mem_cons_self
    cases i with
    | zero =>
      rw [lane, Nat.mul_zero, List.drop_zero, List.flatten_cons, List.take_left' hx]
      rfl
    | succ i =>
      have hrest := ih (fun y hy => h y (List.mem_cons_of_mem x hy)) (Nat.lt_of_succ_lt_succ hi)
      rw [List.getElem_cons_succ, ← hrest, lane, lane, List.flatten_cons, Nat.mul_succ, Nat.add_comm,
        ← List.drop_drop, List.drop_left' hx]

/-- Lists of the same length are equal if all their lanes are. -/
theorem eq_of_lanes {w n : ℕ} {u v : List B} (hu : u.length = w * n) (hv : v.length = w * n)
    (h : ∀ i < n, lane w i u = lane w i v) : u = v := by
  have hflatten : ((List.range n).map fun i => lane w i u).flatten
      = ((List.range n).map fun i => lane w i v).flatten :=
    congrArg List.flatten (List.map_congr_left fun i hi => h i (List.mem_range.mp hi))
  rwa [flatten_lanes, flatten_lanes, List.take_of_length_le (Nat.le_of_eq hu),
    List.take_of_length_le (Nat.le_of_eq hv)] at hflatten

theorem map_lane (f : B → C) (w i : ℕ) (v : List B) : (lane w i v).map f = lane w i (v.map f) := by
  rw [lane, lane, List.map_take, List.map_drop]

/-- An operation on the lanes of two operands; operations on the lowest lane only copy the
other lanes from the first operand. -/
def lanewise₂ (l : Simd) (f : List B → List B → List B) (a b : List B) : List B :=
  ((List.range l.simdsize).map fun i => if l.llo && i ≠ 0 then lane l.fpsize i a
    else f (lane l.fpsize i a) (lane l.fpsize i b)).flatten

/-- An operation on the lanes of one operand. -/
def lanewise₁ (l : Simd) (f : List B → List B) (a : List B) : List B :=
  lanewise₂ l (fun x _ => f x) a a

section Lanewise

variable {l : Simd} {f : List B → List B → List B} {a b : List B}

theorem length_lanewise₂_lane (ha : a.length = l.fpsize * l.simdsize)
    (hf : ∀ x y, (f x y).length = l.fpsize) :
    ∀ x ∈ (List.range l.simdsize).map fun i => if l.llo && i ≠ 0 then lane l.fpsize i a
      else f (lane l.fpsize i a) (lane l.fpsize i b), x.length = l.fpsize := by
  intro x hx
  obtain ⟨i, hi, rfl⟩ := List.mem_map.mp hx
  have hi : i < l.simdsize := List.mem_range.mp hi
  split
  · exact length_lane (by rw [ha]; exact Nat.mul_le_mul_left l.fpsize hi)
  · exact hf _ _

theorem length_lanewise₂ (ha : a.length = l.fpsize * l.simdsize)
    (hf : ∀ x y, (f x y).length = l.fpsize) :
    (lanewise₂ l f a b).length = l.fpsize * l.simdsize := by
  rw [lanewise₂, length_flatten_lanes (length_lanewise₂_lane ha hf), List.length_map,
    List.length_range]

/-- The lanes of the result of an operation on all lanes. -/
theorem lane_lanewise₂ (ha : a.length = l.fpsize * l.simdsize)
    (hf : ∀ x y, (f x y).length = l.fpsize) {i : ℕ} (hi : i < l.simdsize) :
    lane l.fpsize i (lanewise₂ l f a b) = if l.llo && i ≠ 0 then lane l.fpsize i a
      else f (lane l.fpsize i a) (lane l.fpsize i b) := by
  rw [lanewise₂, lane_flatten (length_lanewise₂_lane ha hf)
    (by rw [List.length_map, List.length_range]; exact hi), List.getElem_map, List.getElem_range]

theorem length_lanewise₁ {f : List B → List B} (ha : a.length = l.fpsize * l.simdsize)
    (hf : ∀ x, (f x).length = l.fpsize) : (lanewise₁ l f a).length = l.fpsize * l.simdsize :=
  length_lanewise₂ ha fun x _ => hf x

theorem lane_lanewise₁ {f : List B → List B} (ha : a.length = l.fpsize * l.simdsize)
    (hf : ∀ x, (f x).length = l.fpsize) {i : ℕ} (hi : i < l.simdsize) :
    lane l.fpsize i (lanewise₁ l f a) = if l.llo && i ≠ 0 then lane l.fpsize i a
      else f (lane l.fpsize i a) :=
  lane_lanewise₂ ha (fun x _ => hf x) hi

/-- Operations on lanes commute with changing all bytes. -/
theorem map_lanewise₂ {h : B → C} {g : List C → List C → List C}
    (hf : ∀ x y, (f x y).map h = g (x.map h) (y.map h)) (a b : List B) :
    (lanewise₂ l f a b).map h = lanewise₂ l g (a.map h) (b.map h) := by
  rw [lanewise₂, lanewise₂, List.map_flatten, List.map_map]
  refine congrArg List.flatten (List.map_congr_left fun i _ => ?_)
  show List.map h (if l.llo && i ≠ 0 then lane l.fpsize i a
    else f (lane l.fpsize i a) (lane l.fpsize i b)) = _
  split
  · exact map_lane h _ i a
  · rw [hf, map_lane, map_lane]

theorem map_lanewise₁ {h : B → C} {f : List B → List B} {g : List C → List C}
    (hf : ∀ x, (f x).map h = g (x.map h)) (a : List B) :
    (lanewise₁ l f a).map h = lanewise₁ l g (a.map h) :=
  map_lanewise₂ (fun x _ => hf x) a a

/-- Scalars have one lane. -/
theorem lanewise₂_scalar {w : ℕ} (ha : a.length = w) (hb : b.length = w) :
    lanewise₂ ⟨w, 1, false⟩ f a b = f a b := by
  have hlane : ∀ {v : List B}, v.length = w → lane w 0 v = v := fun hv => by
    rw [lane, Nat.mul_zero, List.drop_zero, List.take_of_length_le (Nat.le_of_eq hv)]
  show [f (lane w 0 a) (lane w 0 b)].flatten = f a b
  rw [hlane ha, hlane hb, List.flatten_singleton]

end Lanewise

/-! ### The meaning of operations -/

/-- The meaning of floating-point operations on single lanes.  The number is the
size of the lane in bytes; lowest-lane-only operations have no rounding mode. -/
structure FpSem (B : Type) where
  arith : ArithOp → ℕ → Option (List B) → List B → List B → List B
  sqrt : ℕ → Option (List B) → List B → List B
  neg : ℕ → List B → List B
  abs : ℕ → List B → List B
  minMax : MinMaxOp → ℕ → List B → List B → List B
  fma : Bool → ℕ → List B → List B → List B → List B → List B
  f32toF64 : List B → List B
  f64toF32 : List B → List B → List B
  scaleF64 : List B → List B → List B → List B
  yl2xF64 : List B → List B → List B → List B
  yl2xp1F64 : List B → List B → List B → List B

/-- The meaning of operations, given the meaning of floating-point operations on lanes
and the meaning of operations that are neither floating-point operations nor move bytes. -/
def vexOp (F : FpSem B) (z : B) (rest : IROp → List (List B) → List B) :
    IROp → List (List B) → List B
  | .arith op l, [rm, a, b] => lanewise₂ l.simd (F.arith op l.simd.fpsize (some rm)) a b
  | .arith op l, [a, b] => lanewise₂ l.simd (F.arith op l.simd.fpsize none) a b
  | .sqrt l, [rm, a] => lanewise₁ l.simd (F.sqrt l.simd.fpsize (some rm)) a
  | .sqrt l, [a] => lanewise₁ l.simd (F.sqrt l.simd.fpsize none) a
  | .neg l, [a] => lanewise₁ l.simd (F.neg l.simd.fpsize) a
  | .abs l, [a] => F.abs l.simd.fpsize a
  | .minMax op l, [a, b] => lanewise₂ l.simd (F.minMax op l.simd.fpsize) a b
  | .fma sub l, [rm, a, b, c] => F.fma sub l.simd.fpsize rm a b c
  | .f32toF64, [a] => F.f32toF64 a
  | .f64toF32, [rm, a] => F.f64toF32 rm a
  | .scaleF64, [rm, a, b] => F.scaleF64 rm a b
  | .yl2xF64, [rm, a, b] => F.yl2xF64 rm a b
  | .yl2xp1F64, [rm, a, b] => F.yl2xp1F64 rm a b
  | op, args =>
      match op.route? with
      | some route => moveBytes z route args
      | none => rest op args

end Derivgrind
