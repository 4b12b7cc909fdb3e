import Mathlib.Data.List.Basic
import Mathlib.Data.Nat.Basic
import Mathlib.Logic.Function.Basic

/-!
# Chunked logs

A *chunked log* is a file that is only ever appended to, written through a
buffer of `N` records of `w` words each.  Records are poked into the buffer at
the position `count % N`; whenever the count reaches a multiple of `N` the whole
buffer is appended to the file, and at the end the part that is still pending is
appended as well.

## Main definitions

* `Buf` — a buffer with bounds-checked accesses.
* `Holds w N b file log` — the buffer and the file together hold `log`.

## Main results

* `Holds.push`, `Holds.push_flush` — one more record, without and with a flush.
* `Holds.finish` — flushing the pending part leaves exactly the log in the file.
-/

namespace ChunkedLog

variable {ω : Type*}

/-! ### Buffers -/

/-- A buffer of `size` words.  Contents beyond the size are never looked at. -/
structure Buf (ω : Type*) where
  /-- Number of words that may be accessed. -/
  size : ℕ
  /-- The words. -/
  data : ℕ → ω

/-- A buffer of the given size, filled with one word. -/
def Buf.fill (size : ℕ) (x : ω) : Buf ω := ⟨size, fun _ => x⟩

/-- Store one word; `none` is an access out of bounds. -/
def Buf.set? (b : Buf ω) (i : ℕ) (x : ω) : Option (Buf ω) :=
  if i < b.size then some ⟨b.size, Function.update b.data i x⟩ else none

/-- Load one word; `none` is an access out of bounds. -/
def Buf.get? (b : Buf ω) (i : ℕ) : Option ω := if i < b.size then some (b.data i) else none

/-- The first `n` words; `none` is an access out of bounds. -/
def Buf.front? (b : Buf ω) (n : ℕ) : Option (List ω) :=
  if n ≤ b.size then some ((List.range n).map b.data) else none

/-- Store several words next to each other. -/
def Buf.setAll? (b : Buf ω) (i : ℕ) : List ω → Option (Buf ω)
  | [] => some b
  | x :: xs => (b.set? i x).bind fun b' => b'.setAll? (i + 1) xs

@[simp] theorem Buf.fill_size (size : ℕ) (x : ω) : (Buf.fill size x).size = size := rfl

@[simp] theorem Buf.fill_data (size : ℕ) (x : ω) (i : ℕ) : (Buf.fill size x).data i = x := rfl

/-- Storing several words succeeds when the last one is in bounds, and changes
exactly these words. -/
theorem Buf.setAll?_spec : ∀ (xs : List ω) (b : Buf ω) (i : ℕ), i + xs.length ≤ b.size →
    ∃ b', b.setAll? i xs = some b' ∧ b'.size = b.size ∧
      (∀ j < i, b'.data j = b.data j) ∧ (List.range' i xs.length).map b'.data = xs := by
  intro xs
  induction xs with
  | nil => intro b i _; exact ⟨b, rfl, rfl, fun _ _ => rfl, rfl⟩
  | cons x xs ih =>
    intro b i h
    rw [List.length_cons] at h
    have hi : i < b.size := by omega
    obtain ⟨b', hb', hsize, hbelow, hdata⟩ :=
      ih ⟨b.size, Function.update b.data i x⟩ (i + 1) (by simp only; omega)
    refine ⟨b', ?_, hsize, ?_, ?_⟩
    · rw [setAll?, set?, if_pos hi]
      exact hb'
    · intro j hj
      have hji : j ≠ i := by omega
      rw [hbelow j (by omega)]
      exact Function.update_of_ne hji x b.data
    · rw [List.length_cons, List.range'_succ, List.map_cons, hdata, hbelow i (by omega)]
      simp only [Function.update_self]

/-! ### The log held by a buffer and a file -/

/-- The buffer `b` of `N` records of `w` words and the file hold the records of
`log`: the full chunks are in the file, the rest is pending in the buffer. -/
structure Holds (w N : ℕ) (b : Buf ω) (file : List ω) (log : List (List ω)) : Prop where
  size : b.size = w * N
  width : ∀ r ∈ log, r.length = w
  flushed : file = (log.take (log.length / N * N)).flatten
  pending : (List.range (w * (log.length % N))).map b.data
    = (log.drop (log.length / N * N)).flatten

variable {w N : ℕ} {b b' : Buf ω} {file : List ω} {log : List (List ω)} {r : List ω}

/-- A count that does not reach the next chunk. -/
theorem succ_div_mod_of_ne (hN : 0 < N) {n : ℕ} (h : (n + 1) % N ≠ 0) :
    (n + 1) / N = n / N ∧ (n + 1) % N = n % N + 1 := by
  have hlt : n % N < N := Nat.mod_lt n hN
  have hn := Nat.div_add_mod n N
  have hr : n % N + 1 < N := by
    by_contra hge
    have hrN : n % N + 1 = N := by omega
    refine h ?_
    have : n + 1 = N * (n / N + 1) := by rw [Nat.mul_add]; omega
    rw [this, Nat.mul_mod_right]
  exact (Nat.div_mod_unique hN).mpr ⟨by omega, hr⟩

/-- A count that completes a chunk. -/
theorem succ_div_mod_of_eq (hN : 0 < N) {n : ℕ} (h : (n + 1) % N = 0) :
    (n + 1) / N = n / N + 1 ∧ n % N + 1 = N := by
  have hlt : n % N < N := Nat.mod_lt n hN
  have hn := Nat.div_add_mod n N
  have hrN : n % N + 1 = N := by
    by_contra hne
    have := ((Nat.div_mod_unique (a := n + 1) (d := n / N) (c := n % N + 1) hN).mpr
      ⟨by omega, by omega⟩).2
    omega
  have heq : n + 1 = N * (n / N + 1) := by rw [Nat.mul_add]; omega
  exact ⟨by rw [heq, Nat.mul_div_cancel_left _ hN], hrN⟩

/-- The words of the buffer once the record `r` has been poked in behind the
pending ones. -/
theorem Holds.range_map_poke (h : Holds w N b file log) (hr : r.length = w)
    (hbelow : ∀ j < w * (log.length % N), b'.data j = b.data j)
    (hnew : (List.range' (w * (log.length % N)) r.length).map b'.data = r) :
    (List.range (w * (log.length % N + 1))).map b'.data
      = (log.drop (log.length / N * N)).flatten ++ r := by
  have hsplit : List.range (w * (log.length % N + 1))
      = List.range (w * (log.length % N)) ++ List.range' (w * (log.length % N)) w := by
    rw [Nat.mul_add, Nat.mul_one, List.range_eq_range', List.range_eq_range',
      ← List.range'_append_1]
    simp
  rw [hsplit, List.map_append, ← h.pending, ← hr]
  rw [hr] at hnew ⊢
  rw [hnew]
  congr 1
  refine List.map_congr_left fun j hj => ?_
  exact hbelow j (List.mem_range.mp hj)

theorem width_append (hw : ∀ x ∈ log, x.length = w) (hr : r.length = w) :
    ∀ x ∈ log ++ [r], x.length = w := by
  intro x hx
  rcases List.mem_append.mp hx with hx | hx
  · exact hw x hx
  · rw [List.mem_singleton.mp hx, hr]

/-- **One more record, the chunk not being complete.** -/
theorem Holds.push (h : Holds w N b file log) (hN : 0 < N) (hr : r.length = w)
    (hne : (log.length + 1) % N ≠ 0) (hsize : b'.size = b.size)
    (hbelow : ∀ j < w * (log.length % N), b'.data j = b.data j)
    (hnew : (List.range' (w * (log.length % N)) r.length).map b'.data = r) :
    Holds w N b' file (log ++ [r]) := by
  obtain ⟨hdiv, hmod⟩ := succ_div_mod_of_ne hN hne
  have hle : log.length / N * N ≤ log.length := Nat.div_mul_le_self _ _
  refine ⟨hsize.trans h.size, width_append h.width hr, ?_, ?_⟩
  · rw [List.length_append, List.length_singleton, hdiv, List.take_append_of_le_length hle]
    exact h.flushed
  · rw [List.length_append, List.length_singleton, hdiv, hmod, List.drop_append_of_le_length hle,
      h.range_map_poke hr hbelow hnew]
    simp

/-- **One more record, completing a chunk**: the buffer is appended to the file. -/
theorem Holds.push_flush (h : Holds w N b file log) (hN : 0 < N) (hr : r.length = w)
    (heq : (log.length + 1) % N = 0) (hsize : b'.size = b.size)
    (hbelow : ∀ j < w * (log.length % N), b'.data j = b.data j)
    (hnew : (List.range' (w * (log.length % N)) r.length).map b'.data = r) :
    Holds w N b' (file ++ (List.range (w * N)).map b'.data) (log ++ [r]) := by
  obtain ⟨hdiv, hmod⟩ := succ_div_mod_of_eq hN heq
  have hlen : (log.length / N + 1) * N = log.length + 1 := by
    have := Nat.div_add_mod log.length N
    rw [Nat.add_mul, Nat.mul_comm]
    omega
  have hfull : (log ++ [r]).length = log.length + 1 := by simp
  refine ⟨hsize.trans h.size, width_append h.width hr, ?_, ?_⟩
  · rw [hfull, hdiv, hlen, List.take_of_length_le (by simp), List.flatten_append,
      ← hmod, h.range_map_poke hr hbelow hnew, h.flushed, ← List.append_assoc,
      ← List.flatten_append, List.take_append_drop]
    simp
  · rw [hfull, heq, hdiv, hlen, List.drop_of_length_le (by simp)]
    rfl

/-- **Appending the pending part leaves exactly the log in the file.** -/
theorem Holds.finish (h : Holds w N b file log) :
    file ++ (List.range (w * (log.length % N))).map b.data = log.flatten := by
  rw [h.flushed, h.pending, ← List.flatten_append, List.take_append_drop]

/-- **The buffer and the file determine the log**, given its length. -/
theorem Holds.log_unique {log' : List (List ω)} (h : Holds w N b file log)
    (h' : Holds w N b file log') (hlen : log.length = log'.length) : log = log' := by
  have hflat : log.flatten = log'.flatten := by rw [← h.finish, ← h'.finish, hlen]
  have hwidths : log.map List.length = log'.map List.length := by
    rw [List.map_congr_left h.width, List.map_congr_left h'.width, List.map_const',
      List.map_const', hlen]
  exact List.eq_iff_flatten_eq.mpr ⟨hflat, hwidths⟩

/-- The number of words already in the file. -/
theorem Holds.length_file (h : Holds w N b file log) :
    file.length = w * (log.length / N * N) := by
  have hsum : ∀ l : List (List ω), (∀ x ∈ l, x.length = w) → l.flatten.length = w * l.length := by
    intro l
    induction l with
    | nil => intro _; simp
    | cons x l ih =>
      intro hl
      rw [List.flatten_cons, List.length_append, hl x List.mem_cons_self,
        ih fun y hy => hl y (List.mem_cons_of_mem _ hy), List.length_cons, Nat.mul_add,
        Nat.mul_one, Nat.add_comm]
  rw [h.flushed, hsum _ fun x hx => h.width x (List.mem_of_mem_take hx), List.length_take,
    Nat.min_eq_left (Nat.div_mul_le_self _ _)]

/-- A record of the right width at the current position is in bounds. -/
theorem Holds.inBounds (h : Holds w N b file log) (hN : 0 < N) :
    w * (log.length % N) + w ≤ b.size := by
  rw [h.size]
  have hlt : log.length % N + 1 ≤ N := Nat.mod_lt _ hN
  calc w * (log.length % N) + w = w * (log.length % N + 1) := by rw [Nat.mul_add, Nat.mul_one]
    _ ≤ w * N := Nat.mul_le_mul_left w hlt

end ChunkedLog
