import Mathlib.Algebra.Group.Nat.Defs
import Mathlib.Data.List.Basic

/-!
# Loops

A loop evaluates a condition on its state and, if it holds, executes its body and starts
again.  It is given fuel for a number of rounds, and its result is `none` if there are
more.

## Main definitions

* `Loop.run` — run a loop.
* `Loop.forRange` — a loop over a range, with a counter of a certain width.

## Main results

* `Loop.run_of_states` — a loop whose states are known ends in the last one.
* `Loop.run_eq_none` — a loop that keeps its condition never ends.
* `Loop.forRange_eq`, `Loop.forRange_eq_none` — the counter has to be wide enough.
-/

namespace Loop

variable {σ : Type*} {cond : σ → Bool} {body : σ → Option σ}

/-- Run a loop. -/
def run (cond : σ → Bool) (body : σ → Option σ) : ℕ → σ → Option σ
  | 0, _ => none
  | fuel + 1, s => if cond s then (body s).bind (run cond body fuel) else some s

theorem run_of_cond {s s' : σ} (hcond : cond s = true) (hbody : body s = some s') (fuel : ℕ) :
    run cond body (fuel + 1) s = run cond body fuel s' := by
  rw [run, if_pos hcond, hbody, Option.bind_some]

theorem run_of_not_cond {s : σ} (hcond : cond s = false) (fuel : ℕ) :
    run cond body (fuel + 1) s = some s := by
  rw [run, hcond]
  rfl

/-- **A loop ends** in the first of its states in which the condition fails. -/
theorem run_of_states {n : ℕ} (f : ℕ → σ)
    (hstep : ∀ k < n, cond (f k) = true ∧ body (f k) = some (f (k + 1)))
    (hend : cond (f n) = false) {fuel : ℕ} (hfuel : n < fuel) :
    run cond body fuel (f 0) = some (f n) := by
  induction n generalizing f fuel with
  | zero =>
    obtain ⟨fuel, rfl⟩ := Nat.exists_eq_succ_of_ne_zero (Nat.ne_of_gt hfuel)
    exact run_of_not_cond hend fuel
  | succ n ih =>
    obtain ⟨fuel, rfl⟩ := Nat.exists_eq_succ_of_ne_zero (Nat.ne_of_gt (Nat.zero_lt_of_lt hfuel))
    obtain ⟨hcond, hbody⟩ := hstep 0 (Nat.zero_lt_succ n)
    have hrest := ih (fun k => f (k + 1)) (fun k hk => hstep (k + 1) (Nat.succ_lt_succ hk)) hend
      (Nat.lt_of_succ_lt_succ hfuel)
    exact (run_of_cond hcond hbody fuel).trans hrest

/-- **A loop never ends** if an invariant implies its condition. -/
theorem run_eq_none {P : σ → Prop} (hcond : ∀ s, P s → cond s = true)
    (hbody : ∀ s s', P s → body s = some s' → P s') (fuel : ℕ) :
    ∀ {s : σ}, P s → run cond body fuel s = none := by
  induction fuel with
  | zero => intro s _; rfl
  | succ fuel ih =>
    intro s hs
    rw [run, if_pos (hcond s hs)]
    cases h : body s with
    | none => rfl
    | some s' => exact ih (hbody s s' hs h)

/-! ### Counters -/

/-- The loop `for(i=0; i<size; i++)` with an unsigned counter `i` of width `w`. -/
def forRange (w fuel size : ℕ) (body : ℕ → σ → Option σ) (s : σ) : Option σ :=
  (run (fun s => s.1.toNat < size)
    (fun s => (body s.1.toNat s.2).map fun s' => (s.1 + 1, s')) fuel (BitVec.ofNat w 0, s)).map
    Prod.snd

variable {w size : ℕ} (body : ℕ → σ → Option σ)

theorem run_counter (hsize : size < 2 ^ w) {fuel i : ℕ} (hi : i ≤ size) (hfuel : size - i < fuel)
    (s : σ) :
    (run (fun s => s.1.toNat < size)
        (fun s => (body s.1.toNat s.2).map fun s' => (s.1 + 1, s')) fuel
        (BitVec.ofNat w i, s)).map Prod.snd
      = (List.range' i (size - i)).foldlM (fun s i => body i s) s := by
  have hcounter : (BitVec.ofNat w i).toNat = i := by
    rw [BitVec.toNat_ofNat, Nat.mod_eq_of_lt (by omega)]
  obtain ⟨fuel, rfl⟩ := Nat.exists_eq_succ_of_ne_zero (Nat.ne_of_gt (Nat.zero_lt_of_lt hfuel))
  induction hm : size - i generalizing i s fuel with
  | zero =>
    have hend : ¬i < size := by omega
    rw [run_of_not_cond (by simp [hcounter, hend])]
    rfl
  | succ m ih =>
    have hlt : i < size := by omega
    rw [run, if_pos (by simp [hcounter, hlt]), List.range'_succ, List.foldlM_cons, hcounter]
    cases hbody : body i s with
    | none => rfl
    | some s' =>
      have hnext : BitVec.ofNat w i + 1 = BitVec.ofNat w (i + 1) := (BitVec.ofNat_add i 1).symm
      obtain ⟨fuel, rfl⟩ := Nat.exists_eq_succ_of_ne_zero (n := fuel) (by omega)
      rw [Option.map_some, Option.bind_some, hnext]
      exact ih hlt s' (by rw [BitVec.toNat_ofNat, Nat.mod_eq_of_lt (by omega)]) fuel (by omega)
        (by omega)

/-- **A counter that is wide enough** takes all values. -/
theorem forRange_eq (hsize : size < 2 ^ w) {fuel : ℕ} (hfuel : size < fuel) (s : σ) :
    forRange w fuel size body s = (List.range size).foldlM (fun s i => body i s) s := by
  rw [List.range_eq_range']
  exact run_counter body hsize (Nat.zero_le size) hfuel s

/-- **A counter that is not wide enough** starts again, and the loop never ends. -/
theorem forRange_eq_none (hsize : 2 ^ w ≤ size) (fuel : ℕ) (s : σ) :
    forRange w fuel size body s = none := by
  rw [forRange, run_eq_none (P := fun _ => True) _ _ fuel trivial, Option.map_none]
  · intro s _
    exact decide_eq_true (Nat.lt_of_lt_of_le s.1.isLt hsize)
  · exact fun _ _ _ _ => trivial

end Loop
