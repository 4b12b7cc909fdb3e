import Mathlib.Data.List.Pairwise
import Mathlib.Logic.Function.Basic
import Mathlib.Order.Lattice

/-!
# Sweeps over an array

A sweep assigns entries of an array one after the other, in increasing order, from the
entries up to the assigned one.  The final array then solves the equations that the
assignments read as.

## Main results

* `sweep_apply` — the result of a sweep solves its equations.
-/

namespace Sweep

variable {ι R : Type*} [LinearOrder ι]

/-- Assign the entries in the list one after the other. -/
def sweep (F : ι → (ι → R) → R) (l : List ι) (v : ι → R) : ι → R :=
  l.foldl (fun v i => Function.update v i (F i v)) v

/-- The value of an assignment depends on the entries up to the assigned one. -/
def Causal (F : ι → (ι → R) → R) : Prop :=
  ∀ i v v', (∀ j ≤ i, v j = v' j) → F i v = F i v'

variable {F : ι → (ι → R) → R}

/-- Entries that are not assigned keep their value. -/
theorem sweep_of_notMem : ∀ (l : List ι) (v : ι → R) {j : ι}, j ∉ l → sweep F l v j = v j := by
  intro l
  induction l with
  | nil => intro v j _; rfl
  | cons i l ih =>
    intro v j hj
    rw [List.mem_cons, not_or] at hj
    change sweep F l (Function.update v i (F i v)) j = v j
    rw [ih _ hj.2, Function.update_of_ne hj.1]

/-- **The result of a sweep solves its equations.** -/
theorem sweep_apply (hF : Causal F) : ∀ (l : List ι) (v : ι → R) {i : ι},
    l.Pairwise (· < ·) → i ∈ l →
    sweep F l v i = F i fun j => if j < i then sweep F l v j else v j := by
  intro l
  induction l with
  | nil => intro v i _ hi; exact absurd hi List.not_mem_nil
  | cons a l ih =>
    intro v i hl hi
    rw [List.pairwise_cons] at hl
    have hnot : ∀ j ≤ a, j ∉ l := fun j hj hmem => absurd (hl.1 j hmem) (not_lt_of_ge hj)
    change sweep F l (Function.update v a (F a v)) i
      = F i fun j => if j < i then sweep F l (Function.update v a (F a v)) j else v j
    rcases List.mem_cons.mp hi with rfl | hmem
    · -- the first entry is not assigned again, and nothing before it
      rw [sweep_of_notMem l _ (hnot i le_rfl), Function.update_self]
      refine hF i _ _ fun j hj => ?_
      split
      · next hlt => rw [sweep_of_notMem l _ (hnot j hj), Function.update_of_ne (ne_of_lt hlt)]
      · rfl
    · rw [ih _ hl.2 hmem]
      refine hF i _ _ fun j hj => ?_
      split
      · rfl
      · next hge =>
        have hij : j = i := le_antisymm hj (not_lt.mp hge)
        rw [hij, Function.update_of_ne (ne_of_gt (hl.1 i hmem))]

end Sweep
