import Mathlib.Algebra.BigOperators.Pi
import Mathlib.Data.Matrix.Mul

/-!
# Transposed updates of a vector

Adding a multiple of one entry of a vector to another entry in place is a linear
map; its transpose is the update with the roles of the two entries exchanged.
Two sweeps over the same list of updates, in opposite order, are therefore
transposes of each other.

## Main definitions

* `shear i o a` — the update `v i += v o * a`.
* `IsTranspose f g` — `g` is the transpose of `f`.

## Main results

* `isTranspose_shear` — the transpose of an update.
* `IsTranspose.comp`, `IsTranspose.foldl` — composition, and sweeps.
* `IsTranspose.apply_eq_sum` — the entries of the transposed map.
-/

namespace Adjoint

variable {ι R α : Type*} [CommRing R]

section Transpose

variable [Fintype ι]

/-- `g` is the transpose of `f`. -/
def IsTranspose (f g : (ι → R) → ι → R) : Prop := ∀ u v, u ⬝ᵥ f v = g u ⬝ᵥ v

theorem IsTranspose.id : IsTranspose (ι := ι) (R := R) id id := fun _ _ => rfl

/-- The transpose of a composition is the composition in opposite order. -/
theorem IsTranspose.comp {f g f' g' : (ι → R) → ι → R} (h : IsTranspose f g)
    (h' : IsTranspose f' g') : IsTranspose (f' ∘ f) (g ∘ g') := by
  intro u v
  rw [Function.comp, h' u (f v), h (g' u) v]
  rfl

/-- **Sweeps in opposite directions are transposes of each other**, if the single
updates are. -/
theorem IsTranspose.foldl {f g : α → (ι → R) → ι → R} : ∀ l : List α,
    (∀ a ∈ l, IsTranspose (f a) (g a)) →
    IsTranspose (fun v => l.foldl (fun v a => f a v) v)
      (fun u => l.reverse.foldl (fun u a => g a u) u) := by
  intro l
  induction l with
  | nil => intro _; exact IsTranspose.id
  | cons a l ih =>
    intro h
    have hl := ih fun b hb => h b (List.mem_cons_of_mem a hb)
    have hcomp := (h a List.mem_cons_self).comp hl
    intro u v
    simp only [List.foldl_cons, List.reverse_cons, List.foldl_append]
    exact hcomp u v

/-- The entries of the transposed map, in terms of the map on unit vectors. -/
theorem IsTranspose.apply_eq_sum [DecidableEq ι] {f g : (ι → R) → ι → R} (h : IsTranspose f g) (u : ι → R)
    (j : ι) : g u j = ∑ i, u i * f (Pi.single j 1) i := by
  have hj := h u (Pi.single j 1)
  rw [dotProduct_single_one] at hj
  exact hj.symm

end Transpose

variable [DecidableEq ι]

/-- Add a multiple of the entry at `o` to the entry at `i`. -/
def shear (i o : ι) (a : R) (v : ι → R) : ι → R := Function.update v i (v i + v o * a)

theorem shear_apply (i o : ι) (a : R) (v : ι → R) :
    shear i o a v = v + Pi.single i (v o * a) := by
  funext k
  by_cases hk : k = i
  · subst hk
    simp [shear]
  · simp [shear, hk]

/-- **The transpose of an update** exchanges the two entries. -/
theorem isTranspose_shear [Fintype ι] (i o : ι) (a : R) : IsTranspose (shear i o a) (shear o i a) := by
  intro u v
  rw [shear_apply, shear_apply, dotProduct_add, add_dotProduct, dotProduct_single,
    single_dotProduct]
  congr 1
  rw [mul_comm (v o) a, mul_assoc]

/-- Updates that read the same entry, and do not write it, commute. -/
theorem shear_comm {i o₁ o₂ : ι} (h₁ : o₁ ≠ i) (h₂ : o₂ ≠ i) (a₁ a₂ : R) (u : ι → R) :
    shear o₁ i a₁ (shear o₂ i a₂ u) = shear o₂ i a₂ (shear o₁ i a₁ u) := by
  have hread : ∀ (o : ι) (a : R), o ≠ i → shear o i a u i = u i := fun o a h =>
    Function.update_of_ne (Ne.symm h) _ _
  rw [shear_apply o₁, hread o₂ a₂ h₂, shear_apply o₂ i a₂ (shear o₁ i a₁ u), hread o₁ a₁ h₁,
    shear_apply, shear_apply, add_right_comm]

end Adjoint
