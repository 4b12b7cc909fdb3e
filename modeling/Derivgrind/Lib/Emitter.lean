import Mathlib.Data.List.Forall2

/-!
# Emitting code

An `Emitter` is a computation that appends declarations and items of code to a
program under construction, and that can fail.  The code that is emitted has
itself a meaning, a relation between states; `Meaning.wp` is the weakest
precondition of an emitter with respect to what the emitted code does.

## Main definitions

* `Emitter` — the monad.
* `Emitter.Meaning` — what emitted code means.
* `Emitter.Meaning.wp` — weakest preconditions.

## Main results

* `Emitter.Meaning.wp_bind`, `Emitter.Meaning.wp_mono`, … — the rules.
* `Emitter.Meaning.wp_mapList` — the rule for loops.
-/

/-- A computation that, given the declarations that exist so far, returns a result and
the declarations and items it appends, or fails. -/
def Emitter (τ ι α : Type) : Type := List τ → Option (α × List τ × List ι)

namespace Emitter

variable {τ ι α β γ : Type}

/-! ### The monad -/

/-- Append nothing. -/
def pure (a : α) : Emitter τ ι α := fun _ => some (a, [], [])

/-- One computation after the other. -/
def bind (m : Emitter τ ι α) (f : α → Emitter τ ι β) : Emitter τ ι β := fun env =>
  (m env).bind fun (a, tys, items) =>
    (f a (env ++ tys)).map fun (b, tys', items') => (b, tys ++ tys', items ++ items')

instance : Monad (Emitter τ ι) where
  pure := Emitter.pure
  bind := Emitter.bind

/-- Append items. -/
def emit (items : List ι) : Emitter τ ι Unit := fun _ => some ((), [], items)

/-- Append `n` declarations, and return their positions. -/
def declare (n : ℕ) (ty : τ) : Emitter τ ι (List ℕ) := fun env =>
  some ((List.range n).map (env.length + ·), List.replicate n ty, [])

/-- Look up something in the declarations. -/
def query (f : List τ → Option α) : Emitter τ ι α := fun env =>
  (f env).map fun a => (a, [], [])

/-- Apply a computation to all elements of a list. -/
def mapList (f : α → Emitter τ ι β) : List α → Emitter τ ι (List β)
  | [] => Emitter.pure []
  | a :: l => do
      let b ← f a
      let bs ← mapList f l
      return b :: bs

/-- Everything a successful composition can do. -/
theorem bind_eq_some {m : Emitter τ ι α} {f : α → Emitter τ ι β} {env : List τ} {b : β}
    {tys : List τ} {items : List ι} (h : (m >>= f) env = some (b, tys, items)) :
    ∃ a tys₁ items₁ tys₂ items₂, m env = some (a, tys₁, items₁) ∧
      f a (env ++ tys₁) = some (b, tys₂, items₂) ∧ tys = tys₁ ++ tys₂ ∧
      items = items₁ ++ items₂ := by
  obtain ⟨⟨a, tys₁, items₁⟩, hm, hf⟩ := Option.bind_eq_some_iff.mp h
  obtain ⟨⟨b', tys₂, items₂⟩, hf', heq⟩ := Option.map_eq_some_iff.mp hf
  obtain ⟨rfl, rfl, rfl⟩ : b' = b ∧ tys₁ ++ tys₂ = tys ∧ items₁ ++ items₂ = items := by
    simpa only [Prod.mk.injEq] using heq
  exact ⟨a, tys₁, items₁, tys₂, items₂, hm, hf', rfl, rfl⟩

/-- A successful computation is followed by the second one. -/
theorem bind_eq_of_eq_some {m : Emitter τ ι α} {f : α → Emitter τ ι β} {env : List τ} {a : α}
    {tys : List τ} {items : List ι} (h : m env = some (a, tys, items)) :
    (m >>= f) env =
      (f a (env ++ tys)).map fun (b, tys', items') => (b, tys ++ tys', items ++ items') := by
  show (m env).bind _ = _
  rw [h]
  rfl

theorem bind_assoc (m : Emitter τ ι α) (f : α → Emitter τ ι β) (g : β → Emitter τ ι γ) :
    (m >>= f) >>= g = m >>= fun a => f a >>= g := by
  funext env
  show ((m env).bind _).bind _ = (m env).bind _
  cases m env with
  | none => rfl
  | some r =>
    obtain ⟨a, tys, items⟩ := r
    show ((f a (env ++ tys)).map _).bind _ = ((f a (env ++ tys)).bind _).map _
    cases f a (env ++ tys) with
    | none => rfl
    | some r' =>
      obtain ⟨b, tys', items'⟩ := r'
      show (g b (env ++ (tys ++ tys'))).map _ = ((g b (env ++ tys ++ tys')).map _).map _
      rw [Option.map_map, List.append_assoc]
      congr 1
      funext ⟨c, tys'', items''⟩
      simp [List.append_assoc]

/-! ### Weakest preconditions -/

/-- What emitted items mean: a relation between states that may depend on the
declarations, but not on those that are added later.  If `total` is set, then
computations have to succeed. -/
structure Meaning (τ ι σ : Type) where
  total : Bool
  rel : List τ → List ι → σ → σ → Prop
  nil : ∀ env s, rel env [] s s
  append : ∀ {env items items' s s' s''}, rel env items s s' → rel env items' s' s'' →
    rel env (items ++ items') s s''
  mono : ∀ {env env' items s s'}, rel env items s s' → rel (env ++ env') items s s'

namespace Meaning

variable {σ : Type} (R : Meaning τ ι σ)

/-- The computation succeeds, if it has to, and running the emitted code from `s` ends
in a state that satisfies the postcondition. -/
structure wp (m : Emitter τ ι α) (env : List τ) (s : σ) (Q : α → List τ → σ → Prop) : Prop where
  succeeds : R.total = true → (m env).isSome = true
  ends : ∀ a tys items, m env = some (a, tys, items) →
    ∃ s', R.rel (env ++ tys) items s s' ∧ Q a (env ++ tys) s'

variable {R} {env : List τ} {s : σ}

theorem wp_mono {m : Emitter τ ι α} {Q Q' : α → List τ → σ → Prop} (h : R.wp m env s Q)
    (hQ : ∀ a env' s', Q a env' s' → Q' a env' s') : R.wp m env s Q' := by
  refine ⟨h.succeeds, ?_⟩
  intro a tys items hm
  obtain ⟨s', hrel, hpost⟩ := h.ends a tys items hm
  exact ⟨s', hrel, hQ a _ s' hpost⟩

/-- A property of what is computed, whatever the emitted code does. -/
theorem wp_and_result {m : Emitter τ ι α} {P : α → Prop} {Q : α → List τ → σ → Prop}
    (h : R.wp m env s Q) (hP : ∀ a tys items, m env = some (a, tys, items) → P a) :
    R.wp m env s fun a env' s' => P a ∧ Q a env' s' := by
  refine ⟨h.succeeds, ?_⟩
  intro a tys items hm
  obtain ⟨s', hrel, hpost⟩ := h.ends a tys items hm
  exact ⟨s', hrel, hP a tys items hm, hpost⟩

theorem wp_pure {a : α} {Q : α → List τ → σ → Prop} (h : Q a env s) :
    R.wp (Pure.pure a) env s Q := by
  refine ⟨fun _ => rfl, ?_⟩
  intro b tys items hm
  obtain ⟨rfl, rfl, rfl⟩ : a = b ∧ [] = tys ∧ [] = items := by
    simpa only [Prod.mk.injEq] using Option.some_inj.mp hm
  rw [List.append_nil]
  exact ⟨s, R.nil env s, h⟩

theorem wp_bind {m : Emitter τ ι α} {f : α → Emitter τ ι β} {Q : β → List τ → σ → Prop}
    (h : R.wp m env s fun a env' s' => R.wp (f a) env' s' Q) : R.wp (m >>= f) env s Q := by
  constructor
  · intro htotal
    obtain ⟨⟨a, tys, items⟩, hm⟩ := Option.isSome_iff_exists.mp (h.succeeds htotal)
    obtain ⟨s', -, hf⟩ := h.ends a tys items hm
    rw [bind_eq_of_eq_some hm, Option.isSome_map]
    exact hf.succeeds htotal
  · intro b tys items hbind
    obtain ⟨a, tys₁, items₁, tys₂, items₂, hm, hf, rfl, rfl⟩ := bind_eq_some hbind
    obtain ⟨s₁, hrel₁, hpost⟩ := h.ends a tys₁ items₁ hm
    obtain ⟨s₂, hrel₂, hQ⟩ := hpost.ends b tys₂ items₂ hf
    rw [← List.append_assoc]
    exact ⟨s₂, R.append (R.mono hrel₁) hrel₂, hQ⟩

theorem wp_emit {items : List ι} {Q : Unit → List τ → σ → Prop} {s' : σ}
    (hrel : R.rel env items s s') (h : Q () env s') : R.wp (emit items) env s Q := by
  refine ⟨fun _ => rfl, ?_⟩
  intro b tys items' hm
  obtain ⟨-, rfl, rfl⟩ : () = b ∧ [] = tys ∧ items = items' := by
    simpa only [Prod.mk.injEq] using Option.some_inj.mp hm
  rw [List.append_nil]
  exact ⟨s', hrel, h⟩

theorem wp_declare {n : ℕ} {ty : τ} {Q : List ℕ → List τ → σ → Prop}
    (h : Q ((List.range n).map (env.length + ·)) (env ++ List.replicate n ty) s) :
    R.wp (declare n ty) env s Q := by
  refine ⟨fun _ => rfl, ?_⟩
  intro b tys items hm
  obtain ⟨rfl, rfl, rfl⟩ :
      (List.range n).map (env.length + ·) = b ∧ List.replicate n ty = tys ∧ [] = items := by
    simpa only [Prod.mk.injEq] using Option.some_inj.mp hm
  exact ⟨s, R.nil _ s, h⟩

theorem wp_query {f : List τ → Option α} {Q : α → List τ → σ → Prop}
    (hf : R.total = true → (f env).isSome = true) (h : ∀ a, f env = some a → Q a env s) :
    R.wp (query f) env s Q := by
  constructor
  · intro htotal
    show ((f env).map _).isSome = true
    rw [Option.isSome_map]
    exact hf htotal
  · intro b tys items hm
    obtain ⟨a, hfa, heq⟩ := Option.map_eq_some_iff.mp hm
    obtain ⟨rfl, rfl, rfl⟩ : a = b ∧ [] = tys ∧ [] = items := by
      simpa only [Prod.mk.injEq] using heq
    rw [List.append_nil]
    exact ⟨s, R.nil env s, h a hfa⟩

/-- The rule for loops: the invariant relates the elements that have been handled to
their results. -/
theorem wp_mapList {f : α → Emitter τ ι β} (Inv : List α → List β → List τ → σ → Prop) :
    ∀ (l pre : List α) (bs : List β) (env : List τ) (s : σ), Inv pre bs env s →
    (∀ pre' a post bs' env' s', pre ++ l = pre' ++ a :: post → Inv pre' bs' env' s' →
      R.wp (f a) env' s' fun b => Inv (pre' ++ [a]) (bs' ++ [b])) →
    R.wp (mapList f l) env s fun bs' => Inv (pre ++ l) (bs ++ bs') := by
  intro l
  induction l with
  | nil =>
    intro pre bs env s h _
    apply wp_pure
    simpa only [List.append_nil] using h
  | cons a l ih =>
    intro pre bs env s h hstep
    apply wp_bind
    apply wp_mono (hstep pre a l bs env s rfl h)
    intro b env₁ s₁ h₁
    apply wp_bind
    have hstep' : ∀ pre' a' post bs' env' s', pre ++ [a] ++ l = pre' ++ a' :: post →
        Inv pre' bs' env' s' → R.wp (f a') env' s' fun b => Inv (pre' ++ [a']) (bs' ++ [b]) := by
      intro pre' a' post bs' env' s' heq
      rw [List.append_assoc] at heq
      exact hstep pre' a' post bs' env' s' heq
    apply wp_mono (ih (pre ++ [a]) (bs ++ [b]) env₁ s₁ h₁ hstep')
    intro bs' env₂ s₂ h₂
    apply wp_pure
    simpa only [List.append_assoc, List.cons_append, List.nil_append] using h₂

/-- The rule for loops whose iterations do not interfere: what holds of the result of
one iteration is kept by the following ones, which only move on along `le`. -/
theorem wp_mapList_forall₂ {f : α → Emitter τ ι β} {l : List α}
    (le : List τ → σ → List τ → σ → Prop) (Q : α → β → List τ → σ → Prop)
    (refl : ∀ env s, le env s env s)
    (trans : ∀ {env₁ s₁ env₂ s₂ env₃ s₃}, le env₁ s₁ env₂ s₂ → le env₂ s₂ env₃ s₃ →
      le env₁ s₁ env₃ s₃)
    (stable : ∀ {a b env₁ s₁ env₂ s₂}, le env₁ s₁ env₂ s₂ → Q a b env₁ s₁ → Q a b env₂ s₂)
    (step : ∀ a ∈ l, ∀ env' s', le env s env' s' →
      R.wp (f a) env' s' fun b env'' s'' => le env' s' env'' s'' ∧ Q a b env'' s'') :
    R.wp (mapList f l) env s fun bs env' s' =>
      le env s env' s' ∧ List.Forall₂ (fun a b => Q a b env' s') l bs := by
  have h := wp_mapList (R := R) (f := f)
    (fun pre bs env' s' => le env s env' s' ∧ List.Forall₂ (fun a b => Q a b env' s') pre bs)
    l [] [] env s ⟨refl env s, List.Forall₂.nil⟩ ?_
  · simpa only [List.nil_append] using h
  · intro pre a post bs env' s' heq hInv
    have ha : a ∈ l := by
      rw [List.nil_append] at heq
      rw [heq]
      exact List.mem_append_right pre List.mem_cons_self
    apply wp_mono (step a ha env' s' hInv.1)
    rintro b env'' s'' ⟨hle, hQ⟩
    refine ⟨trans hInv.1 hle, ?_⟩
    apply List.rel_append
    · exact hInv.2.imp fun _ _ h => stable hle h
    · exact List.Forall₂.cons hQ List.Forall₂.nil

/-- The rule for loops that do not emit anything. -/
theorem wp_mapList_pure {f : α → Emitter τ ι β} {l : List α} {P : α → β → Prop}
    {Q : List β → List τ → σ → Prop}
    (hf : ∀ a ∈ l, R.wp (f a) env s fun b env' s' => env' = env ∧ s' = s ∧ P a b)
    (h : ∀ bs, List.Forall₂ P l bs → Q bs env s) : R.wp (mapList f l) env s Q := by
  have hloop : R.wp (mapList f l) env s fun bs env' s' =>
      (env' = env ∧ s' = s) ∧ List.Forall₂ P l bs := by
    apply wp_mapList_forall₂ (fun env₁ s₁ env₂ s₂ => env₂ = env₁ ∧ s₂ = s₁) (fun a b _ _ => P a b)
      (fun _ _ => ⟨rfl, rfl⟩) (fun h h' => ⟨h'.1.trans h.1, h'.2.trans h.2⟩) (fun _ hP => hP)
    rintro a ha env' s' ⟨rfl, rfl⟩
    apply wp_mono (hf a ha)
    rintro b env'' s'' ⟨rfl, rfl, hP⟩
    exact ⟨⟨rfl, rfl⟩, hP⟩
  apply wp_mono hloop
  rintro bs env' s' ⟨⟨rfl, rfl⟩, hP⟩
  exact h bs hP

end Meaning

end Emitter
