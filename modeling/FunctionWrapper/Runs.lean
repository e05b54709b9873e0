import Mathlib.Tactic.Common

/-!
Labelled transition systems, their reachable states, and what an observer computes along a run.
-/

namespace Runs

structure System (σ ℓ : Type*) where
  init : σ → Prop
  step : σ → ℓ → σ → Prop

variable {σ τ ℓ : Type*}

inductive Reachable (S : System σ ℓ) : σ → Prop
  | init {s : σ} (h : S.init s) : Reachable S s
  | step {s s' : σ} {a : ℓ} (h : Reachable S s) (hs : S.step s a s') : Reachable S s'

/-- The steps from one state to another, along their labels. -/
inductive Path (S : System σ ℓ) : List ℓ → σ → σ → Prop
  | nil (s : σ) : Path S [] s s
  | cons {s s' s'' : σ} {a : ℓ} {l : List ℓ} (hs : S.step s a s') (h : Path S l s' s'') :
      Path S (a :: l) s s''

/-- The runs all of whose steps meet a condition on the label and the state before. -/
def System.restrict (S : System σ ℓ) (ok : σ → ℓ → Prop) : System σ ℓ :=
  { S with step := fun s a s' => S.step s a s' ∧ ok s a }

/-- The runs, beside what an observer that sees only the labels makes of them. -/
def System.observed (S : System σ ℓ) (t₀ : τ) (see : τ → ℓ → τ) : System (σ × τ) ℓ where
  init p := S.init p.1 ∧ p.2 = t₀
  step p a p' := S.step p.1 a p'.1 ∧ p'.2 = see p.2 a

variable {S : System σ ℓ}

/-- **Invariants hold along runs.** -/
theorem Reachable.invariant {I : σ → Prop} {s : σ} (h : Reachable S s)
    (h0 : ∀ s, S.init s → I s) (hs : ∀ s a s', I s → S.step s a s' → I s') : I s := by
  induction h with
  | init h => exact h0 _ h
  | step _ hstep ih => exact hs _ _ _ ih hstep

theorem Reachable.observed {t₀ : τ} {see : τ → ℓ → τ} {s : σ} (h : Reachable S s) :
    ∃ t, Reachable (S.observed t₀ see) (s, t) := by
  induction h with
  | init h => exact ⟨t₀, .init ⟨h, rfl⟩⟩
  | step _ hstep ih =>
    obtain ⟨t, ht⟩ := ih
    exact ⟨_, ht.step ⟨hstep, rfl⟩⟩

theorem Reachable.run {t₀ : τ} {see : τ → ℓ → τ} {p : σ × τ}
    (h : Reachable (S.observed t₀ see) p) : Reachable S p.1 := by
  induction h with
  | init h => exact .init h.1
  | step _ hstep ih => exact ih.step hstep.1

theorem Reachable.free {ok : σ → ℓ → Prop} {s : σ} (h : Reachable (S.restrict ok) s) :
    Reachable S s := by
  induction h with
  | init h => exact .init h
  | step _ hstep ih => exact ih.step hstep.1

end Runs
