import FunctionWrapper.RunInvariant

/-!
Every callable object that is constructed is destroyed exactly once.

An object is numbered when it is constructed, and its number is logged when it ends: by its
destructor, or by the trivial paths, which end the objects whose bytes they clear. A read or a
destruction of an object that is not there any more makes an operation undefined.
-/

namespace FunctionWrapper.Ownership

open FunctionWrapper.Callables FunctionWrapper.Storage FunctionWrapper.Lifecycle
open FunctionWrapper.StorageForms FunctionWrapper.WrapperSpec FunctionWrapper.RunInvariant
open OwnedCells

variable {τ Val Fn : Type} [DecidableEq τ] {E : Env τ Val Fn} {W : World τ Val Fn}

omit [DecidableEq τ] in
/-- Without wrappers no storage points to an object. -/
lemma owner_none (h : Whole E W) (hnone : ∀ w, ¬ Live W w) (p : Place) : owner W p = none := by
  have hs : W.storages p = none := by
    cases p with
    | tmp => exact h.tmp
    | of w => exact (h.made w).mpr (by simpa [Live] using hnone w)
  simp [owner, hs]

/-- **Exactly-once destruction.** In every world a run reaches: every operation the program can
run is defined; no object is owned twice; no object has ended twice; and when no wrapper is left
every object has ended, and all buffers and blocks are free. -/
theorem exactly_once (h : Runs.Reachable (system E) W) :
    (∀ op luck, Enabled E W op → FreeBlock W luck.block op → ¬ SelfSourced op →
      ∃ W' threw, exec E op luck W = some (W', threw)) ∧
    (∀ p q k, owner W p = some k → owner W q = some k → p = q) ∧
    W.mem.ended.Nodup ∧ (∀ i ∈ W.mem.ended, i < W.mem.born) ∧
    ((∀ w, ¬ Live W w) →
      (∀ i, i < W.mem.born → i ∈ W.mem.ended) ∧ ∀ k, W.mem.get k = none) := by
  have hinv := inv_reachable h
  refine ⟨fun op luck hen hblock hself => ?_, hinv.store.owned.unique, hinv.store.sound.nodup,
    hinv.store.sound.ended_lt, fun hnone => ⟨fun i hi => ?_, fun k => ?_⟩⟩
  · obtain ⟨W', threw, he, -⟩ := exec_spec hinv.toWhole hen hblock hself
    exact ⟨W', threw, he⟩
  · exact Cells.all_ended hinv.store.sound hinv.store.owned (owner_none hinv.toWhole hnone) hi
  · by_contra hk
    obtain ⟨p, hp⟩ := hinv.store.owned.owner k hk
    rw [owner_none hinv.toWhole hnone p] at hp
    cases hp

/-- The move of the small callable ended the object it left. -/
theorem exactly_once_sample :
    (sampleWorld 4).mem.born = 3 ∧ (sampleWorld 4).mem.ended = [1] ∧
    (∀ op luck, Enabled (sampleEnv .copyable) (sampleWorld 4) op →
      FreeBlock (sampleWorld 4) luck.block op → ¬ SelfSourced op →
      ∃ W' threw, exec (sampleEnv .copyable) op luck (sampleWorld 4) = some (W', threw)) ∧
    (∀ p q k, owner (sampleWorld 4) p = some k → owner (sampleWorld 4) q = some k → p = q) ∧
    (sampleWorld 4).mem.ended.Nodup ∧
    (∀ i ∈ (sampleWorld 4).mem.ended, i < (sampleWorld 4).mem.born) ∧
    ((∀ w, ¬ Live (sampleWorld 4) w) →
      (∀ i, i < (sampleWorld 4).mem.born → i ∈ (sampleWorld 4).mem.ended) ∧
        ∀ k, (sampleWorld 4).mem.get k = none) :=
  ⟨rfl, rfl, exactly_once sampleWorld_reachable⟩

end FunctionWrapper.Ownership
