import FunctionWrapper.RunInvariant

/-!
Assignments whose source is inside the target.

The source is the stored object itself, as `target` gives it, or a wrapper that is a member of it.
The guards compare the addresses of the two wrappers, and every assignment clears its target before
it reads its source: the destructor of the stored object runs, and with it those of its members.
-/

namespace FunctionWrapper.InnerSources

open FunctionWrapper.Callables FunctionWrapper.Storage FunctionWrapper.Lifecycle
open FunctionWrapper.StorageForms FunctionWrapper.WrapperSpec FunctionWrapper.RunInvariant
open OwnedCells

variable {τ Val Fn : Type} [DecidableEq τ] (E : Env τ Val Fn)

/-- The destructor of an object runs those of the wrappers inside. -/
def destructMembers (us : List ℕ) (W : World τ Val Fn) : Option (World τ Val Fn) :=
  us.foldlM (fun W u => destruct E u W) W

/-- `reset` of a wrapper whose object has the wrappers `us` inside, the inner ones first. -/
def resetInner (us : List ℕ) (w : ℕ) (W : World τ Val Fn) : Option (World τ Val Fn) := do
  let W ← destructMembers E us W
  reset E w W

/-- The rest of a copy assignment, after `reset`. -/
def copyFrom (w u : ℕ) (luck : Luck) (W : World τ Val Fn) : Option (World τ Val Fn × Bool) := do
  let c ← W.constants u
  let W := W.setConstant w c
  if W.phase = .constant then return (W, false) else copyStorage E (.of w) (.of u) luck W

/-- The rest of a move assignment, after `reset`. -/
def moveFrom (w u : ℕ) (W : World τ Val Fn) : Option (World τ Val Fn) := do
  let c ← W.constants u
  let W := (W.setConstant w c).setConstant u .inactive
  if W.phase = .constant then return W else moveStorage E (.of w) (.of u) W

lemma copyAssign_eq (w u : ℕ) (luck : Luck) (W : World τ Val Fn) : copyAssign E w u luck W =
    if w = u then some (W, false) else (reset E w W).bind (copyFrom E w u luck) := rfl

lemma moveAssign_eq (w u : ℕ) (W : World τ Val Fn) : moveAssign E w u W =
    if w = u then some W else (reset E w W).bind (moveFrom E w u) := rfl

/-- A source inside the target: the stored object, or a wrapper that is copied or moved. -/
inductive Inner
  | target
  | copyOf (u : ℕ)
  | moveOf (u : ℕ)

/-- The three assignments, to a wrapper whose object has the wrappers `us` inside. -/
def assignInner (us : List ℕ) (w : ℕ) (luck : Luck) (W : World τ Val Fn) :
    Inner → Option (World τ Val Fn × Bool)
  | .target => (resetInner E us w W).bind (assign E w (.target w false) luck)
  | .copyOf u =>
    if w = u then some (W, false) else (resetInner E us w W).bind (copyFrom E w u luck)
  | .moveOf u =>
    (if w = u then some W else (resetInner E us w W).bind (moveFrom E w u)).map (·, false)

lemma assignInner_nil (w : ℕ) (luck : Luck) (W : World τ Val Fn) (u : ℕ) :
    assignInner E [] w luck W .target = exec E (.assignCallable w (.target w false)) luck W ∧
    assignInner E [] w luck W (.copyOf u) = exec E (.copyAssign w u) luck W ∧
    assignInner E [] w luck W (.moveOf u) = exec E (.moveAssign w u) luck W :=
  ⟨rfl, rfl, rfl⟩

/-- `w` holds an object with the wrappers `us` inside. -/
structure Inside (W : World τ Val Fn) (w : ℕ) (us : List ℕ) : Prop where
  holds : ∃ o, content W (.of w) = some o
  apart : w ∉ us
  nodup : us.Nodup
  live : ∀ u ∈ us, Live W u

def InnerOk (W : World τ Val Fn) (w : ℕ) (us : List ℕ) : Inner → Prop
  | .target => ∀ o, content W (.of w) = some o → E.layout.copyConstructible o.type = true
  | .copyOf u => E.kind = .copyable ∧ u ∈ us
  | .moveOf u => u ∈ us

def innerValue (W : World τ Val Fn) (w : ℕ) : Inner → Option (Constant Fn × Option (Object τ Val))
  | .target => some (.inactive, content W (.of w))
  | .copyOf u | .moveOf u => view W u

/-- The assignment is defined and leaves `w` holding what the source held before it. -/
def SourceKept (us : List ℕ) (w : ℕ) (luck : Luck) (W : World τ Val Fn) (i : Inner) : Prop :=
  ∃ W', assignInner E us w luck W i = some (W', false) ∧ view W' w = innerValue W w i

variable {E} {W : World τ Val Fn} {w u : ℕ} {us : List ℕ} {luck : Luck}

/-! ### What is left after the reset -/

lemma destructMembers_spec (h : Whole E W) (hnodup : us.Nodup) (hlive : ∀ u ∈ us, Live W u) :
    ∃ W', destructMembers E us W = some W' ∧ Whole E W' ∧ W'.phase = W.phase ∧
      (∀ u ∈ us, ¬ Live W' u) ∧ ∀ v, v ∉ us → view W' v = view W v := by
  induction us generalizing W with
  | nil => exact ⟨W, rfl, h, rfl, by simp, fun _ _ => rfl⟩
  | cons u us ih =>
    obtain ⟨hnew, hnodup'⟩ := List.nodup_cons.mp hnodup
    obtain ⟨W₁, e₁, h₁, hphase₁, hview₁⟩ := destruct_spec h (hlive u (by simp))
    have hother : ∀ v, v ≠ u → view W₁ v = view W v := fun v hv => by
      rw [hview₁, Function.update_of_ne hv]
    have hlive₁ : ∀ v ∈ us, Live W₁ v := by
      intro v hv
      have hne : v ≠ u := fun e => hnew (e ▸ hv)
      by_contra hdead
      have hnone := view_eq_none.mpr hdead
      rw [hother v hne, view_eq_none] at hnone
      exact hnone (hlive v (by simp [hv]))
    obtain ⟨W₂, e₂, h₂, hphase₂, hdead, hkept⟩ := ih h₁ hnodup' hlive₁
    refine ⟨W₂, ?_, h₂, hphase₂.trans hphase₁, fun v hv => ?_, fun v hv => ?_⟩
    · rw [destructMembers, List.foldlM_cons, e₁]
      exact e₂
    · rcases List.mem_cons.mp hv with rfl | hv
      · rw [← view_eq_none, hkept v hnew, hview₁, Function.update_self]
      · exact hdead v hv
    · rw [List.mem_cons, not_or] at hv
      rw [hkept v hv.2, hother v hv.1]

lemma resetInner_spec (h : Whole E W) (hin : Inside W w us) :
    ∃ W', resetInner E us w W = some W' ∧ Whole E W' ∧ W'.phase = W.phase ∧
      view W' w = some (.inactive, none) ∧ ∀ u ∈ us, W'.constants u = none := by
  obtain ⟨W₁, e₁, h₁, hphase₁, hdead, hkept⟩ := destructMembers_spec h hin.nodup hin.live
  have hw : Live W w := by
    by_contra hnot
    obtain ⟨o, ho⟩ := hin.holds
    rw [h.content_none hnot] at ho
    cases ho
  have hw₁ : Live W₁ w := by
    by_contra hnot
    have hnone := view_eq_none.mpr hnot
    rw [hkept w hin.apart, view_eq_none] at hnone
    exact hnone hw
  obtain ⟨W₂, e₂, h₂, hphase₂, hview₂, -⟩ := reset_spec h₁ hw₁
  refine ⟨W₂, by simp [resetInner, e₁, e₂], h₂, hphase₂.trans hphase₁, ?_, fun u hu => ?_⟩
  · rw [hview₂, Function.update_self]
  · have huw : u ≠ w := fun e => hin.apart (e ▸ hu)
    have hnone : view W₂ u = none := by
      rw [hview₂, Function.update_of_ne huw, view_eq_none]
      exact hdead u hu
    exact not_not.mp (view_eq_none.mp hnone)

/-- The source is read after it has ended. -/
lemma assignInner_eq_none (h : Whole E W) (hrun : W.phase = .run) (hin : Inside W w us) {i : Inner}
    (hi : InnerOk E W w us i) : assignInner E us w luck W i = none := by
  obtain ⟨W₁, e₁, h₁, hphase₁, hview₁, hgone⟩ := resetInner_spec h hin
  cases i with
  | target =>
    have hread : (Source.target w false).read W₁ = none := by
      rw [read_eq h₁, sourceValue, hview₁]
      rfl
    simp [assignInner, e₁, assign, hphase₁, hrun, assignRuntime, hread]
  | copyOf u =>
    have hwu : w ≠ u := fun e => hin.apart (e ▸ hi.2)
    simp [assignInner, hwu, e₁, copyFrom, hgone u hi.2]
  | moveOf u =>
    have hu : u ∈ us := hi
    have hwu : w ≠ u := fun e => hin.apart (e ▸ hu)
    simp [assignInner, hwu, e₁, moveFrom, hgone u hu]

/-- **An assignment never keeps a source inside its target.** -/
theorem never_kept (h : Runs.Reachable (system E) W) (hrun : W.phase = .run) (hin : Inside W w us)
    (i : Inner) (hi : InnerOk E W w us i) (luck : Luck) : ¬ SourceKept E us w luck W i := by
  rintro ⟨W', e, -⟩
  rw [assignInner_eq_none (inv_reachable h).toWhole hrun hin hi] at e
  cases e

lemma inside_sample : Inside (sampleWorld 4) 0 [1] where
  holds := ⟨⟨.owner, 5⟩, rfl⟩
  apart := by decide
  nodup := by decide
  live u hu := by
    obtain rfl := List.mem_singleton.mp hu
    exact Option.some_ne_none _

theorem never_kept_sample :
    ¬ SourceKept (sampleEnv .copyable) [1] 0 ⟨false, false, 9⟩ (sampleWorld 4) (.copyOf 1) :=
  never_kept sampleWorld_reachable rfl inside_sample (.copyOf 1) ⟨rfl, List.mem_singleton_self 1⟩ _

/-- A wrapper is assigned its own callable. -/
theorem own_target_lost :
    ¬ ∀ W w us i luck, Runs.Reachable (system (sampleEnv .copyable)) W → W.phase = .run →
      Inside W w us → InnerOk (sampleEnv .copyable) W w us i →
      luck.allocFails = false → luck.throws = false →
      SourceKept (sampleEnv .copyable) us w luck W i := by
  intro h
  obtain ⟨W', e, -⟩ := h (sampleWorld 4) 0 [] .target ⟨false, false, 9⟩ sampleWorld_reachable rfl
    ⟨⟨⟨.owner, 5⟩, rfl⟩, by decide, by decide, by simp⟩ (fun _ _ => rfl) rfl rfl
  have hundefined : assignInner (sampleEnv .copyable) [] 0 ⟨false, false, 9⟩ (sampleWorld 4)
      .target = none := rfl
  rw [hundefined] at e
  cases e

end FunctionWrapper.InnerSources
