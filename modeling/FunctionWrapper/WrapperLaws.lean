import FunctionWrapper.Histories

/-!
Equations between the operations of wrappers.

In every history an operation that did not throw can be replaced by the other side of its equation:
a swap by three moves, an assignment by a construction and a swap, a construction by a default
construction and an assignment. The temporary wrapper is one that was not named before.
-/

namespace FunctionWrapper.WrapperLaws

open FunctionWrapper.Callables FunctionWrapper.Storage FunctionWrapper.Lifecycle
open FunctionWrapper.RunInvariant FunctionWrapper.ValueSemantics FunctionWrapper.ValueMachine
open FunctionWrapper.Histories
open Runs

variable {τ Val Fn Raw Arg Ret Exc : Type}

/-- Both sides do the same, where `t` does not exist. -/
inductive Law (t : ℕ) : List (Op τ Val) → List (Op τ Val) → Prop
  | swap_comm (w u : ℕ) : Law t [.swap w u] [.swap u w]
  | swap_moves {w u : ℕ} (hw : w ≠ t) (hu : u ≠ t) :
      Law t [.swap w u] [.moveConstruct t w, .moveAssign w u, .moveAssign u t, .destruct t]
  | reset_move {w : ℕ} (hw : w ≠ t) : Law t [.reset w] [.moveConstruct t w, .destruct t]
  | moveAssign_swap {w u : ℕ} (hwu : w ≠ u) : Law t [.moveAssign w u] [.reset w, .swap w u]
  | copyAssign_swap {w u : ℕ} (hw : w ≠ t) :
      Law t [.copyAssign w u] [.copyConstruct t u, .swap w t, .destruct t]
  | assignCallable_swap {w : ℕ} (o : Object τ Val) (hw : w ≠ t) :
      Law t [.assignCallable w (.object o)] [.construct t (.object o), .swap w t, .destruct t]
  | construct_assign (w : ℕ) (o : Object τ Val) :
      Law t [.construct w (.object o)] [.defaultConstruct w, .assignCallable w (.object o)]
  | copyConstruct_assign {w u : ℕ} (hwu : w ≠ u) :
      Law t [.copyConstruct w u] [.defaultConstruct w, .copyAssign w u]
  | moveConstruct_assign {w u : ℕ} (hwu : w ≠ u) :
      Law t [.moveConstruct w u] [.defaultConstruct w, .moveAssign w u]

def calm (op : Op τ Val) : Event τ Val Raw Ret Exc := .op op false

variable [DecidableEq τ] {L : Language τ Val Fn Raw Arg Ret Exc} {E : Env τ Val Fn}
variable {t : ℕ} {l m : List (Op τ Val)} {ph : Phase} {A : Values τ Val}

/-- The value that a callable gives to a wrapper. -/
def given (E : Env τ Val Fn) (ph : Phase) (o : Object τ Val) : Option (Callable τ Val) :=
  if ph = .constant then constantValue E o else some (.stored o)

lemma give_object (w : ℕ) (o : Object τ Val) :
    give E ph w (.object o) A = Function.update A w (some (given E ph o)) := by
  cases ph <;> rfl

def after (E : Env τ Val Fn) (ph : Phase) (A : Values τ Val) (l : List (Op τ Val)) : Values τ Val :=
  l.foldl (valueStep E ph) A

variable {w u : ℕ} {o : Object τ Val}

lemma after_moves (ht : A t = none) (hw : w ≠ t) (hu : u ≠ t) :
    after E ph A [.moveConstruct t w, .moveAssign w u, .moveAssign u t, .destruct t] =
      after E ph A [.swap w u] := by
  funext v
  simp only [after, List.foldl_cons, List.foldl_nil, valueStep]
  grind [Function.update_apply]

lemma after_moveAway (ht : A t = none) (hw : w ≠ t) :
    after E ph A [.moveConstruct t w, .destruct t] = after E ph A [.reset w] := by
  funext v
  simp only [after, List.foldl_cons, List.foldl_nil, valueStep]
  grind [Function.update_apply]

lemma after_reset_swap (hwu : w ≠ u) :
    after E ph A [.reset w, .swap w u] = after E ph A [.moveAssign w u] := by
  funext v
  simp only [after, List.foldl_cons, List.foldl_nil, valueStep]
  grind [Function.update_apply]

lemma after_copy_swap (ht : A t = none) (hw : w ≠ t) :
    after E ph A [.copyConstruct t u, .swap w t, .destruct t] = after E ph A [.copyAssign w u] := by
  funext v
  simp only [after, List.foldl_cons, List.foldl_nil, valueStep]
  grind [Function.update_apply]

lemma after_construct_swap (ht : A t = none) (hw : w ≠ t) :
    after E ph A [.construct t (.object o), .swap w t, .destruct t] =
      after E ph A [.assignCallable w (.object o)] := by
  funext v
  simp only [after, List.foldl_cons, List.foldl_nil, valueStep, give_object]
  grind [Function.update_apply]

lemma after_default_assign :
    after E ph A [.defaultConstruct w, .assignCallable w (.object o)] =
      after E ph A [.construct w (.object o)] := by
  simp only [after, List.foldl_cons, List.foldl_nil, valueStep, give_object,
    Function.update_idem]

lemma after_default_copy (hwu : w ≠ u) :
    after E ph A [.defaultConstruct w, .copyAssign w u] = after E ph A [.copyConstruct w u] := by
  funext v
  simp only [after, List.foldl_cons, List.foldl_nil, valueStep]
  grind [Function.update_apply]

lemma after_default_move (hwu : w ≠ u) :
    after E ph A [.defaultConstruct w, .moveAssign w u] = after E ph A [.moveConstruct w u] := by
  funext v
  simp only [after, List.foldl_cons, List.foldl_nil, valueStep]
  grind [Function.update_apply]

/-! ### Equations -/

def CanRunAll (E : Env τ Val Fn) (ph : Phase) : Values τ Val → List (Op τ Val) → Prop
  | _, [] => True
  | A, op :: l => CanRun E ph A op ∧ CanRunAll E ph (valueStep E ph A op) l

lemma path_calm (hl : ∀ op ∈ l, nextPhase ph op = ph) {q : Phase × Values τ Val} :
    Path (machine E L) (l.map calm) (ph, A) q ↔ CanRunAll E ph A l ∧ q = (ph, after E ph A l) := by
  induction l generalizing A with
  | nil =>
    rw [List.map_nil, Path.nil_iff]
    exact ⟨fun h => ⟨trivial, h.symm⟩, fun h => h.2.symm⟩
  | cons op l ih =>
    rw [List.forall_mem_cons] at hl
    rw [List.map_cons, Path.cons_iff]
    constructor
    · rintro ⟨_, ⟨hrun, -, rfl⟩, hpath⟩
      simp only [hl.1] at hpath
      obtain ⟨hall, hq⟩ := (ih hl.2).mp hpath
      exact ⟨⟨hrun, hall⟩, hq⟩
    · rintro ⟨⟨hrun, hall⟩, hq⟩
      refine ⟨_, ⟨hrun, nofun, rfl⟩, ?_⟩
      simp only [hl.1]
      exact (ih hl.2).mpr ⟨hall, hq⟩

lemma Law.after_eq (h : Law t l m) (ht : A t = none) : after E ph A m = after E ph A l := by
  cases h with
  | swap_comm w u =>
    funext v
    simp only [after, List.foldl_cons, List.foldl_nil, valueStep]
    grind [Function.update_apply]
  | swap_moves hw hu => exact after_moves ht hw hu
  | reset_move hw => exact after_moveAway ht hw
  | moveAssign_swap hwu => exact after_reset_swap hwu
  | copyAssign_swap hw => exact after_copy_swap ht hw
  | assignCallable_swap o hw => exact after_construct_swap ht hw
  | construct_assign w o => exact after_default_assign
  | copyConstruct_assign hwu => exact after_default_copy hwu
  | moveConstruct_assign hwu => exact after_default_move hwu

lemma Law.canRun_iff (h : Law t l m) (ht : A t = none) :
    CanRunAll E ph A l ↔ CanRunAll E ph A m := by
  cases h <;> simp only [CanRunAll, CanRun, valueStep, give_object, SelfSourced, Available] <;>
    grind [Function.update_apply]

omit [DecidableEq τ] in
lemma Law.phase (h : Law t l m) (ph : Phase) :
    (∀ op ∈ l, nextPhase ph op = ph) ∧ ∀ op ∈ m, nextPhase ph op = ph := by
  cases h <;> simp [nextPhase]

lemma path_frame {l : List (Event τ Val Raw Ret Exc)} {q q' : Phase × Values τ Val}
    (hl : ∀ e ∈ l, t ∉ e.named) (hpath : Path (machine E L) l q q') : q'.2 t = q.2 t := by
  induction hpath with
  | nil => rfl
  | cons hs _ ih =>
    rw [List.forall_mem_cons] at hl
    rw [ih hl.2, step_frame hs hl.1]

/-- **The operations obey the equations**, in every history, before run time as in it: what can be
seen when one side runs can be seen when the other side runs in its place, whatever was done before
and whatever is done afterwards. -/
theorem laws (h : Law t l m) {pre post : List (Event τ Val Raw Ret Exc)}
    (hfresh : ∀ e ∈ pre, t ∉ e.named) :
    pre ++ (l.map calm ++ post) ∈ histories L E ↔ pre ++ (m.map calm ++ post) ∈ histories L E := by
  rw [mem_histories_iff, mem_histories_iff]
  refine exists_congr fun q' => Path.congr_middle fun q q' hpre => ?_
  obtain ⟨ph, A⟩ := q
  have ht : A t = none := path_frame hfresh hpre
  rw [path_calm (h.phase ph).1, path_calm (h.phase ph).2, h.canRun_iff ht, h.after_eq ht]

theorem laws_swap : [calm .start, calm (.construct 0 (.object ⟨.counter, 7⟩)),
      calm (.defaultConstruct 1)] ++ ([.moveConstruct 2 0, .moveAssign 0 1, .moveAssign 1 2,
        .destruct 2].map calm ++ [.ask 0 false [false], .ask 1 true [true]]) ∈
    histories countingCalls (sampleEnv .copyable) := by
  rw [← laws (.swap_moves (by decide) (by decide)) (by decide), mem_histories_iff]
  exact ⟨_, .cons ⟨rfl, nofun, rfl⟩ <|
    .cons ⟨⟨rfl, rfl, nofun⟩, nofun, rfl⟩ <| .cons ⟨rfl, nofun, rfl⟩ <|
      .cons ⟨⟨nofun, nofun⟩, nofun, rfl⟩ <| .cons ⟨_, rfl, rfl, rfl, rfl⟩ <|
        .single ⟨_, rfl, rfl, rfl, rfl⟩⟩

end FunctionWrapper.WrapperLaws
