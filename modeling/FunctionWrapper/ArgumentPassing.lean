import FunctionWrapper.InterfaceBase

/-!
What `call` and `try_call` take, and what they hand to the target.

`call` casts the arguments to the parameter types before it enters the interface of the selected
signature; `try_call` lets the parameters of the interface be initialized by them.
-/

namespace FunctionWrapper.ArgumentPassing

open FunctionWrapper.Types FunctionWrapper.Traits FunctionWrapper.Signatures
open FunctionWrapper.Callables FunctionWrapper.Storage FunctionWrapper.Lifecycle
open FunctionWrapper.CallAcceptance FunctionWrapper.StorageForms FunctionWrapper.WrapperSpec
open FunctionWrapper.RunInvariant FunctionWrapper.Dispatch FunctionWrapper.DispatchSpec
open FunctionWrapper.InterfaceBase
open OwnedCells

variable {τ Val Fn Raw Arg Ret Exc : Type} [DecidableEq τ]
variable (P : Program) (E : Env τ Val Fn) (C : Calls τ Val Fn Raw Arg Ret Exc)

/-- The same language, with targets that return the parameter values they receive. -/
def echo : Calls τ Val Fn Raw Arg Arg Exc where
  types := C.types
  cast := C.cast
  init := C.init
  invoke _ _ _ _ a := .ok a
  apply _ _ a := .ok a

/-- The parameter values that the target runs with, if it runs. -/
def handed (W : World τ Val Fn) (w : ℕ) (mode : Mode) (cat : Category) (s : Sig) (args : Raw) :
    Option Arg :=
  match dispatch (echo C) E W w mode cat s args with
  | some (.value a) => some a
  | _ => none

/-- `call` and `try_call` take the arguments for the same signature, and the target runs with equal
parameter values in both cases. -/
structure SamePassing (W : World τ Val Fn) (w : ℕ) (cat : Category) (args : Raw) : Prop where
  accepted : acceptedSignature P .wrapper .call E.sigs (C.types args) =
    acceptedSignature P .wrapper .tryCall E.sigs (C.types args)
  handed : ∀ s, acceptedSignature P .wrapper .call E.sigs (C.types args) = some s →
    handed E C W w .call cat s args = handed E C W w .tryCall cat s args

variable {P E C} {W : World τ Val Fn} {w : ℕ} {cat : Category} {s : Sig} {args : Raw}
variable {CallArgs : List QType}

lemma compiles_wrapper_iff : compiles P .wrapper .call CallArgs s = true ↔
    castable P s CallArgs = true ∧ forwardable P s = true := by
  rw [compiles_call_iff, forall_prop_of_true rfl]

lemma compiles_tryCall_iff : compiles P .wrapper .tryCall CallArgs s = true ↔
    castable P s CallArgs = true ∧ forwardable P s = true ∧
      viable P s CallArgs = true ∧ returnable P s = true := by
  simp only [compiles, interfaceInvokes, Bool.and_eq_true]
  tauto

lemma filter_some_eq_iff {p q : Sig → Bool} :
    (some s).filter p = (some s).filter q ↔ (p s = true ↔ q s = true) := by
  cases hp : p s <;> cases hq : q s <;> simp [Option.filter_some, hp, hq]

lemma accepted_eq_iff {sigs : List Sig} :
    acceptedSignature P .wrapper .call sigs CallArgs =
        acceptedSignature P .wrapper .tryCall sigs CallArgs ↔
      ∀ s, selectSignature P sigs CallArgs = some s → castable P s CallArgs = true →
        forwardable P s = true → viable P s CallArgs = true ∧ returnable P s = true := by
  unfold acceptedSignature
  rcases selectSignature P sigs CallArgs with _ | s
  · simp
  · simp only [filter_some_eq_iff, compiles_wrapper_iff, compiles_tryCall_iff, Option.some.injEq,
      forall_eq']
    tauto

/-! ### Parameter values -/

lemma handed_active (h : Inv E W) {c : Constant Fn} (hc : W.constants w = some c)
    (hon : c.active = true) :
    handed E C W w .call cat s args = handed E C W w .tryCall cat s args := by
  rw [handed, handed, dispatch_slots _ h hc (.inr hon), dispatch_slots _ h hc (.inr hon)]

lemma handed_stored (h : Inv E W) {c : Constant Fn} (hc : W.constants w = some c)
    (hrun : W.phase = .run) (hoff : c.active = false) (mode : Mode) :
    handed E C W w mode cat s args =
      if ∃ o, content W (.of w) = some o ∧ E.exactInvocable o.type cat s = true then
        (convert C mode s args).toOption
      else none := by
  obtain ⟨self, hs⟩ := h.toWhole.storage (w := w) (by simp [Live, hc])
  have hconvert : convert (echo C) mode s args = convert C mode s args := by cases mode <;> rfl
  rw [handed, dispatch_storage _ h hc hrun hoff, hconvert]
  cases convert C mode s args with
  | error e => simp [Except.toOption]
  | ok a =>
    simp only [dispatchInterface_eq h.store hs]
    rcases content W (.of w) with _ | o
    · simp [contentOutcome]
    · cases hx : E.exactInvocable o.type cat s <;>
        simp [contentOutcome, hx, echo, outcome, Except.toOption]

/-- **`call` and `try_call` pass the same arguments, exactly when**, for the signature that is
selected, the arguments that can be cast also initialize the parameters, the result can be moved,
and, where a stored callable runs, both conversions give the same parameter values. -/
theorem samePassing_iff (h : Runs.Reachable (system E) W) (hrun : W.phase = .run)
    (hw : Live W w) : SamePassing P E C W w cat args ↔
      ∀ s, selectSignature P E.sigs (C.types args) = some s →
        castable P s (C.types args) = true → forwardable P s = true →
        viable P s (C.types args) = true ∧ returnable P s = true ∧
          ∀ o, content W (.of w) = some o → E.exactInvocable o.type cat s = true →
            (C.cast s args).toOption = (C.init s args).toOption := by
  have hinv := inv_reachable h
  obtain ⟨c, hc⟩ := Option.ne_none_iff_exists'.mp hw
  have haccepted : ∀ s, acceptedSignature P .wrapper .call E.sigs (C.types args) = some s ↔
      selectSignature P E.sigs (C.types args) = some s ∧
        castable P s (C.types args) = true ∧ forwardable P s = true := by
    intro s
    rw [acceptedSignature, Option.filter_eq_some_iff, compiles_wrapper_iff]
  -- the parameter values are equal where those of a stored callable are
  have hhanded : ∀ s, handed E C W w .call cat s args = handed E C W w .tryCall cat s args ↔
      ∀ o, content W (.of w) = some o → E.exactInvocable o.type cat s = true →
        (C.cast s args).toOption = (C.init s args).toOption := by
    intro s
    cases hon : c.active with
    | true =>
      refine iff_of_true (handed_active hinv hc hon) fun o ho _ => ?_
      cases ((hinv.coherent w c _ (view_of_live hc)).alone hon).symm.trans ho
    | false =>
      rw [handed_stored hinv hc hrun hon, handed_stored hinv hc hrun hon]
      by_cases hx : ∃ o, content W (.of w) = some o ∧ E.exactInvocable o.type cat s = true
      · rw [if_pos hx, if_pos hx]
        obtain ⟨o, ho, hxo⟩ := hx
        exact ⟨fun e _ _ _ => e, fun e => e o ho hxo⟩
      · rw [if_neg hx, if_neg hx]
        exact iff_of_true rfl fun o ho hxo => absurd ⟨o, ho, hxo⟩ hx
  constructor
  · intro hsame s hsel hcast hforward
    obtain ⟨hviable, hreturn⟩ := accepted_eq_iff.mp hsame.accepted s hsel hcast hforward
    exact ⟨hviable, hreturn,
      (hhanded s).mp (hsame.handed s ((haccepted s).mpr ⟨hsel, hcast, hforward⟩))⟩
  · intro hall
    refine ⟨accepted_eq_iff.mpr fun s hsel hcast hforward => ?_, fun s hacc => ?_⟩
    · obtain ⟨hviable, hreturn, -⟩ := hall s hsel hcast hforward
      exact ⟨hviable, hreturn⟩
    · obtain ⟨hsel, hcast, hforward⟩ := (haccepted s).mp hacc
      exact (hhanded s).mpr (hall s hsel hcast hforward).2.2

theorem samePassing_iff_sample :
    SamePassing arithmeticOnly (sampleEnv .copyable) sampleCalls (sampleWorld 4) 0 .l 4 ↔
      ∀ s, selectSignature arithmeticOnly (sampleEnv .copyable).sigs (sampleCalls.types 4) = some s →
        castable arithmeticOnly s (sampleCalls.types 4) = true →
        forwardable arithmeticOnly s = true →
        viable arithmeticOnly s (sampleCalls.types 4) = true ∧ returnable arithmeticOnly s = true ∧
          ∀ o, content (sampleWorld 4) (.of 0) = some o →
            (sampleEnv .copyable).exactInvocable o.type .l s = true →
            (sampleCalls.cast s 4).toOption = (sampleCalls.init s 4).toOption :=
  samePassing_iff sampleWorld_reachable rfl (Option.some_ne_none _)

/-- `void(int&&)`. -/
def takesRvalue : Sig := ⟨.val .void, [.rref (.arith .int)], false⟩

def takesRvalueEnv : Env Sample ℕ ℕ := { sampleEnv .copyable with sigs := [takesRvalue] }

/-- Calls with an `int` variable. -/
def variableCalls : Calls Sample ℕ ℕ ℕ ℕ ℕ Unit :=
  { sampleCalls with types := fun _ => [.lref (.arith .int)] }

def defaultWorld : World Sample ℕ ℕ := play takesRvalueEnv [.start, .defaultConstruct 0]

lemma defaultWorld_reachable : Runs.Reachable (system takesRvalueEnv) defaultWorld :=
  (started_reachable takesRvalueEnv).step (a := ⟨.defaultConstruct 0, ⟨false, false, 1⟩, false⟩)
    ⟨not_not_intro rfl, rfl, rfl⟩

/-- `call` takes the variable, and `try_call` does not. -/
theorem passing_differs :
    ¬ ∀ (E : Env Sample ℕ ℕ) (C : Calls Sample ℕ ℕ ℕ ℕ ℕ Unit) W w cat args,
      Runs.Reachable (system E) W → W.phase = .run → Live W w →
        SamePassing arithmeticOnly E C W w cat args := by
  intro h
  have haccepted := (h takesRvalueEnv variableCalls defaultWorld 0 .l 4 defaultWorld_reachable rfl
    (Option.some_ne_none _)).accepted
  exact absurd haccepted (by decide)

end FunctionWrapper.ArgumentPassing
