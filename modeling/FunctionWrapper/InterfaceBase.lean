import FunctionWrapper.SignatureInterface
import FunctionWrapper.ValueSemantics

/-!
Calls through the exact-signature base of a wrapper, beside the wrapper's own.

The wrapper decides between its two stores before it goes through the base. The base knows the
storage only.
-/

namespace FunctionWrapper.InterfaceBase

open FunctionWrapper.Types FunctionWrapper.Traits FunctionWrapper.Signatures
open FunctionWrapper.Callables FunctionWrapper.Storage FunctionWrapper.Lifecycle
open FunctionWrapper.CallAcceptance FunctionWrapper.StorageForms FunctionWrapper.StorageSpec
open FunctionWrapper.WrapperSpec FunctionWrapper.RunInvariant FunctionWrapper.Dispatch
open FunctionWrapper.DispatchSpec FunctionWrapper.CallResult FunctionWrapper.SignatureInterface
open FunctionWrapper.ValueSemantics
open OwnedCells TracedRuns

inductive EntryPoint | call | callOperator | tryCall
  deriving DecidableEq, Repr

def EntryPoint.mode : EntryPoint → Mode
  | .tryCall => .tryCall
  | _ => .call

section Outcomes

variable {Ret Exc : Type}

/-- What the caller sees of `call`. -/
def callOutcome : Ending (Thrown Exc) (Option Ret) → Outcome (Option Ret) Exc
  | .returns v => .value v
  | .throws (.target e) | .throws (.passing e) => .propagated e
  | .throws .badCall => .failed .empty
  | .throws .badSignatureCall => .failed .mismatch
  | .terminates => .terminated

/-- What the caller sees of `try_call`. -/
def tryCallOutcome : Ending (Thrown Exc) (TryCallResult Ret) → Outcome (Option Ret) Exc
  | .returns r =>
    match r.status with
    | .success => .value r.value
    | .empty => .failed .empty
    | .signatureMismatch => .failed .mismatch
  | .throws (.target e) | .throws (.passing e) => .propagated e
  | .throws .badCall => .failed .empty
  | .throws .badSignatureCall => .failed .mismatch
  | .terminates => .terminated

/-- The outcome of the wrapper, without the value of a `void` function. -/
def handedOn (s : Sig) : Outcome Ret Exc → Outcome (Option Ret) Exc
  | .value r => .value (returned s r)
  | .propagated e => .propagated e
  | .failed f => .failed f
  | .terminated => .terminated

end Outcomes

variable {τ Val Fn Raw Arg Ret Exc : Type} [DecidableEq τ]
variable (P : Program) (E : Env τ Val Fn) (C : Calls τ Val Fn Raw Arg Ret Exc)

/-- A call through `signature_interface<Wrapper, Sig>&`, `const&` or `&&`. The wrapper passes its
arguments and results on through the same functions, so the moves are left out on both sides. -/
def throughBase (W : World τ Val Fn) (w : ℕ) (e : EntryPoint) (cat : Category) (s : Sig) (a : Arg) :
    Option (Outcome (Option Ret) Exc) := do
  let self ← W.storages (.of w)
  match e with
  | .call => (call .keeping E C W.mem self s cat a).map fun r => callOutcome r.ending
  | .callOperator => (callOperator .keeping E C W.mem self s cat a).map fun r => callOutcome r.ending
  | .tryCall => (tryCall .keeping E C W.mem self s cat a).map fun r => tryCallOutcome r.ending

/-- The arguments have exactly the parameter types: they arrive as they are, by cast as without. -/
structure ExactArgs (s : Sig) (args : Raw) (a : Arg) : Prop where
  types : C.types args = s.exactArgs
  cast : C.cast s args = .ok a
  init : C.init s args = .ok a

/-- On exact arguments of a signature that the wrapper selects for them, the base does what the
wrapper does. -/
def BaseAgrees (W : World τ Val Fn) (w : ℕ) : Prop :=
  ∀ e s args a cat, ExactArgs C s args a →
    acceptedSignature P .wrapper e.mode E.sigs (C.types args) = some s →
    throughBase E C W w e cat s a = (dispatch C E W w e.mode cat s args).map (handedOn s)

variable {P E C} {W : World τ Val Fn} {w : ℕ}

/-! ### The base -/

/-- What the interface does on the contents of a storage. -/
def contentOutcome (E : Env τ Val Fn) (C : Calls τ Val Fn Raw Arg Ret Exc) (s : Sig)
    (cat : Category) (a : Arg) : Option (Object τ Val) → Outcome Ret Exc
  | none => .failed .empty
  | some o =>
    if E.exactInvocable o.type cat s then outcome s (C.invoke o.type cat s o.val a)
    else .failed .mismatch

omit [DecidableEq τ] in
lemma seen_of_course {s : Sig} {cat : Category} {a : Arg} {c : Option (Object τ Val)}
    {k : Run (Invocation τ Val Arg) (Thrown Exc) (Failure ⊕ Option Ret)}
    (h : Course .keeping E C s cat c a k) :
    callOutcome (k.bind callEnd).ending = handedOn s (contentOutcome E C s cat a c) ∧
      tryCallOutcome (if s.isNoexcept then (k.bind (tryCallEnd .keeping s)).noexcept
        else k.bind (tryCallEnd .keeping s)).ending = handedOn s (contentOutcome E C s cat a c) := by
  have hsuccess : ∀ r, TryCallResult.success (Passing.keeping : Passing Arg Ret Exc).toMoves s.ret
      (returned s r) = .ok ⟨.success, returned s r⟩ := Moves.keeping_keeps.success_eq
  cases h with
  | stopped ha => exact absurd rfl (ha a)
  | empty hc =>
    subst hc
    exact ⟨rfl, by cases s.isNoexcept <;> rfl⟩
  | mismatch hc hx =>
    subst hc
    simp only [contentOutcome, hx, Bool.false_eq_true, if_false]
    exact ⟨rfl, by cases s.isNoexcept <;> rfl⟩
  | @ran o a' hc hx ha =>
    subst hc
    obtain rfl : a = a' := Except.ok.inj ha
    rw [contentOutcome, if_pos hx]
    cases hi : C.invoke o.type cat s o.val a with
    | ok r =>
      refine ⟨rfl, ?_⟩
      cases s.isNoexcept <;>
        simp [targetEnding, Run.bind, tryCallEnd, hsuccess, Except.mapError, Run.noexcept, Run.ret,
          tryCallOutcome, outcome, handedOn]
    | error e =>
      cases hs : s.isNoexcept <;>
        simp [targetEnding, Run.bind, Run.noexcept, callOutcome, tryCallOutcome, outcome, handedOn, hs]

lemma throughBase_eq (h : StoreInv E W) {self : WrapperStorage} (hs : W.storages (.of w) = some self)
    (e : EntryPoint) (cat : Category) (s : Sig) (a : Arg) : throughBase E C W w e cat s a =
      some (handedOn s (contentOutcome E C s cat a (content W (.of w)))) := by
  have hh := h.holds _ _ hs
  have hsucceeds : (Passing.keeping : Passing Arg Ret Exc).succeeds s = true := by
    simp [Moves.succeeds, Passing.keeping, Moves.keeping]
  have hcourse : Course .keeping E C s cat (content W (.of w)) a
      (dispatchRun .keeping E C s cat (content W (.of w)) a) := course_dispatchRun
  obtain ⟨hcall, htry⟩ := seen_of_course hcourse
  cases e with
  | call => simp [throughBase, hs, call_eq hh, callRun, hcall]
  | callOperator => simp [throughBase, hs, callOperator_eq hh, callRun, hcall]
  | tryCall => simp [throughBase, hs, tryCall_eq hh hsucceeds, tryCallRun, htry]

lemma dispatchInterface_eq (h : StoreInv E W) {self : WrapperStorage}
    (hs : W.storages (.of w) = some self) (cat : Category) (s : Sig) (a : Arg) :
    dispatchInterface C E W w cat s a = some (contentOutcome E C s cat a (content W (.of w))) := by
  rcases hc : content W (.of w) with _ | o
  · exact dispatchInterface_empty C h hs hc a
  · exact dispatchInterface_stored C h hs hc a

omit [DecidableEq τ] in
lemma convert_exact {s : Sig} {args : Raw} {a : Arg} (h : ExactArgs C s args a) (mode : Mode) :
    convert C mode s args = .ok a := by
  cases mode with
  | call => exact h.cast
  | tryCall => exact h.init

/-- **The base dispatches the wrapper's target, exactly when** the wrapper is not active on its
constant store, or selects no declared signature for arguments of its exact types. -/
theorem baseAgrees_iff (h : Runs.Reachable (system E) W) (hrun : W.phase = .run) {c : Constant Fn}
    (hc : W.constants w = some c) : BaseAgrees P E C W w ↔
      c.active = false ∨ ∀ (e : EntryPoint) s args a, ExactArgs C s args a →
        acceptedSignature P .wrapper e.mode E.sigs (C.types args) ≠ some s := by
  have hinv := inv_reachable h
  obtain ⟨self, hs⟩ := hinv.toWhole.storage (w := w) (by simp [Live, hc])
  cases hon : c.active with
  | false =>
    refine iff_of_true (fun e s args a cat hx _ => ?_) (.inl rfl)
    rw [throughBase_eq hinv.store hs, dispatch_storage C hinv hc hrun hon, convert_exact hx]
    simp [dispatchInterface_eq hinv.store hs]
  | true =>
    have hnone : content W (.of w) = none := (hinv.coherent w c _ (view_of_live hc)).alone hon
    -- the wrapper goes to its pointers, and the base finds the storage empty
    have hdiffer : ∀ e s args a cat,
        throughBase E C W w e cat s a ≠ (dispatch C E W w e.mode cat s args).map (handedOn s) := by
      intro e s args a cat heq
      rw [throughBase_eq hinv.store hs, hnone, dispatch_slots C hinv hc (.inr hon),
        contentOutcome] at heq
      have hempty := Option.some.inj heq
      cases hslot : invokeSlot C c.slots s args with
      | failed f =>
        have hf : Failure.empty = f := by simpa [hslot, handedOn] using hempty
        exact invokeSlot_ne_empty C c.slots s args (hf ▸ hslot)
      | _ => simp [hslot, handedOn] at hempty
    refine ⟨fun hall => .inr fun e s args a hx hsel => ?_, fun hno => ?_⟩
    · exact hdiffer e s args a .l (hall e s args a .l hx hsel)
    · exact fun e s args a cat hx hsel => absurd hsel (hno.resolve_left (by simp) e s args a hx)

lemma exactArgs_sample (a : ℕ) : ExactArgs sampleCalls intToInt a a := ⟨rfl, rfl, rfl⟩

theorem baseAgrees_iff_sample :
    BaseAgrees arithmeticOnly (sampleEnv .copyable) sampleCalls (sampleWorld 4) 0 ↔
      (Constant.inactive : Constant ℕ).active = false ∨
        ∀ (e : EntryPoint) s args a, ExactArgs sampleCalls s args a →
          acceptedSignature arithmeticOnly .wrapper e.mode (sampleEnv .copyable).sigs
            (sampleCalls.types args) ≠ some s :=
  baseAgrees_iff sampleWorld_reachable rfl rfl

/-- The base reports that the wrapper is empty, and the wrapper adds 3 to its argument. -/
theorem base_differs :
    ¬ ∀ W w, Runs.Reachable (system (sampleEnv .copyable)) W → W.phase = .run → Live W w →
      BaseAgrees arithmeticOnly (sampleEnv .copyable) sampleCalls W w := by
  intro h
  have hall := h _ 0 constantWorld_followed.run.free rfl (Option.some_ne_none _)
  have heq := hall .tryCall intToInt 4 4 .l (exactArgs_sample 4) (by decide)
  exact absurd heq (by decide)

end FunctionWrapper.InterfaceBase
