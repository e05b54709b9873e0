import FunctionWrapper.InterfaceBase
import FunctionWrapper.RefMachine
import FunctionWrapper.StaticSlots

/-!
`static_function_ref`, and the other holders of a function pointer.

A `static_function_ref`, a `function_ref`, a slot of a `static_function` and the constant store of a
wrapper call the function they hold alike, where it makes no difference that the views let their
parameters convert the arguments and the stores cast them. A null pointer makes a view empty, while
the stores report that they have nothing for the signature.
-/

namespace FunctionWrapper.PointerHolders

open FunctionWrapper.Types FunctionWrapper.Traits FunctionWrapper.Signatures
open FunctionWrapper.Callables FunctionWrapper.Storage FunctionWrapper.Lifecycle
open FunctionWrapper.CallAcceptance FunctionWrapper.RunInvariant FunctionWrapper.WrapperSpec
open FunctionWrapper.Dispatch FunctionWrapper.DispatchSpec FunctionWrapper.CallResult
open FunctionWrapper.InterfaceBase FunctionWrapper.ValueSemantics
open FunctionWrapper.FunctionRef (RefEnv Ref Refs Target bindPointer)
open FunctionWrapper.RefViews FunctionWrapper.RefChains FunctionWrapper.RefMachine
open FunctionWrapper.StaticSlots (Declared StaticFunction StaticRun)
open TracedRuns

variable {τ Val Fn σ Obj Member Raw Arg Ret Exc : Type}

/-- `static_function_ref<Sig>`. -/
structure StaticFunctionRef (Fn : Type) where
  pointer : Option Fn

namespace StaticFunctionRef

variable (V : Moves Ret Exc) (C : Calls τ Val Fn Raw Arg Ret Exc) (s : Sig)
variable (self : StaticFunctionRef Fn)

/-- `make<Function>()`, where the function has the signature. -/
def make (sigOf : Fn → Sig) (f : Fn) : Option (StaticFunctionRef Fn) := do
  guard (sigOf f = s)
  return ⟨some f⟩

def hasValue : Bool := self.pointer.isSome

/-- A function that is `noexcept` lets no exception out. -/
def invoke (pointer : Fn) (a : Arg) : StaticRun Fn Arg Exc Ret :=
  let r := .call (s, pointer, a) ((C.apply s pointer a).mapError .target)
  if s.isNoexcept then r.noexcept else r

/-- `try_call`, which is `noexcept` where the signature is. -/
def tryCall (a : Arg) : StaticRun Fn Arg Exc (TryCallResult Ret) :=
  match self.pointer with
  | none => .ret .empty
  | some pointer =>
    let r := (invoke C s pointer a).bind fun v =>
      .lift ((TryCallResult.success V s.ret (returned s v)).mapError .passing)
    if s.isNoexcept then r.noexcept else r

/-- `operator()`. There is no `call`. -/
def callOperator (a : Arg) : StaticRun Fn Arg Exc (Option Ret) :=
  match self.pointer with
  | none => .throw .badCall
  | some pointer => (invoke C s pointer a).bind fun v => .ret (returned s v)

end StaticFunctionRef

/-- An exception of the library tells what `try_call` reports. -/
def told : Outcome (Option Ret) (Thrown Exc) → Outcome (Option Ret) Exc
  | .value v => .value v
  | .propagated (.target e) | .propagated (.passing e) => .propagated e
  | .propagated .badCall => .failed .empty
  | .propagated .badSignatureCall => .failed .mismatch
  | .failed f => .failed f
  | .terminated => .terminated

section Holders

variable (V : Moves Ret Exc) (C : Calls τ Val Fn Raw Arg Ret Exc) (s : Sig)

/-- The parameters of a view are initialized by its caller. -/
def staticRefTells (self : StaticFunctionRef Fn) (args : Raw) (mode : Mode) :
    Outcome (Option Ret) Exc :=
  match C.init s args with
  | .error e => .propagated e
  | .ok a =>
    match mode with
    | .call => told (callSeen (self.callOperator C s a).ending)
    | .tryCall => told (tryCallSeen (self.tryCall V C s a).ending)

def slotTells {D : Declared} (self : StaticFunction D Fn) (args : Raw) :
    Mode → Option (Outcome (Option Ret) Exc)
  | .call => (StaticSlots.invokeSlot C self s args).map fun r => told (callSeen r.ending)
  | .tryCall => (StaticSlots.tryInvokeSlot V C self s args).map fun r => told (tryCallSeen r.ending)

def pointerOutcome (absent : Failure) (pointer : Option Fn) (a : Arg) : Outcome (Option Ret) Exc :=
  match pointer with
  | none => .failed absent
  | some f => handedOn s (outcome s (C.apply s f a))

end Holders

def refTells [DecidableEq σ] (C : Calls τ Val Fn Raw Arg Ret Exc) (R : RefEnv σ Obj Member Fn)
    (V : Moves Ret Exc) (exec : Target Obj Member Fn → Arg → Except Exc Ret) (M : Refs σ Obj Fn)
    (n r : ℕ) (args : Raw) (mode : Mode) : Option (Outcome (Option Ret) Exc) :=
  match C.init R.sig args with
  | .error e => some (.propagated e)
  | .ok a => (callRef R V exec M mode (n + 1) r a).map fun p => told p.2

variable {V : Moves Ret Exc} {C : Calls τ Val Fn Raw Arg Ret Exc} {s : Sig} {pointer : Option Fn}
variable {args : Raw} {a : Arg}

lemma told_refOutcome (x : Outcome Ret Exc) : told (refOutcome s x) = handedOn s x := by
  cases x <;> rfl

lemma staticRefTells_eq (hmoves : V.Keeps s) (hargs : C.init s args = .ok a) (mode : Mode) :
    staticRefTells V C s ⟨pointer⟩ args mode = pointerOutcome C s .empty pointer a := by
  rw [staticRefTells, hargs]
  cases pointer with
  | none => cases mode <;> rfl
  | some f =>
    cases mode <;> cases hs : s.isNoexcept <;> cases hf : C.apply s f a <;>
      simp [StaticFunctionRef.callOperator, StaticFunctionRef.tryCall, StaticFunctionRef.invoke,
        hmoves.success_eq, Run.bind, Run.ret, Run.call, Run.noexcept, Except.mapError,
        Ending.ofExcept, callSeen, tryCallSeen, told, pointerOutcome, outcome, handedOn, hs, hf]

lemma refTells_eq [DecidableEq σ] {R : RefEnv σ Obj Member Fn}
    {exec : Target Obj Member Fn → Arg → Except Exc Ret} {M : Refs σ Obj Fn} {r : ℕ}
    (hM : M r = some (bindPointer pointer))
    (hexec : ∀ f a, exec (.function f) a = C.apply R.sig f a) (hmoves : V.Keeps R.sig)
    (hargs : C.init R.sig args = .ok a) (n : ℕ) (mode : Mode) :
    refTells C R V exec M n r args mode = some (pointerOutcome C R.sig .empty pointer a) := by
  have hview : M r = some (viewOf R (pointer.map .function)) := by
    rw [hM]
    cases pointer <;> rfl
  have hfits : Fits R (pointer.map .function) := by cases pointer <;> trivial
  have hcall : callRef R V exec M mode (n + 1) r a =
      some ((pointer.map .function).toList.map (·, a),
        viewCall R V exec mode true a (pointer.map .function)) := by
    cases mode with
    | call => rw [callRef, call_view exec hview hfits, Option.map_some, lastRun_seen V]
    | tryCall => rw [callRef, tryCall_view V exec hview hfits, Option.map_some, lastResult_seen]
  simp only [refTells, hargs, hcall, Option.map_some]
  cases pointer with
  | none => cases mode <;> rfl
  | some f =>
    have htold : told (viewCall R V exec mode true a (some (.function f))) =
        handedOn R.sig (outcome R.sig (C.apply R.sig f a)) := by
      rw [viewCall, handOver_of_keeps fun _ => hmoves, told_refOutcome, hexec]
    exact congrArg some htold

lemma slotTells_eq {D : Declared} {self : StaticFunction D Fn} (hself : self.get s = some pointer)
    (hmoves : V.Keeps s) (hargs : C.cast s args = .ok a) (mode : Mode) :
    slotTells V C s self args mode = some (pointerOutcome C s .mismatch pointer a) := by
  cases pointer with
  | none =>
    cases mode with
    | call =>
      simp [slotTells, StaticSlots.invokeSlot, hself, Run.throw, callSeen, told, pointerOutcome]
    | tryCall =>
      simp [slotTells, StaticSlots.tryInvokeSlot, hself, Run.ret, tryCallSeen, told, pointerOutcome,
        TryCallResult.signatureMismatch]
  | some f =>
    cases mode with
    | call =>
      simp only [slotTells, StaticSlots.invokeSlot, hself, Option.bind_eq_bind, Option.bind_some,
        StaticSlots.invokePointer_returned]
      cases hs : s.isNoexcept <;> cases hf : C.apply s f a <;>
        simp [StaticSlots.functionEnding, hargs, Except.bind, hf, hs, callSeen, told,
          pointerOutcome, outcome, handedOn]
    | tryCall =>
      have hrun := StaticSlots.invokePointer_bind C s f args fun v =>
        (TryCallResult.success V s.ret v).mapError .passing
      simp only [slotTells, StaticSlots.tryInvokeSlot, hself, Option.bind_eq_bind, Option.bind_some,
        hrun]
      cases hs : s.isNoexcept <;> cases hf : C.apply s f a <;>
        simp [StaticSlots.functionEnding, hargs, Except.bind, hf, hs, Ending.bind,
          hmoves.success_eq, Except.mapError, Ending.ofExcept, tryCallSeen, told, pointerOutcome,
          outcome, handedOn]

/-! ### The holders of one pointer -/

section Agreement

variable [DecidableEq τ] [DecidableEq σ] {E : Env τ Val Fn} {R : RefEnv σ Obj Member Fn}
variable {W : World τ Val Fn} {w : ℕ} {c : Constant Fn} {M : Refs σ Obj Fn} {r : ℕ} {D : Declared}
variable {slots : StaticFunction D Fn} {exec : Target Obj Member Fn → Arg → Except Exc Ret}

/-- The pointer is held four times. The wrapper has it in its constant store, and uses that. -/
structure Held (E : Env τ Val Fn) (W : World τ Val Fn) (w : ℕ) (M : Refs σ Obj Fn) (r : ℕ)
    (slots : StaticFunction D Fn) (s : Sig) (pointer : Option Fn) : Prop where
  run : Runs.Reachable (system E) W
  wrapper : ∃ c, W.constants w = some c ∧ c.active = true ∧ c.slots s = pointer
  ref : M r = some (bindPointer pointer)
  slot : slots.get s = some pointer

/-- **A function is called alike by all that hold a pointer to it**, with arguments that arrive as
the same values by cast as by initialization, and results that moves leave as they are. The two views
of a pointer always agree, and so do the two stores; the views agree with the stores exactly on the
pointers that are not null. -/
theorem pointer_held_alike (h : Held E W w M r slots R.sig pointer)
    (hexec : ∀ f a, exec (.function f) a = C.apply R.sig f a) (hmoves : V.Keeps R.sig)
    (hcast : C.cast R.sig args = .ok a) (hinit : C.init R.sig args = .ok a) :
    ((M r).map Ref.hasValue = some (StaticFunctionRef.hasValue ⟨pointer⟩) ∧
      ∀ n mode, refTells C R V exec M n r args mode =
        some (staticRefTells V C R.sig ⟨pointer⟩ args mode)) ∧
    (∀ cat mode, (dispatch C E W w mode cat R.sig args).map (handedOn R.sig) =
      slotTells V C R.sig slots args mode) ∧
    ∀ mode, slotTells V C R.sig slots args mode =
      some (staticRefTells V C R.sig ⟨pointer⟩ args mode) ↔ pointer ≠ none := by
  obtain ⟨c, hc, hon, hslot⟩ := h.wrapper
  refine ⟨⟨?_, fun n mode => ?_⟩, fun cat mode => ?_, fun mode => ?_⟩
  · rw [h.ref]
    cases pointer <;> rfl
  · rw [refTells_eq h.ref hexec hmoves hinit, staticRefTells_eq hmoves hinit]
  · rw [dispatch_slots C (inv_reachable h.run) hc (.inr hon), slotTells_eq h.slot hmoves hcast,
      Option.map_some, invokeSlot, hslot]
    cases pointer with
    | none => rfl
    | some f => rw [hcast]; rfl
  · rw [slotTells_eq h.slot hmoves hcast, staticRefTells_eq hmoves hinit]
    cases pointer with
    | none => simp [pointerOutcome]
    | some f => simp [pointerOutcome]

end Agreement

def sampleSlots : StaticFunction StaticSlots.onlyInt ℕ :=
  StaticFunction.empty.bind intToInt (some 3)

lemma held_sample :
    Held (sampleEnv .copyable) (constantWorld 2) 0 (oneView (some 3)) 0 sampleSlots intToInt
      (some 3) where
  run := constantWorld_followed.run.free
  wrapper := ⟨_, rfl, rfl, rfl⟩
  ref := rfl
  slot := rfl

def sampleAdds : Target Empty Empty ℕ → ℕ → Except Unit ℕ
  | .function f, a => sampleCalls.apply intToInt f a
  | _, _ => .error ()

theorem pointer_held_alike_sample :
    (dispatch sampleCalls (sampleEnv .copyable) (constantWorld 2) 0 .call .cl intToInt 4).map
      (handedOn intToInt) = some (staticRefTells .keeping sampleCalls intToInt ⟨some 3⟩ 4 .call) := by
  have halike := pointer_held_alike (R := sampleRefs) held_sample
    (fun _ _ => rfl : ∀ f a, sampleAdds (.function f) a = sampleCalls.apply intToInt f a)
    Moves.keeping_keeps (rfl : sampleCalls.cast intToInt 4 = .ok 4) rfl
  exact (halike.2.1 .cl .call).trans ((halike.2.2 .call).mpr nofun)

end FunctionWrapper.PointerHolders
