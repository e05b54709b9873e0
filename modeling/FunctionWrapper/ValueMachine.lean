import FunctionWrapper.InvokedTargets
import FunctionWrapper.Simulations
import FunctionWrapper.ThrowConditions
import FunctionWrapper.ValueSemantics

/-!
The machine of optional callable values, with calls and questions.

The program sees which operations threw, what came out of its calls, and what the wrappers answered.
The machine says which histories it can see: a value changes by the operations and calls that name
its wrapper, and by no others.
-/

namespace FunctionWrapper.ValueMachine

open FunctionWrapper.Traits FunctionWrapper.Signatures FunctionWrapper.Callables
open FunctionWrapper.Storage FunctionWrapper.Lifecycle FunctionWrapper.CallAcceptance
open FunctionWrapper.RunInvariant FunctionWrapper.Dispatch FunctionWrapper.ValueSemantics
open Runs

variable {τ Val Fn Raw Arg Ret Exc : Type}

/-- The language around the wrappers: the calls, and what they leave of the callable. -/
structure Language (τ Val Fn Raw Arg Ret Exc : Type) extends Calls τ Val Fn Raw Arg Ret Exc where
  program : Program
  after : τ → Category → Sig → Val → Arg → Val

/-- What the program sees of a step. -/
inductive Event (τ Val Raw Ret Exc : Type)
  | op (op : Op τ Val) (threw : Bool)
  | call (w : ℕ) (mode : Mode) (cat : Category) (args : Raw) (seen : Outcome Ret Exc)
  | ask (w : ℕ) (hasValue : Bool) (bound : List Bool)

def Event.named : Event τ Val Raw Ret Exc → List ℕ
  | .op o _ => ValueSemantics.named o
  | .call w .. | .ask w .. => [w]

/-- The wrappers whose values an operation changes. A copy leaves its source alone. -/
def changed : Op τ Val → List ℕ
  | .copyConstruct w _ | .copyAssign w _ => [w]
  | .construct w (.target _ false) | .assignCallable w (.target _ false) => [w]
  | op => ValueSemantics.named op

def Event.changed : Event τ Val Raw Ret Exc → List ℕ
  | .op o _ => ValueMachine.changed o
  | .call w .. => [w]
  | .ask .. => []

/-- The event names a wrapper of the group. -/
def Event.within (G : ℕ → Bool) (e : Event τ Val Raw Ret Exc) : Bool := e.named.any G

def Event.Threw : Event τ Val Raw Ret Exc → Prop
  | .op _ threw => threw = true
  | _ => False

/-! ### The machine -/

variable [DecidableEq τ] (E : Env τ Val Fn)

/-- A source that can be given to a wrapper. -/
def Available (ph : Phase) (A : Values τ Val) : Source τ Val → Prop
  | .object o => E.accepts o.type = true ∧
      (ph = .constant → o.type = E.staticFunction ∨ constexprBindable E o.type = true)
  | .target u rvalue => ph = .run ∧ ∃ o, A u = some (some (.stored o)) ∧
      (rvalue = false → E.layout.copyConstructible o.type = true)

def CanRun (ph : Phase) (A : Values τ Val) : Op τ Val → Prop
  | .defaultConstruct w => A w = none
  | .construct w src => A w = none ∧ Available E ph A src
  | .copyConstruct w u => E.kind = .copyable ∧ A w = none ∧ A u ≠ none
  | .moveConstruct w u => A w = none ∧ A u ≠ none
  | .copyAssign w u => E.kind = .copyable ∧ A w ≠ none ∧ A u ≠ none
  | .moveAssign w u | .swap w u => A w ≠ none ∧ A u ≠ none
  | .assignCallable w src => A w ≠ none ∧ Available E ph A src ∧ ¬ SelfSourced (.assignCallable w src)
  | .reset w | .destruct w => A w ≠ none
  | .targetRuns w _ => ph = .run ∧ ∃ o, A w = some (some (.stored o))
  | .start => ph = .constant

/-- The copy of a callable can throw: a constructor runs. -/
def CopyMayThrow (ph : Phase) (a : Option (Option (Callable τ Val))) : Prop :=
  ph = .run ∧ ∃ o, a = some (some (.stored o)) ∧
    (E.fitsInSbo o.type && E.layout.triviallyCopyable o.type) = false

def MayThrow (ph : Phase) (A : Values τ Val) : Op τ Val → Prop
  | .construct _ _ | .assignCallable _ _ => ph = .run
  | .copyConstruct _ u => CopyMayThrow E ph (A u)
  | .copyAssign w u => w ≠ u ∧ CopyMayThrow E ph (A u)
  | _ => False

def thrownStep (luck : Luck) (A : Values τ Val) : Op τ Val → Values τ Val
  | .construct _ src => leave (leftover E luck true) A src
  | .assignCallable w src => leave (leftover E luck true) (Function.update A w (some none)) src
  | .copyAssign w _ => Function.update A w (some none)
  | _ => A

/-- The function pointers of a value, for calls in constant evaluation. -/
def valueSlots (a : Option (Callable τ Val)) : Slots Fn := fun s =>
  match a with
  | some (.constant o) => pointerOf E o s
  | _ => none

/-- `has_value` of a value. -/
def valueHas (ph : Phase) (a : Option (Callable τ Val)) : Bool :=
  if ph = .constant then (valueBound E a).any id else a.isSome

variable (L : Language τ Val Fn Raw Arg Ret Exc)

def valueCall (ph : Phase) (a : Option (Callable τ Val)) (mode : Mode) (cat : Category) (s : Sig)
    (args : Raw) : Outcome Ret Exc :=
  if ph = .constant then invokeSlot L.toCalls (valueSlots E a) s args
  else valueOutcome E L.toCalls a mode cat s args

/-- What a call leaves of a stored callable. -/
def objectAfter (mode : Mode) (cat : Category) (s : Sig) (args : Raw) (o : Object τ Val) :
    Object τ Val :=
  match convert L.toCalls mode s args with
  | .error _ => o
  | .ok a => if E.exactInvocable o.type cat s then { o with val := L.after o.type cat s o.val a }
    else o

/-- The machine. A call that ends the program has no next step. -/
def machine : System (Phase × Values τ Val) (Event τ Val Raw Ret Exc) where
  init q := q = (.constant, fun _ => none)
  step q e q' :=
    match e with
    | .op op threw => CanRun E q.1 q.2 op ∧ (threw = true → MayThrow E q.1 q.2 op) ∧
        match threw with
        | false => q' = (nextPhase q.1 op, valueStep E q.1 q.2 op)
        | true => ∃ luck, q' = (nextPhase q.1 op, thrownStep E luck q.2 op)
    | .call w mode cat args seen => ∃ a s, q.2 w = some a ∧
        acceptedSignature L.program .wrapper mode E.sigs (L.types args) = some s ∧
        seen = valueCall E L q.1 a mode cat s args ∧ seen ≠ .terminated ∧
        q' = (q.1, Function.update q.2 w (some (a.map (Callable.mapStored
          (objectAfter E L mode cat s args)))))
    | .ask w hasValue bound => ∃ a, q.2 w = some a ∧ hasValue = valueHas E q.1 a ∧
        bound = valueBound E a ∧ q' = q

omit [DecidableEq τ] in
lemma thrownStep_frame {luck : Luck} {A : Values τ Val} {op : Op τ Val} {v : ℕ}
    (hv : v ∉ ValueSemantics.named op) : thrownStep E luck A op v = A v := by
  cases op with
  | construct w src =>
    refine leave_of_not_source fun r e => hv ?_
    simp [e, ValueSemantics.named]
  | copyAssign w u =>
    exact Function.update_of_ne (fun e => hv (by simp [e, ValueSemantics.named])) _ _
  | assignCallable w src =>
    refine (leave_of_not_source fun r e => hv ?_).trans (Function.update_of_ne (fun e => hv ?_) _ _)
    · simp [e, ValueSemantics.named]
    · cases src <;> simp [e, ValueSemantics.named]
  | _ => rfl

variable {E L}

lemma phase_of_op {q q' : Phase × Values τ Val} {op : Op τ Val} {threw : Bool}
    (hs : (machine E L).step q (.op op threw) q') : q'.1 = nextPhase q.1 op := by
  obtain ⟨-, -, hq⟩ := hs
  cases threw with
  | false => rw [hq]
  | true =>
    obtain ⟨luck, rfl⟩ := hq
    rfl

lemma step_frame {q q' : Phase × Values τ Val} {e : Event τ Val Raw Ret Exc} {v : ℕ}
    (hs : (machine E L).step q e q') (hv : v ∉ e.named) : q'.2 v = q.2 v := by
  cases e with
  | op op threw =>
    obtain ⟨-, -, hq⟩ := hs
    cases threw with
    | true =>
      obtain ⟨luck, rfl⟩ := hq
      exact thrownStep_frame E hv
    | false =>
      obtain rfl := hq
      exact valueStep_frame hv
  | call w mode cat args seen =>
    obtain ⟨a, s, -, -, -, -, rfl⟩ := hs
    exact Function.update_of_ne (by simpa [Event.named] using hv) _ _
  | ask w hasValue bound =>
    obtain ⟨a, -, -, -, rfl⟩ := hs
    rfl

/-- Only the start of run time names no wrapper. -/
lemma step_phase {q q' : Phase × Values τ Val} {e : Event τ Val Raw Ret Exc}
    (hs : (machine E L).step q e q') (hnamed : e.named ≠ []) : q'.1 = q.1 := by
  cases e with
  | op op threw =>
    rw [phase_of_op hs]
    cases op with
    | start => exact absurd rfl hnamed
    | _ => rfl
  | call w mode cat args seen =>
    obtain ⟨a, s, -, -, -, -, rfl⟩ := hs
    rfl
  | ask w hasValue bound =>
    obtain ⟨a, -, -, -, rfl⟩ := hs
    rfl

end FunctionWrapper.ValueMachine
