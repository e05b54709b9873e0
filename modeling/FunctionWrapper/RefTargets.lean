import FunctionWrapper.CallResult
import FunctionWrapper.RefViews
import FunctionWrapper.TracedRuns

/-!
A `function_ref` calls the target that was bound to it last.

A tracker sees the operations of a run only, and notes for each `function_ref` the target that was
bound last, through copies, moves and swaps. Calls record which targets they invoke and with which
arguments. The moves that pass arguments on are taken to leave them as they are; those of results are
a parameter.
-/

namespace FunctionWrapper.RefTargets

open FunctionWrapper.Types FunctionWrapper.Traits FunctionWrapper.Signatures
open FunctionWrapper.FunctionRef FunctionWrapper.RefViews FunctionWrapper.CallResult
open FunctionWrapper.CallResult.TryCallResult (success)
open TracedRuns

variable {τ Obj Member Fn Arg Ret Exc : Type} (E : RefEnv τ Obj Member Fn)

section Calls

variable [DecidableEq τ] (V : Moves Ret Exc) (exec : Target Obj Member Fn → Arg → Except Exc Ret)

/-- What a call does: the targets it invokes, and its end. -/
abbrev RefRun (Obj Member Fn Arg Exc α : Type) := Run (Target Obj Member Fn × Arg) (Thrown Exc) α

/-- `std::invoke` of a target. -/
def invokeTarget (t : Target Obj Member Fn) (a : Arg) :
    RefRun Obj Member Fn Arg Exc (Option Ret) :=
  (Run.call (t, a) ((exec t a).mapError .target)).bind fun v => .ret (returned E.sig v)

/-- A thunk is `noexcept` where the signature is. `callee` calls another `function_ref`. -/
def runThunk (callee : ℕ → Arg → Option (RefRun Obj Member Fn Arg Exc (Option Ret)))
    (self : Ref τ Obj Fn) (thunk : FunctionRef.Thunk τ) (a : Arg) :
    Option (RefRun Obj Member Fn Arg Exc (Option Ret)) := do
  let r ← match ← invoke E self thunk with
    | .target t => some (invokeTarget E exec t a)
    | .through q => callee q a
    | .empty => none
  return if E.sig.isNoexcept then r.noexcept else r

variable (M : Refs τ Obj Fn)

/-- `call` and `operator()`, with a bound on the `function_ref`s that call one another. -/
def call : ℕ → ℕ → Arg → Option (RefRun Obj Member Fn Arg Exc (Option Ret))
  | 0, _, _ => none
  | n + 1, r, a => do
    let self ← M r
    match self.mutableThunk with
    | some thunk => runThunk E exec (call n) self thunk a
    | none =>
      match self.constThunk with
      | some thunk => runThunk E exec (call n) self thunk a
      | none => return .throw .badCall

/-- `try_call_result<R>::success` of what a thunk returns. -/
def succeed (result : RefRun Obj Member Fn Arg Exc (Option Ret)) :
    RefRun Obj Member Fn Arg Exc (TryCallResult Ret) :=
  result.bind fun v => .lift ((success V E.sig.ret v).mapError .passing)

def tryCallBody (n r : ℕ) (a : Arg) :
    Option (RefRun Obj Member Fn Arg Exc (TryCallResult Ret)) := do
  let self ← M r
  match self.mutableThunk with
  | some thunk =>
    let result ← runThunk E exec (call E exec M n) self thunk a
    return succeed E V result
  | none =>
    match self.constThunk with
    | some thunk =>
      let result ← runThunk E exec (call E exec M n) self thunk a
      return succeed E V result
    | none => return .ret .empty

/-- `try_call`, where it compiles. It is `noexcept` where the signature is. -/
def tryCall (n r : ℕ) (a : Arg) : Option (RefRun Obj Member Fn Arg Exc (TryCallResult Ret)) :=
  (tryCallBody E V exec M n r a).map (if E.sig.isNoexcept then Run.noexcept else id)

end Calls

/-- The targets of the `function_ref`s that exist. -/
abbrev Targets (Obj Member Fn : Type) := ℕ → Option (Option (Target Obj Member Fn))

def sourceTarget (T : Targets Obj Member Fn) : Source Obj Member Fn → Option (Target Obj Member Fn)
  | .ref q _ | .expiring q => (T q).join
  | src => boundTarget E src

def track (T : Targets Obj Member Fn) : Op Obj Member Fn → Targets Obj Member Fn
  | .make r src | .assign r src => Function.update T r (some (sourceTarget E T src))
  | .reset r => Function.update T r (some none)
  | .swap r q => Function.update (Function.update T r (T q)) q (T r)

/-- Runs that copy from constants, beside the tracker. -/
def tracked : Runs.System (Refs τ Obj Fn × Targets Obj Member Fn) (Op Obj Member Fn) :=
  ((system E).restrict (Copying E)).observed (fun _ => none) (track E)

/-- The fields are those of a view of the target. -/
structure Shows (f : Option (Ref τ Obj Fn)) (t : Option (Option (Target Obj Member Fn))) : Prop where
  fields : f = t.map (viewOf E)
  fits : ∀ x, t = some x → Fits E x

def Tracks (M : Refs τ Obj Fn) (T : Targets Obj Member Fn) : Prop := ∀ r, Shows E (M r) (T r)

variable {E} {M M' : Refs τ Obj Fn} {T : Targets Obj Member Fn}

lemma Tracks.update (h : Tracks E M T) {r : ℕ} {f : Option (Ref τ Obj Fn)}
    {t : Option (Option (Target Obj Member Fn))} (hf : Shows E f t) :
    Tracks E (Function.update M r f) (Function.update T r t) := by
  intro q
  by_cases e : q = r
  · subst e
    rw [Function.update_self, Function.update_self]
    exact hf
  · rw [Function.update_of_ne e, Function.update_of_ne e]
    exact h q

theorem tracked_of_reachable (h : Runs.Reachable ((system E).restrict (Copying E)) M) :
    ∃ T, Runs.Reachable (tracked E) (M, T) := h.observed

inductive Field | object | functionPointer | mutableThunk | constThunk | aux
  deriving DecidableEq, Repr

def SameField (f g : Ref τ Obj Fn) : Field → Prop
  | .object => f.object = g.object
  | .functionPointer => f.functionPointer = g.functionPointer
  | .mutableThunk => f.mutableThunk = g.mutableThunk
  | .constThunk => f.constThunk = g.constThunk
  | .aux => f.aux = g.aux

/-- The fields that a binding writes after `clear_`. -/
def writes : Target Obj Member Fn → List Field
  | .function _ => [.functionPointer, .mutableThunk, .constThunk]
  | .callable _ isConst => [.object, if isConst then .constThunk else .mutableThunk]
  | .member _ _ isConst => [.object, .aux, if isConst then .constThunk else .mutableThunk]

def running (f : Ref τ Obj Fn) : Option (FunctionRef.Thunk τ) := f.mutableThunk <|> f.constThunk

lemma sameField_clear (x : Target Obj Member Fn) {field : Field} (h : field ∉ writes x) :
    SameField (viewOf E (some x)) .clear field := by
  rcases x with f | ⟨o, _ | _⟩ | ⟨o, m, _ | _⟩ <;> cases field <;>
    first
      | rfl
      | exact absurd (by simp [writes]) h

variable [DecidableEq τ]

lemma invoke_congr {x : Target Obj Member Fn} {thunk : FunctionRef.Thunk τ}
    (hthunk : running (viewOf E (some x)) = some thunk) {g : Ref τ Obj Fn}
    (hg : ∀ field ∈ writes x, SameField g (viewOf E (some x)) field) :
    invoke E g thunk = invoke E (viewOf E (some x)) thunk := by
  rcases x with f | ⟨o, _ | _⟩ | ⟨o, m, _ | _⟩
  · obtain rfl := Option.some.inj hthunk
    have hpointer : g.functionPointer = some f := hg .functionPointer (by simp [writes])
    simp [invoke, hpointer, viewOf, bindPointer]
  all_goals
    obtain rfl := Option.some.inj hthunk
    have hobject : g.object = some (.object o) := hg .object (by simp [writes])
  · simp [invoke, invokeCallable, hobject, viewOf, bindCallable]
  · simp [invoke, invokeCallable, hobject, viewOf, bindCallable]
  all_goals
    have haux : g.aux = storeAux E m := hg .aux (by simp [writes])
    simp [invoke, invokeMember, hobject, haux, viewOf, bindMember]

variable (V : Moves Ret Exc) (exec : Target Obj Member Fn → Arg → Except Exc Ret)

/-- A target is invoked once, through a thunk that is `noexcept` where the signature is. -/
def targetRun (E : RefEnv τ Obj Member Fn) (x : Target Obj Member Fn) (a : Arg) :
    RefRun Obj Member Fn Arg Exc (Option Ret) :=
  if E.sig.isNoexcept then (invokeTarget E exec x a).noexcept else invokeTarget E exec x a

/-- What `try_call` makes of a run of a target. -/
def succeedRun (E : RefEnv τ Obj Member Fn) (r : RefRun Obj Member Fn Arg Exc (Option Ret)) :
    RefRun Obj Member Fn Arg Exc (TryCallResult Ret) :=
  if E.sig.isNoexcept then (succeed E V r).noexcept else succeed E V r

omit [DecidableEq τ] in
lemma calls_succeedRun (r : RefRun Obj Member Fn Arg Exc (Option Ret)) :
    (succeedRun V E r).calls = r.calls := by
  rw [succeedRun, succeed, Run.bind_lift]
  split <;> simp

omit [DecidableEq τ] in
lemma calls_targetRun (x : Target Obj Member Fn) (a : Arg) :
    (targetRun exec E x a).calls = [(x, a)] := by
  rw [targetRun, invokeTarget, Run.bind_ret]
  split <;> simp [Run.call]

lemma hop_eq (f : Ref τ Obj Fn) : hop E f =
    match running f with
    | some thunk => invoke E f thunk
    | none => some .empty := by
  unfold hop running
  rcases f.mutableThunk with _ | t <;> rcases f.constThunk with _ | t' <;> rfl

/-- The thunk of a view goes to its target. -/
lemma running_view {x : Target Obj Member Fn} (hx : Fits E (some x)) :
    ∃ thunk, running (viewOf E (some x)) = some thunk ∧
      invoke E (viewOf E (some x)) thunk = some (.target x) := by
  have hhop := hop_viewOf hx
  rw [hop_eq] at hhop
  cases hr : running (viewOf E (some x)) with
  | none =>
    rw [hr] at hhop
    cases hhop
  | some thunk =>
    rw [hr] at hhop
    exact ⟨thunk, rfl, hhop⟩

lemma runThunk_target {f : Ref τ Obj Fn} {thunk : FunctionRef.Thunk τ} {x : Target Obj Member Fn}
    (h : invoke E f thunk = some (.target x))
    (callee : ℕ → Arg → Option (RefRun Obj Member Fn Arg Exc (Option Ret))) (a : Arg) :
    runThunk E exec callee f thunk a = some (targetRun exec E x a) := by
  simp [runThunk, h, targetRun]

lemma call_succ {r : ℕ} {f : Ref τ Obj Fn} (hr : M r = some f) (n : ℕ) (a : Arg) :
    call E exec M (n + 1) r a =
      match running f with
      | some thunk => runThunk E exec (call E exec M n) f thunk a
      | none => some (.throw .badCall) := by
  rw [call]
  simp only [hr, Option.bind_eq_bind, Option.bind_some, running]
  rcases f.mutableThunk with _ | t <;> rcases f.constThunk with _ | t' <;> rfl

lemma tryCallBody_eq {r : ℕ} {f : Ref τ Obj Fn} (hr : M r = some f) (n : ℕ) (a : Arg) :
    tryCallBody E V exec M n r a =
      match running f with
      | some thunk => (runThunk E exec (call E exec M n) f thunk a).map (succeed E V)
      | none => some (.ret .empty) := by
  rw [tryCallBody]
  simp only [hr, Option.bind_eq_bind, Option.bind_some, running]
  rcases f.mutableThunk with _ | t <;> rcases f.constThunk with _ | t' <;>
    simp [Option.map_eq_bind]

/-! ### The target bound last -/

/-- The `function_ref` is empty, and says so. -/
structure ShowsNothing (E : RefEnv τ Obj Member Fn) (M : Refs τ Obj Fn) (r : ℕ) (f : Ref τ Obj Fn) :
    Prop where
  mutableThunk : f.mutableThunk = none
  constThunk : f.constThunk = none
  call : ∀ n a, call E exec M (n + 1) r a = some (.throw .badCall)
  tryCall : ∀ n a, tryCall E V exec M n r a = some (.ret .empty)

/-- `call` and `try_call` invoke the target once, with the arguments. `call` ends as it does, and
`try_call` as the moves of its result do. The thunk depends on no field but those the binding wrote, and reads its member pointer back. -/
structure ShowsTarget (E : RefEnv τ Obj Member Fn) (M : Refs τ Obj Fn) (r : ℕ) (f : Ref τ Obj Fn)
    (x : Target Obj Member Fn) : Prop where
  once : ∀ n a, ∃ y z, call E exec M (n + 1) r a = some y ∧ tryCall E V exec M n r a = some z ∧
    y.calls = [(x, a)] ∧ z.calls = [(x, a)] ∧ y.ending = (targetRun exec E x a).ending ∧
    z.ending = (succeedRun V E (targetRun exec E x a)).ending
  cleared : ∀ field, field ∉ writes x → SameField f .clear field
  thunk : ∃ thunk, running f = some thunk ∧ ∀ g : Ref τ Obj Fn,
    (∀ field ∈ writes x, SameField g f field) → invoke E g thunk = invoke E f thunk
  aux : ∀ o m isConst, x = .member o m isConst → loadAux E (E.memberType m) f.aux = some m

lemma showsNothing_clear {r : ℕ} (hr : M r = some .clear) : ShowsNothing V exec E M r .clear := by
  refine ⟨rfl, rfl, fun n a => call_succ exec hr n a, fun n a => ?_⟩
  rw [tryCall, tryCallBody_eq V exec hr]
  cases E.sig.isNoexcept <;> rfl

lemma showsTarget_view {r : ℕ} {x : Target Obj Member Fn} (hr : M r = some (viewOf E (some x)))
    (hx : Fits E (some x)) : ShowsTarget V exec E M r (viewOf E (some x)) x := by
  obtain ⟨thunk, hthunk, hinvoke⟩ := running_view hx
  refine ⟨fun n a => ?_, fun field h => sameField_clear x h,
    ⟨thunk, hthunk, fun g hg => invoke_congr hthunk hg⟩, fun o m isConst e => ?_⟩
  · have hrun := runThunk_target exec hinvoke (call E exec M n) a
    refine ⟨targetRun exec E x a, succeedRun V E (targetRun exec E x a), ?_, ?_,
      calls_targetRun exec x a, ?_, rfl, rfl⟩
    · rw [call_succ exec hr, hthunk]
      exact hrun
    · have hbody : tryCallBody E V exec M n r a = some (succeed E V (targetRun exec E x a)) := by
        rw [tryCallBody_eq V exec hr, hthunk]
        simp only [hrun, Option.map_some]
      rw [tryCall, hbody, Option.map_some, succeedRun]
      cases E.sig.isNoexcept <;> rfl
    · rw [calls_succeedRun, calls_targetRun]
  · subst e
    have haux : (viewOf E (some (.member o m isConst))).aux = storeAux E m := by
      cases isConst <;> rfl
    rw [haux]
    exact loadAux_storeAux hx

end FunctionWrapper.RefTargets
