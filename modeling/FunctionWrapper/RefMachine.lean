import FunctionWrapper.Dispatch
import FunctionWrapper.RefChains
import FunctionWrapper.SharedMemory

/-!
The machine of views, with calls and questions.

A `function_ref` shows a target or goes through another `function_ref`: its address, thunks and
bytes say no more than that. Operations hand views on. A call runs the target at the end of a chain
of views, on objects that belong to the program.
-/

namespace FunctionWrapper.RefMachine

open FunctionWrapper.Types FunctionWrapper.Traits FunctionWrapper.Signatures
open FunctionWrapper.CallAcceptance FunctionWrapper.Dispatch FunctionWrapper.CallResult
open FunctionWrapper.FunctionRef FunctionWrapper.RefViews FunctionWrapper.RefTargets
open FunctionWrapper.RefChains
open Runs TracedRuns ForwardChains StateTransition

variable {σ Obj Member Fn Arg Ret Exc μ : Type} (R : RefEnv σ Obj Member Fn)

inductive View (Obj Member Fn : Type)
  | shows (t : Option (Target Obj Member Fn))
  | through (q : ℕ)

/-- The views of the `function_ref`s that exist. -/
abbrev Views (Obj Member Fn : Type) := ℕ → Option (View Obj Member Fn)

def View.hasValue : View Obj Member Fn → Bool
  | .shows t => t.isSome
  | .through _ => true

def View.fields : View Obj Member Fn → Ref σ Obj Fn
  | .shows t => viewOf R t
  | .through q => linkTo q

def refsOf (V : Views Obj Member Fn) : Refs σ Obj Fn := fun r => (V r).map (View.fields R)

/-- The view that follows another one in its chain. -/
def nextView (V : Views Obj Member Fn) (r : ℕ) : Option ℕ :=
  match V r with
  | some (.through q) => some q
  | _ => none

def Bindable : Source Obj Member Fn → Prop
  | .callable o isConst => (isConst = false ∧ R.bindable (R.typeOf o) false = true) ∨
      R.bindable (R.typeOf o) true = true
  | .member o isConst n => R.sizeOf (R.memberType n) ≤ kAuxStorageSize ∧
      ((isConst = false ∧ R.memberBindable (R.typeOf o) (R.memberType n) false = true) ∨
        R.memberBindable (R.typeOf o) (R.memberType n) true = true)
  | _ => True

def sourceView (V : Views Obj Member Fn) : Source Obj Member Fn → Option (View Obj Member Fn)
  | .ref q isConst => if !isConst && selfBindable R then (V q).map fun _ => .through q else V q
  | .expiring q => V q
  | src => some (.shows (boundTarget R src))

def CanRun (V : Views Obj Member Fn) : Op Obj Member Fn → Prop
  | .make r src => V r = none ∧ sourceView R V src ≠ none ∧ Bindable R src
  | .assign r src => V r ≠ none ∧ assignable src = true ∧ sourceView R V src ≠ none ∧
      Bindable R src
  | .reset r => V r ≠ none
  | .swap r q => V r ≠ none ∧ V q ≠ none

def viewStep (V : Views Obj Member Fn) : Op Obj Member Fn → Views Obj Member Fn
  | .make r src | .assign r src => Function.update V r (sourceView R V src)
  | .reset r => Function.update V r (some (.shows none))
  | .swap r q => Function.update (Function.update V r (V q)) q (V r)

/-- A callable or a member is called with the qualifiers that it was bound with. -/
def Called : Option (Target Obj Member Fn) → Prop
  | some (.callable o isConst) => R.bindable (R.typeOf o) isConst = true
  | some (.member o n isConst) => R.memberBindable (R.typeOf o) (R.memberType n) isConst = true
  | _ => True

/-- A view shows a target that can be called, whose member pointer fits, or goes through a
`function_ref` that exists and that can be bound. -/
def ValidView (V : Views Obj Member Fn) : View Obj Member Fn → Prop
  | .shows t => Fits R t ∧ Called R t
  | .through q => V q ≠ none ∧ selfBindable R = true

def Valid (V : Views Obj Member Fn) : Prop := ∀ r v, V r = some v → ValidView R V v

variable {R} {V V' : Views Obj Member Fn} {op : Op Obj Member Fn} {src : Source Obj Member Fn}
variable {r q : ℕ} {v : View Obj Member Fn}

@[simp] lemma refsOf_eq_none : refsOf R V r = none ↔ V r = none := by simp [refsOf]

@[simp] lemma refsOf_isSome : (refsOf R V r).isSome = (V r).isSome := by simp [refsOf]

lemma refsOf_update (r : ℕ) (v : Option (View Obj Member Fn)) :
    refsOf R (Function.update V r v) = Function.update (refsOf R V) r (v.map (View.fields R)) := by
  funext p
  by_cases hpr : p = r
  · subst hpr
    simp [refsOf]
  · simp [refsOf, hpr]

lemma sourceExists_eq : sourceExists (refsOf R V) src = (sourceView R V src).isSome := by
  cases src with
  | ref q isConst =>
    simp only [sourceExists, refsOf_isSome, sourceView]
    split <;> simp
  | expiring q => simp [sourceExists, sourceView]
  | _ => rfl

lemma fields_isSome (hex : sourceView R V src ≠ none) :
    (fields R (refsOf R V) src).isSome = true ↔ Bindable R src := by
  cases src with
  | ref q isConst =>
    rw [← Option.isSome_iff_ne_none, ← sourceExists_eq (R := R)] at hex
    rw [fields_ref]
    refine iff_of_true ?_ trivial
    split
    · rfl
    · exact hex
  | expiring q =>
    rw [← Option.isSome_iff_ne_none, ← sourceExists_eq (R := R)] at hex
    exact iff_of_true hex trivial
  | callable o isConst =>
    simp only [fields, resolve_callable, Bindable]
    cases isConst <;> cases R.bindable (R.typeOf o) false <;>
      cases R.bindable (R.typeOf o) true <;> simp [chosen]
  | member o isConst n =>
    simp only [fields, Bindable]
    by_cases hsize : kAuxStorageSize < R.sizeOf (R.memberType n)
    · simp [hsize]
    · cases isConst <;> cases R.memberBindable (R.typeOf o) (R.memberType n) false <;>
        cases R.memberBindable (R.typeOf o) (R.memberType n) true <;>
        simp [hsize, Nat.not_lt.mp hsize]
  | null | pointer p => exact iff_of_true rfl trivial

lemma fields_sourceView {f : Ref σ Obj Fn} (hex : sourceView R V src ≠ none)
    (hf : fields R (refsOf R V) src = some f) :
    (sourceView R V src).map (View.fields R) = some f := by
  cases src with
  | ref q isConst =>
    rw [fields_ref] at hf
    simp only [sourceView] at hex ⊢
    split at hf
    · next hbind =>
      rw [if_pos hbind] at hex ⊢
      cases hv : V q with
      | none => simp [hv] at hex
      | some v => exact hf
    · next hcopy =>
      rw [if_neg hcopy]
      exact hf
  | expiring q => exact hf
  | null | pointer p | callable o isConst | member o isConst n =>
    rw [(fields_bound (by simp) hf).2]
    rfl

lemma fields_eq_some_iff {f : Ref σ Obj Fn} (hex : sourceView R V src ≠ none) :
    fields R (refsOf R V) src = some f ↔
      Bindable R src ∧ (sourceView R V src).map (View.fields R) = some f := by
  rw [← fields_isSome hex]
  constructor
  · exact fun hf => ⟨by simp [hf], fields_sourceView hex hf⟩
  · rintro ⟨hsome, hview⟩
    obtain ⟨g, hg⟩ := Option.isSome_iff_exists.mp hsome
    rw [hg, ← hview, fields_sourceView hex hg]

lemma bind_iff {M' : Refs σ Obj Fn} :
    (sourceExists (refsOf R V) src = true ∧ ∃ f, fields R (refsOf R V) src = some f ∧
        Function.update (refsOf R V) r (some f) = M') ↔
      sourceView R V src ≠ none ∧ Bindable R src ∧
        M' = refsOf R (Function.update V r (sourceView R V src)) := by
  rw [refsOf_update, sourceExists_eq, Option.isSome_iff_ne_none]
  refine and_congr_right fun hex => ?_
  simp only [fields_eq_some_iff hex]
  constructor
  · rintro ⟨f, ⟨hbind, hview⟩, rfl⟩
    exact ⟨hbind, by rw [hview]⟩
  · rintro ⟨hbind, rfl⟩
    obtain ⟨v, hv⟩ := Option.ne_none_iff_exists'.mp hex
    exact ⟨v.fields R, ⟨hbind, by rw [hv]; rfl⟩, by rw [hv]; rfl⟩

/-- **Operations on the fields are operations on the views.** -/
theorem step_iff {M' : Refs σ Obj Fn} : step R (refsOf R V) op = some M' ↔
    CanRun R V op ∧ M' = refsOf R (viewStep R V op) := by
  cases op with
  | make r src =>
    simp only [step, Option.bind_eq_bind, Option.bind_eq_some_iff, Option.guard_eq_some',
      CanRun, viewStep, and_assoc, ← bind_iff, Option.isNone_iff_eq_none, refsOf_eq_none]
    simp
  | assign r src =>
    rw [CanRun, viewStep, and_assoc, and_assoc, and_assoc, ← bind_iff]
    simp only [step, Option.bind_eq_bind, Option.bind_eq_some_iff, Option.guard_eq_some',
      refsOf_isSome, Option.isSome_iff_ne_none (o := V r), and_assoc]
    simp [and_left_comm]
  | reset r =>
    simp only [step, Option.bind_eq_bind, Option.bind_eq_some_iff, Option.guard_eq_some', CanRun,
      viewStep, refsOf_update, refsOf_isSome, Option.isSome_iff_ne_none (o := V r)]
    constructor
    · rintro ⟨-, hr, hM⟩
      exact ⟨hr, (Option.some.inj hM).symm⟩
    · rintro ⟨hr, rfl⟩
      exact ⟨(), hr, rfl⟩
  | swap r q =>
    rw [step, CanRun, viewStep, refsOf_update, refsOf_update]
    rcases hr : V r with _ | v
    · simp [refsOf, hr]
    · rcases hq : V q with _ | v'
      · simp [refsOf, hr, hq]
      · simp [refsOf, hr, hq, eq_comm]

lemma ValidView.mono (h : ValidView R V v) (hV : ∀ q, V q ≠ none → V' q ≠ none) :
    ValidView R V' v := by
  cases v with
  | shows t => exact h
  | through q => exact ⟨hV q h.1, h.2⟩

/-- What is bound as a constant, or only because it can be, can be bound so. -/
lemma qualified_bindable {b : Bool → Bool} {isConst : Bool}
    (h : (isConst = false ∧ b false = true) ∨ b true = true) :
    b (isConst || !b false) = true := by
  cases isConst <;> cases hb : b false <;> simp_all

lemma validView_source (h : Valid R V) (hsrc : Bindable R src) (hv : sourceView R V src = some v) :
    ValidView R V v := by
  cases src with
  | ref q isConst =>
    simp only [sourceView] at hv
    split at hv
    · next hbind =>
      obtain ⟨v', hq, rfl⟩ := Option.map_eq_some_iff.mp hv
      exact ⟨by simp [hq], by simp_all⟩
    · exact h q v hv
  | expiring q => exact h q v hv
  | member o isConst n =>
    obtain rfl := Option.some.inj hv
    exact ⟨hsrc.1, qualified_bindable hsrc.2⟩
  | callable o isConst =>
    obtain rfl := Option.some.inj hv
    exact ⟨trivial, qualified_bindable hsrc⟩
  | null =>
    obtain rfl := Option.some.inj hv
    exact ⟨trivial, trivial⟩
  | pointer p =>
    obtain rfl := Option.some.inj hv
    cases p <;> exact ⟨trivial, trivial⟩

lemma viewStep_alive (hrun : CanRun R V op) (hq : V q ≠ none) : viewStep R V op q ≠ none := by
  have hupdate : ∀ (U : Views Obj Member Fn) r v, v ≠ none → U q ≠ none →
      Function.update U r v q ≠ none := by
    intro U r v hv hU
    by_cases hqr : q = r
    · rwa [hqr, Function.update_self]
    · rwa [Function.update_of_ne hqr]
  cases op with
  | make r src => exact hupdate V r _ hrun.2.1 hq
  | assign r src => exact hupdate V r _ hrun.2.2.1 hq
  | reset r => exact hupdate V r _ (Option.some_ne_none _) hq
  | swap r p => exact hupdate _ p _ hrun.1 (hupdate V r _ hrun.2 hq)

lemma valid_step (h : Valid R V) (hrun : CanRun R V op) : Valid R (viewStep R V op) := by
  have hupdate : ∀ (U : Views Obj Member Fn) r u, (∀ p v, U p = some v → ValidView R V v) →
      (∀ v, u = some v → ValidView R V v) →
      ∀ p v, Function.update U r u p = some v → ValidView R V v := by
    intro U r u hU hu p v hp
    by_cases hpr : p = r
    · rw [hpr, Function.update_self] at hp
      exact hu v hp
    · rw [Function.update_of_ne hpr] at hp
      exact hU p v hp
  suffices hviews : ∀ r v, viewStep R V op r = some v → ValidView R V v from
    fun r v hr => (hviews r v hr).mono fun q => viewStep_alive hrun
  cases op with
  | make r src => exact hupdate V r _ h fun v => validView_source h hrun.2.2
  | assign r src => exact hupdate V r _ h fun v => validView_source h hrun.2.2.2
  | reset r =>
    refine hupdate V r _ h fun v hv => ?_
    obtain rfl := Option.some.inj hv
    exact ⟨trivial, trivial⟩
  | swap r q => exact hupdate _ q _ (hupdate V r _ h fun v => h q v) fun v => h r v

/-! ### Chains of views -/

lemma allShown_refsOf (h : Valid R V) : AllShown R (refsOf R V) := by
  intro r f hr
  obtain ⟨v, hv, rfl⟩ := Option.map_eq_some_iff.mp hr
  have hvalid := h r v hv
  cases v with
  | shows t => exact .target hvalid.1
  | through q => exact .link (by simpa [Option.isSome_iff_ne_none] using hvalid.1) hvalid.2

variable [DecidableEq σ]

lemma next_refsOf (h : Valid R V) : next R (refsOf R V) = nextView V := by
  funext r
  rw [next, refsOf, nextView]
  cases hr : V r with
  | none => rfl
  | some v =>
    cases v with
    | shows t => exact callee_viewOf (h r _ hr).1
    | through q => rfl

/-- What targets do on the objects of a program, and which objects they leave. Moves of results
leave the objects as they are. -/
structure Execution (Obj Member Fn Arg Ret Exc μ : Type) where
  moves : Moves Ret Exc
  exec : μ → Target Obj Member Fn → Arg → Except Exc Ret
  leaves : μ → Target Obj Member Fn → Arg → μ

/-- A `function_ref` throws beside the exceptions of its targets those of the library, and has no
value for `void`. -/
def refOutcome (s : Sig) : Outcome Ret Exc → Outcome (Option Ret) (Thrown Exc)
  | .value r => .value (returned s r)
  | .propagated e => .propagated (.target e)
  | .failed f => .failed f
  | .terminated => .terminated

/-- What the caller sees of what a target gave: `try_call` moves a result. -/
def handOver (V : Moves Ret Exc) (s : Sig) :
    Mode → Outcome (Option Ret) (Thrown Exc) → Outcome (Option Ret) (Thrown Exc)
  | .tryCall, .value v =>
    match TryCallResult.success V s.ret v with
    | .ok r => .value r.value
    | .error e => if s.isNoexcept then .terminated else .propagated (.passing e)
  | _, seen => seen

lemma handOver_of_keeps {V : Moves Ret Exc} {s : Sig} {mode : Mode}
    (h : mode = .tryCall → V.Keeps s) (x : Outcome Ret Exc) :
    handOver V s mode (refOutcome s x) = refOutcome s x := by
  cases mode with
  | call => cases x <;> rfl
  | tryCall => cases x <;> simp [handOver, refOutcome, (h rfl).success_eq]

/-- What the caller of `call` sees. -/
def callSeen : Ending (Thrown Exc) (Option Ret) → Outcome (Option Ret) (Thrown Exc)
  | .returns v => .value v
  | .throws e => .propagated e
  | .terminates => .terminated

/-- What the caller of `try_call` sees. -/
def tryCallSeen : Ending (Thrown Exc) (TryCallResult Ret) → Outcome (Option Ret) (Thrown Exc)
  | .returns r =>
    match r.status with
    | .success => .value r.value
    | .empty => .failed .empty
    | .signatureMismatch => .failed .mismatch
  | .throws e => .propagated e
  | .terminates => .terminated

section Calls

variable (R) (moves : Moves Ret Exc) (exec : Target Obj Member Fn → Arg → Except Exc Ret)

/-- A call: the targets it runs, and what its caller sees. -/
def callRef (M : Refs σ Obj Fn) (mode : Mode) (n r : ℕ) (a : Arg) :
    Option (List (Target Obj Member Fn × Arg) × Outcome (Option Ret) (Thrown Exc)) :=
  match mode with
  | .call => (call R exec M n r a).map fun y => (y.calls, callSeen y.ending)
  | .tryCall => (tryCall R moves exec M n r a).map fun z => (z.calls, tryCallSeen z.ending)

/-- What the caller sees of the view at the end of a chain. `direct` says that it was called
itself. -/
def viewCall (mode : Mode) (direct : Bool) (a : Arg) :
    Option (Target Obj Member Fn) → Outcome (Option Ret) (Thrown Exc)
  | some x => handOver moves R.sig mode (refOutcome R.sig (outcome R.sig (exec x a)))
  | none => if mode = .tryCall ∧ direct = true then .failed .empty else .propagated .badCall

variable {R} {moves} {exec} {t : Option (Target Obj Member Fn)} {mode : Mode} {a : Arg} {n : ℕ}

omit [DecidableEq σ] in
lemma callSeen_target (x : Target Obj Member Fn) (a : Arg) :
    callSeen (targetRun exec R x a).ending = refOutcome R.sig (outcome R.sig (exec x a)) := by
  rw [targetRun, invokeTarget]
  cases hs : R.sig.isNoexcept <;> cases hx : exec x a <;>
    simp [Run.call, Run.bind_ret, Run.noexcept, Except.mapError, Ending.ofExcept, Ending.map, outcome,
      callSeen, refOutcome, hs]

omit [DecidableEq σ] in
lemma tryCallSeen_target (x : Target Obj Member Fn) (a : Arg) :
    tryCallSeen (succeedRun moves R (targetRun exec R x a)).ending =
      handOver moves R.sig .tryCall (refOutcome R.sig (outcome R.sig (exec x a))) := by
  rw [succeedRun, succeed, targetRun, invokeTarget]
  cases hx : exec x a with
  | error e =>
    cases hs : R.sig.isNoexcept <;>
      simp [Run.call, Run.bind, Run.noexcept, Except.mapError, Ending.ofExcept, outcome, tryCallSeen,
        refOutcome, handOver, hs]
  | ok v =>
    cases hv : TryCallResult.success moves R.sig.ret (returned R.sig v) with
    | error e =>
      cases hs : R.sig.isNoexcept <;>
        simp [Run.call, Run.ret, Run.lift, Run.bind, Run.noexcept, Except.mapError, Ending.ofExcept,
          outcome, tryCallSeen, refOutcome, handOver, hs, hv]
    | ok r =>
      have hstatus := TryCallResult.status_of_success hv
      cases hs : R.sig.isNoexcept <;>
        simp [Run.call, Run.ret, Run.lift, Run.bind, Run.noexcept, Except.mapError, Ending.ofExcept,
          outcome, tryCallSeen, refOutcome, handOver, hv, hstatus]

omit [DecidableEq σ] in
variable (moves) in
lemma lastRun_seen (direct : Bool) (a : Arg) (t : Option (Target Obj Member Fn)) :
    ((lastRun exec R a t).calls, callSeen (lastRun exec R a t).ending) =
      (t.toList.map (·, a), viewCall R moves exec .call direct a t) := by
  cases t with
  | none => simp [lastRun, Run.throw, callSeen, viewCall]
  | some x => simp [lastRun, calls_targetRun, callSeen_target, viewCall, handOver]

omit [DecidableEq σ] in
lemma lastResult_seen (direct : Bool) (a : Arg) (t : Option (Target Obj Member Fn)) :
    ((lastResult moves exec R a direct t).calls,
        tryCallSeen (lastResult moves exec R a direct t).ending) =
      (t.toList.map (·, a), viewCall R moves exec .tryCall direct a t) := by
  cases t with
  | none => cases direct <;> rfl
  | some x => simp [lastResult, calls_succeedRun, calls_targetRun, tryCallSeen_target, viewCall]

lemma exists_last_of_call (h : Valid R V) {y : RefRun Obj Member Fn Arg Exc (Option Ret)}
    (hcall : call R exec (refsOf R V) n r a = some y) :
    ∃ q t, Reaches (nextView V) r q ∧ V q = some (.shows t) ∧ y = lastRun exec R a t := by
  induction n generalizing r with
  | zero => cases hcall
  | succ n ih =>
    cases hr : V r with
    | none => simp [call, refsOf, hr] at hcall
    | some v =>
      have hf : refsOf R V r = some (v.fields R) := by rw [refsOf, hr, Option.map_some]
      cases v with
      | shows t =>
        rw [call_view exec hf (h r _ hr).1] at hcall
        exact ⟨r, t, .refl, hr, (Option.some.inj hcall).symm⟩
      | through q =>
        have hnext : nextView V r = some q := by rw [nextView, hr]
        rw [call_link exec (allShown_refsOf h) (by rwa [next_refsOf h])] at hcall
        obtain ⟨p, t, hqp, hp, hy⟩ := ih hcall
        exact ⟨p, t, hqp.head hnext, hp, hy⟩

lemma exists_call_of_tryCall (hr : V r = some (.through q))
    {z : RefRun Obj Member Fn Arg Exc (TryCallResult Ret)}
    (hcall : tryCall R moves exec (refsOf R V) n r a = some z) :
    ∃ y, call R exec (refsOf R V) n q a = some y := by
  have hf : refsOf R V r = some (linkTo q) := by rw [refsOf, hr]; rfl
  have hrunning : running (linkTo q : Ref σ Obj Fn) = some (.invokeMutableCallable .self) := rfl
  rw [tryCall, tryCallBody_eq moves exec hf, hrunning] at hcall
  cases hy : call R exec (refsOf R V) n q a with
  | some y => exact ⟨y, rfl⟩
  | none =>
    simp [runThunk, linkTo, bindCallable, Ref.clear, invoke, invokeCallable, hy] at hcall

/-- **A call runs the target at the end of its chain**, where the chain has an end. -/
theorem callRef_iff (h : Valid R V)
    {p : List (Target Obj Member Fn × Arg) × Outcome (Option Ret) (Thrown Exc)} :
    (∃ n, callRef R moves exec (refsOf R V) mode n r a = some p) ↔
      ∃ q t, Reaches (nextView V) r q ∧ V q = some (.shows t) ∧
        p = (t.toList.map (·, a), viewCall R moves exec mode (decide (r = q)) a t) := by
  have hshown : AllShown R (refsOf R V) := allShown_refsOf h
  have hnext : next R (refsOf R V) = nextView V := next_refsOf h
  have hview : ∀ {q t}, V q = some (.shows t) → refsOf R V q = some (viewOf R t) := by
    intro q t hq
    rw [refsOf, hq, Option.map_some, View.fields]
  cases mode with
  | call =>
    constructor
    · rintro ⟨n, hcall⟩
      obtain ⟨y, hy, rfl⟩ := Option.map_eq_some_iff.mp hcall
      obtain ⟨q, t, hrq, hq, rfl⟩ := exists_last_of_call h hy
      exact ⟨q, t, hrq, hq, lastRun_seen moves _ a t⟩
    · rintro ⟨q, t, hrq, hq, rfl⟩
      obtain ⟨n, hn⟩ := call_chain exec hshown (by rwa [hnext]) (hview hq) (h q _ hq).1 a
      exact ⟨n, by rw [callRef, hn n le_rfl, Option.map_some, lastRun_seen]⟩
  | tryCall =>
    constructor
    · rintro ⟨n, hcall⟩
      obtain ⟨z, hz, rfl⟩ := Option.map_eq_some_iff.mp hcall
      cases hr : V r with
      | none => simp [tryCall, tryCallBody, refsOf, hr] at hz
      | some v =>
        cases v with
        | shows t =>
          rw [tryCall_view moves exec (hview hr) (h r _ hr).1] at hz
          obtain rfl := Option.some.inj hz
          exact ⟨r, t, .refl, hr, by rw [decide_eq_true rfl, lastResult_seen]⟩
        | through q =>
          have hrq : nextView V r = some q := by rw [nextView, hr]
          obtain ⟨y, hy⟩ := exists_call_of_tryCall hr hz
          obtain ⟨p, t, hqp, hp, rfl⟩ := exists_last_of_call h hy
          have hne : r ≠ p := by
            rintro rfl
            cases hr.symm.trans hp
          rw [tryCall_link moves exec hshown (by rwa [hnext]) hy] at hz
          obtain rfl := Option.some.inj hz
          exact ⟨p, t, hqp.head hrq, hp, by rw [decide_eq_false hne, lastResult_seen]⟩
    · rintro ⟨q, t, hrq, hq, rfl⟩
      rcases Relation.ReflTransGen.cases_head hrq with rfl | ⟨p, hrp, hpq⟩
      · exact ⟨0, by rw [callRef, tryCall_view moves exec (hview hq) (h r _ hq).1, Option.map_some,
          decide_eq_true rfl, lastResult_seen]⟩
      · obtain ⟨n, hn⟩ := call_chain exec hshown (by rwa [hnext]) (hview hq) (h q _ hq).1 a
        have hne : r ≠ q := by
          rintro rfl
          simp [nextView, hq] at hrp
        exact ⟨n, by rw [callRef, tryCall_link moves exec hshown (by rwa [hnext]) (hn n le_rfl),
          Option.map_some, decide_eq_false hne, lastResult_seen]⟩

end Calls

/-! ### The machine -/

/-- What the program sees of a step. -/
inductive RefEvent (Obj Member Fn Arg Ret Exc : Type)
  | op (op : Op Obj Member Fn)
  | call (r : ℕ) (mode : Mode) (a : Arg) (seen : Outcome (Option Ret) (Thrown Exc))
  | ask (r : ℕ) (hasValue : Bool)

section Systems

variable (R) (X : Execution Obj Member Fn Arg Ret Exc μ)

/-- The `function_ref`s of a program, beside its objects. -/
def refs : Open μ (Refs σ Obj Fn) (RefEvent Obj Member Fn Arg Ret Exc) where
  init M := M = fun _ => none
  step m M e m' M' :=
    match e with
    | .op op => step R M op = some M' ∧ m' = m
    | .call r mode a seen => ∃ n ran, callRef R X.moves (X.exec m) M mode n r a = some (ran, seen) ∧
        seen ≠ .terminated ∧ M' = M ∧ m' = ran.foldl (fun m x => X.leaves m x.1 x.2) m
    | .ask r hasValue => (M r).map Ref.hasValue = some hasValue ∧ M' = M ∧ m' = m

/-- The machine of views. A call that does not end, or that ends the program, has no next step. -/
def views : Open μ (Views Obj Member Fn) (RefEvent Obj Member Fn Arg Ret Exc) where
  init V := V = fun _ => none
  step m V e m' V' :=
    match e with
    | .op op => CanRun R V op ∧ V' = viewStep R V op ∧ m' = m
    | .call r mode a seen => ∃ q t, Reaches (nextView V) r q ∧ V q = some (.shows t) ∧
        seen = viewCall R X.moves (X.exec m) mode (decide (r = q)) a t ∧ seen ≠ .terminated ∧ V' = V ∧
        m' = t.elim m fun x => X.leaves m x a
    | .ask r hasValue => (V r).map View.hasValue = some hasValue ∧ V' = V ∧ m' = m

variable {R} {X} {m m' : μ} {e : RefEvent Obj Member Fn Arg Ret Exc}

omit [DecidableEq σ] in
lemma hasValue_fields (v : View Obj Member Fn) : (v.fields R).hasValue = v.hasValue := by
  cases v with
  | shows t => exact hasValue_viewOf
  | through q => rfl

omit [DecidableEq σ] in
lemma foldl_leaves (t : Option (Target Obj Member Fn)) (a : Arg) :
    (t.toList.map (·, a)).foldl (fun m x => X.leaves m x.1 x.2) m =
      t.elim m fun x => X.leaves m x a := by
  cases t <;> rfl

omit [DecidableEq σ] in
lemma valid_views_step (h : Valid R V) (hs : (views R X).step m V e m' V') : Valid R V' := by
  cases e with
  | op op =>
    obtain ⟨hrun, rfl, -⟩ := hs
    exact valid_step h hrun
  | call r mode a seen =>
    obtain ⟨q, t, -, -, -, -, rfl, -⟩ := hs
    exact h
  | ask r hasValue =>
    obtain ⟨-, rfl, -⟩ := hs
    exact h

/-- The chain from a `function_ref` comes to a target. -/
def Leads (V : Views Obj Member Fn) (r : ℕ) (x : Target Obj Member Fn) : Prop :=
  ∃ q, Reaches (nextView V) r q ∧ V q = some (.shows (some x))

omit [DecidableEq σ] in
/-- A call of a `function_ref` that leads to a target runs that target. -/
lemma call_of_leads {x : Target Obj Member Fn} (hx : Leads V r x) {mode : Mode} {a : Arg}
    {seen : Outcome (Option Ret) (Thrown Exc)} :
    (views R X).step m V (.call r mode a seen) m' V' ↔
      seen = handOver X.moves R.sig mode (refOutcome R.sig (outcome R.sig (X.exec m x a))) ∧
        seen ≠ .terminated ∧ V' = V ∧ m' = X.leaves m x a := by
  obtain ⟨p, hrp, hp⟩ := hx
  constructor
  · rintro ⟨q, t, hrq, hq, rfl, hend, hV, rfl⟩
    obtain rfl : p = q := last_unique hrp (by rw [nextView, hp]) hrq (by rw [nextView, hq])
    obtain rfl : t = some x := by simpa [hq] using hp
    exact ⟨rfl, hend, hV, rfl⟩
  · rintro ⟨rfl, hend, rfl, rfl⟩
    exact ⟨p, some x, hrp, hp, rfl, hend, rfl, rfl⟩

/-- **The fields do what the views do**, and nothing else. -/
theorem refs_step_iff (h : Valid R V) {M' : Refs σ Obj Fn} :
    (refs R X).step m (refsOf R V) e m' M' ↔
      ∃ V', (views R X).step m V e m' V' ∧ M' = refsOf R V' := by
  cases e with
  | op op =>
    simp only [refs, views, step_iff]
    constructor
    · rintro ⟨⟨hrun, rfl⟩, rfl⟩
      exact ⟨_, ⟨hrun, rfl, rfl⟩, rfl⟩
    · rintro ⟨V', ⟨hrun, rfl, rfl⟩, rfl⟩
      exact ⟨⟨hrun, rfl⟩, rfl⟩
  | call r mode a seen =>
    constructor
    · rintro ⟨n, ran, hcall, hend, rfl, rfl⟩
      obtain ⟨q, t, hrq, hq, hp⟩ := (callRef_iff h).mp ⟨n, hcall⟩
      obtain ⟨rfl, rfl⟩ := Prod.mk.inj hp
      exact ⟨V, ⟨q, t, hrq, hq, rfl, hend, rfl, foldl_leaves t a⟩, rfl⟩
    · rintro ⟨V', ⟨q, t, hrq, hq, rfl, hend, rfl, rfl⟩, rfl⟩
      obtain ⟨n, hcall⟩ := (callRef_iff h).mpr ⟨q, t, hrq, hq, rfl⟩
      exact ⟨n, _, hcall, hend, rfl, (foldl_leaves t a).symm⟩
  | ask r hasValue =>
    have hvalue : (refsOf R V r).map Ref.hasValue = (V r).map View.hasValue := by
      rw [refsOf, Option.map_map]
      exact congrArg (Option.map · (V r)) (funext hasValue_fields)
    simp only [refs, views, hvalue]
    constructor
    · rintro ⟨hask, rfl, rfl⟩
      exact ⟨V, ⟨hask, rfl, rfl⟩, rfl⟩
    · rintro ⟨V', ⟨hask, rfl, rfl⟩, rfl⟩
      exact ⟨hask, rfl, rfl⟩

variable (R) (X)

def forward : Open.Simulation (refs R X) (views R X) id id where
  Rel M V := M = refsOf R V ∧ Valid R V
  init M hM := ⟨_, rfl, hM, nofun⟩
  step m M V e m' M' := by
    rintro ⟨rfl, h⟩ hs
    obtain ⟨V', hs', rfl⟩ := (refs_step_iff h).mp hs
    exact ⟨e, V', hs', rfl, rfl, valid_views_step h hs'⟩

def backward : Open.Simulation (views R X) (refs R X) id id where
  Rel V M := M = refsOf R V ∧ Valid R V
  init V hV := by
    obtain rfl : V = fun _ => none := hV
    exact ⟨_, rfl, rfl, nofun⟩
  step m V M e m' V' := by
    rintro ⟨rfl, h⟩ hs
    exact ⟨e, _, (refs_step_iff h).mpr ⟨V', hs, rfl⟩, rfl, rfl, valid_views_step h hs⟩

end Systems

end FunctionWrapper.RefMachine
