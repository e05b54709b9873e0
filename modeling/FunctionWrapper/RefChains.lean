import FunctionWrapper.ForwardChains
import FunctionWrapper.RefTargets

/-!
`function_ref`s that call other `function_ref`s.

Where the template for callable lvalues binds a `function_ref`, the view that results calls that
`function_ref`, whatever it shows later. A call follows such views from one to the next. It ends
unless they lead back to one of them, and a view can be made to call itself by assignments and by
swaps, but not by constructors.
-/

namespace FunctionWrapper.RefChains

open FunctionWrapper.Types FunctionWrapper.Traits FunctionWrapper.Signatures
open FunctionWrapper.FunctionRef FunctionWrapper.RefViews FunctionWrapper.RefTargets
open FunctionWrapper.CallResult
open ForwardChains TracedRuns StateTransition

variable {τ Obj Member Fn Arg Ret Exc : Type} (E : RefEnv τ Obj Member Fn)

/-- The fields of a view of a `function_ref`. -/
def linkTo (q : ℕ) : Ref τ Obj Fn := bindCallable (.ref q) .self false

/-- A `function_ref` shows a target, or calls another one that exists. -/
inductive Shown (M : Refs τ Obj Fn) : Ref τ Obj Fn → Prop
  | target {t : Option (Target Obj Member Fn)} (ht : Fits E t) : Shown M (viewOf E t)
  | link {q : ℕ} (hq : (M q).isSome = true) (hself : selfBindable E = true) : Shown M (linkTo q)

def AllShown (M : Refs τ Obj Fn) : Prop := ∀ r f, M r = some f → Shown E M f

section Next

variable [DecidableEq τ]

/-- The `function_ref` that the thunk of another one calls. -/
def callee (f : Ref τ Obj Fn) : Option ℕ :=
  match hop E f with
  | some (.through q) => some q
  | _ => none

def next (M : Refs τ Obj Fn) (r : ℕ) : Option ℕ := (M r).bind (callee E)

end Next

variable {E} {M M' : Refs τ Obj Fn} {r q : ℕ} {f : Ref τ Obj Fn} {op : Op Obj Member Fn}
variable {src : Source Obj Member Fn} {t : Option (Target Obj Member Fn)}

lemma Shown.mono (h : Shown E M f) (hM : ∀ q, (M q).isSome = true → (M' q).isSome = true) :
    Shown E M' f := by
  cases h with
  | target ht => exact .target ht
  | link hq hself => exact .link (hM _ hq) hself

variable [DecidableEq τ]

@[simp] lemma callee_viewOf (ht : Fits E t) : callee E (viewOf E t) = none := by
  rw [callee, hop_viewOf ht]
  cases t <;> rfl

@[simp] lemma callee_linkTo : callee E (linkTo q) = some q := rfl

lemma next_some (h : AllShown E M) (hrq : next E M r = some q) :
    M r = some (linkTo q) ∧ (M q).isSome = true ∧ selfBindable E = true := by
  obtain ⟨f, hr, hf⟩ := Option.bind_eq_some_iff.mp hrq
  have hshown := h r f hr
  cases hshown with
  | target ht =>
    rw [callee_viewOf ht] at hf
    cases hf
  | link hp hself =>
    obtain rfl := Option.some.inj hf
    exact ⟨hr, hp, hself⟩

variable (V : Moves Ret Exc) (exec : Target Obj Member Fn → Arg → Except Exc Ret)

/-- A call of the last `function_ref` of a chain, by its target. -/
def lastRun (E : RefEnv τ Obj Member Fn) (a : Arg) :
    Option (Target Obj Member Fn) → RefRun Obj Member Fn Arg Exc (Option Ret)
  | none => .throw .badCall
  | some x => targetRun exec E x a

/-- What `try_call` reports: it catches nothing, and sees only that the view itself is empty. -/
def lastResult (E : RefEnv τ Obj Member Fn) (a : Arg) (direct : Bool) :
    Option (Target Obj Member Fn) → RefRun Obj Member Fn Arg Exc (TryCallResult Ret)
  | none => if direct then .ret .empty else .throw .badCall
  | some x => succeedRun V E (targetRun exec E x a)

lemma call_link (h : AllShown E M) (hrq : next E M r = some q) (n : ℕ) (a : Arg) :
    call E exec M (n + 1) r a = call E exec M n q a := by
  obtain ⟨hr, -, hself⟩ := next_some h hrq
  have hplain : E.sig.isNoexcept = false := by
    simp only [selfBindable, Bool.and_eq_true, Bool.not_eq_true'] at hself
    exact hself.1.1
  rw [call_succ exec hr]
  simp [linkTo, bindCallable, running, Ref.clear, runThunk, invoke, invokeCallable, hplain]

lemma call_view (hq : M q = some (viewOf E t)) (ht : Fits E t) (n : ℕ) (a : Arg) :
    call E exec M (n + 1) q a = some (lastRun exec E a t) := by
  rw [call_succ exec hq]
  cases t with
  | none => rfl
  | some x =>
    obtain ⟨thunk, hthunk, hinvoke⟩ := running_view ht
    simp only [hthunk]
    exact runThunk_target exec hinvoke (call E exec M n) a

lemma call_chain (h : AllShown E M) (hrq : Reaches (next E M) r q) (hq : M q = some (viewOf E t))
    (ht : Fits E t) (a : Arg) :
    ∃ n₀, ∀ n, n₀ ≤ n → call E exec M n r a = some (lastRun exec E a t) := by
  induction hrq using Relation.ReflTransGen.head_induction_on with
  | refl =>
    refine ⟨1, fun n hn => ?_⟩
    obtain ⟨n, rfl⟩ := Nat.exists_eq_add_of_le' hn
    exact call_view exec hq ht n a
  | head hac _ ih =>
    obtain ⟨n₀, hn₀⟩ := ih
    refine ⟨n₀ + 1, fun n hn => ?_⟩
    obtain ⟨n, rfl⟩ := Nat.exists_eq_add_of_le' hn
    rw [← Nat.add_assoc, call_link exec h hac]
    exact hn₀ _ (by omega)

lemma tryCall_view (hq : M q = some (viewOf E t)) (ht : Fits E t) (n : ℕ) (a : Arg) :
    tryCall E V exec M n q a = some (lastResult V exec E a true t) := by
  cases t with
  | none => exact (showsNothing_clear V exec hq).tryCall n a
  | some x =>
    obtain ⟨y, z, -, hz, -, hcalls, -, hending⟩ := (showsTarget_view V exec hq ht).once n a
    have hsame : (succeedRun V E (targetRun exec E x a)).calls = [(x, a)] := by
      rw [calls_succeedRun, calls_targetRun]
    rw [hz, lastResult]
    exact congrArg some (Run.ext (hcalls.trans hsame.symm) hending)

lemma tryCall_link (h : AllShown E M) (hrq : next E M r = some q) {n : ℕ} {a : Arg}
    (hcall : call E exec M n q a = some (lastRun exec E a t)) :
    tryCall E V exec M n r a = some (lastResult V exec E a false t) := by
  obtain ⟨hr, -, hself⟩ := next_some h hrq
  have hplain : E.sig.isNoexcept = false := by
    simp only [selfBindable, Bool.and_eq_true, Bool.not_eq_true'] at hself
    exact hself.1.1
  have hthunk : runThunk E exec (call E exec M n) (linkTo q) (.invokeMutableCallable .self) a =
      some (lastRun exec E a t) := by
    simp [linkTo, bindCallable, Ref.clear, runThunk, invoke, invokeCallable, hplain, hcall]
  have hrunning : running (linkTo q : Ref τ Obj Fn) =
      some (.invokeMutableCallable .self) := rfl
  rw [tryCall, tryCallBody_eq V exec hr, hrunning]
  simp only [hthunk, hplain, Option.map_some, Bool.false_eq_true, if_false, id]
  cases t with
  | none => rfl
  | some x => simp [lastRun, lastResult, succeedRun, hplain]

end FunctionWrapper.RefChains
