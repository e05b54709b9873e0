import FunctionWrapper.ValueSemantics

/-!
The two ways of giving a wrapper its callable.

Constant evaluation keeps the function pointers the callable converts to, one for each declared
signature it has a conversion for. Run time keeps the callable, and serves the signatures it can be
invoked through. The wrappers agree where these are the same signatures and the same calls.
-/

namespace FunctionWrapper.ConstructionPaths

open FunctionWrapper.Types FunctionWrapper.Traits FunctionWrapper.Signatures
open FunctionWrapper.Callables FunctionWrapper.Storage FunctionWrapper.Lifecycle
open FunctionWrapper.RunInvariant FunctionWrapper.CallAcceptance FunctionWrapper.Dispatch
open FunctionWrapper.ValueSemantics

variable {τ Val Fn Raw Arg Ret Exc : Type} [DecidableEq τ]
variable (P : Program) (C : Calls τ Val Fn Raw Arg Ret Exc) (E : Env τ Val Fn)

/-- Two wrappers bind the same signatures and take every call alike. -/
structure Agree (W : World τ Val Fn) (w u : ℕ) : Prop where
  bound : boundSignatures E W w = boundSignatures E W u
  calls : ∀ mode cat s args,
    acceptedSignature P .wrapper mode E.sigs (C.types args) = some s →
      dispatch C E W w mode cat s args = dispatch C E W u mode cat s args

def NonNull (o : Object τ Val) : Prop :=
  ∀ s ∈ E.sigs, ∀ pointer, E.toPointer o.type s = some pointer → pointer o.val ≠ none

def Throws (mode : Mode) (s : Sig) (args : Raw) : Prop := ∃ e, convert C mode s args = .error e

/-- A call of the stored callable goes as a call of the function pointer: the callable can be
invoked in the category, invoking it comes out the same, and no exception of the conversion of the
arguments meets a `noexcept`. -/
structure SameCall (o : Object τ Val) (mode : Mode) (cat : Category) (s : Sig) (args : Raw)
    (pointer : Fn) : Prop where
  invocable : ¬ Throws C mode s args → E.exactInvocable o.type cat s = true
  result : outcome s ((convert C mode s args).bind (C.invoke o.type cat s o.val)) =
    outcome s ((C.cast s args).bind (C.apply s pointer))
  throws : Throws C mode s args → s.isNoexcept = false

/-- The signatures that constant evaluation binds are those that run time serves, and the calls on
both sides of that line go alike. -/
structure SamePaths (o o' : Object τ Val) : Prop where
  signatures : ∀ s ∈ E.sigs, (E.toPointer o.type s).isSome = E.supportsSignature o.type s
  calls : ∀ mode cat s args,
    acceptedSignature P .wrapper mode E.sigs (C.types args) = some s →
      match pointerOf E o s with
      | none => ¬ Throws C mode s args
      | some pointer => SameCall C E o' mode cat s args pointer

variable {P C E}

omit [DecidableEq τ] in
lemma not_throws_of_ok {mode : Mode} {s : Sig} {args : Raw} {b : Arg}
    (h : convert C mode s args = .ok b) : ¬ Throws C mode s args := by
  rintro ⟨e, he⟩
  rw [h] at he
  cases he

variable {W : World τ Val Fn} {A : Values τ Val} {ph : Phase} {w u : ℕ}

end FunctionWrapper.ConstructionPaths
