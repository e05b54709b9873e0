import FunctionWrapper.InvokedTargets

/-!
What the owning wrappers tell about their targets.

The members for one signature look at both stores, and agree with `bound_signatures` and `target`.
-/

namespace FunctionWrapper.Introspection

open FunctionWrapper.Types FunctionWrapper.Traits FunctionWrapper.Signatures
open FunctionWrapper.Callables FunctionWrapper.Storage FunctionWrapper.Lifecycle
open FunctionWrapper.StorageForms FunctionWrapper.WrapperSpec FunctionWrapper.RunInvariant
open FunctionWrapper.Dispatch FunctionWrapper.DispatchSpec FunctionWrapper.InvokedTargets
open OwnedCells

variable {τ Val Fn : Type} [DecidableEq τ] (E : Env τ Val Fn)

/-- `has_bound_signature`. -/
def hasBoundSignature (W : World τ Val Fn) (w : ℕ) (s : Sig) : Option Bool :=
  if s ∉ E.sigs then some false
  else do
    let c ← W.constants w
    let storage ← W.storages (.of w)
    if useConstexprStorage W c storage then return (c.slots s).isSome
    else vtableHasBoundSignature E storage.vtablePtr s

variable {E}

/-- `target_signature`. -/
def targetSignature (F : FunctionPointers E) (W : World τ Val Fn) (w : ℕ) (s : Sig) :
    Option (Option Fn) :=
  if s ∉ E.sigs then some none
  else do
    let c ← W.constants w
    let storage ← W.storages (.of w)
    if useConstexprStorage W c storage then return c.slots s
    else match ← target E W w (F.signaturePointer s) with
      | none => return none
      | some k =>
        let v ← readAt (F.signaturePointer s) k W.mem
        (F.pointee (F.signaturePointer s)).map (· v)

variable {W : World τ Val Fn} {w : ℕ} {c : Constant Fn} {s : Sig}

lemma targetSignature_content (F : FunctionPointers E) (h : Inv E W) (hc : W.constants w = some c)
    (hrun : W.phase = .run) (hoff : c.active = false) (s : Sig) : targetSignature F W w s =
      some ((content W (.of w)).bind fun o =>
        if s ∈ E.sigs ∧ o.type = F.signaturePointer s then F.points o else none) := by
  obtain ⟨self, hself⟩ := h.toWhole.storage (w := w) (by simp [Live, hc])
  by_cases hs : s ∈ E.sigs
  · simp only [targetSignature, hs, not_true_eq_false, if_false, hc, hself,
      not_useConstexprStorage h hc hrun hoff hself, target_eq h (w := w) (by simp [Live, hc]),
      Option.bind_eq_bind, Option.bind_some, Bool.false_eq_true, true_and]
    rcases ho : content W (.of w) with _ | o
    · rfl
    · obtain ⟨-, -, k, hobj, hget⟩ := storage_of_content h.store hself ho
      have howner : owner W (.of w) = some k := by simp [owner, hself, hobj]
      obtain ⟨f, hf⟩ := Option.isSome_iff_exists.mp (F.pointer_signature s)
      by_cases hT : o.type = F.signaturePointer s
      · simp [hT, howner, readAt, hget, FunctionPointers.points, hf]
      · simp [hT]
  · rcases content W (.of w) with _ | o <;> simp [targetSignature, hs]

end FunctionWrapper.Introspection
